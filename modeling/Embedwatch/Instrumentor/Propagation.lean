import Embedwatch.Instrumentor.FunctionInstrumentor
import Embedwatch.Pass.Instrument

/-! How ids come to the parameters of the instrumented functions: the analysis attaches `zref` metadata
to their calls, and `Zbouncer` replaces the calls by calls with the ids as arguments. -/

namespace Embedwatch.Instrumentor

open Library.PlainText Library.Replacement Ir Pass

def zref (name : Text) : Text := ['z', 'r', 'e', 'f', '_'] ++ name

section Callees

variable (m : Module)

def instrumentedCallee (i : Inst) : Option Function :=
  match i.op with
  | .call (some callee) =>
    m.functions.find? fun g => g.ref = callee && endsWith g.name instrumentedSuffix
  | .call none | .other _ => none

end Callees

/-- What is known of the argument at a position of a call, which has the value of the call: whether its
node has a value, whether it can alias a parameter of the caller, and the id of the definition found. -/
structure Pointees where
  hasValue : ℕ → ℕ → Bool
  noAlias : ℕ → ℕ → ℕ → Bool
  definition : ℕ → ℕ → Option (BitVec 32)

namespace Pointees

variable (analysis : Pointees) (m : Module)

def checkParameterAliasing (F : Function) (call k : ℕ) : Option Param :=
  (F.params.zipIdx.find? fun p => !analysis.noAlias call k p.2).map Prod.fst

def value (F : Function) (call k : ℕ) : Option Text :=
  if !analysis.hasValue call k then none
  else match analysis.checkParameterAliasing F call k with
    | some p => some (p.name ++ idSuffix)
    | none => (analysis.definition call k).map fun id => signedDecimal id.toInt

/-- `setMetadata` replaces metadata of the same kind. -/
def setMetadata (i : Inst) (kind text : Text) : Inst :=
  { i with metadata := Function.update i.metadata kind (some text) }

lemma metadata_setMetadata (i : Inst) (kind text name : Text) :
    (setMetadata i kind text).metadata name =
      if name = kind then some text else i.metadata name :=
  Function.update_apply _ _ _ _

def annotateArgument (F g : Function) (i : Inst) (argument : Operand × ℕ) : Inst :=
  if !argument.1.type.isPointerTy then i
  else match g.params[argument.2]?, analysis.value F i.value argument.2 with
    | some p, some text => setMetadata i (zref (p.name ++ idSuffix)) text
    | _, _ => i

def annotateCall (F : Function) (i : Inst) : Inst :=
  match instrumentedCallee m i with
  | some g => i.operands.zipIdx.foldl (analysis.annotateArgument F g) i
  | none => i

def annotate : Module :=
  { m with functions := m.functions.map fun F =>
      { F with body := F.body.map fun code => code.map (analysis.annotateCall m F) } }

end Pointees

/-- `std::stoi`, which throws for text without digits and for numbers that are too large. -/
def stoi (text : Text) : Option ℕ := (readNat 10 text).filter (· < 2 ^ 31)

def numeric (text : Text) : Bool := text.all Char.isDigit

def namedArgument (F : Function) (name : Text) (o : Operand) : Operand :=
  F.params.zipIdx.foldl (fun o p => if p.1.name = name then ⟨.arg p.2, p.1.type⟩ else o) o

def rewriteArgument (F : Function) (i : Inst) (p : Param) (o : Operand) : Option Operand :=
  match i.metadata (zref p.name) with
  | none => some o
  | some text =>
    if numeric text then (stoi text).map fun n => ⟨.packed (BitVec.ofNat 16 n), .int32⟩
    else some (namedArgument F text o)

def rewriteArguments (F : Function) (i : Inst) : List Param → List Operand → Option (List Operand)
  | p :: ps, o :: os => do
    let o' ← rewriteArgument F i p o
    let os' ← rewriteArguments F i ps os
    some (o' :: os')
  | _, os => some os

section Propagation

variable (m : Module)

def isReplaced (i : Inst) : Bool :=
  match instrumentedCallee m i with
  | some g => g.params.any fun p => (i.metadata (zref p.name)).isSome
  | none => false

def newCall (F : Function) (i : Inst) : Option Inst := do
  let g ← instrumentedCallee m i
  let operands ← rewriteArguments F i g.params i.operands
  some ⟨m.next + i.value, i.op, operands, fun _ => none⟩

def withNewCall (F : Function) (i : Inst) : Option (List Inst) :=
  if isReplaced m i then (newCall m F i).map fun call => [call, i] else some [i]

def withNewCalls (F : Function) : Option Function :=
  match F.body with
  | none => some F
  | some code => (code.mapM (withNewCall m F)).map fun code => { F with body := some code.flatten }

def replacedPairs : List (ℕ × ℕ) :=
  (m.code.filter (isReplaced m)).map fun i => (i.value, m.next + i.value)

/-- The last phase of `runOnModule`, and the pairs in the order in which they are replaced. -/
def propagateDefs (order : List (ℕ × ℕ) → List (ℕ × ℕ)) : Option (Module × List (ℕ × ℕ)) := do
  let functions ← m.functions.mapM (withNewCalls m)
  let pairs := order (replacedPairs m)
  some
    ({ m with
        functions := functions.map fun F =>
          { F with body := F.body.map fun code => eraseReplaced code pairs }
        next := m.next + m.next },
      pairs)

end Propagation

variable {analysis : Pointees} {m : Module} {F g : Function} {i : Inst} {name text : Text}

lemma zref_injective {name name' : Text} (h : zref name = zref name') : name = name' :=
  List.append_cancel_left h

lemma mem_of_instrumentedCallee (h : instrumentedCallee m i = some g) :
    g ∈ m.functions ∧ i.op = .call (some g.ref) := by
  rw [instrumentedCallee] at h
  split at h
  · rename_i callee hop
    have hfound := List.find?_some h
    rw [Bool.and_eq_true, decide_eq_true_iff] at hfound
    exact ⟨List.mem_of_find?_eq_some h, hfound.1 ▸ hop⟩
  · cases h
  · cases h

structure Annotates (i i' : Inst) : Prop where
  value : i'.value = i.value
  op : i'.op = i.op
  operands : i'.operands = i.operands

lemma annotates_annotateCall (analysis : Pointees) (m : Module) (F : Function) (i : Inst) :
    Annotates i (analysis.annotateCall m F i) := by
  rw [Pointees.annotateCall]
  split
  · rename_i g _
    have hfold : ∀ (arguments : List (Operand × ℕ)) (i' : Inst), Annotates i i' →
        Annotates i (arguments.foldl (analysis.annotateArgument F g) i') := by
      intro arguments
      induction arguments with
      | nil => exact fun _ h => h
      | cons argument arguments ih =>
        intro i' h
        apply ih
        rw [Pointees.annotateArgument]
        split
        · exact h
        · split
          · exact ⟨h.value, h.op, h.operands⟩
          · exact h
    exact hfold _ _ ⟨rfl, rfl, rfl⟩
  · exact ⟨rfl, rfl, rfl⟩

lemma value_cases {call k : ℕ} (h : analysis.value F call k = some text) :
    (∃ p : Param, text = p.name ++ idSuffix) ∨ ∃ id : BitVec 32, text = signedDecimal id.toInt := by
  rw [Pointees.value] at h
  split at h
  · cases h
  · split at h
    · rename_i p _
      exact Or.inl ⟨p, (Option.some.inj h).symm⟩
    · obtain ⟨id, -, rfl⟩ := Option.map_eq_some_iff.mp h
      exact Or.inr ⟨id, rfl⟩

lemma metadata_annotateCall (hnone : ∀ name, i.metadata (zref name) = none)
    (h : (analysis.annotateCall m F i).metadata (zref name) = some text) :
    ∃ (g : Function) (k : ℕ) (p : Param) (o : Operand), instrumentedCallee m i = some g ∧
      g.params[k]? = some p ∧ i.operands[k]? = some o ∧ o.type.isPointerTy ∧
        name = p.name ++ idSuffix ∧ ((∃ p : Param, text = p.name ++ idSuffix) ∨
          ∃ id : BitVec 32, text = signedDecimal id.toInt) := by
  rw [Pointees.annotateCall] at h
  split at h
  · rename_i g hg
    have hfold : ∀ (arguments : List (Operand × ℕ)) (i' : Inst),
        (arguments.foldl (analysis.annotateArgument F g) i').metadata (zref name) = some text →
          i'.metadata (zref name) = some text ∨ ∃ argument ∈ arguments, ∃ p,
            g.params[argument.2]? = some p ∧ argument.1.type.isPointerTy ∧
              name = p.name ++ idSuffix ∧ ((∃ p : Param, text = p.name ++ idSuffix) ∨
                ∃ id : BitVec 32, text = signedDecimal id.toInt) := by
      intro arguments
      induction arguments with
      | nil => exact fun _ h => Or.inl h
      | cons argument arguments ih =>
        intro i' h
        rcases ih _ h with h | ⟨argument', hmem, hrest⟩
        · rw [Pointees.annotateArgument] at h
          split at h
          · exact Or.inl h
          · rename_i hpointer
            split at h
            · rename_i p text' hp hvalue
              rw [Pointees.metadata_setMetadata] at h
              by_cases hkind : zref name = zref (p.name ++ idSuffix)
              · rw [if_pos hkind] at h
                rw [Option.some.inj h] at hvalue
                rw [Bool.not_eq_true', Bool.not_eq_false] at hpointer
                exact Or.inr ⟨argument, List.mem_cons_self, p, hp, hpointer, zref_injective hkind,
                  value_cases hvalue⟩
              · rw [if_neg hkind] at h
                exact Or.inl h
            · exact Or.inl h
        · exact Or.inr ⟨argument', List.mem_cons_of_mem _ hmem, hrest⟩
    rcases hfold _ _ h with h | ⟨argument, hmem, p, hp, hpointer, hname, htext⟩
    · rw [hnone] at h
      cases h
    · have ho : i.operands[argument.2]? = some argument.1 := List.mem_zipIdx_iff_getElem?.mp hmem
      exact ⟨g, argument.2, p, argument.1, hg, hp, ho, hpointer, hname, htext⟩
  · rw [hnone] at h
    cases h

lemma rewriteArguments_some (ps : List Param) (os : List Operand)
    (h : ∀ p ∈ ps, ∀ o, ∃ o', rewriteArgument F i p o = some o') :
    ∃ os', rewriteArguments F i ps os = some os' := by
  induction ps generalizing os with
  | nil => exact ⟨os, by rw [rewriteArguments]; simp⟩
  | cons p ps ih =>
    cases os with
    | nil => exact ⟨[], rfl⟩
    | cons o os =>
      obtain ⟨o', ho⟩ := h p List.mem_cons_self o
      obtain ⟨os', hos⟩ := ih os fun q hq => h q (List.mem_cons_of_mem _ hq)
      refine ⟨o' :: os', ?_⟩
      rw [rewriteArguments, ho, hos]
      rfl

lemma rewriteArguments_spec {ps : List Param} {os os' : List Operand}
    (h : rewriteArguments F i ps os = some os') : os'.length = os.length ∧
      (∀ (k : ℕ) o, ps[k]? = none → os[k]? = some o → os'[k]? = some o) ∧
        ∀ (k : ℕ) p o, ps[k]? = some p → os[k]? = some o →
          ∃ o', rewriteArgument F i p o = some o' ∧ os'[k]? = some o' := by
  induction ps generalizing os os' with
  | nil =>
    have h : some os = some os' := by
      rw [← h, rewriteArguments]
      simp
    cases h
    exact ⟨rfl, fun _ _ _ ho => ho, fun k p o hp => by cases hp⟩
  | cons p ps ih =>
    cases os with
    | nil =>
      have h : some [] = some os' := h
      cases h
      exact ⟨rfl, fun _ _ _ ho => ho, fun k p o _ ho => by cases ho⟩
    | cons o os =>
      rw [rewriteArguments] at h
      obtain ⟨o', ho', h⟩ := Option.bind_eq_some_iff.mp h
      obtain ⟨os'', hos, h⟩ := Option.bind_eq_some_iff.mp h
      cases h
      obtain ⟨hlength, hrest, hspec⟩ := ih hos
      refine ⟨by rw [List.length_cons, List.length_cons, hlength], ?_, ?_⟩
      · intro k q hp hq
        cases k with
        | zero => cases hp
        | succ k => exact hrest k q hp hq
      · intro k q q' hp hq
        cases k with
        | zero =>
          cases hp
          cases hq
          exact ⟨o', ho', rfl⟩
        | succ k => exact hspec k q q' hp hq

lemma foldl_named {l : List (Param × ℕ)} (o : Operand) :
    (∀ x ∈ l, x.1.name ≠ text) →
      l.foldl (fun o p => if p.1.name = text then ⟨.arg p.2, p.1.type⟩ else o) o = o := by
  intro h
  induction l with
  | nil => rfl
  | cons x l ih =>
    rw [List.foldl_cons, if_neg (h x List.mem_cons_self)]
    exact ih fun y hy => h y (List.mem_cons_of_mem _ hy)

lemma foldl_named_of_mem {l : List (Param × ℕ)} {x : Param × ℕ} (hx : x ∈ l)
    (hname : x.1.name = text) (hunique : ∀ y ∈ l, y.1.name = text → y = x) (o : Operand) :
    l.foldl (fun o p => if p.1.name = text then ⟨.arg p.2, p.1.type⟩ else o) o =
      ⟨.arg x.2, x.1.type⟩ := by
  induction l generalizing o with
  | nil => cases hx
  | cons y l ih =>
    rw [List.foldl_cons]
    by_cases hmem : x ∈ l
    · exact ih hmem (fun z hz => hunique z (List.mem_cons_of_mem _ hz)) _
    · obtain rfl := (List.mem_cons.mp hx).resolve_right hmem
      rw [if_pos hname]
      apply foldl_named
      intro z hz heq
      exact hmem (hunique z (List.mem_cons_of_mem _ hz) heq ▸ hz)

lemma namedArgument_of_none (h : ∀ c ∈ F.params, c.name ≠ text) (o : Operand) :
    namedArgument F text o = o := by
  apply foldl_named
  intro x hx
  exact h x.1 (List.mem_of_getElem? (List.mem_zipIdx_iff_getElem?.mp hx))

lemma namedArgument_of_some (hnames : ((F.params.map Param.name).filter (· ≠ [])).Nodup)
    {a : ℕ} {c : Param} (hc : F.params[a]? = some c) (hname : c.name = text) (hne : text ≠ [])
    (o : Operand) : namedArgument F text o = ⟨.arg a, c.type⟩ := by
  have hmem : (c, a) ∈ F.params.zipIdx := List.mem_zipIdx_iff_getElem?.mpr hc
  refine foldl_named_of_mem hmem hname ?_ o
  rintro ⟨d, b⟩ hd hdname
  have hd : F.params[b]? = some d := List.mem_zipIdx_iff_getElem?.mp hd
  have hsame := index_unique hnames hd hc (hdname.trans hname.symm) (hname ▸ hne)
  subst hsame
  rw [hd] at hc
  rw [Option.some.inj hc]

end Embedwatch.Instrumentor
