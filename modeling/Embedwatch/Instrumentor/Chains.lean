import Embedwatch.Instrumentor.Propagation
import Embedwatch.Instrumentor.Redirection
import Embedwatch.Library.Runs
import Mathlib.Data.List.Infix

/-! Which ids the activations along a chain of calls get. -/

namespace Embedwatch.Instrumentor

open Library.PlainText Library.Replacement Ir Pass

def ownParams (original : ℕ → Option Function) (g : Function) : List Param :=
  ((original g.ref).getD g).params

def IdParameter (original : ℕ → Option Function) (g : Function) (i : Inst) (k : ℕ) : Prop :=
  ∃ f p j, original g.ref = some f ∧ f.pointerParams[j]? = some p ∧ k = f.params.length + j ∧
    (i.metadata (zref (p.name ++ idSuffix))).isSome

structure Rewritten (original : ℕ → Option Function) (m : Module) (σ : ℕ → ℕ) (i j : Inst) :
    Prop where
  value : j.value = σ i.value
  op : j.op = i.op
  length : j.operands.length = i.operands.length
  operands : ∀ k o, i.operands[k]? = some o →
    (∀ g, instrumentedCallee m i = some g → ¬ IdParameter original g i k) →
      j.operands[k]? = some (o.subst σ)

structure Activation (α : Type) where
  function : Function
  arguments : ℕ → α
  values : ℕ → α
  counter : BitVec 16

section Chains

variable {α : Type} (word : Word → α) (constant : ℤ → α)

def operandValue (a : Activation α) (o : Operand) : α :=
  match o.source with
  | .inst v => a.values v
  | .arg k => a.arguments k
  | .const c => constant c
  | .packed id => word (useParam id a.counter)

variable (original : ℕ → Option Function) (m m' : Module) (pairs : List (ℕ × ℕ))

structure Begins (a : Activation α) (i : Inst) (b : Activation α) : Prop where
  caller : a.function ∈ m.functions
  call : i ∈ a.function.code
  callee : instrumentedCallee m i = some b.function
  arguments : ∃ j ∈ m'.code, j.value = replacement pairs i.value ∧
    ∀ k o, j.operands[k]? = some o → b.arguments k = operandValue word constant a o

inductive Chain (id : Word) : Activation α → Param → Prop
  | first {a b : Activation α} {i : Inst} {f : Function} {p : Param} {text : Text} {n : ℕ} :
      Begins word constant m m' pairs a i b → original b.function.ref = some f →
      p ∈ f.pointerParams → i.metadata (zref (p.name ++ idSuffix)) = some text → numeric text →
      stoi text = some n → id = useParam (BitVec.ofNat 16 n) a.counter → Chain id b p
  | next {a b : Activation α} {i : Inst} {f : Function} {p q : Param} :
      Chain id a p → Begins word constant m m' pairs a i b → original b.function.ref = some f →
      q ∈ f.pointerParams → i.metadata (zref (q.name ++ idSuffix)) = some (p.name ++ idSuffix) →
      Chain id b q

end Chains

def iuseParameter (F : Function) (iuse : Text) : Option ℕ :=
  F.params.findIdx? fun p => p.name = iuse

/-- The lookup of `def_ref` among the arguments, when the use runs. -/
def Activation.defRef (b : Activation Word) (iuse : Text) : Option Word :=
  (iuseParameter b.function iuse).map b.arguments

structure Propagated (original : ℕ → Option Function) (m m' : Module) (pairs : List (ℕ × ℕ)) :
    Prop where
  values : Set.InjOn (replacement pairs) {v | v ∈ m.code.map Inst.value}
  rewritten : List.Forall₂ (fun F F' => F'.ref = F.ref ∧ F'.name = F.name ∧ F'.params = F.params ∧
    Option.Rel (List.Forall₂ (Rewritten original m (replacement pairs))) F.body F'.body)
      m.functions m'.functions
  uses : ∀ j ∈ m'.code, ∀ o ∈ j.operands, ∀ v, o.source = .inst v → v ∉ pairs.map Prod.fst
  carried : ∀ (α : Type) (word : Word → α) (constant : ℤ → α) id (b : Activation α) p,
    Chain word constant original m m' pairs id b p →
      ∃ k, iuseParameter b.function (p.name ++ idSuffix) = some k ∧ b.arguments k = word id

section Reports

variable {original : ℕ → Option Function} {m m' : Module} {pairs : List (ℕ × ℕ)}
  {constant : ℤ → Word} {id : Word} {b : Activation Word} {p : Param}

lemma Propagated.defRef_eq (h : Propagated original m m' pairs)
    (hchain : Chain (fun w => w) constant original m m' pairs id b p) :
    b.defRef (p.name ++ idSuffix) = some id := by
  obtain ⟨k, hk, harg⟩ := h.carried Word (fun w => w) constant id b p hchain
  rw [Activation.defRef, hk, Option.map_some, harg]

theorem Propagated.store_reports (h : Propagated original m m' pairs)
    (hchain : Chain (fun w => w) constant original m m' pairs id b p) {st : StoreUse}
    (hst : st.defRef = b.defRef (p.name ++ idSuffix)) {call : Host.Call} (hcall : call ∈ st.calls)
    (mem : Host.Memory) : Host.eventRecord (mem, call) =
      some (.iuseRec (useParam st.use st.recCounter) id st.endAddr) := by
  have hdefRef : st.defRef = some id := hst.trans (h.defRef_eq hchain)
  obtain ⟨r, hr, hreports⟩ := st.reports hcall mem
  rw [hdefRef] at hreports
  rcases hreports with ⟨hnone, -⟩ | rfl
  · cases hnone
  · exact hr

theorem Propagated.libUse_reports (h : Propagated original m m' pairs)
    (hchain : Chain (fun w => w) constant original m m' pairs id b p) {l : LibUse}
    (hl : l.defRef = b.defRef (p.name ++ idSuffix)) {addr size : Word} (haddr : l.addr = some addr)
    (hsize : l.sizeOfWrite = some size) {calls : List Host.Call} (hcalls : l.calls = some calls)
    {call : Host.Call} (hcall : call ∈ calls) (mem : Host.Memory) : Host.eventRecord (mem, call) =
      some (.iuseRec (useParam l.use l.recCounter) id (Host.endOfWrite mem addr size)) := by
  have hdefRef : l.defRef = some id := hl.trans (h.defRef_eq hchain)
  obtain ⟨cs, hcs, -, hall⟩ := l.reports haddr hsize
  cases hcs.symm.trans hcalls
  obtain ⟨r, hr, hreports⟩ := hall call hcall mem
  rw [hdefRef] at hreports
  rcases hreports with ⟨hnone, -⟩ | rfl
  · cases hnone
  · exact hr

end Reports

def HarmlessCall (original : ℕ → Option Function) (m : Module) (F : Function) (i : Inst) : Prop :=
  ∀ g, instrumentedCallee m i = some g →
    ∀ (k : ℕ) (p q : Param), (ownParams original g)[k]? = some p → q ∈ ownParams original g →
      q.type.isPointerTy → p.name = q.name ++ idSuffix →
        ∀ text, i.metadata (zref p.name) = some text → ¬ numeric text ∧
          ∀ (a : ℕ) (c : Param), F.params[a]? = some c → c.name = text →
            i.operands[k]? = some ⟨.arg a, c.type⟩

def Harmless (original : ℕ → Option Function) (m : Module) : Prop :=
  ∀ F ∈ m.functions, ∀ i ∈ F.code, HarmlessCall original m F i

structure Extended (r : Renaming) (original : ℕ → Option Function) (m : Module) : Prop where
  wellFormed : m.WellFormed
  params : ∀ g ∈ m.functions, ∀ f, original g.ref = some f → g.params = cloneParams r f
  names : ∀ g ∈ m.functions, ((g.params.map Param.name).filter (· ≠ [])).Nodup
  unpacked : ∀ i ∈ m.code, ∀ o ∈ i.operands, ∀ id, o.source ≠ .packed id

structure Annotated (r : Renaming) (original : ℕ → Option Function) (m : Module) : Prop extends
    Extended r original m where
  pointers : ∀ i ∈ m.code, ∀ g, instrumentedCallee m i = some g → ∀ name text,
    i.metadata (zref name) = some text →
      ∃ q ∈ ownParams original g, q.type.isPointerTy ∧ name = q.name ++ idSuffix
  texts : ∀ i ∈ m.code, ∀ name text, i.metadata (zref name) = some text → numeric text →
    ∃ n, stoi text = some n

variable {r : Renaming} {original : ℕ → Option Function} {m m' : Module} {analysis : Pointees}
  {F g : Function} {i : Inst}

lemma mem_annotate {F' : Function} : F' ∈ (analysis.annotate m).functions ↔ ∃ F ∈ m.functions,
    { F with body := F.body.map fun code => code.map (analysis.annotateCall m F) } = F' :=
  List.mem_map

lemma mem_code_annotate {i' : Inst} (h : i' ∈ (analysis.annotate m).code) :
    ∃ F ∈ m.functions, ∃ i ∈ F.code, analysis.annotateCall m F i = i' := by
  obtain ⟨F', hF', hi⟩ := List.mem_flatMap.mp h
  obtain ⟨F, hF, rfl⟩ := mem_annotate.mp hF'
  rw [Function.code] at hi
  cases hbody : F.body with
  | none => simp [hbody] at hi
  | some code =>
    simp only [hbody, Option.map_some, Option.getD_some] at hi
    obtain ⟨i, hmem, rfl⟩ := List.mem_map.mp hi
    refine ⟨F, hF, i, ?_, rfl⟩
    rw [Function.code, hbody]
    exact hmem

lemma values_annotate :
    (analysis.annotate m).code.map Inst.value = m.code.map Inst.value := by
  rw [Module.code, Module.code, List.map_flatMap, List.map_flatMap, Pointees.annotate,
    List.flatMap_map]
  congr 1
  funext F
  rw [Function.code, Function.code]
  cases F.body with
  | none => rfl
  | some code =>
    simp only [Option.map_some, Option.getD_some, List.map_map]
    apply List.map_congr_left
    intro i _
    exact (annotates_annotateCall analysis m F i).value

lemma wellFormed_annotate (h : m.WellFormed) : (analysis.annotate m).WellFormed where
  names := by
    have hsymbols : (analysis.annotate m).symbols = m.symbols := by
      rw [Module.symbols, Pointees.annotate, List.map_map]
      rfl
    rw [hsymbols]
    exact h.names
  refs := by
    rw [Pointees.annotate, List.map_map]
    exact h.refs
  nextRef F' hF' := by
    obtain ⟨F, hF, rfl⟩ := mem_annotate.mp hF'
    exact h.nextRef F hF
  values := by
    rw [values_annotate]
    exact h.values
  next i' hi' := by
    obtain ⟨F, hF, i, hi, rfl⟩ := mem_code_annotate hi'
    rw [(annotates_annotateCall analysis m F i).value]
    exact h.next i (mem_code_of_mem hF hi)
  typed i' hi' c hc := by
    obtain ⟨F, hF, i, hi, rfl⟩ := mem_code_annotate hi'
    have hannotates := annotates_annotateCall analysis m F i
    rw [hannotates.op] at hc
    obtain ⟨g, hg, href, htypes⟩ := h.typed i (mem_code_of_mem hF hi) c hc
    rw [hannotates.operands]
    exact ⟨_, mem_annotate.mpr ⟨g, hg, rfl⟩, href, htypes⟩

lemma instrumentedCallee_annotate {i' : Inst} (hop : i'.op = i.op)
    (h : instrumentedCallee (analysis.annotate m) i' = some g) :
    ∃ g', instrumentedCallee m i = some g' ∧ g.ref = g'.ref ∧ g.params = g'.params := by
  rw [instrumentedCallee, hop] at h
  rw [instrumentedCallee]
  split at h
  · rename_i callee _
    rw [Pointees.annotate, List.find?_map] at h
    obtain ⟨g', hg', rfl⟩ := Option.map_eq_some_iff.mp h
    exact ⟨g', hg', rfl, rfl⟩
  · cases h
  · cases h

lemma not_numeric_idSuffix (name : Text) : ¬ numeric (name ++ idSuffix) := by
  intro h
  have hmem : '_' ∈ name ++ idSuffix := List.mem_append_right _ List.mem_cons_self
  exact absurd (List.all_eq_true.mp h '_' hmem) (by decide)

lemma stoi_signedDecimal (id : BitVec 32) (h : numeric (signedDecimal id.toInt)) :
    ∃ n, stoi (signedDecimal id.toInt) = some n := by
  have hlt := id.toInt_lt
  cases hid : id.toInt with
  | ofNat n =>
    refine ⟨n, ?_⟩
    have hn : n < 2 ^ 31 := by
      rw [hid] at hlt
      have hlt : (n : ℤ) < 2 ^ 31 := by simpa using hlt
      exact_mod_cast hlt
    rw [stoi, signedDecimal, decimal_eq_zeroPadded, readNat_zeroPadded (by decide) (by decide)]
    simpa using hn
  | negSucc n =>
    rw [hid] at h
    exact absurd (List.all_eq_true.mp h '-' List.mem_cons_self) (by decide)

lemma type_of_typed (h : m.WellFormed) (hi : i ∈ m.code) (hg : instrumentedCallee m i = some g)
    {k : ℕ} {p : Param} (hp : g.params[k]? = some p) :
    ∃ o, i.operands[k]? = some o ∧ o.type = p.type := by
  obtain ⟨hgm, hop⟩ := mem_of_instrumentedCallee hg
  obtain ⟨g', hg', href, ⟨rest, htypes⟩, -⟩ := h.typed i hi g.ref hop
  have hsame : g' = g := List.inj_on_of_nodup_map h.refs hg' hgm href
  subst hsame
  have htype : (i.operands.map Operand.type)[k]? = some p.type := by
    have hlt := (List.getElem?_eq_some_iff.mp hp).1
    rw [← htypes, List.getElem?_append_left (by rw [Function.types, List.length_map]; exact hlt),
      Function.types, List.getElem?_map, hp]
    rfl
  rw [List.getElem?_map] at htype
  exact Option.map_eq_some_iff.mp htype

lemma type_of_mem_idParams {taken : List Text} {ps : List Param} {p : Param}
    (h : p ∈ idParams r taken ps) : p.type = .int32 := by
  have htypes := types_idParams (r := r) taken ps
  have hmem : p.type ∈ (idParams r taken ps).map Param.type := List.mem_map_of_mem h
  rw [htypes] at hmem
  exact List.eq_of_mem_replicate hmem

lemma annotated_annotate (analysis : Pointees) (h : Extended r original m)
    (hnone : ∀ i ∈ m.code, ∀ name, i.metadata (zref name) = none) :
    Annotated r original (analysis.annotate m) where
  wellFormed := wellFormed_annotate h.wellFormed
  params g' hg' f hf := by
    obtain ⟨g, hg, rfl⟩ := mem_annotate.mp hg'
    exact h.params g hg f hf
  names g' hg' := by
    obtain ⟨g, hg, rfl⟩ := mem_annotate.mp hg'
    exact h.names g hg
  unpacked i' hi' := by
    obtain ⟨F, hF, i, hi, rfl⟩ := mem_code_annotate hi'
    rw [(annotates_annotateCall analysis m F i).operands]
    exact h.unpacked i (mem_code_of_mem hF hi)
  pointers i' hi' g' hg' name text htext := by
    obtain ⟨F, hF, i, hi, rfl⟩ := mem_code_annotate hi'
    have him := mem_code_of_mem hF hi
    obtain ⟨g, k, p, o, hg, hp, ho, hpointer, hname, -⟩ :=
      metadata_annotateCall (hnone i him) htext
    obtain ⟨g'', hg'', href, hparams⟩ :=
      instrumentedCallee_annotate (annotates_annotateCall analysis m F i).op hg'
    cases hg.symm.trans hg''
    obtain ⟨o', ho', htype⟩ := type_of_typed h.wellFormed him hg hp
    cases ho.symm.trans ho'
    rw [htype] at hpointer
    refine ⟨p, ?_, hpointer, hname⟩
    have hmem := List.mem_of_getElem? hp
    rw [ownParams, href]
    cases hf : original g.ref with
    | none =>
      rw [Option.getD_none, hparams]
      exact hmem
    | some f =>
      rw [h.params g (mem_of_instrumentedCallee hg).1 f hf, cloneParams, List.mem_append] at hmem
      rcases hmem with hmem | hmem
      · exact hmem
      · rw [type_of_mem_idParams hmem] at hpointer
        cases hpointer
  texts i' hi' name text htext hnumeric := by
    obtain ⟨F, hF, i, hi, rfl⟩ := mem_code_annotate hi'
    obtain ⟨-, -, -, -, -, -, -, -, -, htext⟩ :=
      metadata_annotateCall (hnone i (mem_code_of_mem hF hi)) htext
    rcases htext with ⟨p, rfl⟩ | ⟨id, rfl⟩
    · exact absurd hnumeric (not_numeric_idSuffix p.name)
    · exact stoi_signedDecimal id hnumeric

def standIn (m : Module) (F : Function) (i : Inst) : Inst :=
  if isReplaced m i then (newCall m F i).getD i else i

lemma standIn_of_not (h : ¬ isReplaced m i) : standIn m F i = i := if_neg h

lemma isReplaced_of_metadata (hg : instrumentedCallee m i = some g) {p : Param} (hp : p ∈ g.params)
    {text : Text} (htext : i.metadata (zref p.name) = some text) : isReplaced m i := by
  rw [isReplaced, hg]
  exact List.any_eq_true.mpr ⟨p, hp, by rw [htext]; rfl⟩

namespace Annotated

variable (h : Annotated r original m)

include h in
lemma exists_newCall (hi : i ∈ m.code) (hreplaced : isReplaced m i) :
    ∃ g os, instrumentedCallee m i = some g ∧
      rewriteArguments F i g.params i.operands = some os ∧
        newCall m F i = some ⟨m.next + i.value, i.op, os, fun _ => none⟩ := by
  rw [isReplaced] at hreplaced
  split at hreplaced
  · rename_i g hg
    obtain ⟨os, hos⟩ := rewriteArguments_some (F := F) (i := i) g.params i.operands
      (by
        intro p _ o
        rw [rewriteArgument]
        split
        · exact ⟨o, rfl⟩
        · rename_i text htext
          split
          · rename_i hnumeric
            obtain ⟨n, hn⟩ := h.texts i hi p.name text htext hnumeric
            rw [hn]
            exact ⟨_, rfl⟩
          · exact ⟨_, rfl⟩)
    refine ⟨g, os, hg, hos, ?_⟩
    simp only [newCall, hg, hos, Option.bind_eq_bind, Option.bind_some]
  · cases hreplaced

include h in
lemma standIn_of_replaced (hi : i ∈ m.code) (hreplaced : isReplaced m i) :
    ∃ g os, instrumentedCallee m i = some g ∧
      rewriteArguments F i g.params i.operands = some os ∧
        standIn m F i = ⟨m.next + i.value, i.op, os, fun _ => none⟩ := by
  obtain ⟨g, os, hg, hos, hcall⟩ := h.exists_newCall (F := F) hi hreplaced
  refine ⟨g, os, hg, hos, ?_⟩
  rw [standIn, if_pos hreplaced, hcall]
  rfl

include h in
lemma withNewCall_eq (hi : i ∈ m.code) : withNewCall m F i =
    some (if isReplaced m i then [standIn m F i, i] else [i]) := by
  rw [withNewCall]
  split
  · rename_i hreplaced
    obtain ⟨g, os, -, -, hcall⟩ := h.exists_newCall (F := F) hi hreplaced
    rw [standIn, if_pos hreplaced, hcall]
    rfl
  · rfl

end Annotated

lemma mapM_some {α β : Type*} {f : α → Option β} {g : α → β} {l : List α}
    (h : ∀ a ∈ l, f a = some (g a)) : l.mapM f = some (l.map g) := by
  induction l with
  | nil => rfl
  | cons a l ih =>
    rw [List.mapM_cons, h a List.mem_cons_self, ih fun b hb => h b (List.mem_cons_of_mem _ hb)]
    rfl

section Pairs

variable {pairs : List (ℕ × ℕ)} (hpairs : pairs.Perm (replacedPairs m)) (hwf : m.WellFormed)

include hpairs in
lemma mem_keys {v : ℕ} :
    v ∈ pairs.map Prod.fst ↔ ∃ i ∈ m.code, isReplaced m i ∧ i.value = v := by
  rw [(hpairs.map Prod.fst).mem_iff, replacedPairs, List.map_map, List.mem_map]
  constructor
  · rintro ⟨i, hi, rfl⟩
    exact ⟨i, List.mem_of_mem_filter hi, List.of_mem_filter hi, rfl⟩
  · rintro ⟨i, hi, hreplaced, rfl⟩
    exact ⟨i, List.mem_filter.mpr ⟨hi, hreplaced⟩, rfl⟩

include hpairs hwf in
lemma mem_keys_of_mem (hi : i ∈ m.code) : i.value ∈ pairs.map Prod.fst ↔ isReplaced m i := by
  rw [mem_keys hpairs]
  constructor
  · rintro ⟨j, hj, hreplaced, hvalue⟩
    rw [List.inj_on_of_nodup_map hwf.values hj hi hvalue] at hreplaced
    exact hreplaced
  · intro hreplaced
    exact ⟨i, hi, hreplaced, rfl⟩

include hpairs hwf in
lemma notMem_keys_of_le {v : ℕ} (hv : m.next ≤ v) : v ∉ pairs.map Prod.fst := by
  rw [mem_keys hpairs]
  rintro ⟨i, hi, -, rfl⟩
  exact absurd (hwf.next i hi) (not_lt.mpr hv)

include hpairs hwf in
lemma fresh_pairs : ∀ p ∈ pairs, p.2 ∉ pairs.map Prod.fst := by
  intro p hp
  apply notMem_keys_of_le hpairs hwf
  obtain ⟨i, -, rfl⟩ := List.mem_map.mp (hpairs.mem_iff.mp hp)
  exact Nat.le_add_right _ _

include hpairs hwf in
lemma replacement_value (hi : i ∈ m.code) : replacement pairs i.value =
    if isReplaced m i then m.next + i.value else i.value := by
  split
  · rename_i hreplaced
    apply replacement_of_mem
    · rw [(hpairs.map Prod.fst).nodup_iff, replacedPairs, List.map_map]
      exact List.Nodup.sublist (List.filter_sublist.map _) hwf.values
    · rw [hpairs.mem_iff]
      exact List.mem_map.mpr ⟨i, List.mem_filter.mpr ⟨hi, hreplaced⟩, rfl⟩
  · rename_i hreplaced
    apply replacement_of_notMem
    rw [mem_keys_of_mem hpairs hwf hi]
    exact hreplaced

include hpairs hwf in
lemma replacement_notMem_keys (v : ℕ) : replacement pairs v ∉ pairs.map Prod.fst := by
  by_cases hv : v ∈ pairs.map Prod.fst
  · obtain ⟨i, hi, hreplaced, rfl⟩ := (mem_keys hpairs).mp hv
    rw [replacement_value hpairs hwf hi, if_pos hreplaced]
    exact notMem_keys_of_le hpairs hwf (Nat.le_add_right _ _)
  · rw [replacement_of_notMem hv]
    exact hv

include hpairs hwf in
lemma replacement_injOn :
    Set.InjOn (replacement pairs) {v | v ∈ m.code.map Inst.value} := by
  intro v hv w hw heq
  obtain ⟨i, hi, rfl⟩ := List.mem_map.mp hv
  obtain ⟨j, hj, rfl⟩ := List.mem_map.mp hw
  rw [replacement_value hpairs hwf hi, replacement_value hpairs hwf hj] at heq
  have hilt := hwf.next i hi
  have hjlt := hwf.next j hj
  split at heq <;> split at heq <;> omega

end Pairs

def propagated (m : Module) (pairs : List (ℕ × ℕ)) : Module :=
  { m with
    functions := m.functions.map fun F =>
      { F with body := F.body.map fun code =>
          code.map fun i => (standIn m F i).subst (replacement pairs) }
    next := m.next + m.next }

lemma Annotated.value_standIn (h : Annotated r original m) (hi : i ∈ m.code) :
    (standIn m F i).value = if isReplaced m i then m.next + i.value else i.value := by
  split
  · rename_i hreplaced
    obtain ⟨g, os, -, -, heq⟩ := h.standIn_of_replaced (F := F) hi hreplaced
    rw [heq]
  · rename_i hreplaced
    rw [standIn_of_not hreplaced]

lemma eraseReplaced_withNewCalls (h : Annotated r original m) {pairs : List (ℕ × ℕ)}
    (hpairs : pairs.Perm (replacedPairs m)) {code : List Inst} (hcode : ∀ i ∈ code, i ∈ m.code) :
    eraseReplaced (code.map fun i =>
      if isReplaced m i then [standIn m F i, i] else [i]).flatten pairs =
        code.map fun i => (standIn m F i).subst (replacement pairs) := by
  have hwf := h.wellFormed
  rw [eraseReplaced_eq (fresh_pairs hpairs hwf)]
  induction code with
  | nil => rfl
  | cons i code ih =>
    have hi := hcode i List.mem_cons_self
    rw [List.map_cons, List.map_cons, List.flatten_cons, List.filter_append, List.map_append,
      ih fun j hj => hcode j (List.mem_cons_of_mem _ hj)]
    have hkey := mem_keys_of_mem hpairs hwf hi
    have hvalue := h.value_standIn (F := F) hi
    by_cases hreplaced : isReplaced m i
    · rw [if_pos hreplaced] at hvalue
      have hnew : m.next + i.value ∉ pairs.map Prod.fst :=
        notMem_keys_of_le hpairs hwf (Nat.le_add_right _ _)
      have hfilter : ([standIn m F i, i].filter fun j => Instruction.value j ∉ pairs.map Prod.fst) =
          [standIn m F i] := by
        have hold : Instruction.value i ∈ pairs.map Prod.fst := hkey.mpr hreplaced
        have hstandIn : Instruction.value (standIn m F i) ∉ pairs.map Prod.fst := by
          rw [← hvalue] at hnew
          exact hnew
        simp only [List.filter_cons, hstandIn, hold, not_true_eq_false, not_false_eq_true,
          decide_true, decide_false, if_true, Bool.false_eq_true, if_false, List.filter_nil]
      rw [if_pos hreplaced, hfilter]
      rfl
    · have hstay : Instruction.value i ∉ pairs.map Prod.fst := fun hmem => hreplaced (hkey.mp hmem)
      rw [if_neg hreplaced, standIn_of_not hreplaced]
      simp only [List.filter_cons, hstay, not_false_eq_true, decide_true, if_true, List.filter_nil]
      rfl

lemma propagateDefs_eq (h : Annotated r original m) {order : List (ℕ × ℕ) → List (ℕ × ℕ)}
    (horder : ∀ l, (order l).Perm l) : propagateDefs m order =
      some (propagated m (order (replacedPairs m)), order (replacedPairs m)) := by
  have hfunctions : m.functions.mapM (withNewCalls m) = some (m.functions.map fun F =>
      { F with body := F.body.map fun code => (code.map fun i =>
          if isReplaced m i then [standIn m F i, i] else [i]).flatten }) := by
    apply mapM_some
    intro F hF
    rw [withNewCalls]
    cases hbody : F.body with
    | none =>
      obtain ⟨ref, name, params, varArg, body⟩ := F
      cases hbody
      rfl
    | some code =>
      have hcode : ∀ i ∈ code, i ∈ m.code := by
        intro i hi
        apply mem_code_of_mem hF
        rw [Function.code, hbody]
        exact hi
      have hnew : code.mapM (withNewCall m F) =
          some (code.map fun i => if isReplaced m i then [standIn m F i, i] else [i]) :=
        mapM_some fun i hi => h.withNewCall_eq (hcode i hi)
      simp only [hnew, Option.map_some]
  rw [propagateDefs, hfunctions]
  simp only [Option.bind_eq_bind, Option.bind_some, List.map_map, propagated]
  congr 3
  apply List.map_congr_left
  intro F hF
  rw [Function.comp_apply, Option.map_map]
  congr 1
  cases hbody : F.body with
  | none => rfl
  | some code =>
    rw [Option.map_some, Option.map_some, Function.comp_apply]
    congr 1
    apply eraseReplaced_withNewCalls h (horder _)
    intro i hi
    apply mem_code_of_mem hF
    rw [Function.code, hbody]
    exact hi

lemma idParams_getElem? {taken : List Text} {ps : List Param} {j : ℕ} {p : Param}
    (h : (idParams r taken ps)[j]? = some p) : ∃ q, ps[j]? = some q ∧
      (p.name = q.name ++ idSuffix ∨ ∃ n, p.name = (q.name ++ idSuffix) ++ decimal n) := by
  induction ps generalizing taken j with
  | nil => cases h
  | cons q ps ih =>
    rw [idParams] at h
    cases j with
    | zero =>
      obtain rfl := Option.some.inj h
      refine ⟨q, rfl, ?_⟩
      by_cases htaken : q.name ++ idSuffix ∈ taken
      · obtain ⟨n, hn⟩ := r.argument_eq taken (q.name ++ idSuffix)
        exact Or.inr ⟨n, (if_pos htaken).trans hn⟩
      · exact Or.inl (if_neg htaken)
    | succ j => exact ih h

lemma exists_idParam (taken : List Text) {ps : List Param} {q : Param} (hq : q ∈ ps) :
    q.name ++ idSuffix ∈ taken ∨ q.name ++ idSuffix ∈ (idParams r taken ps).map Param.name := by
  induction ps generalizing taken with
  | nil => cases hq
  | cons p ps ih =>
    rw [idParams, List.map_cons, List.mem_cons]
    rcases List.mem_cons.mp hq with rfl | hq
    · by_cases htaken : q.name ++ idSuffix ∈ taken
      · exact Or.inl htaken
      · exact Or.inr (Or.inl (if_neg htaken).symm)
    · rcases ih _ hq with htaken | hmem
      · rcases List.mem_cons.mp htaken with heq | htaken
        · exact Or.inr (Or.inl heq)
        · exact Or.inl htaken
      · exact Or.inr (Or.inr hmem)

lemma numbered_ne_idSuffix (name name' : Text) (n : ℕ) : name ++ decimal n ≠ name' ++ idSuffix := by
  intro heq
  have hnumber : decimal n <:+ name' ++ idSuffix := heq ▸ List.suffix_append _ _
  have hread : readNat 10 (decimal n) = some n := by
    rw [decimal_eq_zeroPadded]
    exact readNat_zeroPadded (by decide) (by decide) 0 n
  rcases List.suffix_or_suffix_of_suffix hnumber (List.suffix_append _ _) with hsuffix | hsuffix
  · -- no end of the suffix is a number
    have hends : decimal n ∈ idSuffix.tails := (List.mem_tails _ _).mpr hsuffix
    simp only [idSuffix, List.tails, List.mem_cons, List.not_mem_nil, or_false] at hends
    rcases hends with heq | heq | heq | heq <;> rw [heq] at hread <;> cases hread
  · exact not_mem_decimal (by decide) n (hsuffix.subset (List.mem_cons_self (a := '_')))

namespace Annotated

variable (h : Annotated r original m)

include h in
lemma own_getElem? (hg : g ∈ m.functions) {k : ℕ} {p : Param}
    (hp : (ownParams original g)[k]? = some p) :
    g.params[k]? = some p ∧ ∀ f, original g.ref = some f → k < f.params.length := by
  rw [ownParams] at hp
  cases hf : original g.ref with
  | none =>
    rw [hf] at hp
    exact ⟨hp, fun f hf => by cases hf⟩
  | some f =>
    rw [hf, Option.getD_some] at hp
    have hlt := (List.getElem?_eq_some_iff.mp hp).1
    rw [h.params g hg f hf, cloneParams, List.getElem?_append_left hlt]
    refine ⟨hp, fun f' hf' => ?_⟩
    cases hf'
    exact hlt

include h in
lemma params_getElem? (hg : g ∈ m.functions) {k : ℕ} {p : Param} (hp : g.params[k]? = some p) :
    (ownParams original g)[k]? = some p ∨ ∃ f q j, original g.ref = some f ∧
      f.pointerParams[j]? = some q ∧ k = f.params.length + j ∧
        (p.name = q.name ++ idSuffix ∨ ∃ n, p.name = (q.name ++ idSuffix) ++ decimal n) := by
  rw [ownParams]
  cases hf : original g.ref with
  | none => exact Or.inl hp
  | some f =>
    rw [h.params g hg f hf, cloneParams] at hp
    by_cases hlt : k < f.params.length
    · rw [List.getElem?_append_left hlt] at hp
      exact Or.inl hp
    · rw [List.getElem?_append_right (not_lt.mp hlt)] at hp
      obtain ⟨q, hq, hname⟩ := idParams_getElem? hp
      exact Or.inr ⟨f, q, k - f.params.length, rfl, hq, by omega, hname⟩

end Annotated

lemma eq_of_subst_arg {σ : ℕ → ℕ} {o : Operand} {a : ℕ} {t : Ty} (h : o.subst σ = ⟨.arg a, t⟩) :
    o = ⟨.arg a, t⟩ := by
  obtain ⟨source, type⟩ := o
  cases source <;> first | exact h | cases h

lemma eq_of_subst_packed {σ : ℕ → ℕ} {o : Operand} {id : BitVec 16} {t : Ty}
    (h : o.subst σ = ⟨.packed id, t⟩) : o.source = .packed id := by
  obtain ⟨source, type⟩ := o
  cases source <;> first | cases h; rfl | cases h

namespace Annotated

variable (h : Annotated r original m) {σ : ℕ → ℕ}

include h in
lemma harmless_of_rewritten (hF : F ∈ m.functions) (hi : i ∈ F.code)
    (hrewritten : Rewritten original m σ i ((standIn m F i).subst σ)) :
    HarmlessCall original m F i := by
  intro g hg k p q hp hq hpointer hname text htext
  have him := mem_code_of_mem hF hi
  obtain ⟨hgm, -⟩ := mem_of_instrumentedCallee hg
  obtain ⟨hpg, hlt⟩ := h.own_getElem? hgm hp
  obtain ⟨o, ho, -⟩ := type_of_typed h.wellFormed him hg hpg
  have hnotId : ∀ g', instrumentedCallee m i = some g' → ¬ IdParameter original g' i k := by
    rintro g' hg' ⟨f, p', j, hf, -, rfl, -⟩
    cases hg.symm.trans hg'
    exact absurd (hlt f hf) (by omega)
  have hsame := hrewritten.operands k o ho hnotId
  have hreplaced := isReplaced_of_metadata hg (List.mem_of_getElem? hpg) htext
  obtain ⟨g', os, hg', hos, heq⟩ := h.standIn_of_replaced (F := F) him hreplaced
  cases hg.symm.trans hg'
  obtain ⟨-, -, hspec⟩ := rewriteArguments_spec hos
  obtain ⟨o', ho', hoso⟩ := hspec k p o hpg ho
  rw [heq, Inst.subst, List.getElem?_map, hoso, Option.map_some] at hsame
  have hsame := Option.some.inj hsame
  rw [rewriteArgument, htext] at ho'
  by_cases hnumeric : numeric text
  · simp only [hnumeric, if_true] at ho'
    obtain ⟨n, -, rfl⟩ := Option.map_eq_some_iff.mp ho'
    have hpacked := eq_of_subst_packed hsame.symm
    exact absurd hpacked (h.unpacked i him o (List.mem_of_getElem? ho) _)
  · refine ⟨hnumeric, fun a c hc hcname => ?_⟩
    have hne : text ≠ [] := by
      rintro rfl
      exact hnumeric rfl
    simp only [hnumeric, Bool.false_eq_true, if_false,
      namedArgument_of_some (h.names F hF) hc hcname hne] at ho'
    rw [← Option.some.inj ho'] at hsame
    rw [ho, eq_of_subst_arg hsame.symm]

include h in
lemma rewriteArgument_of_harmless (hF : F ∈ m.functions) (hi : i ∈ F.code)
    (hharmless : HarmlessCall original m F i) (hg : instrumentedCallee m i = some g) {k : ℕ}
    {p : Param} {o : Operand} (hp : g.params[k]? = some p) (ho : i.operands[k]? = some o)
    (hnotId : ¬ IdParameter original g i k) : rewriteArgument F i p o = some o := by
  rw [rewriteArgument]
  cases htext : i.metadata (zref p.name) with
  | none => rfl
  | some text =>
    obtain ⟨hgm, -⟩ := mem_of_instrumentedCallee hg
    obtain ⟨q, hq, hpointer, hname⟩ := h.pointers i (mem_code_of_mem hF hi) g hg p.name text htext
    rcases h.params_getElem? hgm hp with hown | ⟨f, q', j, hf, hq', rfl, hname' | ⟨n, hname'⟩⟩
    · obtain ⟨hnumeric, hargument⟩ := hharmless g hg k p q hown hq hpointer hname text htext
      simp only [hnumeric, Bool.false_eq_true, if_false]
      congr 1
      by_cases hnamed : ∃ c ∈ F.params, c.name = text
      · obtain ⟨c, hc, hcname⟩ := hnamed
        obtain ⟨a, ha⟩ := List.getElem?_of_mem hc
        have hne : text ≠ [] := by
          rintro rfl
          exact hnumeric rfl
        rw [namedArgument_of_some (h.names F hF) ha hcname hne]
        exact Option.some.inj ((hargument a c ha hcname).symm.trans ho)
      · apply namedArgument_of_none
        intro c hc hcname
        exact hnamed ⟨c, hc, hcname⟩
    · have hsome : (i.metadata (zref (q'.name ++ idSuffix))).isSome := by
        rw [← hname', htext]
        rfl
      exact absurd ⟨f, q', j, hf, hq', rfl, hsome⟩ hnotId
    · exact absurd (hname'.symm.trans hname) (numbered_ne_idSuffix _ _ n)

include h in
lemma rewritten_of_harmless (hF : F ∈ m.functions) (hi : i ∈ F.code)
    (hvalue : (standIn m F i).value = σ i.value) (hharmless : HarmlessCall original m F i) :
    Rewritten original m σ i ((standIn m F i).subst σ) := by
  have him := mem_code_of_mem hF hi
  by_cases hreplaced : isReplaced m i
  · obtain ⟨g, os, hg, hos, heq⟩ := h.standIn_of_replaced (F := F) him hreplaced
    obtain ⟨hlength, hrest, hspec⟩ := rewriteArguments_spec hos
    refine ⟨hvalue, by rw [heq]; rfl, ?_, ?_⟩
    · rw [heq, Inst.subst, List.length_map, hlength]
    · intro k o ho hnotId
      have hkept : os[k]? = some o := by
        cases hp : g.params[k]? with
        | none => exact hrest k o hp ho
        | some p =>
          obtain ⟨o', ho', hoso⟩ := hspec k p o hp ho
          rw [h.rewriteArgument_of_harmless hF hi hharmless hg hp ho (hnotId g hg)] at ho'
          rw [hoso, ho']
      rw [heq, Inst.subst, List.getElem?_map, hkept]
      rfl
  · rw [standIn_of_not hreplaced] at hvalue ⊢
    refine ⟨hvalue, rfl, List.length_map _, ?_⟩
    intro k o ho _
    rw [Inst.subst, List.getElem?_map, ho]
    rfl

end Annotated

section Carried

variable (h : Annotated r original m) {pairs : List (ℕ × ℕ)}
  (hpairs : pairs.Perm (replacedPairs m)) {α : Type} {word : Word → α} {constant : ℤ → α}
  {a b : Activation α}

lemma code_unique (hwf : m.WellFormed) {F' : Function} (hF : F ∈ m.functions)
    (hF' : F' ∈ m.functions) (hi : i ∈ F.code) (hi' : i ∈ F'.code) : F = F' := by
  have hvalues := hwf.values
  rw [Module.code, List.map_flatMap, List.nodup_flatMap] at hvalues
  have hsymm : Std.Symm (Function.onFun List.Disjoint fun F : Function => F.code.map Inst.value) :=
    ⟨fun _ _ hdisjoint => hdisjoint.symm⟩
  by_contra hne
  exact hvalues.2.forall hF hF' hne (List.mem_map_of_mem hi) (List.mem_map_of_mem hi')

lemma mem_code_propagated {j : Inst} (hj : j ∈ (propagated m pairs).code) :
    ∃ F ∈ m.functions, ∃ i ∈ F.code, (standIn m F i).subst (replacement pairs) = j := by
  obtain ⟨F', hF', hj⟩ := List.mem_flatMap.mp hj
  obtain ⟨F, hF, rfl⟩ := List.mem_map.mp hF'
  rw [Function.code] at hj
  cases hbody : F.body with
  | none => simp [hbody] at hj
  | some code =>
    simp only [hbody, Option.map_some, Option.getD_some] at hj
    obtain ⟨i, hi, rfl⟩ := List.mem_map.mp hj
    refine ⟨F, hF, i, ?_, rfl⟩
    rw [Function.code, hbody]
    exact hi

include h hpairs in
lemma value_standIn_eq (hi : i ∈ m.code) :
    (standIn m F i).value = replacement pairs i.value := by
  rw [h.value_standIn hi, replacement_value hpairs h.wellFormed hi]

include h hpairs in
lemma argument_of_begins (hbegins : Begins word constant m (propagated m pairs) pairs a i b)
    {f : Function} {q : Param} {text : Text} (hf : original b.function.ref = some f)
    (hq : q ∈ f.pointerParams) (htext : i.metadata (zref (q.name ++ idSuffix)) = some text) :
    ∃ k p o o', iuseParameter b.function (q.name ++ idSuffix) = some k ∧
      p.name = q.name ++ idSuffix ∧ rewriteArgument a.function i p o = some o' ∧
        b.arguments k = operandValue word constant a (o'.subst (replacement pairs)) := by
  obtain ⟨hF, hi, hg, j, hj, hvalue, hargs⟩ := hbegins
  have him := mem_code_of_mem hF hi
  obtain ⟨hgm, -⟩ := mem_of_instrumentedCallee hg
  have hmem : q.name ++ idSuffix ∈ b.function.params.map Param.name := by
    rw [h.params b.function hgm f hf, cloneParams, List.map_append, List.mem_append]
    exact exists_idParam _ hq
  obtain ⟨p', hp', hname'⟩ := List.mem_map.mp hmem
  obtain ⟨k, hk⟩ : ∃ k, iuseParameter b.function (q.name ++ idSuffix) = some k := by
    rw [iuseParameter, ← Option.isSome_iff_exists, List.findIdx?_isSome, List.any_eq_true]
    exact ⟨p', hp', decide_eq_true hname'⟩
  obtain ⟨hlt, hname, -⟩ := List.findIdx?_eq_some_iff_getElem.mp hk
  have hname := of_decide_eq_true hname
  have hp := List.getElem?_eq_getElem hlt
  -- the call that stands for `i` is the only one with its value
  obtain ⟨F, hF', i', hi', rfl⟩ := mem_code_propagated hj
  have him' := mem_code_of_mem hF' hi'
  have hvalue : replacement pairs i'.value = replacement pairs i.value := by
    rw [← value_standIn_eq (F := F) h hpairs him']
    exact hvalue
  have hsame : i' = i := by
    apply List.inj_on_of_nodup_map h.wellFormed.values him' him
    exact replacement_injOn hpairs h.wellFormed (List.mem_map_of_mem him')
      (List.mem_map_of_mem him) hvalue
  subst hsame
  have hsame := code_unique h.wellFormed hF hF' hi hi'
  subst hsame
  rw [← hname] at htext
  have hreplaced := isReplaced_of_metadata hg (List.getElem_mem hlt) htext
  obtain ⟨g, os, hg', hos, heq⟩ := h.standIn_of_replaced (F := a.function) him hreplaced
  cases hg.symm.trans hg'
  obtain ⟨o, ho, -⟩ := type_of_typed h.wellFormed him hg hp
  obtain ⟨-, -, hspec⟩ := rewriteArguments_spec hos
  obtain ⟨o', ho', hoso⟩ := hspec k _ o hp ho
  refine ⟨k, _, o, o', hk, hname, ho', hargs k _ ?_⟩
  rw [heq, Inst.subst, List.getElem?_map, hoso]
  rfl

include h hpairs in
lemma carried_of_chain {id : Word} {p : Param}
    (hchain : Chain word constant original m (propagated m pairs) pairs id b p) :
    ∃ k, iuseParameter b.function (p.name ++ idSuffix) = some k ∧ b.arguments k = word id := by
  induction hchain with
  | @first a b i f p text n hbegins hf hp htext hnumeric hn hid =>
    obtain ⟨k, p', o, o', hk, hname, ho', harg⟩ := argument_of_begins h hpairs hbegins hf hp htext
    refine ⟨k, hk, ?_⟩
    rw [rewriteArgument, hname, htext] at ho'
    simp only [hnumeric, if_true, hn, Option.map_some] at ho'
    rw [harg, ← Option.some.inj ho', hid]
    rfl
  | @next a b i f p q hchain hbegins hf hq htext ih =>
    obtain ⟨k, p', o, o', hk, hname, ho', harg⟩ := argument_of_begins h hpairs hbegins hf hq htext
    refine ⟨k, hk, ?_⟩
    obtain ⟨k', hk', harg'⟩ := ih
    obtain ⟨hlt, hname', -⟩ := List.findIdx?_eq_some_iff_getElem.mp hk'
    have hne : p.name ++ idSuffix ≠ [] := by
      intro hnil
      cases (List.append_eq_nil_iff.mp hnil).2
    have hnumeric := not_numeric_idSuffix p.name
    rw [rewriteArgument, hname, htext] at ho'
    simp only [hnumeric, Bool.false_eq_true, if_false] at ho'
    rw [namedArgument_of_some (h.names _ hbegins.caller) (List.getElem?_eq_getElem hlt)
      (of_decide_eq_true hname') hne] at ho'
    rw [harg, ← Option.some.inj ho', ← harg']
    rfl

end Carried

namespace Annotated

variable (h : Annotated r original m) {pairs : List (ℕ × ℕ)}
  (hpairs : pairs.Perm (replacedPairs m))

include h hpairs in
lemma propagated_of_harmless (hharmless : Harmless original m) :
    Propagated original m (propagated m pairs) pairs where
  values := replacement_injOn hpairs h.wellFormed
  rewritten := by
    rw [propagated, List.forall₂_map_right_iff, List.forall₂_same]
    intro F hF
    refine ⟨rfl, rfl, rfl, ?_⟩
    cases hbody : F.body with
    | none => exact Option.Rel.none
    | some code =>
      apply Option.Rel.some
      rw [List.forall₂_map_right_iff, List.forall₂_same]
      intro i hi
      have hi : i ∈ F.code := by
        rw [Function.code, hbody]
        exact hi
      exact h.rewritten_of_harmless hF hi (value_standIn_eq h hpairs (mem_code_of_mem hF hi))
        (hharmless F hF i hi)
  uses j hj o ho v hv := by
    obtain ⟨F, hF, i, hi, rfl⟩ := mem_code_propagated hj
    obtain ⟨o', -, rfl⟩ := List.mem_map.mp ho
    obtain ⟨source, type⟩ := o'
    cases source <;> cases hv
    exact replacement_notMem_keys hpairs h.wellFormed _
  carried _ _ _ _ _ _ hchain := carried_of_chain h hpairs hchain

include h in
lemma harmless_of_propagated (hpropagated : Propagated original m (propagated m pairs) pairs) :
    Harmless original m := by
  intro F hF i hi
  have hrewritten := hpropagated.rewritten
  rw [propagated, List.forall₂_map_right_iff, List.forall₂_same] at hrewritten
  obtain ⟨-, -, -, hcode⟩ := hrewritten F hF
  apply h.harmless_of_rewritten (σ := replacement pairs) hF hi
  rw [Function.code] at hi
  cases hbody : F.body with
  | none => simp [hbody] at hi
  | some code =>
    rw [hbody] at hcode hi
    cases hcode with
    | some hcode =>
      rw [List.forall₂_map_right_iff, List.forall₂_same] at hcode
      exact hcode i hi

end Annotated

theorem ids_propagated_iff (r : Renaming) (analysis : Pointees)
    (order : List (ℕ × ℕ) → List (ℕ × ℕ)) (horder : ∀ l, (order l).Perm l)
    (original : ℕ → Option Function) (m : Module) (h : Extended r original m)
    (hnone : ∀ i ∈ m.code, ∀ name, i.metadata (zref name) = none) :
    (∃ m' pairs, propagateDefs (analysis.annotate m) order = some (m', pairs) ∧
      Propagated original (analysis.annotate m) m' pairs) ↔
        Harmless original (analysis.annotate m) := by
  have hannotated := annotated_annotate analysis h hnone
  have heq := propagateDefs_eq hannotated horder
  constructor
  · rintro ⟨m', pairs, hrun, hpropagated⟩
    cases heq.symm.trans hrun
    exact hannotated.harmless_of_propagated hpropagated
  · intro hharmless
    exact ⟨_, _, heq, hannotated.propagated_of_harmless (horder _) hharmless⟩

def Copied (r : Renaming) (s : Run) : Prop :=
  ∀ p ∈ s.clones, ∃ f ∈ s.module.functions, ∃ c ∈ s.module.functions,
    f.ref = p.1 ∧ c.ref = p.2 ∧ c.params = cloneParams r f

lemma Copied.visit {s : Run} (h : Copied r s) (hF : F ∈ s.module.functions) :
    Copied r (visit r s F) := by
  have hsub := (visit_extends r s F).functions.subset
  rcases visit_cases r s F with hvisit | hvisit | hvisit
  · rw [hvisit]
    exact h
  · rw [hvisit]
    exact h
  · intro p hp
    rw [hvisit, List.mem_append] at hp
    rcases hp with hp | hp
    · obtain ⟨f, hf, c, hc, hparams⟩ := h p hp
      exact ⟨f, hsub hf, c, hsub hc, hparams⟩
    · obtain rfl := List.mem_singleton.mp hp
      have hc : cloneOf r s.module F ∈ (Instrumentor.visit r s F).module.functions := by
        rw [hvisit]
        exact List.mem_append_right _ List.mem_cons_self
      exact ⟨F, hsub hF, _, hc, rfl, rfl, rfl⟩

lemma Copied.visitFrom {fuel k : ℕ} {s s' : Run} (h : Copied r s) (hgrown : Grown m k s)
    (hrun : visitFrom r fuel k s = some s') : Copied r s' ∧ s'.module.WellFormed := by
  have hvisit : ∀ (j : ℕ) t f, Copied r t ∧ Grown m j t → t.module.functions[j]? = some f →
      Copied r (Instrumentor.visit r t f) ∧ Grown m (j + 1) (Instrumentor.visit r t f) :=
    fun _ _ _ ⟨ht, hgrown⟩ hf => ⟨ht.visit (List.mem_of_getElem? hf), hgrown.visit hf⟩
  obtain ⟨_, hcopied, hgrown'⟩ :=
    visitFrom_invariant (fun j t => Copied r t ∧ Grown m j t) hvisit ⟨h, hgrown⟩ hrun
  exact ⟨hcopied, hgrown'.wellFormed⟩

lemma foldlM_removeFunction_subset {names : List Text}
    (h : names.foldlM removeFunction m = some m') : m'.functions ⊆ m.functions := by
  refine Library.Runs.foldlM_invariant (fun u : Module => u.functions ⊆ m.functions) ?_
    (List.Subset.refl _) h
  intro name _ u u' hu hremove
  obtain ⟨f, -, rfl⟩ := Option.map_eq_some_iff.mp hremove
  exact List.Subset.trans List.filter_sublist.subset hu

theorem params_of_runOnModule {order : List (ℕ × Inst) → List (ℕ × Inst)} {fuel ref : ℕ}
    {clones : List (ℕ × ℕ)} (hwf : m.WellFormed)
    (hrun : runOnModule r order fuel m = some (m', clones)) (hg : g ∈ m'.functions)
    (hclone : (ref, g.ref) ∈ clones) : ∃ f : Function, f.ref = ref ∧ g.params = cloneParams r f := by
  obtain ⟨s, hs, hrun⟩ := Option.bind_eq_some_iff.mp hrun
  obtain ⟨m'', hremoved, hrun⟩ := Option.bind_eq_some_iff.mp hrun
  cases hrun
  have hstart : Grown m 0 (initialRun m) := (Cloned.start hwf).grown
  have hnone : Copied r (initialRun m) := fun p hp => absurd hp List.not_mem_nil
  obtain ⟨hcopied, hwf'⟩ := hnone.visitFrom hstart hs
  obtain ⟨c', hc', rfl⟩ := List.mem_map.mp (foldlM_removeFunction_subset hremoved hg)
  obtain ⟨f, -, c, hc, href, hcref, hparams⟩ := hcopied _ hclone
  have hsame := ref_inj hwf' hc' hc hcref
  subst hsame
  exact ⟨f, href, hparams⟩

def defined : Pointees := ⟨fun _ _ => true, fun _ _ _ => true, fun _ _ => some 3⟩

def ownFunction (params : List Param) : Function := ⟨2, ['f'], params, false, some []⟩

def cloneFunction (params : List Param) : Function where
  ref := 0
  name := ['f'] ++ instrumentedSuffix
  params := cloneParams numbered (ownFunction params)
  varArg := false
  body := some []

def passingModule (params : List Param) (arguments : List Operand) : Module where
  globals := []
  functions := [cloneFunction params, ⟨1, mainName, [], false, some [callOf arguments]⟩]
  nextRef := 2
  next := 1

def originalOf (params : List Param) : ℕ → Option Function :=
  fun ref => if ref = 0 then some (ownFunction params) else none

lemma extended_passingModule (params : List Param) (arguments : List Operand)
    (htypes : (cloneFunction params).types = arguments.map Operand.type)
    (hnames : (((cloneFunction params).params.map Param.name).filter (· ≠ [])).Nodup)
    (hunpacked : ∀ o ∈ arguments, ∀ id, o.source ≠ .packed id) :
    Extended numbered (originalOf params) (passingModule params arguments) where
  wellFormed := by
    have hcode : (passingModule params arguments).code = [callOf arguments] := rfl
    refine ⟨?_, ?_, ?_, ?_, ?_, ?_⟩
    · have hsymbols : (passingModule params arguments).symbols =
          [['f'] ++ instrumentedSuffix, mainName] := rfl
      rw [hsymbols]
      decide
    · have hrefs : (passingModule params arguments).functions.map Function.ref = [0, 1] := rfl
      rw [hrefs]
      decide
    · simp [passingModule, cloneFunction]
    · simp [hcode]
    · intro i hi
      rw [hcode, List.mem_singleton] at hi
      subst hi
      exact Nat.one_pos
    · intro i hi c hc
      rw [hcode, List.mem_singleton] at hi
      subst hi
      have hc : c = 0 := by
        injection hc with hc
        exact (Option.some.inj hc).symm
      subst hc
      refine ⟨cloneFunction params, List.mem_cons_self, rfl, ?_, ?_⟩
      · have htypes : (cloneFunction params).types = (callOf arguments).operands.map Operand.type :=
          htypes
        rw [htypes]
      · intro _
        have hlength := congrArg List.length htypes
        rw [Function.types, List.length_map, List.length_map] at hlength
        exact hlength.symm
  params g hg f hf := by
    rcases List.mem_cons.mp hg with rfl | hg
    · have hf : ownFunction params = f := Option.some.inj hf
      rw [← hf]
      rfl
    · obtain rfl := List.mem_singleton.mp hg
      cases hf
  names g hg := by
    rcases List.mem_cons.mp hg with rfl | hg
    · exact hnames
    · obtain rfl := List.mem_singleton.mp hg
      exact List.nodup_nil
  unpacked i hi o ho id := by
    have hcode : (passingModule params arguments).code = [callOf arguments] := rfl
    rw [hcode, List.mem_singleton] at hi
    subst hi
    exact hunpacked o ho id

def pointerParam : Param := ⟨['p'], .pointer 0⟩

def takenParam : Param := ⟨['p', '_', 'i', 'd'], .int32⟩

def seven : Operand := ⟨.const 7, .int32⟩

theorem ids_propagated_fixed : ∃ m' pairs,
    propagateDefs (defined.annotate (passingModule [pointerParam] [nullPointer, zero])) id =
      some (m', pairs) ∧ Propagated (originalOf [pointerParam])
        (defined.annotate (passingModule [pointerParam] [nullPointer, zero])) m' pairs := by
  have h := extended_passingModule [pointerParam] [nullPointer, zero] rfl (by decide)
    (by simp [nullPointer, zero])
  have hnone : ∀ i ∈ (passingModule [pointerParam] [nullPointer, zero]).code, ∀ name,
      i.metadata (zref name) = none := by
    simp [passingModule, Module.code, Function.code, cloneFunction, callOf]
  apply (ids_propagated_iff numbered defined id (fun _ => List.Perm.refl _) _ _ h hnone).mpr
  intro F hF i hi g hg k p q hp hq hpointer hname
  obtain ⟨hgm, -⟩ := mem_of_instrumentedCallee hg
  have hown : ∀ p ∈ ownParams (originalOf [pointerParam]) g, p = pointerParam := by
    intro p hp
    rcases List.mem_cons.mp hgm with rfl | hgm
    · exact List.mem_singleton.mp hp
    · obtain rfl := List.mem_singleton.mp hgm
      cases hp
  rw [hown p (List.mem_of_getElem? hp), hown q hq] at hname
  exact absurd hname (by decide)

theorem ids_not_propagated_taken : ¬ ∃ m' pairs,
    propagateDefs (defined.annotate (passingModule [pointerParam, takenParam]
      [nullPointer, seven, zero])) id = some (m', pairs) ∧
        Propagated (originalOf [pointerParam, takenParam]) (defined.annotate (passingModule
          [pointerParam, takenParam] [nullPointer, seven, zero])) m' pairs := by
  have h := extended_passingModule [pointerParam, takenParam] [nullPointer, seven, zero] rfl
    (by decide) (by simp [nullPointer, seven, zero])
  have hnone : ∀ i ∈ (passingModule [pointerParam, takenParam] [nullPointer, seven, zero]).code,
      ∀ name, i.metadata (zref name) = none := by
    simp [passingModule, Module.code, Function.code, cloneFunction, callOf]
  have hannotated := annotated_annotate defined h hnone
  rintro ⟨m', pairs, hrun, hpropagated⟩
  cases (propagateDefs_eq hannotated (fun l => List.Perm.refl l)).symm.trans hrun
  have hharmless := hannotated.harmless_of_propagated hpropagated
  have hcall := hharmless _ (List.mem_cons_of_mem _ List.mem_cons_self) _ List.mem_cons_self _ rfl 1
    takenParam pointerParam rfl List.mem_cons_self rfl rfl ['3'] rfl
  exact hcall.1 rfl

end Embedwatch.Instrumentor
