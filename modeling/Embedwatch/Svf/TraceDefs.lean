import Embedwatch.Svf.Analysis
import Embedwatch.Svf.ExportedLines

/-! The definitions of a trace, and those that the analyses add to it: every definition of the list is
in the trace, apart from definitions of fields. -/

namespace Embedwatch.Svf

open Library.PlainText

def Def.parts : Def → List Def
  | .ddef id node call target => .ddef id node call target :: target.parts
  | d => [d]

def Def.isField : Def → Bool
  | .sdef _ _ _ _ _ _ => true
  | .adef _ _ _ _ _ | .gdef _ _ _ _ _ | .ddef _ _ _ _ => false

def SubObject.uses : SubObject → List ZUse
  | .use u => [u]
  | .defn _ => []

def SubObject.defs : SubObject → List Def
  | .use u => u.targets
  | .defn d => [d]

def TraceEntity.uses : TraceEntity → List ZUse
  | .input i => i.subObjects.flatMap SubObject.uses
  | .use _ | .defn _ => []

def TraceEntity.defs : TraceEntity → List Def
  | .input i => i.subObjects.flatMap SubObject.defs
  | .use _ => []
  | .defn d => [d]

def traceDefs (trace : List TraceEntity) : List Def := trace.flatMap TraceEntity.defs

lemma Def.mem_parts_self (d : Def) : d ∈ d.parts := by
  cases d <;> exact List.mem_cons_self

def Line.defs (line : Line) : List Def :=
  match line.te with
  | .defn d => [d]
  | .input _ | .use _ => []

def DefLine (trace : List TraceEntity) (id : ℕ) : Prop :=
  ∃ line ∈ exportedLines trace, ∃ d, line.te = .defn d ∧ d.id = id

lemma Def.lines_defs (d : Def) (father : ℤ) (ident : ℕ) (parent : Option ℕ) (place : ℕ) :
    (d.lines father ident parent place).flatMap Line.defs = d.parts := by
  induction d generalizing father ident parent place with
  | ddef id node call target ih =>
    rw [Def.lines, List.flatMap_cons, ih]
    rfl
  | _ => rfl

lemma SubObject.lines_defs (father parent : ℕ) (sub : SubObject) (place : ℕ) :
    (sub.lines father parent place).flatMap Line.defs = sub.defs.flatMap Def.parts := by
  cases sub with
  | use u =>
    rw [SubObject.lines, List.flatMap_cons, layOut_flatMap (fun d p => d.lines_defs u.id 2 _ p)]
    rfl
  | defn d =>
    rw [SubObject.lines, Def.lines_defs]
    exact (List.append_nil _).symm

lemma TraceEntity.lines_defs (te : TraceEntity) (place : ℕ) :
    (te.lines place).flatMap Line.defs = te.defs.flatMap Def.parts := by
  cases te with
  | input i =>
    rw [TraceEntity.lines, List.flatMap_cons,
      layOut_flatMap (fun sub p => sub.lines_defs i.id place p), TraceEntity.defs,
      List.flatMap_assoc]
    rfl
  | use u => rfl
  | defn d =>
    rw [TraceEntity.lines, Def.lines_defs]
    exact (List.append_nil _).symm

theorem defLine_iff {trace : List TraceEntity} {id : ℕ} :
    DefLine trace id ↔ ∃ d ∈ traceDefs trace, ∃ e ∈ d.parts, e.id = id := by
  have hdefs : (exportedLines trace).flatMap Line.defs = (traceDefs trace).flatMap Def.parts := by
    rw [exportedLines, layOut_flatMap TraceEntity.lines_defs, traceDefs, List.flatMap_assoc]
  constructor
  · rintro ⟨line, hline, d, hd, hid⟩
    have hmem : d ∈ (exportedLines trace).flatMap Line.defs := by
      refine List.mem_flatMap.mpr ⟨line, hline, ?_⟩
      rw [Line.defs, hd]
      exact List.mem_singleton_self d
    rw [hdefs] at hmem
    obtain ⟨d', hd', he⟩ := List.mem_flatMap.mp hmem
    exact ⟨d', hd', d, he, hid⟩
  · rintro ⟨d, hd, e, he, hid⟩
    have hmem : e ∈ (traceDefs trace).flatMap Def.parts := List.mem_flatMap.mpr ⟨d, hd, he⟩
    rw [← hdefs] at hmem
    obtain ⟨line, hline, he⟩ := List.mem_flatMap.mp hmem
    refine ⟨line, hline, e, ?_, hid⟩
    rw [Line.defs] at he
    split at he
    · rename_i d' hte
      rw [hte, List.mem_singleton.mp he]
    · cases he
    · cases he

lemma DefLine.of_mem {trace : List TraceEntity} {d : Def} (h : d ∈ traceDefs trace) :
    DefLine trace d.id := defLine_iff.mpr ⟨d, h, d, d.mem_parts_self, rfl⟩

lemma DefLine.mono {trace trace' : List TraceEntity} (h : traceDefs trace ⊆ traceDefs trace')
    {id : ℕ} (hline : DefLine trace id) : DefLine trace' id := by
  obtain ⟨d, hd, e, he, hid⟩ := defLine_iff.mp hline
  exact defLine_iff.mpr ⟨d, h hd, e, he, hid⟩

structure NewDef (d : Def) (n n' : ℕ) : Prop where
  le : ∀ e ∈ d.parts, n ≤ e.id
  lt : ∀ e ∈ d.parts, e.id < n'
  unique : ∀ e ∈ d.parts, ∀ e' ∈ d.parts, e.id = e'.id → e = e'
  plain : ∀ e ∈ d.parts, e.isField = false

structure Listed (deflist : List Def) (nextId : ℕ) : Prop where
  lt : ∀ d ∈ deflist, ∀ e ∈ d.parts, e.id < nextId
  unique : ∀ d ∈ deflist, ∀ d' ∈ deflist, ∀ e ∈ d.parts, ∀ e' ∈ d'.parts, e.id = e'.id → e = e'
  plain : ∀ d ∈ deflist, ∀ e ∈ d.parts, e.isField = true → e = d

lemma Listed.nil : Listed [] 0 := by
  constructor <;> intro d hd <;> cases hd

lemma Listed.of_subset {l l' : List Def} {n n' : ℕ} (h : Listed l n) (hl : l' ⊆ l) (hn : n ≤ n') :
    Listed l' n' where
  lt d hd e he := (h.lt d (hl hd) e he).trans_le hn
  unique d hd d' hd' := h.unique d (hl hd) d' (hl hd')
  plain d hd := h.plain d (hl hd)

lemma Listed.concat {l : List Def} {n n' : ℕ} {d : Def} (h : Listed l n)
    (hle : ∀ e ∈ d.parts, n ≤ e.id) (hlt : ∀ e ∈ d.parts, e.id < n')
    (hunique : ∀ e ∈ d.parts, ∀ e' ∈ d.parts, e.id = e'.id → e = e')
    (hplain : ∀ e ∈ d.parts, e.isField = true → e = d) : Listed (l ++ [d]) n' := by
  have hn : n ≤ n' := ((hle d d.mem_parts_self).trans_lt (hlt d d.mem_parts_self)).le
  have hcases : ∀ x ∈ l ++ [d], x ∈ l ∨ x = d := by
    intro x hx
    rcases List.mem_append.mp hx with hx | hx
    · exact Or.inl hx
    · exact Or.inr (List.mem_singleton.mp hx)
  constructor
  · intro x hx e he
    rcases hcases x hx with hx | rfl
    · exact (h.lt x hx e he).trans_le hn
    · exact hlt e he
  · intro x hx y hy e he e' he' hid
    rcases hcases x hx with hx' | rfl <;> rcases hcases y hy with hy' | rfl
    · exact h.unique x hx' y hy' e he e' he' hid
    · have h1 := h.lt x hx' e he
      have h2 := hle e' he'
      omega
    · have h1 := h.lt y hy' e' he'
      have h2 := hle e he
      omega
    · exact hunique e he e' he' hid
  · intro x hx e he hfield
    rcases hcases x hx with hx | rfl
    · exact h.plain x hx e he hfield
    · exact hplain e he hfield

lemma NewDef.listed {l : List Def} {n n' : ℕ} {d : Def} (hd : NewDef d n n') (h : Listed l n) :
    Listed (l ++ [d]) n' := by
  apply h.concat hd.le hd.lt hd.unique
  intro e he hfield
  rw [hd.plain e he] at hfield
  cases hfield

lemma newDef_single {d : Def} {n : ℕ} (hparts : d.parts = [d]) (hid : d.id = n)
    (hfield : d.isField = false) : NewDef d n (n + 1) := by
  have hself : ∀ e ∈ d.parts, e = d := by
    intro e he
    rw [hparts] at he
    exact List.mem_singleton.mp he
  constructor
  · intro e he
    rw [hself e he, hid]
  · intro e he
    rw [hself e he, hid]
    exact n.lt_succ_self
  · intro e he e' he' _
    rw [hself e he, hself e' he']
  · intro e he
    rw [hself e he, hfield]

lemma NewDef.ddef {target : Def} {n n' : ℕ} (h : NewDef target n n') (node : PAGNode)
    (call : Value) : NewDef (.ddef n' node call target) n (n' + 1) := by
  have hn : n ≤ n' :=
    ((h.le target target.mem_parts_self).trans_lt (h.lt target target.mem_parts_self)).le
  have hcases : ∀ e ∈ (Def.ddef n' node call target).parts,
      e = .ddef n' node call target ∨ e ∈ target.parts := fun e he => List.mem_cons.mp he
  constructor
  · intro e he
    rcases hcases e he with rfl | he
    · exact hn
    · exact h.le e he
  · intro e he
    rcases hcases e he with rfl | he
    · exact n'.lt_succ_self
    · exact (h.lt e he).trans n'.lt_succ_self
  · intro e he e' he' hid
    rcases hcases e he with rfl | he <;> rcases hcases e' he' with rfl | he'
    · rfl
    · exact absurd hid.symm (h.lt e' he').ne
    · exact absurd hid (h.lt e he).ne
    · exact h.unique e he e' he' hid
  · intro e he
    rcases hcases e he with rfl | he
    · rfl
    · exact h.plain e he

def PAGNode.isOtherCall (p : PAGNode) : Bool :=
  match p.value.kind with
  | .call function => !isDynamicFunction function
  | _ => false

lemma buildDef_spec (svf : Graphs) {stack : ℕ} {node : PAGNode} {n n' : ℕ} {o : Option Def}
    (h : svf.buildDef stack node n = some (o, n')) :
    (o = none ∧ n' = n ∧ node.isOtherCall = true) ∨
      ∃ d, o = some d ∧ NewDef d n n' ∧ node.isOtherCall = false := by
  induction stack generalizing node n n' o with
  | zero => cases h
  | succ stack ih =>
    rw [Graphs.buildDef] at h
    rw [PAGNode.isOtherCall]
    cases hkind : node.value.kind with
    | alloca =>
      rw [hkind] at h
      cases h
      exact Or.inr ⟨_, rfl, newDef_single rfl rfl rfl, rfl⟩
    | globalVariable =>
      rw [hkind] at h
      cases h
      exact Or.inr ⟨_, rfl, newDef_single rfl rfl rfl, rfl⟩
    | globalValue =>
      rw [hkind] at h
      cases h
      exact Or.inr ⟨_, rfl, newDef_single rfl rfl rfl, rfl⟩
    | call function =>
      simp only [hkind] at h
      split at h
      · rename_i hdyn
        obtain ⟨targetNode, -, h⟩ := Option.bind_eq_some_iff.mp h
        obtain ⟨built, hbuilt, h⟩ := Option.bind_eq_some_iff.mp h
        obtain ⟨target, htarget, h⟩ := Option.map_eq_some_iff.mp h
        cases h
        rcases ih hbuilt with ⟨hnone, -⟩ | ⟨d, hd, hnew, -⟩
        · rw [htarget] at hnone
          cases hnone
        · obtain rfl := Option.some.inj (htarget.symm.trans hd)
          exact Or.inr ⟨_, rfl, hnew.ddef node node.value, congrArg not hdyn⟩
      · rename_i hdyn
        cases h
        exact Or.inl ⟨rfl, rfl, by simpa using hdyn⟩
    | instruction =>
      rw [hkind] at h
      cases h
    | other =>
      rw [hkind] at h
      cases h

end Embedwatch.Svf
