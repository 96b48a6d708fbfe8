import Embedwatch.Svf.Growth

/-! The ids attached for parameters of `_instrumented` functions, and the lines of definitions in the
exported file. -/

namespace Embedwatch.Svf

open Library.PlainText Library.Runs

def Known (s : State) : Prop :=
  ∀ (call : Value) (name : Text) (id : ℕ), s.zref call name = some (decimal id) → DefLine s.trace id

structure Collected (s : State) : Prop where
  listed : Listed s.deflist s.nextId
  exported : ∀ d ∈ s.deflist, d.isField = false → d ∈ traceDefs s.trace
  fromList : traceDefs s.trace ⊆ s.deflist
  targeted : ∀ te ∈ s.trace, te.Targeted
  known : Known s

lemma Collected.init : Collected .init where
  listed := Listed.nil
  exported _ hd := nomatch hd
  fromList := List.nil_subset _
  targeted _ hte := nomatch hte
  known _ _ _ h := nomatch h

lemma Collected.grow {s s' : State} {ds : List Def} (h : Collected s) (hgrows : Grows s s' ds)
    {trace : List TraceEntity} (hdefs : ∀ d, d ∈ traceDefs trace ↔ d ∈ traceDefs s.trace ∨ d ∈ ds)
    (htargeted : ∀ te ∈ trace, te.Targeted) : Collected { s' with trace := trace } where
  listed := hgrows.listed h.listed
  exported d hd hfield := by
    rcases hgrows.only d hd with hd | hd
    · exact (hdefs d).mpr (Or.inl (h.exported d hd hfield))
    · exact (hdefs d).mpr (Or.inr hd)
  fromList d hd := by
    rcases (hdefs d).mp hd with hd | hd
    · exact hgrows.old (h.fromList hd)
    · exact hgrows.new hd
  targeted := htargeted
  known call name id hid := by
    rw [hgrows.zref] at hid
    exact (h.known call name id hid).mono fun d hd => (hdefs d).mpr (Or.inl hd)

lemma Collected.push {s s' : State} {ds : List Def} (h : Collected s) (hgrows : Grows s s' ds)
    {te : TraceEntity} (hte : te.defs = ds) (htargeted : te.Targeted) :
    Collected { s' with trace := s'.trace ++ [te] } := by
  apply h.grow hgrows
  · intro d
    rw [hgrows.trace, traceDefs, List.flatMap_append, List.mem_append, List.flatMap_singleton, hte]
    rfl
  · intro te' hte'
    rw [hgrows.trace] at hte'
    rcases List.mem_append.mp hte' with hte' | hte'
    · exact h.targeted te' hte'
    · rw [List.mem_singleton.mp hte']
      exact htargeted

lemma Collected.growFields {s s' : State} {ds : List Def} (h : Collected s) (hgrows : Grows s s' ds)
    (hfields : ∀ d ∈ ds, d.isField = true) : Collected s' where
  listed := hgrows.listed h.listed
  exported d hd hfield := by
    rw [hgrows.trace]
    rcases hgrows.only d hd with hd | hd
    · exact h.exported d hd hfield
    · rw [hfields d hd] at hfield
      cases hfield
  fromList := by
    rw [hgrows.trace]
    exact List.Subset.trans h.fromList hgrows.old
  targeted := by
    rw [hgrows.trace]
    exact h.targeted
  known call name id hid := by
    rw [hgrows.zref] at hid
    rw [hgrows.trace]
    exact h.known call name id hid

lemma setZref_zref (s : State) (call : Value) (param value : Text) :
    (s.setZref call param value).zref = Function.update s.zref call
      (Function.update (s.zref call) (zrefName param) (some value)) := rfl

lemma setZref_cases {s : State} {call call' : Value} {param name value value' : Text}
    (h : (s.setZref call param value).zref call' name = some value') :
    value' = value ∨ s.zref call' name = some value' := by
  rw [setZref_zref, Function.update_apply] at h
  split at h
  · rename_i hcall
    rw [Function.update_apply] at h
    split at h
    · exact Or.inl (Option.some.inj h).symm
    · rw [hcall]
      exact Or.inr h
  · exact Or.inr h

lemma setZref_self (s : State) (call : Value) (param value : Text) :
    (s.setZref call param value).zref call (zrefName param) = some value := by
  rw [setZref_zref, Function.update_self, Function.update_self]

lemma Collected.setId {s : State} (h : Collected s) {id : ℕ} (hid : DefLine s.trace id)
    (call : Value) (param : Text) : Collected (s.setZref call param (decimal id)) where
  listed := h.listed
  exported := h.exported
  fromList := h.fromList
  targeted := h.targeted
  known call' name id' hid' := by
    rcases setZref_cases hid' with heq | hold
    · rw [decimal_injective heq]
      exact hid
    · exact h.known call' name id' hold

lemma Collected.setArgument {s : State} (h : Collected s) (call : Value) (param arg : Text) :
    Collected (s.setZref call param (argumentId arg)) where
  listed := h.listed
  exported := h.exported
  fromList := h.fromList
  targeted := h.targeted
  known call' name id' hid' := by
    rcases setZref_cases hid' with heq | hold
    · have hmem : '_' ∈ decimal id' := by
        rw [heq, argumentId]
        exact List.mem_append_right _ (by decide)
      exact absurd hmem (not_mem_decimal (by decide) id')
    · exact h.known call' name id' hold

variable {svf : Graphs}

lemma input_collected {s s' : State} (h : Collected s) {f : InputFunction} {c : CallSite}
    (hround : svf.input s f c = some s') : Collected s' := by
  obtain ⟨param, -, hround⟩ := Option.bind_eq_some_iff.mp hround
  obtain ⟨⟨subs, s₁⟩, hsubs, hround⟩ := Option.map_eq_some_iff.mp hround
  cases hround
  have hcount := Grows.count s 1
  obtain ⟨hgrows, hplain⟩ := inputDefs_grows (hcount.listed h.listed) hsubs
  exact h.push (hcount.trans hgrows) rfl (targeted_input hplain)

lemma lib_collected {s s' : State} (h : Collected s) {f : LibFunction} {c : CallSite}
    (hround : svf.lib s f c = some s') : Collected s' := by
  obtain ⟨param, -, hround⟩ := Option.bind_eq_some_iff.mp hround
  obtain ⟨⟨ds, s₁⟩, hds, hround⟩ := Option.map_eq_some_iff.mp hround
  cases hround
  have hcount := Grows.count s 2
  have hgrows := hcount.trans (targets_grows (hcount.listed h.listed) hds)
  apply h.push hgrows
  · exact List.append_nil ds
  · apply targeted_input
    intro d hd
    cases List.mem_singleton.mp hd

lemma castUses_cons {s s' : State} {cast call : Value} {te : TraceEntity} {tes tes' : List TraceEntity}
    (h : svf.castUses s cast call (te :: tes) = some (tes', s')) :
    (∃ i us s₁ rest, te = .input i ∧ i.call = call ∧
      svf.storeUses s (fun _ => cast) (svf.storesFrom cast) = some (us, s₁) ∧
      svf.castUses s₁ cast call tes = some (rest, s') ∧
      tes' = .input { i with subObjects := i.subObjects ++ us.map .use } :: rest) ∨
    ∃ rest, (∀ i, te = .input i → i.call ≠ call) ∧ svf.castUses s cast call tes = some (rest, s') ∧
      tes' = te :: rest := by
  cases te with
  | input i =>
    rw [Graphs.castUses] at h
    split at h
    · next hcall =>
      obtain ⟨⟨us, s₁⟩, hus, h⟩ := Option.bind_eq_some_iff.mp h
      obtain ⟨⟨rest, s₂⟩, hrest, h⟩ := Option.map_eq_some_iff.mp h
      cases h
      exact Or.inl ⟨i, us, s₁, rest, rfl, hcall, hus, hrest, rfl⟩
    · next hcall =>
      obtain ⟨⟨rest, s₁⟩, hrest, h⟩ := Option.map_eq_some_iff.mp h
      cases h
      refine Or.inr ⟨rest, ?_, hrest, rfl⟩
      rintro i' hi
      cases hi
      exact hcall
  | use u | defn d =>
    obtain ⟨⟨rest, s₁⟩, hrest, h⟩ := Option.map_eq_some_iff.mp h
    cases h
    refine Or.inr ⟨rest, ?_, hrest, rfl⟩
    rintro i hi
    cases hi

lemma castUses_grows {s s' : State} (hl : Listed s.deflist s.nextId) {cast call : Value}
    {tes tes' : List TraceEntity} (htargeted : ∀ te ∈ tes, te.Targeted)
    (h : svf.castUses s cast call tes = some (tes', s')) : ∃ ds, Grows s s' ds ∧
      (∀ d, d ∈ traceDefs tes' ↔ d ∈ traceDefs tes ∨ d ∈ ds) ∧ ∀ te ∈ tes', te.Targeted := by
  induction tes generalizing s tes' with
  | nil =>
    cases h
    exact ⟨[], Grows.refl _, by simp, htargeted⟩
  | cons te tes ih =>
    rw [List.forall_mem_cons] at htargeted
    rcases castUses_cons h with
      ⟨i, us, s₁, rest, rfl, -, huses, hrest, rfl⟩ | ⟨rest, -, hrest, rfl⟩
    · have hstores := storeUses_grows hl huses
      obtain ⟨ds, hgrows, hdefs, hrestTargeted⟩ := ih (hstores.listed hl) htargeted.2 hrest
      have hnew : (us.map SubObject.use).flatMap SubObject.defs = us.flatMap ZUse.targets := by
        rw [List.flatMap_map]
        rfl
      have hnewUses : (us.map SubObject.use).flatMap SubObject.uses = us := by
        rw [List.flatMap_map]
        exact List.flatMap_singleton' us
      refine ⟨_, hstores.trans hgrows, ?_, List.forall_mem_cons.mpr ⟨?_, hrestTargeted⟩⟩
      · intro d
        have hrest : d ∈ List.flatMap TraceEntity.defs rest ↔ d ∈ traceDefs tes ∨ d ∈ ds :=
          hdefs d
        rw [traceDefs, List.flatMap_cons, List.mem_append, traceDefs, List.flatMap_cons,
          List.mem_append, TraceEntity.defs, List.flatMap_append, hnew, List.mem_append,
          TraceEntity.defs, List.mem_append]
        rw [hrest]
        exact or_or_or_comm
      · intro d hd hfield
        rw [TraceEntity.defs, List.flatMap_append, hnew, List.mem_append] at hd
        rw [TraceEntity.uses, List.flatMap_append, hnewUses]
        rcases hd with hd | hd
        · obtain ⟨u, hu, hd⟩ := htargeted.1 d hd hfield
          exact ⟨u, List.mem_append_left _ hu, hd⟩
        · obtain ⟨u, hu, hd⟩ := List.mem_flatMap.mp hd
          exact ⟨u, List.mem_append_right _ hu, hd⟩
    · obtain ⟨ds, hgrows, hdefs, hrestTargeted⟩ := ih hl htargeted.2 hrest
      refine ⟨ds, hgrows, ?_, List.forall_mem_cons.mpr ⟨htargeted.1, hrestTargeted⟩⟩
      intro d
      rw [traceDefs, List.flatMap_cons, List.mem_append, traceDefs, List.flatMap_cons,
        List.mem_append, or_assoc]
      exact or_congr Iff.rfl (hdefs d)

lemma inttoptr_collected {s s' : State} (h : Collected s) {cast call : Value}
    (hround : svf.inttoptr s cast call = some s') : Collected s' := by
  obtain ⟨⟨trace, s₁⟩, hgot, hround⟩ := Option.map_eq_some_iff.mp hround
  cases hround
  obtain ⟨ds, hgrows, hdefs, htargeted⟩ := castUses_grows h.listed h.targeted hgot
  exact h.grow hgrows hdefs htargeted

def Graphs.fieldNode (svf : Graphs) (deflist : List Def) : List PAGNode → Option PAGNode
  | [] => none
  | p :: ps =>
    if p.dominator then fieldNode svf deflist ps
    else if (getDefId deflist p).isSome then none
    else if svf.isStruct p then some p
    else if p.isOtherCall then fieldNode svf deflist ps
    else none

def Graphs.fieldAccess (svf : Graphs) (s : State) (p : Param) : Option (PAGNode × Graphs.Access) :=
  if p.pointer ∧ p.aliased = none then
    p.value.bind fun v => (svf.defOfParam v).bind fun use =>
      (svf.fieldNode s.deflist (svf.getDefNodes (svf.node use))).bind fun q =>
        (svf.pathsToUse q use).bind fun paths => paths.head?.bind fun path =>
          (svf.accessPath ⟨svf.valueType q.value, [], 0⟩ path).map fun a => (q, a)
  else none

def FieldUsed (s : State) (p : PAGNode) (a : Graphs.Access) : Prop :=
  ∃ d, (Graphs.fieldDefs s.deflist p a).head? = some d ∧
    ∃ te ∈ s.trace, ∃ u ∈ te.uses, d ∈ u.targets

def UsesField (svf : Graphs) (s : State) (r : Round) : Prop :=
  ∀ p, r = .param p → ∀ q a, svf.fieldAccess s p = some (q, a) → FieldUsed s q a

inductive Attached (svf : Graphs) (s : State) (call : Value) (name : Text) (use : Value) :
    Option PAGNode → State → Prop
  | nothing : Attached svf s call name use none s
  | known {p : PAGNode} {id : ℕ} (h : getDefId s.deflist p = some id) :
    Attached svf s call name use none (s.setZref call name (decimal id))
  | built {p : PAGNode} {d : Def} {s₁ : State} (h : svf.getOrBuildDef s p = some (some d, s₁)) :
    Attached svf s call name use none (State.setZref { s₁ with
      trace := s₁.trace ++ [.defn d], deflist := s₁.deflist ++ [d] } call name (decimal d.id))
  | field {q : PAGNode} {d : Def} {ds : List Def} {s₁ : State}
    (h : svf.analyzeGep s q use = some (d :: ds, s₁)) :
    Attached svf s call name use (some q) (s₁.setZref call name (decimal d.id))

lemma attached {s s' : State} (hl : Listed s.deflist s.nextId) {call : Value} {name : Text}
    {use : Value} {ps : List PAGNode} (h : svf.attachDef s call name use ps = some s') :
    Attached svf s call name use (svf.fieldNode s.deflist ps) s' := by
  induction ps with
  | nil =>
    cases h
    exact .nothing
  | cons p ps ih =>
    rw [Graphs.attachDef] at h
    rw [Graphs.fieldNode]
    by_cases hdom : p.dominator
    · rw [if_pos hdom] at h ⊢
      exact ih h
    rw [if_neg hdom] at h ⊢
    cases hid : getDefId s.deflist p with
    | some id =>
      rw [hid] at h
      cases h
      exact .known hid
    | none =>
      simp only [hid] at h
      simp only [Option.isSome_none, Bool.false_eq_true, if_false]
      by_cases hstruct : svf.isStruct p
      · rw [if_pos hstruct] at h ⊢
        obtain ⟨⟨ds, s₁⟩, hgep, h⟩ := Option.bind_eq_some_iff.mp h
        obtain ⟨d, hd, h⟩ := Option.map_eq_some_iff.mp h
        cases h
        obtain ⟨rest, rfl⟩ : ∃ rest, ds = d :: rest := List.head?_eq_some_iff.mp hd
        exact .field hgep
      · rw [if_neg hstruct] at h ⊢
        obtain ⟨⟨o, s₁⟩, hgot, hbranch⟩ := Option.bind_eq_some_iff.mp h
        cases o with
        | none =>
          obtain ⟨rfl, hother⟩ := getOrBuildDef_none hl hgot
          rw [if_pos hother]
          exact ih hbranch
        | some d =>
          cases hbranch
          have hother : p.isOtherCall = false := by
            rw [Graphs.getOrBuildDef, hid] at hgot
            obtain ⟨⟨o, n⟩, hbuild, hgot⟩ := Option.map_eq_some_iff.mp hgot
            cases hgot
            rcases buildDef_spec svf hbuild with ⟨hnone, -⟩ | ⟨-, -, -, hother⟩
            · cases hnone
            · exact hother
          rw [hother]
          exact .built hgot

lemma analyzeGep_head {s s₁ : State} {q : PAGNode} {use : Value} {d : Def} {ds : List Def}
    (h : svf.analyzeGep s q use = some (d :: ds, s₁)) : ∃ path paths a,
      svf.pathsToUse q use = some (path :: paths) ∧
      svf.accessPath ⟨svf.valueType q.value, [], 0⟩ path = some a ∧
      ((Graphs.fieldDefs s.deflist q a).head? = some d ∨
        (Graphs.fieldDefs s.deflist q a = [] ∧ d.id = s.nextId)) := by
  obtain ⟨paths, hpaths, h⟩ := Option.bind_eq_some_iff.mp h
  cases paths with
  | nil => cases h
  | cons path paths =>
    obtain ⟨⟨one, s₂⟩, hone, h⟩ := Option.bind_eq_some_iff.mp h
    obtain ⟨⟨rest, s₃⟩, -, h⟩ := Option.map_eq_some_iff.mp h
    obtain ⟨hds, -⟩ := Prod.mk.inj h
    obtain ⟨a, ha, hcases⟩ := analyzePath_cases hone
    refine ⟨path, paths, a, hpaths, ha, ?_⟩
    rcases hcases with ⟨rfl, hne, -⟩ | ⟨hnone, d', rfl, -, -, hid, -⟩
    · obtain ⟨d', ds', hlist⟩ := List.exists_cons_of_ne_nil hne
      rw [hlist] at hds ⊢
      exact Or.inl (congrArg some (List.cons.inj hds).1)
    · obtain rfl : d' = d := (List.cons.inj hds).1
      exact Or.inr ⟨hnone, hid⟩

lemma Collected.used {s : State} (h : Collected s) {d : Def} (hd : d ∈ traceDefs s.trace)
    (hfield : d.isField = true) : ∃ te ∈ s.trace, ∃ u ∈ te.uses, d ∈ u.targets := by
  obtain ⟨te, hte, hd⟩ := List.mem_flatMap.mp hd
  exact ⟨te, hte, h.targeted te hte d hd hfield⟩

lemma mem_defs_of_mem_targets {te : TraceEntity} {u : ZUse} {d : Def} (hu : u ∈ te.uses)
    (hd : d ∈ u.targets) : d ∈ te.defs := by
  cases te with
  | input i =>
    obtain ⟨sub, hsub, hu⟩ := List.mem_flatMap.mp hu
    refine List.mem_flatMap.mpr ⟨sub, hsub, ?_⟩
    cases sub with
    | use u' =>
      rw [List.mem_singleton.mp hu] at hd
      exact hd
    | defn d' => cases hu
  | use u' => cases hu
  | defn d' => cases hu

lemma field_iff {s s₁ : State} (h : Collected s) {q : PAGNode} {use : Value} {d : Def}
    {ds : List Def} (hgep : svf.analyzeGep s q use = some (d :: ds, s₁)) {path : GepPath}
    {paths : List GepPath} {a : Graphs.Access}
    (hpaths : svf.pathsToUse q use = some (path :: paths))
    (ha : svf.accessPath ⟨svf.valueType q.value, [], 0⟩ path = some a) :
    DefLine s₁.trace d.id ↔ FieldUsed s q a := by
  obtain ⟨hgrows, hfields⟩ := analyzeGep_grows hgep
  obtain ⟨path', paths', a', hpaths', ha', hhead⟩ := analyzeGep_head hgep
  cases hpaths.symm.trans hpaths'
  cases ha.symm.trans ha'
  rw [hgrows.trace]
  constructor
  · intro hline
    obtain ⟨e, he, e', he', hid⟩ := defLine_iff.mp hline
    have hlist := h.fromList he
    have hl₁ := hgrows.listed h.listed
    have hsame : e' = d := hl₁.unique e (hgrows.old hlist) d (hgrows.new List.mem_cons_self) e' he'
      d d.mem_parts_self hid
    subst hsame
    have hfield := hfields e' List.mem_cons_self
    obtain rfl := h.listed.plain e hlist e' he' hfield
    rcases hhead with hhead | ⟨-, hnew⟩
    · exact ⟨e', hhead, h.used he hfield⟩
    · exact absurd hnew (h.listed.lt e' hlist e' e'.mem_parts_self).ne
  · rintro ⟨d', hd', te, hte, u, hu, htarget⟩
    rcases hhead with hhead | ⟨hnone, -⟩
    · obtain rfl := Option.some.inj (hhead.symm.trans hd')
      exact DefLine.of_mem (List.mem_flatMap.mpr ⟨te, hte, mem_defs_of_mem_targets hu htarget⟩)
    · rw [hnone] at hd'
      cases hd'

lemma Attached.collected {s s' : State} (h : Collected s) {call : Value} {name : Text} {use : Value}
    {o : Option PAGNode} (hattached : Attached svf s call name use o s')
    (hused : ∀ q, o = some q → ∀ path paths a, svf.pathsToUse q use = some (path :: paths) →
      svf.accessPath ⟨svf.valueType q.value, [], 0⟩ path = some a → FieldUsed s q a) :
    Collected s' := by
  cases hattached with
  | nothing => exact h
  | known hid =>
    obtain ⟨d, hd, hfield, rfl, -⟩ := getDefWithID_of_getDefId h.listed hid
    exact h.setId (DefLine.of_mem (h.exported d hd hfield)) _ _
  | @built p d s₁ hgot =>
    obtain ⟨hgrows, hfield⟩ := getOrBuildDef_grows h.listed hgot
    have hte : (TraceEntity.defn d).Targeted := by
      intro e he he'
      rw [List.mem_singleton.mp he, hfield] at he'
      cases he'
    apply (h.push hgrows rfl hte).setId
    apply DefLine.of_mem
    exact List.mem_flatMap.mpr ⟨.defn d, List.mem_append_right _ (List.mem_singleton_self _),
      List.mem_singleton_self d⟩
  | @field q d ds s₁ hgep =>
    obtain ⟨hgrows, hfields⟩ := analyzeGep_grows hgep
    obtain ⟨path, paths, a, hpaths, ha, -⟩ := analyzeGep_head hgep
    apply (h.growFields hgrows hfields).setId
    exact (field_iff h hgep hpaths ha).mpr (hused q rfl path paths a hpaths ha)

lemma round_collected {s s' : State} (h : Collected s) {r : Round} (hused : UsesField svf s r)
    (hround : svf.round s r = some s') : Collected s' := by
  cases r with
  | input f c => exact input_collected h hround
  | lib f c => exact lib_collected h hround
  | inttoptr cast call => exact inttoptr_collected h hround
  | param p =>
    change svf.param s p = some s' at hround
    rw [Graphs.param] at hround
    split at hround
    · rename_i hpointer
      cases hvalue : p.value with
      | none =>
        rw [hvalue] at hround
        cases hround
        exact h
      | some v =>
        cases haliased : p.aliased with
        | some arg =>
          rw [hvalue, haliased] at hround
          cases hround
          exact h.setArgument _ _ _
        | none =>
          rw [hvalue, haliased] at hround
          obtain ⟨use, huse, hround⟩ := Option.bind_eq_some_iff.mp hround
          apply (attached h.listed hround).collected h
          intro q hq path paths a hpaths ha
          apply hused p rfl q a
          rw [Graphs.fieldAccess, if_pos ⟨hpointer, haliased⟩, hvalue]
          simp only [Option.bind_some, huse, hq, hpaths, List.head?_cons, ha, Option.map_some]
    · cases hround
      exact h

lemma usesField_of_known {s s' : State} (h : Collected s) {r : Round}
    (hround : svf.round s r = some s') (hknown : Known s') : UsesField svf s r := by
  rintro p rfl q a haccess
  change svf.param s p = some s' at hround
  rw [Graphs.fieldAccess] at haccess
  split at haccess
  · rename_i hparam
    obtain ⟨v, hvalue, haccess⟩ := Option.bind_eq_some_iff.mp haccess
    obtain ⟨use, huse, haccess⟩ := Option.bind_eq_some_iff.mp haccess
    obtain ⟨q', hq, haccess⟩ := Option.bind_eq_some_iff.mp haccess
    obtain ⟨paths, hpaths, haccess⟩ := Option.bind_eq_some_iff.mp haccess
    obtain ⟨path, hpath, haccess⟩ := Option.bind_eq_some_iff.mp haccess
    obtain ⟨a', ha, heq⟩ := Option.map_eq_some_iff.mp haccess
    cases heq
    obtain ⟨rest, rfl⟩ : ∃ rest, paths = path :: rest := List.head?_eq_some_iff.mp hpath
    rw [Graphs.param, if_pos hparam.1, hvalue, hparam.2] at hround
    simp only [huse, Option.bind_some] at hround
    have hattached := attached h.listed hround
    rw [hq] at hattached
    cases hattached with
    | @field q d ds s₁ hgep =>
      apply (field_iff h hgep hpaths ha).mp
      exact hknown p.call (zrefName p.name) d.id (setZref_self _ _ _ _)
  · cases haccess

def Graphs.step (svf : Graphs) (s : Option State) (r : Round) : Option State :=
  s.bind fun s => svf.round s r

lemma step_collected {o : Option State} {r : Round} (h : ∀ s ∈ o, Collected s)
    (hcond : ∀ s ∈ o, (svf.round s r).isSome → UsesField svf s r) :
    ∀ s ∈ svf.step o r, Collected s := by
  intro s hs
  obtain ⟨s₀, hs₀, hround⟩ := Option.bind_eq_some_iff.mp hs
  exact round_collected (h s₀ hs₀) (hcond s₀ hs₀ (Option.isSome_of_mem hround)) hround

lemma init_collected : ∀ s ∈ some State.init, Collected s := by
  intro s hs
  obtain rfl := Option.some.inj hs
  exact Collected.init

theorem known_iff_usesField (svf : Graphs) (m : Module) :
    EveryState svf.step (fun s => ∀ s' ∈ s, Known s') (some .init) m.rounds ↔
      EveryStep svf.step (fun s r => ∀ s' ∈ s, (svf.round s' r).isSome → UsesField svf s' r)
        (some .init) m.rounds := by
  apply everyState_iff_everyStep (fun s => ∀ s' ∈ s, Collected s') fun _ => True
  · intro s hs s' hs'
    exact (hs s' hs').known
  · exact fun s r hs _ hcond => step_collected hs hcond
  · intro s r hs _ hgood s' hs' hsome
    obtain ⟨s'', hround⟩ := Option.isSome_iff_exists.mp hsome
    exact usesField_of_known (hs s' hs') hround
      (hgood s'' (Option.bind_eq_some_iff.mpr ⟨s', hs', hround⟩))
  · exact init_collected
  · exact fun _ _ => trivial

theorem exported_known {m : Module} {s : State}
    (hcond : EveryStep svf.step (fun o r => ∀ s ∈ o, (svf.round s r).isSome → UsesField svf s r)
      (some .init) m.rounds)
    (hrun : run svf.step (some .init) m.rounds = some s) : Known s := by
  have hall : EveryState svf.step (fun o => ∀ s ∈ o, Collected s) (some .init) m.rounds :=
    everyState_of_invariant _ (fun _ => True) (fun _ _ hs _ hc => step_collected hs hc)
      init_collected (fun _ _ => trivial) hcond
  exact (hall.last s hrun).known

def openedFile : PAGNode := ⟨5, ['f', 'i', 'l', 'e'], ⟨0, .call ['f', 'o', 'p', 'e', 'n']⟩, false⟩

def fileGraphs : Graphs where
  valueType _ := 1
  allocatedType _ := 0
  globalType _ := 0
  structElements t := if t = 0 then some [2] else none
  pointee t := if t = 1 then some 0 else none
  allocSize _ := 4
  node _ := openedFile
  getDefNodes _ := [openedFile]
  outEdges _ := 0
  findTargetOfCall _ := none
  findFirstStore _ := none
  findDefNodesFromStore _ := []
  defOfParam v := some v
  storesFrom _ := []
  pathsToUse _ _ := some [[]]
  stack := 1

def fileModule : Module where
  callSites := []
  params := [⟨⟨7, .call ['r', 'e', 'a', 'd']⟩, ['f'], true, some openedFile.value, none⟩]
  casts := []

theorem file_id_not_exported : ∃ s, run fileGraphs.step (some .init) fileModule.rounds = some s ∧
    s.zref ⟨7, .call ['r', 'e', 'a', 'd']⟩ (zrefName ['f']) = some (decimal 0) ∧
    exportTrace s.trace = [] ∧ ¬ Known s := by
  refine ⟨_, rfl, by decide +kernel, rfl, ?_⟩
  intro hknown
  obtain ⟨line, hline, -⟩ := hknown ⟨7, .call ['r', 'e', 'a', 'd']⟩ (zrefName ['f']) 0 (by decide +kernel)
  cases hline

end Embedwatch.Svf
