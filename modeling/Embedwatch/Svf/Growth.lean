import Embedwatch.Svf.TraceDefs

/-! What the parts of the analyses do to the list of definitions. -/

namespace Embedwatch.Svf

structure Grows (s s' : State) (ds : List Def) : Prop where
  trace : s'.trace = s.trace
  zref : s'.zref = s.zref
  old : s.deflist ⊆ s'.deflist
  new : ds ⊆ s'.deflist
  only : ∀ d ∈ s'.deflist, d ∈ s.deflist ∨ d ∈ ds
  nextId : s.nextId ≤ s'.nextId
  listed : Listed s.deflist s.nextId → Listed s'.deflist s'.nextId

namespace Grows

lemma count (s : State) (k : ℕ) : Grows s { s with nextId := s.nextId + k } [] where
  trace := rfl
  zref := rfl
  old := List.Subset.refl _
  new := List.nil_subset _
  only _ hd := Or.inl hd
  nextId := Nat.le_add_right _ _
  listed h := h.of_subset (List.Subset.refl _) (Nat.le_add_right _ _)

lemma refl (s : State) : Grows s s [] := count s 0

lemma trans {s s' s'' : State} {ds es : List Def} (h : Grows s s' ds) (h' : Grows s' s'' es) :
    Grows s s'' (ds ++ es) where
  trace := h'.trace.trans h.trace
  zref := h'.zref.trans h.zref
  old := List.Subset.trans h.old h'.old
  new := List.append_subset.mpr ⟨List.Subset.trans h.new h'.old, h'.new⟩
  only d hd := by
    rcases h'.only d hd with hd | hd
    · rcases h.only d hd with hd | hd
      · exact Or.inl hd
      · exact Or.inr (List.mem_append_left _ hd)
    · exact Or.inr (List.mem_append_right _ hd)
  nextId := h.nextId.trans h'.nextId
  listed hl := h'.listed (h.listed hl)

lemma again {s : State} {ds : List Def} (h : ds ⊆ s.deflist) : Grows s s ds where
  trace := rfl
  zref := rfl
  old := List.Subset.refl _
  new := h
  only _ hd := Or.inl hd
  nextId := le_rfl
  listed hl := hl

lemma concat {s s' : State} {d : Def} (htrace : s'.trace = s.trace) (hzref : s'.zref = s.zref)
    (hlist : s'.deflist = s.deflist ++ [d]) (hnext : s.nextId ≤ s'.nextId)
    (hlisted : Listed s.deflist s.nextId → Listed (s.deflist ++ [d]) s'.nextId) :
    Grows s s' [d] where
  trace := htrace
  zref := hzref
  old := by
    rw [hlist]
    exact List.subset_append_left _ _
  new := by
    rw [hlist]
    exact List.subset_append_right _ _
  only x hx := by
    rw [hlist] at hx
    exact List.mem_append.mp hx
  nextId := hnext
  listed hl := by
    rw [hlist]
    exact hlisted hl

end Grows

lemma defNodeCompare_isField {d : Def} {node : PAGNode} (h : defNodeCompare d node = true) :
    d.isField = false := by
  cases d with
  | sdef id node' type bytes fields offset => cases h
  | _ => rfl

lemma getDefWithID_of_getDefId {l : List Def} {n : ℕ} (hl : Listed l n) {node : PAGNode} {id : ℕ}
    (h : getDefId l node = some id) : ∃ d ∈ l, d.isField = false ∧ d.id = id ∧
      getDefWithID l id = some d := by
  obtain ⟨d, hd, rfl⟩ := Option.map_eq_some_iff.mp h
  have hmem := List.mem_of_find?_eq_some hd
  have hcompare : defNodeCompare d node = true := by simpa using List.find?_some hd
  refine ⟨d, hmem, defNodeCompare_isField hcompare, rfl, ?_⟩
  rw [getDefWithID]
  cases hfind : l.find? fun x => decide (x.id = d.id) with
  | none =>
    exact absurd (decide_eq_true rfl) (List.find?_eq_none.mp hfind d hmem)
  | some d' =>
    have hid : d'.id = d.id := by simpa using List.find?_some hfind
    rw [hl.unique d' (List.mem_of_find?_eq_some hfind) d hmem d' d'.mem_parts_self d d.mem_parts_self
      hid]

variable {svf : Graphs}

lemma getOrBuildDef_grows {s : State} (hl : Listed s.deflist s.nextId) {node : PAGNode} {d : Def}
    {s₁ : State} (h : svf.getOrBuildDef s node = some (some d, s₁)) :
    Grows s { s₁ with deflist := s₁.deflist ++ [d] } [d] ∧ d.isField = false := by
  rw [Graphs.getOrBuildDef] at h
  cases hid : getDefId s.deflist node with
  | none =>
    rw [hid] at h
    obtain ⟨⟨o, n'⟩, hbuild, h⟩ := Option.map_eq_some_iff.mp h
    rcases buildDef_spec svf hbuild with ⟨rfl, -⟩ | ⟨d', rfl, hnew, -⟩
    · cases h
    · cases h
      have hle : s.nextId ≤ n' :=
        ((hnew.le d d.mem_parts_self).trans_lt (hnew.lt d d.mem_parts_self)).le
      exact ⟨Grows.concat rfl rfl rfl hle hnew.listed, hnew.plain d d.mem_parts_self⟩
  | some id =>
    rw [hid] at h
    obtain ⟨d', hd', hfield, -, hget⟩ := getDefWithID_of_getDefId hl hid
    obtain ⟨hd, rfl⟩ := Prod.mk.inj (Option.some.inj h)
    obtain rfl := Option.some.inj (hget.symm.trans hd)
    refine ⟨Grows.concat rfl rfl rfl le_rfl fun hl => hl.of_subset ?_ le_rfl, hfield⟩
    exact List.append_subset.mpr ⟨List.Subset.refl _, by simpa using hd'⟩

lemma getOrBuildDef_none {s : State} (hl : Listed s.deflist s.nextId) {node : PAGNode} {s₁ : State}
    (h : svf.getOrBuildDef s node = some (none, s₁)) : s₁ = s ∧ node.isOtherCall = true := by
  rw [Graphs.getOrBuildDef] at h
  cases hid : getDefId s.deflist node with
  | none =>
    rw [hid] at h
    obtain ⟨⟨o, n'⟩, hbuild, h⟩ := Option.map_eq_some_iff.mp h
    rcases buildDef_spec svf hbuild with ⟨rfl, rfl, hother⟩ | ⟨d', rfl, -⟩
    · cases h
      exact ⟨rfl, hother⟩
    · cases h
  | some id =>
    rw [hid] at h
    obtain ⟨d', -, -, -, hget⟩ := getDefWithID_of_getDefId hl hid
    simp only [hget] at h
    cases h

lemma mem_fieldDefs {l : List Def} {p : PAGNode} {a : Graphs.Access} {d : Def}
    (h : d ∈ Graphs.fieldDefs l p a) : d ∈ l ∧ d.isField = true := by
  obtain ⟨hmem, hd⟩ := List.mem_filter.mp h
  refine ⟨hmem, ?_⟩
  cases d with
  | sdef id node type bytes fields offset => rfl
  | _ => cases hd

lemma analyzePath_cases {s : State} {p : PAGNode} {path : GepPath} {ds : List Def} {s' : State}
    (h : svf.analyzePath s p path = some (ds, s')) :
    ∃ a, svf.accessPath ⟨svf.valueType p.value, [], 0⟩ path = some a ∧
      ((ds = Graphs.fieldDefs s.deflist p a ∧ ds ≠ [] ∧ s' = s) ∨
        (Graphs.fieldDefs s.deflist p a = [] ∧ ∃ d, ds = [d] ∧ d.parts = [d] ∧ d.isField = true ∧
          d.id = s.nextId ∧
          s' = { s with nextId := s.nextId + 1, deflist := s.deflist ++ [d] })) := by
  obtain ⟨a, ha, h⟩ := Option.bind_eq_some_iff.mp h
  refine ⟨a, ha, ?_⟩
  by_cases hfound : Graphs.fieldDefs s.deflist p a = []
  · simp only [hfound, ne_eq, not_true_eq_false, if_false] at h
    obtain ⟨a', -, h⟩ := Option.map_eq_some_iff.mp h
    cases h
    exact Or.inr ⟨hfound, _, rfl, rfl, rfl, rfl, rfl⟩
  · simp only [hfound, ne_eq, not_false_eq_true, if_true] at h
    cases h
    exact Or.inl ⟨rfl, hfound, rfl⟩

lemma analyzePath_grows {s : State} {p : PAGNode} {path : GepPath} {ds : List Def} {s' : State}
    (h : svf.analyzePath s p path = some (ds, s')) :
    Grows s s' ds ∧ ∀ d ∈ ds, d.isField = true := by
  obtain ⟨a, -, ⟨rfl, -, rfl⟩ | ⟨-, d, rfl, hparts, hfield, hid, rfl⟩⟩ := analyzePath_cases h
  · exact ⟨Grows.again fun d hd => (mem_fieldDefs hd).1, fun d hd => (mem_fieldDefs hd).2⟩
  · refine ⟨Grows.concat rfl rfl rfl (Nat.le_succ _) ?_, ?_⟩
    · have hself : ∀ e ∈ d.parts, e = d := by
        intro e he
        rw [hparts] at he
        exact List.mem_singleton.mp he
      intro hl
      apply hl.concat
      · intro e he
        rw [hself e he, hid]
      · intro e he
        rw [hself e he, hid]
        exact Nat.lt_succ_self _
      · intro e he e' he' _
        rw [hself e he, hself e' he']
      · exact fun e he _ => hself e he
    · intro e he
      rw [List.mem_singleton.mp he, hfield]

lemma analyzePaths_grows {s : State} {p : PAGNode} {paths : List GepPath} {ds : List Def}
    {s' : State} (h : svf.analyzePaths s p paths = some (ds, s')) :
    Grows s s' ds ∧ ∀ d ∈ ds, d.isField = true := by
  induction paths generalizing s ds with
  | nil =>
    cases h
    exact ⟨Grows.refl _, fun d hd => nomatch hd⟩
  | cons path paths ih =>
    obtain ⟨⟨one, s₁⟩, hone, h⟩ := Option.bind_eq_some_iff.mp h
    obtain ⟨⟨rest, s₂⟩, hrest, h⟩ := Option.map_eq_some_iff.mp h
    cases h
    obtain ⟨hgrows₁, hfield₁⟩ := analyzePath_grows hone
    obtain ⟨hgrows₂, hfield₂⟩ := ih hrest
    refine ⟨hgrows₁.trans hgrows₂, ?_⟩
    intro d hd
    rcases List.mem_append.mp hd with hd | hd
    · exact hfield₁ d hd
    · exact hfield₂ d hd

lemma analyzeGep_grows {s : State} {p : PAGNode} {use : Value} {ds : List Def} {s' : State}
    (h : svf.analyzeGep s p use = some (ds, s')) : Grows s s' ds ∧ ∀ d ∈ ds, d.isField = true := by
  obtain ⟨paths, -, h⟩ := Option.bind_eq_some_iff.mp h
  exact analyzePaths_grows h

lemma targetsOf_grows {s : State} (hl : Listed s.deflist s.nextId) {use : Value} {p : PAGNode}
    {ds : List Def} {s' : State} (h : svf.targetsOf s use p = some (ds, s')) : Grows s s' ds := by
  rw [Graphs.targetsOf] at h
  split at h
  · exact (analyzeGep_grows h).1
  · obtain ⟨⟨o, s₁⟩, hgot, h⟩ := Option.bind_eq_some_iff.mp h
    obtain ⟨d, rfl, h⟩ := Option.map_eq_some_iff.mp h
    cases h
    exact (getOrBuildDef_grows hl hgot).1

lemma targets_grows {s : State} (hl : Listed s.deflist s.nextId) {use : Value} {ps : List PAGNode}
    {ds : List Def} {s' : State} (h : svf.targets s use ps = some (ds, s')) : Grows s s' ds := by
  induction ps generalizing s ds with
  | nil =>
    cases h
    exact Grows.refl _
  | cons p ps ih =>
    obtain ⟨⟨one, s₁⟩, hone, h⟩ := Option.bind_eq_some_iff.mp h
    obtain ⟨⟨rest, s₂⟩, hrest, h⟩ := Option.map_eq_some_iff.mp h
    cases h
    have hgrows := targetsOf_grows hl hone
    exact hgrows.trans (ih (hgrows.listed hl) hrest)

lemma storeUses_grows {s : State} (hl : Listed s.deflist s.nextId) {use : StoreNode → Value}
    {ns : List StoreNode} {us : List ZUse} {s' : State}
    (h : svf.storeUses s use ns = some (us, s')) : Grows s s' (us.flatMap ZUse.targets) := by
  induction ns generalizing s us with
  | nil =>
    cases h
    exact Grows.refl _
  | cons n ns ih =>
    obtain ⟨⟨ds, s₁⟩, hds, h⟩ := Option.bind_eq_some_iff.mp h
    obtain ⟨⟨rest, s₂⟩, hrest, h⟩ := Option.map_eq_some_iff.mp h
    cases h
    have hcount := Grows.count s 1
    have hgrows := hcount.trans (targets_grows (hcount.listed hl) hds)
    rw [List.nil_append] at hgrows
    exact hgrows.trans (ih (hgrows.listed hl) hrest)

def TraceEntity.Targeted (te : TraceEntity) : Prop :=
  ∀ d ∈ te.defs, d.isField = true → ∃ u ∈ te.uses, d ∈ u.targets

lemma targeted_input {i : In} (h : ∀ d, .defn d ∈ i.subObjects → d.isField = false) :
    (TraceEntity.input i).Targeted := by
  intro d hd hfield
  obtain ⟨sub, hsub, hd⟩ := List.mem_flatMap.mp hd
  cases sub with
  | use u => exact ⟨u, List.mem_flatMap.mpr ⟨.use u, hsub, List.mem_singleton_self u⟩, hd⟩
  | defn d' =>
    rw [List.mem_singleton.mp hd, h d' hsub] at hfield
    cases hfield

lemma inputDefs_grows {s : State} (hl : Listed s.deflist s.nextId) {ps : List PAGNode}
    {subs : List SubObject} {s' : State} (h : svf.inputDefs s ps = some (subs, s')) :
    Grows s s' (subs.flatMap SubObject.defs) ∧ ∀ d, .defn d ∈ subs → d.isField = false := by
  induction ps generalizing s subs with
  | nil =>
    cases h
    exact ⟨Grows.refl _, fun d hd => nomatch hd⟩
  | cons p ps ih =>
    obtain ⟨v, -, h⟩ := Option.bind_eq_some_iff.mp h
    obtain ⟨⟨o, s₁⟩, hgot, h⟩ := Option.bind_eq_some_iff.mp h
    obtain ⟨d, rfl, h⟩ := Option.bind_eq_some_iff.mp h
    obtain ⟨⟨us, s₂⟩, huses, h⟩ := Option.bind_eq_some_iff.mp h
    obtain ⟨⟨rest, s₃⟩, hrest, h⟩ := Option.map_eq_some_iff.mp h
    cases h
    obtain ⟨hdef, hfield⟩ := getOrBuildDef_grows hl hgot
    have hl₁ := hdef.listed hl
    have hstores := storeUses_grows hl₁ huses
    obtain ⟨hgrows, hplain⟩ := ih (hstores.listed hl₁) hrest
    have hdefs : (SubObject.defn d :: us.map .use ++ rest).flatMap SubObject.defs =
        [d] ++ (us.flatMap ZUse.targets ++ rest.flatMap SubObject.defs) := by
      rw [List.flatMap_append, List.flatMap_cons, List.flatMap_map, List.append_assoc]
      rfl
    refine ⟨?_, ?_⟩
    · rw [hdefs]
      exact hdef.trans (hstores.trans hgrows)
    · intro d' hd'
      rcases List.mem_append.mp hd' with hd' | hd'
      · rcases List.mem_cons.mp hd' with hd' | hd'
        · cases hd'
          exact hfield
        · obtain ⟨u, -, hu⟩ := List.mem_map.mp hd'
          cases hu
      · exact hplain d' hd'

end Embedwatch.Svf
