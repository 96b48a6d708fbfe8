import Embedwatch.Svf.Growth

/-! A second run of `analyzeGep` on the same node and use: it finds the definitions of the first run,
unless a path ends at the type of the node itself, which is looked up under this type and listed under
that of the first element. -/

namespace Embedwatch.Svf

namespace Graphs

variable (svf : Graphs)

def listedAccess (p : PAGNode) (a : Access) : Option Access :=
  if a.type = svf.valueType p.value then
    ((svf.elements a.type).bind List.head?).map fun t => ⟨t, a.fields ++ [0], a.size⟩
  else some a

def fieldDef (id : ℕ) (p : PAGNode) (a : Access) : Def :=
  .sdef id p a.type (svf.allocSize a.type) a.fields a.size

def FirstElementSame (p : PAGNode) : Prop :=
  (svf.elements (svf.valueType p.value)).bind List.head? = some (svf.valueType p.value)

def Settles (p : PAGNode) (l : List Def) (a : Access) : Prop :=
  a.type ≠ svf.valueType p.value ∨ fieldDefs l p a ≠ [] ∨ svf.FirstElementSame p

variable {svf} {p : PAGNode} {a a' b : Access} {l : List Def} {s s' s₁ s₂ : State} {ds es : List Def}
  {path : GepPath} {paths : List GepPath} {use : Value}

lemma analyzePath_eq : svf.analyzePath s p path =
    (svf.accessPath ⟨svf.valueType p.value, [], 0⟩ path).bind fun a =>
      if fieldDefs s.deflist p a ≠ [] then some (fieldDefs s.deflist p a, s)
      else (svf.listedAccess p a).map fun a' => ([svf.fieldDef s.nextId p a'],
        { s with nextId := s.nextId + 1, deflist := s.deflist ++ [svf.fieldDef s.nextId p a'] }) :=
  rfl

lemma analyzePath_iff (ha : svf.accessPath ⟨svf.valueType p.value, [], 0⟩ path = some a) :
    svf.analyzePath s p path = some (ds, s') ↔
      (fieldDefs s.deflist p a ≠ [] ∧ ds = fieldDefs s.deflist p a ∧ s' = s) ∨
      (fieldDefs s.deflist p a = [] ∧ ∃ a', svf.listedAccess p a = some a' ∧
        ds = [svf.fieldDef s.nextId p a'] ∧ s' = { s with
          nextId := s.nextId + 1, deflist := s.deflist ++ [svf.fieldDef s.nextId p a'] }) := by
  rw [analyzePath_eq, ha, Option.bind_some]
  by_cases hfound : fieldDefs s.deflist p a = []
  · simp [hfound, eq_comm]
  · simp [hfound, eq_comm]

lemma fieldDefs_concat (id : ℕ) :
    fieldDefs (l ++ [svf.fieldDef id p a']) p a = fieldDefs l p a ++
      if a'.type = a.type ∧ a'.size = a.size then [svf.fieldDef id p a'] else [] := by
  rw [fieldDefs, fieldDefs, List.filter_append, fieldDef]
  by_cases hkey : a'.type = a.type ∧ a'.size = a.size
  · rw [if_pos hkey, List.filter_cons_of_pos (by simp [hkey]), List.filter_nil]
  · rw [if_neg hkey, List.filter_cons_of_neg (by simpa using hkey), List.filter_nil]

lemma listedAccess_size (h : svf.listedAccess p a = some a') : a'.size = a.size := by
  rw [listedAccess] at h
  split at h
  · obtain ⟨t, -, rfl⟩ := Option.map_eq_some_iff.mp h
    rfl
  · rw [Option.some.inj h]

lemma listedAccess_type (hsame : a.type ≠ svf.valueType p.value ∨ svf.FirstElementSame p)
    (h : svf.listedAccess p a = some a') : a'.type = a.type := by
  rw [listedAccess] at h
  split at h
  · next htype =>
    obtain ⟨t, ht, rfl⟩ := Option.map_eq_some_iff.mp h
    have hfirst := hsame.resolve_left fun hne => hne htype
    rw [htype, hfirst] at ht
    exact (Option.some.inj ht).symm.trans htype.symm
  · rw [Option.some.inj h]

lemma Settles.same (h : svf.Settles p l a) (hnone : fieldDefs l p a = []) :
    a.type ≠ svf.valueType p.value ∨ svf.FirstElementSame p :=
  h.imp_right fun h => h.resolve_left fun hsome => hsome hnone

lemma Settles.mono (h : svf.Settles p s.deflist a) (hgrows : Grows s s' ds) :
    svf.Settles p s'.deflist a := by
  refine h.imp_right fun h => h.imp_left fun hsome => ?_
  obtain ⟨d, hd⟩ := List.exists_mem_of_ne_nil _ hsome
  obtain ⟨hmem, hkey⟩ := List.mem_filter.mp hd
  exact List.ne_nil_of_mem (List.mem_filter.mpr ⟨hgrows.old hmem, hkey⟩)

lemma Settles.found (ha : svf.accessPath ⟨svf.valueType p.value, [], 0⟩ path = some a)
    (h : svf.Settles p s.deflist a) (hpath : svf.analyzePath s p path = some (ds, s')) :
    fieldDefs s'.deflist p a = ds ∧ ds ≠ [] := by
  rcases (analyzePath_iff ha).mp hpath with ⟨hsome, rfl, rfl⟩ | ⟨hnone, a', ha', rfl, rfl⟩
  · exact ⟨rfl, hsome⟩
  · have hkey : a'.type = a.type ∧ a'.size = a.size :=
      ⟨listedAccess_type (h.same hnone) ha', listedAccess_size ha'⟩
    refine ⟨?_, List.cons_ne_nil _ _⟩
    rw [fieldDefs_concat, hnone, if_pos hkey, List.nil_append]

lemma Settles.keeps (ha : svf.accessPath ⟨svf.valueType p.value, [], 0⟩ path = some a)
    (h : svf.Settles p s.deflist a) (hpath : svf.analyzePath s p path = some (ds, s'))
    (hb : fieldDefs s.deflist p b ≠ []) : fieldDefs s'.deflist p b = fieldDefs s.deflist p b := by
  rcases (analyzePath_iff ha).mp hpath with ⟨-, -, rfl⟩ | ⟨hnone, a', ha', -, rfl⟩
  · rfl
  · rw [fieldDefs_concat, if_neg, List.append_nil]
    rintro ⟨htype, hsize⟩
    apply hb
    have hab : a.type = b.type ∧ a.size = b.size :=
      ⟨(listedAccess_type (h.same hnone) ha').symm.trans htype, (listedAccess_size ha').symm.trans hsize⟩
    rw [← hnone, fieldDefs, fieldDefs, hab.1, hab.2]

def AllSettle (svf : Graphs) (p : PAGNode) (l : List Def) (paths : List GepPath) : Prop :=
  ∀ path ∈ paths, ∀ a, svf.accessPath ⟨svf.valueType p.value, [], 0⟩ path = some a →
    svf.Settles p l a

lemma AllSettle.mono (h : AllSettle svf p s.deflist paths) (hgrows : Grows s s' ds) :
    AllSettle svf p s'.deflist paths :=
  fun path hpath a ha => (h path hpath a ha).mono hgrows

lemma AllSettle.keeps (h : AllSettle svf p s.deflist paths)
    (hpaths : svf.analyzePaths s p paths = some (ds, s'))
    (hb : fieldDefs s.deflist p b ≠ []) : fieldDefs s'.deflist p b = fieldDefs s.deflist p b := by
  induction paths generalizing s ds with
  | nil =>
    cases hpaths
    rfl
  | cons path paths ih =>
    obtain ⟨⟨one, s₁⟩, hone, hpaths⟩ := Option.bind_eq_some_iff.mp hpaths
    obtain ⟨⟨rest, s₂⟩, hrest, heq⟩ := Option.map_eq_some_iff.mp hpaths
    cases heq
    obtain ⟨a, ha, -⟩ := Option.bind_eq_some_iff.mp hone
    have hkeep := (h path List.mem_cons_self a ha).keeps ha hone hb
    have htail : AllSettle svf p s₁.deflist paths :=
      AllSettle.mono (fun q hq => h q (List.mem_cons_of_mem path hq)) (analyzePath_grows hone).1
    rw [ih htail hrest (by rw [hkeep]; exact hb), hkeep]

lemma AllSettle.again (h : AllSettle svf p s.deflist paths)
    (hpaths : svf.analyzePaths s p paths = some (ds, s')) :
    svf.analyzePaths s' p paths = some (ds, s') := by
  induction paths generalizing s ds with
  | nil =>
    cases hpaths
    rfl
  | cons path paths ih =>
    obtain ⟨⟨one, s₁⟩, hone, hpaths⟩ := Option.bind_eq_some_iff.mp hpaths
    obtain ⟨⟨rest, s₂⟩, hrest, heq⟩ := Option.map_eq_some_iff.mp hpaths
    cases heq
    obtain ⟨a, ha, -⟩ := Option.bind_eq_some_iff.mp hone
    obtain ⟨hfound, hne⟩ := (h path List.mem_cons_self a ha).found ha hone
    have htail : AllSettle svf p s₁.deflist paths :=
      AllSettle.mono (fun q hq => h q (List.mem_cons_of_mem path hq)) (analyzePath_grows hone).1
    have hfound₂ : fieldDefs s₂.deflist p a = one := by
      rw [htail.keeps hrest (by rw [hfound]; exact hne), hfound]
    have hone₂ : svf.analyzePath s₂ p path = some (one, s₂) :=
      (analyzePath_iff ha).mpr (Or.inl ⟨by rw [hfound₂]; exact hne, hfound₂.symm, rfl⟩)
    rw [analyzePaths, hone₂, Option.bind_some, ih htail hrest]
    rfl

lemma listedAccess_type_ne (hfirst : ¬ svf.FirstElementSame p) (h : svf.listedAccess p a = some a') :
    a'.type ≠ svf.valueType p.value := by
  rw [listedAccess] at h
  split at h
  · next htype =>
    obtain ⟨t, ht, rfl⟩ := Option.map_eq_some_iff.mp h
    intro hsame
    apply hfirst
    rw [FirstElementSame, ← htype, ht]
    exact congrArg some (hsame.trans htype.symm)
  · next htype =>
    rw [← Option.some.inj h]
    exact htype

lemma analyzePath_keeps (hfirst : ¬ svf.FirstElementSame p) (hb : b.type = svf.valueType p.value)
    (h : svf.analyzePath s p path = some (ds, s')) :
    fieldDefs s'.deflist p b = fieldDefs s.deflist p b := by
  obtain ⟨a, ha, -⟩ := Option.bind_eq_some_iff.mp h
  rcases (analyzePath_iff ha).mp h with ⟨-, -, rfl⟩ | ⟨-, a', ha', -, rfl⟩
  · rfl
  · rw [fieldDefs_concat, if_neg, List.append_nil]
    rintro ⟨htype, -⟩
    exact listedAccess_type_ne hfirst ha' (htype.trans hb)

lemma analyzePaths_keeps (hfirst : ¬ svf.FirstElementSame p) (hb : b.type = svf.valueType p.value)
    (h : svf.analyzePaths s p paths = some (ds, s')) :
    fieldDefs s'.deflist p b = fieldDefs s.deflist p b := by
  induction paths generalizing s ds with
  | nil =>
    cases h
    rfl
  | cons path paths ih =>
    obtain ⟨⟨one, s₁⟩, hone, h⟩ := Option.bind_eq_some_iff.mp h
    obtain ⟨⟨rest, s₂⟩, hrest, heq⟩ := Option.map_eq_some_iff.mp h
    cases heq
    exact (ih hrest).trans (analyzePath_keeps hfirst hb hone)

lemma analyzePath_length (h : svf.analyzePath s p path = some (ds, s')) :
    s.deflist.length ≤ s'.deflist.length := by
  obtain ⟨a, ha, -⟩ := Option.bind_eq_some_iff.mp h
  rcases (analyzePath_iff ha).mp h with ⟨-, -, rfl⟩ | ⟨-, a', -, -, rfl⟩
  · exact le_rfl
  · rw [List.length_append]
    exact Nat.le_add_right _ _

lemma analyzePaths_length (h : svf.analyzePaths s p paths = some (ds, s')) :
    s.deflist.length ≤ s'.deflist.length := by
  induction paths generalizing s ds with
  | nil =>
    cases h
    exact le_rfl
  | cons path paths ih =>
    obtain ⟨⟨one, s₁⟩, hone, h⟩ := Option.bind_eq_some_iff.mp h
    obtain ⟨⟨rest, s₂⟩, hrest, heq⟩ := Option.map_eq_some_iff.mp h
    cases heq
    exact (analyzePath_length hone).trans (ih hrest)

lemma analyzePaths_adds (hfirst : ¬ svf.FirstElementSame p) (hpath : path ∈ paths)
    (ha : svf.accessPath ⟨svf.valueType p.value, [], 0⟩ path = some a)
    (htype : a.type = svf.valueType p.value) (hnone : fieldDefs s.deflist p a = [])
    (h : svf.analyzePaths s p paths = some (ds, s')) : s.deflist.length < s'.deflist.length := by
  induction paths generalizing s ds with
  | nil => cases hpath
  | cons q paths ih =>
    obtain ⟨⟨one, s₁⟩, hone, h⟩ := Option.bind_eq_some_iff.mp h
    obtain ⟨⟨rest, s₂⟩, hrest, heq⟩ := Option.map_eq_some_iff.mp h
    cases heq
    rcases List.mem_cons.mp hpath with rfl | hpath
    · rcases (analyzePath_iff ha).mp hone with ⟨hsome, -⟩ | ⟨-, a', -, -, rfl⟩
      · exact absurd hnone hsome
      · have hlength := analyzePaths_length hrest
        rw [List.length_append] at hlength
        exact hlength
    · have hnone₁ : fieldDefs s₁.deflist p a = [] :=
        (analyzePath_keeps hfirst htype hone).trans hnone
      exact (analyzePath_length hone).trans_lt (ih hpath hnone₁ hrest)

def Repeats (svf : Graphs) (s : State) (p : PAGNode) (use : Value) : Prop :=
  ∀ ds s', svf.analyzeGep s p use = some (ds, s') →
    ∃ ds' s'', svf.analyzeGep s' p use = some (ds', s'') ∧ ds'.map Def.id = ds.map Def.id ∧
      s''.deflist = s'.deflist

theorem repeats_iff (svf : Graphs) (s : State) (p : PAGNode) (use : Value) :
    Repeats svf s p use ↔
      ∀ paths ds s', svf.pathsToUse p use = some paths → svf.analyzeGep s p use = some (ds, s') →
        AllSettle svf p s.deflist paths := by
  constructor
  · intro h paths ds s' hpaths hrun path hpath a ha
    obtain ⟨ds', s'', hagain, -, hlist⟩ := h ds s' hrun
    rw [analyzeGep, hpaths, Option.bind_some] at hrun hagain
    by_contra hsettle
    rw [Settles, not_or, not_or, not_not, not_not] at hsettle
    obtain ⟨htype, hnone, hfirst⟩ := hsettle
    have hnone' := (analyzePaths_keeps hfirst htype hrun).trans hnone
    have hadds := analyzePaths_adds hfirst hpath ha htype hnone' hagain
    rw [hlist] at hadds
    exact lt_irrefl _ hadds
  · intro h ds s' hrun
    obtain ⟨paths, hpaths, hpathsrun⟩ := Option.bind_eq_some_iff.mp hrun
    refine ⟨ds, s', ?_, rfl, rfl⟩
    rw [analyzeGep, hpaths]
    exact (h paths ds s' hpaths hrun).again hpathsrun

def structGraphs : Graphs where
  valueType _ := 1
  allocatedType _ := 1
  globalType _ := 1
  structElements t := if t = 1 then some [2] else none
  pointee _ := none
  allocSize _ := 4
  node v := ⟨v.ref, [], v, false⟩
  getDefNodes _ := []
  outEdges _ := 0
  findTargetOfCall _ := none
  findFirstStore _ := none
  findDefNodesFromStore _ := []
  defOfParam _ := none
  storesFrom _ := []
  pathsToUse _ _ := some [[]]
  stack := 0

theorem not_repeats_structGraphs :
    ¬ Repeats structGraphs State.init ⟨0, [], ⟨0, .alloca⟩, false⟩ ⟨1, .instruction⟩ := by
  intro h
  obtain ⟨ds', s'', hagain, -, hlist⟩ := h _ _ rfl
  obtain ⟨-, rfl⟩ := Prod.mk.inj (Option.some.inj hagain)
  revert hlist
  decide

end Graphs

end Embedwatch.Svf
