import Embedwatch.Verifier.TraceParser

/-! The forest that `trace_parser` builds: a line becomes a child of the first line that has the id of
its father. -/

namespace Embedwatch.Verifier

open Library.PlainText

def fatherPlace (ts : List TraceLine) (p : ℕ) : Option ℕ :=
  ts[p]?.bind fun t =>
    if t.father = some (-1) then none else ts.findIdx? fun x => some x.id = t.father

def childPlaces (ts : List TraceLine) (i : ℕ) : List ℕ :=
  (List.range ts.length).filter fun p => fatherPlace ts p = some i

def rootPlaces (ts : List TraceLine) : List ℕ :=
  (List.range ts.length).filter fun p => ts[p]?.bind TraceLine.father = some (-1)

def FathersFirst (ts : List TraceLine) : Prop :=
  ∀ (p : ℕ) (t : TraceLine), ts[p]? = some t → t.father = some (-1) ∨
    ∃ q < p, ∃ t' : TraceLine, ts[q]? = some t' ∧ some t'.id = t.father

lemma FathersFirst.of_append {ts : List TraceLine} {t : TraceLine} (h : FathersFirst (ts ++ [t])) :
    FathersFirst ts := by
  intro p u hu
  have hp : p < ts.length := (List.getElem?_eq_some_iff.mp hu).1
  rcases h p u ((List.getElem?_append_left hp).trans hu) with hroot | ⟨q, hq, t', ht', hid⟩
  · exact Or.inl hroot
  · rw [List.getElem?_append_left (hq.trans hp)] at ht'
    exact Or.inr ⟨q, hq, t', ht', hid⟩

lemma findIdx?_append_of_mem {ts : List TraceLine} (us : List TraceLine) {q : ℕ} {t' : TraceLine} {father : Option ℤ}
    (ht' : ts[q]? = some t') (hid : some t'.id = father) :
    ∃ i < ts.length, ts.findIdx? (fun x => some x.id = father) = some i ∧
      (ts ++ us).findIdx? (fun x => some x.id = father) = some i := by
  cases h : ts.findIdx? (fun x => some x.id = father) with
  | none =>
    have hnone := List.findIdx?_eq_none_iff.mp h t' (List.mem_of_getElem? ht')
    exact absurd (decide_eq_true hid) (by simpa using hnone)
  | some i =>
    refine ⟨i, (List.findIdx?_eq_some_iff_getElem.mp h).1, rfl, ?_⟩
    rw [List.findIdx?_append, h]
    rfl

lemma fatherPlace_append {ts : List TraceLine} {t : TraceLine} (h : FathersFirst ts) {p : ℕ}
    (hp : p < ts.length) : fatherPlace (ts ++ [t]) p = fatherPlace ts p := by
  rw [fatherPlace, fatherPlace, List.getElem?_append_left hp, List.getElem?_eq_getElem hp]
  simp only [Option.bind_some]
  rcases h p ts[p] (List.getElem?_eq_getElem hp) with hroot | ⟨q, -, t', ht', hid⟩
  · rw [if_pos hroot, if_pos hroot]
  · obtain ⟨i, -, h1, h2⟩ := findIdx?_append_of_mem [t] ht' hid
    rw [h1, h2]

lemma childPlaces_append {ts : List TraceLine} {t : TraceLine} (h : FathersFirst ts) (i : ℕ) :
    childPlaces (ts ++ [t]) i = childPlaces ts i ++
      if fatherPlace (ts ++ [t]) ts.length = some i then [ts.length] else [] := by
  have hold : ∀ p ∈ List.range ts.length,
      decide (fatherPlace (ts ++ [t]) p = some i) = decide (fatherPlace ts p = some i) := by
    intro p hp
    rw [fatherPlace_append h (List.mem_range.mp hp)]
  rw [childPlaces, List.length_append, List.length_singleton, List.range_succ, List.filter_append,
    List.filter_congr hold, childPlaces, List.filter_singleton, Bool.cond_decide]

lemma rootPlaces_append (ts : List TraceLine) (t : TraceLine) :
    rootPlaces (ts ++ [t]) = rootPlaces ts ++
      if t.father = some (-1) then [ts.length] else [] := by
  have hold : ∀ p ∈ List.range ts.length,
      decide ((ts ++ [t])[p]?.bind TraceLine.father = some (-1)) =
        decide (ts[p]?.bind TraceLine.father = some (-1)) := by
    intro p hp
    rw [List.getElem?_append_left (List.mem_range.mp hp)]
  rw [rootPlaces, List.length_append, List.length_singleton, List.range_succ, List.filter_append,
    List.filter_congr hold, rootPlaces, List.filter_singleton, List.getElem?_concat_length,
    Option.bind_some, Bool.cond_decide]

def forest (ts : List TraceLine) : List TraceLine :=
  ts.mapIdx fun i t => { t with children := childPlaces ts i }

lemma getElem?_forest (ts : List TraceLine) (i : ℕ) :
    (forest ts)[i]? = ts[i]?.map fun t => { t with children := childPlaces ts i } :=
  List.getElem?_mapIdx

lemma findIdx?_forest (ts : List TraceLine) (t : TraceLine) (father : Option ℤ) :
    (forest ts ++ [t]).findIdx? (fun x => some x.id = father) =
      (ts ++ [t]).findIdx? fun x => some x.id = father := by
  have hids : (forest ts ++ [t]).map TraceLine.id = (ts ++ [t]).map TraceLine.id := by
    apply List.ext_getElem?
    intro p
    have hforest : (forest ts).map TraceLine.id = ts.map TraceLine.id := by
      apply List.ext_getElem?
      intro q
      rw [List.getElem?_map, getElem?_forest, List.getElem?_map]
      cases ts[q]? <;> rfl
    rw [List.map_append, List.map_append, hforest]
  have hmap : ∀ us : List TraceLine, us.findIdx? (fun x => some x.id = father) =
      (us.map TraceLine.id).findIdx? fun i => some i = father := by
    intro us
    rw [List.findIdx?_map]
    rfl
  rw [hmap, hmap, hids]

lemma childPlaces_of_le {ts : List TraceLine} {i : ℕ} (hi : ts.length ≤ i) :
    childPlaces ts i = [] := by
  rw [childPlaces, List.filter_eq_nil_iff]
  intro p _
  rw [decide_eq_true_eq]
  intro h
  obtain ⟨t, -, h⟩ := Option.bind_eq_some_iff.mp h
  split at h
  · cases h
  · have hlt := (List.findIdx?_eq_some_iff_getElem.mp h).1
    omega

lemma getElem?_forest_concat {ts : List TraceLine} {t : TraceLine} (hchildren : t.children = [])
    (p : ℕ) : (forest ts ++ [t])[p]? =
      (ts ++ [t])[p]?.map fun u => { u with children := childPlaces ts p } := by
  have hlen : (forest ts).length = ts.length := List.length_mapIdx
  rcases Nat.lt_trichotomy p ts.length with hp | rfl | hp
  · rw [List.getElem?_append_left (by omega), List.getElem?_append_left hp, getElem?_forest]
  · have hlast : (forest ts ++ [t])[ts.length]? = some t := by
      rw [← hlen]
      exact List.getElem?_concat_length ..
    rw [hlast, List.getElem?_concat_length, childPlaces_of_le le_rfl, Option.map_some,
      ← hchildren]
  · have hl : (forest ts ++ [t]).length ≤ p := by
      rw [List.length_append, hlen, List.length_singleton]
      omega
    have hr : (ts ++ [t]).length ≤ p := by
      rw [List.length_append, List.length_singleton]
      omega
    rw [List.getElem?_eq_none hl, List.getElem?_eq_none hr]
    rfl

lemma addLine_forest {ts : List TraceLine} {t : TraceLine} (h : FathersFirst (ts ++ [t]))
    (hchildren : t.children = []) {v : State} (hnodes : v.nodes = forest ts)
    (hroots : v.staticTrace = rootPlaces ts) : ∃ v', v.addLine t = some v' ∧
      v'.nodes = forest (ts ++ [t]) ∧ v'.staticTrace = rootPlaces (ts ++ [t]) := by
  have hts := h.of_append
  have hlen : v.nodes.length = ts.length := by rw [hnodes, forest, List.length_mapIdx]
  have hlast : (ts ++ [t])[ts.length]? = some t := List.getElem?_concat_length ..
  rw [State.addLine, rootPlaces_append, hnodes, hroots]
  by_cases hroot : t.father = some (-1)
  · have hplace : fatherPlace (ts ++ [t]) ts.length = none := by
      rw [fatherPlace, hlast, Option.bind_some, if_pos hroot]
    simp only [hroot, if_true]
    refine ⟨_, rfl, ?_, by rw [← hlen, hnodes]⟩
    apply List.ext_getElem?
    intro p
    rw [getElem?_forest, getElem?_forest_concat hchildren, childPlaces_append hts, hplace]
    simp only [reduceCtorEq, if_false, List.append_nil]
  · rcases h ts.length t hlast with hr | ⟨q, hq, t', ht', hid⟩
    · exact absurd hr hroot
    · rw [List.getElem?_append_left hq] at ht'
      obtain ⟨i, -, -, hfind⟩ := findIdx?_append_of_mem [t] ht' hid
      have hplace : fatherPlace (ts ++ [t]) ts.length = some i := by
        rw [fatherPlace, hlast, Option.bind_some, if_neg hroot, hfind]
      simp only [hroot, if_false, findIdx?_forest, hfind, List.append_nil]
      refine ⟨_, rfl, ?_, rfl⟩
      apply List.ext_getElem?
      intro p
      rw [getElem?_forest, List.getElem?_modify, getElem?_forest_concat hchildren,
        childPlaces_append hts, hplace]
      cases (ts ++ [t])[p]? with
      | none => rfl
      | some u =>
        simp only [Option.map_eq_map, Option.map_some, Option.some.injEq]
        by_cases hip : i = p
        · simp only [hip, if_true, ← hlen, hnodes]
        · simp only [hip, if_false, List.append_nil]

theorem foldlM_addLine {ts : List TraceLine} (h : FathersFirst ts)
    (hchildren : ∀ t ∈ ts, t.children = []) : ∃ v, ts.foldlM State.addLine .empty = some v ∧
      v.nodes = forest ts ∧ v.staticTrace = rootPlaces ts := by
  induction ts using List.reverseRecOn with
  | nil => exact ⟨.empty, rfl, rfl, rfl⟩
  | append_singleton ts t ih =>
    obtain ⟨v, hv, hnodes, hroots⟩ := ih h.of_append fun u hu =>
      hchildren u (List.mem_append_left _ hu)
    obtain ⟨v', hv', hnodes', hroots'⟩ := addLine_forest h (hchildren t (by simp)) hnodes hroots
    refine ⟨v', ?_, hnodes', hroots'⟩
    have hlast : [t].foldlM State.addLine v = some v' := by
      rw [List.foldlM_cons, hv']
      rfl
    rw [List.foldlM_append, hv]
    exact hlast

lemma length_nodes_parse {lines : List Text} {v v' : State}
    (h : lines.foldlM State.parseLine v = some v') :
    v'.nodes.length = v.nodes.length + lines.length := by
  induction lines generalizing v with
  | nil =>
    cases h
    rfl
  | cons line lines ih =>
    rw [List.foldlM_cons] at h
    obtain ⟨v₁, h₁, h⟩ := Option.bind_eq_some_iff.mp h
    obtain ⟨tl, -, h₁⟩ := Option.bind_eq_some_iff.mp h₁
    have hone : v₁.nodes.length = v.nodes.length + 1 := by
      rw [State.addLine] at h₁
      split at h₁
      · cases h₁
        exact List.length_append
      · split at h₁
        · cases h₁
          exact (List.length_modify ..).trans List.length_append
        · cases h₁
    rw [ih h, hone, List.length_cons]
    omega

end Embedwatch.Verifier
