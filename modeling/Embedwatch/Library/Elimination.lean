import Embedwatch.Library.Reachability

/-! Elimination of nodes from a graph: a node goes, and its predecessors are joined to its successors. A
node with an edge to itself keeps its edges. -/

namespace Embedwatch.Library.Elimination

open Library.Reachability Relation

variable {α : Type*} {r q : α → α → Prop} {S T : Set α} {a b c x y : α}

def Eliminated (r : α → α → Prop) (c a b : α) : Prop :=
  (r a b ∧ a ≠ c ∧ b ≠ c) ∨ r a c ∧ r c b

lemma Eliminated.transGen (h : Eliminated r c a b) : TransGen r a b := by
  rcases h with ⟨hab, -, -⟩ | ⟨hac, hcb⟩
  · exact TransGen.single hab
  · exact (TransGen.single hac).tail hcb

lemma reached_eliminated (ha : a ≠ c) (h : TransGen r a b) :
    (b ≠ c ∧ TransGen (Eliminated r c) a b) ∨
      b = c ∧ ∃ x, x ≠ c ∧ r x c ∧ ReflTransGen (Eliminated r c) a x := by
  induction h with
  | @single b hab =>
    by_cases hb : b = c
    · subst hb
      exact Or.inr ⟨rfl, a, ha, hab, ReflTransGen.refl⟩
    · exact Or.inl ⟨hb, TransGen.single (Or.inl ⟨hab, ha, hb⟩)⟩
  | @tail b d _ hbd ih =>
    by_cases hd : d = c
    · subst hd
      rcases ih with ⟨hb, hab⟩ | ⟨-, x, hx, hxc, hax⟩
      · exact Or.inr ⟨rfl, b, hb, hbd, hab.to_reflTransGen⟩
      · exact Or.inr ⟨rfl, x, hx, hxc, hax⟩
    · refine Or.inl ⟨hd, ?_⟩
      rcases ih with ⟨hb, hab⟩ | ⟨rfl, x, hx, hxc, hax⟩
      · exact hab.tail (Or.inl ⟨hbd, hb, hd⟩)
      · exact TransGen.tail' hax (Or.inr ⟨hxc, hbd⟩)

lemma transGen_of_eliminated (h : TransGen (Eliminated r c) a b) : TransGen r a b := by
  induction h with
  | single hab => exact hab.transGen
  | tail _ hbd ih => exact ih.trans hbd.transGen

theorem transGen_eliminated_iff (ha : a ≠ c) (hb : b ≠ c) :
    TransGen (Eliminated r c) a b ↔ TransGen r a b := by
  refine ⟨transGen_of_eliminated, fun h => ?_⟩
  rcases reached_eliminated ha h with ⟨-, hab⟩ | ⟨hbc, -⟩
  · exact hab
  · exact absurd hbc hb

def Isolated (r : α → α → Prop) (x : α) : Prop := ∀ y, ¬ r x y ∧ ¬ r y x

lemma Isolated.eliminate (h : Isolated r x) (c : α) : Isolated (Eliminated r c) x := by
  intro y
  obtain ⟨hout, hin⟩ := h y
  refine ⟨?_, ?_⟩
  · rintro (⟨hxy, -, -⟩ | ⟨hxc, -⟩)
    · exact hout hxy
    · exact (h c).1 hxc
  · rintro (⟨hyx, -, -⟩ | ⟨-, hcx⟩)
    · exact hin hyx
    · exact (h c).2 hcx

lemma isolated_eliminated (h : ¬ r c c) : Isolated (Eliminated r c) c := by
  refine fun y => ⟨?_, ?_⟩
  · rintro (⟨-, hc, -⟩ | ⟨hcc, -⟩)
    · exact hc rfl
    · exact h hcc
  · rintro (⟨-, -, hc⟩ | ⟨-, hcc⟩)
    · exact hc rfl
    · exact h hcc

lemma eliminated_loop (h : r x x) (c : α) : Eliminated r c x x := by
  by_cases hx : x = c
  · subst hx
    exact Or.inr ⟨h, h⟩
  · exact Or.inl ⟨h, hx, hx⟩

def Bridges (r : α → α → Prop) (S : Set α) (q : α → α → Prop) : Prop :=
  ∀ a ∈ S, ∀ b ∈ S, q a b ↔ Direct r S a b

lemma Direct.trans_through (hc : c ∉ T) (hac : Direct r T a c) (hcb : Direct r T c b) :
    Direct r T a b := by
  apply hac.induction_on
  · exact fun x hxc => hcb.head hxc hc
  · exact fun x y hxy hy ih => ih.head hxy hy

lemma direct_remove_iff (hc : c ∈ S) : Direct r (S \ {c}) a b ↔
    Direct r S a b ∨ Direct r S a c ∧ Direct r S c b := by
  have hsub : S \ {c} ⊆ S := Set.sdiff_subset
  constructor
  · intro h
    apply h.induction_on
    · exact fun x hxb => Or.inl (Direct.single hxb)
    · intro x y hxy hy ih
      by_cases hyc : y = c
      · subst hyc
        have hyb : Direct r S y b := by
          rcases ih with h | h
          · exact h
          · exact h.2
        exact Or.inr ⟨Direct.single hxy, hyb⟩
      · have hyS : y ∉ S := fun h => hy ⟨h, hyc⟩
        rcases ih with h | ⟨hyc, hcb⟩
        · exact Or.inl (h.head hxy hyS)
        · exact Or.inr ⟨hyc.head hxy hyS, hcb⟩
  · rintro (h | ⟨hac, hcb⟩)
    · exact h.anti hsub
    · have hcT : c ∉ S \ {c} := fun h => h.2 rfl
      exact Direct.trans_through hcT (hac.anti hsub) (hcb.anti hsub)

lemma bridges_univ : Bridges r Set.univ r := by
  intro a _ b _
  refine ⟨Direct.single, fun h => ?_⟩
  obtain ⟨p, hp, hK⟩ := h
  cases p with
  | nil => simpa using hp
  | cons x p => exact absurd (Set.mem_univ x) (hK x List.mem_cons_self)

theorem Bridges.eliminate (h : Bridges r S q) (hc : c ∈ S) :
    Bridges r (S \ {c}) (Eliminated q c) := by
  rintro a ⟨haS, hac⟩ b ⟨hbS, hbc⟩
  rw [direct_remove_iff hc, Eliminated, h a haS b hbS, h a haS c hc, h c hc b hbS]
  have hne : a ≠ c ∧ b ≠ c := ⟨hac, hbc⟩
  simp only [hne, and_true, ne_eq, not_false_eq_true]

def Inside (r : α → α → Prop) (E : Set α) (a b : α) : Prop := r a b ∧ a ∈ E ∧ b ∈ E

def Cyclic (r : α → α → Prop) (E : Set α) : Prop := ∃ x, TransGen (Inside r E) x x

lemma Cyclic.exists_edge {E : Set α} (h : Cyclic r E) : ∃ x ∈ E, ∃ y, r x y := by
  obtain ⟨x, hx⟩ := h
  obtain ⟨y, hxy, -⟩ := TransGen.head'_iff.mp hx
  exact ⟨x, hxy.2.1, y, hxy.1⟩

lemma Cyclic.mono {E F : Set α} (h : Cyclic r E) (hEF : E ⊆ F) : Cyclic r F := by
  obtain ⟨x, hx⟩ := h
  refine ⟨x, TransGen.mono ?_ x x hx⟩
  exact fun a b hab => ⟨hab.1, hEF hab.2.1, hEF hab.2.2⟩

lemma eliminated_inside {E : Set α} (h : Eliminated (Inside r E) c a b) :
    Inside (Eliminated r c) E a b := by
  rcases h with ⟨⟨hab, ha, hb⟩, hac, hbc⟩ | ⟨⟨hac, ha, -⟩, hcb, -, hb⟩
  · exact ⟨Or.inl ⟨hab, hac, hbc⟩, ha, hb⟩
  · exact ⟨Or.inr ⟨hac, hcb⟩, ha, hb⟩

theorem Cyclic.eliminate {E : Set α} (h : Cyclic r E) (c : α) : Cyclic (Eliminated r c) E := by
  have hother : ∀ x, x ≠ c → TransGen (Inside r E) x x → Cyclic (Eliminated r c) E := by
    intro x hx hcycle
    have hcycle := (transGen_eliminated_iff hx hx).mpr hcycle
    refine ⟨x, TransGen.mono ?_ x x hcycle⟩
    exact fun a b h => eliminated_inside h
  obtain ⟨x, hx⟩ := h
  by_cases hxc : x = c
  · subst hxc
    obtain ⟨y, hxy, hyx⟩ := TransGen.head'_iff.mp hx
    by_cases hyx' : y = x
    · subst hyx'
      exact ⟨y, TransGen.single (eliminated_inside (Or.inr ⟨hxy, hxy⟩))⟩
    · exact hother y hyx' (TransGen.tail' hyx hxy)
  · exact hother x hxc hx

lemma inside_of_direct {E : Set α} (hE : ∀ x, x ∉ S → x ∈ E) (hb : b ∈ E) (h : Direct r S a b) :
    a ∈ E → TransGen (Inside r E) a b := by
  apply h.induction_on
  · exact fun x hxb hx => TransGen.single ⟨hxb, hx, hb⟩
  · exact fun x y hxy hy ih hx => TransGen.head ⟨hxy, hx, hE y hy⟩ (ih (hE y hy))

lemma cyclic_of_direct {E : Set α} (hE : ∀ x, x ∉ S → x ∈ E) (hc : c ∈ E) (h : Direct r S c c) :
    Cyclic r E :=
  ⟨c, inside_of_direct hE hc h hc⟩

lemma Direct.congr_reachable {start : α} (hT : ∀ x, ReflTransGen r start x → x ∉ T → x ∉ S)
    (ha : ReflTransGen r start a) (h : Direct r T a b) : Direct r S a b := by
  have hpath : ReflTransGen r start a → Direct r S a b := by
    apply h.induction_on
    · exact fun x hxb _ => Direct.single hxb
    · intro x y hxy hy ih hx
      have hy' := hx.tail hxy
      exact (ih hy').head hxy (hT y hy' hy)
  exact hpath ha

lemma Direct.mono_left (hrq : ∀ a b, r a b → q a b) (h : Direct r S a b) : Direct q S a b := by
  apply h.induction_on
  · exact fun x hxb => Direct.single (hrq x b hxb)
  · exact fun x y hxy hy ih => ih.head (hrq x y hxy) hy

def Reached (r : α → α → Prop) (start a b : α) : Prop := ReflTransGen r start a ∧ r a b

lemma reachable_reached_iff {start : α} :
    ReflTransGen (Reached r start) start a ↔ ReflTransGen r start a := by
  constructor
  · exact fun h => ReflTransGen.mono (fun x y hxy => hxy.2) start a h
  · intro h
    induction h with
    | refl => exact ReflTransGen.refl
    | tail hx hxy ih => exact ih.tail ⟨hx, hxy⟩

lemma direct_reached_iff {start : α} (ha : ReflTransGen r start a) :
    Direct (Reached r start) S a b ↔ Direct r S a b := by
  refine ⟨Direct.mono_left fun x y hxy => hxy.2, fun h => ?_⟩
  have hpath : ReflTransGen r start a → Direct (Reached r start) S a b := by
    apply h.induction_on
    · exact fun x hxb hx => Direct.single ⟨hx, hxb⟩
    · exact fun x y hxy hy ih hx => (ih (hx.tail hxy)).head ⟨hx, hxy⟩ hy
  exact hpath ha

lemma direct_remove_ends (hab : a ≠ b) : Direct r (S \ {a, b}) a b ↔ Direct r S a b := by
  refine ⟨fun h => ?_, fun h => h.anti Set.sdiff_subset⟩
  have hpath : Direct r S a b ∨ Direct r S a b := by
    apply h.induction_on (motive := fun x => Direct r S x b ∨ Direct r S a b)
    · exact fun x hxb => Or.inl (Direct.single hxb)
    · intro x y hxy hy ih
      by_cases hya : y = a
      · subst hya
        exact Or.inr (ih.elim id id)
      · by_cases hyb : y = b
        · subst hyb
          exact Or.inl (Direct.single hxy)
        · have hyS : y ∉ S := fun hS => hy ⟨hS, by simp [hya, hyb]⟩
          exact ih.imp_left fun h => h.head hxy hyS
  exact hpath.elim id id

end Embedwatch.Library.Elimination
