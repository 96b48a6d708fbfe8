import Mathlib.Data.List.Forall2
import Mathlib.Tactic.Common

/-! Looking up the members of lists: in lists that are matched member by member, by a property that only
one member has, and by one where the first member that has it is taken. -/

namespace Embedwatch.Library.Lookup

variable {α β : Type*} {R : α → β → Prop} {l : List α} {l' : List β}

lemma exists_right_of_mem (h : List.Forall₂ R l l') {a : α} (ha : a ∈ l) : ∃ b ∈ l', R a b := by
  induction h with
  | nil => cases ha
  | cons hab _ ih =>
    rcases List.mem_cons.mp ha with rfl | ha
    · exact ⟨_, List.mem_cons_self, hab⟩
    · obtain ⟨b, hb, hr⟩ := ih ha
      exact ⟨b, List.mem_cons_of_mem _ hb, hr⟩

lemma exists_left_of_mem (h : List.Forall₂ R l l') {b : β} (hb : b ∈ l') : ∃ a ∈ l, R a b :=
  exists_right_of_mem h.flip hb

lemma find?_of_unique {p : α → Bool} {a : α} (ha : a ∈ l) (hp : p a = true)
    (hunique : ∀ b ∈ l, p b = true → b = a) : l.find? p = some a := by
  obtain ⟨b, hb⟩ : ∃ b, l.find? p = some b := by
    rw [← Option.isSome_iff_exists, List.find?_isSome]
    exact ⟨a, ha, hp⟩
  rw [hb, hunique b (List.mem_of_find?_eq_some hb) (List.find?_some hb)]

lemma mapM_cons_eq_some {f : α → Option β} {a : α} :
    (a :: l).mapM f = some l' ↔ ∃ b bs, f a = some b ∧ l.mapM f = some bs ∧ l' = b :: bs := by
  rw [List.mapM_cons]
  constructor
  · intro h
    obtain ⟨b, hb, h⟩ := Option.bind_eq_some_iff.mp h
    obtain ⟨bs, hbs, h⟩ := Option.bind_eq_some_iff.mp h
    cases h
    exact ⟨b, bs, hb, hbs, rfl⟩
  · rintro ⟨b, bs, hb, hbs, rfl⟩
    rw [hb, Option.bind_eq_bind, Option.bind_some, hbs]
    rfl

lemma mapM_eq_none {f : α → Option β} : l.mapM f = none ↔ ∃ a ∈ l, f a = none := by
  induction l with
  | nil => simp
  | cons a l ih =>
    simp only [List.mapM_cons, List.mem_cons, exists_eq_or_imp, ← ih]
    cases f a with
    | none => simp
    | some b => cases l.mapM f <;> simp

lemma mem_of_mapM {f : α → Option β} {b : β} (h : l.mapM f = some l') (hb : b ∈ l') :
    ∃ a ∈ l, f a = some b := by
  induction l generalizing l' with
  | nil =>
    cases h
    exact absurd hb List.not_mem_nil
  | cons a l ih =>
    obtain ⟨b', bs, hb', hbs, rfl⟩ := mapM_cons_eq_some.mp h
    rcases List.mem_cons.mp hb with rfl | hb
    · exact ⟨a, List.mem_cons_self, hb'⟩
    · obtain ⟨a, ha, hab⟩ := ih hbs hb
      exact ⟨a, List.mem_cons_of_mem _ ha, hab⟩

lemma length_of_mapM {f : α → Option β} (h : l.mapM f = some l') : l'.length = l.length := by
  induction l generalizing l' with
  | nil =>
    cases h
    rfl
  | cons a l ih =>
    obtain ⟨b', bs, -, hbs, rfl⟩ := mapM_cons_eq_some.mp h
    rw [List.length_cons, List.length_cons, ih hbs]

theorem exists_mapM_forall₂ {f : α → Option β} :
    (∃ l', l.mapM f = some l' ∧ List.Forall₂ R l l') ↔ ∀ a ∈ l, ∃ b, f a = some b ∧ R a b := by
  induction l with
  | nil => exact ⟨fun _ a ha => absurd ha List.not_mem_nil, fun _ => ⟨[], rfl, .nil⟩⟩
  | cons a l ih =>
    rw [List.forall_mem_cons, ← ih]
    constructor
    · rintro ⟨l', h, hrel⟩
      obtain ⟨b, bs, hb, hbs, rfl⟩ := mapM_cons_eq_some.mp h
      obtain ⟨hab, hrel⟩ := List.forall₂_cons.mp hrel
      exact ⟨⟨b, hb, hab⟩, bs, hbs, hrel⟩
    · rintro ⟨⟨b, hb, hab⟩, bs, hbs, hrel⟩
      exact ⟨b :: bs, mapM_cons_eq_some.mpr ⟨b, bs, hb, hbs, rfl⟩, .cons hab hrel⟩

def Preceded (p q : α → Prop) (l : List α) : Prop :=
  ∀ pre a post, l = pre ++ a :: post → p a → q a ∨ ∃ b ∈ pre, p b ∧ q b

section Preceded

variable {p q p' q' : α → Prop}

lemma preceded_nil : Preceded p q [] := by
  intro pre a post h
  cases pre <;> cases h

lemma preceded_cons {a : α} :
    Preceded p q (a :: l) ↔ (p a → q a) ∧ (¬ p a → Preceded p q l) := by
  constructor
  · intro h
    refine ⟨fun ha => (h [] a l rfl ha).resolve_right (by simp), ?_⟩
    intro ha pre b post hl hb
    rcases h (a :: pre) b post (by rw [hl]; rfl) hb with hq | ⟨c, hc, hp, hq⟩
    · exact Or.inl hq
    · rcases List.mem_cons.mp hc with rfl | hc
      · exact absurd hp ha
      · exact Or.inr ⟨c, hc, hp, hq⟩
  · rintro ⟨hhead, htail⟩ pre b post hl hb
    cases pre with
    | nil =>
      obtain ⟨rfl, -⟩ := List.cons.inj hl
      exact Or.inl (hhead hb)
    | cons c pre =>
      obtain ⟨rfl, hrest⟩ := List.cons.inj hl
      by_cases ha : p a
      · exact Or.inr ⟨a, List.mem_cons_self, ha, hhead ha⟩
      · apply (htail ha pre b post hrest hb).imp_right
        rintro ⟨d, hd, hpq⟩
        exact ⟨d, List.mem_cons_of_mem _ hd, hpq⟩

lemma preceded_of_forall (h : ∀ a ∈ l, p a → q a) : Preceded p q l := by
  rintro pre a post rfl ha
  exact Or.inl (h a (by simp) ha)

lemma preceded_congr (hp : ∀ a ∈ l, p a ↔ p' a) (hq : ∀ a ∈ l, p a → (q a ↔ q' a)) :
    Preceded p q l ↔ Preceded p' q' l := by
  induction l with
  | nil => exact iff_of_true preceded_nil preceded_nil
  | cons a l ih =>
    rw [List.forall_mem_cons] at hp hq
    rw [preceded_cons, preceded_cons, ih hp.2 hq.2, ← hp.1]
    apply and_congr_left
    intro _
    exact imp_congr_right hq.1

lemma preceded_congr_left (hp : ∀ a ∈ l, p a ↔ p' a) : Preceded p q l ↔ Preceded p' q l :=
  preceded_congr hp fun _ _ _ => Iff.rfl

lemma preceded_map {f : β → α} {l : List β} :
    Preceded p q (l.map f) ↔ Preceded (fun b => p (f b)) (fun b => q (f b)) l := by
  induction l with
  | nil => exact iff_of_true preceded_nil preceded_nil
  | cons b l ih => rw [List.map_cons, preceded_cons, preceded_cons, ih]

lemma preceded_filter {r : α → Bool} (h : ∀ a ∈ l, p a → r a = true) :
    Preceded p q (l.filter r) ↔ Preceded p q l := by
  induction l with
  | nil => exact Iff.rfl
  | cons a l ih =>
    rw [List.forall_mem_cons] at h
    rw [List.filter_cons]
    split
    · rw [preceded_cons, preceded_cons, ih h.2]
    · rename_i hr
      have ha : ¬ p a := fun ha => hr (h.1 ha)
      rw [preceded_cons, ih h.2]
      simp [ha]

theorem forall_find? {p : α → Bool} :
    (∀ a, l.find? p = some a → q a) ↔ Preceded (fun a => p a = true) q l := by
  induction l with
  | nil => exact iff_of_true (fun a ha => by cases ha) preceded_nil
  | cons a l ih =>
    rw [preceded_cons, ← ih]
    by_cases ha : p a = true
    · simp [List.find?_cons_of_pos ha, ha]
    · simp [List.find?_cons_of_neg ha, ha]

theorem forall_findSome? {f : α → Option β} {r : β → Prop} :
    (∀ b, l.findSome? f = some b → r b) ↔
      Preceded (fun a => (f a).isSome) (fun a => ∀ b, f a = some b → r b) l := by
  induction l with
  | nil => exact iff_of_true (fun b hb => by cases hb) preceded_nil
  | cons a l ih =>
    rw [preceded_cons, ← ih, List.findSome?_cons]
    cases f a with
    | none => simp
    | some b => simp

end Preceded

end Embedwatch.Library.Lookup
