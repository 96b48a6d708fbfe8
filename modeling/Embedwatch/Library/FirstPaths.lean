import Mathlib.Data.List.Chain
import Mathlib.Data.Set.Insert
import Mathlib.Logic.Relation

/-! The paths that a depth-first search takes: at each node the first successor from which the end can
be reached without the nodes behind. -/

namespace Embedwatch.Library.FirstPaths

open Relation

variable {α : Type*} {next : α → List α} {V V' : Set α} {a b c x : α} {q : List α}

def Avoids (next : α → List α) (V : Set α) (a b : α) : Prop :=
  a ∉ V ∧ ReflTransGen (fun x y => y ∈ next x ∧ y ∉ V) a b

inductive First (next : α → List α) : Set α → α → α → List α → Prop
  | here {V : Set α} {a : α} : a ∉ V → First next V a a []
  | step {V : Set α} {a b c : α} {before after q : List α} : a ∉ V →
      next a = before ++ c :: after → (∀ x ∈ before, ¬ Avoids next (insert a V) x b) →
      First next (insert a V) c b q → First next V a b (c :: q)

lemma Avoids.refl (h : a ∉ V) : Avoids next V a a := ⟨h, ReflTransGen.refl⟩

lemma Avoids.end_notMem (h : Avoids next V a b) : b ∉ V := by
  rcases ReflTransGen.cases_tail h.2 with rfl | ⟨x, -, hb⟩
  · exact h.1
  · exact hb.2

lemma Avoids.trans (h : Avoids next V a b) (h' : Avoids next V b c) : Avoids next V a c :=
  ⟨h.1, h.2.trans h'.2⟩

lemma Avoids.head (ha : a ∉ V) (hx : x ∈ next a) (h : Avoids next V x b) : Avoids next V a b :=
  ⟨ha, ReflTransGen.head ⟨hx, h.1⟩ h.2⟩

lemma Avoids.anti (hsub : V ⊆ V') (h : Avoids next V' a b) : Avoids next V a b := by
  refine ⟨fun ha => h.1 (hsub ha), ReflTransGen.mono ?_ a b h.2⟩
  rintro x y ⟨hy, hV⟩
  exact ⟨hy, fun hyV => hV (hsub hyV)⟩

lemma avoids_iff (ha : a ∉ V) :
    Avoids next V a b ↔ a = b ∨ ∃ c ∈ next a, Avoids next (insert a V) c b := by
  constructor
  · rintro ⟨-, hab⟩
    induction hab with
    | refl => exact Or.inl rfl
    | @tail x y _ hxy ih =>
      by_cases hy : a = y
      · exact Or.inl hy
      · have hyV : y ∉ insert a V := fun h => by
          rcases Set.mem_insert_iff.mp h with rfl | h
          · exact hy rfl
          · exact hxy.2 h
        rcases ih with rfl | ⟨c, hc, hcx⟩
        · exact Or.inr ⟨y, hxy.1, Avoids.refl hyV⟩
        · exact Or.inr ⟨c, hc, hcx.1, hcx.2.tail ⟨hxy.1, hyV⟩⟩
  · rintro (rfl | ⟨c, hc, hcb⟩)
    · exact Avoids.refl ha
    · exact Avoids.head ha hc (hcb.anti (Set.subset_insert a V))

lemma Avoids.enlarge (hdead : ∀ x ∈ V', x ∉ V → ¬ Avoids next V x b) (h : Avoids next V a b) :
    Avoids next V' a b := by
  obtain ⟨ha, hab⟩ := h
  induction hab using ReflTransGen.head_induction_on with
  | refl => exact Avoids.refl fun h => hdead b h ha (Avoids.refl ha)
  | @head x y hxy hyb ih =>
    have hx : Avoids next V x b := Avoids.head ha hxy.1 ⟨hxy.2, hyb⟩
    exact Avoids.head (fun h => hdead x h ha hx) hxy.1 (ih hxy.2)

lemma First.avoids (h : First next V a b q) : Avoids next V a b := by
  induction h with
  | here ha => exact Avoids.refl ha
  | @step V a b c before after q ha hnext _ _ ih =>
    have hc : c ∈ next a := by
      rw [hnext]
      exact List.mem_append_right before List.mem_cons_self
    exact Avoids.head ha hc (ih.anti (Set.subset_insert a V))

lemma First.getLast (h : First next V a b q) : (a :: q).getLast (List.cons_ne_nil a q) = b := by
  induction h with
  | here _ => rfl
  | step _ _ _ _ ih =>
    rw [List.getLast_cons (List.cons_ne_nil _ _)]
    exact ih

lemma First.isChain (h : First next V a b q) : List.IsChain (fun x y => y ∈ next x) (a :: q) := by
  induction h with
  | here _ => exact List.isChain_singleton _
  | @step V a b c before after q _ hnext _ _ ih =>
    refine List.isChain_cons_cons.mpr ⟨?_, ih⟩
    rw [hnext]
    exact List.mem_append_right before List.mem_cons_self

lemma dead_insert (hdead : ∀ x ∈ V', x ∉ V → ¬ Avoids next V x b) :
    ∀ x ∈ insert a V', x ∉ insert a V → ¬ Avoids next (insert a V) x b := by
  intro x hx hxV havoids
  have hx' : x ∈ V' := Set.mem_of_mem_insert_of_ne hx fun hxa => hxV (by rw [hxa]; exact Set.mem_insert a V)
  exact hdead x hx' (fun h => hxV (Set.mem_insert_of_mem a h))
    (havoids.anti (Set.subset_insert a V))

theorem First.enlarge_iff (hsub : V ⊆ V') (hdead : ∀ x ∈ V', x ∉ V → ¬ Avoids next V x b) :
    First next V a b q ↔ First next V' a b q := by
  constructor
  · intro h
    induction h generalizing V' with
    | here ha => exact First.here fun h => hdead _ h ha (Avoids.refl ha)
    | @step V a b c before after q ha hnext hbefore hrest ih =>
      have hab : Avoids next V a b := (First.step ha hnext hbefore hrest).avoids
      refine First.step (fun h => hdead a h ha hab) hnext (fun x hx hxb => ?_)
        (ih (Set.insert_subset_insert hsub) (dead_insert hdead))
      exact hbefore x hx (hxb.anti (Set.insert_subset_insert hsub))
  · intro h
    induction h generalizing V with
    | here ha => exact First.here fun h => ha (hsub h)
    | @step V' a b c before after q ha hnext hbefore hrest ih =>
      refine First.step (fun h => ha (hsub h)) hnext (fun x hx hxb => ?_)
        (ih (Set.insert_subset_insert hsub) (dead_insert hdead))
      exact hbefore x hx (hxb.enlarge (dead_insert hdead))

end Embedwatch.Library.FirstPaths
