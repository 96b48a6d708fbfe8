import Mathlib.Data.List.Nodup
import Mathlib.Logic.Function.Basic
import Mathlib.Tactic.Common

/-! Singly linked lists in a heap of nodes. -/

namespace Embedwatch.Library.LinkedList

structure Node (α : Type*) where
  value : α
  next : Option ℕ

abbrev Heap (α : Type*) := ℕ → Option (Node α)

variable {α : Type*} {heap : Heap α} {top : Option ℕ} {p q : ℕ} {ps : List ℕ} {xs : List α} {x : α}

def Linked (heap : Heap α) : Option ℕ → List ℕ → List α → Prop
  | none, [], [] => True
  | some p, q :: ps, x :: xs => p = q ∧ ∃ next, heap p = some ⟨x, next⟩ ∧ Linked heap next ps xs
  | _, _, _ => False

@[simp] lemma linked_none : Linked heap none ps xs ↔ ps = [] ∧ xs = [] := by
  cases ps <;> cases xs <;> simp [Linked]

lemma linked_some : Linked heap (some p) ps xs ↔ ∃ next ps' x xs', heap p = some ⟨x, next⟩ ∧
    Linked heap next ps' xs' ∧ ps = p :: ps' ∧ xs = x :: xs' := by
  constructor
  · intro h
    cases ps with
    | nil => cases xs <;> exact absurd h id
    | cons q ps =>
      cases xs with
      | nil => exact absurd h id
      | cons x xs =>
        obtain ⟨rfl, next, hp, hrest⟩ := h
        exact ⟨next, ps, x, xs, hp, hrest, rfl, rfl⟩
  · rintro ⟨next, ps', x, xs', hp, hrest, rfl, rfl⟩
    exact ⟨rfl, next, hp, hrest⟩

lemma Linked.length_eq (h : Linked heap top ps xs) : ps.length = xs.length := by
  induction ps generalizing top xs with
  | nil =>
    cases top with
    | none =>
      rw [(linked_none.mp h).2]
      rfl
    | some p =>
      obtain ⟨_, _, _, _, -, -, hps, -⟩ := linked_some.mp h
      cases hps
  | cons q ps ih =>
    cases top with
    | none => cases (linked_none.mp h).1
    | some p =>
      obtain ⟨_, _, _, _, -, hrest, hps, rfl⟩ := linked_some.mp h
      cases hps
      rw [List.length_cons, List.length_cons, ih hrest]

lemma Linked.allocated (h : Linked heap top ps xs) : ∀ p ∈ ps, heap p ≠ none := by
  induction ps generalizing top xs with
  | nil => simp
  | cons q ps ih =>
    cases top with
    | none => cases (linked_none.mp h).1
    | some p =>
      obtain ⟨_, _, _, _, hp, hrest, hps, -⟩ := linked_some.mp h
      cases hps
      intro r hr
      rcases List.mem_cons.mp hr with rfl | hr
      · rw [hp]
        simp
      · exact ih hrest r hr

lemma Linked.update (h : Linked heap top ps xs) (hq : q ∉ ps) (n : Option (Node α)) :
    Linked (Function.update heap q n) top ps xs := by
  induction ps generalizing top xs with
  | nil =>
    cases top with
    | none => exact linked_none.mpr (linked_none.mp h)
    | some p =>
      obtain ⟨_, _, _, _, -, -, hps, -⟩ := linked_some.mp h
      cases hps
  | cons r ps ih =>
    cases top with
    | none => cases (linked_none.mp h).1
    | some p =>
      obtain ⟨next, _, x, xs', hp, hrest, hps, hxs⟩ := linked_some.mp h
      cases hps
      rw [List.mem_cons, not_or] at hq
      refine linked_some.mpr ⟨next, ps, x, xs', ?_, ih hrest hq.2, rfl, hxs⟩
      rw [Function.update_of_ne (Ne.symm hq.1), hp]

def walk (heap : Heap α) : ℕ → Option ℕ → Option (List α)
  | _, none => some []
  | 0, some _ => none
  | fuel + 1, some p =>
    match heap p with
    | some n => (walk heap fuel n.next).map (n.value :: ·)
    | none => none

theorem Linked.walk_eq (h : Linked heap top ps xs) {fuel : ℕ} (hfuel : xs.length ≤ fuel) :
    walk heap fuel top = some xs := by
  induction xs generalizing top ps fuel with
  | nil =>
    cases top with
    | none => cases fuel <;> rfl
    | some p =>
      obtain ⟨_, _, _, _, -, -, -, hxs⟩ := linked_some.mp h
      cases hxs
  | cons x xs ih =>
    cases top with
    | none => cases (linked_none.mp h).2
    | some p =>
      obtain ⟨next, ps', _, _, hp, hrest, -, hxs⟩ := linked_some.mp h
      cases hxs
      rw [List.length_cons] at hfuel
      obtain ⟨fuel, rfl⟩ : ∃ n, fuel = n + 1 := ⟨fuel - 1, by omega⟩
      simp only [walk, hp]
      rw [ih hrest (by omega)]
      rfl

end Embedwatch.Library.LinkedList
