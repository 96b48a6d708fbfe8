import Mathlib.Logic.Relation
import Mathlib.Data.List.Chain
import Mathlib.Tactic.Common

/-! A system that takes additional steps between those of a plain one. -/

namespace Embedwatch.Library.Stuttering

open Relation

variable {σ τ : Type*} {plain : σ → σ → Prop} {step : τ → τ → Prop} {erase : τ → σ} {waiting : τ → ℕ}
  {s : σ} {t t' : τ}

structure Erases (plain : σ → σ → Prop) (step : τ → τ → Prop) (erase : τ → σ) (waiting : τ → ℕ) :
    Prop where
  silent : ∀ t t', step t t' → waiting t ≠ 0 → erase t' = erase t ∧ waiting t' < waiting t
  enabled : ∀ t, waiting t ≠ 0 → ∃ t', step t t'
  forth : ∀ t t', step t t' → waiting t = 0 → plain (erase t) (erase t')
  back : ∀ t s, plain (erase t) s → waiting t = 0 → ∃ t', step t t' ∧ erase t' = s

def Settles (step : τ → τ → Prop) (waiting : τ → ℕ) (t t' : τ) : Prop :=
  ReflTransGen (fun t t' => waiting t ≠ 0 ∧ step t t') t t' ∧ waiting t' = 0

def Shows (step : τ → τ → Prop) (erase : τ → σ) (waiting : τ → ℕ) : τ → List σ → Prop
  | _, [] => True
  | t, s :: ss => ∃ t₁ t₂, Settles step waiting t t₁ ∧ step t₁ t₂ ∧ erase t₂ = s ∧
      Shows step erase waiting t₂ ss

lemma Settles.steps (h : Settles step waiting t t') : ReflTransGen step t t' :=
  ReflTransGen.mono (fun _ _ hstep => hstep.2) t t' h.1

namespace Erases

variable (h : Erases plain step erase waiting)

include h

lemma erase_settles (hs : Settles step waiting t t') : erase t' = erase t := by
  obtain ⟨hs, -⟩ := hs
  induction hs with
  | refl => rfl
  | tail _ hstep ih => rw [(h.silent _ _ hstep.2 hstep.1).1, ih]

lemma exists_settles (t : τ) : ∃ t', Settles step waiting t t' := by
  induction hn : waiting t using Nat.strong_induction_on generalizing t with
  | _ n ih =>
    by_cases h0 : waiting t = 0
    · exact ⟨t, .refl, h0⟩
    · obtain ⟨u, hstep⟩ := h.enabled t h0
      have hlt : waiting u < n := by
        rw [← hn]
        exact (h.silent t u hstep h0).2
      obtain ⟨t', hs, h0'⟩ := ih _ hlt u rfl
      exact ⟨t', hs.head ⟨h0, hstep⟩, h0'⟩

lemma exists_step (hs : plain (erase t) s) :
    ∃ t₁ t₂, Settles step waiting t t₁ ∧ step t₁ t₂ ∧ erase t₂ = s := by
  obtain ⟨t₁, hset⟩ := h.exists_settles t
  rw [← h.erase_settles hset] at hs
  obtain ⟨t₂, hstep, he⟩ := h.back t₁ s hs hset.2
  exact ⟨t₁, t₂, hset, hstep, he⟩

theorem shows_iff (t : τ) (ss : List σ) :
    Shows step erase waiting t ss ↔ List.IsChain plain (erase t :: ss) := by
  induction ss generalizing t with
  | nil =>
    constructor
    · intro _
      exact .singleton _
    · intro _
      trivial
  | cons s ss ih =>
    rw [List.isChain_cons_cons]
    constructor
    · rintro ⟨t₁, t₂, hset, hstep, rfl, hshows⟩
      rw [← h.erase_settles hset]
      exact ⟨h.forth t₁ t₂ hstep hset.2, (ih t₂).mp hshows⟩
    · rintro ⟨hs, hchain⟩
      obtain ⟨t₁, t₂, hset, hstep, rfl⟩ := h.exists_step hs
      exact ⟨t₁, t₂, hset, hstep, rfl, (ih t₂).mpr hchain⟩

theorem reachable_iff (t : τ) (s : σ) :
    ReflTransGen plain (erase t) s ↔ ∃ t', ReflTransGen step t t' ∧ erase t' = s := by
  constructor
  · intro hs
    induction hs with
    | refl => exact ⟨t, .refl, rfl⟩
    | tail _ hplain ih =>
      obtain ⟨u, hu, rfl⟩ := ih
      obtain ⟨t₁, t₂, hset, hstep, he⟩ := h.exists_step hplain
      exact ⟨t₂, (hu.trans hset.steps).tail hstep, he⟩
  · rintro ⟨t', ht, rfl⟩
    induction ht with
    | refl => exact .refl
    | @tail u v _ hstep ih =>
      by_cases h0 : waiting u = 0
      · exact ih.tail (h.forth u v hstep h0)
      · rw [(h.silent u v hstep h0).1]
        exact ih

lemma acc_of_plain (hs : Acc (fun s' s => plain s s') s) (he : erase t = s) :
    Acc (fun t' t => step t t') t := by
  induction hs generalizing t with
  | intro s _ ih =>
    induction hn : waiting t using Nat.strong_induction_on generalizing t with
    | _ n ihn =>
      refine Acc.intro t fun u hstep => ?_
      by_cases h0 : waiting t = 0
      · exact ih (erase u) (he ▸ h.forth t u hstep h0) rfl
      · obtain ⟨heq, hlt⟩ := h.silent t u hstep h0
        exact ihn _ (hn ▸ hlt) (heq.trans he) rfl

lemma plain_of_acc (ht : Acc (TransGen fun t' t => step t t') t) :
    Acc (fun s' s => plain s s') (erase t) := by
  induction ht with
  | intro t _ ih =>
    refine Acc.intro _ fun s hs => ?_
    obtain ⟨t₁, t₂, hset, hstep, rfl⟩ := h.exists_step hs
    apply ih
    rw [transGen_swap]
    exact TransGen.tail' hset.steps hstep

theorem acc_iff (t : τ) :
    Acc (fun s' s => plain s s') (erase t) ↔ Acc (fun t' t => step t t') t :=
  ⟨fun hs => h.acc_of_plain hs rfl, fun ht => h.plain_of_acc ht.transGen⟩

end Erases

section Inserted

variable {α : Type*} {p : α → Bool} {a : α} {l r : List α}

def insertedBefore (p : α → Bool) (l : List α) : ℕ := (l.takeWhile fun a => !p a).length

lemma insertedBefore_cons_of_pos (ha : p a = true) : insertedBefore p (a :: l) = 0 := by
  simp [insertedBefore, ha]

lemma insertedBefore_cons_of_neg (ha : p a = false) :
    insertedBefore p (a :: l) = insertedBefore p l + 1 := by
  simp [insertedBefore, ha]

lemma exists_inserted (h : insertedBefore p l ≠ 0) : ∃ a r, l = a :: r ∧ p a = false := by
  cases l with
  | nil => exact absurd rfl h
  | cons a r =>
    refine ⟨a, r, rfl, ?_⟩
    by_contra ha
    exact h (insertedBefore_cons_of_pos (Bool.not_eq_false _ ▸ ha))

lemma eq_cons_of_filter (h : l.filter p = a :: r) (h0 : insertedBefore p l = 0) :
    ∃ r', l = a :: r' ∧ r'.filter p = r := by
  cases l with
  | nil => cases h
  | cons b r' =>
    cases hb : p b with
    | false =>
      rw [insertedBefore_cons_of_neg hb] at h0
      omega
    | true =>
      rw [List.filter_cons_of_pos hb] at h
      obtain ⟨rfl, hr⟩ := List.cons.inj h
      exact ⟨r', rfl, hr⟩

lemma eq_nil_of_filter (h : l.filter p = []) (h0 : insertedBefore p l = 0) : l = [] := by
  cases l with
  | nil => rfl
  | cons b r' =>
    cases hb : p b with
    | false =>
      rw [insertedBefore_cons_of_neg hb] at h0
      omega
    | true =>
      rw [List.filter_cons_of_pos hb] at h
      cases h

end Inserted

end Embedwatch.Library.Stuttering
