import Mathlib.Logic.Relation
import Mathlib.Tactic.Common

/-! Two systems that run in lock-step. -/

namespace Embedwatch.Library.Simulation

open Relation

variable {σ τ β : Type*} {step : σ → σ → Prop} {step' : τ → τ → Prop} {R : σ → τ → Prop}
  {s s' start : σ} {t t' : τ} {n : ℕ}

structure LockStep (step : σ → σ → Prop) (step' : τ → τ → Prop) (R : σ → τ → Prop) : Prop where
  forth : ∀ s t s', R s t → step s s' → ∃ t', step' t t' ∧ R s' t'
  back : ∀ s t t', R s t → step' t t' → ∃ s', step s s' ∧ R s' t'

lemma lockStep_of_reachable
    (forth : ∀ s t s', ReflTransGen step start s → R s t → step s s' → ∃ t', step' t t' ∧ R s' t')
    (back : ∀ s t t', ReflTransGen step start s → R s t → step' t t' → ∃ s', step s s' ∧ R s' t') :
    LockStep step step' fun s t => ReflTransGen step start s ∧ R s t where
  forth := by
    rintro s t s' ⟨hs, hR⟩ hstep
    obtain ⟨t', hstep', hR'⟩ := forth s t s' hs hR hstep
    exact ⟨t', hstep', hs.tail hstep, hR'⟩
  back := by
    rintro s t t' ⟨hs, hR⟩ hstep
    obtain ⟨s', hstep', hR'⟩ := back s t t' hs hR hstep
    exact ⟨s', hstep', hs.tail hstep', hR'⟩

def After (step : σ → σ → Prop) : ℕ → σ → σ → Prop
  | 0, s, s' => s' = s
  | n + 1, s, s' => ∃ u, step s u ∧ After step n u s'

namespace LockStep

variable (h : LockStep step step' R)

include h

lemma symm : LockStep step' step fun t s => R s t :=
  ⟨fun t s t' => h.back s t t', fun t s s' => h.forth s t s'⟩

theorem after (hR : R s t) (hs : After step n s s') : ∃ t', After step' n t t' ∧ R s' t' := by
  induction n generalizing s t with
  | zero =>
    obtain rfl : s' = s := hs
    exact ⟨t, rfl, hR⟩
  | succ n ih =>
    obtain ⟨u, hstep, hs⟩ := hs
    obtain ⟨w, hstep', hR'⟩ := h.forth s t u hR hstep
    obtain ⟨t', ht, hR''⟩ := ih hR' hs
    exact ⟨t', ⟨w, hstep', ht⟩, hR''⟩

theorem observed_iff {seen : σ → β} {seen' : τ → β} (hseen : ∀ s t, R s t → seen s = seen' t)
    (hR : R s t) (n : ℕ) (b : β) :
    (∃ s', After step n s s' ∧ seen s' = b) ↔ ∃ t', After step' n t t' ∧ seen' t' = b := by
  constructor
  · rintro ⟨s', hs, rfl⟩
    obtain ⟨t', ht, hR'⟩ := h.after hR hs
    exact ⟨t', ht, (hseen s' t' hR').symm⟩
  · rintro ⟨t', ht, rfl⟩
    obtain ⟨s', hs, hR'⟩ := h.symm.after hR ht
    exact ⟨s', hs, hseen s' t' hR'⟩

lemma acc (hR : R s t) (hs : Acc (fun s' s => step s s') s) : Acc (fun t' t => step' t t') t := by
  induction hs generalizing t with
  | intro s _ ih =>
    refine Acc.intro t fun t' hstep => ?_
    obtain ⟨s', hstep', hR'⟩ := h.back s t t' hR hstep
    exact ih s' hstep' hR'

theorem acc_iff (hR : R s t) :
    Acc (fun s' s => step s s') s ↔ Acc (fun t' t => step' t t') t :=
  ⟨h.acc hR, h.symm.acc hR⟩

end LockStep

end Embedwatch.Library.Simulation
