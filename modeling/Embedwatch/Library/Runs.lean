import Mathlib.Data.List.Infix
import Mathlib.Tactic.Common

/-! Runs of a deterministic step function over a list of actions. The main rule relates a property
of every state of a run to a condition on each of its steps. -/

namespace Embedwatch.Library.Runs

variable {σ α : Type*} (step : σ → α → σ)

def run (s : σ) (as : List α) : σ := as.foldl step s

@[simp] lemma run_nil (s : σ) : run step s [] = s := rfl

@[simp] lemma run_cons (s : σ) (a : α) (as : List α) :
    run step s (a :: as) = run step (step s a) as := rfl

def EveryState (good : σ → Prop) (s : σ) : List α → Prop
  | [] => good s
  | a :: as => good s ∧ EveryState good (step s a) as

def EveryStep (cond : σ → α → Prop) (s : σ) : List α → Prop
  | [] => True
  | a :: as => cond s a ∧ EveryStep cond (step s a) as

variable {step}

lemma EveryState.head {good : σ → Prop} {s : σ} {as : List α} (h : EveryState step good s as) :
    good s := by
  cases as with
  | nil => exact h
  | cons a as => exact h.1

theorem everyState_iff_forall {good : σ → Prop} {s : σ} {as : List α} :
    EveryState step good s as ↔ ∀ p, p <+: as → good (run step s p) := by
  induction as generalizing s with
  | nil =>
    constructor
    · intro h p hp
      obtain rfl := List.prefix_nil.mp hp
      exact h
    · intro h
      exact h [] List.prefix_rfl
  | cons a as ih =>
    constructor
    · rintro ⟨hs, hrest⟩ p hp
      cases p with
      | nil => exact hs
      | cons b p =>
        obtain ⟨rfl, hp'⟩ := List.cons_prefix_cons.mp hp
        exact ih.mp hrest p hp'
    · intro h
      refine ⟨h [] (List.nil_prefix), ih.mpr fun p hp => ?_⟩
      exact h (a :: p) (List.cons_prefix_cons.mpr ⟨rfl, hp⟩)

lemma EveryState.last {good : σ → Prop} {s : σ} {as : List α} (h : EveryState step good s as) :
    good (run step s as) :=
  everyState_iff_forall.mp h as List.prefix_rfl

theorem everyState_of_invariant (inv : σ → Prop) (ok : α → Prop) {cond : σ → α → Prop}
    (hstep : ∀ s a, inv s → ok a → cond s a → inv (step s a)) {s : σ} {as : List α}
    (hs : inv s) (hok : ∀ a ∈ as, ok a) (h : EveryStep step cond s as) :
    EveryState step inv s as := by
  induction as generalizing s with
  | nil => exact hs
  | cons a as ih =>
    have ha := hok a List.mem_cons_self
    exact ⟨hs, ih (hstep s a hs ha h.1) (fun b hb => hok b (List.mem_cons_of_mem a hb)) h.2⟩

theorem everyStep_of_invariant (inv : σ → Prop) {cond : σ → α → Prop}
    (hstep : ∀ s a, inv s → inv (step s a)) (hcond : ∀ s a, inv s → cond s a) {s : σ} {as : List α}
    (hs : inv s) : EveryStep step cond s as := by
  induction as generalizing s with
  | nil => trivial
  | cons a as ih => exact ⟨hcond s a hs, ih (hstep s a hs)⟩

lemma EveryState.imp {good good' : σ → Prop} (hg : ∀ s, good s → good' s) {s : σ} {as : List α}
    (h : EveryState step good s as) : EveryState step good' s as :=
  everyState_iff_forall.mpr fun p hp => hg _ (everyState_iff_forall.mp h p hp)

theorem everyState_iff_everyStep {good : σ → Prop} (inv : σ → Prop) {cond : σ → α → Prop}
    (ok : α → Prop)
    (hgood : ∀ s, inv s → good s)
    (hstep : ∀ s a, inv s → ok a → cond s a → inv (step s a))
    (hcond : ∀ s a, inv s → ok a → good (step s a) → cond s a)
    {s : σ} {as : List α} (hs : inv s) (hok : ∀ a ∈ as, ok a) :
    EveryState step good s as ↔ EveryStep step cond s as := by
  constructor
  · intro h
    induction as generalizing s with
    | nil => trivial
    | cons a as ih =>
      have ha := hok a List.mem_cons_self
      have hc := hcond s a hs ha h.2.head
      exact ⟨hc, ih (hstep s a hs ha hc) (fun b hb => hok b (List.mem_cons_of_mem a hb)) h.2⟩
  · intro h
    exact (everyState_of_invariant inv ok hstep hs hok h).imp hgood

theorem foldlM_invariant (inv : σ → Prop) {step : σ → α → Option σ} {as : List α}
    (hstep : ∀ a ∈ as, ∀ s s', inv s → step s a = some s' → inv s') {s s' : σ} (hs : inv s)
    (h : as.foldlM step s = some s') : inv s' := by
  induction as generalizing s with
  | nil =>
    cases h
    exact hs
  | cons a as ih =>
    rw [List.foldlM_cons] at h
    obtain ⟨next, hnext, h⟩ := Option.bind_eq_some_iff.mp h
    apply ih (fun b hb => hstep b (List.mem_cons_of_mem a hb)) ?_ h
    exact hstep a List.mem_cons_self s next hs hnext

theorem foldlM_taken (inv : List α → σ → Prop) {step : σ → α → Option σ} {as : List α}
    (hstep : ∀ done, ∀ a ∈ as, ∀ s s', inv done s → step s a = some s' → inv (done ++ [a]) s')
    {s s' : σ} (hs : inv [] s) (h : as.foldlM step s = some s') : inv as s' := by
  have hrun : ∀ rest done s, (∀ a ∈ rest, a ∈ as) → inv done s → rest.foldlM step s = some s' →
      inv (done ++ rest) s' := by
    intro rest
    induction rest with
    | nil =>
      intro done s _ hs h
      cases h
      rwa [List.append_nil]
    | cons a rest ih =>
      intro done s hmem hs h
      rw [List.foldlM_cons] at h
      obtain ⟨next, hnext, h⟩ := Option.bind_eq_some_iff.mp h
      rw [List.forall_mem_cons] at hmem
      rw [List.append_cons]
      exact ih (done ++ [a]) next hmem.2 (hstep done a hmem.1 s next hs hnext) h
  exact hrun as [] s (fun _ ha => ha) hs h

lemma exists_of_prefix_flatMap {β : Type*} {f : α → List β} {as : List α} {bs : List β} {b : β}
    (h : bs ++ [b] <+: as.flatMap f) :
    ∃ pre a cs, pre ++ [a] <+: as ∧ cs ++ [b] <+: f a ∧ bs = pre.flatMap f ++ cs := by
  induction as generalizing bs with
  | nil => simp at h
  | cons a as ih =>
    rw [List.flatMap_cons] at h
    have hfirst : bs ++ [b] <+: f a ∨ f a <+: bs := by
      rcases List.prefix_or_prefix_of_prefix h (List.prefix_append _ _) with hle | hle
      · exact .inl hle
      · rcases List.prefix_concat_iff.mp hle with heq | hle
        · exact .inl (heq ▸ List.prefix_rfl)
        · exact .inr hle
    rcases hfirst with hfirst | ⟨rest, rfl⟩
    · exact ⟨[], a, bs, List.cons_prefix_cons.mpr ⟨rfl, List.nil_prefix⟩, hfirst, rfl⟩
    · rw [List.append_assoc, List.prefix_append_right_inj] at h
      obtain ⟨pre, a', cs, hpre, hcs, rfl⟩ := ih h
      refine ⟨a :: pre, a', cs, List.cons_prefix_cons.mpr ⟨rfl, hpre⟩, hcs, ?_⟩
      rw [List.flatMap_cons, List.append_assoc]

section Both

variable {τ : Type*} (step : σ → α → σ) (step' : τ → α → τ)

def both (s : σ × τ) (a : α) : σ × τ := (step s.1 a, step' s.2 a)

lemma run_both (s : σ) (t : τ) (as : List α) :
    run (both step step') (s, t) as = (run step s as, run step' t as) := by
  induction as generalizing s t with
  | nil => rfl
  | cons a as ih => exact ih (step s a) (step' t a)

lemma everyStep_both (cond : σ → α → Prop) {s : σ} {t : τ} {as : List α} :
    EveryStep (both step step') (fun p a => cond p.1 a) (s, t) as ↔ EveryStep step cond s as := by
  induction as generalizing s t with
  | nil => rfl
  | cons a as ih => exact and_congr Iff.rfl ih

end Both

end Embedwatch.Library.Runs
