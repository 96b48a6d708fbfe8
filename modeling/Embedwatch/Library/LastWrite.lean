import Mathlib.Data.List.Basic
import Mathlib.Tactic.Common

/-! Logs of writes and reads. A write has a key, and a read sees for every key the last write of
that key before it. Two logs are alike if their reads, in order, see the same writes and so would
any read to come. -/

namespace Embedwatch.Library.LastWrite

variable {α κ : Type*} [DecidableEq κ] (key : α → Option κ)

def last (log : List α) (k : κ) : Option α := log.reverse.find? fun a => key a = some k

def views (past : List α) : List α → List (κ → Option α)
  | [] => []
  | a :: as =>
    if key a = none then last key past :: views (past ++ [a]) as else views (past ++ [a]) as

structure Alike (log log' : List α) : Prop where
  last_eq : last key log = last key log'
  views_eq : views key [] log = views key [] log'

variable {key}

@[simp] lemma last_append (log as : List α) (k : κ) :
    last key (log ++ as) k = (last key as k).or (last key log k) := by
  simp [last, List.find?_append]

lemma last_singleton_of_ne {a : α} {k : κ} (h : key a ≠ some k) : last key [a] k = none := by
  simp [last, h]

lemma last_singleton {a : α} {k : κ} (h : key a = some k) : last key [a] k = some a := by
  simp [last, h]

lemma last_eq_none {log : List α} {k : κ} (h : ∀ a ∈ log, key a ≠ some k) :
    last key log k = none := by
  simpa [last, List.find?_eq_none] using h

lemma mem_of_last {log : List α} {k : κ} {a : α} (h : last key log k = some a) :
    a ∈ log ∧ key a = some k := by
  have hmem := List.mem_of_find?_eq_some h
  have hkey := List.find?_some h
  exact ⟨List.mem_reverse.mp hmem, of_decide_eq_true hkey⟩

lemma exists_last {log : List α} {k : κ} {a : α} (ha : a ∈ log) (hk : key a = some k) :
    ∃ b, last key log k = some b := by
  cases h : last key log k with
  | some b => exact ⟨b, rfl⟩
  | none =>
    have hnone := List.find?_eq_none.mp h a (List.mem_reverse.mpr ha)
    exact absurd (decide_eq_true hk) hnone

theorem foldl_eq_last {σ β : Type*} {step : σ → α → σ} {table : σ → κ → Option β} {value : α → β}
    (hstep : ∀ s a k, table (step s a) k = if key a = some k then some (value a) else table s k)
    (log : List α) (s : σ) (k : κ) :
    table (log.foldl step s) k = ((last key log k).map value).or (table s k) := by
  induction log generalizing s with
  | nil => rfl
  | cons a log ih =>
    have hcons : a :: log = [a] ++ log := rfl
    rw [List.foldl_cons, ih, hstep, hcons, last_append]
    by_cases ha : key a = some k
    · rw [if_pos ha, last_singleton ha]
      cases last key log k <;> rfl
    · rw [if_neg ha, last_singleton_of_ne ha, Option.or_none]

lemma views_append (past log as : List α) :
    views key past (log ++ as) = views key past log ++ views key (past ++ log) as := by
  induction log generalizing past with
  | nil => simp [views]
  | cons a log ih =>
    simp only [List.cons_append, views, ih, List.append_assoc]
    split <;> simp

lemma views_congr {past past' : List α} (h : last key past = last key past') (as : List α) :
    views key past as = views key past' as := by
  induction as generalizing past past' with
  | nil => rfl
  | cons a as ih =>
    have hnext : last key (past ++ [a]) = last key (past' ++ [a]) := by
      funext k
      rw [last_append, last_append, h]
    simp only [views, h, ih hnext]

lemma views_eq_nil (as : List α) (h : ∀ a ∈ as, key a ≠ none) (past : List α) :
    views key past as = [] := by
  induction as generalizing past with
  | nil => rfl
  | cons a as ih =>
    rw [views, if_neg (h a List.mem_cons_self)]
    exact ih (fun b hb => h b (List.mem_cons_of_mem a hb)) _

namespace Alike

lemma refl (log : List α) : Alike key log log := ⟨rfl, rfl⟩

lemma trans {l₁ l₂ l₃ : List α} (h : Alike key l₁ l₂) (h' : Alike key l₂ l₃) : Alike key l₁ l₃ :=
  ⟨h.last_eq.trans h'.last_eq, h.views_eq.trans h'.views_eq⟩

lemma append {log log' : List α} (h : Alike key log log') (as : List α) :
    Alike key (log ++ as) (log' ++ as) := by
  constructor
  · funext k
    rw [last_append, last_append, h.last_eq]
  · rw [views_append, views_append, h.views_eq, List.nil_append, List.nil_append,
      views_congr h.last_eq]

end Alike

theorem alike_overwrite {pre post : List α} {a b : α} {k : κ} (ha : key a = some k)
    (hb : key b = some k) (hpost : ∀ c ∈ post, key c ≠ none ∧ key c ≠ some k) :
    Alike key (pre ++ b :: post) (pre ++ a :: post ++ [b]) := by
  have hnone : last key post k = none := last_eq_none fun c hc => (hpost c hc).2
  constructor
  · funext j
    rw [List.append_cons pre b, List.append_cons pre a]
    simp only [last_append]
    by_cases hj : j = k
    · subst hj
      rw [last_singleton hb, hnone]
      rfl
    · have hne : ∀ c, key c = some k → key c ≠ some j := by
        intro c hc h
        exact hj (Option.some.inj (h.symm.trans hc))
      rw [last_singleton_of_ne (hne a ha), last_singleton_of_ne (hne b hb)]
      rfl
  · have hpost' : ∀ c ∈ post, key c ≠ none := fun c hc => (hpost c hc).1
    rw [List.append_assoc, views_append, views_append, views_eq_nil (b :: post),
      views_eq_nil (a :: post ++ [b])]
    · simp only [List.cons_append, List.mem_cons, List.mem_append, List.not_mem_nil, or_false]
      rintro c (rfl | hc | rfl)
      · simp [ha]
      · exact hpost' c hc
      · simp [hb]
    · simp only [List.mem_cons]
      rintro c (rfl | hc)
      · simp [hb]
      · exact hpost' c hc

theorem alike_repeat {log : List α} {b : α} {k : κ} (hb : key b = some k)
    (hlast : last key log k = some b) : Alike key log (log ++ [b]) := by
  constructor
  · funext j
    rw [last_append]
    by_cases hj : j = k
    · subst hj
      rw [last_singleton hb, hlast]
      rfl
    · rw [last_singleton_of_ne fun h => hj (Option.some.inj (h.symm.trans hb)), Option.none_or]
  · rw [views_append, views_eq_nil [b] (by simp [hb]), List.append_nil]

theorem Alike.getElem?_views {log log' : List α} (h : Alike key log log') (as : List α) {i : ℕ}
    {v v' : κ → Option α} (hv : (views key [] (log ++ as))[i]? = some v)
    (hv' : (views key [] log')[i]? = some v') : v = v' := by
  have hi : i < (views key [] log').length := (List.getElem?_eq_some_iff.mp hv').1
  rw [views_append, h.views_eq, List.getElem?_append_left hi, hv'] at hv
  exact (Option.some.inj hv).symm

end Embedwatch.Library.LastWrite
