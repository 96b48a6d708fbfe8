import Embedwatch.Library.Reachability
import Mathlib.Algebra.GroupWithZero.Nat
import Mathlib.Algebra.Order.BigOperators.Group.List
import Mathlib.Algebra.Order.Group.Nat
import Mathlib.Data.Set.Finite.Basic
import Mathlib.Order.WellFounded

/-! A loop that takes elements off a work list: a selection function pushes others, marks elements as
visited and collects results. Rules for its invariants and its end, and the searches that stop at the
first hit and mark nothing. -/

namespace Embedwatch.Library.Worklist

open Relation

variable {α : Type*}

structure Search (α : Type*) where
  worklist : List α
  visited : List α
  ret : List α

def run (select : α → Search α → Search α) : ℕ → Search α → Option (List α)
  | _, ⟨[], _, ret⟩ => some ret
  | 0, ⟨_ :: _, _, _⟩ => none
  | rounds + 1, ⟨current :: worklist, visited, ret⟩ =>
    run select rounds (select current ⟨worklist, visited, ret⟩)

section Rules

variable {select : α → Search α → Search α} {s : Search α} {ret ret' : List α} {n m : ℕ}

lemma run_nil (n : ℕ) (visited ret : List α) : run select n ⟨[], visited, ret⟩ = some ret := by
  cases n <;> rfl

lemma run_mono (h : run select n s = some ret) (hnm : n ≤ m) : run select m s = some ret := by
  induction n generalizing s m with
  | zero =>
    obtain ⟨worklist, visited, r⟩ := s
    cases worklist with
    | nil =>
      rw [run_nil] at h ⊢
      exact h
    | cons c w => cases h
  | succ n ih =>
    obtain ⟨worklist, visited, r⟩ := s
    cases worklist with
    | nil =>
      rw [run_nil] at h ⊢
      exact h
    | cons c w =>
      obtain ⟨m, rfl⟩ : ∃ k, m = k + 1 := ⟨m - 1, by omega⟩
      rw [run] at h ⊢
      apply ih h
      omega

lemma run_unique (h : run select n s = some ret) (h' : run select m s = some ret') : ret = ret' := by
  have hn := run_mono h (le_max_left n m)
  have hm := run_mono h' (le_max_right n m)
  exact Option.some.inj (hn.symm.trans hm)

theorem run_invariant (I : Search α → Prop)
    (step : ∀ c w v r, I ⟨c :: w, v, r⟩ → I (select c ⟨w, v, r⟩)) (hs : I s)
    (h : run select n s = some ret) : ∃ visited, I ⟨[], visited, ret⟩ := by
  induction n generalizing s with
  | zero =>
    obtain ⟨worklist, visited, r⟩ := s
    cases worklist with
    | nil =>
      rw [run_nil] at h
      obtain rfl := Option.some.inj h
      exact ⟨visited, hs⟩
    | cons c w => cases h
  | succ n ih =>
    obtain ⟨worklist, visited, r⟩ := s
    cases worklist with
    | nil =>
      rw [run_nil] at h
      obtain rfl := Option.some.inj h
      exact ⟨visited, hs⟩
    | cons c w => exact ih (step c w visited r hs) h

theorem run_of_measure (I : Search α → Prop) (size : Search α → ℕ)
    (step : ∀ c w v r, I ⟨c :: w, v, r⟩ → I (select c ⟨w, v, r⟩))
    (smaller : ∀ c w v r, I ⟨c :: w, v, r⟩ → size (select c ⟨w, v, r⟩) < size ⟨c :: w, v, r⟩)
    (hs : I s) (hn : size s ≤ n) : ∃ ret, run select n s = some ret := by
  induction n generalizing s with
  | zero =>
    obtain ⟨worklist, visited, r⟩ := s
    cases worklist with
    | nil => exact ⟨r, rfl⟩
    | cons c w =>
      have := smaller c w visited r hs
      omega
  | succ n ih =>
    obtain ⟨worklist, visited, r⟩ := s
    cases worklist with
    | nil => exact ⟨r, run_nil (n + 1) visited r⟩
    | cons c w =>
      apply ih (step c w visited r hs)
      have := smaller c w visited r hs
      omega

end Rules

section Marked

variable [DecidableEq α] {nodes : Finset α} {visited new w v : List α} {x c : α} {bound : ℕ}

def unmarked (nodes : Finset α) (visited : List α) : ℕ := (nodes.filter (· ∉ visited)).card

lemma unmarked_anti (h : ∀ x ∈ v, x ∈ visited) : unmarked nodes visited ≤ unmarked nodes v := by
  apply Finset.card_le_card
  intro x hx
  obtain ⟨hnode, hmark⟩ := Finset.mem_filter.mp hx
  exact Finset.mem_filter.mpr ⟨hnode, fun hv => hmark (h x hv)⟩

lemma unmarked_cons (hx : x ∈ nodes) (hnew : x ∉ visited) :
    unmarked nodes (x :: visited) + 1 = unmarked nodes visited := by
  have herase : nodes.filter (· ∉ x :: visited) = (nodes.filter (· ∉ visited)).erase x := by
    ext y
    simp only [Finset.mem_filter, Finset.mem_erase, List.mem_cons, not_or]
    tauto
  rw [unmarked, herase]
  exact Finset.card_erase_add_one (Finset.mem_filter.mpr ⟨hx, hnew⟩)

lemma unmarked_append (hnodes : ∀ x ∈ new, x ∈ nodes) (hnodup : new.Nodup)
    (hnew : ∀ x ∈ new, x ∉ visited) :
    unmarked nodes (new ++ visited) + new.length = unmarked nodes visited := by
  induction new with
  | nil => rfl
  | cons x l ih =>
    obtain ⟨hx, hl⟩ := List.nodup_cons.mp hnodup
    have hmark : x ∉ l ++ visited := by
      rw [List.mem_append, not_or]
      exact ⟨hx, hnew x List.mem_cons_self⟩
    have hone := unmarked_cons (hnodes x List.mem_cons_self) hmark
    have hrest := ih (fun y hy => hnodes y (List.mem_cons_of_mem x hy)) hl
      fun y hy => hnew y (List.mem_cons_of_mem x hy)
    rw [List.cons_append, List.length_cons]
    omega

def pushNew : List α → Search α → Search α
  | [], s => s
  | x :: xs, s =>
    if x ∈ s.visited then pushNew xs s
    else pushNew xs ⟨x :: s.worklist, x :: s.visited, s.ret⟩

lemma pushNew_spec (xs : List α) (s : Search α) :
    ∃ new, pushNew xs s = ⟨new ++ s.worklist, new ++ s.visited, s.ret⟩ ∧ new.Nodup ∧
      (∀ x ∈ new, x ∈ xs ∧ x ∉ s.visited) ∧ ∀ x ∈ xs, x ∈ new ∨ x ∈ s.visited := by
  induction xs generalizing s with
  | nil => exact ⟨[], rfl, List.nodup_nil, by simp, by simp⟩
  | cons x xs ih =>
    rw [pushNew]
    by_cases hx : x ∈ s.visited
    · rw [if_pos hx]
      obtain ⟨new, heq, hnodup, hnew, hall⟩ := ih s
      refine ⟨new, heq, hnodup, fun y hy => ?_, List.forall_mem_cons.mpr ⟨Or.inr hx, hall⟩⟩
      exact ⟨List.mem_cons_of_mem x (hnew y hy).1, (hnew y hy).2⟩
    · rw [if_neg hx]
      obtain ⟨new, heq, hnodup, hnew, hall⟩ := ih ⟨x :: s.worklist, x :: s.visited, s.ret⟩
      have hfresh : ∀ y ∈ new, y ≠ x ∧ y ∉ s.visited := by
        intro y hy
        have := (hnew y hy).2
        rwa [List.mem_cons, not_or] at this
      refine ⟨new ++ [x], ?_, ?_, ?_, ?_⟩
      · rw [heq, List.append_assoc, List.append_assoc]
        rfl
      · apply List.nodup_append.mpr
        refine ⟨hnodup, List.nodup_singleton x, ?_⟩
        intro y hy z hz
        rw [List.mem_singleton.mp hz]
        exact (hfresh y hy).1
      · intro y hy
        rcases List.mem_append.mp hy with hy | hy
        · exact ⟨List.mem_cons_of_mem x (hnew y hy).1, (hfresh y hy).2⟩
        · rw [List.mem_singleton.mp hy]
          exact ⟨List.mem_cons_self, hx⟩
      · intro y hy
        rw [List.mem_append, List.mem_singleton]
        rcases List.mem_cons.mp hy with rfl | hy
        · exact Or.inl (Or.inr rfl)
        · rcases hall y hy with hnew | hmark
          · exact Or.inl (Or.inl hnew)
          · rcases List.mem_cons.mp hmark with rfl | hmark
            · exact Or.inl (Or.inr rfl)
            · exact Or.inr hmark

def weight (nodes : Finset α) (bound : ℕ) (visited : List α) (x : α) : ℕ :=
  (bound + 1) ^ (unmarked nodes visited + if x ∈ visited then 1 else 0)

def totalWeight (nodes : Finset α) (bound : ℕ) (s : Search α) : ℕ :=
  (s.worklist.map (weight nodes bound s.visited)).sum

lemma weight_cons_le (x : α) (hc : c ∈ visited ∨ c ∈ nodes) :
    weight nodes bound (c :: visited) x ≤ weight nodes bound visited x := by
  apply Nat.pow_le_pow_right bound.succ_pos
  by_cases hmark : c ∈ visited
  · have hiff : x ∈ c :: visited ↔ x ∈ visited := by
      rw [List.mem_cons]
      exact ⟨by rintro (rfl | hx) <;> assumption, Or.inr⟩
    have hless : unmarked nodes (c :: visited) ≤ unmarked nodes visited :=
      unmarked_anti fun y hy => List.mem_cons_of_mem c hy
    simp only [hiff]
    omega
  · have hless := unmarked_cons (hc.resolve_left hmark) hmark
    split <;> split <;> omega

lemma sum_weight_lt (hc : c ∈ visited ∨ c ∈ nodes) (hnew : ∀ x ∈ new, x ∉ c :: visited)
    (hlength : new.length ≤ bound) :
    (new.map (weight nodes bound (c :: visited))).sum < weight nodes bound visited c := by
  have hpow : (new.map (weight nodes bound (c :: visited))).sum =
      new.length * (bound + 1) ^ unmarked nodes (c :: visited) := by
    have hmap : new.map (weight nodes bound (c :: visited)) =
        new.map fun _ => (bound + 1) ^ unmarked nodes (c :: visited) := by
      apply List.map_congr_left
      intro x hx
      rw [weight, if_neg (hnew x hx)]
      rfl
    rw [hmap, List.map_const', List.sum_replicate_nat]
  have hexp : unmarked nodes (c :: visited) + 1 ≤
      unmarked nodes visited + if c ∈ visited then 1 else 0 := by
    by_cases hmark : c ∈ visited
    · rw [if_pos hmark]
      exact Nat.add_le_add_right (unmarked_anti fun y hy => List.mem_cons_of_mem c hy) 1
    · rw [if_neg hmark]
      exact (unmarked_cons (hc.resolve_left hmark) hmark).le
  calc (new.map (weight nodes bound (c :: visited))).sum
      = new.length * (bound + 1) ^ unmarked nodes (c :: visited) := hpow
    _ < (bound + 1) * (bound + 1) ^ unmarked nodes (c :: visited) := by
      apply Nat.mul_lt_mul_of_pos_right (Nat.lt_succ_of_le hlength)
      exact Nat.pow_pos bound.succ_pos
    _ = (bound + 1) ^ (unmarked nodes (c :: visited) + 1) := by rw [Nat.pow_succ']
    _ ≤ weight nodes bound visited c := Nat.pow_le_pow_right bound.succ_pos hexp

theorem totalWeight_lt {r r' : List α} (hc : c ∈ visited ∨ c ∈ nodes)
    (hnew : ∀ x ∈ new, x ∉ c :: visited) (hlength : new.length ≤ bound) :
    totalWeight nodes bound ⟨new ++ w, c :: visited, r'⟩ <
      totalWeight nodes bound ⟨c :: w, visited, r⟩ := by
  have hold : (w.map (weight nodes bound (c :: visited))).sum ≤
      (w.map (weight nodes bound visited)).sum :=
    List.sum_le_sum fun x _ => weight_cons_le x hc
  have hpushed := sum_weight_lt hc hnew hlength
  simp only [totalWeight, List.map_append, List.sum_append, List.map_cons, List.sum_cons]
  omega

end Marked

section First

def selectFirst [DecidableEq α] (hit : α → Option α) (next : α → List α) (current : α) (s : Search α) : Search α :=
  match hit current with
  | some d => ⟨[], s.visited, s.ret.insert d⟩
  | none => ⟨next current ++ s.worklist, s.visited, s.ret⟩

variable {hit : α → Option α} {next : α → List α} {x y z d start : α} {w v r ret : List α} {n : ℕ}

section Run

variable [DecidableEq α]

lemma selectFirst_hit (h : hit x = some d) (s : Search α) :
    selectFirst hit next x s = ⟨[], s.visited, s.ret.insert d⟩ := by
  rw [selectFirst, h]

lemma selectFirst_miss (h : hit x = none) (s : Search α) :
    selectFirst hit next x s = ⟨next x ++ s.worklist, s.visited, s.ret⟩ := by
  rw [selectFirst, h]

theorem run_first (h : run (selectFirst hit next) n ⟨w, v, []⟩ = some ret) :
    (∃ x ∈ w, ∃ y d, ReflTransGen (fun a b => hit a = none ∧ b ∈ next a) x y ∧
      hit y = some d ∧ ret = [d]) ∨
    ret = [] ∧ ∀ x ∈ w, ∀ y, ReflTransGen (fun a b => b ∈ next a) x y → hit y = none := by
  induction n generalizing w with
  | zero =>
    cases w with
    | nil =>
      obtain rfl := Option.some.inj h
      exact Or.inr ⟨rfl, fun x hx => absurd hx List.not_mem_nil⟩
    | cons c w => cases h
  | succ n ih =>
    cases w with
    | nil =>
      obtain rfl := Option.some.inj h
      exact Or.inr ⟨rfl, fun x hx => absurd hx List.not_mem_nil⟩
    | cons c w =>
      rw [run] at h
      cases hc : hit c with
      | some d =>
        rw [selectFirst_hit hc, run_nil] at h
        obtain rfl := Option.some.inj h
        exact Or.inl ⟨c, List.mem_cons_self, c, d, ReflTransGen.refl, hc, rfl⟩
      | none =>
        rw [selectFirst_miss hc] at h
        rcases ih h with ⟨x, hx, y, d, hxy, hy, hret⟩ | ⟨hret, hnone⟩
        · rcases List.mem_append.mp hx with hx | hx
          · exact Or.inl ⟨c, List.mem_cons_self, y, d, ReflTransGen.head ⟨hc, hx⟩ hxy, hy, hret⟩
          · exact Or.inl ⟨x, List.mem_cons_of_mem c hx, y, d, hxy, hy, hret⟩
        · refine Or.inr ⟨hret, fun x hx y hxy => ?_⟩
          rcases List.mem_cons.mp hx with rfl | hx
          · rcases ReflTransGen.cases_head hxy with rfl | ⟨z, hxz, hzy⟩
            · exact hc
            · exact hnone z (List.mem_append_left w hxz) y hzy
          · exact hnone x (List.mem_append_right _ hx) y hxy

end Run

def Barren (hit : α → Option α) (next : α → List α) (x : α) : Prop :=
  ∀ y, ReflTransGen (fun a b => b ∈ next a) x y →
    hit y = none ∧ ¬ TransGen (fun a b => b ∈ next a) y y

def Enters (hit : α → Option α) (next : α → List α) (x y : α) : Prop :=
  hit x = none ∧ ∃ before after, next x = before ++ y :: after ∧ ∀ z ∈ before, Barren hit next z

def Meets (hit : α → Option α) (next : α → List α) (x d : α) : Prop :=
  ∃ y, ReflTransGen (Enters hit next) x y ∧ hit y = some d

lemma Barren.of_next (hx : hit x = none) (h : ∀ y ∈ next x, Barren hit next y) :
    Barren hit next x := by
  intro y hxy
  rcases ReflTransGen.cases_head hxy with rfl | ⟨z, hxz, hzy⟩
  · refine ⟨hx, fun hcycle => ?_⟩
    obtain ⟨z, hxz, hzx⟩ := TransGen.head'_iff.mp hcycle
    exact (h z hxz z ReflTransGen.refl).2 (TransGen.tail' hzx hxz)
  · exact h z hxz y hzy

lemma Barren.of_mem (h : Barren hit next x) (hy : y ∈ next x) : Barren hit next y :=
  fun z hyz => h z (ReflTransGen.head hy hyz)

lemma Enters.mem (h : Enters hit next x y) : y ∈ next x := by
  obtain ⟨-, before, after, hnext, -⟩ := h
  rw [hnext]
  exact List.mem_append_right before List.mem_cons_self

lemma acc_of_acyclic {r : α → α → Prop} (hfin : {y | ReflTransGen r x y}.Finite)
    (h : ∀ y, ReflTransGen r x y → ¬ TransGen r y y) : Acc (fun b a => r a b) x := by
  have : Finite {y | ReflTransGen r x y} := hfin
  let after : {y | ReflTransGen r x y} → {y | ReflTransGen r x y} → Prop :=
    fun b a => TransGen r a.1 b.1
  have : IsTrans _ after := ⟨fun a b c hab hbc => TransGen.trans hbc hab⟩
  have : Std.Irrefl after := ⟨fun a => h a.1 a.2⟩
  have hwf : WellFounded after := Finite.wellFounded_of_trans_of_irrefl after
  have hall : ∀ y : {y | ReflTransGen r x y}, Acc (fun b a => r a b) y.1 := by
    intro y
    induction y using hwf.induction with
    | _ y ih =>
      constructor
      intro z hz
      exact ih ⟨z, y.2.tail hz⟩ (TransGen.single hz)
  exact hall ⟨x, ReflTransGen.refl⟩

lemma finite_reachable (hfin : {y | ∃ x, y ∈ next x}.Finite) {r : α → α → Prop}
    (hr : ∀ x y, r x y → y ∈ next x) (x : α) : {y | ReflTransGen r x y}.Finite := by
  apply (hfin.insert x).subset
  intro y hy
  rcases ReflTransGen.cases_tail hy with rfl | ⟨z, -, hzy⟩
  · exact Set.mem_insert _ _
  · exact Set.mem_insert_of_mem x ⟨z, hr z y hzy⟩

lemma exists_first_not {p : α → Prop} {l : List α} (h : ¬ ∀ x ∈ l, p x) :
    ∃ before y after, l = before ++ y :: after ∧ (∀ z ∈ before, p z) ∧ ¬ p y := by
  induction l with
  | nil => exact absurd (fun x hx => absurd hx List.not_mem_nil) h
  | cons x l ih =>
    by_cases hx : p x
    · obtain ⟨before, y, after, rfl, hbefore, hy⟩ :=
        ih fun hl => h (List.forall_mem_cons.mpr ⟨hx, hl⟩)
      exact ⟨x :: before, y, after, rfl, List.forall_mem_cons.mpr ⟨hx, hbefore⟩, hy⟩
    · exact ⟨[], x, l, rfl, fun z hz => absurd hz List.not_mem_nil, hx⟩

variable [DecidableEq α]

def Drains (hit : α → Option α) (next : α → List α) (l : List α) : Prop :=
  ∃ k, ∀ n w v r, run (selectFirst hit next) (k + n) ⟨l ++ w, v, r⟩ =
    run (selectFirst hit next) n ⟨w, v, r⟩

def Halts (hit : α → Option α) (next : α → List α) (x d : α) : Prop :=
  ∃ k, ∀ w v r, run (selectFirst hit next) k ⟨x :: w, v, r⟩ = some (r.insert d)

lemma Drains.of_forall {l : List α} (h : ∀ x ∈ l, Drains hit next [x]) : Drains hit next l := by
  induction l with
  | nil => exact ⟨0, fun n w v r => by rw [Nat.zero_add, List.nil_append]⟩
  | cons x l ih =>
    obtain ⟨k, hk⟩ := h x List.mem_cons_self
    obtain ⟨k', hk'⟩ := ih fun y hy => h y (List.mem_cons_of_mem x hy)
    refine ⟨k + k', fun n w v r => ?_⟩
    rw [Nat.add_assoc]
    exact (hk _ _ _ _).trans (hk' _ _ _ _)

lemma Drains.of_next (hx : hit x = none) (h : Drains hit next (next x)) : Drains hit next [x] := by
  obtain ⟨k, hk⟩ := h
  refine ⟨k + 1, fun n w v r => ?_⟩
  rw [Nat.add_right_comm, List.singleton_append, run, selectFirst_miss hx]
  exact hk n w v r

lemma Barren.drains (hfin : {y | ∃ x, y ∈ next x}.Finite) (h : Barren hit next x) :
    Drains hit next [x] := by
  have hacc : Acc (fun b a => b ∈ next a) x :=
    acc_of_acyclic (finite_reachable hfin (fun _ _ h => h) x) fun y hy => (h y hy).2
  induction hacc with
  | intro x _ ih =>
    apply Drains.of_next (h x ReflTransGen.refl).1
    apply Drains.of_forall
    intro y hy
    exact ih y hy (h.of_mem hy)

lemma Halts.of_hit (h : hit x = some d) : Halts hit next x d := by
  refine ⟨1, fun w v r => ?_⟩
  rw [run, selectFirst_hit h, run_nil]

lemma Halts.of_next {before after : List α} (hx : hit x = none)
    (hnext : next x = before ++ y :: after) (hbefore : Drains hit next before)
    (hy : Halts hit next y d) : Halts hit next x d := by
  obtain ⟨k, hk⟩ := hbefore
  obtain ⟨m, hm⟩ := hy
  refine ⟨k + m + 1, fun w v r => ?_⟩
  rw [run, selectFirst_miss hx, hnext, List.append_assoc, List.cons_append, hk]
  exact hm (after ++ w) v r

lemma Meets.halts (hfin : {y | ∃ x, y ∈ next x}.Finite) (h : Meets hit next x d) :
    Halts hit next x d := by
  obtain ⟨y, hxy, hy⟩ := h
  induction hxy using ReflTransGen.head_induction_on with
  | refl => exact Halts.of_hit hy
  | head hstep _ ih =>
    obtain ⟨hx, before, after, hnext, hbefore⟩ := hstep
    exact ih.of_next hx hnext (Drains.of_forall fun z hz => (hbefore z hz).drains hfin)

omit [DecidableEq α] in
lemma barren_or_meets (hacc : Acc (fun b a => Enters hit next a b) x) :
    Barren hit next x ∨ ∃ d, Meets hit next x d := by
  induction hacc with
  | intro x _ ih =>
    cases hx : hit x with
    | some d => exact Or.inr ⟨d, x, ReflTransGen.refl, hx⟩
    | none =>
      by_cases hall : ∀ y ∈ next x, Barren hit next y
      · exact Or.inl (Barren.of_next hx hall)
      · obtain ⟨before, y, after, hnext, hbefore, hy⟩ := exists_first_not hall
        have hstep : Enters hit next x y := ⟨hx, before, after, hnext, hbefore⟩
        rcases ih y hstep with hbarren | ⟨d, z, hyz, hz⟩
        · exact absurd hbarren hy
        · exact Or.inr ⟨d, z, ReflTransGen.head hstep hyz, hz⟩

lemma run_cycle (hfin : {y | ∃ x, y ∈ next x}.Finite) {c : α}
    (hc : TransGen (Enters hit next) c c) (hx : ReflTransGen (Enters hit next) x c) (n : ℕ) :
    run (selectFirst hit next) n ⟨x :: w, v, r⟩ = none := by
  induction n generalizing x w with
  | zero => rfl
  | succ n ih =>
    obtain ⟨y, hxy, hyc⟩ : ∃ y, Enters hit next x y ∧ ReflTransGen (Enters hit next) y c := by
      rcases ReflTransGen.cases_head hx with rfl | hstep
      · exact TransGen.head'_iff.mp hc
      · exact hstep
    obtain ⟨hmiss, before, after, hnext, hbefore⟩ := hxy
    obtain ⟨k, hk⟩ := Drains.of_forall fun z hz => (hbefore z hz).drains hfin
    rw [run, selectFirst_miss hmiss, hnext, List.append_assoc, List.cons_append,
      Option.eq_none_iff_forall_ne_some]
    intro ret hret
    -- with more rounds the search would have come through `before` to `y`
    have hlong := run_mono hret (Nat.le_add_left n k)
    rw [hk, ih hyc] at hlong
    cases hlong

omit [DecidableEq α] in
lemma barren_or_meets_of_acyclic (hfin : {y | ∃ x, y ∈ next x}.Finite)
    (h : ¬ ∃ c, ReflTransGen (Enters hit next) start c ∧ TransGen (Enters hit next) c c) :
    Barren hit next start ∨ ∃ d, Meets hit next start d := by
  apply barren_or_meets
  exact acc_of_acyclic (finite_reachable hfin (fun _ _ => Enters.mem) start)
    fun y hy hcycle => h ⟨y, hy, hcycle⟩

lemma Barren.run_eq (hfin : {y | ∃ x, y ∈ next x}.Finite) (h : Barren hit next start)
    (v r : List α) : ∃ n, run (selectFirst hit next) n ⟨[start], v, r⟩ = some r := by
  obtain ⟨k, hk⟩ := h.drains hfin
  exact ⟨k, (hk 0 [] v r).trans (run_nil 0 v r)⟩

theorem run_first_ends_iff (hfin : {y | ∃ x, y ∈ next x}.Finite) (v r : List α) :
    (∃ n ret, run (selectFirst hit next) n ⟨[start], v, r⟩ = some ret) ↔
      ¬ ∃ c, ReflTransGen (Enters hit next) start c ∧ TransGen (Enters hit next) c c := by
  constructor
  · rintro ⟨n, ret, hret⟩ ⟨c, hstart, hc⟩
    rw [run_cycle hfin hc hstart] at hret
    cases hret
  · intro h
    rcases barren_or_meets_of_acyclic hfin h with hbarren | ⟨d, hd⟩
    · obtain ⟨n, hn⟩ := hbarren.run_eq hfin v r
      exact ⟨n, r, hn⟩
    · obtain ⟨k, hk⟩ := hd.halts hfin
      exact ⟨k, r.insert d, hk [] v r⟩

theorem run_first_meets_iff (hfin : {y | ∃ x, y ∈ next x}.Finite)
    (h : run (selectFirst hit next) n ⟨[start], v, []⟩ = some ret) :
    ret.head? = some d ↔ Meets hit next start d := by
  have hfound : ∀ d', Meets hit next start d' → ret = [d'] := by
    intro d' hd'
    obtain ⟨k, hk⟩ := hd'.halts hfin
    exact run_unique h (hk [] v [])
  constructor
  · intro hd
    have hends := (run_first_ends_iff hfin v []).mp ⟨n, ret, h⟩
    rcases barren_or_meets_of_acyclic hfin hends with hbarren | ⟨d', hd'⟩
    · obtain ⟨k, hk⟩ := hbarren.run_eq hfin v []
      rw [run_unique h hk] at hd
      cases hd
    · rw [hfound d' hd'] at hd
      obtain rfl := Option.some.inj hd
      exact hd'
  · intro hd
    rw [hfound d hd]
    rfl

end First

end Embedwatch.Library.Worklist
