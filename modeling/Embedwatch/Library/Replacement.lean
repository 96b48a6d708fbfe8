import Mathlib.Data.List.Basic
import Mathlib.Logic.Function.Basic
import Mathlib.Tactic.Common

/-! Replacing instructions by others, one after the other, with all uses of their values. In any order
the result is that of one simultaneous replacement. -/

namespace Embedwatch.Library.Replacement

class Instruction (V : outParam Type*) (I : Type*) where
  value : I → V
  subst : (V → V) → I → I
  value_subst : ∀ σ i, value (subst σ i) = value i
  subst_id : ∀ i, subst id i = i
  subst_subst : ∀ σ τ i, subst σ (subst τ i) = subst (σ ∘ τ) i

variable {V I : Type*} [DecidableEq V]

def replacement (pairs : List (V × V)) (v : V) : V :=
  ((pairs.find? fun p => p.1 = v).map Prod.snd).getD v

lemma replacement_of_notMem {pairs : List (V × V)} {v : V} (h : v ∉ pairs.map Prod.fst) :
    replacement pairs v = v := by
  have hnone : (pairs.find? fun p => p.1 = v) = none := by
    rw [List.find?_eq_none]
    intro p hp heq
    exact h (List.mem_map.mpr ⟨p, hp, of_decide_eq_true heq⟩)
  rw [replacement, hnone]
  rfl

lemma find?_of_mem {β : Type*} {pairs : List (V × β)} (hnodup : (pairs.map Prod.fst).Nodup) {v : V}
    {w : β} (h : (v, w) ∈ pairs) : (pairs.find? fun p => p.1 = v) = some (v, w) := by
  induction pairs with
  | nil => cases h
  | cons p pairs ih =>
    obtain ⟨hp, hnodup⟩ := List.nodup_cons.mp hnodup
    rw [List.find?_cons]
    rcases List.mem_cons.mp h with rfl | h
    · simp
    · have hne : p.1 ≠ v := by
        rintro rfl
        exact hp (List.mem_map.mpr ⟨_, h, rfl⟩)
      simp only [hne, decide_false]
      exact ih hnodup h

lemma replacement_of_mem {pairs : List (V × V)} (hnodup : (pairs.map Prod.fst).Nodup) {v w : V}
    (h : (v, w) ∈ pairs) : replacement pairs v = w := by
  rw [replacement, find?_of_mem hnodup h]
  rfl

def single (old new : V) : V → V := Function.update id old new

lemma replacement_cons {p : V × V} {pairs : List (V × V)} (h : p.2 ∉ pairs.map Prod.fst) :
    replacement (p :: pairs) = replacement pairs ∘ single p.1 p.2 := by
  funext v
  rw [Function.comp_apply, single, Function.update_apply]
  by_cases hv : v = p.1
  · subst hv
    rw [if_pos rfl, replacement_of_notMem h, replacement, List.find?_cons]
    simp
  · have hne : p.1 ≠ v := fun heq => hv heq.symm
    rw [if_neg hv, replacement, replacement, List.find?_cons]
    simp [hne]

variable [Instruction V I]

open Instruction

def replaceUses (old new : V) (code : List I) : List I := code.map (subst (single old new))

def eraseReplaced (code : List I) (pairs : List (V × V)) : List I :=
  pairs.foldl (fun code p => (replaceUses p.1 p.2 code).filter fun i => value i ≠ p.1) code

theorem eraseReplaced_eq {pairs : List (V × V)} {code : List I}
    (hfresh : ∀ p ∈ pairs, p.2 ∉ pairs.map Prod.fst) :
    eraseReplaced code pairs =
      (code.filter fun i => value i ∉ pairs.map Prod.fst).map (subst (replacement pairs)) := by
  induction pairs generalizing code with
  | nil =>
    have hid : replacement ([] : List (V × V)) = id := rfl
    have hall : (subst id : I → I) = id := funext subst_id
    simp [eraseReplaced, hid, hall]
  | cons p pairs ih =>
    have hrest : ∀ q ∈ pairs, q.2 ∉ pairs.map Prod.fst := fun q hq hmem =>
      hfresh q (List.mem_cons_of_mem p hq) (List.mem_cons_of_mem p.1 hmem)
    have hp : p.2 ∉ pairs.map Prod.fst := fun hmem =>
      hfresh p List.mem_cons_self (List.mem_cons_of_mem p.1 hmem)
    rw [eraseReplaced, List.foldl_cons]
    refine (ih hrest).trans ?_
    rw [replaceUses, List.filter_map, List.filter_map, List.map_map, List.filter_filter,
      replacement_cons hp]
    have hcomp : (subst (replacement pairs) ∘ subst (single p.1 p.2) : I → I) =
        subst (replacement pairs ∘ single p.1 p.2) := by
      funext i
      exact subst_subst _ _ i
    rw [hcomp]
    congr 2
    funext i
    rw [Function.comp_apply, Function.comp_apply, value_subst, List.map_cons]
    by_cases hi : value i = p.1 <;> simp [hi]

/-- `ReplaceInstWithInst`: the instruction with the value `p.2` is taken from the floating ones. -/
def replaceInst (s : List I × List I) (p : V × V) : List I × List I :=
  let code := s.1.map fun i =>
    if value i = p.1 then (s.2.find? fun n => value n = p.2).getD i else i
  (replaceUses p.1 p.2 code, replaceUses p.1 p.2 s.2)

def placed (pairs : List (V × V)) (floating : List I) (i : I) : I :=
  ((pairs.find? fun p => p.1 = value i).bind fun p =>
    floating.find? fun n => value n = p.2).getD i

lemma placed_subst (pairs : List (V × V)) (floating : List I) (σ : V → V) (i : I) :
    placed pairs (floating.map (subst σ)) (subst σ i) = subst σ (placed pairs floating i) := by
  have hsame : ∀ w, ((fun n : I => decide (value n = w)) ∘ subst σ) =
      fun n : I => decide (value n = w) := by
    intro w
    funext n
    simp [value_subst]
  rw [placed, placed, value_subst]
  cases pairs.find? fun p => p.1 = value i with
  | none => rfl
  | some p =>
    simp only [Option.bind_some, List.find?_map, hsame]
    cases floating.find? fun n => value n = p.2 <;> rfl

theorem replaceInsts_eq {pairs : List (V × V)} {code floating : List I}
    (hfresh : ∀ p ∈ pairs, p.2 ∉ pairs.map Prod.fst)
    (hfloating : ∀ p ∈ pairs, ∃ n ∈ floating, value n = p.2) :
    (pairs.foldl replaceInst (code, floating)).1 =
      code.map fun i => subst (replacement pairs) (placed pairs floating i) := by
  induction pairs generalizing code floating with
  | nil =>
    have hid : replacement ([] : List (V × V)) = id := rfl
    simp [hid, placed, subst_id]
  | cons p pairs ih =>
    have hrest : ∀ q ∈ pairs, q.2 ∉ pairs.map Prod.fst := fun q hq hmem =>
      hfresh q (List.mem_cons_of_mem p hq) (List.mem_cons_of_mem p.1 hmem)
    have hp : p.2 ∉ pairs.map Prod.fst := fun hmem =>
      hfresh p List.mem_cons_self (List.mem_cons_of_mem p.1 hmem)
    have hfloating' : ∀ q ∈ pairs, ∃ n ∈ floating.map (subst (single p.1 p.2)), value n = q.2 := by
      intro q hq
      obtain ⟨n, hn, hvalue⟩ := hfloating q (List.mem_cons_of_mem p hq)
      exact ⟨_, List.mem_map_of_mem hn, (value_subst _ n).trans hvalue⟩
    rw [List.foldl_cons, replaceInst]
    refine (ih hrest hfloating').trans ?_
    rw [replaceUses, List.map_map, List.map_map]
    apply List.map_congr_left
    intro i _
    rw [replacement_cons hp, ← subst_subst, Function.comp_apply, Function.comp_apply]
    by_cases hi : value i = p.1
    · -- the new instruction is not replaced itself
      obtain ⟨n, hn, hvalue⟩ := hfloating p List.mem_cons_self
      obtain ⟨m, hm⟩ : ∃ m, (floating.find? fun n => value n = p.2) = some m := by
        rw [← Option.isSome_iff_exists, List.find?_isSome]
        exact ⟨n, hn, decide_eq_true hvalue⟩
      have hmvalue : value m = p.2 := by simpa using List.find?_some hm
      have hplaced : placed (p :: pairs) floating i = m := by
        rw [placed, List.find?_cons]
        simp [hi, hm]
      rw [if_pos hi, hm, Option.getD_some, hplaced, placed_subst]
      congr 2
      have hnone : (pairs.find? fun q => q.1 = value m) = none := by
        rw [List.find?_eq_none, hmvalue]
        intro q hq heq
        exact hp (List.mem_map.mpr ⟨q, hq, of_decide_eq_true heq⟩)
      rw [placed, hnone]
      rfl
    · have hplaced : placed (p :: pairs) floating i = placed pairs floating i := by
        have hne : p.1 ≠ value i := fun heq => hi heq.symm
        rw [placed, placed, List.find?_cons]
        simp [hne]
      rw [if_neg hi, placed_subst, hplaced]

end Embedwatch.Library.Replacement
