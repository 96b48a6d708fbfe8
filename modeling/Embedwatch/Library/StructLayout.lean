import Mathlib.Algebra.GroupWithZero.Nat
import Mathlib.Tactic.Common

/-! Layouts of structures: the fields one after the other, each at the next multiple of its alignment. -/

namespace Embedwatch.Library.StructLayout

structure Field where
  size : ℕ
  align : ℕ
  align_pos : 0 < align

def alignTo (offset align : ℕ) : ℕ := (offset + align - 1) / align * align

def fieldOffset (offset : ℕ) : List Field → ℕ → ℕ
  | [], _ => offset
  | f :: _, 0 => alignTo offset f.align
  | f :: fs, k + 1 => fieldOffset (alignTo offset f.align + f.size) fs k

def sizesBefore (fs : List Field) (k : ℕ) : ℕ := ((fs.take k).map Field.size).sum

def Unpadded (offset : ℕ) (fs : List Field) (k : ℕ) : Prop :=
  ∀ j ≤ k, ∀ f, fs[j]? = some f → f.align ∣ offset + sizesBefore fs j

variable {offset align k : ℕ} {f : Field} {fs : List Field}

lemma le_alignTo (h : 0 < align) : offset ≤ alignTo offset align := by
  have hdiv := Nat.div_add_mod' (offset + align - 1) align
  have hmod := Nat.mod_lt (offset + align - 1) h
  rw [alignTo]
  omega

lemma alignTo_eq_self_iff (h : 0 < align) : alignTo offset align = offset ↔ align ∣ offset := by
  constructor
  · intro heq
    rw [← heq]
    exact Nat.dvd_mul_left align _
  · rintro ⟨m, rfl⟩
    have hdiv : (align * m + align - 1) / align = m := by
      rw [Nat.div_eq_iff h]
      rw [Nat.mul_comm m align]
      omega
    rw [alignTo, hdiv, Nat.mul_comm]

@[simp] lemma sizesBefore_zero : sizesBefore fs 0 = 0 := rfl

@[simp] lemma sizesBefore_cons : sizesBefore (f :: fs) (k + 1) = f.size + sizesBefore fs k := rfl

lemma le_fieldOffset (h : k < fs.length) : offset + sizesBefore fs k ≤ fieldOffset offset fs k := by
  induction fs generalizing offset k with
  | nil => exact absurd h (Nat.not_lt_zero k)
  | cons f fs ih =>
    have hle : offset ≤ alignTo offset f.align := le_alignTo f.align_pos
    cases k with
    | zero => exact hle
    | succ k =>
      have hrest : alignTo offset f.align + f.size + sizesBefore fs k ≤ fieldOffset _ fs k :=
        ih (Nat.lt_of_succ_lt_succ h)
      rw [sizesBefore_cons, fieldOffset]
      omega

lemma unpadded_zero_iff : Unpadded offset (f :: fs) 0 ↔ f.align ∣ offset := by
  constructor
  · intro h
    exact h 0 (Nat.le_refl 0) f rfl
  · intro h j hj g hg
    obtain rfl : j = 0 := Nat.le_zero.mp hj
    cases hg
    exact h

lemma unpadded_succ_iff : Unpadded offset (f :: fs) (k + 1) ↔
    f.align ∣ offset ∧ Unpadded (offset + f.size) fs k := by
  constructor
  · intro h
    refine ⟨h 0 (Nat.zero_le _) f rfl, ?_⟩
    intro j hj g hg
    rw [Nat.add_assoc, ← sizesBefore_cons]
    exact h (j + 1) (Nat.succ_le_succ hj) g hg
  · rintro ⟨hfirst, hrest⟩ j hj g hg
    cases j with
    | zero =>
      cases hg
      exact hfirst
    | succ j =>
      rw [sizesBefore_cons, ← Nat.add_assoc]
      exact hrest j (Nat.le_of_succ_le_succ hj) g hg

theorem fieldOffset_eq_iff (h : k < fs.length) :
    fieldOffset offset fs k = offset + sizesBefore fs k ↔ Unpadded offset fs k := by
  induction fs generalizing offset k with
  | nil => exact absurd h (Nat.not_lt_zero k)
  | cons f fs ih =>
    have hle : offset ≤ alignTo offset f.align := le_alignTo f.align_pos
    cases k with
    | zero =>
      rw [unpadded_zero_iff, ← alignTo_eq_self_iff f.align_pos]
      exact Iff.rfl
    | succ k =>
      have hk : k < fs.length := Nat.lt_of_succ_lt_succ h
      have hrest : alignTo offset f.align + f.size + sizesBefore fs k ≤ fieldOffset _ fs k :=
        le_fieldOffset hk
      rw [unpadded_succ_iff, ← alignTo_eq_self_iff f.align_pos, ← ih hk, sizesBefore_cons, fieldOffset]
      constructor
      · intro heq
        have hself : alignTo offset f.align = offset := by omega
        rw [hself] at heq
        exact ⟨hself, by rw [heq, Nat.add_assoc]⟩
      · rintro ⟨hself, heq⟩
        rw [hself, heq, Nat.add_assoc]

end Embedwatch.Library.StructLayout
