import Embedwatch.Detection.Frames
import Embedwatch.Instrumentor.Propagation
import Embedwatch.Pass.Phases

/-! The ids of trace entities on their way to the verifier: the counter of the analysis, the metadata,
the packed words of the instrumented code, and the two halves that the verifier takes apart. -/

namespace Embedwatch.Detection

open Library.PlainText Pass Verifier

/-- `entityId = idCount++`, for the entity that is created after `k` others. -/
def entityId (k : ℕ) : ℤ := (BitVec.ofNat 32 k).toInt

/-- `sprintf(text, "%d", id)`. -/
def idText (k : ℕ) : Text := signedDecimal (entityId k)

inductive Purpose
  | defn
  | use
  | zref
  deriving DecidableEq

def packedIds (purpose : Purpose) (metadata : Text) (recCounter : BitVec 16) : Option (List Word) :=
  match purpose with
  | .defn => (defIds metadata).map fun ids => ids.map fun id => useParam id recCounter
  | .use => (idOf metadata).map fun id => [useParam id recCounter]
  | .zref =>
    if Instrumentor.numeric metadata then
      (Instrumentor.stoi metadata).map fun n => [useParam (BitVec.ofNat 16 n) recCounter]
    else some []

lemma isDigit_of_mem_decimal {n : ℕ} {c : Char} (hc : c ∈ decimal n) : c.isDigit = true :=
  Nat.isDigit_of_mem_toDigits (by decide) (by decide) hc

lemma numeric_decimal (n : ℕ) : Instrumentor.numeric (decimal n) = true := by
  rw [Instrumentor.numeric, List.all_eq_true]
  exact fun c hc => isDigit_of_mem_decimal hc

lemma isDigit_iff {c : Char} : c.isDigit = true ↔ 48 ≤ c.toNat ∧ c.toNat ≤ 57 := by
  simp only [Char.isDigit, Bool.and_eq_true, decide_eq_true_eq, ge_iff_le, UInt32.le_iff_toNat_le]
  rfl

lemma stoi_of_numeric {t : Text} (h : Instrumentor.numeric t = true) :
    Pass.stoi t = (Instrumentor.stoi t).map Int.ofNat := by
  have hdigit : ∀ c ∈ t, 48 ≤ c.toNat ∧ c.toNat ≤ 57 := by
    intro c hc
    exact isDigit_iff.mp (List.all_eq_true.mp h c hc)
  have htake : t.takeWhile isDigit = t := by
    rw [List.takeWhile_eq_self_iff]
    intro c hc
    simp only [isDigit, Bool.and_eq_true, decide_eq_true_eq]
    exact hdigit c hc
  have hdrop : (t.dropWhile fun c => c.toNat = 32 || (9 ≤ c.toNat && c.toNat ≤ 13)) = t := by
    cases t with
    | nil => rfl
    | cons c cs =>
      have hfirst := hdigit c List.mem_cons_self
      rw [List.dropWhile_cons_of_neg]
      simp
      omega
  rw [Pass.stoi, hdrop, Instrumentor.stoi]
  split
  · exact absurd (hdigit '-' List.mem_cons_self) (by decide)
  · exact absurd (hdigit '+' List.mem_cons_self) (by decide)
  · rw [htake]
    cases readNat 10 t with
    | none => rfl
    | some n =>
      have hbounds : (decide (-2 ^ 31 ≤ (n : ℤ)) && decide ((n : ℤ) < 2 ^ 31)) = decide (n < 2 ^ 31) := by
        rw [Bool.eq_iff_iff, Bool.and_eq_true, decide_eq_true_eq, decide_eq_true_eq, decide_eq_true_eq]
        omega
      change Option.filter _ (some (n : ℤ)) = _
      rw [Option.filter_some, Option.filter_some, hbounds]
      cases decide (n < 2 ^ 31) <;> rfl

lemma stoi_decimal {n : ℕ} (h : n < 2 ^ 31) : Instrumentor.stoi (decimal n) = some n := by
  rw [Instrumentor.stoi, decimal_eq_zeroPadded, readNat_zeroPadded (by decide) (by decide)]
  simpa using h

lemma entityId_eq {k : ℕ} (hk : k < 2 ^ 31) : entityId k = k := by
  rw [entityId, BitVec.toInt_eq_toNat_of_lt]
  · rw [BitVec.toNat_ofNat, Nat.mod_eq_of_lt (by omega)]
  · rw [BitVec.toNat_ofNat, Nat.mod_eq_of_lt (by omega)]
    omega

lemma idText_eq {k : ℕ} (hk : k < 2 ^ 31) : idText k = decimal k := by
  rw [idText, entityId_eq hk]
  rfl

lemma packedIds_idText {k : ℕ} (hk : k < 2 ^ 31) (purpose : Purpose) (recCounter : BitVec 16) :
    packedIds purpose (idText k) recCounter = some [useParam (BitVec.ofNat 16 k) recCounter] := by
  have hid : idOf (decimal k) = some (BitVec.ofNat 16 k) := by
    rw [idOf, stoi_of_numeric (numeric_decimal k), stoi_decimal hk, Option.map_some, Option.map_some,
      Int.ofNat_eq_natCast, BitVec.ofInt_natCast]
  have hone : (decimal k).splitOn '_' = [decimal k] :=
    List.splitOn_eq_singleton (not_mem_decimal (by decide) k)
  rw [idText_eq hk]
  cases purpose with
  | defn =>
    rw [packedIds, defIds, hone, List.mapM_cons, hid]
    rfl
  | use =>
    rw [packedIds, hid]
    rfl
  | zref =>
    rw [packedIds, if_pos (numeric_decimal k), stoi_decimal hk]
    rfl

def OwnId (k : ℕ) : Prop :=
  ∀ purpose recCounter, ∃ w, packedIds purpose (idText k) recCounter = some [w] ∧
    getIdVar w.toNat = (entityId k, (recCounter.toNat : ℤ))

lemma ownId_of_lt {k : ℕ} (hk : k < 65536) : OwnId k := by
  intro purpose recCounter
  refine ⟨_, packedIds_idText (by omega) purpose recCounter, ?_⟩
  rw [getIdVar_useParam, entityId_eq (by omega), BitVec.toNat_ofNat, Nat.mod_eq_of_lt (by omega)]

lemma not_ownId : ¬ OwnId 65536 := by
  intro h
  obtain ⟨w, hw, hid⟩ := h .use 0
  rw [packedIds_idText (by decide)] at hw
  obtain rfl := (List.cons.inj (Option.some.inj hw)).1
  rw [getIdVar_useParam, entityId_eq (by decide)] at hid
  exact absurd (congrArg Prod.fst hid) (by decide)

theorem packed_ids_iff (n : ℕ) :
    ((∀ k < n, OwnId k) ∧ ∀ j < n, ∀ k < n, j ≠ k → ∀ p q c d v w,
      packedIds p (idText j) c = some [v] → packedIds q (idText k) d = some [w] → v ≠ w) ↔
    n ≤ 65536 := by
  constructor
  · rintro ⟨hown, -⟩
    by_contra hn
    exact not_ownId (hown 65536 (by omega))
  · intro hn
    refine ⟨fun k hk => ownId_of_lt (hk.trans_le hn), ?_⟩
    intro j hj k hk hne p q c d v w hv hw heq
    obtain ⟨v', hv', hj'⟩ := ownId_of_lt (hj.trans_le hn) p c
    obtain ⟨w', hw', hk'⟩ := ownId_of_lt (hk.trans_le hn) q d
    obtain rfl : v = v' := (List.cons.inj (Option.some.inj (hv.symm.trans hv'))).1
    obtain rfl : w = w' := (List.cons.inj (Option.some.inj (hw.symm.trans hw'))).1
    have hids : entityId j = entityId k := congrArg Prod.fst (hj'.symm.trans (heq ▸ hk'))
    rw [entityId_eq (by omega), entityId_eq (by omega)] at hids
    exact hne (by exact_mod_cast hids)

theorem packed_id_shared : idText 7 ≠ idText 65543 ∧ ∃ w,
    packedIds .defn (idText 7) 1 = some [w] ∧ packedIds .defn (idText 65543) 1 = some [w] ∧
      getIdVar w.toNat = (7, 1) := by
  refine ⟨by decide +kernel, useParam 7 1, ?_, ?_, ?_⟩
  · decide +kernel
  · decide +kernel
  · decide +kernel

end Embedwatch.Detection
