import Embedwatch.Verifier.Dictionaries

/-! A record on its way from a slot of the ring to the verifier: the line that is printed for it, and
what the verifier reads in the line. -/

namespace Embedwatch.Verifier

open Library.PlainText
open Host (slotLines recordLine Printable)

def halves (w : Word) : ℤ × ℤ := ((w.toNat / 65536 : ℕ), (w.toNat % 65536 : ℕ))

def SaysRecord : Record → Entry → Prop
  | .defRec id addr, .defn id' addr' => getIdVar id' = halves id ∧ addr' = addr.toNat
  | .ddefRec id addr size, .ddefn id' addr' len =>
    getIdVar id' = halves id ∧ addr' = addr.toNat ∧ len = size.toNat
  | .useRec id addr, .use id' addr' => getIdVar id' = halves id ∧ addr' = addr.toNat
  | .iuseRec use defn addr, .iuse defn' use' addr' =>
    getIdVar use' = halves use ∧ getIdVar defn' = halves defn ∧ addr' = addr.toNat
  | _, _ => False

def Distinctive : Record → Prop
  | .defRec id _ | .useRec id _ => id ≠ 0
  | .ddefRec id _ size => id ≠ 0 ∧ size ≠ -1
  | .iuseRec use defn _ => use ≠ 0 ∧ defn ≠ 0

def Unsigned : Record → Prop
  | .iuseRec use defn _ => use.toNat < 2 ^ 31 ∧ defn.toNat < 2 ^ 31
  | .defRec _ _ | .ddefRec _ _ _ | .useRec _ _ => True

lemma Distinctive.printable {r : Record} (h : Distinctive r) : Printable r := by
  cases r with
  | defRec | ddefRec | useRec => exact h
  | iuseRec => exact h.2

lemma readEntry_recordFields (r : Record) : readEntry (recordFields r) = some (State.entryOf r) := by
  have hu : ∀ w, readInt 10 (Host.word05u w) = some (w.toNat : ℤ) :=
    fun w => readInt_zeroPadded (by decide) (by decide) 5 _
  have hx : ∀ w, readInt 16 (Host.word08x w) = some (w.toNat : ℤ) :=
    fun w => readInt_zeroPadded (by decide) (by decide) 8 _
  have hd : ∀ w, readInt 10 (Host.word05d w) = some w.toInt := fun w => readInt_zeroPaddedInt 5 _
  have h1 : ddefType ≠ defType := by decide
  have h2 : useType ≠ defType ∧ useType ≠ ddefType := by decide
  have h3 : iuseType ≠ defType ∧ iuseType ≠ ddefType ∧ iuseType ≠ useType := by decide
  cases r with
  | defRec id addr => simp [readEntry, recordFields, number, hu, hx, State.entryOf]
  | ddefRec id addr size => simp [readEntry, recordFields, number, hu, hx, h1, State.entryOf]
  | useRec id addr => simp [readEntry, recordFields, number, hu, hx, h2, State.entryOf]
  | iuseRec use defn addr => simp [readEntry, recordFields, number, hd, hx, h3, State.entryOf]

lemma getIdVar_toNat (w : Word) : getIdVar w.toNat = halves w := by
  rw [getIdVar, halves, Int.shiftRight_eq_div_pow]
  apply Prod.ext
  · dsimp only
    omega
  · dsimp only
    omega

lemma getIdVar_toInt (w : Word) : getIdVar w.toInt = halves w ↔ w.toNat < 2 ^ 31 := by
  have hlt := w.isLt
  rw [getIdVar, halves, Int.shiftRight_eq_div_pow, BitVec.toInt_eq_toNat_cond, Prod.mk.injEq]
  split <;> omega

theorem recordText_lossless_iff {r : Record} (hr : Distinctive r) :
    (∃ line e, slotLines (Ta.put r .zero) = [line] ∧
      readEntry ((line.splitOn '|').map strip) = some e ∧ SaysRecord r e) ↔ Unsigned r := by
  have hline := (Host.slotLines_put_iff r).mpr hr.printable
  have hread : readEntry (((recordLine r).splitOn '|').map strip) = some (State.entryOf r) := by
    rw [splitOn_recordLine, readEntry_recordFields]
  have hsays : SaysRecord r (State.entryOf r) ↔ Unsigned r := by
    cases r with
    | defRec id addr => simp [SaysRecord, State.entryOf, Unsigned, getIdVar_toNat]
    | ddefRec id addr size => simp [SaysRecord, State.entryOf, Unsigned, getIdVar_toNat]
    | useRec id addr => simp [SaysRecord, State.entryOf, Unsigned, getIdVar_toNat]
    | iuseRec use defn addr => simp [SaysRecord, State.entryOf, Unsigned, getIdVar_toInt]
  rw [← hsays]
  constructor
  · rintro ⟨line, e, hl, he, h⟩
    rw [hline] at hl
    obtain rfl := (List.cons.inj hl).1
    rw [hread] at he
    obtain rfl := Option.some.inj he
    exact h
  · intro h
    exact ⟨_, _, hline, hread, h⟩

def smallIuse : Record := .iuseRec 0x30001 0x40001 0x1000

theorem smallIuse_lossless : ∃ line e, slotLines (Ta.put smallIuse .zero) = [line] ∧
    readEntry ((line.splitOn '|').map strip) = some e ∧ SaysRecord smallIuse e := by
  have hids : Distinctive smallIuse := And.intro (by decide) (by decide)
  exact (recordText_lossless_iff hids).mpr (And.intro (by decide) (by decide))

def largeIuse : Record := .iuseRec 0x9c400001 0x40001 0x1000

theorem largeIuse_lossy : Distinctive largeIuse ∧
    slotLines (Ta.put largeIuse .zero) = [recordLine largeIuse] ∧
    readEntry (((recordLine largeIuse).splitOn '|').map strip) =
      some (.iuse 0x40001 (-1673527295) 0x1000) ∧
    ¬ SaysRecord largeIuse (.iuse 0x40001 (-1673527295) 0x1000) := by
  refine ⟨And.intro (by decide) (by decide), by decide +kernel, by decide +kernel, ?_⟩
  rintro ⟨huse, -⟩
  exact absurd huse (by decide)

end Embedwatch.Verifier
