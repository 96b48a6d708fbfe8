import Mathlib.Data.List.DropRight
import Mathlib.Data.List.Infix
import Mathlib.Tactic.Common
import Mathlib.Tactic.IntervalCases

/-! Decimal and hexadecimal text as lists of characters: the number conversions of C's
`printf`, and the `int`, `strip` and `split` of Python that read such text back. -/

namespace Embedwatch.Library.PlainText

abbrev Text := List Char

instance : LawfulBEq Text := inferInstanceAs (LawfulBEq (List Char))

/-- Python's `str.isspace` on one character. -/
def isSpace (c : Char) : Bool :=
  let n := c.toNat
  (9 ≤ n && n ≤ 13) || (28 ≤ n && n ≤ 32) || n == 0x85 || n == 0xa0 || n == 0x1680 ||
    (0x2000 ≤ n && n ≤ 0x200a) || n == 0x2028 || n == 0x2029 || n == 0x202f || n == 0x205f ||
    n == 0x3000

def strip (t : Text) : Text := (t.dropWhile isSpace).rdropWhile isSpace

def digitValue (c : Char) : Option ℕ :=
  let n := c.toNat
  if 48 ≤ n ∧ n ≤ 57 then some (n - 48)
  else if 97 ≤ n ∧ n ≤ 102 then some (n - 87)
  else if 65 ≤ n ∧ n ≤ 70 then some (n - 55)
  else none

def readDigits (b : ℕ) : Text → ℕ → Option ℕ
  | [], acc => some acc
  | c :: cs, acc =>
    match digitValue c with
    | some d => if d < b then readDigits b cs (b * acc + d) else none
    | none => none

def readNat (b : ℕ) (t : Text) : Option ℕ := if t = [] then none else readDigits b t 0

/-- Python's `int(t, b)` on text without underscores and without a base prefix. -/
def readInt (b : ℕ) (t : Text) : Option ℤ :=
  match strip t with
  | '-' :: cs => (readNat b cs).map (fun n => -(n : ℤ))
  | '+' :: cs => (readNat b cs).map (fun n => (n : ℤ))
  | cs => (readNat b cs).map (fun n => (n : ℤ))

def decimal (n : ℕ) : Text := Nat.toDigits 10 n

def signedDecimal : ℤ → Text
  | .ofNat n => decimal n
  | .negSucc n => '-' :: decimal (n + 1)

/-- `%0wu`: the digits of `n`, zero-padded to at least `w` characters. -/
def zeroPadded (b w n : ℕ) : Text := (Nat.toDigits b n).leftpad w '0'

/-- `%0wd`: as `zeroPadded`, where the sign counts for one character. -/
def zeroPaddedInt (w : ℕ) : ℤ → Text
  | .ofNat n => zeroPadded 10 w n
  | .negSucc n => '-' :: zeroPadded 10 (w - 1) (n + 1)

/-- Python's `sub in t`. -/
def occurs (sub t : Text) : Bool := t.tails.any fun s => sub.isPrefixOf s

lemma digitValue_digitChar {n : ℕ} (hn : n < 16) : digitValue n.digitChar = some n := by
  interval_cases n <;> decide

lemma readDigits_append (b : ℕ) (s t : Text) (acc : ℕ) :
    readDigits b (s ++ t) acc = (readDigits b s acc).bind (readDigits b t) := by
  induction s generalizing acc with
  | nil => rfl
  | cons c cs ih =>
    simp only [List.cons_append, readDigits]
    cases digitValue c with
    | none => rfl
    | some d =>
      by_cases hd : d < b
      · simp only [hd, if_true, ih]
      · simp [hd]

lemma readDigits_digit {b n : ℕ} (hb : b ≤ 16) (hn : n < b) (acc : ℕ) :
    readDigits b [n.digitChar] acc = some (b * acc + n) := by
  simp only [readDigits, digitValue_digitChar (hn.trans_le hb), hn, if_true]

lemma readDigits_toDigits {b : ℕ} (h1 : 1 < b) (hb : b ≤ 16) (n : ℕ) :
    readDigits b (Nat.toDigits b n) 0 = some n := by
  induction n using Nat.strongRecOn with
  | ind n ih =>
    by_cases hn : n < b
    · simpa [Nat.toDigits_of_lt_base hn] using readDigits_digit hb hn 0
    · have hlt : n / b < n := Nat.div_lt_self (by omega) h1
      rw [Nat.toDigits_of_base_le h1 (by omega), readDigits_append, ih _ hlt, Option.bind_some,
        readDigits_digit hb (Nat.mod_lt n (by omega)), Nat.div_add_mod]

lemma readDigits_zeros {b : ℕ} (h1 : 1 < b) (k : ℕ) (t : Text) :
    readDigits b (List.replicate k '0' ++ t) 0 = readDigits b t 0 := by
  have h0 : digitValue '0' = some 0 := by decide
  induction k with
  | zero => rfl
  | succ k ih => simpa [List.replicate_succ, readDigits, h0, show 0 < b by omega] using ih

lemma zeroPadded_ne_nil (b w n : ℕ) : zeroPadded b w n ≠ [] := by
  simp [zeroPadded, List.leftpad, Nat.toDigits_ne_nil]

theorem readNat_zeroPadded {b : ℕ} (h1 : 1 < b) (hb : b ≤ 16) (w n : ℕ) :
    readNat b (zeroPadded b w n) = some n := by
  rw [readNat, if_neg (zeroPadded_ne_nil b w n), zeroPadded, List.leftpad, readDigits_zeros h1,
    readDigits_toDigits h1 hb]

lemma decimal_eq_zeroPadded (n : ℕ) : decimal n = zeroPadded 10 0 n := by
  simp [decimal, zeroPadded, List.leftpad]

lemma digitValue_isSome_of_mem_readDigits {b : ℕ} {t : Text} {acc n : ℕ}
    (h : readDigits b t acc = some n) : ∀ c ∈ t, (digitValue c).isSome := by
  induction t generalizing acc with
  | nil => simp
  | cons c cs ih =>
    simp only [readDigits] at h
    cases hd : digitValue c with
    | none => simp [hd] at h
    | some d =>
      simp only [hd] at h
      split at h
      · simpa [hd] using ih h
      · cases h

lemma digit_of_mem_zeroPadded {b : ℕ} (h1 : 1 < b) (hb : b ≤ 16) {w n : ℕ} {c : Char}
    (hc : c ∈ zeroPadded b w n) : (digitValue c).isSome := by
  have h := readNat_zeroPadded h1 hb w n
  rw [readNat, if_neg (zeroPadded_ne_nil b w n)] at h
  exact digitValue_isSome_of_mem_readDigits h c hc

lemma isSpace_eq_false_of_digit {c : Char} (h : (digitValue c).isSome) : isSpace c = false := by
  simp only [digitValue] at h
  simp only [isSpace, Bool.or_eq_false_iff, Bool.and_eq_false_iff, decide_eq_false_iff_not,
    beq_eq_false_iff_ne, ne_eq]
  split at h
  · omega
  · split at h
    · omega
    · split at h
      · omega
      · simp at h

def Trimmed (t : Text) : Prop :=
  (∀ c ∈ t.head?, isSpace c = false) ∧ ∀ c ∈ t.getLast?, isSpace c = false

instance (t : Text) : Decidable (Trimmed t) :=
  decidable_of_iff (t.head?.all (!isSpace ·) = true ∧ t.getLast?.all (!isSpace ·) = true)
    (by simp [Trimmed, Option.all_eq_true])

lemma dropWhile_eq_self_of_head {t : Text} (h : ∀ c ∈ t.head?, isSpace c = false) :
    t.dropWhile isSpace = t := by
  cases t with
  | nil => rfl
  | cons c cs => simp [h c (by simp)]

lemma rdropWhile_eq_self_of_last {t : Text} (h : ∀ c ∈ t.getLast?, isSpace c = false) :
    t.rdropWhile isSpace = t := by
  simpa [List.rdropWhile] using congrArg List.reverse
    (dropWhile_eq_self_of_head (t := t.reverse) (by simpa using h))

lemma strip_of_trimmed {t : Text} (h : Trimmed t) : strip t = t := by
  rw [strip, dropWhile_eq_self_of_head h.1, rdropWhile_eq_self_of_last h.2]

lemma strip_surrounded {t : Text} (h : Trimmed t) (ht : t ≠ []) {p s : Text}
    (hp : ∀ c ∈ p, isSpace c = true) (hs : ∀ c ∈ s, isSpace c = true) :
    strip (p ++ t ++ s) = t := by
  obtain ⟨c, cs, rfl⟩ := List.exists_cons_of_ne_nil ht
  have hd : (p ++ (c :: cs) ++ s).dropWhile isSpace = (c :: cs) ++ s := by
    rw [List.append_assoc, List.dropWhile_append_of_pos hp]
    exact dropWhile_eq_self_of_head (by simpa using h.1)
  rw [strip, hd, List.rdropWhile, List.reverse_append, List.dropWhile_append_of_pos (by simpa using hs)]
  simpa [List.rdropWhile] using rdropWhile_eq_self_of_last h.2

lemma trimmed_of_forall {t : Text} (h : ∀ c ∈ t, isSpace c = false) : Trimmed t :=
  ⟨fun c hc => h c (List.mem_of_mem_head? hc), fun c hc => h c (List.mem_of_mem_getLast? hc)⟩

lemma strip_spaced {t : Text} (h : Trimmed t) {p s : Text} (hp : ∀ c ∈ p, isSpace c = true)
    (hs : ∀ c ∈ s, isSpace c = true) : strip (p ++ t ++ s) = t := by
  cases t with
  | nil =>
    have hps : (p ++ [] ++ s).dropWhile isSpace = [] := by
      rw [List.dropWhile_eq_nil_iff]
      simpa [or_imp, forall_and] using ⟨hp, hs⟩
    rw [strip, hps, List.rdropWhile_nil]
  | cons c cs => exact strip_surrounded h (List.cons_ne_nil c cs) hp hs

theorem map_strip_splitOn_intercalate {c : Char} {s p : Text} (hs : ∀ x ∈ s, isSpace x = true)
    (hp : ∀ x ∈ p, isSpace x = true) (hcs : c ∉ s) (hcp : c ∉ p) {fields : List Text}
    (hne : fields ≠ []) (hf : ∀ f ∈ fields, Trimmed f ∧ c ∉ f) :
    (((s ++ c :: p).intercalate fields).splitOn c).map strip = fields := by
  have hgen : ∀ q : Text, (∀ x ∈ q, isSpace x = true) → c ∉ q →
      ((q ++ (s ++ c :: p).intercalate fields).splitOn c).map strip = fields := by
    induction fields with
    | nil => exact absurd rfl hne
    | cons f fs ih =>
      intro q hq hcq
      obtain ⟨hft, hcf⟩ := hf f List.mem_cons_self
      cases fs with
      | nil =>
        have hnot : c ∉ q ++ f := by simp [hcq, hcf]
        have hstrip := strip_spaced hft hq (s := []) (by simp)
        rw [List.intercalate_singleton, List.splitOn_eq_singleton hnot]
        simpa using hstrip
      | cons f' fs =>
        have hnot : c ∉ q ++ f ++ s := by simp [hcq, hcf, hcs]
        have hcat : q ++ (s ++ c :: p).intercalate (f :: f' :: fs) =
            (q ++ f ++ s) ++ c :: (p ++ (s ++ c :: p).intercalate (f' :: fs)) := by
          simp [List.intercalate_cons_cons]
        rw [hcat, List.splitOn_append_cons_self_of_not_mem hnot, List.map_cons,
          strip_spaced hft hq hs, ih (List.cons_ne_nil f' fs)
            (fun g hg => hf g (List.mem_cons_of_mem f hg)) p hp hcp]
  simpa using hgen [] (by simp) (by simp)

lemma trimmed_zeroPadded {b : ℕ} (h1 : 1 < b) (hb : b ≤ 16) (w n : ℕ) :
    Trimmed (zeroPadded b w n) :=
  trimmed_of_forall fun _ hc => isSpace_eq_false_of_digit (digit_of_mem_zeroPadded h1 hb hc)

lemma readInt_of_readNat {b n : ℕ} {t : Text} (h : readNat b t = some n) : readInt b t = some (n : ℤ) := by
  have hne : t ≠ [] := by rintro rfl; simp [readNat] at h
  have hd := digitValue_isSome_of_mem_readDigits (by simpa [readNat, hne] using h)
  have hs : strip t = t :=
    strip_of_trimmed (trimmed_of_forall fun c hc => isSpace_eq_false_of_digit (hd c hc))
  rw [readInt, hs]
  split
  · exact absurd (hd '-' (by simp)) (by decide)
  · exact absurd (hd '+' (by simp)) (by decide)
  · rw [h]; rfl

theorem readInt_zeroPadded {b : ℕ} (h1 : 1 < b) (hb : b ≤ 16) (w n : ℕ) :
    readInt b (zeroPadded b w n) = some (n : ℤ) :=
  readInt_of_readNat (readNat_zeroPadded h1 hb w n)

lemma trimmed_zeroPaddedInt (w : ℕ) (z : ℤ) : Trimmed (zeroPaddedInt w z) := by
  cases z with
  | ofNat n => exact trimmed_zeroPadded (by decide) (by decide) w n
  | negSucc n =>
    refine trimmed_of_forall fun c hc => ?_
    rcases List.mem_cons.mp hc with rfl | hc
    · decide
    · exact isSpace_eq_false_of_digit (digit_of_mem_zeroPadded (by decide) (by decide) hc)

theorem readInt_zeroPaddedInt (w : ℕ) (z : ℤ) : readInt 10 (zeroPaddedInt w z) = some z := by
  cases z with
  | ofNat n => exact readInt_zeroPadded (by decide) (by decide) w n
  | negSucc n =>
    rw [readInt, strip_of_trimmed (trimmed_zeroPaddedInt w (.negSucc n))]
    simp only [zeroPaddedInt, readNat_zeroPadded (b := 10) (by decide) (by decide)]
    rfl

lemma not_mem_of_digits {c : Char} (hc : digitValue c = none) {t : Text}
    (ht : ∀ d ∈ t, (digitValue d).isSome) : c ∉ t := by
  intro h
  simpa [hc] using ht c h

lemma not_mem_zeroPadded {b : ℕ} (h1 : 1 < b) (hb : b ≤ 16) {c : Char} (hc : digitValue c = none)
    (w n : ℕ) : c ∉ zeroPadded b w n :=
  not_mem_of_digits hc fun _ hd => digit_of_mem_zeroPadded h1 hb hd

lemma not_mem_zeroPaddedInt {c : Char} (hc : digitValue c = none) (hm : c ≠ '-') (w : ℕ) (z : ℤ) :
    c ∉ zeroPaddedInt w z := by
  cases z with
  | ofNat n => exact not_mem_zeroPadded (by decide) (by decide) hc w n
  | negSucc n =>
    simp only [zeroPaddedInt, List.mem_cons, not_or]
    exact ⟨hm, not_mem_zeroPadded (by decide) (by decide) hc _ _⟩

lemma decimal_injective {m n : ℕ} (h : decimal m = decimal n) : m = n := by
  have hm := readNat_zeroPadded (b := 10) (by decide) (by decide) 0 m
  rw [← decimal_eq_zeroPadded, h, decimal_eq_zeroPadded, readNat_zeroPadded (by decide) (by decide)]
    at hm
  exact (Option.some.inj hm).symm

lemma readInt_decimal (n : ℕ) : readInt 10 (decimal n) = some (n : ℤ) := by
  rw [decimal_eq_zeroPadded]
  exact readInt_zeroPadded (by decide) (by decide) 0 n

lemma signedDecimal_eq_zeroPaddedInt (z : ℤ) : signedDecimal z = zeroPaddedInt 0 z := by
  cases z with
  | ofNat n => exact decimal_eq_zeroPadded n
  | negSucc n => exact congrArg (List.cons '-') (decimal_eq_zeroPadded (n + 1))

lemma decimal_ne_nil (n : ℕ) : decimal n ≠ [] := by
  rw [decimal_eq_zeroPadded]
  exact zeroPadded_ne_nil _ _ _

lemma readInt_signedDecimal (z : ℤ) : readInt 10 (signedDecimal z) = some z := by
  rw [signedDecimal_eq_zeroPaddedInt]
  exact readInt_zeroPaddedInt 0 z

lemma signedDecimal_ne_nil (z : ℤ) : signedDecimal z ≠ [] := by
  intro h
  have hr := readInt_signedDecimal z
  rw [h] at hr
  cases hr

lemma not_mem_signedDecimal {c : Char} (hc : digitValue c = none) (hm : c ≠ '-') (z : ℤ) :
    c ∉ signedDecimal z := by
  rw [signedDecimal_eq_zeroPaddedInt]
  exact not_mem_zeroPaddedInt hc hm 0 z

lemma not_mem_decimal {c : Char} (hc : digitValue c = none) (n : ℕ) : c ∉ decimal n := by
  rw [decimal_eq_zeroPadded]
  exact not_mem_zeroPadded (by decide) (by decide) hc 0 n

def unlines (ls : List Text) : Text := ls.flatMap fun l => l ++ ['\n']

lemma unlines_eq_intercalate {ls : List Text} (h : ls ≠ []) :
    unlines ls = ['\n'].intercalate ls ++ ['\n'] := by
  induction ls with
  | nil => exact absurd rfl h
  | cons l ls ih =>
    cases ls with
    | nil => simp [unlines]
    | cons l' ls =>
      have hh := ih (List.cons_ne_nil l' ls)
      rw [List.intercalate_cons_cons]
      simp only [unlines, List.flatMap_cons, List.append_assoc] at hh ⊢
      rw [hh]

lemma head?_intercalate (s : Text) {l : Text} (ls : List Text) (hl : l ≠ []) :
    (s.intercalate (l :: ls)).head? = l.head? := by
  cases ls with
  | nil => rw [List.intercalate_singleton]
  | cons l' ls =>
    obtain ⟨c, cs, rfl⟩ := List.exists_cons_of_ne_nil hl
    rw [List.intercalate_cons_cons]
    rfl

lemma intercalate_ne_nil {s l : Text} {ls : List Text} (hl : l ≠ []) :
    s.intercalate (l :: ls) ≠ [] := by
  intro h
  have hh := head?_intercalate s ls hl
  rw [h, List.head?_nil] at hh
  exact hl (List.head?_eq_none_iff.mp hh.symm)

lemma trimmed_intercalate {s : Text} {ls : List Text} (h : ∀ l ∈ ls, Trimmed l ∧ l ≠ []) :
    Trimmed (s.intercalate ls) := by
  induction ls with
  | nil => exact ⟨by simp, by simp⟩
  | cons l ls ih =>
    obtain ⟨hl, hne⟩ := h l List.mem_cons_self
    cases ls with
    | nil => rwa [List.intercalate_singleton]
    | cons l' ls =>
      have hrest := ih fun l hl => h l (List.mem_cons_of_mem _ hl)
      refine ⟨fun c hc => hl.1 c (by rwa [head?_intercalate s _ hne] at hc), fun c hc => ?_⟩
      rw [List.intercalate_cons_cons,
        List.getLast?_append_of_ne_nil _ (intercalate_ne_nil (h l' (by simp)).2)] at hc
      exact hrest.2 c hc

lemma not_mem_intercalate {c : Char} {s : Text} (hs : c ∉ s) {ls : List Text}
    (h : ∀ l ∈ ls, c ∉ l) : c ∉ s.intercalate ls := by
  induction ls with
  | nil => simp
  | cons l ls ih =>
    have hl := h l List.mem_cons_self
    cases ls with
    | nil => rwa [List.intercalate_singleton]
    | cons l' ls =>
      have hrest := ih fun l hl => h l (List.mem_cons_of_mem _ hl)
      rw [List.intercalate_cons_cons]
      simp only [List.mem_append, not_or]
      exact ⟨⟨hl, hs⟩, hrest⟩

lemma intercalate_concat (c : Char) {ls : List Text} (hne : ls ≠ []) (l : Text) :
    [c].intercalate (ls ++ [l]) = [c].intercalate ls ++ c :: l := by
  induction ls with
  | nil => exact absurd rfl hne
  | cons m ls ih =>
    cases ls with
    | nil =>
      rw [List.singleton_append, List.intercalate_cons_cons, List.intercalate_singleton,
        List.intercalate_singleton, List.append_assoc]
      rfl
    | cons m' ls =>
      rw [List.cons_append, List.cons_append, List.intercalate_cons_cons, ← List.cons_append,
        ih (List.cons_ne_nil _ _), List.intercalate_cons_cons]
      simp only [List.append_assoc]

theorem splitOn_strip_unlines {ls : List Text} (hls : ls ≠ [])
    (h : ∀ l ∈ ls, Trimmed l ∧ l ≠ [] ∧ '\n' ∉ l) :
    (strip (unlines ls)).splitOn '\n' = ls := by
  have ht := trimmed_intercalate (s := ['\n']) fun l hl => ⟨(h l hl).1, (h l hl).2.1⟩
  have hs := strip_spaced ht (p := []) (s := ['\n']) (by simp) (by simp [show isSpace '\n' = true by decide])
  rw [List.nil_append] at hs
  rw [unlines_eq_intercalate hls, hs, List.splitOn_intercalate _ (fun l hl => (h l hl).2.2) hls]

lemma rdropWhile_append_of_pos {p : Char → Bool} {t s : Text} (hs : ∀ x ∈ s, p x = true) :
    (t ++ s).rdropWhile p = t.rdropWhile p := by
  rw [List.rdropWhile, List.reverse_append, List.dropWhile_append_of_pos]
  · rfl
  · simpa using hs

lemma rdropWhile_append_of_ne_nil {p : Char → Bool} {t s : Text} (hs : s.rdropWhile p ≠ []) :
    (t ++ s).rdropWhile p = t ++ s.rdropWhile p := by
  have hne : (s.reverse.dropWhile p).isEmpty = false := by
    rw [List.isEmpty_eq_false_iff]
    intro h
    exact hs (by rw [List.rdropWhile, h, List.reverse_nil])
  rw [List.rdropWhile, List.reverse_append, List.dropWhile_append, hne]
  simp [List.rdropWhile]

lemma rdropWhile_cons_of_neg {p : Char → Bool} {c : Char} (hc : p c = false) (l : Text) :
    (c :: l).rdropWhile p = c :: l.rdropWhile p := by
  have hcons : c :: l = [c] ++ l := rfl
  rw [hcons]
  by_cases hl : l.rdropWhile p = []
  · rw [hl, rdropWhile_append_of_pos (List.rdropWhile_eq_nil_iff.mp hl), List.rdropWhile_singleton,
      hc]
    rfl
  · rw [rdropWhile_append_of_ne_nil hl]
    rfl

lemma strip_append_of_pos {t s : Text} (hs : ∀ x ∈ s, isSpace x = true) :
    strip (t ++ s) = strip t := by
  rw [strip, strip, List.dropWhile_append]
  split
  · rename_i h
    rw [List.isEmpty_iff.mp h, List.dropWhile_eq_nil_iff.mpr hs]
  · exact rdropWhile_append_of_pos hs

structure Around (l' l : Text) : Prop where
  part : l' <:+: l
  strip_eq : strip l' = strip l

lemma Around.trans {l l' l'' : Text} (h : Around l'' l') (h' : Around l' l) : Around l'' l :=
  ⟨h.part.trans h'.part, h.strip_eq.trans h'.strip_eq⟩

lemma around_dropWhile (l : Text) : Around (l.dropWhile isSpace) l :=
  ⟨(List.dropWhile_suffix isSpace).isInfix, by rw [strip, List.dropWhile_idempotent, strip]⟩

lemma around_rdropWhile (l : Text) : Around (l.rdropWhile isSpace) l := by
  refine ⟨(List.rdropWhile_prefix isSpace l).isInfix, ?_⟩
  have hl := List.rdropWhile_append_rtakeWhile (p := isSpace) (l := l)
  have hspace : ∀ x ∈ l.rtakeWhile isSpace, isSpace x = true := fun x hx => List.mem_rtakeWhile_imp hx
  calc strip (l.rdropWhile isSpace)
      = strip (l.rdropWhile isSpace ++ l.rtakeWhile isSpace) := (strip_append_of_pos hspace).symm
    _ = strip l := by rw [hl]

lemma strip_isInfix (l : Text) : strip l <:+: l :=
  (List.rdropWhile_prefix isSpace _).isInfix.trans (List.dropWhile_suffix isSpace).isInfix

lemma rdropWhile_unlines {ls : List Text} (hne : ls ≠ []) (h : ∀ l ∈ ls, strip l ≠ []) :
    ∃ ls', (unlines ls).rdropWhile isSpace = ['\n'].intercalate ls' ∧ ls' ≠ [] ∧
      List.Forall₂ Around ls' ls := by
  induction ls with
  | nil => exact absurd rfl hne
  | cons l ls ih =>
    have hend : ∀ x ∈ ['\n'], isSpace x = true := by simp [isSpace]
    cases ls with
    | nil =>
      refine ⟨[l.rdropWhile isSpace], ?_, List.cons_ne_nil _ _,
        .cons (around_rdropWhile l) .nil⟩
      rw [unlines, List.flatMap_singleton, rdropWhile_append_of_pos hend,
        List.intercalate_singleton]
    | cons l₂ ls =>
      obtain ⟨ls', heq, hne', hall⟩ := ih (List.cons_ne_nil l₂ ls)
        fun l hl => h l (List.mem_cons_of_mem _ hl)
      obtain ⟨l', ls', rfl⟩ := List.exists_cons_of_ne_nil hne'
      have htail : (unlines (l₂ :: ls)).rdropWhile isSpace ≠ [] := by
        rw [heq]
        apply intercalate_ne_nil
        intro hnil
        cases hall with
        | cons hl' _ =>
          have hs := hl'.strip_eq
          rw [hnil] at hs
          exact h l₂ (by simp) hs.symm
      refine ⟨l :: l' :: ls', ?_, List.cons_ne_nil _ _, .cons ⟨List.infix_rfl, rfl⟩ hall⟩
      have hcons : unlines (l :: l₂ :: ls) = l ++ ['\n'] ++ unlines (l₂ :: ls) := rfl
      rw [hcons, rdropWhile_append_of_ne_nil htail, heq, List.intercalate_cons_cons]

theorem strip_unlines {ls : List Text} (hne : ls ≠ []) (h : ∀ l ∈ ls, strip l ≠ []) :
    ∃ ls', strip (unlines ls) = ['\n'].intercalate ls' ∧ ls' ≠ [] ∧
      List.Forall₂ Around ls' ls := by
  obtain ⟨l, ls, rfl⟩ := List.exists_cons_of_ne_nil hne
  have hl := (around_dropWhile l).strip_eq
  have hdrop : (unlines (l :: ls)).dropWhile isSpace = unlines (l.dropWhile isSpace :: ls) := by
    have hfull : (l.dropWhile isSpace).isEmpty = false := by
      rw [List.isEmpty_eq_false_iff]
      intro hnil
      rw [hnil] at hl
      exact h l List.mem_cons_self hl.symm
    rw [unlines, List.flatMap_cons, List.append_assoc, List.dropWhile_append, hfull]
    simp [unlines]
  have hstrip : ∀ m ∈ l.dropWhile isSpace :: ls, strip m ≠ [] := by
    intro m hm
    rcases List.mem_cons.mp hm with rfl | hm
    · rw [hl]
      exact h l List.mem_cons_self
    · exact h m (List.mem_cons_of_mem _ hm)
  obtain ⟨ls', heq, hne', hall⟩ := rdropWhile_unlines (List.cons_ne_nil _ _) hstrip
  refine ⟨ls', by rw [strip, hdrop, heq], hne', ?_⟩
  cases hall with
  | cons hl' hall => exact .cons (hl'.trans (around_dropWhile l)) hall

lemma not_mem_of_mem_splitOn {c : Char} {l piece : Text} (h : piece ∈ l.splitOn c) : c ∉ piece := by
  induction l generalizing piece with
  | nil =>
    rw [List.splitOn_nil, List.mem_singleton] at h
    rw [h]
    exact List.not_mem_nil
  | cons x xs ih =>
    obtain ⟨p, ps, hps⟩ := List.exists_cons_of_ne_nil (List.splitOn_ne_nil c xs)
    rw [hps] at ih
    rw [List.splitOn_cons_eq_if_modifyHead, hps] at h
    split at h
    · rcases List.mem_cons.mp h with rfl | h
      · exact List.not_mem_nil
      · exact ih h
    · rename_i hx
      rw [List.modifyHead_cons, List.mem_cons] at h
      rcases h with rfl | h
      · rw [List.mem_cons, not_or]
        exact ⟨fun hc => hx (by rw [hc]; exact beq_self_eq_true x), ih (by simp)⟩
      · exact ih (List.mem_cons_of_mem _ h)

lemma splitOn_intercalate_flatMap (c : Char) {ls : List Text} (hne : ls ≠ []) :
    ([c].intercalate ls).splitOn c = ls.flatMap (List.splitOn c) := by
  induction ls with
  | nil => exact absurd rfl hne
  | cons l ls ih =>
    cases ls with
    | nil => rw [List.intercalate_singleton, List.flatMap_singleton]
    | cons l' ls =>
      have hcons : [c].intercalate (l :: l' :: ls) = l ++ c :: [c].intercalate (l' :: ls) := by
        rw [List.intercalate_cons_cons, List.append_assoc]
        rfl
      rw [hcons, List.splitOn_append_cons_self, ih (List.cons_ne_nil _ _)]
      rfl

theorem map_strip_splitOn_unlines {ls : List Text} (hne : ls ≠ []) (h : ∀ l ∈ ls, strip l ≠ [])
    (hline : ∀ l ∈ ls, '\n' ∉ l) : ((strip (unlines ls)).splitOn '\n').map strip = ls.map strip := by
  obtain ⟨ls', heq, hne', hall⟩ := strip_unlines hne h
  have hboth : (∀ l' ∈ ls', '\n' ∉ l') ∧ ls'.map strip = ls.map strip := by
    clear heq hne' hne h
    induction hall with
    | nil => exact ⟨by simp, rfl⟩
    | cons har _ ih =>
      obtain ⟨hnot, hmap⟩ := ih fun l hl => hline l (List.mem_cons_of_mem _ hl)
      refine ⟨?_, by rw [List.map_cons, List.map_cons, hmap, har.strip_eq]⟩
      intro l' hl' hc
      rcases List.mem_cons.mp hl' with rfl | hl'
      · exact hline _ List.mem_cons_self (har.part.subset hc)
      · exact hnot l' hl' hc
  rw [heq, List.splitOn_intercalate _ hboth.1 hne', hboth.2]

theorem length_lt_splitOn_unlines {ls : List Text} (hne : ls ≠ []) (h : ∀ l ∈ ls, strip l ≠ [])
    (hline : ∃ l ∈ ls, '\n' ∈ strip l) :
    ls.length < ((strip (unlines ls)).splitOn '\n').length := by
  obtain ⟨ls', heq, hne', hall⟩ := strip_unlines hne h
  have hone : ∀ l : Text, 1 ≤ (l.splitOn '\n').length := fun l =>
    List.length_pos_of_ne_nil (List.splitOn_ne_nil _ _)
  have hle : ∀ {ls' ls : List Text}, List.Forall₂ Around ls' ls →
      ls.length ≤ (ls'.flatMap (List.splitOn '\n')).length := by
    intro ls' ls hall
    induction hall with
    | nil => rfl
    | @cons l' l ls' ls _ _ ih =>
      have h1 := hone l'
      rw [List.flatMap_cons, List.length_append, List.length_cons]
      omega
  rw [heq, splitOn_intercalate_flatMap _ hne']
  clear heq hne' hne h
  induction hall with
  | nil =>
    obtain ⟨l, hl, -⟩ := hline
    cases hl
  | @cons l' l ls' ls har hall ih =>
    rw [List.flatMap_cons, List.length_append, List.length_cons]
    obtain ⟨m, hm, hc⟩ := hline
    rcases List.mem_cons.mp hm with rfl | hm
    · have hmem : '\n' ∈ l' := by
        rw [← har.strip_eq] at hc
        exact (strip_isInfix l').subset hc
      obtain ⟨x, y, rfl⟩ := List.append_of_mem hmem
      have h1 := hone x
      have h2 := hone y
      have hrest := hle hall
      rw [List.splitOn_append_cons_self, List.length_append]
      omega
    · have hrest := ih ⟨m, hm, hc⟩
      have h1 := hone l'
      omega

lemma occurs_iff_isInfix {sub t : Text} : occurs sub t = true ↔ sub <:+: t := by
  simp only [occurs, List.any_eq_true, List.mem_tails, List.isPrefixOf_iff_prefix,
    List.infix_iff_prefix_suffix, and_comm]

lemma prefix_append_cons_iff {c : Char} {sub : Text} (hc : c ∉ sub) (a b : Text) :
    sub <+: a ++ c :: b ↔ sub <+: a := by
  constructor
  · intro h
    rcases List.prefix_or_prefix_of_prefix h (List.prefix_append a (c :: b)) with h' | ⟨r, rfl⟩
    · exact h'
    · -- the rest of `sub` would begin with the border
      rw [List.prefix_append_right_inj] at h
      cases r with
      | nil => simp
      | cons d r =>
        obtain ⟨rfl, -⟩ := List.cons_prefix_cons.mp h
        exact absurd (List.mem_append_right a List.mem_cons_self) hc
  · intro h
    exact h.trans (List.prefix_append a _)

lemma occurs_append_cons {c : Char} {sub : Text} (hc : c ∉ sub) (a b : Text) :
    occurs sub (a ++ c :: b) = (occurs sub a || occurs sub b) := by
  rw [Bool.eq_iff_iff, Bool.or_eq_true, occurs_iff_isInfix, occurs_iff_isInfix, occurs_iff_isInfix]
  induction a with
  | nil =>
    rw [List.nil_append, List.infix_cons_iff, ← List.nil_append (c :: b),
      prefix_append_cons_iff hc [] b, List.prefix_nil, List.infix_nil]
  | cons d a ih =>
    rw [List.cons_append, List.infix_cons_iff, ih, ← List.cons_append, prefix_append_cons_iff hc,
      List.infix_cons_iff, or_assoc]

lemma occurs_eq_false_of_not_mem {sub s : Text} (hsub : sub ≠ []) (hs : ∀ c ∈ s, c ∉ sub) :
    occurs sub s = false := by
  rw [← Bool.not_eq_true, occurs_iff_isInfix]
  intro h
  obtain ⟨c, cs, rfl⟩ := List.exists_cons_of_ne_nil hsub
  exact hs c (h.subset List.mem_cons_self) List.mem_cons_self

lemma occurs_surrounded {sub p s : Text} (hsub : sub ≠ []) (hp : ∀ c ∈ p, c ∉ sub)
    (hs : ∀ c ∈ s, c ∉ sub) (t : Text) : occurs sub (p ++ t ++ s) = occurs sub t := by
  have hend : occurs sub (t ++ s) = occurs sub t := by
    cases s with
    | nil => rw [List.append_nil]
    | cons c s =>
      have hrest := occurs_eq_false_of_not_mem hsub fun c hc => hs c (List.mem_cons_of_mem _ hc)
      rw [occurs_append_cons (hs c List.mem_cons_self), hrest, Bool.or_false]
  rw [List.append_assoc, ← hend]
  induction p with
  | nil => rfl
  | cons c p ih =>
    have hnil : occurs sub [] = false := occurs_eq_false_of_not_mem hsub (by simp)
    have hborder := occurs_append_cons (hp c List.mem_cons_self) [] (p ++ (t ++ s))
    rw [List.nil_append, hnil, Bool.false_or] at hborder
    rw [List.cons_append, hborder, ih fun c hc => hp c (List.mem_cons_of_mem _ hc)]

end Embedwatch.Library.PlainText
