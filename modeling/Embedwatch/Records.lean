import Mathlib.Tactic

/-! The eight words of a `use_t`, which the host's cache, the ring of the trusted application and
the extractor's buffer all hold, and the four kinds of record that are written into them. -/

namespace Embedwatch

abbrev Word := BitVec 32

def toInt (n : ℤ) : ℤ := n.bmod (2 ^ 32)

/-- `use_t`; the host calls the last three fields `i_use_def`, `i_use_use` and `i_use_addr`, the
trusted application `i_def`, `i_use` and `i_addr`. -/
@[ext] structure UseT where
  defAddr : Word
  defId : Word
  defSize : Word
  useAddr : Word
  useId : Word
  iUseDef : Word
  iUseUse : Word
  iUseAddr : Word
  deriving DecidableEq

namespace UseT

def zero : UseT := ⟨0, 0, 0, 0, 0, 0, 0, 0⟩

def word (e : UseT) : ℕ → Word
  | 0 => e.defAddr
  | 1 => e.defId
  | 2 => e.defSize
  | 3 => e.useAddr
  | 4 => e.useId
  | 5 => e.iUseDef
  | 6 => e.iUseUse
  | _ => e.iUseAddr

def ofMemory (mem : ℕ → Word) (i : ℕ) : UseT :=
  ⟨mem (8 * i), mem (8 * i + 1), mem (8 * i + 2), mem (8 * i + 3), mem (8 * i + 4),
    mem (8 * i + 5), mem (8 * i + 6), mem (8 * i + 7)⟩

def toMemory (entries : ℕ → UseT) (k : ℕ) : Word := (entries (k / 8)).word (k % 8)

lemma toMemory_mul_add (entries : ℕ → UseT) (i j : ℕ) (hj : j < 8) :
    toMemory entries (8 * i + j) = (entries i).word j := by
  have hd : (8 * i + j) / 8 = i := by omega
  have hm : (8 * i + j) % 8 = j := by omega
  rw [toMemory, hd, hm]

@[simp] lemma ofMemory_toMemory (entries : ℕ → UseT) (i : ℕ) :
    ofMemory (toMemory entries) i = entries i := by
  have h0 := toMemory_mul_add entries i 0 (by omega)
  simp only [Nat.add_zero] at h0
  simp [ofMemory, toMemory_mul_add, h0, word]

lemma ofMemory_congr {mem mem' : ℕ → Word} {i : ℕ} (h : ∀ k, k < 8 * (i + 1) → mem k = mem' k) :
    ofMemory mem i = ofMemory mem' i := by
  simp only [ofMemory, UseT.mk.injEq]
  refine ⟨?_, ?_, ?_, ?_, ?_, ?_, ?_, ?_⟩ <;> exact h _ (by omega)

end UseT

inductive Record
  | defRec (id addr : Word)
  | ddefRec (id addr size : Word)
  | useRec (id addr : Word)
  | iuseRec (use defn addr : Word)
  deriving DecidableEq

namespace Record

def id : Record → Word
  | defRec i _ | ddefRec i _ _ | useRec i _ | iuseRec i _ _ => i

def isUse : Record → Bool
  | useRec _ _ | iuseRec _ _ _ => true
  | defRec _ _ | ddefRec _ _ _ => false

def uses (rs : List Record) : List Record := rs.filter isUse

@[simp] lemma uses_nil : uses [] = [] := rfl

@[simp] lemma uses_append (rs ts : List Record) : uses (rs ++ ts) = uses rs ++ uses ts :=
  List.filter_append ..

lemma uses_cons (r : Record) (rs : List Record) :
    uses (r :: rs) = if r.isUse then r :: uses rs else uses rs := List.filter_cons

end Record

/-- `libFunctions`: the library functions that write to memory and that both the analysis and the
instrumentation pass know. -/
inductive LibFunction
  | scanf | isoc99Scanf | memcpy | strcpy
  deriving DecidableEq

end Embedwatch
