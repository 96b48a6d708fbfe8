import Embedwatch.Host.Calls

/-! The instrumentation of uses: the calls that the pass inserts after a store or a call to a library
function that carries the id of a use, and the end addresses that they report. -/

namespace Embedwatch.Pass

open Host (Memory EntryType Call Event eventRecord endOfWrite getEndOfObject scan)

/-- The id a call gets: the id of the metadata, and below it `zbouncer_recursion_counter`. -/
def useParam (use recCounter : BitVec 16) : Word :=
  (use.setWidth 32 <<< 16) ||| (recCounter.signExtend 32 &&& 0x0000ffff)

/-- A store with `zsuse` metadata, when it runs. `defRef` is the argument that `ziuse` names, if the
store has it; in a loop the pass inserts two calls. -/
structure StoreUse where
  use : BitVec 16
  ptr : Word
  storeSize : ℕ
  defRef : Option Word
  recCounter : BitVec 16
  inLoop : Bool

namespace StoreUse

def endAddr (s : StoreUse) : Word := s.ptr + BitVec.ofNat 32 s.storeSize

def plainCall (s : StoreUse) : Call :=
  match s.defRef with
  | some defRef => .ziuse (useParam s.use s.recCounter) defRef s.endAddr
  | none => .zuse (useParam s.use s.recCounter) s.endAddr

def loopCall (s : StoreUse) : Call :=
  .collectEntry .iuseT (useParam s.use s.recCounter) s.endAddr (s.defRef.getD 0) 0 0

def calls (s : StoreUse) : List Call := s.plainCall :: if s.inLoop then [s.loopCall] else []

end StoreUse

structure LibUse where
  function : LibFunction
  args : List Word
  use : BitVec 16
  defRef : Option Word
  recCounter : BitVec 16
  inLoop : Bool

namespace LibUse

def addr (l : LibUse) : Option Word :=
  match l.function with
  | .memcpy => l.args[1]?
  | .scanf => l.args[1]?
  | .isoc99Scanf => l.args[1]?
  | .strcpy => l.args[0]?

def sizeOfWrite (l : LibUse) : Option Word :=
  match l.function with
  | .memcpy => l.args[2]?
  | .scanf | .isoc99Scanf | .strcpy => some 0xdeadbeef

def plainCall (l : LibUse) (addr sizeOfWrite : Word) : Call :=
  match l.defRef with
  | some defRef => .ziluse (useParam l.use l.recCounter) defRef addr sizeOfWrite
  | none => .zluse (useParam l.use l.recCounter) addr sizeOfWrite

def loopCall (l : LibUse) (addr sizeOfWrite : Word) : Call :=
  match l.defRef with
  | some defRef =>
    .collectEntry .ilibuseT (useParam l.use l.recCounter) addr defRef 0 sizeOfWrite
  | none => .collectEntry .libuseT (useParam l.use l.recCounter) addr 0 0 sizeOfWrite

def calls (l : LibUse) : Option (List Call) := do
  let addr ← l.addr
  let sizeOfWrite ← l.sizeOfWrite
  some (l.plainCall addr sizeOfWrite ::
    if l.inLoop then [l.loopCall addr sizeOfWrite] else [])

end LibUse

def Reports (use : Word) (defRef : Option Word) (endAddr : Word) (r : Record) : Prop :=
  (defRef = none ∧ r = .useRec use endAddr) ∨ r = .iuseRec use (defRef.getD 0) endAddr

lemma Reports.isUse {use endAddr : Word} {defRef : Option Word} {r : Record}
    (h : Reports use defRef endAddr r) : r.isUse = true := by
  rcases h with ⟨-, rfl⟩ | rfl <;> rfl

lemma Reports.id {use endAddr : Word} {defRef : Option Word} {r : Record}
    (h : Reports use defRef endAddr r) : r.id = use := by
  rcases h with ⟨-, rfl⟩ | rfl <;> rfl

namespace StoreUse

theorem reports (s : StoreUse) {call : Call} (hc : call ∈ s.calls) (mem : Memory) :
    ∃ r, eventRecord (mem, call) = some r ∧
      Reports (useParam s.use s.recCounter) s.defRef s.endAddr r := by
  rcases List.mem_cons.mp hc with rfl | hc
  · rw [plainCall]
    cases s.defRef with
    | some defRef => exact ⟨_, rfl, Or.inr rfl⟩
    | none => exact ⟨_, rfl, Or.inl ⟨rfl, rfl⟩⟩
  · split at hc
    · obtain rfl := List.mem_singleton.mp hc
      exact ⟨_, rfl, Or.inr rfl⟩
    · cases hc

end StoreUse

namespace LibUse

theorem reports (l : LibUse) {addr sizeOfWrite : Word} (haddr : l.addr = some addr)
    (hsize : l.sizeOfWrite = some sizeOfWrite) : ∃ cs, l.calls = some cs ∧ cs ≠ [] ∧
      ∀ call ∈ cs, ∀ mem, ∃ r, eventRecord (mem, call) = some r ∧
        Reports (useParam l.use l.recCounter) l.defRef (endOfWrite mem addr sizeOfWrite) r := by
  refine ⟨l.plainCall addr sizeOfWrite ::
    if l.inLoop then [l.loopCall addr sizeOfWrite] else [], ?_, List.cons_ne_nil _ _, ?_⟩
  · rw [calls, haddr, hsize]
    rfl
  · intro call hc mem
    rcases List.mem_cons.mp hc with rfl | hc
    · rw [plainCall]
      cases l.defRef with
      | some defRef => exact ⟨_, rfl, Or.inr rfl⟩
      | none => exact ⟨_, rfl, Or.inl ⟨rfl, rfl⟩⟩
    · split at hc
      · obtain rfl := List.mem_singleton.mp hc
        rw [loopCall]
        cases l.defRef with
        | some defRef => exact ⟨_, rfl, Or.inr rfl⟩
        | none => exact ⟨_, rfl, Or.inl ⟨rfl, rfl⟩⟩
      · cases hc

end LibUse

structure StringAt (mem : Memory) (ptr : Word) (n : ℕ) : Prop where
  chars : ∀ i < n, mem.byte (ptr + BitVec.ofNat 32 i) ≠ 0
  terminator : mem.byte (ptr + BitVec.ofNat 32 n) = 0

lemma add_ofNat_zero (ptr : Word) : ptr + BitVec.ofNat 32 0 = ptr := BitVec.add_zero ptr

lemma scan_eq {byte : Word → Host.Byte} {fuel n : ℕ} {ptr : Word} (hfuel : n < fuel)
    (hchars : ∀ i < n, byte (ptr + BitVec.ofNat 32 i) ≠ 0)
    (hend : byte (ptr + BitVec.ofNat 32 n) = 0) :
    scan byte fuel ptr = ptr + BitVec.ofNat 32 n := by
  induction n generalizing ptr fuel with
  | zero =>
    obtain ⟨fuel, rfl⟩ := Nat.exists_eq_succ_of_ne_zero hfuel.ne'
    rw [add_ofNat_zero] at hend ⊢
    rw [scan, if_pos hend]
  | succ n ih =>
    obtain ⟨fuel, rfl⟩ := Nat.exists_eq_succ_of_ne_zero (Nat.ne_zero_of_lt hfuel)
    have hshift : ∀ i, ptr + 1 + BitVec.ofNat 32 i = ptr + BitVec.ofNat 32 (i + 1) := by
      intro i
      rw [BitVec.add_assoc, BitVec.ofNat_add, BitVec.add_comm (BitVec.ofNat 32 i)]
      rfl
    have hfirst : byte ptr ≠ 0 := by
      have h := hchars 0 n.succ_pos
      rwa [add_ofNat_zero] at h
    rw [scan, if_neg hfirst, ih (Nat.lt_of_succ_lt_succ hfuel), hshift]
    · intro i hi
      rw [hshift]
      exact hchars (i + 1) (Nat.succ_lt_succ hi)
    · rw [hshift]
      exact hend

theorem StringAt.getEndOfObject {mem : Memory} {ptr : Word} {n : ℕ} (h : StringAt mem ptr n)
    (hn : ptr.toNat + n < 2 ^ 32) : (getEndOfObject mem ptr).toNat = ptr.toNat + n := by
  rw [Host.getEndOfObject, scan_eq (by omega) h.chars h.terminator, BitVec.toNat_add,
    BitVec.toNat_ofNat, Nat.mod_eq_of_lt (a := n) (by omega), Nat.mod_eq_of_lt hn]

end Embedwatch.Pass
