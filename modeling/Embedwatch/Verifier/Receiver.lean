import Embedwatch.Library.StreamServer
import Embedwatch.Verifier.VerifyInput

/-! The two threads of the verifier. `trace_receiver` takes one connection after the other and puts
what it has read of each on `data_queue`; `main` takes it from there, decodes it and verifies it. The
receiver ends at an exception of a socket, the main loop at one of `decode` or `verify_input`; the
other thread goes on. -/

namespace Embedwatch.Verifier

open Library.PlainText
open Library.StreamServer (Event gets delivered failed_run)
open Host (recordLine)

/-- The characters that the host has printed, as the bytes of a `char *`. -/
def bytes (t : Text) : List UInt8 := t.map fun c => UInt8.ofNat c.toNat

/-- `bytes.decode()`; `none` for bytes that are not UTF-8. -/
def decode (data : List UInt8) : Option Text := data.toByteArray.utf8Decode?.map Array.toList

/-- The globals that `verify_input` changes, and the results of the checks that it has made, trace by
trace. -/
structure Verified where
  state : State
  results : List (List (Option Bool))

/-- One round of the loop of `main`. -/
def mainRound (v : Verified) (data : List UInt8) : Option Verified := do
  let trace ← decode data
  let (state, violations) ← v.state.verifyInput trace
  some ⟨state, v.results ++ [violations]⟩

lemma not_mem_recordLine {c : Char} (h : 128 ≤ c.toNat) (r : Record) : c ∉ recordLine r := by
  have hdigit : digitValue c = none := by
    simp only [digitValue]
    split
    · omega
    · split
      · omega
      · split
        · omega
        · rfl
  have hminus : c ≠ '-' := by
    rintro rfl
    exact absurd h (by decide)
  have htag : ∀ t ∈ [defType, ddefType, useType, iuseType,
      Host.bar], c ∉ t := by
    intro t ht hc
    have hall : ([defType, ddefType, useType, iuseType, Host.bar].all fun t =>
        t.all fun c => c.toNat < 128) = true := by decide
    have hascii := List.all_eq_true.mp (List.all_eq_true.mp hall t ht) c hc
    rw [decide_eq_true_eq] at hascii
    omega
  have hu := fun w => (word05u_spec w).2.2 c hdigit
  have hx := fun w => (word08x_spec w).2.2 c hdigit
  have hd := fun w => (word05d_spec w).2.2 c hdigit hminus
  rw [recordLine_eq]
  apply not_mem_intercalate (htag _ (by simp))
  intro f hf
  cases r with
  | defRec id addr =>
    simp only [recordFields, List.mem_cons, List.not_mem_nil, or_false] at hf
    rcases hf with rfl | rfl | rfl
    · exact htag _ (by simp)
    · exact hu id
    · exact hx addr
  | ddefRec id addr size =>
    simp only [recordFields, List.mem_cons, List.not_mem_nil, or_false] at hf
    rcases hf with rfl | rfl | rfl | rfl
    · exact htag _ (by simp)
    · exact hu id
    · exact hx addr
    · exact hu size
  | useRec id addr =>
    simp only [recordFields, List.mem_cons, List.not_mem_nil, or_false] at hf
    rcases hf with rfl | rfl | rfl
    · exact htag _ (by simp)
    · exact hu id
    · exact hx addr
  | iuseRec use defn addr =>
    simp only [recordFields, List.mem_cons, List.not_mem_nil, or_false] at hf
    rcases hf with rfl | rfl | rfl | rfl
    · exact htag _ (by simp)
    · exact hd defn
    · exact hd use
    · exact hx addr

lemma decode_bytes {t : Text} (h : ∀ c ∈ t, c.toNat < 128) : decode (bytes t) = some t := by
  have hbytes : bytes t = t.flatMap String.utf8EncodeChar := by
    rw [bytes, List.map_eq_flatMap]
    refine List.flatMap_congr fun c hc => ?_
    have hle : c.val.toNat ≤ 0x7f := Nat.le_of_lt_succ (h c hc)
    simp only [String.utf8EncodeChar, hle, if_true]
    rfl
  have hutf8 : (bytes t).toByteArray = t.utf8Encode := by rw [hbytes, List.utf8Encode]
  rw [decode, hutf8, List.utf8Decode?_utf8Encode]
  rfl

lemma decode_sentTrace (rs : List Record) : decode (bytes (sentTrace rs)) = some (sentTrace rs) := by
  refine decode_bytes fun c hc => ?_
  by_contra hge
  have hinfo : (infoLine.all fun c => c.toNat < 128) = true := by decide
  have hnl : ('\n').toNat < 128 := by decide
  obtain ⟨l, hl, hc⟩ := List.mem_flatMap.mp hc
  rcases List.mem_append.mp hc with hc | hc
  · rcases List.mem_append.mp hl with hl | hl
    · obtain ⟨r, -, rfl⟩ := List.mem_map.mp hl
      exact not_mem_recordLine (by omega) r hc
    · rw [List.mem_singleton.mp hl] at hc
      exact hge (of_decide_eq_true (List.all_eq_true.mp hinfo c hc))
  · rw [List.mem_singleton.mp hc] at hge
    exact hge hnl

def verifyHistory (v : Verified) (rs : List Record) : Option Verified := do
  let (state, violations) ← v.state.verifyRecords rs
  some ⟨state, v.results ++ [violations ++ [none]]⟩

lemma mainRound_sentTrace (v : Verified) (rs : List Record) :
    mainRound v (bytes (sentTrace rs)) = verifyHistory v rs := by
  rw [mainRound, decode_sentTrace, verifyHistory]
  simp only [Option.bind_eq_bind, Option.bind_some, verifyInput_sentTrace]
  cases v.state.verifyRecords rs <;> rfl

abbrev Process := Library.StreamServer.State UInt8 Verified

namespace Process

/-- `conn.recv(1024)`. -/
def recvSize : ℕ := 1024

/-- After `trace_parser`. -/
def start (v : State) : Process := Library.StreamServer.State.start ⟨v, []⟩

def run (p : Process) (es : List (Event UInt8)) : Option Process :=
  Library.StreamServer.State.run recvSize mainRound p es

variable {v : State} {p p' : Process} {es : List (Event UInt8)}

theorem verified_in_order (h : (start v).run es = some p) :
    gets es ≤ p.finished ∧
    p.consumer = (p.messages.take (gets es)).foldlM mainRound ⟨v, []⟩ ∧
    p.queue = (p.messages.take p.finished).drop (gets es) ∧
    (∀ j < gets es, ((p.messages.take j).foldlM mainRound ⟨v, []⟩).isSome) ∧
    ∀ i < p.finished, ∃ c, p.connections[i]? = some c ∧ c.closed ∧ c.pending = [] := by
  obtain ⟨hp, hk⟩ := delivered h
  refine ⟨hk.le, hk.consumer, hk.queue, hk.running, ?_⟩
  intro i hi
  have hlt : i < p.connections.length := hi.trans_le hp.le
  have hc := List.getElem?_eq_getElem hlt
  exact ⟨_, hc, hp.finished i _ hc hi⟩

def unknownUse : List (Event UInt8) :=
  [.client .connect, .client (.send 0 (bytes (sentTrace [.useRec 1 1]))), .client (.close 0),
    .server .accept, .server (.recv 28), .server .eof, .server .get]

end Process

end Embedwatch.Verifier
