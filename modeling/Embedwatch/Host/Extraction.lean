import Embedwatch.Verifier.Receiver

/-! The loop of `z_extractor` beside the program that has forked it: each round copies the trace,
writes it to `trace.txt` and sends that file on a connection of its own. Opening a file or a socket
may fail, the process may be killed at any time. -/

namespace Embedwatch.Host

open Library.PlainText
open Library.StreamServer (ClientEvent)
open Verifier (infoLine bytes)

/-- The global `line` of `send_trace_to_verifier`: `getline` allocates it, and nothing resets it after
`free(line)`. -/
inductive LineBuffer
  | null | allocated | freed
  deriving DecidableEq

inductive Stage
  | asleep
  | copied
  | written
  | connected (i : ℕ)
  | sending (i : ℕ) (rest : List Text)
  | sent (i : ℕ)
  | exited

/-- The program and its extractor. `copied` and `delivered` are history variables: what was recorded
when the trace was last copied, and the connections on which such a trace was sent to its end. -/
structure Machine where
  session : Session
  running : Bool
  last : Bool
  file : List Text
  line : LineBuffer
  stage : Stage
  copied : List Record
  delivered : List (ℕ × List Record)

inductive MachineEvent
  | command (now cmdId paramTypes : Word) (params : Ta.Params)
  | exitProgram
  | wake (now : Word)
  | writeFile (opened : Bool)
  | openSocket (connected : Bool)
  | openFile (opened : Bool)
  | getline
  | endOfFile
  | closeSocket
  /-- What comes of a `getline` into freed memory: any bytes are sent, the loop ends or goes on. -/
  | staleGetline (d : List UInt8) (ended : Bool)
  | kill

def Stage.writing : Stage → Option ℕ
  | .connected i | .sending i _ => some i
  | .asleep | .copied | .written | .sent _ | .exited => none

def Stage.connection : Stage → Option ℕ
  | .connected i | .sending i _ | .sent i => some i
  | .asleep | .copied | .written | .exited => none

namespace Machine

def start (now : Word) (params : Ta.Params) : Machine :=
  ⟨Session.start now params, true, false, [], .null, .asleep, [], []⟩

/-- `getppid` has found another parent: this round was the last one. -/
def next (m : Machine) : Stage := if m.last then .exited else .asleep

def step (fresh : ℕ) (m : Machine) : MachineEvent → Option (Machine × Option (ClientEvent UInt8))
  | .command now cmdId paramTypes params =>
    if m.running then
      (m.session.step (.command now cmdId paramTypes params)).map fun s =>
        ({ m with session := s }, none)
    else none
  | .exitProgram => if m.running then some ({ m with running := false }, none) else none
  | .wake now =>
    match m.stage with
    | .asleep => (m.session.step (.gotvalue now)).map fun s =>
      ({ m with
        session := s
        last := !m.running
        stage := .copied
        copied := m.session.ta.history }, none)
    | _ => none
  | .writeFile opened =>
    match m.stage with
    | .copied =>
      if opened then some ({ m with file := m.session.extracted, stage := .written }, none)
      else some ({ m with stage := m.next }, none)
    | _ => none
  | .openSocket connected =>
    match m.stage with
    | .written =>
      if connected then some ({ m with stage := .connected fresh }, some .connect)
      else some ({ m with stage := .exited }, none)
    | _ => none
  | .openFile opened =>
    match m.stage with
    | .connected i =>
      if opened then some ({ m with stage := .sending i m.file }, none)
      else some ({ m with stage := .sent i }, none)
    | _ => none
  | .getline =>
    match m.stage with
    | .sending i (l :: rest) =>
      if m.line = .freed then none
      else some ({ m with line := .allocated, stage := .sending i rest },
        some (.send i (bytes (l ++ ['\n']))))
    | _ => none
  | .endOfFile =>
    match m.stage with
    | .sending i [] =>
      if m.line = .freed then none
      else some
        ({ m with
          line := .freed
          stage := .sent i
          delivered := m.delivered ++ [(i, m.copied)] },
        some (.send i (bytes (infoLine ++ ['\n']))))
    | _ => none
  | .closeSocket =>
    match m.stage with
    | .sent i => some ({ m with stage := m.next }, some (.close i))
    | _ => none
  | .staleGetline d ended =>
    match m.stage with
    | .sending i rest =>
      if m.line = .freed then
        some ({ m with stage := if ended then .sent i else .sending i rest }, some (.send i d))
      else none
    | _ => none
  | .kill => some ({ m with stage := .exited }, m.stage.connection.map .close)

end Machine

def tracedLines (rs : List Record) : List Text :=
  (rs.take 1024).flatMap fun r => slotLines (Ta.put r .zero)

def Effect (messages messages' : List (List UInt8)) : Option (ClientEvent UInt8) → Prop
  | some .connect => messages' = messages ++ [[]]
  | some (.send i d) => ∃ sent, messages[i]? = some sent ∧ messages' = messages.set i (sent ++ d)
  | some (.close _) | none => messages' = messages

lemma bytes_append (t t' : Text) : bytes (t ++ t') = bytes t ++ bytes t' := List.map_append

lemma unlines_concat (ls : List Text) (l : Text) : unlines (ls ++ [l]) = unlines ls ++ (l ++ ['\n']) := by
  rw [unlines, List.flatMap_append, List.flatMap_singleton]
  rfl

lemma Effect.send {messages messages' : List (List UInt8)} {i : ℕ} {d sent : List UInt8}
    (h : Effect messages messages' (some (.send i d))) (hsent : messages[i]? = some sent) : messages'[i]? = some (sent ++ d) := by
  obtain ⟨sent', hsent', rfl⟩ := h
  obtain rfl := Option.some.inj (hsent.symm.trans hsent')
  exact List.getElem?_set_self (List.getElem?_eq_some_iff.mp hsent).1

def Machine.StageOk (messages : List (List UInt8)) (m : Machine) : Stage → Prop
  | .written => m.file = m.session.extracted
  | .connected i => m.file = m.session.extracted ∧ messages[i]? = some []
  | .sending i rest => i < messages.length ∧ (m.line ≠ .freed → ∃ done,
      m.session.extracted = done ++ rest ∧ messages[i]? = some (bytes (unlines done)))
  | .asleep | .copied | .sent _ | .exited => True

def Seen (now : Word) (params : Ta.Params) (rs : List Record) : Prop :=
  ∃ reqs s, (Session.start now params).run reqs = some s ∧ s.ta.history = rs

structure Machine.Sound (now : Word) (params : Ta.Params) (messages : List (List UInt8))
    (m : Machine) : Prop where
  session : ∃ reqs, (Session.start now params).run reqs = some m.session
  copied : Seen now params m.copied
  traced : m.copied.length ≤ 2048 → m.session.extracted = tracedLines m.copied
  stage : m.StageOk messages m.stage

namespace Machine

variable {now : Word} {params : Ta.Params} {messages messages' : List (List UInt8)} {m m' : Machine}

lemma Sound.invariant (h : m.Sound now params messages) :
    Ta.Recorded m.session.ta ∧ m.session.Fresh := by
  obtain ⟨reqs, hrun⟩ := h.session
  obtain ⟨hr, hf⟩ := start_invariant now params
  exact run_invariant hrun hr hf

lemma run_concat {reqs : List Request} {req : Request} {s s' : Session}
    (h : (Session.start now params).run reqs = some s) (hstep : s.step req = some s') :
    (Session.start now params).run (reqs ++ [req]) = some s' := by
  rw [Session.run] at h ⊢
  rw [List.foldlM_append, h]
  simpa using hstep

lemma start_sound : (start now params).Sound now params messages where
  session := ⟨[], rfl⟩
  copied := ⟨[], _, rfl, rfl⟩
  traced _ := by
    refine List.flatMap_eq_nil_iff.mpr ?_
    intro i _
    exact slotLines_zero
  stage := trivial

lemma Sound.congr (h : m.Sound now params messages)
    (hsame : ∀ i, m.stage.writing = some i → messages'[i]? = messages[i]?) :
    m.Sound now params messages' := by
  refine ⟨h.session, h.copied, h.traced, ?_⟩
  have hstage := h.stage
  cases hs : m.stage with
  | written =>
    rw [hs] at hstage
    exact hstage
  | connected i =>
    rw [hs] at hstage hsame
    exact ⟨hstage.1, by rw [hsame i rfl, hstage.2]⟩
  | sending i rest =>
    rw [hs] at hstage hsame
    obtain ⟨hlt, hdone⟩ := hstage
    have hi := hsame i rfl
    refine ⟨?_, ?_⟩
    · rw [List.getElem?_eq_getElem hlt] at hi
      exact (List.getElem?_eq_some_iff.mp hi).1
    · intro hline
      obtain ⟨done, hfile, hget⟩ := hdone hline
      exact ⟨done, hfile, by rw [hi, hget]⟩
  | asleep | copied | sent | exited => trivial

variable {e : MachineEvent} {a : Option (ClientEvent UInt8)}

theorem step_sound (h : m.Sound now params messages)
    (hstep : m.step messages.length e = some (m', a)) (heff : Effect messages messages' a) :
    m'.Sound now params messages' := by
  have hstage := h.stage
  cases e with
  | command now' cmdId paramTypes p =>
    simp only [step] at hstep
    split at hstep
    · obtain ⟨s, hs, heq⟩ := Option.map_eq_some_iff.mp hstep
      cases heq
      obtain ⟨reqs, hrun⟩ := h.session
      have hbuffer : s.buffer = m.session.buffer := by
        simp only [Session.step, Option.map_eq_some_iff] at hs
        obtain ⟨reply, -, rfl⟩ := hs
        rfl
      have hextracted : s.extracted = m.session.extracted := by
        rw [Session.extracted, hbuffer]
        rfl
      obtain rfl : messages' = messages := heff
      refine ⟨⟨_, run_concat hrun hs⟩, h.copied, ?_, ?_⟩
      · intro hn
        exact hextracted.trans (h.traced hn)
      · simp only [StageOk, hextracted] at hstage ⊢
        exact hstage
    · cases hstep
  | exitProgram =>
    simp only [step] at hstep
    split at hstep
    · cases hstep
      obtain rfl : messages' = messages := heff
      exact ⟨h.session, h.copied, h.traced, hstage⟩
    · cases hstep
  | wake now' =>
    simp only [step] at hstep
    split at hstep
    · obtain ⟨s, hs, heq⟩ := Option.map_eq_some_iff.mp hstep
      cases heq
      obtain rfl : messages' = messages := heff
      obtain ⟨hr, hf⟩ := h.invariant
      obtain ⟨reqs, hrun⟩ := h.session
      refine ⟨⟨_, run_concat hrun hs⟩, ⟨reqs, _, hrun, rfl⟩, ?_, trivial⟩
      intro hn
      dsimp only at hn ⊢
      exact extracted_gotvalue hs hr hf hn
    · cases hstep
  | writeFile opened =>
    simp only [step] at hstep
    split at hstep
    · split at hstep
      · cases hstep
        refine ⟨h.session, h.copied, h.traced, ?_⟩
        simp only [StageOk]
      · cases hstep
        refine ⟨h.session, h.copied, h.traced, ?_⟩
        rw [next]
        split <;> trivial
    · cases hstep
  | openSocket connected =>
    simp only [step] at hstep
    split at hstep
    · rename_i hs
      rw [hs] at hstage
      split at hstep
      · cases hstep
        obtain rfl : messages' = messages ++ [[]] := heff
        refine ⟨h.session, h.copied, h.traced, hstage, ?_⟩
        simp
      · cases hstep
        exact ⟨h.session, h.copied, h.traced, trivial⟩
    · cases hstep
  | openFile opened =>
    simp only [step] at hstep
    split at hstep
    · rename_i i hs
      rw [hs] at hstage
      obtain ⟨hfile, hget⟩ := hstage
      split at hstep
      · cases hstep
        obtain rfl : messages' = messages := heff
        refine ⟨h.session, h.copied, h.traced, (List.getElem?_eq_some_iff.mp hget).1, ?_⟩
        intro _
        exact ⟨[], hfile.symm, hget⟩
      · cases hstep
        exact ⟨h.session, h.copied, h.traced, trivial⟩
    · cases hstep
  | getline =>
    simp only [step] at hstep
    split at hstep
    · rename_i i l rest hs
      rw [hs] at hstage
      split at hstep
      · cases hstep
      · rename_i hline
        cases hstep
        obtain ⟨done, hfile, hget⟩ := hstage.2 hline
        have hget' := Effect.send heff hget
        refine ⟨h.session, h.copied, h.traced, (List.getElem?_eq_some_iff.mp hget').1, ?_⟩
        intro _
        refine ⟨done ++ [l], by simpa using hfile, ?_⟩
        rw [hget', unlines_concat, bytes_append (unlines done)]
    · cases hstep
  | endOfFile =>
    simp only [step] at hstep
    split at hstep
    · split at hstep
      · cases hstep
      · cases hstep
        exact ⟨h.session, h.copied, h.traced, trivial⟩
    · cases hstep
  | closeSocket =>
    simp only [step] at hstep
    split at hstep
    · cases hstep
      refine ⟨h.session, h.copied, h.traced, ?_⟩
      rw [next]
      split <;> trivial
    · cases hstep
  | staleGetline d ended =>
    simp only [step] at hstep
    split at hstep
    · rename_i i rest hs
      rw [hs] at hstage
      split at hstep
      · rename_i hline
        cases hstep
        refine ⟨h.session, h.copied, h.traced, ?_⟩
        split
        · trivial
        · obtain ⟨sent, hsent, rfl⟩ := heff
          refine ⟨by simpa using hstage.1, fun hne => absurd hline hne⟩
      · cases hstep
    · cases hstep
  | kill =>
    cases hstep
    exact ⟨h.session, h.copied, h.traced, trivial⟩

inductive Moved (fresh : ℕ) (m m' : Machine) : Option (ClientEvent UInt8) → Prop
  | quiet (b : Option (ClientEvent UInt8)) (hb : b = none ∨ ∃ i, b = some (.close i))
      (hwriting : m'.stage.writing = none ∨ m'.stage.writing = m.stage.writing)
      (hdelivered : m'.delivered = m.delivered) : Moved fresh m m' b
  | connect (hwriting : m'.stage.writing = some fresh) (hdelivered : m'.delivered = m.delivered) :
      Moved fresh m m' (some .connect)
  | send (i : ℕ) (d : List UInt8) (hi : m.stage.writing = some i)
      (hwriting : m'.stage.writing = none ∨ m'.stage.writing = m.stage.writing)
      (hdelivered : m'.delivered = m.delivered) : Moved fresh m m' (some (.send i d))
  | deliver (i : ℕ) (hstage : m.stage = .sending i []) (hline : m.line ≠ .freed)
      (hwriting : m'.stage.writing = none)
      (hdelivered : m'.delivered = m.delivered ++ [(i, m.copied)]) :
      Moved fresh m m' (some (.send i (bytes (infoLine ++ ['\n']))))

lemma next_writing (m : Machine) : m.next.writing = none := by
  rw [next]
  split <;> rfl

theorem step_moved {fresh : ℕ} (hstep : m.step fresh e = some (m', a)) : Moved fresh m m' a := by
  cases e with
  | command now cmdId paramTypes p =>
    simp only [step] at hstep
    split at hstep
    · obtain ⟨s, -, heq⟩ := Option.map_eq_some_iff.mp hstep
      cases heq
      exact .quiet _ (.inl rfl) (.inr rfl) rfl
    · cases hstep
  | exitProgram =>
    simp only [step] at hstep
    split at hstep
    · cases hstep
      exact .quiet _ (.inl rfl) (.inr rfl) rfl
    · cases hstep
  | wake now =>
    simp only [step] at hstep
    split at hstep
    · obtain ⟨s, -, heq⟩ := Option.map_eq_some_iff.mp hstep
      cases heq
      exact .quiet _ (.inl rfl) (.inl rfl) rfl
    · cases hstep
  | writeFile opened =>
    simp only [step] at hstep
    split at hstep
    · split at hstep
      · cases hstep
        exact .quiet _ (.inl rfl) (.inl rfl) rfl
      · cases hstep
        exact .quiet _ (.inl rfl) (.inl (next_writing m)) rfl
    · cases hstep
  | openSocket connected =>
    simp only [step] at hstep
    split at hstep
    · split at hstep
      · cases hstep
        exact .connect rfl rfl
      · cases hstep
        exact .quiet _ (.inl rfl) (.inl rfl) rfl
    · cases hstep
  | openFile opened =>
    simp only [step] at hstep
    split at hstep
    · rename_i hs
      split at hstep
      · cases hstep
        refine .quiet _ (.inl rfl) (.inr ?_) rfl
        rw [hs]
        rfl
      · cases hstep
        exact .quiet _ (.inl rfl) (.inl rfl) rfl
    · cases hstep
  | getline =>
    simp only [step] at hstep
    split at hstep
    · rename_i hs
      split at hstep
      · cases hstep
      · cases hstep
        refine .send _ _ ?_ (.inr ?_) rfl <;> rw [hs] <;> rfl
    · cases hstep
  | endOfFile =>
    simp only [step] at hstep
    split at hstep
    · rename_i hs
      split at hstep
      · cases hstep
      · rename_i hline
        cases hstep
        exact .deliver _ hs hline rfl rfl
    · cases hstep
  | closeSocket =>
    simp only [step] at hstep
    split at hstep
    · cases hstep
      exact .quiet _ (.inr ⟨_, rfl⟩) (.inl (next_writing m)) rfl
    · cases hstep
  | staleGetline d ended =>
    simp only [step] at hstep
    split at hstep
    · rename_i hs
      split at hstep
      · cases hstep
        refine .send _ _ (by rw [hs]; rfl) ?_ rfl
        cases ended with
        | true => exact .inl rfl
        | false =>
          right
          rw [hs]
          rfl
      · cases hstep
    · cases hstep
  | kill =>
    cases hstep
    refine .quiet _ ?_ (.inl rfl) rfl
    cases hc : m.stage.connection with
    | none => exact .inl rfl
    | some i => exact .inr ⟨i, rfl⟩

end Machine

end Embedwatch.Host
