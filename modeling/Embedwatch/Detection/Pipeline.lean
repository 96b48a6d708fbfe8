import Embedwatch.Host.Extraction
import Embedwatch.Verifier.Receiver

/-! The verifier and the machines that send their traces to it, in any interleaving of their steps.
What the verifier has checked are the records of the machines, as long as each copy shows them all. -/

namespace Embedwatch.Detection

open Library.PlainText
open Library.StreamServer (ClientEvent ServerEvent Event CaughtUp gets)
open Host (Machine MachineEvent Effect Seen tracedLines Printable recordLine slotLines)
open Verifier (Process mainRound verifyHistory mainRound_sentTrace infoLine sentTrace bytes)

structure System where
  machines : ℕ → Machine
  verifier : Process

inductive SystemEvent
  | machine (n : ℕ) (e : MachineEvent)
  | verifier (e : ServerEvent)

def SystemEvent.isGet : SystemEvent → Bool
  | .verifier .get => true
  | _ => false

def rounds (es : List SystemEvent) : ℕ := es.countP SystemEvent.isGet

def act (p : Process) : Option (ClientEvent UInt8) → Option Process
  | some a => p.clientStep a
  | none => some p

namespace System

def start (now : ℕ → Word) (params : ℕ → Ta.Params) (v : Verifier.State) : System :=
  ⟨fun n => .start (now n) (params n), Process.start v⟩

def step (t : System) : SystemEvent → Option System
  | .machine n e => do
    let (m, a) ← (t.machines n).step t.verifier.connections.length e
    let p ← act t.verifier a
    some ⟨Function.update t.machines n m, p⟩
  | .verifier e =>
    (t.verifier.serverStep Process.recvSize mainRound e).map fun p => { t with verifier := p }

def run (t : System) (es : List SystemEvent) : Option System := es.foldlM step t

def Delivered (t : System) (i : ℕ) (rs : List Record) : Prop :=
  ∃ n, (i, rs) ∈ (t.machines n).delivered

structure Sound (now : ℕ → Word) (params : ℕ → Ta.Params) (t : System) : Prop where
  machines : ∀ n, (t.machines n).Sound (now n) (params n) t.verifier.messages
  writing_lt : ∀ n i, (t.machines n).stage.writing = some i → i < t.verifier.messages.length
  distinct : ∀ n n' i, (t.machines n).stage.writing = some i →
    (t.machines n').stage.writing = some i → n = n'
  seen : ∀ n i rs, (i, rs) ∈ (t.machines n).delivered → Seen (now n) (params n) rs
  message : ∀ i rs, t.Delivered i rs → rs.length ≤ 2048 →
    t.verifier.messages[i]? = some (bytes (unlines (tracedLines rs ++ [infoLine])))
  closed : ∀ i rs, t.Delivered i rs →
    i < t.verifier.messages.length ∧ ∀ n, (t.machines n).stage.writing ≠ some i

end System

lemma act_effect {p p' : Process} {a : Option (ClientEvent UInt8)} (h : act p a = some p') :
    Effect p.messages p'.messages a := by
  cases a with
  | none =>
    cases h
    rfl
  | some a =>
    cases a with
    | connect => exact Library.StreamServer.messages_connect h
    | send i d => exact Library.StreamServer.messages_send h
    | close i => exact Library.StreamServer.messages_close h

lemma effect_getElem? {messages messages' : List (List UInt8)} {a : Option (ClientEvent UInt8)}
    (h : Effect messages messages' a) {j : ℕ} (hj : j < messages.length)
    (hne : ∀ d, a ≠ some (.send j d)) : messages'[j]? = messages[j]? := by
  cases a with
  | none =>
    obtain rfl : messages' = messages := h
    rfl
  | some a =>
    cases a with
    | connect =>
      obtain rfl : messages' = messages ++ [[]] := h
      exact List.getElem?_append_left hj
    | send i d =>
      obtain ⟨sent, -, rfl⟩ := h
      have hij : i ≠ j := by
        rintro rfl
        exact hne d rfl
      exact List.getElem?_set_ne hij
    | close i =>
      obtain rfl : messages' = messages := h
      rfl

lemma effect_length {messages messages' : List (List UInt8)} {a : Option (ClientEvent UInt8)}
    (h : Effect messages messages' a) : messages.length ≤ messages'.length := by
  cases a with
  | none =>
    obtain rfl : messages' = messages := h
    rfl
  | some a =>
    cases a with
    | connect =>
      obtain rfl : messages' = messages ++ [[]] := h
      simp
    | send i d =>
      obtain ⟨sent, -, rfl⟩ := h
      simp
    | close i =>
      obtain rfl : messages' = messages := h
      rfl

section Moved

variable {fresh i : ℕ} {m m' : Machine} {a : Option (ClientEvent UInt8)}

lemma moved_send (h : Machine.Moved fresh m m' a) {d : List UInt8} (ha : a = some (.send i d)) :
    m.stage.writing = some i := by
  cases h with
  | quiet b hb _ _ =>
    rcases hb with rfl | ⟨j, rfl⟩ <;> cases ha
  | connect _ _ => cases ha
  | send j d' hi _ _ =>
    cases ha
    exact hi
  | deliver j hstage _ _ _ =>
    cases ha
    rw [hstage]
    rfl

lemma moved_writing (h : Machine.Moved fresh m m' a) (hi : m'.stage.writing = some i) :
    m.stage.writing = some i ∨ i = fresh ∧ a = some .connect := by
  cases h with
  | quiet b _ hw _ =>
    left
    rcases hw with hw | hw
    · rw [hi] at hw
      cases hw
    · exact hw ▸ hi
  | connect hw _ =>
    right
    exact ⟨Option.some.inj (hi.symm.trans hw), rfl⟩
  | send j d _ hw _ =>
    left
    rcases hw with hw | hw
    · rw [hi] at hw
      cases hw
    · exact hw ▸ hi
  | deliver j _ _ hw _ =>
    rw [hi] at hw
    cases hw

lemma moved_delivered (h : Machine.Moved fresh m m' a) : m'.delivered = m.delivered ∨
    ∃ i, m.stage = .sending i [] ∧ m.line ≠ .freed ∧ m'.stage.writing = none ∧
      m'.delivered = m.delivered ++ [(i, m.copied)] ∧
      a = some (.send i (bytes (infoLine ++ ['\n']))) := by
  cases h with
  | quiet b _ _ hd => exact .inl hd
  | connect _ hd => exact .inl hd
  | send j d _ _ hd => exact .inl hd
  | deliver j hstage hline hw hd => exact .inr ⟨j, hstage, hline, hw, hd, rfl⟩

end Moved

namespace System

variable {now : ℕ → Word} {params : ℕ → Ta.Params} {t t' : System} {v : Verifier.State} {n : ℕ}

lemma length_messages (p : Process) : p.messages.length = p.connections.length := List.length_map _

section Machine

variable {e : MachineEvent} {m : Machine} {a : Option (ClientEvent UInt8)} {p : Process}

lemma unwritten_same (hmoved : Machine.Moved t.verifier.messages.length (t.machines n) m a)
    (heff : Effect t.verifier.messages p.messages a) {j : ℕ} (hj : j < t.verifier.messages.length)
    (hne : (t.machines n).stage.writing ≠ some j) :
    p.messages[j]? = t.verifier.messages[j]? := by
  refine effect_getElem? heff hj ?_
  rintro d rfl
  exact hne (moved_send hmoved rfl)

lemma delivered_message {i : ℕ} (hsound : (t.machines n).Sound (now n) (params n) t.verifier.messages)
    (heff : Effect t.verifier.messages p.messages
      (some (.send i (bytes (infoLine ++ ['\n'])))))
    (hstage : (t.machines n).stage = .sending i []) (hline : (t.machines n).line ≠ .freed)
    (hlen : (t.machines n).copied.length ≤ 2048) : p.messages[i]? =
      some (bytes (unlines (tracedLines (t.machines n).copied ++ [infoLine]))) := by
  have hok := hsound.stage
  rw [hstage] at hok
  obtain ⟨done, hdone, hget⟩ := hok.2 hline
  rw [List.append_nil, hsound.traced hlen] at hdone
  rw [Effect.send heff hget, ← hdone, Host.unlines_concat, Host.bytes_append (unlines _)]

section Step

variable (hsound : t.Sound now params)
  (hstep : (t.machines n).step t.verifier.messages.length e = some (m, a))
  (hact : act t.verifier a = some p)

include hstep in
lemma writing_cases {n' i : ℕ}
    (h : (Function.update t.machines n m n').stage.writing = some i) :
    (t.machines n').stage.writing = some i ∨
      n' = n ∧ i = t.verifier.messages.length ∧ a = some .connect := by
  rcases eq_or_ne n' n with rfl | hne
  · rw [Function.update_self] at h
    rcases moved_writing (Machine.step_moved hstep) h with h | h
    · exact .inl h
    · exact .inr ⟨rfl, h⟩
  · rw [Function.update_of_ne hne] at h
    exact .inl h

include hstep in
lemma delivered_cases {n' i : ℕ} {rs : List Record}
    (h : (i, rs) ∈ (Function.update t.machines n m n').delivered) :
    (i, rs) ∈ (t.machines n').delivered ∨
      n' = n ∧ rs = (t.machines n).copied ∧ (t.machines n).stage = .sending i [] ∧
        (t.machines n).line ≠ .freed ∧ m.stage.writing = none ∧
        a = some (.send i (bytes (infoLine ++ ['\n']))) := by
  rcases eq_or_ne n' n with rfl | hne
  · rw [Function.update_self] at h
    rcases moved_delivered (Machine.step_moved hstep) with hd | ⟨j, hstage, hline, hw, hd, ha⟩
    · exact .inl (hd ▸ h)
    · rw [hd, List.mem_append, List.mem_singleton] at h
      rcases h with h | h
      · exact .inl h
      · cases h
        exact .inr ⟨rfl, rfl, hstage, hline, hw, ha⟩
  · rw [Function.update_of_ne hne] at h
    exact .inl h

include hsound hstep hact in
theorem sound_machine : Sound now params ⟨Function.update t.machines n m, p⟩ := by
  have heff := act_effect hact
  have hmoved := Machine.step_moved hstep
  have hlen := effect_length heff
  refine ⟨?_, ?_, ?_, ?_, ?_, ?_⟩
  · intro n'
    rcases eq_or_ne n' n with rfl | hne
    · simp only [Function.update_self]
      exact Machine.step_sound (hsound.machines n') hstep heff
    · simp only [Function.update_of_ne hne]
      refine (hsound.machines n').congr fun i hi => ?_
      apply unwritten_same hmoved heff (hsound.writing_lt n' i hi)
      intro hi'
      exact hne (hsound.distinct n' n i hi hi')
  · intro n' i hi
    rcases writing_cases hstep hi with hi | ⟨-, rfl, rfl⟩
    · exact (hsound.writing_lt n' i hi).trans_le hlen
    · have hconnect : p.messages = t.verifier.messages ++ [[]] := heff
      change _ < p.messages.length
      rw [hconnect, List.length_append, List.length_singleton]
      omega
  · intro n' n'' i hi hi'
    rcases writing_cases hstep hi with hi | ⟨rfl, rfl, -⟩ <;>
      rcases writing_cases hstep hi' with hi' | ⟨hn, hlast, -⟩
    · exact hsound.distinct n' n'' i hi hi'
    · have := hsound.writing_lt n' i hi
      omega
    · have := hsound.writing_lt n'' _ hi'
      omega
    · exact hn.symm
  · intro n' i rs h
    rcases delivered_cases hstep h with h | ⟨rfl, rfl, -⟩
    · exact hsound.seen n' i rs h
    · exact (hsound.machines n').copied
  · rintro i rs ⟨n', h⟩ hrs
    rcases delivered_cases hstep h with h | ⟨rfl, rfl, hstage, hline, -, rfl⟩
    · obtain ⟨hlt, hnone⟩ := hsound.closed i rs ⟨n', h⟩
      exact (unwritten_same hmoved heff hlt (hnone n)).trans (hsound.message i rs ⟨n', h⟩ hrs)
    · exact delivered_message (hsound.machines n') heff hstage hline hrs
  · rintro i rs ⟨n', h⟩
    rcases delivered_cases hstep h with h | ⟨rfl, -, hstage, -, hnone, rfl⟩
    · obtain ⟨hlt, hnone⟩ := hsound.closed i rs ⟨n', h⟩
      refine ⟨hlt.trans_le hlen, fun n'' hi => ?_⟩
      rcases writing_cases hstep hi with hi | ⟨-, hlast, -⟩
      · exact hnone n'' hi
      · omega
    · have hwriting : (t.machines n').stage.writing = some i := by
        rw [hstage]
        rfl
      refine ⟨(hsound.writing_lt n' i hwriting).trans_le hlen, fun n'' hi => ?_⟩
      rcases writing_cases hstep hi with hi' | ⟨-, -, hc⟩
      · obtain rfl := hsound.distinct n' n'' i hwriting hi'
        change (Function.update t.machines n' m n').stage.writing = some i at hi
        rw [Function.update_self, hnone] at hi
        cases hi
      · cases hc

end Step

end Machine

lemma start_sound : (start now params v).Sound now params where
  machines _ := Machine.start_sound
  writing_lt n i h := by cases h
  distinct n n' i h := by cases h
  seen n i rs h := by cases h
  message := by
    rintro i rs ⟨n, h⟩
    cases h
  closed := by
    rintro i rs ⟨n, h⟩
    cases h

theorem step_sound {e : SystemEvent} (hstep : t.step e = some t') (hsound : t.Sound now params) :
    t'.Sound now params := by
  cases e with
  | machine n e =>
    simp only [step, Option.bind_eq_bind, Option.bind_eq_some_iff] at hstep
    obtain ⟨⟨m, a⟩, hm, p, hp, h⟩ := hstep
    cases h
    rw [← length_messages] at hm
    exact sound_machine hsound hm hp
  | verifier e =>
    obtain ⟨p, hp, rfl⟩ := Option.map_eq_some_iff.mp hstep
    have hsame : p.messages = t.verifier.messages := Library.StreamServer.messages_serverStep hp
    refine ⟨?_, ?_, hsound.distinct, hsound.seen, ?_, ?_⟩
    · intro n
      change (t.machines n).Sound (now n) (params n) p.messages
      rw [hsame]
      exact hsound.machines n
    · intro n i hi
      change i < p.messages.length
      rw [hsame]
      exact hsound.writing_lt n i hi
    · intro i rs h hrs
      change p.messages[i]? = _
      rw [hsame]
      exact hsound.message i rs h hrs
    · intro i rs h
      change i < p.messages.length ∧ _
      rw [hsame]
      exact hsound.closed i rs h

theorem run_sound {es : List SystemEvent} (h : (start now params v).run es = some t) :
    t.Sound now params :=
  Library.Runs.foldlM_invariant (Sound now params) (fun _ _ _ _ hs hstep => step_sound hstep hs)
    start_sound h

lemma run_singleton (p : Process) (e : Event UInt8) :
    p.run [e] = Library.StreamServer.State.step Process.recvSize mainRound p e := by
  simp [Process.run, Library.StreamServer.State.run]

lemma verifier_step {e : SystemEvent} (hstep : t.step e = some t') :
    ∃ es, t.verifier.run es = some t'.verifier ∧ gets es = if e.isGet then 1 else 0 := by
  cases e with
  | machine n e =>
    simp only [step, Option.bind_eq_bind, Option.bind_eq_some_iff] at hstep
    obtain ⟨⟨m, a⟩, -, p, hp, h⟩ := hstep
    cases h
    cases a with
    | none =>
      cases hp
      exact ⟨[], rfl, rfl⟩
    | some a => exact ⟨[.client a], (run_singleton _ _).trans hp, rfl⟩
  | verifier e =>
    obtain ⟨p, hp, rfl⟩ := Option.map_eq_some_iff.mp hstep
    refine ⟨[.server e], (run_singleton _ _).trans hp, ?_⟩
    cases e <;> rfl

theorem verifier_run {es : List SystemEvent} (h : t.run es = some t') :
    ∃ es', t.verifier.run es' = some t'.verifier ∧ gets es' = rounds es := by
  induction es generalizing t with
  | nil =>
    cases h
    exact ⟨[], rfl, rfl⟩
  | cons e es ih =>
    rw [run, List.foldlM_cons] at h
    obtain ⟨next, hnext, h⟩ := Option.bind_eq_some_iff.mp h
    obtain ⟨es₁, h₁, hg₁⟩ := verifier_step hnext
    obtain ⟨es₂, h₂, hg₂⟩ := ih h
    refine ⟨es₁ ++ es₂, ?_, ?_⟩
    · rw [Process.run, Library.StreamServer.State.run] at h₁ h₂ ⊢
      rw [List.foldlM_append, h₁]
      exact h₂
    · rw [gets] at hg₁ hg₂
      rw [gets, List.countP_append, hg₁, hg₂, rounds, rounds, List.countP_cons]
      omega

end System

def Shown (rs : List Record) : Prop := rs.length ≤ 1024 ∧ ∀ r ∈ rs, Printable r

instance (rs : List Record) : Decidable (Shown rs) := inferInstanceAs (Decidable (_ ∧ _))

lemma tracedLines_of_shown {rs : List Record} (h : Shown rs) :
    tracedLines rs = rs.map recordLine := by
  rw [tracedLines, List.take_of_length_le h.1, List.map_eq_flatMap]
  exact List.flatMap_congr fun r hr => (Host.slotLines_put_iff r).mpr (h.2 r hr)

def oneDefinition : List SystemEvent :=
  [.machine 0 (.command 0 4 Ta.valueInout ⟨1, 100, ⟨0, fun _ => 0⟩⟩), .machine 0 (.wake 0),
    .machine 0 (.writeFile true), .machine 0 (.openSocket true), .verifier .accept,
    .machine 0 (.openFile true), .machine 0 .getline, .verifier (.recv 20), .machine 0 .endOfFile,
    .verifier (.recv 8), .machine 0 .closeSocket, .verifier .eof, .verifier .get]

lemma run_verifier {t : System} {es : List ServerEvent} {p : Process}
    (h : t.verifier.run (es.map .server) = some p) :
    t.run (es.map .verifier) = some { t with verifier := p } := by
  induction es generalizing t with
  | nil =>
    cases h
    rfl
  | cons e es ih =>
    rw [Process.run, Library.StreamServer.State.run, List.map_cons, List.foldlM_cons] at h
    obtain ⟨next, hnext, h⟩ := Option.bind_eq_some_iff.mp h
    have hstep : t.step (.verifier e) = some { t with verifier := next } :=
      Option.map_eq_some_iff.mpr ⟨next, hnext, rfl⟩
    rw [System.run, List.map_cons, List.foldlM_cons, hstep]
    exact @ih { t with verifier := next } h

def oneSent : List SystemEvent :=
  [.command 0 4 Ta.valueInout ⟨1, 100, ⟨0, fun _ => 0⟩⟩, .wake 0, .writeFile true, .openSocket true,
    .openFile true, .getline, .endOfFile, .closeSocket].map (.machine 0)

end Embedwatch.Detection
