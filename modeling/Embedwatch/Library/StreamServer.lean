import Embedwatch.Library.Runs
import Mathlib.Algebra.Order.Group.Nat
import Mathlib.Data.List.TakeDrop
import Mathlib.Tactic.Ring

/-! A server of byte streams. Clients open connections, send on them and close them; a receiver takes
the connections in their order, reads each of them in chunks up to its end, and puts what it has
read on a queue; a consumer takes it from there and may fail. However these steps interleave,
nothing is lost, added or reordered. -/

namespace Embedwatch.Library.StreamServer

universe u

structure Connection (α : Type u) where
  sent : List α
  pending : List α
  closed : Bool

structure State (α σ : Type u) where
  connections : List (Connection α)
  /-- The connections that have been read to their end. -/
  finished : ℕ
  /-- What has been read of the next one, after it was accepted. -/
  reading : Option (List α)
  listening : Bool
  queue : List (List α)
  consumer : Option σ

inductive ClientEvent (α : Type u)
  | connect
  | send (i : ℕ) (d : List α)
  | close (i : ℕ)

inductive ServerEvent
  | accept
  | recv (n : ℕ)
  | eof
  | get
  | fail
  deriving DecidableEq

inductive Event (α : Type u)
  | client (e : ClientEvent α)
  | server (e : ServerEvent)

variable {α σ : Type u}

def Event.isGet : Event α → Bool
  | .server .get => true
  | _ => false

def gets (es : List (Event α)) : ℕ := es.countP Event.isGet

namespace State

def start (v : σ) : State α σ := ⟨[], 0, none, true, [], some v⟩

def clientStep (s : State α σ) : ClientEvent α → Option (State α σ)
  | .connect =>
    if s.listening then some { s with connections := s.connections ++ [⟨[], [], false⟩] } else none
  | .send i d =>
    match s.connections[i]? with
    | some ⟨sent, pending, false⟩ =>
      some { s with connections := s.connections.set i ⟨sent ++ d, pending ++ d, false⟩ }
    | _ => none
  | .close i =>
    match s.connections[i]? with
    | some ⟨sent, pending, false⟩ =>
      some { s with connections := s.connections.set i ⟨sent, pending, true⟩ }
    | _ => none

variable (chunk : ℕ) (consume : σ → List α → Option σ)

def serverStep (s : State α σ) : ServerEvent → Option (State α σ)
  | .accept =>
    if s.listening ∧ s.reading.isNone ∧ s.finished < s.connections.length then
      some { s with reading := some [] }
    else none
  | .recv n =>
    match s.reading, s.connections[s.finished]? with
    | some data, some ⟨sent, pending, closed⟩ =>
      if s.listening ∧ 0 < n ∧ n ≤ chunk ∧ n ≤ pending.length then
        some { s with
          connections := s.connections.set s.finished ⟨sent, pending.drop n, closed⟩
          reading := some (data ++ pending.take n) }
      else none
    | _, _ => none
  | .eof =>
    match s.reading, s.connections[s.finished]? with
    | some data, some ⟨_, [], true⟩ =>
      if s.listening then
        some { s with
          finished := s.finished + 1
          reading := none
          queue := s.queue ++ [data] }
      else none
    | _, _ => none
  | .get =>
    match s.consumer, s.queue with
    | some v, d :: queue => some { s with queue := queue, consumer := consume v d }
    | _, _ => none
  | .fail => if s.listening then some { s with listening := false } else none

def step (s : State α σ) : Event α → Option (State α σ)
  | .client e => s.clientStep e
  | .server e => s.serverStep chunk consume e

def run (s : State α σ) (es : List (Event α)) : Option (State α σ) :=
  es.foldlM (step chunk consume) s

def messages (s : State α σ) : List (List α) := s.connections.map Connection.sent

end State

open State

structure Consumed (consume : σ → List α → Option σ) (v : σ) (s : State α σ) (k : ℕ) : Prop where
  le : k ≤ s.finished
  queue : s.queue = (s.messages.take s.finished).drop k
  consumer : s.consumer = (s.messages.take k).foldlM consume v
  running : ∀ j < k, ((s.messages.take j).foldlM consume v).isSome

structure Invariant (s : State α σ) : Prop where
  le : s.finished ≤ s.connections.length
  reading : s.reading.isSome → s.finished < s.connections.length
  finished : ∀ i c, s.connections[i]? = some c → i < s.finished → c.closed ∧ c.pending = []
  current : ∀ c, s.connections[s.finished]? = some c → s.reading.getD [] ++ c.pending = c.sent
  waiting : ∀ i c, s.connections[i]? = some c → s.finished < i → c.pending = c.sent

lemma start_invariant (v : σ) : Invariant (start v : State α σ) where
  le := le_rfl
  reading h := by simp [start] at h
  finished i c h := by simp [start] at h
  current c h := by simp [start] at h
  waiting i c h := by simp [start] at h

lemma start_consumed (consume : σ → List α → Option σ) (v : σ) :
    Consumed consume v (start v) 0 where
  le := le_rfl
  queue := rfl
  consumer := rfl
  running j hj := absurd hj (Nat.not_lt_zero j)

section Steps

variable {chunk : ℕ} {consume : σ → List α → Option σ} {v₀ : σ} {s s' : State α σ} {k : ℕ}

lemma clientStep_cases {e : ClientEvent α} (h : s.clientStep e = some s') :
    s' = { s with connections := s.connections ++ [⟨[], [], false⟩] } ∨
    ∃ i sent pending d closed, s.connections[i]? = some ⟨sent, pending, false⟩ ∧
      s' = { s with connections := s.connections.set i ⟨sent ++ d, pending ++ d, closed⟩ } := by
  cases e with
  | connect =>
    left
    simp only [clientStep] at h
    split at h
    · exact (Option.some.inj h).symm
    · cases h
  | send i d =>
    right
    simp only [clientStep] at h
    split at h
    · rename_i sent pending hc
      exact ⟨i, sent, pending, d, false, hc, (Option.some.inj h).symm⟩
    · cases h
  | close i =>
    right
    simp only [clientStep] at h
    split at h
    · rename_i sent pending hc
      refine ⟨i, sent, pending, [], true, hc, ?_⟩
      rw [List.append_nil, List.append_nil]
      exact (Option.some.inj h).symm
    · cases h

lemma accept_eq (h : s.serverStep chunk consume .accept = some s') :
    s.reading = none ∧ s.finished < s.connections.length ∧ s' = { s with reading := some [] } := by
  simp only [serverStep] at h
  split at h
  · rename_i hc
    exact ⟨Option.isNone_iff_eq_none.mp hc.2.1, hc.2.2, (Option.some.inj h).symm⟩
  · cases h

lemma recv_eq {n : ℕ} (h : s.serverStep chunk consume (.recv n) = some s') :
    ∃ data c, s.reading = some data ∧ s.connections[s.finished]? = some c ∧ 0 < n ∧
      n ≤ c.pending.length ∧
      s' = { s with
        connections := s.connections.set s.finished ⟨c.sent, c.pending.drop n, c.closed⟩
        reading := some (data ++ c.pending.take n) } := by
  simp only [serverStep] at h
  split at h
  · rename_i data sent pending closed hdata hc
    split at h
    · rename_i hn
      exact ⟨data, _, hdata, hc, hn.2.1, hn.2.2.2, (Option.some.inj h).symm⟩
    · cases h
  · cases h

lemma eof_eq (h : s.serverStep chunk consume .eof = some s') :
    ∃ data sent, s.reading = some data ∧ s.connections[s.finished]? = some ⟨sent, [], true⟩ ∧
      s' = { s with
        finished := s.finished + 1
        reading := none
        queue := s.queue ++ [data] } := by
  simp only [serverStep] at h
  split at h
  · rename_i data sent hdata hc
    split at h
    · exact ⟨data, sent, hdata, hc, (Option.some.inj h).symm⟩
    · cases h
  · cases h

lemma get_eq (h : s.serverStep chunk consume .get = some s') :
    ∃ v d queue, s.consumer = some v ∧ s.queue = d :: queue ∧
      s' = { s with queue := queue, consumer := consume v d } := by
  simp only [serverStep] at h
  split at h
  · rename_i v d queue hv hq
    exact ⟨v, d, queue, hv, hq, (Option.some.inj h).symm⟩
  · cases h

lemma fail_eq (h : s.serverStep chunk consume .fail = some s') :
    s.listening ∧ s' = { s with listening := false } := by
  simp only [serverStep] at h
  split at h
  · rename_i hl
    exact ⟨hl, (Option.some.inj h).symm⟩
  · cases h

lemma getElem?_concat_cases {β : Type*} {l : List β} {a b : β} {j : ℕ}
    (h : (l ++ [a])[j]? = some b) : l[j]? = some b ∨ l.length ≤ j ∧ b = a := by
  rcases Nat.lt_or_ge j l.length with hlt | hge
  · left
    rwa [List.getElem?_append_left hlt] at h
  · right
    rw [List.getElem?_append_right hge, List.getElem?_singleton] at h
    split at h
    · exact ⟨hge, (Option.some.inj h).symm⟩
    · cases h

lemma getElem?_set_cases {β : Type*} {l : List β} {a b : β} {i j : ℕ}
    (h : (l.set i a)[j]? = some b) : (j ≠ i ∧ l[j]? = some b) ∨ i = j ∧ b = a := by
  rcases eq_or_ne i j with rfl | hne
  · right
    rw [List.getElem?_set] at h
    split at h
    · split at h
      · exact ⟨rfl, (Option.some.inj h).symm⟩
      · cases h
    · exact absurd rfl ‹_›
  · left
    rw [List.getElem?_set_ne hne] at h
    exact ⟨hne.symm, h⟩

lemma Invariant.reading_eq_none (hs : Invariant s) (h : s.connections.length ≤ s.finished) :
    s.reading = none := by
  cases hr : s.reading with
  | none => rfl
  | some data =>
    have := hs.reading (by rw [hr]; rfl)
    omega

lemma invariant_clientStep {e : ClientEvent α} (h : s.clientStep e = some s') (hs : Invariant s) :
    Invariant s' := by
  obtain rfl | ⟨i, sent, pending, d, closed, hc, rfl⟩ := clientStep_cases h
  · have hle := hs.le
    refine ⟨?_, ?_, ?_, ?_, ?_⟩
    · simp only [List.length_append, List.length_singleton]
      omega
    · intro hr
      have := hs.reading hr
      simp only [List.length_append, List.length_singleton]
      omega
    · intro j c hj hlt
      rcases getElem?_concat_cases hj with hj | ⟨hge, rfl⟩
      · exact hs.finished j c hj hlt
      · change j < s.finished at hlt
        omega
    · intro c hj
      rcases getElem?_concat_cases hj with hj | ⟨hge, rfl⟩
      · exact hs.current c hj
      · simp only [hs.reading_eq_none hge, Option.getD_none, List.append_nil]
    · intro j c hj hlt
      rcases getElem?_concat_cases hj with hj | ⟨-, rfl⟩
      · exact hs.waiting j c hj hlt
      · rfl
  · refine ⟨?_, ?_, ?_, ?_, ?_⟩
    · simpa only [List.length_set] using hs.le
    · simpa only [List.length_set] using hs.reading
    · intro j c hj hlt
      rcases getElem?_set_cases hj with ⟨-, hj⟩ | ⟨rfl, rfl⟩
      · exact hs.finished j c hj hlt
      · have hopen := (hs.finished _ _ hc hlt).1
        cases hopen
    · intro c hj
      rcases getElem?_set_cases hj with ⟨-, hj⟩ | ⟨hi, rfl⟩
      · exact hs.current c hj
      · rw [hi] at hc
        have heq := hs.current _ hc
        change s.reading.getD [] ++ (pending ++ d) = sent ++ d
        rw [← List.append_assoc, heq]
    · intro j c hj hlt
      rcases getElem?_set_cases hj with ⟨-, hj⟩ | ⟨rfl, rfl⟩
      · exact hs.waiting j c hj hlt
      · have heq := hs.waiting _ _ hc hlt
        change pending = sent at heq
        rw [heq]

lemma invariant_serverStep {e : ServerEvent} (h : s.serverStep chunk consume e = some s')
    (hs : Invariant s) : Invariant s' := by
  cases e with
  | accept =>
    obtain ⟨hnone, hlt, rfl⟩ := accept_eq h
    refine ⟨hs.le, fun _ => hlt, hs.finished, ?_, hs.waiting⟩
    intro c hc
    have heq := hs.current c hc
    rwa [hnone] at heq
  | recv n =>
    obtain ⟨data, c, hdata, hc, hpos, hn, rfl⟩ := recv_eq h
    have hlt := (List.getElem?_eq_some_iff.mp hc).1
    refine ⟨?_, ?_, ?_, ?_, ?_⟩
    · simpa only [List.length_set] using hs.le
    · intro _
      simpa only [List.length_set] using hlt
    · intro j c' hj hlt'
      rcases getElem?_set_cases hj with ⟨-, hj⟩ | ⟨hi, -⟩
      · exact hs.finished j c' hj hlt'
      · change j < s.finished at hlt'
        omega
    · intro c' hj
      rcases getElem?_set_cases hj with ⟨hne, -⟩ | ⟨-, rfl⟩
      · exact absurd rfl hne
      · have heq := hs.current c hc
        rw [hdata] at heq
        change data ++ c.pending.take n ++ c.pending.drop n = c.sent
        rwa [List.append_assoc, List.take_append_drop]
    · intro j c' hj hlt'
      rcases getElem?_set_cases hj with ⟨-, hj⟩ | ⟨hi, -⟩
      · exact hs.waiting j c' hj hlt'
      · change s.finished < j at hlt'
        omega
  | eof =>
    obtain ⟨data, sent, hdata, hc, rfl⟩ := eof_eq h
    have hlt := (List.getElem?_eq_some_iff.mp hc).1
    refine ⟨hlt, ?_, ?_, ?_, ?_⟩
    · intro hr
      cases hr
    · intro j c hj hlt'
      rcases Nat.lt_succ_iff_lt_or_eq.mp hlt' with hlt' | rfl
      · exact hs.finished j c hj hlt'
      · rw [hc] at hj
        cases hj
        exact ⟨rfl, rfl⟩
    · intro c hj
      exact hs.waiting _ c hj (Nat.lt_succ_self _)
    · intro j c hj hlt'
      exact hs.waiting j c hj (Nat.lt_of_succ_lt hlt')
  | get =>
    obtain ⟨v, d, queue, -, -, rfl⟩ := get_eq h
    exact ⟨hs.le, hs.reading, hs.finished, hs.current, hs.waiting⟩
  | fail =>
    obtain ⟨-, rfl⟩ := fail_eq h
    exact ⟨hs.le, hs.reading, hs.finished, hs.current, hs.waiting⟩

lemma messages_connect (h : s.clientStep .connect = some s') :
    s'.messages = s.messages ++ [[]] := by
  simp only [clientStep] at h
  split at h
  · obtain rfl := Option.some.inj h
    exact List.map_append
  · cases h

lemma messages_send {i : ℕ} {d : List α} (h : s.clientStep (.send i d) = some s') :
    ∃ sent, s.messages[i]? = some sent ∧ s'.messages = s.messages.set i (sent ++ d) := by
  simp only [clientStep] at h
  split at h
  · rename_i sent pending hc
    obtain rfl := Option.some.inj h
    refine ⟨sent, ?_, List.map_set⟩
    rw [messages, List.getElem?_map, hc]
    rfl
  · cases h

lemma map_sent_set {l : List (Connection α)} {i : ℕ} {c c' : Connection α} (hc : l[i]? = some c)
    (hsent : c'.sent = c.sent) : (l.set i c').map Connection.sent = l.map Connection.sent := by
  obtain ⟨hlt, rfl⟩ := List.getElem?_eq_some_iff.mp hc
  have hlt' : i < (l.map Connection.sent).length := by rwa [List.length_map]
  have hget : l[i].sent = (l.map Connection.sent)[i] := (List.getElem_map _).symm
  rw [List.map_set, hsent, hget, List.set_getElem_self]

lemma messages_close {i : ℕ} (h : s.clientStep (.close i) = some s') :
    s'.messages = s.messages := by
  simp only [clientStep] at h
  split at h
  · rename_i sent pending hc
    obtain rfl := Option.some.inj h
    exact map_sent_set hc rfl
  · cases h

lemma messages_serverStep {e : ServerEvent} (h : s.serverStep chunk consume e = some s') :
    s'.messages = s.messages := by
  cases e with
  | accept =>
    obtain ⟨-, -, rfl⟩ := accept_eq h
    rfl
  | recv n =>
    obtain ⟨data, c, -, hc, -, -, rfl⟩ := recv_eq h
    exact map_sent_set hc rfl
  | eof =>
    obtain ⟨data, sent, -, -, rfl⟩ := eof_eq h
    rfl
  | get =>
    obtain ⟨v, d, queue, -, -, rfl⟩ := get_eq h
    rfl
  | fail =>
    obtain ⟨-, rfl⟩ := fail_eq h
    rfl

lemma messages_take_clientStep {e : ClientEvent α} (h : s.clientStep e = some s')
    (hs : Invariant s) {n : ℕ} (hn : n ≤ s.finished) : s'.messages.take n = s.messages.take n := by
  obtain rfl | ⟨i, sent, pending, d, closed, hc, rfl⟩ := clientStep_cases h
  · have hle : n ≤ s.messages.length := by
      rw [messages, List.length_map]
      exact hn.trans hs.le
    simp only [messages, List.map_append] at hle ⊢
    exact List.take_append_of_le_length hle
  · have hi : n ≤ i := by
      by_contra hlt
      have hopen := (hs.finished i _ hc (by omega)).1
      cases hopen
    rw [messages, List.map_set, List.take_set_of_le hi]
    rfl

lemma consumed_clientStep {e : ClientEvent α} (h : s.clientStep e = some s') (hs : Invariant s)
    (hk : Consumed consume v₀ s k) : Consumed consume v₀ s' k := by
  have htake : ∀ n ≤ s.finished, s'.messages.take n = s.messages.take n :=
    fun n hn => messages_take_clientStep h hs hn
  have hsame : s'.finished = s.finished ∧ s'.queue = s.queue ∧ s'.consumer = s.consumer := by
    obtain rfl | ⟨i, sent, pending, d, closed, -, rfl⟩ := clientStep_cases h <;>
      exact ⟨rfl, rfl, rfl⟩
  obtain ⟨hfinished, hqueue, hconsumer⟩ := hsame
  refine ⟨?_, ?_, ?_, ?_⟩
  · rw [hfinished]
    exact hk.le
  · rw [hqueue, hfinished, htake _ le_rfl]
    exact hk.queue
  · rw [hconsumer, htake k hk.le]
    exact hk.consumer
  · intro j hj
    rw [htake j (hj.le.trans hk.le)]
    exact hk.running j hj

lemma consumed_serverStep {e : ServerEvent} (h : s.serverStep chunk consume e = some s')
    (hs : Invariant s) (hk : Consumed consume v₀ s k) :
    Consumed consume v₀ s' (k + if e = .get then 1 else 0) := by
  cases e with
  | accept =>
    obtain ⟨-, -, rfl⟩ := accept_eq h
    exact ⟨hk.le, hk.queue, hk.consumer, hk.running⟩
  | recv n =>
    have hsame := messages_serverStep h
    obtain ⟨data, c, -, -, -, -, rfl⟩ := recv_eq h
    refine ⟨hk.le, ?_, ?_, ?_⟩
    · rw [hsame]
      exact hk.queue
    · rw [hsame]
      exact hk.consumer
    · rw [hsame]
      exact hk.running
  | eof =>
    obtain ⟨data, sent, hdata, hc, rfl⟩ := eof_eq h
    have hread := hs.current _ hc
    rw [hdata, Option.getD_some, List.append_nil] at hread
    subst hread
    refine ⟨Nat.le_succ_of_le hk.le, ?_, hk.consumer, hk.running⟩
    have hmessage : s.messages[s.finished]? = some data := by
      rw [messages, List.getElem?_map, hc]
      rfl
    have hkle : k ≤ (s.messages.take s.finished).length := by
      have := hk.le
      have := hs.le
      rw [List.length_take, messages, List.length_map]
      omega
    change s.queue ++ [data] = (s.messages.take (s.finished + 1)).drop k
    rw [List.take_add_one, hmessage, List.drop_append_of_le_length hkle, ← hk.queue]
    rfl
  | get =>
    obtain ⟨v, d, queue, hv, hq, rfl⟩ := get_eq h
    have hqueue := hk.queue
    rw [hq] at hqueue
    have hk' : k < (s.messages.take s.finished).length := by
      by_contra hge
      rw [List.drop_eq_nil_of_le (by omega)] at hqueue
      cases hqueue
    rw [List.drop_eq_getElem_cons hk', List.getElem_take, List.cons.injEq] at hqueue
    obtain ⟨rfl, rfl⟩ := hqueue
    rw [List.length_take] at hk'
    have hlast : (s.messages.take k).foldlM consume v₀ = some v := by rw [← hk.consumer, hv]
    refine ⟨?_, rfl, ?_, ?_⟩
    · change k + 1 ≤ s.finished
      omega
    · change consume v _ = (s.messages.take (k + 1)).foldlM consume v₀
      rw [List.take_add_one, List.foldlM_append, hlast, List.getElem?_eq_getElem (by omega)]
      simp only [Option.toList_some, Option.bind_eq_bind, Option.bind_some, List.foldlM_cons,
        List.foldlM_nil, Option.pure_def, Option.bind_fun_some]
    · intro j hj
      change ((s.messages.take j).foldlM consume v₀).isSome
      rcases Nat.lt_succ_iff_lt_or_eq.mp hj with hj | rfl
      · exact hk.running j hj
      · rw [hlast]
        rfl
  | fail =>
    obtain ⟨-, rfl⟩ := fail_eq h
    exact ⟨hk.le, hk.queue, hk.consumer, hk.running⟩

lemma step_consumed {e : Event α} (h : s.step chunk consume e = some s') (hs : Invariant s)
    (hk : Consumed consume v₀ s k) :
    Invariant s' ∧ Consumed consume v₀ s' (k + if e.isGet then 1 else 0) := by
  cases e with
  | client e => exact ⟨invariant_clientStep h hs, consumed_clientStep h hs hk⟩
  | server e =>
    have hget : (Event.server e : Event α).isGet = decide (e = .get) := by cases e <;> rfl
    refine ⟨invariant_serverStep h hs, ?_⟩
    simp only [hget, decide_eq_true_eq]
    exact consumed_serverStep h hs hk

lemma run_consumed {es : List (Event α)} (h : s.run chunk consume es = some s') (hs : Invariant s)
    (hk : Consumed consume v₀ s k) : Invariant s' ∧ Consumed consume v₀ s' (k + gets es) := by
  induction es generalizing s k with
  | nil =>
    cases h
    exact ⟨hs, hk⟩
  | cons e es ih =>
    rw [State.run, List.foldlM_cons] at h
    obtain ⟨next, hnext, h⟩ := Option.bind_eq_some_iff.mp h
    obtain ⟨hs₁, hk₁⟩ := step_consumed hnext hs hk
    have hgets : k + gets (e :: es) = (k + if e.isGet then 1 else 0) + gets es := by
      rw [gets, List.countP_cons, gets]
      omega
    rw [hgets]
    exact ih h hs₁ hk₁

theorem delivered {es : List (Event α)} (h : (start v₀).run chunk consume es = some s) :
    Invariant s ∧ Consumed consume v₀ s (gets es) := by
  have hk := run_consumed h (start_invariant v₀) (start_consumed consume v₀)
  rwa [Nat.zero_add] at hk

lemma failed_step {e : Event α} (h : s.step chunk consume e = some s') (hnone : s.consumer = none) :
    e.isGet = false ∧ s'.consumer = none ∧ s.queue <+: s'.queue := by
  cases e with
  | client e =>
    obtain rfl | ⟨i, sent, pending, d, closed, -, rfl⟩ := clientStep_cases h <;>
      exact ⟨rfl, hnone, List.prefix_rfl⟩
  | server e =>
    have h : s.serverStep chunk consume e = some s' := h
    cases e with
    | accept =>
      obtain ⟨-, -, rfl⟩ := accept_eq h
      exact ⟨rfl, hnone, List.prefix_rfl⟩
    | recv n =>
      obtain ⟨data, c, -, -, -, -, rfl⟩ := recv_eq h
      exact ⟨rfl, hnone, List.prefix_rfl⟩
    | eof =>
      obtain ⟨data, sent, -, -, rfl⟩ := eof_eq h
      exact ⟨rfl, hnone, List.prefix_append _ _⟩
    | get =>
      obtain ⟨v, d, queue, hv, -, -⟩ := get_eq h
      rw [hnone] at hv
      cases hv
    | fail =>
      obtain ⟨-, rfl⟩ := fail_eq h
      exact ⟨rfl, hnone, List.prefix_rfl⟩

theorem failed_run {es : List (Event α)} (h : s.run chunk consume es = some s')
    (hnone : s.consumer = none) : gets es = 0 ∧ s'.consumer = none ∧ s.queue <+: s'.queue := by
  induction es generalizing s with
  | nil =>
    cases h
    exact ⟨rfl, hnone, List.prefix_rfl⟩
  | cons e es ih =>
    rw [State.run, List.foldlM_cons] at h
    obtain ⟨next, hnext, h⟩ := Option.bind_eq_some_iff.mp h
    obtain ⟨hget, hnone', hqueue⟩ := failed_step hnext hnone
    obtain ⟨hgets, hlast, hqueue'⟩ := ih h hnone'
    refine ⟨?_, hlast, hqueue.trans hqueue'⟩
    rw [gets] at hgets
    rw [gets, List.countP_cons, hgets, hget]
    rfl

def work (s : State α σ) : ℕ :=
  (s.connections.map fun c => c.pending.length).sum + 3 * (s.connections.length - s.finished) +
    s.queue.length + (if s.reading.isNone then 1 else 0) + if s.listening then 1 else 0

lemma sum_set_lt {l : List ℕ} {i m : ℕ} (hi : i < l.length) (hm : m < l[i]) :
    (l.set i m).sum < l.sum := by
  induction l generalizing i with
  | nil => simp at hi
  | cons a l ih =>
    cases i with
    | zero =>
      simp only [List.getElem_cons_zero, List.set_cons_zero, List.sum_cons] at hm ⊢
      omega
    | succ i =>
      simp only [List.getElem_cons_succ, List.set_cons_succ, List.sum_cons] at hm ⊢
      have := ih (by simpa using hi) hm
      omega

lemma work_serverStep {e : ServerEvent} (h : s.serverStep chunk consume e = some s') :
    work s' < work s := by
  cases e with
  | accept =>
    obtain ⟨hnone, -, rfl⟩ := accept_eq h
    simp only [work, hnone, Option.isNone_none, Option.isNone_some, Bool.false_eq_true, if_true,
      if_false]
    omega
  | recv n =>
    obtain ⟨data, c, hdata, hc, hpos, hn, rfl⟩ := recv_eq h
    obtain ⟨hlt, rfl⟩ := List.getElem?_eq_some_iff.mp hc
    have hless := sum_set_lt (l := s.connections.map fun c => c.pending.length)
      (i := s.finished) (m := (s.connections[s.finished].pending.drop n).length)
      (by rwa [List.length_map]) (by
        rw [List.getElem_map, List.length_drop]
        omega)
    simp only [work, List.map_set, List.length_set, hdata, Option.isNone_some]
    omega
  | eof =>
    obtain ⟨data, sent, hdata, hc, rfl⟩ := eof_eq h
    have hlt := (List.getElem?_eq_some_iff.mp hc).1
    simp only [work, hdata, Option.isNone_none, Option.isNone_some, if_true, List.length_append,
      List.length_singleton]
    omega
  | get =>
    obtain ⟨v, d, queue, -, hq, rfl⟩ := get_eq h
    simp only [work, hq, List.length_cons]
    omega
  | fail =>
    obtain ⟨hl, rfl⟩ := fail_eq h
    simp only [work, hl, if_true]
    simp

theorem length_le_work {es : List ServerEvent}
    (h : es.foldlM (fun s e => s.serverStep chunk consume e) s = some s') :
    es.length + work s' ≤ work s := by
  induction es generalizing s with
  | nil =>
    cases h
    simp
  | cons e es ih =>
    rw [List.foldlM_cons] at h
    obtain ⟨next, hnext, h⟩ := Option.bind_eq_some_iff.mp h
    have := work_serverStep hnext
    have := ih h
    rw [List.length_cons]
    omega

def Idle (chunk : ℕ) (consume : σ → List α → Option σ) (s : State α σ) : Prop :=
  ∀ e, e ≠ .fail → s.serverStep chunk consume e = none

lemma Idle.reading_eq_none (hidle : Idle chunk consume s) (hs : Invariant s) (hchunk : 0 < chunk)
    (hl : s.listening) (hclosed : ∀ c ∈ s.connections, c.closed) : s.reading = none := by
  by_contra hne
  obtain ⟨data, hdata⟩ := Option.ne_none_iff_exists'.mp hne
  have hlt := hs.reading (by rw [hdata]; rfl)
  have hc : s.connections[s.finished]? = some s.connections[s.finished] :=
    List.getElem?_eq_getElem hlt
  have hc' := hclosed _ (List.getElem_mem hlt)
  cases hconn : s.connections[s.finished] with
  | mk sent pending closed =>
    rw [hconn] at hc hc'
    change closed = true at hc'
    subst hc'
    cases pending with
    | nil =>
      have heof := hidle .eof (by simp)
      simp [serverStep, hdata, hc, hl] at heof
    | cons a pending =>
      have hrecv := hidle (.recv 1) (by simp)
      simp [serverStep, hdata, hc, hl] at hrecv
      omega

theorem exists_idle (s : State α σ) : ∃ (es : List ServerEvent) (s' : State α σ),
    (∀ e ∈ es, e ≠ .fail) ∧
    es.foldlM (fun s e => s.serverStep chunk consume e) s = some s' ∧ Idle chunk consume s' := by
  induction hw : work s using Nat.strong_induction_on generalizing s with
  | _ w ih =>
    by_cases hidle : Idle chunk consume s
    · exact ⟨[], s, by simp, rfl, hidle⟩
    · obtain ⟨e, he, hne⟩ : ∃ e, e ≠ .fail ∧ s.serverStep chunk consume e ≠ none := by
        by_contra hall
        exact hidle fun e he => by_contra fun hne => hall ⟨e, he, hne⟩
      obtain ⟨next, hnext⟩ := Option.ne_none_iff_exists'.mp hne
      obtain ⟨es, s', hes, hrun, hs'⟩ := ih (work next) (hw ▸ work_serverStep hnext) next rfl
      refine ⟨e :: es, s', ?_, ?_, hs'⟩
      · intro e' he'
        rcases List.mem_cons.mp he' with rfl | he'
        · exact he
        · exact hes e' he'
      · rw [List.foldlM_cons, hnext]
        exact hrun

lemma Consumed.failed (hk : Consumed consume v₀ s k) (hs : Invariant s) (hnone : s.consumer = none) :
    ∃ j d v, k = j + 1 ∧ s.messages[j]? = some d ∧
      (s.messages.take j).foldlM consume v₀ = some v ∧ consume v d = none := by
  have hfail := hk.consumer
  rw [hnone] at hfail
  cases k with
  | zero => cases hfail
  | succ j =>
    obtain ⟨v, hv⟩ := Option.isSome_iff_exists.mp (hk.running j (Nat.lt_succ_self j))
    have hlt : j < s.messages.length := by
      have := hk.le
      have := hs.le
      rw [messages, List.length_map]
      omega
    refine ⟨j, s.messages[j], v, rfl, List.getElem?_eq_getElem hlt, hv, ?_⟩
    rw [List.take_add_one, List.foldlM_append, hv, List.getElem?_eq_getElem hlt] at hfail
    simpa using hfail.symm

inductive CaughtUp (consume : σ → List α → Option σ) (v₀ : σ) (s : State α σ) : Prop
  | all {v : σ} : s.messages.foldlM consume v₀ = some v → s.consumer = some v → s.queue = [] →
    CaughtUp consume v₀ s
  | upTo {before after : List (List α)} {d : List α} {v : σ} : s.messages = before ++ d :: after →
    before.foldlM consume v₀ = some v → consume v d = none → s.consumer = none →
    s.queue = after → CaughtUp consume v₀ s

theorem settled (hidle : Idle chunk consume s) (hs : Invariant s) (hk : Consumed consume v₀ s k)
    (hchunk : 0 < chunk) (hl : s.listening) (hclosed : ∀ c ∈ s.connections, c.closed) :
    CaughtUp consume v₀ s := by
  have hnone := hidle.reading_eq_none hs hchunk hl hclosed
  have hfinished : s.finished = s.messages.length := by
    have haccept := hidle .accept (by simp)
    simp [serverStep, hnone, hl] at haccept
    have := hs.le
    rw [messages, List.length_map]
    omega
  have hqueue := hk.queue
  rw [hfinished, List.take_length] at hqueue
  cases hv : s.consumer with
  | none =>
    obtain ⟨j, d, v, rfl, hd, hbefore, hfail⟩ := hk.failed hs hv
    obtain ⟨hlt, rfl⟩ := List.getElem?_eq_some_iff.mp hd
    have hsplit : s.messages = s.messages.take j ++ s.messages[j] :: s.messages.drop (j + 1) := by
      rw [← List.drop_eq_getElem_cons hlt, List.take_append_drop]
    exact CaughtUp.upTo hsplit hbefore hfail hv hqueue
  | some v =>
    have hempty : s.queue = [] := by
      have hget := hidle .get (by simp)
      cases hq : s.queue with
      | nil => rfl
      | cons d queue => simp [serverStep, hv, hq] at hget
    have hkn : s.messages.length ≤ k := by
      rw [hempty] at hqueue
      exact List.drop_eq_nil_iff.mp hqueue.symm
    have hall := hk.consumer
    rw [hv, List.take_of_length_le hkn] at hall
    exact CaughtUp.all hall.symm hv hempty

lemma serverStep_keeps {e : ServerEvent} (h : s.serverStep chunk consume e = some s')
    (he : e ≠ .fail) : s'.listening = s.listening ∧
      ((∀ c ∈ s.connections, c.closed) → ∀ c ∈ s'.connections, c.closed) := by
  cases e with
  | accept =>
    obtain ⟨-, -, rfl⟩ := accept_eq h
    exact ⟨rfl, id⟩
  | recv n =>
    obtain ⟨data, c, -, hc, -, -, rfl⟩ := recv_eq h
    refine ⟨rfl, ?_⟩
    intro hall c' hc'
    rcases List.mem_or_eq_of_mem_set hc' with hc' | rfl
    · exact hall c' hc'
    · exact hall c (List.mem_of_getElem? hc)
  | eof =>
    obtain ⟨data, sent, -, -, rfl⟩ := eof_eq h
    exact ⟨rfl, id⟩
  | get =>
    obtain ⟨v, d, queue, -, -, rfl⟩ := get_eq h
    exact ⟨rfl, id⟩
  | fail => exact absurd rfl he

theorem catches_up {es : List (Event α)} (h : (start v₀).run chunk consume es = some s)
    (hchunk : 0 < chunk) (hl : s.listening) (hclosed : ∀ c ∈ s.connections, c.closed) :
    ∃ (more : List ServerEvent) (s' : State α σ), more.length ≤ work s ∧
      s.run chunk consume (more.map .server) = some s' ∧ s'.messages = s.messages ∧
      CaughtUp consume v₀ s' := by
  obtain ⟨more, s', hmore, hrun, hidle⟩ := @exists_idle _ _ chunk consume s
  have hrun' : s.run chunk consume (more.map .server) = some s' := by
    rw [State.run, List.foldlM_map]
    exact hrun
  obtain ⟨hs', hk⟩ := @delivered _ _ chunk consume v₀ s' (es ++ more.map .server) (by
    rw [State.run, List.foldlM_append]
    exact (congrArg (Option.bind · _) h).trans hrun')
  have hkeeps : s'.listening = s.listening ∧ s'.messages = s.messages ∧
      ∀ c ∈ s'.connections, c.closed := by
    refine Library.Runs.foldlM_invariant
      (fun t => t.listening = s.listening ∧ t.messages = s.messages ∧ ∀ c ∈ t.connections, c.closed)
      ?_ ⟨rfl, rfl, hclosed⟩ hrun
    rintro e he t t' ⟨h₁, h₂, h₃⟩ hstep
    obtain ⟨h₁', h₃'⟩ := serverStep_keeps hstep (hmore e he)
    exact ⟨h₁'.trans h₁, (messages_serverStep hstep).trans h₂, h₃' h₃⟩
  obtain ⟨hl', hm', hc'⟩ := hkeeps
  refine ⟨more, s', ?_, hrun', hm', settled hidle hs' hk hchunk (hl'.trans hl) hc'⟩
  have := length_le_work hrun
  omega

end Steps

end Embedwatch.Library.StreamServer
