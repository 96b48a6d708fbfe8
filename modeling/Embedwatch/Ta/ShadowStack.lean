import Embedwatch.Library.LinkedList
import Embedwatch.Library.Nesting
import Embedwatch.Ta.Handlers

/-! The shadow stack of `libzbouncer_ta.c`, which keeps the return addresses of the program as a linked
list on the heap of the trusted application. A command that leaves the defined behaviour of C gives
`none`, and so does one that comes to no end of the list in `fuel` steps; the log is left out. -/

namespace Embedwatch.ShadowStack

open Library.LinkedList (Node Heap Linked walk linked_none linked_some)
open Library.Nesting (Event Nested)
open Ta (valueInout)

inductive TeeResult
  | success
  | badParameters
  | security
  deriving DecidableEq

structure Stack where
  top : Option ℕ
  size : ℤ

structure State where
  heap : Heap Word
  calls : Stack

/-- `params[0].value`. -/
@[ext] structure Value where
  a : Word
  b : Word

inductive Command
  | entry | exit | dump | loopExit | wmemcpy | unknown
  deriving DecidableEq

/-- A command, with what its C code finds: `node` is what `malloc` returns, and `popped` tells whether
the value of `stack_pop`, which has no `return`, is found to differ from `NULL`. -/
structure Call where
  cmd : Command
  paramTypes : Word
  value : Value
  node : Option ℕ
  popped : Bool

structure Reply where
  result : TeeResult
  ta : State
  value : Value
  violation : Bool

/-- `TA_OpenSessionEntryPoint`, for four parameters of the type `NONE`. -/
def start : State := ⟨fun _ => none, ⟨none, 0⟩⟩

namespace State

/-- `malloc` gives memory that is not in use; the new node points to the old top, also if that is
`NULL`. -/
def stackPush (s : State) (data : Word) (node : Option ℕ) : Option State :=
  match node with
  | some p =>
    if (s.heap p).isSome ∨ s.calls.size = 2 ^ 31 - 1 then none
    else some ⟨Function.update s.heap p (some ⟨data, s.calls.top⟩), ⟨some p, s.calls.size + 1⟩⟩
  | none => none

/-- `free` is given `tmp` after `tmp` was set to `NULL`: the node stays allocated. -/
def stackPop (s : State) : Option State :=
  if s.calls.size ≠ 0 then
    match s.calls.top with
    | some tmp =>
      match s.heap tmp with
      | some n => some
        ⟨Function.update s.heap tmp (some ⟨n.value, none⟩), ⟨n.next, s.calls.size - 1⟩⟩
      | none => none
    | none => none
  else some s

def printStack (s : State) (fuel : ℕ) : Option (List Word) := walk s.heap fuel s.calls.top

end State

def zbouncerEntry (c : Call) (s : State) : Option Reply :=
  (s.stackPush c.value.a c.node).map fun s' => ⟨.success, s', c.value, false⟩

def violated (v : Value) : Value := { v with b := 0xffffffff }

/-- The call of `violation`, which is given `head->lbr` and prints the stack. -/
def violation (fuel : ℕ) (head : ℕ) (s : State) : Option (Word × List Word) := do
  let node ← s.heap head
  let chain ← s.printStack fuel
  some (node.value, chain)

def zbouncerExit (fuel : ℕ) (c : Call) (s : State) : Option Reply :=
  match s.calls.top with
  | none => some ⟨.security, s, c.value, false⟩
  | some p =>
    match s.heap p with
    | none => none
    | some head =>
      if c.value.a = head.value then
        s.stackPop.bind fun s' =>
          if c.popped then some ⟨.success, s', c.value, false⟩
          else (violation fuel p s').map fun _ => ⟨.success, s', violated c.value, true⟩
      else (violation fuel p s).map fun _ => ⟨.success, s, violated c.value, true⟩

/-- `zbouncer_dump`, `zbouncer_loop_exit` and `zbouncer_wmemcpy`. -/
def logOnly (c : Call) (s : State) : Option Reply := some ⟨.success, s, c.value, false⟩

/-- `TA_InvokeCommandEntryPoint`; each handler tests the parameter types first. -/
def Call.invoke (fuel : ℕ) (c : Call) (s : State) : Option Reply :=
  if c.cmd = .unknown ∨ c.paramTypes ≠ valueInout then some ⟨.badParameters, s, c.value, false⟩
  else match c.cmd with
    | .entry => zbouncerEntry c s
    | .exit => zbouncerExit fuel c s
    | .dump | .loopExit | .wmemcpy | .unknown => logOnly c s

def runCalls (fuel : ℕ) (s : State) : List Call → Option (State × List Reply)
  | [] => some (s, [])
  | c :: cs =>
    (c.invoke fuel s).bind fun reply =>
      (runCalls fuel reply.ta cs).map fun out => (out.1, reply :: out.2)

def Call.Accepted (c : Call) : Prop := c.cmd ≠ .unknown ∧ c.paramTypes = valueInout

instance (c : Call) : Decidable c.Accepted := inferInstanceAs (Decidable (_ ∧ _))

def Call.spec (c : Call) (st : List Word) : List Word × TeeResult × Bool :=
  if c.Accepted then
    match c.cmd, st with
    | .entry, st => (c.value.a :: st, .success, false)
    | .exit, [] => ([], .security, false)
    | .exit, b :: st => if c.value.a = b then (st, .success, !c.popped) else (b :: st, .success, true)
    | _, st => (st, .success, false)
  else (st, .badParameters, false)

structure Refines (s : State) (ps : List ℕ) (st : List Word) : Prop where
  linked : Linked s.heap s.calls.top ps st
  nodup : ps.Nodup
  size : s.calls.size = st.length

variable {s s' : State} {ps : List ℕ} {st : List Word} {c : Call} {cs : List Call} {reply : Reply}
  {fuel : ℕ}

lemma start_refines : Refines start [] [] := ⟨linked_none.mpr ⟨rfl, rfl⟩, List.nodup_nil, rfl⟩

lemma stackPush_refines {data : Word} {node : Option ℕ} (h : s.stackPush data node = some s')
    (hs : Refines s ps st) : ∃ p, node = some p ∧ s.heap p = none ∧
      s'.heap = Function.update s.heap p (some ⟨data, s.calls.top⟩) ∧
      Refines s' (p :: ps) (data :: st) := by
  simp only [State.stackPush] at h
  split at h
  · rename_i p
    split at h
    · cases h
    · rename_i hfree
      cases h
      rw [not_or, Bool.not_eq_true, Option.isSome_eq_false_iff, Option.isNone_iff_eq_none] at hfree
      have hp : p ∉ ps := fun hp => hs.linked.allocated p hp hfree.1
      refine ⟨p, rfl, hfree.1, rfl, ?_, List.nodup_cons.mpr ⟨hp, hs.nodup⟩, ?_⟩
      · refine linked_some.mpr ⟨_, ps, data, st, Function.update_self .., ?_, rfl, rfl⟩
        exact hs.linked.update hp _
      · simp [hs.size]
  · cases h

lemma stackPop_refines {x : Word} (hs : Refines s ps (x :: st)) : ∃ p ps' n s', ps = p :: ps' ∧
    s.stackPop = some s' ∧ s'.heap = Function.update s.heap p (some n) ∧ Refines s' ps' st := by
  cases htop : s.calls.top with
  | none =>
    have hlinked := hs.linked
    rw [htop, linked_none] at hlinked
    cases hlinked.2
  | some p =>
    have hlinked := hs.linked
    rw [htop, linked_some] at hlinked
    obtain ⟨next, ps', _, _, hp, hrest, rfl, hxs⟩ := hlinked
    cases hxs
    obtain ⟨hnot, hnodup⟩ := List.nodup_cons.mp hs.nodup
    have hsize := hs.size
    rw [List.length_cons] at hsize
    have hne : s.calls.size ≠ 0 := by omega
    have hpop : s.stackPop = some ⟨Function.update s.heap p (some ⟨x, none⟩), ⟨next, s.calls.size - 1⟩⟩ := by
      simp only [State.stackPop, hne, ne_eq, not_false_eq_true, if_true, htop, hp]
    refine ⟨p, ps', _, _, rfl, hpop, rfl, hrest.update hnot _, hnodup, ?_⟩
    simp [hsize]

def Call.Pushes (c : Call) : Prop := c.Accepted ∧ c.cmd = .entry

instance (c : Call) : Decidable c.Pushes := inferInstanceAs (Decidable (_ ∧ _))

structure Simulated (s : State) (st : List Word) (c : Call) (reply : Reply) : Prop where
  refines : ∃ ps, Refines reply.ta ps (c.spec st).1
  result : reply.result = (c.spec st).2.1
  violation : reply.violation = (c.spec st).2.2
  value : reply.value = if reply.violation then violated c.value else c.value
  heap : ∀ q, (reply.ta.heap q).isSome ↔ (s.heap q).isSome ∨ c.Pushes ∧ c.node = some q
  fresh : c.Pushes → ∀ q, c.node = some q → s.heap q = none

lemma isSome_update {heap : Heap Word} {p : ℕ} {n : Node Word} (q : ℕ) :
    (Function.update heap p (some n) q).isSome ↔ (heap q).isSome ∨ p = q := by
  rcases eq_or_ne q p with rfl | hne
  · simp
  · rw [Function.update_of_ne hne]
    simp [hne.symm]

lemma not_pushes (h : c.cmd ≠ .entry) : ¬ c.Pushes := fun hp => h hp.2

lemma spec_exit_nil (hcmd : c.cmd = .exit) (hacc : c.Accepted) :
    c.spec [] = ([], .security, false) := by
  simp only [Call.spec, hacc, hcmd, if_true]

lemma spec_exit_cons (hcmd : c.cmd = .exit) (hacc : c.Accepted) (b : Word) (st : List Word) :
    c.spec (b :: st) =
      if c.value.a = b then (st, .success, !c.popped) else (b :: st, .success, true) := by
  simp only [Call.spec, hacc, hcmd, if_true]

lemma exit_simulated (hcmd : c.cmd = .exit) (hacc : c.Accepted)
    (h : zbouncerExit fuel c s = some reply) (hs : Refines s ps st) : Simulated s st c reply := by
  have hnot := not_pushes (c := c) (by rw [hcmd]; decide)
  cases htop : s.calls.top with
  | none =>
    have hlinked := hs.linked
    rw [htop, linked_none] at hlinked
    obtain ⟨rfl, rfl⟩ := hlinked
    simp only [zbouncerExit, htop] at h
    cases h
    have hspec := spec_exit_nil hcmd hacc
    refine ⟨⟨[], ?_⟩, ?_, ?_, rfl, ?_, ?_⟩
    · rw [hspec]
      exact hs
    · rw [hspec]
    · rw [hspec]
    · intro q
      simp only [hnot, false_and, or_false]
    · intro hp
      exact absurd hp hnot
  | some p =>
    have hlinked := hs.linked
    rw [htop, linked_some] at hlinked
    obtain ⟨next, ps', x, st', hp, hrest, rfl, rfl⟩ := hlinked
    simp only [zbouncerExit, htop, hp] at h
    have hspec := spec_exit_cons hcmd hacc x st'
    by_cases hx : c.value.a = x
    · obtain ⟨q, ps₂, n, s', hps, hpop, hheap, hs'⟩ := stackPop_refines hs
      cases hps
      rw [if_pos hx, hpop, Option.bind_some] at h
      have hsame : ∀ r, (s'.heap r).isSome ↔ (s.heap r).isSome ∨ c.Pushes ∧ c.node = some r := by
        intro r
        rw [hheap, isSome_update]
        simp only [hnot, false_and, or_false, or_iff_left_iff_imp]
        rintro rfl
        rw [hp]
        rfl
      cases hpopped : c.popped with
      | true =>
        simp only [hpopped, if_true] at h
        cases h
        refine ⟨⟨ps', ?_⟩, ?_, ?_, rfl, hsame, fun hp => absurd hp hnot⟩
        · rw [hspec]
          simpa only [hx, if_true] using hs'
        · simp only [hspec, hx, if_true]
        · simp only [hspec, hx, if_true, hpopped, Bool.not_true]
      | false =>
        simp only [hpopped, Bool.false_eq_true, if_false] at h
        obtain ⟨_, -, rfl⟩ := Option.map_eq_some_iff.mp h
        refine ⟨⟨ps', ?_⟩, ?_, ?_, rfl, hsame, fun hp => absurd hp hnot⟩
        · rw [hspec]
          simpa only [hx, if_true] using hs'
        · simp only [hspec, hx, if_true]
        · simp only [hspec, hx, if_true, hpopped, Bool.not_false]
    · rw [if_neg hx] at h
      obtain ⟨_, -, rfl⟩ := Option.map_eq_some_iff.mp h
      refine ⟨⟨p :: ps', ?_⟩, ?_, ?_, rfl, ?_, fun hp => absurd hp hnot⟩
      · simp only [hspec, hx, if_false]
        exact hs
      · simp only [hspec, hx, if_false]
      · simp only [hspec, hx, if_false]
      · intro q
        simp only [hnot, false_and, or_false]

lemma entry_simulated (hcmd : c.cmd = .entry) (hacc : c.Accepted)
    (h : zbouncerEntry c s = some reply) (hs : Refines s ps st) : Simulated s st c reply := by
  have hspec : c.spec st = (c.value.a :: st, .success, false) := by
    cases st <;> simp only [Call.spec, hacc, hcmd, if_true]
  obtain ⟨s', hpush, rfl⟩ := Option.map_eq_some_iff.mp h
  obtain ⟨p, hnode, hfree, hheap, hs'⟩ := stackPush_refines hpush hs
  refine ⟨⟨p :: ps, by rw [hspec]; exact hs'⟩, by rw [hspec], by rw [hspec], rfl, ?_, ?_⟩
  · intro q
    rw [hheap, isSome_update, hnode]
    simp only [Call.Pushes, hacc, hcmd, true_and, Option.some.injEq, and_self]
  · intro _ q hq
    rw [hnode] at hq
    cases hq
    exact hfree

lemma unchanged_simulated (hspec : (c.spec st).1 = st) (hviolation : (c.spec st).2.2 = false)
    (hnot : ¬ c.Pushes) (hs : Refines s ps st) :
    Simulated s st c ⟨(c.spec st).2.1, s, c.value, false⟩ := by
  refine ⟨⟨ps, by rw [hspec]; exact hs⟩, rfl, hviolation.symm, rfl, ?_, fun hp => absurd hp hnot⟩
  intro q
  simp only [hnot, false_and, or_false]

theorem invoke_simulated (h : c.invoke fuel s = some reply) (hs : Refines s ps st) :
    Simulated s st c reply := by
  rw [Call.invoke] at h
  split at h
  · rename_i hrej
    have hacc : ¬ c.Accepted := by
      rintro ⟨hcmd, htypes⟩
      rcases hrej with h | h
      · exact hcmd h
      · exact h htypes
    cases h
    have hspec : c.spec st = (st, .badParameters, false) := by
      simp only [Call.spec, hacc, if_false]
    have hsim := unchanged_simulated (c := c) (by rw [hspec]) (by rw [hspec]) (fun hp => hacc hp.1) hs
    rwa [hspec] at hsim
  · rename_i hacc
    rw [not_or, not_not] at hacc
    have hacc : c.Accepted := hacc
    split at h
    · rename_i hcmd
      exact entry_simulated hcmd hacc h hs
    · rename_i hcmd
      exact exit_simulated hcmd hacc h hs
    all_goals
      rename_i hcmd
      cases h
      have hspec : c.spec st = (st, .success, false) := by
        cases st <;> simp only [Call.spec, hacc, hcmd, if_true]
      have hsim := unchanged_simulated (c := c) (by rw [hspec]) (by rw [hspec])
        (not_pushes (by rw [hcmd]; decide)) hs
      rwa [hspec] at hsim

def specRun (st : List Word) : List Call → List Word × List (TeeResult × Bool)
  | [] => (st, [])
  | c :: cs =>
    let (st', out) := c.spec st
    let (st'', outs) := specRun st' cs
    (st'', out :: outs)

theorem runCalls_simulated {replies : List Reply} (h : runCalls fuel s cs = some (s', replies))
    (hs : Refines s ps st) : (∃ ps', Refines s' ps' (specRun st cs).1) ∧
      replies.map (fun r => (r.result, r.violation)) = (specRun st cs).2 := by
  induction cs generalizing s ps st replies with
  | nil =>
    cases h
    exact ⟨⟨ps, hs⟩, rfl⟩
  | cons c cs ih =>
    obtain ⟨reply, hreply, h⟩ := Option.bind_eq_some_iff.mp h
    obtain ⟨⟨s₁, rs⟩, hrun, heq⟩ := Option.map_eq_some_iff.mp h
    cases heq
    have hsim := invoke_simulated hreply hs
    obtain ⟨ps₁, hs₁⟩ := hsim.refines
    obtain ⟨hlast, hreplies⟩ := ih hrun hs₁
    refine ⟨hlast, ?_⟩
    rw [List.map_cons, hreplies, hsim.result, hsim.violation]
    rfl

def Call.event (c : Call) : Option (Event Word) :=
  if c.Accepted then
    match c.cmd with
    | .entry => some (.push c.value.a)
    | .exit => some (.pop c.value.a)
    | _ => none
  else none

def Quiet (out : TeeResult × Bool) : Prop := out.1 ≠ .security ∧ out.2 = false

def PoppedNonNull (cs : List Call) : Prop :=
  ∀ c ∈ cs, c.Accepted → c.cmd = .exit → c.popped = true

instance (cs : List Call) : Decidable (PoppedNonNull cs) :=
  inferInstanceAs (Decidable (∀ c ∈ cs, c.Accepted → c.cmd = .exit → c.popped = true))

lemma poppedNonNull_cons : PoppedNonNull (c :: cs) ↔
    (c.Accepted → c.cmd = .exit → c.popped = true) ∧ PoppedNonNull cs := by
  simp [PoppedNonNull]

lemma quiet_iff : (∀ out ∈ (specRun st cs).2, Quiet out) ↔
    (Library.Nesting.run st (cs.filterMap Call.event)).isSome ∧ PoppedNonNull cs := by
  induction cs generalizing st with
  | nil => simp [specRun, PoppedNonNull]
  | cons c cs ih =>
    have hcons : (∀ out ∈ (specRun st (c :: cs)).2, Quiet out) ↔
        Quiet (c.spec st).2 ∧ ∀ out ∈ (specRun (c.spec st).1 cs).2, Quiet out := by
      simp [specRun]
    rw [hcons, ih, poppedNonNull_cons]
    by_cases hacc : c.Accepted
    · cases hcmd : c.cmd with
      | entry =>
        have hevent : c.event = some (.push c.value.a) := by
          simp only [Call.event, hacc, hcmd, if_true]
        have hspec : c.spec st = (c.value.a :: st, .success, false) := by
          cases st <;> simp only [Call.spec, hacc, hcmd, if_true]
        simp [hspec, Quiet, hevent]
      | exit =>
        have hevent : c.event = some (.pop c.value.a) := by
          simp only [Call.event, hacc, hcmd, if_true]
        cases st with
        | nil =>
          rw [spec_exit_nil hcmd hacc, List.filterMap_cons, hevent]
          simp [Quiet, Library.Nesting.run, List.foldlM_cons, Library.Nesting.step]
        | cons b st =>
          rw [spec_exit_cons hcmd hacc, List.filterMap_cons, hevent]
          by_cases hb : c.value.a = b
          · subst hb
            simp [Quiet, hacc]
            tauto
          · simp [Quiet, hb, Library.Nesting.run, List.foldlM_cons, Library.Nesting.step]
      | dump | loopExit | wmemcpy =>
        have hevent : c.event = none := by simp only [Call.event, hacc, hcmd, if_true]
        have hspec : c.spec st = (st, .success, false) := by
          cases st <;> simp only [Call.spec, hacc, hcmd, if_true]
        simp [hspec, Quiet, hevent]
      | unknown => exact absurd hcmd hacc.1
    · have hevent : c.event = none := by simp only [Call.event, hacc, if_false]
      have hspec : c.spec st = (st, .badParameters, false) := by
        simp only [Call.spec, hacc, if_false]
      simp [hspec, Quiet, hevent, hacc]

lemma violation_defined {p : ℕ} {n : Node Word} (hs : Refines s ps st) (hp : s.heap p = some n)
    (hfuel : st.length ≤ fuel) : violation fuel p s = some (n.value, st) := by
  have hwalk : s.printStack fuel = some st := hs.linked.walk_eq hfuel
  simp only [violation, hp, hwalk, Option.bind_eq_bind, Option.bind_some]

lemma invoke_defined (hs : Refines s ps st)
    (hnode : c.Pushes → ∃ p, c.node = some p ∧ s.heap p = none) (hlen : st.length < 2 ^ 31 - 1)
    (hfuel : st.length ≤ fuel) : ∃ reply, c.invoke fuel s = some reply := by
  rw [Call.invoke]
  split
  · exact ⟨_, rfl⟩
  · rename_i hacc
    rw [not_or, not_not] at hacc
    split
    · rename_i hcmd
      obtain ⟨p, hp, hfree⟩ := hnode ⟨hacc, hcmd⟩
      have hsize : ¬ s.calls.size = 2147483647 := by
        rw [hs.size]
        omega
      simp [zbouncerEntry, State.stackPush, hp, hfree, hsize]
    · cases htop : s.calls.top with
      | none => simp [zbouncerExit, htop]
      | some p =>
        have hlinked := hs.linked
        rw [htop, linked_some] at hlinked
        obtain ⟨next, ps', x, st', hp, -, rfl, rfl⟩ := hlinked
        obtain ⟨_, _, n, s', hps, hpop, hheap, hs'⟩ := stackPop_refines hs
        cases hps
        by_cases hx : c.value.a = x
        · -- the popped node is still there
          have hp' : s'.heap p = some n := by rw [hheap, Function.update_self]
          have hviolation := violation_defined hs' hp' (Nat.le_of_succ_le hfuel)
          cases hpopped : c.popped <;> simp [zbouncerExit, htop, hp, hx, hpop, hpopped, hviolation]
        · have hviolation := violation_defined hs hp hfuel
          simp [zbouncerExit, htop, hp, hx, hviolation]
    all_goals exact ⟨_, rfl⟩

theorem session_refines {replies : List Reply} (h : runCalls fuel start cs = some (s', replies)) :
    replies.map (fun r => (r.result, r.violation)) = (specRun [] cs).2 ∧
    s'.calls.size = (specRun [] cs).1.length ∧
    ∀ n, (specRun [] cs).1.length ≤ n → s'.printStack n = some (specRun [] cs).1 := by
  obtain ⟨⟨ps, hs⟩, hreplies⟩ := runCalls_simulated h start_refines
  exact ⟨hreplies, hs.size, fun n hn => hs.linked.walk_eq hn⟩

def call (cmd : Command) (a : Word) (node : Option ℕ) : Call :=
  ⟨cmd, valueInout, ⟨a, 0⟩, node, true⟩

def nestedCalls : List Call :=
  [call .entry 100 (some 8), call .entry 200 (some 4), call .exit 200 none, call .dump 0 none,
    call .exit 100 none]

theorem nestedCalls_refine : ∃ s' replies, runCalls 2 start nestedCalls = some (s', replies) ∧
    s'.printStack 0 = some [] := by
  have hrun : (runCalls 2 start nestedCalls).isSome := by decide
  obtain ⟨⟨s', replies⟩, h⟩ := Option.isSome_iff_exists.mp hrun
  exact ⟨s', replies, h, (session_refines h).2.2 0 (by decide)⟩

theorem quiet_iff_nested {replies : List Reply} (h : runCalls fuel start cs = some (s', replies)) :
    (∀ r ∈ replies, r.result ≠ .security ∧ r.violation = false) ↔
      (∃ rest, Nested (cs.filterMap Call.event ++ rest)) ∧ PoppedNonNull cs := by
  obtain ⟨-, hreplies⟩ := runCalls_simulated h start_refines
  rw [← Library.Nesting.run_isSome_iff, ← quiet_iff, ← hreplies]
  simp [Quiet]

theorem nestedCalls_quiet : ∃ s' replies, runCalls 2 start nestedCalls = some (s', replies) ∧
    replies.length = 5 ∧ (replies.all fun r => r.result ≠ .security ∧ r.violation = false) = true := by
  have hlen : (runCalls 2 start nestedCalls).map (fun out => out.2.length) = some 5 := by decide
  obtain ⟨⟨s', replies⟩, h, hlen⟩ := Option.map_eq_some_iff.mp hlen
  have hnested : Nested (nestedCalls.filterMap Call.event ++ []) :=
    .nest (.nest .nil .nil) .nil
  have hquiet := (quiet_iff_nested h).mpr ⟨⟨[], hnested⟩, by decide⟩
  exact ⟨s', replies, h, hlen, List.all_eq_true.mpr fun r hr => by simpa using hquiet r hr⟩

def nodes (cs : List Call) : List ℕ := (cs.filter fun c => c.Pushes).filterMap Call.node

lemma nodes_cons : nodes (c :: cs) = (if c.Pushes then c.node.toList else []) ++ nodes cs := by
  by_cases hp : c.Pushes
  · cases hn : c.node <;> simp [nodes, hp, hn]
  · simp [nodes, hp]

lemma runCalls_heap {replies : List Reply} {l : List ℕ} (h : runCalls fuel s cs = some (s', replies))
    (hs : Refines s ps st) (hl : l.Nodup) (hheap : ∀ q, (s.heap q).isSome ↔ q ∈ l) :
    (l ++ nodes cs).Nodup ∧ (nodes cs).length = cs.countP (fun c => c.Pushes) ∧
      ∀ q, (s'.heap q).isSome ↔ q ∈ l ++ nodes cs := by
  induction cs generalizing s ps st replies l with
  | nil =>
    cases h
    simpa [nodes] using ⟨hl, hheap⟩
  | cons c cs ih =>
    obtain ⟨reply, hreply, h⟩ := Option.bind_eq_some_iff.mp h
    obtain ⟨⟨s₁, rs⟩, hrun, heq⟩ := Option.map_eq_some_iff.mp h
    cases heq
    have hsim := invoke_simulated hreply hs
    obtain ⟨ps₁, hs₁⟩ := hsim.refines
    rw [nodes_cons, List.countP_cons, ← List.append_assoc]
    by_cases hp : c.Pushes
    · obtain ⟨p, hnode⟩ : ∃ p, c.node = some p := by
        rw [Call.invoke, if_neg (by rw [not_or, not_not]; exact hp.1), hp.2] at hreply
        obtain ⟨s₂, hpush, -⟩ := Option.map_eq_some_iff.mp hreply
        obtain ⟨p, hnode, -⟩ := stackPush_refines hpush hs
        exact ⟨p, hnode⟩
      have hp' : p ∉ l := by
        rw [← hheap, hsim.fresh hp p hnode]
        simp
      have hl' : (l ++ [p]).Nodup := List.nodup_append.mpr ⟨hl, by simp, by
        rintro a ha b hb rfl
        exact hp' (List.mem_singleton.mp hb ▸ ha)⟩
      have hheap' : ∀ q, (reply.ta.heap q).isSome ↔ q ∈ l ++ [p] := by
        intro q
        rw [hsim.heap, hheap, List.mem_append, List.mem_singleton, hnode]
        simp [hp, eq_comm]
      obtain ⟨hnodup, hlen, hlast⟩ := ih hrun hs₁ hl' hheap'
      simp only [hp, if_true, hnode, Option.toList_some, List.length_append, List.length_singleton,
        decide_true]
      exact ⟨hnodup, by omega, hlast⟩
    · have hheap' : ∀ q, (reply.ta.heap q).isSome ↔ q ∈ l := by
        intro q
        rw [hsim.heap, hheap]
        simp [hp]
      obtain ⟨hnodup, hlen, hlast⟩ := ih hrun hs₁ hl hheap'
      simp only [hp, if_false, List.append_nil, decide_false, Bool.false_eq_true, Nat.add_zero]
      exact ⟨hnodup, hlen, hlast⟩

lemma length_spec_le (c : Call) (st : List Word) : (c.spec st).1.length ≤ st.length + 1 := by
  by_cases hacc : c.Accepted
  · cases hcmd : c.cmd with
    | exit =>
      cases st with
      | nil => simp [spec_exit_nil hcmd hacc]
      | cons b st =>
        rw [spec_exit_cons hcmd hacc, List.length_cons]
        split
        · exact Nat.le_succ_of_le (Nat.le_succ _)
        · exact Nat.le_succ _
    | entry | dump | loopExit | wmemcpy | unknown =>
      cases st <;> simp [Call.spec, hacc, hcmd]
  · simp [Call.spec, hacc]

lemma runCalls_defined {l : List ℕ} (hs : Refines s ps st) (hheap : ∀ q, (s.heap q).isSome → q ∈ l)
    (hnodup : (l ++ nodes cs).Nodup) (hnode : ∀ c ∈ cs, c.Pushes → c.node ≠ none)
    (hlen : st.length + cs.length < 2 ^ 31) (hfuel : st.length + cs.length ≤ fuel) :
    ∃ out, runCalls fuel s cs = some out := by
  induction cs generalizing s ps st l with
  | nil => exact ⟨_, rfl⟩
  | cons c cs ih =>
    rw [List.length_cons] at hlen hfuel
    obtain ⟨reply, hreply⟩ : ∃ reply, c.invoke fuel s = some reply := by
      refine invoke_defined hs (fun hp => ?_) (by omega) (by omega)
      obtain ⟨p, hp'⟩ := Option.ne_none_iff_exists'.mp (hnode c List.mem_cons_self hp)
      refine ⟨p, hp', ?_⟩
      rw [nodes_cons, if_pos hp, hp'] at hnodup
      by_contra hne
      have hmem := hheap p (Option.isSome_iff_ne_none.mpr hne)
      exact (List.nodup_append.mp hnodup).2.2 p hmem p (by simp) rfl
    have hsim := invoke_simulated hreply hs
    obtain ⟨ps₁, hs₁⟩ := hsim.refines
    have hspec := length_spec_le c st
    have hheap' : ∀ q, (reply.ta.heap q).isSome → q ∈ l ++ if c.Pushes then c.node.toList else [] := by
      intro q hq
      rcases (hsim.heap q).mp hq with hq | ⟨hp, hq⟩
      · exact List.mem_append_left _ (hheap q hq)
      · simp [hp, hq]
    obtain ⟨out, hout⟩ := ih hs₁ hheap' (by rw [List.append_assoc, ← nodes_cons]; exact hnodup)
      (fun c' hc' => hnode c' (List.mem_cons_of_mem c hc')) (by omega) (by omega)
    refine ⟨(out.1, reply :: out.2), ?_⟩
    rw [runCalls, hreply, Option.bind_some, hout]
    rfl

theorem session_defined (hnodup : (nodes cs).Nodup) (hnode : ∀ c ∈ cs, c.Pushes → c.node ≠ none)
    (hlen : cs.length < 2 ^ 31) (hfuel : cs.length ≤ fuel) :
    ∃ out, runCalls fuel start cs = some out :=
  @runCalls_defined _ _ _ _ _ [] start_refines (by simp [start]) hnodup hnode (by simpa using hlen)
    (by simpa using hfuel)

def crossedCalls : List Call :=
  [call .entry 100 (some 8), call .entry 200 (some 4), call .exit 300 none,
    { call .exit 200 none with popped := false }]

theorem crossedCalls_defined : ∃ out, runCalls 4 start crossedCalls = some out :=
  session_defined (by decide) (by decide) (by decide) (by decide)

theorem nodes_never_freed {replies : List Reply} (h : runCalls fuel start cs = some (s', replies)) :
    ∃ l : List ℕ, l.Nodup ∧ l.length = cs.countP (fun c => c.Pushes) ∧
      ∀ q, (s'.heap q).isSome ↔ q ∈ l := by
  have hheap := runCalls_heap h start_refines List.nodup_nil (by simp [start])
  exact ⟨nodes cs, hheap⟩

theorem nestedCalls_nodes : ∃ s' replies, ∃ l : List ℕ, runCalls 2 start nestedCalls = some (s', replies) ∧
    s'.printStack 0 = some [] ∧ l.Nodup ∧ l.length = 2 := by
  have hempty : (runCalls 2 start nestedCalls).map (fun out => out.1.printStack 0) = some (some []) := by
    decide
  obtain ⟨⟨s', replies⟩, h, hempty⟩ := Option.map_eq_some_iff.mp hempty
  obtain ⟨l, hnodup, hlen, -⟩ := nodes_never_freed h
  exact ⟨s', replies, l, h, hempty, hnodup, hlen⟩

end Embedwatch.ShadowStack
