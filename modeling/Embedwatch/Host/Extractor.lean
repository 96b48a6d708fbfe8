import Embedwatch.Library.PlainText
import Embedwatch.Ta.Ring

/-! The extractor process: it asks the trusted application for the trace and writes it to
`trace.txt`, a line for each record it finds in the slots. -/

namespace Embedwatch.Host

open Library.PlainText
open Ta (Recorded SameTrace dynamicTraceSize singleSlot invokeCommand memrefInout valueInout)

def traceSize : ℕ := 2048

def word05u (w : Word) : Text := zeroPadded 10 5 w.toNat

def word05d (w : Word) : Text := zeroPaddedInt 5 w.toInt

def word08x (w : Word) : Text := zeroPadded 16 8 w.toNat

def bar : Text := [' ', '|', ' ']

def recordLine : Record → Text
  | .defRec id addr => ['D', 'E', 'F'] ++ bar ++ word05u id ++ bar ++ word08x addr
  | .ddefRec id addr size =>
    ['D', 'D', 'E', 'F'] ++ bar ++ word05u id ++ bar ++ word08x addr ++ bar ++ word05u size
  | .useRec id addr => ['U', 'S', 'E'] ++ bar ++ word05u id ++ bar ++ word08x addr
  | .iuseRec use defn addr =>
    ['I', '-', 'U', 'S', 'E'] ++ bar ++ word05d defn ++ bar ++ word05d use ++ bar ++ word08x addr

/-- What `write_trace_to_file` prints for a slot: up to three lines. -/
def slotLines (e : UseT) : List Text :=
  (if e.defId ≠ 0 ∧ e.defSize = -1 then [recordLine (.defRec e.defId e.defAddr)] else []) ++
  (if e.defId ≠ 0 ∧ e.defSize ≠ -1 then [recordLine (.ddefRec e.defId e.defAddr e.defSize)] else []) ++
  (if e.useId ≠ 0 then [recordLine (.useRec e.useId e.useAddr)] else []) ++
  (if e.iUseDef ≠ 0 then [recordLine (.iuseRec e.iUseUse e.iUseDef e.iUseAddr)] else [])

def writeTraceToFile (buffer : ℕ → Word) : List Text :=
  (List.range traceSize).flatMap fun i => slotLines (UseT.ofMemory buffer i)

structure Session where
  ta : Ta.State
  buffer : Ta.Memref

inductive Request
  | command (now cmdId paramTypes : Word) (params : Ta.Params)
  | gotvalue (now : Word)

def Session.step (s : Session) : Request → Option Session
  | .command now cmdId paramTypes params =>
    (invokeCommand now cmdId paramTypes params s.ta).map fun reply => { s with ta := reply.ta }
  | .gotvalue now =>
    (invokeCommand now 6 memrefInout ⟨0, 0, s.buffer⟩ s.ta).map fun reply =>
      ⟨reply.ta, reply.params.memref⟩

def Session.run (s : Session) (reqs : List Request) : Option Session := reqs.foldlM Session.step s

/-- `zinit` and the `calloc(TRACE_SIZE, sizeof(use_t))` of `z_extractor`. -/
def Session.start (now : Word) (params : Ta.Params) : Session :=
  ⟨(Ta.openSession now valueInout params Ta.boot).2, ⟨65536, fun _ => 0⟩⟩

def Session.extracted (s : Session) : List Text := writeTraceToFile s.buffer.words

def Session.recorded (s : Session) : List Text :=
  (s.ta.history.drop (s.ta.history.length - 2048)).map recordLine

def Printable : Record → Prop
  | .defRec id _ | .useRec id _ => id ≠ 0
  | .ddefRec id _ size => id ≠ 0 ∧ size ≠ -1
  | .iuseRec _ defn _ => defn ≠ 0

instance : (r : Record) → Decidable (Printable r)
  | .defRec id _ | .useRec id _ => inferInstanceAs (Decidable (id ≠ 0))
  | .ddefRec id _ size => inferInstanceAs (Decidable (id ≠ 0 ∧ size ≠ -1))
  | .iuseRec _ defn _ => inferInstanceAs (Decidable (defn ≠ 0))

lemma slotLines_zero : slotLines .zero = [] := by decide

lemma defLine_ne_ddefLine (id addr id' addr' size' : Word) :
    recordLine (.defRec id addr) ≠ recordLine (.ddefRec id' addr' size') := by
  intro h
  simp only [recordLine, List.cons_append, List.cons.injEq] at h
  exact absurd h.2.1 (by decide)

lemma slotLines_put (r : Record) : slotLines (Ta.put r .zero) =
    if Printable r then [recordLine r] else
      match r with
      | .ddefRec id addr _ => if id = 0 then [] else [recordLine (.defRec id addr)]
      | _ => [] := by
  cases r with
  | defRec id addr =>
    by_cases h : id = 0 <;>
      simp only [slotLines, Ta.put, UseT.zero, Printable, h, ne_eq, not_true_eq_false,
        not_false_iff, false_and, true_and, if_true, if_false, List.append_nil]
  | ddefRec id addr size =>
    by_cases h : id = 0 <;> by_cases hs : size = -1 <;>
      simp only [slotLines, Ta.put, UseT.zero, Printable, h, hs, ne_eq, not_true_eq_false,
        not_false_iff, false_and, true_and, and_false, if_true, if_false, List.append_nil,
        List.nil_append]
  | useRec id addr =>
    by_cases h : id = 0 <;>
      simp only [slotLines, Ta.put, UseT.zero, Printable, h, ne_eq, not_true_eq_false,
        not_false_iff, false_and, if_true, if_false, List.append_nil, List.nil_append]
  | iuseRec use defn addr =>
    by_cases h : defn = 0 <;>
      simp only [slotLines, Ta.put, UseT.zero, Printable, h, ne_eq, not_true_eq_false,
        not_false_iff, false_and, if_true, if_false, List.append_nil, List.nil_append]

lemma slotLines_length_le (r : Record) : (slotLines (Ta.put r .zero)).length ≤ 1 := by
  rw [slotLines_put]
  split
  · rfl
  · cases r with
    | ddefRec id addr size =>
      by_cases h : id = 0
      · simp only [h, if_true, List.length_nil, Nat.zero_le]
      · simp only [h, if_false, List.length_singleton, le_refl]
    | _ => exact Nat.zero_le 1

lemma slotLines_put_iff (r : Record) :
    slotLines (Ta.put r .zero) = [recordLine r] ↔ Printable r := by
  rw [slotLines_put]
  by_cases hp : Printable r
  · simp only [hp, if_true]
  · simp only [hp, if_false, iff_false]
    cases r with
    | ddefRec id addr size =>
      by_cases h : id = 0
      · simp only [h, if_true]
        exact (List.cons_ne_nil _ _).symm
      · simp only [h, if_false, List.cons.injEq, and_true]
        exact defLine_ne_ddefLine id addr id addr size
    | _ => exact (List.cons_ne_nil _ _).symm

lemma flatMap_range_getElem? {α β : Type*} (f : Option α → List β) (hf : f none = []) (l : List α)
    (n : ℕ) : ((List.range n).flatMap fun i => f l[i]?) = (l.take n).flatMap fun a => f (some a) := by
  induction n with
  | zero => simp
  | succ n ih =>
    rw [List.range_succ, List.flatMap_append, ih, List.take_add_one, List.flatMap_append,
      List.flatMap_singleton]
    cases h : l[n]? with
    | none => simp [hf]
    | some a => simp

lemma flatMap_length_le {α β : Type*} {f : α → List β} {l : List α}
    (hf : ∀ a ∈ l, (f a).length ≤ 1) : (l.flatMap f).length ≤ l.length := by
  have hmem : ∀ n ∈ l.map fun a => (f a).length, n ≤ 1 := by
    intro n hn
    obtain ⟨a, ha, rfl⟩ := List.mem_map.mp hn
    exact hf a ha
  have hsum := List.sum_le_card_nsmul _ _ hmem
  rw [List.length_flatMap]
  simpa only [List.length_map, smul_eq_mul, mul_one] using hsum

lemma eq_singleton_of_flatMap_eq_map {α β : Type*} {f : α → List β} {g : α → β} {l : List α}
    (hf : ∀ a ∈ l, (f a).length ≤ 1) (h : l.flatMap f = l.map g) : ∀ a ∈ l, f a = [g a] := by
  induction l with
  | nil => simp
  | cons a l ih =>
    have hle : (l.flatMap f).length ≤ l.length :=
      flatMap_length_le fun b hb => hf b (List.mem_cons_of_mem a hb)
    rw [List.flatMap_cons, List.map_cons] at h
    cases hfa : f a with
    | nil =>
      rw [hfa, List.nil_append] at h
      have hh := congrArg List.length h
      simp only [List.length_cons, List.length_map] at hh
      omega
    | cons b bs =>
      have hbs : bs = [] := by
        have hh := hf a List.mem_cons_self
        rw [hfa] at hh
        simpa using hh
      subst hbs
      rw [hfa, List.singleton_append, List.cons.injEq] at h
      intro c hc
      rcases List.mem_cons.mp hc with rfl | hc
      · rw [hfa, h.1]
      · exact ih (fun b hb => hf b (List.mem_cons_of_mem a hb)) h.2 c hc

def Session.Fresh (s : Session) : Prop := ∀ k, 1024 * 8 ≤ k → s.buffer.words k = 0

lemma step_invariant {s s' : Session} {req : Request} (h : s.step req = some s')
    (hr : Recorded s.ta) (hf : s.Fresh) : Recorded s'.ta ∧ s'.Fresh := by
  cases req with
  | command now cmdId paramTypes params =>
    simp only [Session.step, Option.map_eq_some_iff] at h
    obtain ⟨reply, hreply, rfl⟩ := h
    exact ⟨hr.invoke hreply, hf⟩
  | gotvalue now =>
    simp only [Session.step, Option.map_eq_some_iff] at h
    obtain ⟨reply, hreply, rfl⟩ := h
    refine ⟨hr.invoke hreply, ?_⟩
    cases hreply
    intro k hk
    have hnot : ¬ k < 1024 * 8 := by omega
    exact (if_neg hnot).trans (hf k hk)

theorem run_invariant {s s' : Session} {reqs : List Request} (h : s.run reqs = some s')
    (hr : Recorded s.ta) (hf : s.Fresh) : Recorded s'.ta ∧ s'.Fresh := by
  induction reqs generalizing s with
  | nil =>
    cases h
    exact ⟨hr, hf⟩
  | cons req reqs ih =>
    simp only [Session.run, List.foldlM_cons, Option.bind_eq_bind, Option.bind_eq_some_iff] at h
    obtain ⟨s₁, h₁, h⟩ := h
    obtain ⟨hr₁, hf₁⟩ := step_invariant h₁ hr hf
    exact ih h hr₁ hf₁

lemma start_invariant (now : Word) (params : Ta.Params) :
    Recorded (Session.start now params).ta ∧ (Session.start now params).Fresh := by
  refine ⟨?_, fun _ _ => rfl⟩
  simp only [Session.start, Ta.openSession, ne_eq, not_true_eq_false, if_false]
  exact ⟨rfl, rfl, rfl⟩

lemma ofMemory_zero {words : ℕ → Word} {i : ℕ} (h : ∀ k, 8 * i ≤ k → words k = 0) :
    UseT.ofMemory words i = .zero := by
  simp only [UseT.ofMemory, UseT.zero, UseT.mk.injEq]
  refine ⟨?_, ?_, ?_, ?_, ?_, ?_, ?_, ?_⟩ <;> exact h _ (by omega)

lemma extracted_gotvalue {s s' : Session} {now : Word} (h : s.step (.gotvalue now) = some s')
    (hr : Recorded s.ta) (hf : s.Fresh) (hn : s.ta.history.length ≤ 2048) :
    s'.extracted = (s.ta.history.take 1024).flatMap fun r => slotLines (Ta.put r .zero) := by
  simp only [Session.step, Option.map_eq_some_iff] at h
  obtain ⟨reply, hreply, rfl⟩ := h
  cases hreply
  let words := Ta.copiedWords s.ta s.buffer.words
  have hlow : ∀ i < 1024, UseT.ofMemory words i = singleSlot s.ta.history[i]? := by
    intro i hi
    have hcongr : UseT.ofMemory words i = UseT.ofMemory (UseT.toMemory fun j => s.ta.dynamicTrace j) i :=
      UseT.ofMemory_congr fun k hk => if_pos (by omega)
    rw [hcongr, UseT.ofMemory_toMemory, hr.dynamicTrace]
    exact Ta.boot_dynamicTrace hn i
  have hhigh : ∀ i, 1024 ≤ i → UseT.ofMemory words i = .zero := by
    intro i hi
    refine ofMemory_zero fun k hk => ?_
    have hnot : ¬ k < 1024 * 8 := by omega
    exact (if_neg hnot).trans (hf k (by omega))
  have htrace : traceSize = 1024 + 1024 := rfl
  change (List.range traceSize).flatMap (fun i => slotLines (UseT.ofMemory words i)) = _
  rw [htrace, List.range_add, List.flatMap_append]
  have h1 : (List.range 1024).flatMap (fun i => slotLines (UseT.ofMemory words i)) =
      (List.range 1024).flatMap fun i => slotLines (singleSlot s.ta.history[i]?) := by
    refine List.flatMap_congr fun i hi => ?_
    rw [hlow i (List.mem_range.mp hi)]
  have h2 : ((List.range 1024).map (1024 + ·)).flatMap
      (fun i => slotLines (UseT.ofMemory words i)) = [] := by
    rw [List.flatMap_eq_nil_iff]
    intro i hi
    obtain ⟨j, -, rfl⟩ := List.mem_map.mp hi
    rw [hhigh _ (by omega), slotLines_zero]
  rw [h1, h2, List.append_nil,
    flatMap_range_getElem? (fun o => slotLines (singleSlot o)) slotLines_zero]
  rfl

lemma run_append_gotvalue {s s'' : Session} {reqs : List Request} {now : Word}
    (h : s.run (reqs ++ [.gotvalue now]) = some s'') :
    ∃ s', s.run reqs = some s' ∧ s'.step (.gotvalue now) = some s'' := by
  simp only [Session.run, List.foldlM_append, Option.bind_eq_bind, Option.bind_eq_some_iff] at h
  obtain ⟨s', hs', h⟩ := h
  exact ⟨s', hs', by simpa [List.foldlM_cons] using h⟩

lemma gotvalue_history {s s' : Session} {now : Word} (h : s.step (.gotvalue now) = some s') :
    s'.ta.history = s.ta.history := by
  simp only [Session.step, Option.map_eq_some_iff] at h
  obtain ⟨reply, hreply, rfl⟩ := h
  cases hreply
  rfl

lemma extracted_eq {now₀ now : Word} {params : Ta.Params} {reqs : List Request} {s : Session}
    (h : (Session.start now₀ params).run (reqs ++ [.gotvalue now]) = some s)
    (hn : s.ta.history.length ≤ 2048) :
    s.extracted = (s.ta.history.take 1024).flatMap fun r => slotLines (Ta.put r .zero) := by
  obtain ⟨s', hrun, hstep⟩ := run_append_gotvalue h
  obtain ⟨hr, hf⟩ := start_invariant now₀ params
  obtain ⟨hr', hf'⟩ := run_invariant hrun hr hf
  rw [gotvalue_history hstep] at hn ⊢
  exact extracted_gotvalue hstep hr' hf' hn

lemma recorded_eq {s : Session} (hn : s.ta.history.length ≤ 2048) :
    s.recorded = s.ta.history.map recordLine := by
  rw [Session.recorded, Nat.sub_eq_zero_of_le hn, List.drop_zero]

lemma extracted_length_le (rs : List Record) :
    ((rs.take 1024).flatMap fun r => slotLines (Ta.put r .zero)).length ≤ 1024 := by
  have hle := flatMap_length_le (l := rs.take 1024) fun r _ => slotLines_length_le r
  rw [List.length_take] at hle
  omega

theorem extracted_iff {now₀ now : Word} {params : Ta.Params} {reqs : List Request} {s : Session}
    (h : (Session.start now₀ params).run (reqs ++ [.gotvalue now]) = some s) :
    (s.ta.history.length ≤ 1024 ∧ (∀ r ∈ s.ta.history, Printable r) →
      s.extracted = s.recorded) ∧
    (s.ta.history.length ≤ 2048 → s.extracted = s.recorded →
      s.ta.history.length ≤ 1024 ∧ ∀ r ∈ s.ta.history, Printable r) := by
  constructor
  · rintro ⟨hn, hp⟩
    have hn' : s.ta.history.length ≤ 2048 := by omega
    rw [extracted_eq h hn', recorded_eq hn', List.take_of_length_le hn, List.map_eq_flatMap]
    exact List.flatMap_congr fun r hr => (slotLines_put_iff r).mpr (hp r hr)
  · intro hn heq
    rw [extracted_eq h hn, recorded_eq hn] at heq
    have hlen : s.ta.history.length ≤ 1024 := by
      have hle := extracted_length_le s.ta.history
      rwa [heq, List.length_map] at hle
    rw [List.take_of_length_le hlen] at heq
    refine ⟨hlen, fun r hr => (slotLines_put_iff r).mp ?_⟩
    exact eq_singleton_of_flatMap_eq_map (fun r _ => slotLines_length_le r) heq r hr

def defCommand (id addr : Word) : Request :=
  .command 0 4 valueInout ⟨id, addr, ⟨0, fun _ => 0⟩⟩

theorem extracted_def : ∃ s, (Session.start 0 ⟨0, 0, ⟨0, fun _ => 0⟩⟩).run
    ([defCommand 1 100] ++ [.gotvalue 0]) = some s ∧ s.extracted = s.recorded := by
  have hrun : (((Session.start 0 ⟨0, 0, ⟨0, fun _ => 0⟩⟩).run
      ([defCommand 1 100] ++ [.gotvalue 0])).map fun s => s.ta.history) =
        some [.defRec 1 100] := rfl
  obtain ⟨s, hs, hist⟩ := Option.map_eq_some_iff.mp hrun
  refine ⟨s, hs, (extracted_iff hs).1 ?_⟩
  rw [hist]
  exact ⟨by decide, by decide⟩

theorem extracted_def_1025 : ∃ s, (Session.start 0 ⟨0, 0, ⟨0, fun _ => 0⟩⟩).run
    (List.replicate 1025 (defCommand 1 100) ++ [.gotvalue 0]) = some s ∧
      s.ta.history.length = 1025 ∧ s.extracted.length ≤ 1024 ∧ s.extracted ≠ s.recorded := by
  have hrun : (((Session.start 0 ⟨0, 0, ⟨0, fun _ => 0⟩⟩).run
      (List.replicate 1025 (defCommand 1 100) ++ [.gotvalue 0])).map fun s =>
        s.ta.history.length) = some 1025 := by decide +kernel
  obtain ⟨s, hs, hlen⟩ := Option.map_eq_some_iff.mp hrun
  have hle : s.extracted.length ≤ 1024 := by
    rw [extracted_eq hs (by omega)]
    exact extracted_length_le _
  refine ⟨s, hs, hlen, hle, ?_⟩
  intro heq
  rw [heq, recorded_eq (by omega), List.length_map] at hle
  omega

end Embedwatch.Host
