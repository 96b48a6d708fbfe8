import Embedwatch.Ta.Flush

/-! No handler reads `memref.size`. The accesses to the buffer stay inside it when it is as large
as the handler takes for granted, and for a flush when it also holds a blank entry. -/

namespace Embedwatch.Ta

def Reply.InBounds (reply : Reply) (m : Memref) : Prop :=
  ∀ k ∈ reply.accesses, 4 * k + 4 ≤ m.size.toNat

def SafeCall (now cmdId paramTypes : Word) (params : Params) (s : State) : Prop :=
  ∃ reply, invokeCommand now cmdId paramTypes params s = some reply ∧ reply.InBounds params.memref

def Memref.Terminated (m : Memref) : Prop :=
  ∃ i, 32 * (i + 1) ≤ m.size.toNat ∧ Blank (UseT.ofMemory m.words i)

def Suffices (cmdId paramTypes : Word) (m : Memref) : Prop :=
  paramTypes = memrefInout →
    match cmdId.toNat with
    | 6 => 1024 * 32 ≤ m.size.toNat
    | 7 | 8 => 12 ≤ m.size.toNat
    | 11 => 129 * 32 ≤ m.size.toNat ∧ m.Terminated
    | _ => True

lemma inBounds_nil (m : Memref) {result : TeeResult} {s : State} {params : Params} :
    (⟨result, s, params, []⟩ : Reply).InBounds m := by simp [Reply.InBounds]

lemma inBounds_range (m : Memref) (n : ℕ) {result : TeeResult} {s : State} {params : Params} :
    (⟨result, s, params, List.range n⟩ : Reply).InBounds m ↔ n = 0 ∨ 4 * n ≤ m.size.toNat := by
  simp only [Reply.InBounds, List.mem_range]
  constructor
  · intro h
    cases n with
    | zero => exact Or.inl rfl
    | succ n => exact Or.inr (by have := h n (by omega); omega)
  · rintro (rfl | h) k hk
    · omega
    · omega

lemma expecting_inBounds (m : Memref) (expected paramTypes : Word) (params : Params) (s : State)
    (body : Reply) :
    (expecting expected paramTypes params s body).InBounds m ↔
      (paramTypes = expected → body.InBounds m) := by
  unfold expecting
  by_cases h : paramTypes = expected
  · simp [h]
  · simp [h, inBounds_nil]

lemma data_inBounds (m : Memref) {result : TeeResult} {s : State} {params : Params} :
    (⟨result, s, params, [0, 1, 2]⟩ : Reply).InBounds m ↔ 12 ≤ m.size.toNat := by
  simp [Reply.InBounds]
  omega

lemma flushLoop_terminated {m : Memref} (s : State) (h : m.Terminated) :
    ∃ s' i, flushLoop (UseT.ofMemory m.words) intIndices 0 s = some (s', i) ∧
      32 * (i + 1) ≤ m.size.toNat := by
  obtain ⟨j, hj, hblank⟩ := h
  have hlt := m.size.isLt
  let es := (List.range j).map (UseT.ofMemory m.words) ++ [UseT.ofMemory m.words j]
  have hes : ∀ k (h : k < es.length), UseT.ofMemory m.words (0 + k) = es[k] := by
    intro k hk
    have hle : k < j ∨ k = j := by simp [es] at hk; omega
    rcases hle with hk' | rfl
    · simp [es, hk']
    · simp [es]
  have hloop := flushLoop_of_blank intIndices s hes ⟨_, List.mem_append_right _ List.mem_cons_self, hblank⟩
    (by simp [es, intIndices]; omega)
  refine ⟨_, _, hloop, ?_⟩
  have hle := decodeEntries_length_le ((List.range j).map (UseT.ofMemory m.words))
  have hd : decodeEntries es = _ := decodeEntries_blank _ hblank []
  rw [hd]
  simp at hle
  omega

lemma flush_safe {now cmdId : Word} {params : Params} (s : State) (hcmd : cmdId.toNat = 11)
    (hsize : 129 * 32 ≤ params.memref.size.toNat) (hterm : params.memref.Terminated) :
    SafeCall now cmdId memrefInout params s := by
  obtain ⟨s', i, hloop, hi⟩ := flushLoop_terminated s hterm
  let reply : Reply := ⟨.success, s', params, List.range (129 * 8) ++ List.range ((i + 1) * 8)⟩
  refine ⟨reply.countFlush, ?_, ?_⟩
  · simp only [invokeCommand, hcmd, zbouncerFlushCache, hloop]
    rfl
  · intro k hk
    have hk' : k < 129 * 8 ∨ k < (i + 1) * 8 := by simpa [Reply.countFlush, reply] using hk
    omega

lemma flush_rejected {now cmdId paramTypes : Word} {params : Params} (s : State)
    (hcmd : cmdId.toNat = 11) (htypes : paramTypes ≠ memrefInout) :
    SafeCall now cmdId paramTypes params s := by
  refine ⟨Reply.countFlush ⟨.badParameters, s, params, []⟩, ?_, ?_⟩
  · simp only [invokeCommand, hcmd, zbouncerFlushCache, htypes, ne_eq, not_false_eq_true, if_true]
    rfl
  · simp [Reply.InBounds, Reply.countFlush]

lemma safeCall_iff {now cmdId paramTypes : Word} {params : Params} {s : State}
    (hcmd : cmdId.toNat ≠ 11) :
    SafeCall now cmdId paramTypes params s ↔ Suffices cmdId paramTypes params.memref := by
  have hvalue : memrefInout ≠ valueInout := by decide
  have hsome : ∀ reply : Reply, (∃ r, some reply = some r ∧ r.InBounds params.memref) ↔
      reply.InBounds params.memref := by simp
  unfold SafeCall invokeCommand
  split
  case h_3 hc =>
    simp only [hsome, copyTrace, expecting_inBounds, inBounds_range, Suffices, hc]
    refine imp_congr_right fun _ => ?_
    omega
  case h_4 hc | h_5 hc =>
    simp only [hsome, zbouncerIuse, zbouncerDdef, expecting_inBounds, data_inBounds, Suffices, hc]
  case h_8 hc => exact absurd hc hcmd
  case h_9 => simp [inBounds_nil, Suffices, *]
  all_goals
    simp only [zbouncerDef, zbouncerUse, zbouncerFuncCtr, zbouncerTimeGlobal,
      expecting_inBounds, inBounds_nil, Suffices, *, implies_true]

lemma terminated_of_flush {now cmdId : Word} {params : Params} {s : State}
    (hcmd : cmdId.toNat = 11) (h : SafeCall now cmdId memrefInout params s) :
    params.memref.Terminated := by
  obtain ⟨reply, hreply, hin⟩ := h
  simp only [invokeCommand, hcmd, zbouncerFlushCache, ne_eq, not_true_eq_false, if_false] at hreply
  cases hloop : flushLoop (UseT.ofMemory params.memref.words) intIndices 0 s with
  | none => simp [hloop] at hreply
  | some out =>
    obtain ⟨s', j⟩ := out
    simp only [hloop, Option.map_some, Option.some.injEq] at hreply
    subst hreply
    refine ⟨j, ?_, (flushLoop_some hloop).2.1⟩
    have hlast := hin ((j + 1) * 8 - 1) (by simp [Reply.countFlush])
    omega

end Embedwatch.Ta
