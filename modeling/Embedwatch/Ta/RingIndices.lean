import Embedwatch.Ta.Sessions

/-! The indices with which the commands access the ring. -/

namespace Embedwatch.Ta

def storeIndices (s : State) (r : Record) : List ℤ :=
  match r with
  | .defRec _ _ | .ddefRec _ _ _ | .iuseRec _ _ _ => [s.slot, s.slot, s.slot]
  | .useRec _ _ => [s.slot, s.slot]

def flushIndices (cache : ℕ → UseT) : ℕ → ℕ → State → List ℤ
  | 0, _, _ => []
  | fuel + 1, i, s =>
    match decodeEntry (cache i) with
    | some r => storeIndices s r ++ flushIndices cache fuel (i + 1) (s.store r)
    | none => []

/-- The log of an `IUSE` reads the slot again, by `trace_id` itself. `GOTVALUE` reads the first 1024
slots. -/
def Call.indices (c : Call) (s : State) : List ℤ :=
  let data := c.params.memref.words
  match c.cmdId.toNat with
  | 4 =>
    if c.paramTypes = valueInout then storeIndices s (.defRec c.params.valueA c.params.valueB) else []
  | 5 =>
    if c.paramTypes = valueInout then storeIndices s (.useRec c.params.valueA c.params.valueB) else []
  | 6 => if c.paramTypes = memrefInout then (List.range 1024).map fun k : ℕ => (k : ℤ) else []
  | 7 =>
    if c.paramTypes = memrefInout then
      storeIndices s (.iuseRec (data 0) (data 1) (data 2)) ++
        [s.traceId.toInt, s.traceId.toInt, s.traceId.toInt]
    else []
  | 8 =>
    if c.paramTypes = memrefInout then storeIndices s (.ddefRec (data 0) (data 1) (data 2)) else []
  | 11 =>
    if c.paramTypes = memrefInout then flushIndices (UseT.ofMemory data) intIndices 0 s else []
  | _ => []

/-- The fields of the ring that `zbouncer_iuse` logs, before it increments `trace_id`. -/
def iuseLog (params : Params) (s : State) : List Word :=
  let data := params.memref.words
  let e := (s.store (.iuseRec (data 0) (data 1) (data 2))).dynamicTrace s.traceId.toInt
  [e.iUseDef, e.iUseUse, e.iUseAddr]

def Call.log (c : Call) (s : State) : List Word :=
  if c.cmdId.toNat = 7 ∧ c.paramTypes = memrefInout then iuseLog c.params s else []

def State.outside (s : State) (is : List ℤ) (f : ℤ → UseT) : State :=
  { s with dynamicTrace := fun i => if i ∈ is then s.dynamicTrace i else f i }

def Reply.outside (reply : Reply) (is : List ℤ) (f : ℤ → UseT) : Reply :=
  { reply with ta := reply.ta.outside is f }

def InRange (i : ℤ) : Prop := 0 ≤ i ∧ i < 2048

def Call.Allowed (c : Call) (n : ℕ) : Prop :=
  (n % 2 ^ 32 < 2 ^ 31 ∨ n % 2048 = 0) ∧ (c.cmdId.toNat = 7 → n % 2 ^ 32 < 2048)

instance (c : Call) (n : ℕ) : Decidable (c.Allowed n) := by unfold Call.Allowed; infer_instance

variable {s s' : State} {c : Call} {cs : List Call} {n : ℕ} {is : List ℤ} {f : ℤ → UseT}

lemma outside_dynamicTrace {i : ℤ} (hi : i ∈ is) :
    (s.outside is f).dynamicTrace i = s.dynamicTrace i := if_pos hi

lemma slot_mem_storeIndices (s : State) (r : Record) : s.slot ∈ storeIndices s r := by
  cases r <;> exact List.mem_cons_self

lemma store_outside {r : Record} (hr : storeIndices s r ⊆ is) :
    (s.outside is f).store r = (s.store r).outside is f := by
  have hslot : s.slot ∈ is := hr (slot_mem_storeIndices s r)
  have hring : Function.update (s.outside is f).dynamicTrace s.slot
      (put r ((s.outside is f).dynamicTrace s.slot)) = ((s.store r).outside is f).dynamicTrace := by
    funext i
    rw [outside_dynamicTrace hslot]
    by_cases hi : i = s.slot
    · rw [hi, Function.update_self, outside_dynamicTrace hslot]
      exact (Function.update_self s.slot (put r (s.dynamicTrace s.slot)) s.dynamicTrace).symm
    · rw [Function.update_of_ne hi]
      simp only [State.outside, State.store, Function.update_of_ne hi]
  exact congrArg (fun ring => { s.store r with dynamicTrace := ring }) hring

lemma flushLoop_outside {cache : ℕ → UseT} {fuel i : ℕ} (hi : flushIndices cache fuel i s ⊆ is) :
    flushLoop cache fuel i (s.outside is f) =
      (flushLoop cache fuel i s).map fun (s', k) => (s'.outside is f, k) := by
  induction fuel generalizing i s with
  | zero => rfl
  | succ fuel ih =>
    rw [flushIndices] at hi
    rw [flushLoop, flushLoop]
    cases hd : decodeEntry (cache i) with
    | none => rfl
    | some r =>
      simp only [hd, List.append_subset] at hi
      obtain ⟨hstore, hrest⟩ := hi
      simp only [store_outside hstore]
      exact ih hrest

lemma copiedWords_outside {words : ℕ → Word}
    (his : (List.range 1024).map (fun k : ℕ => (k : ℤ)) ⊆ is) :
    copiedWords (s.outside is f) words = copiedWords s words := by
  funext k
  rw [copiedWords, copiedWords]
  split
  · next hk =>
    have hmem : ((k / 8 : ℕ) : ℤ) ∈ is :=
      his (List.mem_map_of_mem (List.mem_range.mpr (by omega)))
    rw [UseT.toMemory, UseT.toMemory, outside_dynamicTrace hmem]
  · rfl

lemma Reply.outside_mk (result : TeeResult) (s : State) (params : Params) (words : List ℕ) :
    (⟨result, s, params, words⟩ : Reply).outside is f = ⟨result, s.outside is f, params, words⟩ :=
  rfl

lemma expecting_outside {expected types : Word} {params : Params} {body body' : Reply}
    (hbody : types = expected → body' = body.outside is f) :
    expecting expected types params (s.outside is f) body' =
      (expecting expected types params s body).outside is f := by
  rw [expecting, expecting]
  by_cases htypes : types = expected
  · rw [if_neg (not_not.mpr htypes), if_neg (not_not.mpr htypes), hbody htypes]
  · rw [if_pos htypes, if_pos htypes]
    rfl

lemma expecting_store_outside {expected types : Word} {params : Params} {r : Record} {words : List ℕ}
    (his : types = expected → storeIndices s r ⊆ is) :
    expecting expected types params (s.outside is f)
        ⟨.success, (s.outside is f).store r, params, words⟩ =
      (expecting expected types params s ⟨.success, s.store r, params, words⟩).outside is f := by
  refine expecting_outside fun htypes => ?_
  rw [store_outside (his htypes)]
  rfl

lemma copyTrace_outside {types : Word} {params : Params}
    (his : types = memrefInout → (List.range 1024).map (fun k : ℕ => (k : ℤ)) ⊆ is) :
    copyTrace types params (s.outside is f) = (copyTrace types params s).outside is f := by
  rw [copyTrace, copyTrace]
  refine expecting_outside fun htypes => ?_
  rw [copiedWords_outside (his htypes), Reply.outside_mk]

lemma zbouncerFuncCtr_outside {types : Word} {params : Params} :
    zbouncerFuncCtr types params (s.outside is f) =
      (zbouncerFuncCtr types params s).outside is f :=
  expecting_outside fun _ => rfl

lemma zbouncerTimeGlobal_outside {now types : Word} {params : Params} :
    zbouncerTimeGlobal now types params (s.outside is f) =
      (zbouncerTimeGlobal now types params s).outside is f :=
  expecting_outside fun _ => rfl

lemma zbouncerFlushCache_outside {types : Word} {params : Params}
    (his : types = memrefInout →
      flushIndices (UseT.ofMemory params.memref.words) intIndices 0 s ⊆ is) :
    zbouncerFlushCache types params (s.outside is f) =
      (zbouncerFlushCache types params s).map fun reply => reply.outside is f := by
  rw [zbouncerFlushCache, zbouncerFlushCache]
  by_cases htypes : types = memrefInout
  · rw [if_neg (not_not.mpr htypes), if_neg (not_not.mpr htypes), flushLoop_outside (his htypes)]
    cases flushLoop (UseT.ofMemory params.memref.words) intIndices 0 s <;> rfl
  · rw [if_pos htypes, if_pos htypes]
    rfl

lemma iuseLog_outside {params : Params}
    (his : storeIndices s (.iuseRec (params.memref.words 0) (params.memref.words 1)
      (params.memref.words 2)) ⊆ is) (hid : s.traceId.toInt ∈ is) :
    iuseLog params (s.outside is f) = iuseLog params s := by
  have hslot := outside_dynamicTrace (s := s.store (.iuseRec (params.memref.words 0)
    (params.memref.words 1) (params.memref.words 2))) (f := f) hid
  rw [iuseLog, iuseLog]
  simp only [store_outside his]
  exact congrArg (fun e => [e.iUseDef, e.iUseUse, e.iUseAddr]) hslot

theorem Call.invoke_outside (c : Call) (s : State) (f : ℤ → UseT) :
    c.invoke (s.outside (c.indices s) f) =
        (c.invoke s).map (fun reply => reply.outside (c.indices s) f) ∧
      c.log (s.outside (c.indices s) f) = c.log s := by
  have hone : ∀ {expected : Word} {is : List ℤ},
      c.indices s = (if c.paramTypes = expected then is else []) → c.paramTypes = expected →
        is ⊆ c.indices s := by
    intro expected is his htypes
    rw [his, if_pos htypes]
    exact List.Subset.refl is
  generalize his : c.indices s = is at *
  rw [Call.indices] at his
  rw [Call.invoke, Call.invoke, invokeCommand.eq_def, invokeCommand.eq_def, Call.log, Call.log]
  split at his
  case h_1 h =>
    simp only [h, Option.map_some]
    exact ⟨congrArg some (expecting_store_outside (hone his.symm)), by simp⟩
  case h_2 h =>
    simp only [h, Option.map_some]
    exact ⟨congrArg some (expecting_store_outside (hone his.symm)), by simp⟩
  case h_3 h =>
    simp only [h, Option.map_some]
    exact ⟨congrArg some (copyTrace_outside (hone his.symm)), by simp⟩
  case h_4 h =>
    have hsub := fun htypes => List.append_subset.mp (hone his.symm htypes)
    simp only [h, Option.map_some, true_and]
    refine ⟨congrArg some (expecting_store_outside fun htypes => (hsub htypes).1), ?_⟩
    split
    · next htypes =>
      obtain ⟨hstore, hid⟩ := hsub htypes
      exact iuseLog_outside hstore (hid List.mem_cons_self)
    · rfl
  case h_5 h =>
    simp only [h, Option.map_some]
    exact ⟨congrArg some (expecting_store_outside (hone his.symm)), by simp⟩
  case h_6 h =>
    simp only [h]
    rw [zbouncerFlushCache_outside (hone his.symm), Option.map_map, Option.map_map]
    exact ⟨rfl, by simp⟩
  case h_7 h4 h5 h6 h7 h8 h11 =>
    refine ⟨?_, by rw [if_neg fun h => h7 h.1, if_neg fun h => h7 h.1]⟩
    split
    · next h => exact absurd h h4
    · next h => exact absurd h h5
    · next h => exact absurd h h6
    · next h => exact absurd h h7
    · next h => exact absurd h h8
    · exact congrArg some zbouncerFuncCtr_outside
    · exact congrArg some zbouncerTimeGlobal_outside
    · next h => exact absurd h h11
    · rfl

lemma slot_eq (hs : s.traceId = BitVec.ofNat 32 n) :
    s.slot = (BitVec.ofNat 32 n).toInt.tmod 2048 := by
  rw [State.slot, hs]
  rfl

lemma toInt_ofNat_eq (n : ℕ) : (BitVec.ofNat 32 n).toInt =
    if n % 2 ^ 32 < 2 ^ 31 then ((n % 2 ^ 32 : ℕ) : ℤ) else ((n % 2 ^ 32 : ℕ) : ℤ) - 2 ^ 32 := by
  rw [BitVec.toInt_eq_toNat_cond, BitVec.toNat_ofNat]
  split <;> split <;> omega

lemma inRange_slot (hs : s.traceId = BitVec.ofNat 32 n) :
    InRange s.slot ↔ n % 2 ^ 32 < 2 ^ 31 ∨ n % 2048 = 0 := by
  rw [slot_eq hs, toInt_ofNat_eq, InRange]
  by_cases h : n % 2 ^ 32 < 2 ^ 31
  · rw [if_pos h, Int.tmod_eq_emod_of_nonneg (by omega)]
    omega
  · rw [if_neg h, ← neg_sub, Int.neg_tmod, Int.tmod_eq_emod_of_nonneg (by omega)]
    omega

lemma inRange_traceId (hs : s.traceId = BitVec.ofNat 32 n) :
    InRange s.traceId.toInt ↔ n % 2 ^ 32 < 2048 := by
  rw [hs, toInt_ofNat_eq, InRange]
  split <;> omega

lemma inRange_storeIndices (hs : s.traceId = BitVec.ofNat 32 n) (r : Record) :
    (∀ i ∈ storeIndices s r, InRange i) ↔ n % 2 ^ 32 < 2 ^ 31 ∨ n % 2048 = 0 := by
  rw [← inRange_slot hs]
  cases r <;> simp [storeIndices]

lemma store_traceId (hs : s.traceId = BitVec.ofNat 32 n) (r : Record) :
    (s.store r).traceId = BitVec.ofNat 32 (n + 1) := by
  rw [BitVec.ofNat_add, ← hs]
  rfl

lemma inRange_flushIndices {cache : ℕ → UseT} {fuel i : ℕ} (hs : s.traceId = BitVec.ofNat 32 n) :
    (∀ k ∈ flushIndices cache fuel i s, InRange k) ↔
      ∀ j < (flushRecords cache fuel i).length, (n + j) % 2 ^ 32 < 2 ^ 31 ∨ (n + j) % 2048 = 0 := by
  induction fuel generalizing i s n with
  | zero => simp [flushIndices, flushRecords]
  | succ fuel ih =>
    rw [flushIndices, flushRecords]
    cases hd : decodeEntry (cache i) with
    | none => simp
    | some r =>
      have hrest := ih (i := i + 1) (store_traceId hs r)
      simp only [List.forall_mem_append, inRange_storeIndices hs, hrest, List.length_cons]
      constructor
      · rintro ⟨hfirst, hall⟩ j hj
        cases j with
        | zero => exact hfirst
        | succ j =>
          have h := hall j (by omega)
          rwa [Nat.add_assoc, Nat.add_comm 1 j] at h
      · intro hall
        refine ⟨hall 0 (Nat.succ_pos _), ?_⟩
        intro j hj
        have h := hall (j + 1) (by omega)
        rwa [Nat.add_assoc, Nat.add_comm 1 j]

lemma Call.inRange_iff (hs : s.traceId = BitVec.ofNat 32 n) :
    (∀ i ∈ c.indices s, InRange i) ↔ ∀ j < c.records.length, c.Allowed (n + j) := by
  have hone : ∀ (r : Record) (expected : Word), c.cmdId.toNat ≠ 7 →
      ((∀ i ∈ (if c.paramTypes = expected then storeIndices s r else []), InRange i) ↔
        ∀ j < (if c.paramTypes = expected then [r] else []).length, c.Allowed (n + j)) := by
    intro r expected hne
    by_cases hp : c.paramTypes = expected
    · simp [hp, inRange_storeIndices hs, Call.Allowed, hne]
    · simp [hp]
  rw [Call.indices]
  split
  case h_1 h =>
    simp only [Call.records, h]
    exact hone _ _ (by omega)
  case h_2 h =>
    simp only [Call.records, h]
    exact hone _ _ (by omega)
  case h_3 h =>
    simp only [Call.records, h]
    split
    · simp only [List.mem_map, List.mem_range, List.length_nil, Nat.not_lt_zero, false_implies,
        implies_true, iff_true]
      rintro _ ⟨k, hk, rfl⟩
      exact ⟨by omega, by omega⟩
    · simp
  case h_4 h =>
    simp only [Call.records, h]
    by_cases hp : c.paramTypes = memrefInout
    · simp only [hp, if_true, List.forall_mem_append, inRange_storeIndices hs, List.length_singleton,
        Nat.lt_one_iff, forall_eq, Nat.add_zero, Call.Allowed, h, forall_const]
      simp only [List.mem_cons, List.not_mem_nil, or_false, or_self, forall_eq, inRange_traceId hs]
    · simp [hp]
  case h_5 h =>
    simp only [Call.records, h]
    exact hone _ _ (by omega)
  case h_6 h =>
    simp only [Call.records, h]
    by_cases hp : c.paramTypes = memrefInout
    · have hne : c.cmdId.toNat ≠ 7 := by omega
      simp only [hp, if_true, inRange_flushIndices hs, Call.Allowed, hne, false_implies, and_true]
    · simp [hp]
  case h_7 h4 h5 h6 h7 h8 h11 =>
    have hnone : c.records = [] := by
      rw [Call.records]
      split
      · next hc => exact absurd hc h4
      · next hc => exact absurd hc h5
      · next hc => exact absurd hc h7
      · next hc => exact absurd hc h8
      · next hc => exact absurd hc h11
      · rfl
    simp [hnone]

theorem ring_indices_iff {now : Word} {params : Params} (hrun : runCalls (opened now params) cs = some s)
    (c : Call) :
    (∀ i ∈ c.indices s, InRange i) ↔
      ∀ j < c.records.length, c.Allowed ((cs.flatMap Call.records).length + j) := by
  apply Call.inRange_iff
  rw [(runCalls_stored hrun).traceId, storeAll_traceId, opened_traceId]
  exact BitVec.zero_add _

def defCall : Call := ⟨0, 4, valueInout, ⟨0x40001, 0x1000, ⟨0, fun _ => 0⟩⟩⟩

def iuseCall : Call := ⟨0, 7, memrefInout, ⟨0, 0, ⟨12, fun _ => 0x30001⟩⟩⟩

lemma run_defCalls (k : ℕ) : ∃ s', runCalls s (List.replicate k defCall) = some s' ∧
    s'.traceId = s.traceId + BitVec.ofNat 32 k := by
  have hrecords : ∀ k, ((List.replicate k defCall).flatMap Call.records).length = k := by
    intro k
    induction k with
    | zero => rfl
    | succ k ih =>
      rw [List.replicate_succ, List.flatMap_cons, List.length_append, ih]
      exact Nat.add_comm 1 k
  have hruns : ∀ (k : ℕ) (s : State), ∃ s', runCalls s (List.replicate k defCall) = some s' := by
    intro k
    induction k with
    | zero => exact fun s => ⟨s, rfl⟩
    | succ k ih =>
      intro s
      obtain ⟨s', hs'⟩ := ih (s.store (.defRec 0x40001 0x1000))
      exact ⟨s', hs'⟩
  obtain ⟨s', hs'⟩ := hruns k s
  refine ⟨s', hs', ?_⟩
  rw [(runCalls_stored hs').traceId, storeAll_traceId, hrecords]

theorem second_iuse_inRange : ∃ s, runCalls (opened 0 ⟨0, 0, ⟨0, fun _ => 0⟩⟩) [iuseCall] = some s ∧
    ∀ i ∈ iuseCall.indices s, InRange i := by
  have hrun : runCalls (opened 0 ⟨0, 0, ⟨0, fun _ => 0⟩⟩) [iuseCall] =
      some ((opened 0 ⟨0, 0, ⟨0, fun _ => 0⟩⟩).store (.iuseRec 0x30001 0x30001 0x30001)) := rfl
  refine ⟨_, hrun, (ring_indices_iff hrun iuseCall).mpr ?_⟩
  have hlength : iuseCall.records.length = 1 := rfl
  intro j hj
  obtain rfl : j = 0 := by omega
  decide

theorem iuse_log_out_of_range : ∃ s, runCalls (opened 0 ⟨0, 0, ⟨0, fun _ => 0⟩⟩)
    (List.replicate 2048 defCall) = some s ∧ ∃ i ∈ iuseCall.indices s, i = 2048 ∧ ¬ InRange i := by
  obtain ⟨s, hrun, hid⟩ := run_defCalls (s := opened 0 ⟨0, 0, ⟨0, fun _ => 0⟩⟩) 2048
  have hid : s.traceId = BitVec.ofNat 32 2048 := hid.trans (BitVec.zero_add _)
  refine ⟨s, hrun, s.traceId.toInt, ?_, ?_, ?_⟩
  · exact List.mem_append_right _ List.mem_cons_self
  · rw [hid]
    rfl
  · rw [inRange_traceId hid]
    decide

end Embedwatch.Ta
