import Embedwatch.Ta.Sessions

/-! What a session reports of itself. The counter that the dispatcher advances for a flush is the one
that `zbouncer_func_ctr` reports as the definitions, and no other counter is ever advanced. -/

namespace Embedwatch.Ta

def flushes (cs : List Call) : ℕ := cs.countP fun c => c.cmdId.toNat = 11

def countersAfter (n : ℕ) : List Word := (List.replicate 15 0).set 4 (BitVec.ofNat 32 n)

structure Measured (start : Word) (n : ℕ) (s : State) : Prop where
  funcCtr : s.funcCtr = countersAfter n
  globalStart : s.globalStart = start

variable {s s' : State} {c : Call} {cs : List Call} {reply : Reply} {start : Word} {n : ℕ}

lemma Measured.ctr (h : Measured start n s) (cmd : ℕ) :
    s.ctr cmd = if cmd = 4 then BitVec.ofNat 32 n else 0 := by
  rw [State.ctr, h.funcCtr, countersAfter, List.getD_eq_getElem?_getD, List.getElem?_set]
  by_cases h4 : cmd = 4
  · subst h4
    rfl
  · rw [if_neg (fun h => h4 h.symm), if_neg h4, List.getElem?_replicate]
    split <;> rfl

lemma Measured.storeAll (h : Measured start n s) (rs : List Record) :
    Measured start n (s.storeAll rs) := by
  induction rs generalizing s with
  | nil => exact h
  | cons r rs ih => exact ih ⟨h.funcCtr, h.globalStart⟩

lemma Measured.countFlush (h : Measured start n reply.ta) :
    Measured start (n + 1) reply.countFlush.ta := by
  refine ⟨?_, h.globalStart⟩
  calc reply.countFlush.ta.funcCtr
      = reply.ta.funcCtr.set 4 (reply.ta.ctr 4 + 1) := rfl
    _ = countersAfter (n + 1) := by
        rw [h.ctr, if_pos rfl, h.funcCtr, countersAfter, countersAfter, List.set_set, BitVec.ofNat_add]
        rfl

lemma Measured.expecting {expected : Word} {body : Reply} (h : Measured start n s)
    (hbody : Measured start n body.ta) :
    Measured start n (expecting expected c.paramTypes c.params s body).ta := by
  rw [Ta.expecting]
  split
  · exact h
  · exact hbody

lemma Measured.flushCache {params : Params} {paramTypes : Word} (h : Measured start n s)
    (hreply : zbouncerFlushCache paramTypes params s = some reply) : Measured start n reply.ta := by
  rw [zbouncerFlushCache] at hreply
  split at hreply
  · obtain rfl := Option.some.inj hreply
    exact h
  · split at hreply
    · next hloop =>
      obtain rfl := Option.some.inj hreply
      have hstored := flushLoop_storeAll hloop
      subst hstored
      exact h.storeAll _
    · cases hreply

lemma Measured.invoke (h : Measured start n s) (hreply : c.invoke s = some reply) :
    Measured start (n + if c.cmdId.toNat = 11 then 1 else 0) reply.ta := by
  have hstore : ∀ r, Measured start n (s.store r) := fun r => ⟨h.funcCtr, h.globalStart⟩
  rw [Call.invoke, invokeCommand] at hreply
  split at hreply
  case h_8 hc =>
    obtain ⟨flushed, hflushed, rfl⟩ := Option.map_eq_some_iff.mp hreply
    rw [if_pos hc]
    exact (h.flushCache hflushed).countFlush
  case h_1 hc | h_2 hc | h_4 hc | h_5 hc =>
    obtain rfl := Option.some.inj hreply
    rw [if_neg (by omega)]
    exact h.expecting (hstore _)
  case h_3 hc | h_6 hc =>
    obtain rfl := Option.some.inj hreply
    rw [if_neg (by omega)]
    exact h.expecting h
  case h_7 hc =>
    obtain rfl := Option.some.inj hreply
    rw [if_neg (by omega)]
    exact h.expecting ⟨h.funcCtr, h.globalStart⟩
  case h_9 _ hc =>
    obtain rfl := Option.some.inj hreply
    rw [if_neg hc]
    exact h

lemma Measured.runCalls (h : Measured start n s) (hrun : runCalls s cs = some s') :
    Measured start (n + flushes cs) s' := by
  induction cs generalizing s n with
  | nil =>
    cases hrun
    exact h
  | cons c cs ih =>
    rw [Ta.runCalls, List.foldlM_cons] at hrun
    obtain ⟨s₁, h₁, hrun⟩ := Option.bind_eq_some_iff.mp hrun
    obtain ⟨reply, hreply, rfl⟩ := Option.map_eq_some_iff.mp h₁
    have hrest := ih (h.invoke hreply) hrun
    rw [flushes, List.countP_cons]
    simp only [decide_eq_true_eq]
    rwa [Nat.add_assoc, Nat.add_comm (ite _ _ _)] at hrest

lemma measured_opened (now : Word) (params : Params) : Measured now 0 (opened now params) :=
  ⟨rfl, rfl⟩

lemma low_half (n : ℕ) : BitVec.ofNat 32 n &&& 0x0000ffff = BitVec.ofNat 32 (n % 2 ^ 16) := by
  apply BitVec.eq_of_toNat_eq
  have hmask : (0x0000ffff : Word).toNat = 2 ^ 16 - 1 := rfl
  rw [BitVec.toNat_and, hmask, Nat.and_two_pow_sub_one_eq_mod, BitVec.toNat_ofNat,
    BitVec.toNat_ofNat, Nat.mod_mod_of_dvd _ (by decide)]
  omega

theorem reported_statistics {now : Word} {params : Params}
    (h : runCalls (opened now params) cs = some s) (c : Call) (htypes : c.paramTypes = valueInout) :
    (c.cmdId.toNat = 9 → c.invoke s = some ⟨.success, s,
      { c.params with valueA := BitVec.ofNat 32 (flushes cs % 2 ^ 16), valueB := 0 }, []⟩) ∧
    (c.cmdId.toNat = 10 → c.invoke s = some ⟨.success, { s with globalEnd := c.now },
      { c.params with valueA := now, valueB := c.now }, []⟩) := by
  have hs : Measured now (flushes cs) s := by
    simpa only [Nat.zero_add] using (measured_opened now params).runCalls h
  constructor
  · intro hcmd
    have hreply : zbouncerFuncCtr c.paramTypes c.params s = ⟨.success, s,
        { c.params with valueA := BitVec.ofNat 32 (flushes cs % 2 ^ 16), valueB := 0 }, []⟩ := by
      have hdef : s.ctr 4 = BitVec.ofNat 32 (flushes cs) := hs.ctr 4
      have huse : s.ctr 5 = 0 := hs.ctr 5
      have hiuse : s.ctr 7 = 0 := hs.ctr 7
      have hddef : s.ctr 8 = 0 := hs.ctr 8
      have hhigh : ∀ x : Word, (0 : Word) <<< 16 ||| x = x := fun x => BitVec.zero_or
      have hlow : (0 : Word) &&& 0x0000ffff = 0 := rfl
      rw [zbouncerFuncCtr, expecting, if_neg (not_not_intro htypes), hdef, huse, hiuse, hddef, hlow,
        low_half, hhigh, hhigh]
    rw [Call.invoke, invokeCommand]
    simp only [hcmd, hreply]
  · intro hcmd
    have hreply : zbouncerTimeGlobal c.now c.paramTypes c.params s = ⟨.success,
        { s with globalEnd := c.now }, { c.params with valueA := now, valueB := c.now }, []⟩ := by
      rw [zbouncerTimeGlobal, expecting, if_neg (not_not_intro htypes), hs.globalStart]
    rw [Call.invoke, invokeCommand]
    simp only [hcmd, hreply]

def countedSession : List Call :=
  let value : Params := ⟨7, 0x1000, ⟨0, fun _ => 0⟩⟩
  [⟨1, 4, valueInout, value⟩, ⟨2, 4, valueInout, value⟩, ⟨3, 5, valueInout, value⟩,
    ⟨4, 11, valueInout, value⟩]

theorem countedSession_statistics : ∃ s,
    runCalls (opened 0 ⟨0, 0, ⟨0, fun _ => 0⟩⟩) countedSession = some s ∧
    s.history.length = 3 ∧
    (⟨5, 9, valueInout, ⟨0, 0, ⟨0, fun _ => 0⟩⟩⟩ : Call).invoke s = some ⟨.success, s,
      ⟨1, 0, ⟨0, fun _ => 0⟩⟩, []⟩ := by
  have hrun : runCalls (opened 0 ⟨0, 0, ⟨0, fun _ => 0⟩⟩) countedSession = some _ := rfl
  have hreports := reported_statistics hrun ⟨5, 9, valueInout, ⟨0, 0, ⟨0, fun _ => 0⟩⟩⟩ rfl
  exact ⟨_, hrun, rfl, hreports.1 rfl⟩

end Embedwatch.Ta
