import Embedwatch.Ta.Sessions

/-! Commands that the trusted application rejects. Each handler tests the parameter types before it
does anything else; the dispatcher counts a flush whatever its result is. -/

namespace Embedwatch.Ta

def expectedParamTypes (cmdId : Word) : Option Word :=
  match cmdId.toNat with
  | 4 | 5 | 9 | 10 => some valueInout
  | 6 | 7 | 8 | 11 => some memrefInout
  | _ => none

def Call.Accepted (c : Call) : Prop := expectedParamTypes c.cmdId = some c.paramTypes

instance (c : Call) : Decidable c.Accepted := inferInstanceAs (Decidable (_ = _))

def Call.CountedFlush (c : Call) : Prop := c.cmdId.toNat = 11 ∧ c.paramTypes ≠ memrefInout

instance (c : Call) : Decidable c.CountedFlush := inferInstanceAs (Decidable (_ ∧ _))

def Call.ChangesNothing (c : Call) (s : State) (reply : Reply) : Prop :=
  reply.ta = s ∧ reply.params = c.params

variable {s s' : State} {c : Call} {cs : List Call} {reply : Reply}

structure Atomic (s : State) (c : Call) : Prop where
  accepted : c.Accepted → ∀ reply, c.invoke s = some reply → reply.result = .success
  rejected : ¬ c.Accepted → c.invoke s = some ⟨.badParameters, s, c.params, []⟩

lemma atomic_of_expecting {expected : Word} {body : Reply}
    (htypes : expectedParamTypes c.cmdId = some expected) (hbody : body.result = .success)
    (h : c.invoke s = some (expecting expected c.paramTypes c.params s body)) : Atomic s c := by
  rw [expecting] at h
  constructor
  · intro hacc reply hreply
    obtain rfl : expected = c.paramTypes := Option.some.inj (htypes.symm.trans hacc)
    rw [if_neg (not_not_intro rfl)] at h
    obtain rfl := Option.some.inj (h.symm.trans hreply)
    exact hbody
  · intro hrej
    have hne : c.paramTypes ≠ expected := by
      rintro rfl
      exact hrej htypes
    rwa [if_pos hne] at h

lemma atomic_of_ne_flush (s : State) (hcmd : c.cmdId.toNat ≠ 11) : Atomic s c := by
  have hinvoke : c.invoke s = invokeCommand c.now c.cmdId c.paramTypes c.params s := rfl
  rw [invokeCommand] at hinvoke
  split at hinvoke
  case h_1 hc | h_2 hc | h_3 hc | h_4 hc | h_5 hc | h_6 hc | h_7 hc =>
    exact atomic_of_expecting (by simp only [expectedParamTypes, hc]) rfl hinvoke
  case h_8 hc => exact absurd hc hcmd
  case h_9 h4 h5 h6 h7 h8 h9 h10 h11 =>
    refine ⟨fun hacc => ?_, fun _ => hinvoke⟩
    rw [Call.Accepted, expectedParamTypes] at hacc
    split at hacc <;> contradiction

lemma flush_accepted (hcmd : c.cmdId.toNat = 11) : c.Accepted ↔ c.paramTypes = memrefInout := by
  simp only [Call.Accepted, expectedParamTypes, hcmd, Option.some.injEq, eq_comm]

lemma invoke_flush (hcmd : c.cmdId.toNat = 11) :
    c.invoke s = (zbouncerFlushCache c.paramTypes c.params s).map Reply.countFlush := by
  rw [Call.invoke, invokeCommand]
  simp only [hcmd]

lemma invoke_countedFlush (h : c.CountedFlush) (s : State) :
    c.invoke s = some (Reply.countFlush ⟨.badParameters, s, c.params, []⟩) := by
  rw [invoke_flush h.1, zbouncerFlushCache, if_pos h.2, Option.map_some]

lemma flush_succeeds (hcmd : c.cmdId.toNat = 11) (htypes : c.paramTypes = memrefInout)
    (h : c.invoke s = some reply) : reply.result = .success := by
  rw [invoke_flush hcmd, zbouncerFlushCache, if_neg (not_not_intro htypes)] at h
  obtain ⟨reply, hreply, rfl⟩ := Option.map_eq_some_iff.mp h
  split at hreply
  · cases hreply
    rfl
  · cases hreply

lemma atomic_of_not_countedFlush (s : State) (h : ¬ c.CountedFlush) : Atomic s c := by
  by_cases hcmd : c.cmdId.toNat = 11
  · have htypes : c.paramTypes = memrefInout := by
      by_contra hne
      exact h ⟨hcmd, hne⟩
    refine ⟨fun _ reply hreply => flush_succeeds hcmd htypes hreply, fun hrej => ?_⟩
    exact absurd ((flush_accepted hcmd).mpr htypes) hrej
  · exact atomic_of_ne_flush s hcmd

lemma countFlush_ta_ne (h : s.funcCtr.length = 15) :
    (Reply.countFlush ⟨.badParameters, s, c.params, []⟩).ta ≠ s := by
  intro heq
  have hctr : (s.funcCtr.set 4 (s.ctr 4 + 1)).getD 4 0 = s.funcCtr.getD 4 0 :=
    congrArg (fun s : State => s.funcCtr.getD 4 0) heq
  rw [List.getD_eq_getElem?_getD, List.getElem?_set_self (by omega), Option.getD_some] at hctr
  have hone : s.ctr 4 + 1 = s.ctr 4 := hctr
  bv_omega

theorem rejected_changes_nothing_iff (s : State) (c : Call) (h : s.funcCtr.length = 15) :
    (∀ reply, c.invoke s = some reply → reply.result ≠ .success → c.ChangesNothing s reply) ↔
      ¬ c.CountedFlush := by
  constructor
  · intro hall hflush
    have hres : TeeResult.badParameters ≠ .success := by decide
    have hta := (hall _ (invoke_countedFlush hflush s) hres).1
    exact countFlush_ta_ne h hta
  · intro hflush reply hreply hres
    have hatomic := atomic_of_not_countedFlush s hflush
    by_cases hacc : c.Accepted
    · exact absurd (hatomic.accepted hacc reply hreply) hres
    · rw [hatomic.rejected hacc] at hreply
      obtain rfl := Option.some.inj hreply
      exact ⟨rfl, rfl⟩

theorem rejected_use_changes_nothing : ∃ reply,
    (⟨0, 5, memrefInout, ⟨1, 2, ⟨0, fun _ => 0⟩⟩⟩ : Call).invoke boot = some reply ∧
      reply.result = .badParameters ∧ reply.ta = boot := by
  have hctr : boot.funcCtr.length = 15 := rfl
  have hall := (rejected_changes_nothing_iff boot ⟨0, 5, memrefInout, ⟨1, 2, ⟨0, fun _ => 0⟩⟩⟩ hctr).mpr
    (by decide)
  exact ⟨_, rfl, rfl, (hall _ rfl (by decide)).1⟩

theorem rejected_flush_counted : ∃ reply,
    (⟨0, 11, valueInout, ⟨1, 2, ⟨0, fun _ => 0⟩⟩⟩ : Call).invoke boot = some reply ∧
      reply.result = .badParameters ∧ boot.ctr 4 = 0 ∧ reply.ta.ctr 4 = 1 :=
  ⟨_, rfl, rfl, rfl, rfl⟩

theorem runCalls_accepted (h : ∀ c ∈ cs, ¬ c.CountedFlush) :
    runCalls s (cs.filter fun c => c.Accepted) = runCalls s cs := by
  induction cs generalizing s with
  | nil => rfl
  | cons c cs ih =>
    have hrest : ∀ c ∈ cs, ¬ c.CountedFlush := fun d hd => h d (List.mem_cons_of_mem c hd)
    by_cases hacc : c.Accepted
    · rw [List.filter_cons_of_pos (by simpa using hacc), runCalls, runCalls, List.foldlM_cons,
        List.foldlM_cons]
      congr 1
      funext s'
      exact ih hrest
    · have hatomic := atomic_of_not_countedFlush s (h c List.mem_cons_self)
      rw [List.filter_cons_of_neg (by simpa using hacc), ih hrest, runCalls, runCalls,
        List.foldlM_cons, hatomic.rejected hacc]
      rfl

end Embedwatch.Ta
