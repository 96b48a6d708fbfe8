import Embedwatch.Ta.Ring

/-! Sessions with the trusted application: the records that each command stores, whatever the state is
that it finds. -/

namespace Embedwatch.Ta

structure Call where
  now : Word
  cmdId : Word
  paramTypes : Word
  params : Params

def Call.invoke (c : Call) (s : State) : Option Reply :=
  invokeCommand c.now c.cmdId c.paramTypes c.params s

/-- A fresh instance after `TA_OpenSessionEntryPoint`; each session has an instance of its own. -/
def opened (now : Word) (params : Params) : State := (openSession now valueInout params boot).2

def runCalls (s : State) (cs : List Call) : Option State :=
  cs.foldlM (fun s c => (c.invoke s).map Reply.ta) s

def flushRecords (cache : ℕ → UseT) : ℕ → ℕ → List Record
  | 0, _ => []
  | fuel + 1, i =>
    match decodeEntry (cache i) with
    | some r => r :: flushRecords cache fuel (i + 1)
    | none => []

def Call.records (c : Call) : List Record :=
  let data := c.params.memref.words
  match c.cmdId.toNat with
  | 4 => if c.paramTypes = valueInout then [.defRec c.params.valueA c.params.valueB] else []
  | 5 => if c.paramTypes = valueInout then [.useRec c.params.valueA c.params.valueB] else []
  | 7 => if c.paramTypes = memrefInout then [.iuseRec (data 0) (data 1) (data 2)] else []
  | 8 => if c.paramTypes = memrefInout then [.ddefRec (data 0) (data 1) (data 2)] else []
  | 11 => if c.paramTypes = memrefInout then flushRecords (UseT.ofMemory data) intIndices 0 else []
  | _ => []

variable {s s' : State} {c : Call} {cs : List Call}

lemma flushLoop_storeAll {cache : ℕ → UseT} {fuel i j : ℕ}
    (h : flushLoop cache fuel i s = some (s', j)) :
    s' = s.storeAll (flushRecords cache fuel i) := by
  induction fuel generalizing i s with
  | zero => cases h
  | succ fuel ih =>
    rw [flushLoop] at h
    rw [flushRecords]
    cases hd : decodeEntry (cache i) with
    | none =>
      rw [hd] at h
      cases h
      rfl
    | some r =>
      rw [hd] at h
      exact ih h

theorem Call.stored {reply : Reply} (h : c.invoke s = some reply) :
    SameTrace reply.ta (s.storeAll c.records) := by
  have hexp : ∀ (expected : Word) (body : Reply) (rs : List Record),
      SameTrace body.ta (s.storeAll rs) →
      SameTrace (expecting expected c.paramTypes c.params s body).ta
        (s.storeAll (if c.paramTypes = expected then rs else [])) := by
    intro expected body rs hbody
    rw [expecting]
    by_cases htypes : c.paramTypes = expected
    · simpa only [htypes, ne_eq, not_true_eq_false, if_false, if_true] using hbody
    · simp only [htypes, ne_eq, not_false_eq_true, if_true, if_false]
      exact SameTrace.refl s
  have hnone : ∀ (expected : Word) (body : Reply), SameTrace body.ta s →
      SameTrace (expecting expected c.paramTypes c.params s body).ta s := by
    intro expected body hbody
    have h := hexp expected body [] hbody
    rwa [ite_self] at h
  rw [Call.invoke, invokeCommand] at h
  rw [Call.records]
  split at h
  case h_1 hc =>
    cases h
    simp only [hc]
    exact hexp _ _ _ (SameTrace.refl _)
  case h_2 hc =>
    cases h
    simp only [hc]
    exact hexp _ _ _ (SameTrace.refl _)
  case h_3 hc =>
    cases h
    simp only [hc]
    exact hnone _ _ (SameTrace.refl _)
  case h_4 hc =>
    cases h
    simp only [hc]
    exact hexp _ _ _ (SameTrace.refl _)
  case h_5 hc =>
    cases h
    simp only [hc]
    exact hexp _ _ _ (SameTrace.refl _)
  case h_6 hc =>
    cases h
    simp only [hc]
    exact hnone _ _ (SameTrace.refl _)
  case h_7 hc =>
    cases h
    simp only [hc]
    exact hnone _ _ ⟨rfl, rfl, rfl⟩
  case h_8 hc =>
    simp only [hc]
    rw [zbouncerFlushCache] at h
    by_cases htypes : c.paramTypes = memrefInout
    · simp only [htypes, ne_eq, not_true_eq_false, if_false] at h
      split at h
      · rename_i s' i hloop
        cases h
        simp only [htypes, if_true]
        rw [← flushLoop_storeAll hloop]
        exact ⟨rfl, rfl, rfl⟩
      · cases h
    · simp only [htypes, ne_eq, not_false_eq_true, if_true] at h
      cases h
      simp only [htypes, if_false]
      exact ⟨rfl, rfl, rfl⟩
  case h_9 h4 h5 h6 h7 h8 h9 h10 h11 =>
    cases h
    split
    · next hc => exact absurd hc h4
    · next hc => exact absurd hc h5
    · next hc => exact absurd hc h7
    · next hc => exact absurd hc h8
    · next hc => exact absurd hc h11
    · exact SameTrace.refl s

theorem runCalls_stored (h : runCalls s cs = some s') :
    SameTrace s' (s.storeAll (cs.flatMap Call.records)) := by
  induction cs generalizing s with
  | nil =>
    cases h
    exact SameTrace.refl s'
  | cons c cs ih =>
    rw [runCalls, List.foldlM_cons] at h
    obtain ⟨s₁, h₁, h⟩ := Option.bind_eq_some_iff.mp h
    obtain ⟨reply, hreply, rfl⟩ := Option.map_eq_some_iff.mp h₁
    rw [List.flatMap_cons, storeAll_append]
    exact (ih h).trans ((Call.stored hreply).storeAll _)

lemma storeAll_traceId (rs : List Record) :
    (s.storeAll rs).traceId = s.traceId + BitVec.ofNat 32 rs.length := by
  induction rs generalizing s with
  | nil => simp
  | cons r rs ih =>
    rw [storeAll_cons, ih, List.length_cons, Nat.add_comm, BitVec.ofNat_add]
    exact BitVec.add_assoc ..

@[simp] lemma opened_traceId (now : Word) (params : Params) : (opened now params).traceId = 0 := rfl

end Embedwatch.Ta
