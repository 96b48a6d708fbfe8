import Embedwatch.Ta.Flush

/-! The ring after any commands: what the records stored so far have left in it. -/

namespace Embedwatch.Ta

structure SameTrace (s s' : State) : Prop where
  dynamicTrace : s.dynamicTrace = s'.dynamicTrace
  traceId : s.traceId = s'.traceId
  history : s.history = s'.history

namespace SameTrace

variable {s s' s'' : State}

lemma refl (s : State) : SameTrace s s := ⟨rfl, rfl, rfl⟩

lemma trans (h : SameTrace s s') (h' : SameTrace s' s'') : SameTrace s s'' :=
  ⟨h.1.trans h'.1, h.2.trans h'.2, h.3.trans h'.3⟩

lemma store (h : SameTrace s s') (r : Record) : SameTrace (s.store r) (s'.store r) := by
  obtain ⟨hd, ht, hh⟩ := h
  constructor <;> simp only [State.store, State.slot, hd, ht, hh]

lemma storeAll (h : SameTrace s s') (rs : List Record) :
    SameTrace (s.storeAll rs) (s'.storeAll rs) := by
  induction rs generalizing s s' with
  | nil => exact h
  | cons r rs ih => exact ih (h.store r)

end SameTrace

theorem exists_stored {now cmdId paramTypes : Word} {params : Params} {s : State} {reply : Reply}
    (h : invokeCommand now cmdId paramTypes params s = some reply) :
    ∃ rs, SameTrace reply.ta (s.storeAll rs) := by
  have hexp : ∀ (expected : Word) (body : Reply), (∃ rs, SameTrace body.ta (s.storeAll rs)) →
      ∃ rs, SameTrace (expecting expected paramTypes params s body).ta (s.storeAll rs) := by
    intro expected body hbody
    rw [expecting]
    split
    · exact ⟨[], SameTrace.refl s⟩
    · exact hbody
  unfold invokeCommand at h
  split at h
  case h_8 =>
    rw [zbouncerFlushCache] at h
    split at h
    · cases h
      exact ⟨[], rfl, rfl, rfl⟩
    · split at h
      · rename_i s' i hloop
        cases h
        obtain ⟨-, -, rs, rfl⟩ := flushLoop_some hloop
        exact ⟨rs, rfl, rfl, rfl⟩
      · cases h
  case h_9 =>
    cases h
    exact ⟨[], SameTrace.refl s⟩
  case h_1 => cases h; exact hexp _ _ ⟨[_], SameTrace.refl _⟩
  case h_2 => cases h; exact hexp _ _ ⟨[_], SameTrace.refl _⟩
  case h_3 => cases h; exact hexp _ _ ⟨[], SameTrace.refl _⟩
  case h_4 => cases h; exact hexp _ _ ⟨[_], SameTrace.refl _⟩
  case h_5 => cases h; exact hexp _ _ ⟨[_], SameTrace.refl _⟩
  case h_6 => cases h; exact hexp _ _ ⟨[], SameTrace.refl _⟩
  case h_7 => cases h; exact hexp _ _ ⟨[], rfl, rfl, rfl⟩

def Recorded (s : State) : Prop := SameTrace s (boot.storeAll s.history)

lemma Recorded.invoke {now cmdId paramTypes : Word} {params : Params} {s : State} {reply : Reply}
    (hs : Recorded s) (h : invokeCommand now cmdId paramTypes params s = some reply) :
    Recorded reply.ta := by
  obtain ⟨rs, hrs⟩ := exists_stored h
  have hh := hrs.trans (hs.storeAll rs)
  have hist : reply.ta.history = s.history ++ rs := by rw [hrs.history, storeAll_history]
  rwa [← storeAll_append, ← hist] at hh

lemma boot_traceId (rs : List Record) : (boot.storeAll rs).traceId = BitVec.ofNat 32 rs.length := by
  induction rs using List.reverseRecOn with
  | nil => rfl
  | append_singleton rs r ih =>
    rw [storeAll_append, storeAll_cons, storeAll_nil, State.store]
    simp only [ih, List.length_append, List.length_singleton, BitVec.ofNat_add]
    rfl

lemma boot_slot {rs : List Record} (h : rs.length < dynamicTraceSize) :
    (boot.storeAll rs).slot = rs.length := by
  have hn : rs.length < 2048 := h
  have hi : (BitVec.ofNat 32 rs.length).toInt = rs.length := by
    rw [BitVec.toInt_eq_toNat_of_lt] <;> simp only [BitVec.toNat_ofNat] <;> omega
  have hd : (dynamicTraceSize : ℤ) = 2048 := rfl
  rw [State.slot, boot_traceId, hi, Int.tmod_eq_emod_of_nonneg (by omega), hd]
  omega

def singleSlot : Option Record → UseT
  | some r => put r .zero
  | none => .zero

theorem boot_dynamicTrace {rs : List Record} (h : rs.length ≤ dynamicTraceSize) (i : ℕ) :
    (boot.storeAll rs).dynamicTrace i = singleSlot rs[i]? := by
  induction rs using List.reverseRecOn generalizing i with
  | nil => rfl
  | append_singleton rs r ih =>
    have hlt : rs.length < dynamicTraceSize := by simpa using h
    rw [storeAll_append, storeAll_cons, storeAll_nil, State.store, boot_slot hlt]
    rcases lt_trichotomy i rs.length with hi | rfl | hi
    · have hne : (i : ℤ) ≠ rs.length := by exact_mod_cast hi.ne
      simp only [Function.update_of_ne hne, ih hlt.le, List.getElem?_append_left hi]
    · simp [ih hlt.le, singleSlot]
    · have hne : (i : ℤ) ≠ rs.length := by exact_mod_cast hi.ne'
      have hnone : (rs ++ [r])[i]? = none := List.getElem?_eq_none (by simpa using hi)
      simp only [Function.update_of_ne hne, ih hlt.le, hnone, List.getElem?_eq_none hi.le]

end Embedwatch.Ta
