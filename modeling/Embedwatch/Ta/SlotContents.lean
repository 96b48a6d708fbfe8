import Embedwatch.Ta.RingIndices
import Embedwatch.Library.Runs

/-! What a slot of the ring holds. A record is written over the fields of its kind only, so that the
fields of an earlier record of another kind stay. -/

namespace Embedwatch.Ta

open Library.Runs (exists_of_prefix_flatMap)

inductive Group
  | defs
  | uses
  | iuses
  deriving DecidableEq

def groupOf : Record → Group
  | .defRec _ _ | .ddefRec _ _ _ => .defs
  | .useRec _ _ => .uses
  | .iuseRec _ _ _ => .iuses

def Filled (e : UseT) : Group → Prop
  | .defs => e.defId ≠ 0 ∨ e.defAddr ≠ 0 ∨ e.defSize ≠ 0
  | .uses => e.useId ≠ 0 ∨ e.useAddr ≠ 0
  | .iuses => e.iUseUse ≠ 0 ∨ e.iUseDef ≠ 0 ∨ e.iUseAddr ≠ 0

instance (e : UseT) : DecidablePred (Filled e)
  | .defs => inferInstanceAs (Decidable (_ ∨ _ ∨ _))
  | .uses => inferInstanceAs (Decidable (_ ∨ _))
  | .iuses => inferInstanceAs (Decidable (_ ∨ _ ∨ _))

def NonZero (r : Record) : Prop := Filled (put r .zero) (groupOf r)

instance (r : Record) : Decidable (NonZero r) := by unfold NonZero; infer_instance

def storedIn (i : ℤ) : State → List Record → List Record
  | _, [] => []
  | s, r :: rs => (if s.slot = i then [r] else []) ++ storedIn i (s.store r) rs

def OneRecord (s : State) (rs : List Record) : Prop :=
  ∀ i r, (storedIn i s rs).getLast? = some r → (s.storeAll rs).dynamicTrace i = put r .zero

def Fits (s : State) (rs : List Record) (r : Record) : Prop :=
  ∀ r', (storedIn (s.storeAll rs).slot s rs).getLast? = some r' →
    groupOf r' = groupOf r ∨ ¬ NonZero r'

variable {s s' : State} {cs : List Call} {r : Record} {rs : List Record} {e : UseT} {i : ℤ}

lemma filled_put_of_ne {g : Group} (h : groupOf r ≠ g) : Filled (put r e) g ↔ Filled e g := by
  cases r <;> cases g <;> first | exact absurd rfl h | exact Iff.rfl

lemma filled_put_self : Filled (put r e) (groupOf r) ↔ NonZero r := by
  cases r <;> exact Iff.rfl

lemma put_eq_iff : put r e = put r .zero ↔ ∀ g, g ≠ groupOf r → ¬ Filled e g := by
  constructor
  · intro h g hg hfilled
    have hput : Filled (put r e) g := (filled_put_of_ne hg.symm).mpr hfilled
    rw [h, filled_put_of_ne hg.symm] at hput
    cases g <;> simp [Filled, UseT.zero] at hput
  · intro h
    have huses : groupOf r ≠ .uses → ¬ Filled e .uses := fun hr => h .uses hr.symm
    have hdefs : groupOf r ≠ .defs → ¬ Filled e .defs := fun hr => h .defs hr.symm
    have hiuses : groupOf r ≠ .iuses → ¬ Filled e .iuses := fun hr => h .iuses hr.symm
    cases r <;> simp [groupOf, Filled] at huses hdefs hiuses <;>
      ext <;> simp [put, UseT.zero, huses, hdefs, hiuses]

lemma filled_put_zero {g : Group} : Filled (put r .zero) g ↔ groupOf r = g ∧ NonZero r := by
  by_cases h : groupOf r = g
  · subst h
    simp only [filled_put_self, true_and]
  · rw [filled_put_of_ne h]
    have hzero : ¬ Filled .zero g := by cases g <;> simp [Filled, UseT.zero]
    simp only [hzero, h, false_and]

lemma put_put_eq_iff {r' : Record} :
    put r (put r' .zero) = put r .zero ↔ groupOf r' = groupOf r ∨ ¬ NonZero r' := by
  rw [put_eq_iff]
  constructor
  · intro h
    by_cases hg : groupOf r' = groupOf r
    · exact .inl hg
    · refine .inr ?_
      intro hr'
      exact h _ hg (filled_put_zero.mpr ⟨rfl, hr'⟩)
  · intro h g hg hfilled
    obtain ⟨rfl, hr'⟩ := filled_put_zero.mp hfilled
    exact h.elim hg (absurd hr')

lemma storedIn_append (rs ts : List Record) :
    storedIn i s (rs ++ ts) = storedIn i s rs ++ storedIn i (s.storeAll rs) ts := by
  induction rs generalizing s with
  | nil => rfl
  | cons r rs ih => rw [List.cons_append, storedIn, storedIn, ih, List.append_assoc, storeAll_cons]

lemma storedIn_self (rs : List Record) (r : Record) :
    storedIn (s.storeAll rs).slot s (rs ++ [r]) = storedIn (s.storeAll rs).slot s rs ++ [r] := by
  rw [storedIn_append, storedIn, if_pos rfl]
  rfl

lemma storedIn_of_ne (rs : List Record) (r : Record) (h : (s.storeAll rs).slot ≠ i) :
    storedIn i s (rs ++ [r]) = storedIn i s rs := by
  rw [storedIn_append, storedIn, if_neg h]
  exact List.append_nil _

lemma dynamicTrace_append_self (rs : List Record) (r : Record) :
    (s.storeAll (rs ++ [r])).dynamicTrace (s.storeAll rs).slot =
      put r ((s.storeAll rs).dynamicTrace (s.storeAll rs).slot) := by
  rw [storeAll_append, storeAll_cons, storeAll_nil]
  exact Function.update_self ..

lemma dynamicTrace_append_of_ne (rs : List Record) (r : Record) (h : (s.storeAll rs).slot ≠ i) :
    (s.storeAll (rs ++ [r])).dynamicTrace i = (s.storeAll rs).dynamicTrace i := by
  rw [storeAll_append, storeAll_cons, storeAll_nil]
  exact Function.update_of_ne h.symm ..

def Cleared (s : State) : Prop := ∀ i, s.dynamicTrace i = .zero

lemma dynamicTrace_of_storedIn_nil (hs : Cleared s) (h : storedIn i s rs = []) :
    (s.storeAll rs).dynamicTrace i = .zero := by
  induction rs using List.reverseRecOn with
  | nil => exact hs i
  | append_singleton rs r ih =>
    by_cases hi : (s.storeAll rs).slot = i
    · subst hi
      rw [storedIn_self] at h
      exact absurd h (List.append_ne_nil_of_right_ne_nil _ (List.cons_ne_nil _ _))
    · rw [storedIn_of_ne rs r hi] at h
      rw [dynamicTrace_append_of_ne rs r hi, ih h]

lemma oneRecord_append_iff (hs : Cleared s) (h : OneRecord s rs) :
    OneRecord s (rs ++ [r]) ↔ Fits s rs r := by
  have hslot : (s.storeAll (rs ++ [r])).dynamicTrace (s.storeAll rs).slot = put r .zero ↔
      Fits s rs r := by
    rw [dynamicTrace_append_self, Fits]
    cases hlast : (storedIn (s.storeAll rs).slot s rs).getLast? with
    | none =>
      rw [dynamicTrace_of_storedIn_nil hs (List.getLast?_eq_none_iff.mp hlast)]
      simp
    | some r' =>
      rw [h _ r' hlast, put_put_eq_iff]
      simp
  rw [← hslot]
  constructor
  · intro hone
    apply hone
    rw [storedIn_self, List.getLast?_concat]
  · intro heq i r' hr'
    by_cases hi : (s.storeAll rs).slot = i
    · subst hi
      rw [storedIn_self, List.getLast?_concat] at hr'
      cases hr'
      exact heq
    · rw [storedIn_of_ne rs r hi] at hr'
      rw [dynamicTrace_append_of_ne rs r hi]
      exact h i r' hr'

lemma oneRecord_nil : OneRecord s [] := by
  intro i r h
  cases h

lemma oneRecord_of_fits (hs : Cleared s) (h : ∀ ts r, ts ++ [r] <+: rs → Fits s ts r) :
    OneRecord s rs := by
  induction rs using List.reverseRecOn with
  | nil => exact oneRecord_nil
  | append_singleton rs r ih =>
    have hrs : OneRecord s rs :=
      ih fun ts r' hts => h ts r' (hts.trans (List.prefix_append rs [r]))
    exact (oneRecord_append_iff hs hrs).mpr (h rs r List.prefix_rfl)

def Mixed (e : UseT) : Prop := ∃ g g', g ≠ g' ∧ Filled e g ∧ Filled e g'

lemma not_mixed_put_zero : ¬ Mixed (put r .zero) := by
  rintro ⟨g, g', hne, hg, hg'⟩
  exact hne ((filled_put_zero.mp hg).1.symm.trans (filled_put_zero.mp hg').1)

lemma filled_put {g : Group} (hr : NonZero r) (h : Filled e g) : Filled (put r e) g := by
  by_cases hg : groupOf r = g
  · rw [← hg, filled_put_self]
    exact hr
  · exact (filled_put_of_ne hg).mpr h

lemma Mixed.storeAll {ts : List Record} (hts : ∀ t ∈ ts, NonZero t) (h : Mixed (s.dynamicTrace i)) :
    Mixed ((s.storeAll ts).dynamicTrace i) := by
  induction ts generalizing s with
  | nil => exact h
  | cons t ts ih =>
    refine ih (fun t' ht' => hts t' (List.mem_cons_of_mem t ht')) ?_
    by_cases hi : i = s.slot
    · subst hi
      have hput : (s.store t).dynamicTrace s.slot = put t (s.dynamicTrace s.slot) :=
        Function.update_self ..
      obtain ⟨g, g', hne, hg, hg'⟩ := h
      have ht := hts t List.mem_cons_self
      rw [hput]
      exact ⟨g, g', hne, filled_put ht hg, filled_put ht hg'⟩
    · have hput : (s.store t).dynamicTrace i = s.dynamicTrace i := Function.update_of_ne hi ..
      rwa [hput]

lemma mixed_of_not_fits (h : OneRecord s rs) (hr : NonZero r) (hfits : ¬ Fits s rs r) :
    ∃ i, Mixed ((s.storeAll (rs ++ [r])).dynamicTrace i) := by
  rw [Fits] at hfits
  push Not at hfits
  obtain ⟨r', hlast, hne, hr'⟩ := hfits
  refine ⟨(s.storeAll rs).slot, groupOf r', groupOf r, hne, ?_, ?_⟩ <;>
    rw [dynamicTrace_append_self, h _ r' hlast]
  · exact filled_put hr (filled_put_self.mpr hr')
  · exact filled_put_self.mpr hr

lemma not_mixed (hs : Cleared s) (h : OneRecord s rs) : ¬ Mixed ((s.storeAll rs).dynamicTrace i) := by
  cases hlast : (storedIn i s rs).getLast? with
  | none =>
    rw [dynamicTrace_of_storedIn_nil hs (List.getLast?_eq_none_iff.mp hlast)]
    rintro ⟨g, g', -, hg, -⟩
    cases g <;> simp [Filled, UseT.zero] at hg
  | some r =>
    rw [h i r hlast]
    exact not_mixed_put_zero

def OneOrNonZero (ts : List Record) : Prop := ts.length ≤ 1 ∨ ∀ t ∈ ts, NonZero t

lemma fits_of_oneRecord (hs : Cleared s) {ts : List Record} (hts : OneOrNonZero ts)
    (h : OneRecord s rs) (h' : OneRecord s (rs ++ ts)) :
    ∀ us r, us ++ [r] <+: ts → Fits s (rs ++ us) r := by
  induction ts generalizing rs with
  | nil =>
    intro us r hus
    simp at hus
  | cons t ts ih =>
    have hfits : Fits s rs t := by
      rcases hts with hone | hnz
      · obtain rfl : ts = [] := by simpa using hone
        exact (oneRecord_append_iff hs h).mp h'
      · by_contra hfits
        obtain ⟨i, hi⟩ := mixed_of_not_fits h (hnz t List.mem_cons_self) hfits
        have hmixed := hi.storeAll fun t' ht' => hnz t' (List.mem_cons_of_mem t ht')
        rw [← storeAll_append, List.append_assoc] at hmixed
        exact not_mixed hs h' hmixed
    have hts' : OneOrNonZero ts := by
      rcases hts with hone | hnz
      · exact .inl (by simp at hone; simp [hone])
      · exact .inr fun t' ht' => hnz t' (List.mem_cons_of_mem t ht')
    have hrest := ih hts' ((oneRecord_append_iff hs h).mpr hfits) (by simpa using h')
    intro us r hus
    cases us with
    | nil =>
      obtain ⟨rfl, -⟩ := List.cons_prefix_cons.mp hus
      simpa using hfits
    | cons u us =>
      have hcons : u = t ∧ us ++ [r] <+: ts := List.cons_prefix_cons.mp hus
      obtain ⟨rfl, hus'⟩ := hcons
      simpa using hrest us r hus'

lemma nonZero_decodeEntry (h : decodeEntry e = some r) : NonZero r := by
  unfold decodeEntry at h
  split at h
  · cases h
    simp [NonZero, Filled, put, groupOf]
  · split at h
    · cases h
      exact .inl ‹_›
    · split at h
      · cases h
        exact .inl ‹_›
      · split at h
        · cases h
          exact .inr (.inr ‹_›)
        · cases h

lemma nonZero_flushRecords {cache : ℕ → UseT} {fuel j : ℕ} :
    ∀ t ∈ flushRecords cache fuel j, NonZero t := by
  induction fuel generalizing j with
  | zero => simp [flushRecords]
  | succ fuel ih =>
    rw [flushRecords]
    cases hd : decodeEntry (cache j) with
    | none => simp
    | some r =>
      intro t ht
      rcases List.mem_cons.mp ht with rfl | ht
      · exact nonZero_decodeEntry hd
      · exact ih t ht

lemma Call.oneOrNonZero (c : Call) : OneOrNonZero c.records := by
  rw [Call.records]
  split <;> first | (split; exacts [.inl (by simp), .inl (by simp)]) | skip
  · split
    · exact .inr nonZero_flushRecords
    · exact .inl (by simp)
  · exact .inl (by simp)

lemma runCalls_prefix {pre : List Call} (h : runCalls s cs = some s') (hpre : pre <+: cs) :
    ∃ s₁, runCalls s pre = some s₁ := by
  obtain ⟨post, rfl⟩ := hpre
  rw [runCalls, List.foldlM_append] at h
  obtain ⟨s₁, hs₁, -⟩ := Option.bind_eq_some_iff.mp h
  exact ⟨s₁, hs₁⟩

theorem one_record_iff {now : Word} {params : Params} (hrun : runCalls (opened now params) cs = some s) :
    (∀ pre s', pre <+: cs → runCalls (opened now params) pre = some s' →
        ∀ i r, (storedIn i (opened now params) (pre.flatMap Call.records)).getLast? = some r →
          s'.dynamicTrace i = put r .zero) ↔
      ∀ rs r, rs ++ [r] <+: cs.flatMap Call.records → Fits (opened now params) rs r := by
  have hcleared : Cleared (opened now params) := fun _ => rfl
  constructor
  · intro h
    have hone : ∀ pre, pre <+: cs → OneRecord (opened now params) (pre.flatMap Call.records) := by
      intro pre hpre i r hr
      obtain ⟨s', hs'⟩ := runCalls_prefix hrun hpre
      rw [← (runCalls_stored hs').dynamicTrace]
      exact h pre s' hpre hs' i r hr
    intro rs r hrs
    obtain ⟨pre, c, us, hpre, hus, rfl⟩ := exists_of_prefix_flatMap hrs
    have hbefore := hone pre ((List.prefix_append pre [c]).trans hpre)
    have hafter := hone (pre ++ [c]) hpre
    rw [List.flatMap_append, List.flatMap_singleton] at hafter
    exact fits_of_oneRecord hcleared c.oneOrNonZero hbefore hafter us r hus
  · intro h pre s' hpre hs' i r hr
    rw [(runCalls_stored hs').dynamicTrace]
    refine oneRecord_of_fits hcleared (fun ts r' hts => h ts r' (hts.trans ?_)) i r hr
    obtain ⟨post, rfl⟩ := hpre
    rw [List.flatMap_append]
    exact List.prefix_append ..

def useCall : Call := ⟨0, 5, valueInout, ⟨0x20001, 0x2000, ⟨0, fun _ => 0⟩⟩⟩

theorem def_use_one_record :
    (∃ s', runCalls (opened 0 ⟨0, 0, ⟨0, fun _ => 0⟩⟩) [defCall, useCall] = some s') ∧
    ∀ pre s', pre <+: [defCall, useCall] →
      runCalls (opened 0 ⟨0, 0, ⟨0, fun _ => 0⟩⟩) pre = some s' →
        ∀ i r, (storedIn i (opened 0 ⟨0, 0, ⟨0, fun _ => 0⟩⟩) (pre.flatMap Call.records)).getLast? =
          some r → s'.dynamicTrace i = put r .zero := by
  have hrun : runCalls (opened 0 ⟨0, 0, ⟨0, fun _ => 0⟩⟩) [defCall, useCall] =
      some ((opened 0 ⟨0, 0, ⟨0, fun _ => 0⟩⟩).storeAll
        ([defCall, useCall].flatMap Call.records)) := rfl
  refine ⟨⟨_, hrun⟩, (one_record_iff hrun).mpr ?_⟩
  have hlist : [defCall, useCall].flatMap Call.records =
    [.defRec 0x40001 0x1000, .useRec 0x20001 0x2000] := rfl
  rw [hlist]
  intro rs r hrs r' hr'
  match rs, hrs with
  | [], _ => cases hr'
  | [_], hrs =>
    obtain ⟨rfl, -⟩ := List.cons_prefix_cons.mp hrs
    cases hr'
  | _ :: _ :: rs, hrs => simp at hrs

lemma first_slot {n : ℕ} (h : 0 < n) (hn : n ≤ dynamicTraceSize) (r : Record) :
    (boot.storeAll (List.replicate n r)).dynamicTrace 0 = put r .zero := by
  have hlength : (List.replicate n r).length ≤ dynamicTraceSize := List.length_replicate.trans_le hn
  have hboot := boot_dynamicTrace hlength 0
  rwa [List.getElem?_replicate, if_pos h, Nat.cast_zero] at hboot

lemma useCall_over_defCalls {n : ℕ} (hn : n = dynamicTraceSize) (s₀ : State)
    (hs₀ : s₀ = opened 0 ⟨0, 0, ⟨0, fun _ => 0⟩⟩) :
    ∃ s, runCalls s₀ (List.replicate n defCall ++ [useCall]) = some s ∧
      (storedIn 0 s₀ ((List.replicate n defCall ++ [useCall]).flatMap Call.records)).getLast? =
        some (.useRec 0x20001 0x2000) ∧
      s.dynamicTrace 0 = put (.useRec 0x20001 0x2000) (put (.defRec 0x40001 0x1000) .zero) := by
  obtain ⟨s', hs', hid⟩ := run_defCalls (s := s₀) n
  have hrecords : (List.replicate n defCall).flatMap Call.records =
      List.replicate n (.defRec 0x40001 0x1000) := by
    rw [List.flatMap_replicate]
    exact List.flatten_replicate_singleton
  have hfirst : SameTrace s' (s₀.storeAll (List.replicate n (.defRec 0x40001 0x1000))) := by
    rw [← hrecords]
    exact runCalls_stored hs'
  have hslot : s'.slot = 0 := by
    rw [State.slot, hid, hn, hs₀, opened_traceId]
    rfl
  have hdef : s'.dynamicTrace 0 = put (.defRec 0x40001 0x1000) .zero := by
    have hboot : SameTrace s₀ boot := by
      rw [hs₀]
      exact ⟨rfl, rfl, rfl⟩
    rw [(hfirst.trans (hboot.storeAll _)).dynamicTrace]
    exact first_slot (by rw [hn]; decide) hn.le _
  refine ⟨s'.store (.useRec 0x20001 0x2000), ?_, ?_, ?_⟩
  · rw [runCalls, List.foldlM_append]
    exact Option.bind_eq_some_iff.mpr ⟨s', hs', rfl⟩
  · have hzero : (s₀.storeAll (List.replicate n (.defRec 0x40001 0x1000))).slot = 0 := by
      rw [← hslot, State.slot, State.slot, hfirst.traceId]
    rw [List.flatMap_append, hrecords, ← hzero]
    exact (congrArg List.getLast? (storedIn_self _ _)).trans List.getLast?_concat
  · rw [State.store, hslot, ← hdef]
    exact Function.update_self (0 : ℤ) _ s'.dynamicTrace

theorem use_over_def : ∃ s, runCalls (opened 0 ⟨0, 0, ⟨0, fun _ => 0⟩⟩)
    (List.replicate 2048 defCall ++ [useCall]) = some s ∧ ∃ r,
      (storedIn 0 (opened 0 ⟨0, 0, ⟨0, fun _ => 0⟩⟩)
        ((List.replicate 2048 defCall ++ [useCall]).flatMap Call.records)).getLast? = some r ∧
      (s.dynamicTrace 0).defId = 0x40001 ∧ s.dynamicTrace 0 ≠ put r .zero := by
  obtain ⟨s, hrun, hlast, hslot⟩ := useCall_over_defCalls (n := 2048) rfl _ rfl
  refine ⟨s, hrun, _, hlast, ?_⟩
  rw [hslot]
  exact And.intro (by decide) (by decide)

end Embedwatch.Ta
