import Embedwatch.Host.BothModes
import Embedwatch.Library.Runs

/-! The uses that reach the trusted application through the cache. An entry gives one record, so a
definition that comes to stand beside a use hides the use or brings it back, and an entry that a
flush has left behind is sent once more if no blank entry stands before it. -/

namespace Embedwatch.Host

open Record (uses uses_append uses_nil uses_cons)
open Ta (Blank decodeEntry decodeEntries decodeEntry_eq_none exists_decodeEntry
  decodeEntries_cons_some decodeEntries_cons_blank decodeEntries_append decodeEntries_blank)
open Library.Runs

def NoUse (e : UseT) : Prop := e.useId = 0 ∧ e.iUseUse = 0

def ShowsNoUse (e : UseT) : Prop := e.defId ≠ 0 ∧ e.defSize = 0 ∨ NoUse e

def MergesCleanly (e : UseT) : Record → Prop
  | .ddefRec _ _ size => NoUse e ∨ (size = 0 ↔ e.defSize = 0)
  | _ => True

def TakesOver (e : UseT) : Record → Prop
  | .defRec _ _ => True
  | .ddefRec _ _ size => size = 0 ∨ NoUse e
  | .useRec _ _ | .iuseRec _ _ _ => ¬ (e.defId ≠ 0 ∧ e.defSize = 0)

def NoStaleUse (es : List UseT) : Prop :=
  ∀ e ∈ es.takeWhile fun e => ¬ Blank e, ShowsNoUse e

def KeepsUses (h : State) (r : Record) : Prop :=
  match h.lookup r with
  | some i => MergesCleanly (h.cache.getD i .zero) r
  | none =>
    TakesOver (h.cache.getD h.used .zero) r ∧
      (Blank (h.cache.getD h.used .zero) → NoStaleUse (h.cache.drop (h.used + 1)))

instance (e : UseT) : Decidable (NoUse e) := inferInstanceAs (Decidable (_ ∧ _))

instance (e : UseT) : Decidable (ShowsNoUse e) := inferInstanceAs (Decidable (_ ∨ _))

instance (e : UseT) (r : Record) : Decidable (MergesCleanly e r) := by
  cases r <;> unfold MergesCleanly <;> infer_instance

instance (e : UseT) (r : Record) : Decidable (TakesOver e r) := by
  cases r <;> unfold TakesOver <;> infer_instance

instance (es : List UseT) : Decidable (NoStaleUse es) := by unfold NoStaleUse; infer_instance

instance (h : State) (r : Record) : Decidable (KeepsUses h r) := by
  unfold KeepsUses
  split <;> infer_instance

def useOf (e : UseT) : List Record := uses (decodeEntry e).toList

lemma useOf_eq (e : UseT) :
    useOf e = if e.defId ≠ 0 ∧ e.defSize = 0 then []
      else if e.useId ≠ 0 then [.useRec e.useId e.useAddr]
      else if e.iUseUse ≠ 0 then [.iuseRec e.iUseUse e.iUseDef e.iUseAddr] else [] := by
  unfold useOf decodeEntry
  split_ifs <;> rfl

lemma useOf_eq_nil {e : UseT} : useOf e = [] ↔ ShowsNoUse e := by
  rw [useOf_eq, ShowsNoUse, NoUse]
  split_ifs <;> simp_all

lemma uses_decodeEntries_cons {e : UseT} (h : ¬ Blank e) (es : List UseT) :
    uses (decodeEntries (e :: es)) = useOf e ++ uses (decodeEntries es) := by
  obtain ⟨r, hr⟩ := exists_decodeEntry h
  rw [decodeEntries_cons_some hr, useOf, hr, Option.toList_some, ← uses_append, List.singleton_append]

lemma uses_decodeEntries_split {as : List UseT} {e : UseT} (ha : ∀ a ∈ as, ¬ Blank a)
    (he : ¬ Blank e) (bs : List UseT) :
    uses (decodeEntries (as ++ e :: bs)) =
      uses (decodeEntries as) ++ (useOf e ++ uses (decodeEntries bs)) := by
  rw [decodeEntries_append ha, uses_append, uses_decodeEntries_cons he]

lemma uses_decodeEntries_eq_nil (es : List UseT) :
    uses (decodeEntries es) = [] ↔ NoStaleUse es := by
  induction es with
  | nil => simp [NoStaleUse, decodeEntries]
  | cons e es ih =>
    by_cases hb : Blank e
    · simp [NoStaleUse, hb, decodeEntries_cons_blank hb]
    · rw [uses_decodeEntries_cons hb, List.append_eq_nil_iff, useOf_eq_nil, ih]
      simp [NoStaleUse, hb]

lemma useOf_merge {e : UseT} {r : Record} (hd : r.isUse = false) (he : hits r e = true)
    (hid : r.id ≠ 0) : useOf (putCache r e) = useOf e ↔ MergesCleanly e r := by
  cases r with
  | defRec id addr =>
    obtain rfl : e.defId = id := by simpa [hits] using he
    simp [useOf_eq, putCache, MergesCleanly]
  | ddefRec id addr size =>
    obtain rfl : e.defId = id := by simpa [hits] using he
    have hn : e.defId ≠ 0 := hid
    simp only [useOf_eq, putCache, MergesCleanly, NoUse]
    split_ifs <;> simp_all
  | useRec => simp [Record.isUse] at hd
  | iuseRec => simp [Record.isUse] at hd

lemma useOf_append {e : UseT} {r : Record} (h : useOf e = []) (hid : r.id ≠ 0) :
    useOf (putCache r e) = uses [r] ↔ TakesOver e r := by
  rw [useOf_eq_nil, ShowsNoUse, NoUse] at h
  cases r with
  | defRec id addr =>
    have hn : id ≠ 0 := hid
    have hu : uses [Record.defRec id addr] = [] := rfl
    simp only [hu, useOf_eq_nil, ShowsNoUse, putCache, TakesOver, NoUse, iff_true]
    rcases h with ⟨-, h⟩ | h
    · exact Or.inl ⟨hn, h⟩
    · exact Or.inr h
  | ddefRec id addr size =>
    have hn : id ≠ 0 := hid
    have hu : uses [Record.ddefRec id addr size] = [] := rfl
    simp only [hu, useOf_eq_nil, ShowsNoUse, putCache, TakesOver, NoUse, ne_eq, hn, not_false_iff, true_and]
  | useRec id addr =>
    have hn : id ≠ 0 := hid
    have hu : uses [Record.useRec id addr] = [.useRec id addr] := rfl
    simp only [hu, useOf_eq, putCache, TakesOver]
    split_ifs <;> simp_all
  | iuseRec id defn addr =>
    have hn : id ≠ 0 := hid
    have hu : uses [Record.iuseRec id defn addr] = [.iuseRec id defn addr] := rfl
    simp only [hu, useOf_eq, putCache, TakesOver]
    split_ifs <;> simp_all

lemma takesOver_of_blank {e : UseT} (h : Blank e) (r : Record) : TakesOver e r := by
  obtain ⟨hd, -, hu, hi⟩ := h
  cases r with
  | defRec => trivial
  | ddefRec => exact Or.inr ⟨hu, hi⟩
  | useRec => exact fun hn => hn.1 hd
  | iuseRec => exact fun hn => hn.1 hd

lemma mergesCleanly_iff {c : State} {as bs rest : List UseT} {e : UseT} {r : Record}
    (w : Window c (as ++ e :: bs) rest) (he : hits r e = true) (has : ∀ a ∈ as, hits r a = false) :
    KeepsUses c r ↔ MergesCleanly e r := by
  rw [KeepsUses, w.lookup_eq_some he has]
  simp only [w.getD_length]

lemma takesOver_iff {c : State} {live rest : List UseT} {e : UseT} {r : Record}
    (w : Window c live (e :: rest)) (hn : ∀ a ∈ live, hits r a = false) :
    KeepsUses c r ↔ TakesOver e r ∧ (Blank e → NoStaleUse rest) := by
  rw [KeepsUses, w.lookup_eq_none hn]
  simp only [w.getD_used, w.drop_used]

structure SameUses (defs : Set Word) (c u : State) (live rest : List UseT) : Prop
    extends Paired defs c u live rest where
  stale : uses (decodeEntries rest) = []
  pending : uses (c.ta.history ++ decodeEntries live) = uses u.ta.history

namespace SameUses

variable {defs : Set Word} {c u c' u' : State} {live rest : List UseT} {e : UseT} {r : Record}

lemma fresh_entry (s : SameUses defs c u live (e :: rest)) (hr : Allowed defs r) :
    (useOf (putCache r e) ++ uses (decodeEntries rest) = uses [r] ↔
      TakesOver e r ∧ (Blank e → NoStaleUse rest)) ∧
    (TakesOver e r → useOf (putCache r e) = uses [r]) := by
  have hstale := s.stale
  by_cases hb : Blank e
  · have he : useOf e = [] := useOf_eq_nil.mpr (Or.inr ⟨hb.2.2.1, hb.2.2.2⟩)
    have ht := takesOver_of_blank hb r
    have hput := (useOf_append he hr.id_ne_zero).mpr ht
    rw [hput]
    refine ⟨?_, fun _ => rfl⟩
    simp only [List.append_right_eq_self, uses_decodeEntries_eq_nil, ht, hb, true_and, true_imp_iff]
  · rw [uses_decodeEntries_cons hb, List.append_eq_nil_iff] at hstale
    have hput := useOf_append hstale.1 hr.id_ne_zero
    rw [hstale.2, List.append_nil, hput]
    simp only [hb, false_imp_iff, and_true, imp_self]

lemma uses_fresh (s : SameUses defs c u live (e :: rest)) (hr : Allowed defs r) :
    uses (c.ta.history ++ decodeEntries (live ++ [putCache r e])) =
      uses u.ta.history ++ useOf (putCache r e) := by
  rw [decodeEntries_append s.nonblank, ← List.append_assoc, uses_append, s.pending,
    uses_decodeEntries_cons (not_blank_putCache hr.id_ne_zero e)]
  simp [decodeEntries]

lemma uses_zexit (p : Paired defs c u live rest) : uses c.zexit.ta.history =
    uses (c.ta.history ++ decodeEntries live) ++ uses (decodeEntries rest) := by
  rw [p.window.zexit_history, decodeEntries_append p.nonblank, ← List.append_assoc, uses_append]

lemma zexit (s : SameUses defs c u live rest) :
    uses c.zexit.ta.history = uses u.zexit.ta.history := by
  rw [uses_zexit s.toPaired, s.unbuffered.zexit_history, s.stale, List.append_nil, s.pending]

lemma step_merge {as bs : List UseT} (s : SameUses defs c u (as ++ e :: bs) rest)
    (hr : Allowed defs r) (hit : hits r e = true) (first : ∀ a ∈ as, hits r a = false)
    (w : Window c' (as ++ putCache r e :: bs) rest) (hta : c'.ta = c.ta)
    (hu : Unbuffered u') (hhist : u'.ta.history = u.ta.history ++ [r]) :
    (uses c'.zexit.ta.history = uses u'.zexit.ta.history ↔ KeepsUses c r) ∧
      (KeepsUses c r → SameUses defs c' u' (as ++ putCache r e :: bs) rest) := by
  have hd : r.isUse = false := s.isUse_of_hit hr (by simp) hit
  have ha : ∀ a ∈ as, ¬ Blank a := fun a h => s.nonblank a (by simp [h])
  have he' := not_blank_putCache hr.id_ne_zero e
  have hp := s.toPaired.merge hr w hu
  have hru : uses [r] = [] := by simp [uses_cons, hd]
  have hpend : uses u'.ta.history = uses c.ta.history ++
      (uses (decodeEntries as) ++ (useOf e ++ uses (decodeEntries bs))) := by
    rw [hhist, uses_append, hru, List.append_nil, ← s.pending, uses_append,
      uses_decodeEntries_split ha (s.nonblank e (by simp))]
  have hpend' : uses (c'.ta.history ++ decodeEntries (as ++ putCache r e :: bs)) = uses c.ta.history ++
      (uses (decodeEntries as) ++ (useOf (putCache r e) ++ uses (decodeEntries bs))) := by
    rw [hta, uses_append, uses_decodeEntries_split ha he']
  have hiff : uses (c'.ta.history ++ decodeEntries (as ++ putCache r e :: bs)) = uses u'.ta.history ↔
      KeepsUses c r := by
    rw [hpend, hpend', mergesCleanly_iff s.window hit first, ← useOf_merge hd hit hr.id_ne_zero]
    simp only [List.append_cancel_left_eq, List.append_cancel_right_eq]
  constructor
  · rw [uses_zexit hp, s.stale, List.append_nil, hu.zexit_history, hiff]
  · intro hk
    exact ⟨hp, s.stale, hiff.mpr hk⟩

lemma step_append (s : SameUses defs c u live (e :: rest)) (hr : Allowed defs r)
    (fresh : ∀ a ∈ live, hits r a = false) (w : Window c' (live ++ [putCache r e]) rest)
    (hta : c'.ta = c.ta) (hu : Unbuffered u') (hhist : u'.ta.history = u.ta.history ++ [r]) :
    (uses c'.zexit.ta.history = uses u'.zexit.ta.history ↔ KeepsUses c r) ∧
      (KeepsUses c r → SameUses defs c' u' (live ++ [putCache r e]) rest) := by
  have hp := s.toPaired.append hr w hu
  have hpend := s.uses_fresh hr
  rw [← hta] at hpend
  obtain ⟨hiff, hput⟩ := s.fresh_entry hr
  rw [takesOver_iff s.window fresh]
  constructor
  · rw [uses_zexit hp, hpend, hu.zexit_history, hhist, uses_append, List.append_assoc,
      List.append_cancel_left_eq, hiff]
  · intro hk
    have hrest : uses (decodeEntries rest) = [] := by
      have hh := hiff.mpr hk
      rwa [hput hk.1, List.append_right_eq_self] at hh
    exact ⟨hp, hrest, by rw [hpend, hput hk.1, hhist, uses_append]⟩

lemma step_flush (s : SameUses defs c u live (e :: List.replicate 6 .zero)) (hr : Allowed defs r)
    (fresh : ∀ a ∈ live, hits r a = false)
    (w : Window c' [] (clearedCache (live ++ putCache r e :: List.replicate 6 .zero)))
    (hist : c'.ta.history = c.ta.history ++ decodeEntries (live ++ [putCache r e]))
    (hu : Unbuffered u') (hhist : u'.ta.history = u.ta.history ++ [r]) :
    (uses c'.zexit.ta.history = uses u'.zexit.ta.history ↔ KeepsUses c r) ∧
      (KeepsUses c r → SameUses defs c' u' []
        (clearedCache (live ++ putCache r e :: List.replicate 6 .zero))) := by
  have hp := s.toPaired.flush hr w hu
  have hzero : uses (decodeEntries (List.replicate 6 .zero)) = [] := by decide
  have hcleared : uses (decodeEntries
      (clearedCache (live ++ putCache r e :: List.replicate 6 .zero))) = [] := by
    rw [clearedCache, List.replicate_succ, List.cons_append,
      decodeEntries_cons_blank Ta.blank_zero, uses_nil]
  have hpend := s.uses_fresh hr
  rw [← hist] at hpend
  have hput := (s.fresh_entry hr).1
  rw [hzero, List.append_nil] at hput
  have hnil : decodeEntries [] = [] := rfl
  rw [takesOver_iff s.window fresh, ← hput]
  constructor
  · rw [uses_zexit hp, hcleared, hnil, List.append_nil, List.append_nil, hu.zexit_history, hpend,
      hhist, uses_append, List.append_cancel_left_eq]
  · intro hk
    exact ⟨hp, hcleared, by rw [hnil, List.append_nil, hpend, hk, hhist, uses_append]⟩

theorem step (s : SameUses defs c u live rest) {ev : Event} (hev : eventRecord ev = some r)
    (hr : Allowed defs r) :
    (uses (c.call ev).zexit.ta.history = uses (u.call ev).zexit.ta.history ↔ KeepsUses c r) ∧
      (KeepsUses c r → ∃ live' rest', SameUses defs (c.call ev) (u.call ev) live' rest') := by
  obtain ⟨hu, hhist⟩ := s.unbuffered.call hev
  rw [call_cached s.window.enabled hev]
  cases s.window.inserts r with
  | merge as e bs live_eq hit first window ta =>
    subst live_eq
    obtain ⟨hiff, hs⟩ := s.step_merge hr hit first window ta hu hhist
    exact ⟨hiff, fun hk => ⟨_, _, hs hk⟩⟩
  | append e rest' rest_eq fresh window ta =>
    subst rest_eq
    obtain ⟨hiff, hs⟩ := s.step_append hr fresh window ta hu hhist
    exact ⟨hiff, fun hk => ⟨_, _, hs hk⟩⟩
  | flush e rest_eq fresh window history =>
    subst rest_eq
    obtain ⟨hiff, hs⟩ := s.step_flush hr fresh window history hu hhist
    exact ⟨hiff, fun hk => ⟨_, _, hs hk⟩⟩

lemma zinit (defs : Set Word) :
    SameUses defs (Host.zinit 1) (Host.zinit 0) [] (List.replicate 128 .zero) :=
  ⟨Paired.zinit defs, by decide, rfl⟩

end SameUses

theorem cached_uses_iff {evs : List Event} (hv : ValidCalls evs) :
    (∀ p, p <+: evs → uses (run State.call (zinit 1) p).zexit.ta.history =
        uses (run State.call (zinit 0) p).zexit.ta.history) ↔
      EveryStep State.call (fun h ev => ∀ r ∈ eventRecord ev, KeepsUses h r) (zinit 1) evs := by
  have hrun : EveryState (both State.call State.call)
      (fun s => uses s.1.zexit.ta.history = uses s.2.zexit.ta.history) (zinit 1, zinit 0) evs ↔
      EveryStep (both State.call State.call) (fun s ev => ∀ r ∈ eventRecord ev, KeepsUses s.1 r)
        (zinit 1, zinit 0) evs := by
    apply everyState_iff_everyStep (fun s => ∃ live rest, SameUses (defIds evs) s.1 s.2 live rest)
      (fun ev => ∃ r, eventRecord ev = some r ∧ Allowed (defIds evs) r)
    · rintro s ⟨live, rest, hs⟩
      exact hs.zexit
    · rintro s ev ⟨live, rest, hs⟩ ⟨r, hev, hr⟩ hc
      exact (hs.step hev hr).2 (hc r hev)
    · rintro s ev ⟨live, rest, hs⟩ ⟨r, hev, hr⟩ hg r' hr'
      obtain rfl : r = r' := Option.some.inj (hev.symm.trans hr')
      exact (hs.step hev hr).1.mp hg
    · exact ⟨_, _, SameUses.zinit _⟩
    · exact fun ev hev => hv.allowed hev
  rw [everyState_iff_forall, everyStep_both State.call State.call
    fun h ev => ∀ r ∈ eventRecord ev, KeepsUses h r] at hrun
  simpa only [run_both] using hrun

def allocaUse : List Event := [(sampleMemory, .collectAlloca 1 100), (sampleMemory, .zuse 2 105)]

lemma validCalls_allocaUse : ValidCalls allocaUse := by
  constructor <;> simp [allocaUse, eventRecord, Record.id, Record.isUse]

theorem alloca_use_sent : uses (run State.call (zinit 1) allocaUse).zexit.ta.history =
    uses (run State.call (zinit 0) allocaUse).zexit.ta.history :=
  (cached_uses_iff validCalls_allocaUse).mpr ⟨by decide +kernel, by decide +kernel, trivial⟩
    allocaUse List.prefix_rfl

def repeatedUse : List Event := List.replicate 138 (sampleMemory, .zuse 1 1)

lemma validCalls_repeatedUse : ValidCalls repeatedUse := by
  have hm : ∀ ev ∈ repeatedUse, ev = (sampleMemory, .zuse 1 1) := fun ev => List.eq_of_mem_replicate
  constructor
  · intro ev hev
    exact ⟨.useRec 1 1, by rw [hm ev hev]; rfl, by decide⟩
  · intro ev hev ev' hev' r r' hr hr' hu hd
    rw [hm ev' hev'] at hr'
    cases hr'
    cases hd

theorem repeated_use_sent_again : ValidCalls repeatedUse ∧
    (uses (run State.call (zinit 1) repeatedUse).zexit.ta.history).length = 244 ∧
    (uses (run State.call (zinit 0) repeatedUse).zexit.ta.history).length = 138 :=
  ⟨validCalls_repeatedUse, by decide +kernel, by decide +kernel⟩

end Embedwatch.Host
