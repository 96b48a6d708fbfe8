import Embedwatch.Host.CachedUses
import Embedwatch.Library.LastWrite

/-! The definitions that the uses are judged against. A definition that updates an earlier entry
moves back to the place of that entry, before the uses that have been collected since. -/

namespace Embedwatch.Host

open Ta (Blank decodeEntry decodeEntries exists_decodeEntry decodeEntries_cons_some
  decodeEntries_append)
open Library.Runs Library.LastWrite

def defKey (r : Record) : Option Word := if r.isUse then none else some r.id

lemma defKey_of_isUse_eq_false {r : Record} (h : r.isUse = false) : defKey r = some r.id := by
  simp [defKey, h]

def Fits (e : UseT) : Record → Prop
  | .defRec _ _ => e.defSize = 0
  | .ddefRec _ _ size => size ≠ 0 ∧ NoUse e
  | .useRec _ _ => ¬ (e.defId ≠ 0 ∧ e.defSize = 0)
  | .iuseRec _ _ _ => ¬ (e.defId ≠ 0 ∧ e.defSize = 0) ∧ e.useId = 0

def KeepsDefs (h : State) (r : Record) : Prop :=
  match h.lookup r with
  | some i =>
    Fits (h.cache.getD i .zero) r ∧ (putCache r (h.cache.getD i .zero) = h.cache.getD i .zero ∨
      ∀ e ∈ (h.cache.take h.used).drop (i + 1), ShowsNoUse e)
  | none => Fits (h.cache.getD h.used .zero) r

instance (e : UseT) : (r : Record) → Decidable (Fits e r)
  | .defRec _ _ => inferInstanceAs (Decidable (e.defSize = 0))
  | .ddefRec _ _ size => inferInstanceAs (Decidable (size ≠ 0 ∧ NoUse e))
  | .useRec _ _ => inferInstanceAs (Decidable ¬ (e.defId ≠ 0 ∧ e.defSize = 0))
  | .iuseRec _ _ _ => inferInstanceAs (Decidable (¬ (e.defId ≠ 0 ∧ e.defSize = 0) ∧ e.useId = 0))

instance (h : State) (r : Record) : Decidable (KeepsDefs h r) :=
  match hl : h.lookup r with
  | some i =>
    have hrest : Decidable (∀ e ∈ (h.cache.take h.used).drop (i + 1), ShowsNoUse e) := inferInstance
    decidable_of_iff
      (Fits (h.cache.getD i .zero) r ∧ (putCache r (h.cache.getD i .zero) = h.cache.getD i .zero ∨
        ∀ e ∈ (h.cache.take h.used).drop (i + 1), ShowsNoUse e)) (by rw [KeepsDefs, hl])
  | none => decidable_of_iff (Fits (h.cache.getD h.used .zero) r) (by rw [KeepsDefs, hl])

lemma Fits.decodeEntry {e : UseT} {r : Record} (h : Fits e r) (hid : r.id ≠ 0) :
    decodeEntry (putCache r e) = some r := by
  cases r with
  | defRec id addr =>
    have hn : id ≠ 0 := hid
    have hs : e.defSize = 0 := h
    simp only [putCache, Ta.decodeEntry, ne_eq, hn, hs, not_false_iff, and_self, if_true]
  | ddefRec id addr size =>
    obtain ⟨hs, hu, hi⟩ := h
    simp only [putCache, Ta.decodeEntry, ne_eq, hs, hu, hi, not_true_eq_false, and_false, if_false,
      not_false_iff, if_true]
  | useRec id addr =>
    have hn : id ≠ 0 := hid
    have hd : ¬ (e.defId ≠ 0 ∧ e.defSize = 0) := h
    simp only [putCache, Ta.decodeEntry, if_neg hd, ne_eq, hn, not_false_iff, if_true]
  | iuseRec use defn addr =>
    have hn : use ≠ 0 := hid
    obtain ⟨hd, hu⟩ := h
    simp only [putCache, Ta.decodeEntry, if_neg hd, ne_eq, hn, hu, not_true_eq_false, if_false,
      not_false_iff, if_true]

lemma hits_eq_decide {r : Record} (hd : r.isUse = false) (e : UseT) :
    hits r e = decide (e.defId = r.id) := by
  cases r with
  | defRec => rfl
  | ddefRec => rfl
  | useRec => cases hd
  | iuseRec => cases hd

lemma defId_of_hit {e : UseT} {r : Record} (hd : r.isUse = false) (hit : hits r e = true) :
    e.defId = r.id := by
  rwa [hits_eq_decide hd, decide_eq_true_iff] at hit

lemma defId_ne_of_miss {e : UseT} {r : Record} (hd : r.isUse = false) (miss : hits r e = false) :
    e.defId ≠ r.id := by
  rwa [hits_eq_decide hd, decide_eq_false_iff_not] at miss

lemma exists_replaced {e : UseT} {r : Record} (h : Fits e r) (hd : r.isUse = false)
    (hit : hits r e = true) (hid : r.id ≠ 0) :
    ∃ r₀, decodeEntry e = some r₀ ∧ defKey r₀ = some r.id := by
  have he := defId_of_hit hd hit
  have hn : e.defId ≠ 0 := he ▸ hid
  by_cases hs : e.defSize = 0
  · refine ⟨.defRec e.defId e.defAddr, ?_, by rw [← he]; rfl⟩
    simp only [decodeEntry, ne_eq, hn, hs, not_false_iff, and_self, if_true]
  · cases r with
    | defRec => exact absurd h hs
    | ddefRec =>
      obtain ⟨-, hu, hi⟩ := h
      refine ⟨.ddefRec e.defId e.defAddr e.defSize, ?_, by rw [← he]; rfl⟩
      simp only [decodeEntry, ne_eq, hs, hu, hi, and_false, if_false, not_true_eq_false,
        not_false_iff, if_true]
    | useRec => cases hd
    | iuseRec => cases hd

lemma exists_of_mem_decodeEntries {es : List UseT} {r : Record} (h : r ∈ decodeEntries es) :
    ∃ e ∈ es, decodeEntry e = some r := by
  induction es with
  | nil => simp [decodeEntries] at h
  | cons e es ih =>
    cases hd : decodeEntry e with
    | none => simp [decodeEntries, hd] at h
    | some r' =>
      rw [decodeEntries_cons_some hd] at h
      rcases List.mem_cons.mp h with rfl | h
      · exact ⟨e, List.mem_cons_self, hd⟩
      · obtain ⟨e', he', hr⟩ := ih h
        exact ⟨e', List.mem_cons_of_mem e he', hr⟩

lemma ShowsNoUse.isUse {e : UseT} {r : Record} (h : ShowsNoUse e) (hd : decodeEntry e = some r) :
    r.isUse = false := by
  have hh := useOf_eq_nil.mpr h
  rw [useOf, hd, Option.toList_some, Record.uses_cons] at hh
  cases hr : r.isUse with
  | false => rfl
  | true => simp [hr] at hh

lemma decodeEntries_split {as : List UseT} {e : UseT} {r : Record} (ha : ∀ a ∈ as, ¬ Blank a)
    (he : decodeEntry e = some r) (bs : List UseT) :
    decodeEntries (as ++ e :: bs) = decodeEntries as ++ r :: decodeEntries bs := by
  rw [decodeEntries_append ha, decodeEntries_cons_some he]

structure SameDefs (defs : Set Word) (c u : State) (live rest : List UseT) : Prop
    extends Paired defs c u live rest where
  apart : live.Pairwise fun a b =>
    ∀ r, decodeEntry b = some r → r.isUse = false → a.defId ≠ r.id
  alike : Alike defKey (c.ta.history ++ decodeEntries live) u.ta.history

namespace SameDefs

variable {defs : Set Word} {c u c' u' : State} {live rest as bs : List UseT} {e : UseT} {r : Record}

lemma apart_merge (s : SameDefs defs c u (as ++ e :: bs) rest) (hd : r.isUse = false)
    (hput : decodeEntry (putCache r e) = some r) (hit : hits r e = true)
    (first : ∀ a ∈ as, hits r a = false) :
    (as ++ putCache r e :: bs).Pairwise fun a b =>
      ∀ r, decodeEntry b = some r → r.isUse = false → a.defId ≠ r.id := by
  have hid : (putCache r e).defId = e.defId := by
    rw [defId_of_hit hd hit]
    cases r with
    | defRec => rfl
    | ddefRec => rfl
    | useRec => cases hd
    | iuseRec => cases hd
  have hs := s.apart
  rw [List.pairwise_append, List.pairwise_cons] at hs ⊢
  obtain ⟨has, ⟨heb, hbs⟩, hab⟩ := hs
  refine ⟨has, ⟨fun b hb => hid ▸ heb b hb, hbs⟩, ?_⟩
  intro a ha b hb
  rcases List.mem_cons.mp hb with rfl | hb
  · intro r' hr' _
    obtain rfl : r = r' := Option.some.inj (hput.symm.trans hr')
    exact defId_ne_of_miss hd (first a ha)
  · exact hab a ha b (List.mem_cons_of_mem e hb)

lemma defKey_of_mem_later (s : SameDefs defs c u (as ++ e :: bs) rest) (hd : r.isUse = false)
    (hit : hits r e = true) {q : Record} (hq : q ∈ decodeEntries bs) : defKey q ≠ some r.id := by
  obtain ⟨b, hb, hbq⟩ := exists_of_mem_decodeEntries hq
  cases hu : q.isUse with
  | true => simp [defKey, hu]
  | false =>
    have hs := (List.pairwise_cons.mp (List.pairwise_append.mp s.apart).2.1).1 b hb q hbq hu
    rw [defKey_of_isUse_eq_false hu, ← defId_of_hit hd hit]
    exact fun h => hs (Option.some.inj h).symm

lemma step_merge (s : SameDefs defs c u (as ++ e :: bs) rest) (hr : Allowed defs r)
    (hit : hits r e = true) (first : ∀ a ∈ as, hits r a = false) (hk : Fits e r ∧
      (putCache r e = e ∨ ∀ b ∈ bs, ShowsNoUse b))
    (w : Window c' (as ++ putCache r e :: bs) rest) (hta : c'.ta = c.ta) (hu : Unbuffered u')
    (hhist : u'.ta.history = u.ta.history ++ [r]) :
    SameDefs defs c' u' (as ++ putCache r e :: bs) rest := by
  obtain ⟨hfit, hk⟩ := hk
  have hd := s.isUse_of_hit hr (by simp) hit
  have hput := hfit.decodeEntry hr.id_ne_zero
  have ha : ∀ a ∈ as, ¬ Blank a := fun a h => s.nonblank a (by simp [h])
  have hkey := defKey_of_isUse_eq_false hd
  refine ⟨s.toPaired.merge hr w hu, s.apart_merge hd hput hit first, ?_⟩
  have halike := s.alike
  rw [hta, hhist, decodeEntries_split ha hput, ← List.append_assoc]
  rcases hk with hsame | hno
  · -- The same definition once more: the last write of its id is the one already there.
    rw [hsame] at hput
    rw [decodeEntries_split ha hput, ← List.append_assoc] at halike
    refine halike.trans (alike_repeat hkey ?_)
    have hnone : last defKey (decodeEntries bs) r.id = none :=
      last_eq_none fun q hq => s.defKey_of_mem_later hd hit hq
    rw [← halike.last_eq, List.append_cons, last_append, hnone, last_append, last_singleton hkey]
    rfl
  · obtain ⟨r₀, hr₀, hkey₀⟩ := exists_replaced hfit hd hit hr.id_ne_zero
    rw [decodeEntries_split ha hr₀, ← List.append_assoc] at halike
    refine (alike_overwrite hkey₀ hkey ?_).trans (halike.append [r])
    intro q hq
    refine ⟨?_, s.defKey_of_mem_later hd hit hq⟩
    obtain ⟨b, hb, hbq⟩ := exists_of_mem_decodeEntries hq
    rw [defKey_of_isUse_eq_false ((hno b hb).isUse hbq)]
    exact Option.some_ne_none _

lemma alike_fresh (s : SameDefs defs c u live (e :: rest)) (hr : Allowed defs r) (hk : Fits e r) :
    Alike defKey (c.ta.history ++ decodeEntries (live ++ [putCache r e])) (u.ta.history ++ [r]) := by
  have hput := hk.decodeEntry hr.id_ne_zero
  have hnil : decodeEntries [] = [] := rfl
  rw [decodeEntries_split s.nonblank hput, hnil, ← List.append_assoc]
  exact s.alike.append [r]

lemma step_append (s : SameDefs defs c u live (e :: rest)) (hr : Allowed defs r)
    (fresh : ∀ a ∈ live, hits r a = false) (hk : Fits e r)
    (w : Window c' (live ++ [putCache r e]) rest) (hta : c'.ta = c.ta) (hu : Unbuffered u')
    (hhist : u'.ta.history = u.ta.history ++ [r]) :
    SameDefs defs c' u' (live ++ [putCache r e]) rest := by
  refine ⟨s.toPaired.append hr w hu, ?_, by rw [hta, hhist]; exact s.alike_fresh hr hk⟩
  rw [List.pairwise_append]
  refine ⟨s.apart, List.pairwise_singleton _ _, ?_⟩
  intro a ha b hb r' hr' hd
  rw [List.mem_singleton.mp hb, hk.decodeEntry hr.id_ne_zero, Option.some.injEq] at hr'
  subst hr'
  exact defId_ne_of_miss hd (fresh a ha)

theorem step (s : SameDefs defs c u live rest) {ev : Event} (hev : eventRecord ev = some r)
    (hr : Allowed defs r) (hk : KeepsDefs c r) :
    ∃ live' rest', SameDefs defs (c.call ev) (u.call ev) live' rest' := by
  obtain ⟨hu, hhist⟩ := s.unbuffered.call hev
  rw [call_cached s.window.enabled hev]
  cases s.window.inserts r with
  | merge as e bs live_eq hit first window ta =>
    subst live_eq
    rw [KeepsDefs, s.window.lookup_eq_some hit first] at hk
    have hdrop : (as ++ e :: bs).drop (as.length + 1) = bs := by simp
    simp only [s.window.getD_length, s.window.take_used, hdrop] at hk
    exact ⟨_, _, s.step_merge hr hit first hk window ta hu hhist⟩
  | append e rest' rest_eq fresh window ta =>
    subst rest_eq
    rw [KeepsDefs, s.window.lookup_eq_none fresh] at hk
    simp only [s.window.getD_used] at hk
    exact ⟨_, _, s.step_append hr fresh hk window ta hu hhist⟩
  | flush e rest_eq fresh window history =>
    subst rest_eq
    rw [KeepsDefs, s.window.lookup_eq_none fresh] at hk
    simp only [s.window.getD_used] at hk
    refine ⟨_, _, s.toPaired.flush hr window hu, List.Pairwise.nil, ?_⟩
    have hnil : decodeEntries [] = [] := rfl
    rw [hnil, List.append_nil, history, hhist]
    exact s.alike_fresh hr hk

lemma views_eq (s : SameDefs defs c u live rest) {i : ℕ} {v v' : Word → Option Record}
    (hv : (views defKey [] c.zexit.ta.history)[i]? = some v)
    (hv' : (views defKey [] u.zexit.ta.history)[i]? = some v') : v = v' := by
  rw [s.window.zexit_history, decodeEntries_append s.nonblank, ← List.append_assoc] at hv
  rw [s.unbuffered.zexit_history] at hv'
  exact s.alike.getElem?_views _ hv hv'

end SameDefs

theorem cached_views_eq {evs : List Event} (hv : ValidCalls evs)
    (hk : EveryStep State.call (fun h ev => ∀ r ∈ eventRecord ev, KeepsDefs h r) (zinit 1) evs) :
    ∀ p, p <+: evs → ∀ (i : ℕ) (v v' : Word → Option Record),
      (views defKey [] (run State.call (zinit 1) p).zexit.ta.history)[i]? = some v →
      (views defKey [] (run State.call (zinit 0) p).zexit.ta.history)[i]? = some v' → v = v' := by
  have hrun : EveryState (both State.call State.call)
      (fun s => ∃ live rest, SameDefs (defIds evs) s.1 s.2 live rest) (zinit 1, zinit 0) evs := by
    have hk' := (everyStep_both State.call State.call
      (fun h ev => ∀ r ∈ eventRecord ev, KeepsDefs h r) (t := zinit 0)).mpr hk
    apply everyState_of_invariant _ (fun ev => ∃ r, eventRecord ev = some r ∧ Allowed (defIds evs) r)
      _ _ _ hk'
    · rintro s ev ⟨live, rest, hs⟩ ⟨r, hev, hr⟩ hc
      exact hs.step hev hr (hc r hev)
    · exact ⟨_, _, Paired.zinit _, List.Pairwise.nil, Alike.refl _⟩
    · exact fun ev hev => hv.allowed hev
  intro p hp i v v' hi hi'
  obtain ⟨live, rest, hs⟩ := everyState_iff_forall.mp hrun p hp
  rw [run_both] at hs
  exact hs.views_eq hi hi'

theorem alloca_use_views_eq :
    (views defKey [] (run State.call (zinit 1) allocaUse).zexit.ta.history)[0]? =
      (views defKey [] (run State.call (zinit 0) allocaUse).zexit.ta.history)[0]? := by
  have h1 : 0 < (views defKey [] (run State.call (zinit 1) allocaUse).zexit.ta.history).length := by
    decide +kernel
  have h0 : 0 < (views defKey [] (run State.call (zinit 0) allocaUse).zexit.ta.history).length := by
    decide +kernel
  rw [List.getElem?_eq_getElem h1, List.getElem?_eq_getElem h0]
  exact congrArg some (cached_views_eq validCalls_allocaUse
    ⟨by decide +kernel, by decide +kernel, trivial⟩ allocaUse List.prefix_rfl 0 _ _
    (List.getElem?_eq_getElem h1) (List.getElem?_eq_getElem h0))

def redefinition : List Event :=
  [(sampleMemory, .collectAlloca 1 100), (sampleMemory, .zuse 2 105),
    (sampleMemory, .collectAlloca 1 200)]

lemma validCalls_redefinition : ValidCalls redefinition := by
  constructor <;> simp [redefinition, eventRecord, Record.id, Record.isUse]

theorem redefinition_before_use : ValidCalls redefinition ∧
    (views defKey [] (run State.call (zinit 1) redefinition).zexit.ta.history).map (· 1) =
      [some (.defRec 1 200)] ∧
    (views defKey [] (run State.call (zinit 0) redefinition).zexit.ta.history).map (· 1) =
      [some (.defRec 1 100)] :=
  ⟨validCalls_redefinition, by decide +kernel, by decide +kernel⟩

end Embedwatch.Host
