import Mathlib.Data.List.GetD
import Embedwatch.Host.Calls
import Embedwatch.Host.CacheWindow
import Embedwatch.Library.Runs

/-! The indices of the cache. The library flushes when an entry at index 121 has been written, so that
the last entries stay zero, and a zero entry is what stops the decoding loop of the trusted
application. -/

namespace Embedwatch.Host

open Library.Runs
open Ta (memrefInout flushLoop intIndices decodeEntries Blank)

inductive Action
  | call (ev : Event)
  | flush

def State.act (h : State) : Action → State
  | .call ev => h.call ev
  | .flush => h.flushCache

/-- The test of `zbouncer_collect_entry` on an entry. -/
def eventHits : Event → UseT → Bool
  | (_, .collectEntry .novalueT id _ _ _ _), e => e.defId = id
  | ev, e => (eventRecord ev).elim false fun r => hits r e

def eventUpdate (ev : Event) : UseT → UseT := (eventRecord ev).elim id putCache

def State.lookupEntry (h : State) (ev : Event) : Option ℕ :=
  (h.cache.take h.used).findIdx? (eventHits ev)

/-- The index that `zbouncer_update_entry` is called with. -/
def State.target (h : State) (ev : Event) : ℤ :=
  (h.lookupEntry ev).elim (h.cacheLastIndex + 1) Int.ofNat

def State.updated (h : State) (ev : Event) : State :=
  { h with
    cache := h.cache.modify (h.target ev).toNat (eventUpdate ev)
    cacheLastIndex := (h.lookupEntry ev).elim (h.cacheLastIndex + 1) fun _ => h.cacheLastIndex }

def State.Fills (h : State) (ev : Event) : Prop :=
  h.lookupEntry ev = none ∧ h.cacheLastIndex + 1 > 120

instance (h : State) (ev : Event) : Decidable (h.Fills ev) := inferInstanceAs (Decidable (_ ∧ _))

variable {h : State} {ev : Event} {a : Action}

lemma eventHits_eq {r : Record} (hr : eventRecord ev = some r) : eventHits ev = hits r := by
  obtain ⟨mem, c⟩ := ev
  funext e
  cases c with
  | collectEntry type id addr defId defSize sizeOfWrite => cases type <;> cases hr <;> rfl
  | _ =>
    cases hr
    rfl

lemma eventUpdate_eq {r : Record} (hr : eventRecord ev = some r) : eventUpdate ev = putCache r := by
  rw [eventUpdate, hr, Option.elim_some]

lemma eventRecord_eq_none (hr : eventRecord ev = none) : ∃ mem id addr defId defSize sizeOfWrite,
    ev = (mem, .collectEntry .novalueT id addr defId defSize sizeOfWrite) := by
  obtain ⟨mem, c⟩ := ev
  cases c with
  | collectEntry type id addr defId defSize sizeOfWrite =>
    cases type with
    | novalueT => exact ⟨mem, id, addr, defId, defSize, sizeOfWrite, rfl⟩
    | _ => cases hr
  | _ => cases hr

lemma updated_of_miss (hmiss : h.lookupEntry ev = none) : h.updated ev = { h with
    cache := h.cache.modify h.used (eventUpdate ev)
    cacheLastIndex := h.cacheLastIndex + 1 } := by
  simp only [State.updated, State.target, hmiss, Option.elim_none]
  rfl

lemma updated_of_hit {i : ℕ} (hhit : h.lookupEntry ev = some i) :
    h.updated ev = { h with cache := h.cache.modify i (eventUpdate ev) } := by
  simp only [State.updated, State.target, hhit, Option.elim_some]
  rfl

lemma insert_eq {r : Record} (hr : eventRecord ev = some r) :
    h.insert r = if h.Fills ev then (h.updated ev).flushCache else h.updated ev := by
  rw [State.insert.eq_def, ← eventHits_eq hr, ← eventUpdate_eq hr, ← State.lookupEntry]
  cases hfound : h.lookupEntry ev with
  | none => simp only [State.Fills, updated_of_miss hfound, hfound, true_and]
  | some i => simp only [State.Fills, updated_of_hit hfound, hfound, reduceCtorEq, false_and, if_false]

lemma call_cached_eq (hon : h.cacheEnabled = 1) (ev : Event) :
    h.call ev = if h.Fills ev then (h.updated ev).flushCache else h.updated ev := by
  cases hr : eventRecord ev with
  | some r => rw [call_cached hon hr, insert_eq hr]
  | none =>
    obtain ⟨mem, id, addr, defId, defSize, sizeOfWrite, hev⟩ := eventRecord_eq_none hr
    have hsame : sameEntry .novalueT id defId = eventHits ev := by
      funext e
      simp [hev, sameEntry, eventHits]
    have hupdate : updateEntry mem .novalueT id addr defId defSize sizeOfWrite = eventUpdate ev := by
      rw [eventUpdate, hr]
      rfl
    have hlookup : (h.cache.take (h.cacheLastIndex + 1).toNat).findIdx? (eventHits ev) =
        h.lookupEntry ev := rfl
    have hcall : h.call ev = h.collectEntry mem .novalueT id addr defId defSize sizeOfWrite := by
      rw [hev]
      rfl
    rw [hcall, State.collectEntry.eq_def, if_pos hon]
    simp only [hsame, hupdate, hlookup]
    cases hfound : h.lookupEntry ev with
    | none =>
      simp only [State.Fills, updated_of_miss hfound, hfound, true_and]
      rfl
    | some i =>
      simp only [State.Fills, updated_of_hit hfound, hfound, reduceCtorEq, false_and, if_false]

lemma call_uncached_eq (hoff : h.cacheEnabled ≠ 1) (ev : Event) :
    h.call ev = { h with ta := (h.call ev).ta } := by
  cases hr : eventRecord ev with
  | some r => rw [call_uncached hoff hr]
  | none =>
    obtain ⟨mem, id, addr, defId, defSize, sizeOfWrite, rfl⟩ := eventRecord_eq_none hr
    rw [State.call, State.collectEntry.eq_def, if_neg hoff]

def clearedIndices : List ℤ := (List.range 16).map Int.ofNat

def State.writes (h : State) : Action → List ℤ
  | .call ev =>
    if h.cacheEnabled = 1 then h.target ev :: if h.Fills ev then clearedIndices else [] else []
  | .flush => clearedIndices

def State.submitted (h : State) : Action → Option (List UseT)
  | .call ev => if h.cacheEnabled = 1 ∧ h.Fills ev then some (h.updated ev).cache else none
  | .flush => if h.cacheEnabled = 1 then some h.cache else none

def State.entry (h : State) (i : ℕ) : UseT := h.cache.getD i .zero

@[simp] lemma flushCache_cache (h : State) : h.flushCache.cache = clearedCache h.cache := rfl

@[simp] lemma flushCache_last (h : State) : h.flushCache.cacheLastIndex = -1 := rfl

lemma getD_modify (es : List UseT) (f : UseT → UseT) (i j : ℕ) (hj : j < es.length) :
    (es.modify i f).getD j .zero = if i = j then f (es.getD j .zero) else es.getD j .zero := by
  rw [List.getD_eq_getElem?_getD, List.getD_eq_getElem?_getD, List.getElem?_modify,
    List.getElem?_eq_getElem hj]
  rfl

lemma getD_clearedCache (es : List UseT) (j : ℕ) :
    (clearedCache es).getD j .zero = if j < 16 then .zero else es.getD j .zero := by
  rw [clearedCache, List.getD_eq_getElem?_getD, List.getD_eq_getElem?_getD]
  split
  · next hj =>
    rw [List.getElem?_append_left (by simpa using hj), List.getElem?_replicate, if_pos hj]
    rfl
  · next hj =>
    rw [List.getElem?_append_right (by simpa using hj), List.getElem?_drop, List.length_replicate]
    congr 2
    omega

lemma entry_zinit (cacheEnabled : ℤ) {i : ℕ} (hi : i < 128) :
    (zinit cacheEnabled).entry i = .zero := by
  rw [State.entry, zinit, List.getD_eq_getElem?_getD, List.getElem?_replicate, if_pos hi]
  rfl

structure Bounded (h : State) : Prop where
  low : -1 ≤ h.cacheLastIndex
  high : h.cacheLastIndex ≤ 120
  length : h.cache.length = 128
  tail : ∀ i, 122 ≤ i → i < 128 → h.entry i = .zero

namespace Bounded

lemma zinit (cacheEnabled : ℤ) : Bounded (zinit cacheEnabled) := by
  have hhigh : (-1 : ℤ) ≤ 120 := by decide
  exact ⟨Int.le_refl _, hhigh, List.length_replicate, fun i _ hi => entry_zinit cacheEnabled hi⟩

lemma used (b : Bounded h) : (h.used : ℤ) = h.cacheLastIndex + 1 := by
  have := b.low
  rw [State.used]
  omega

lemma hit_le (b : Bounded h) {i : ℕ} (hhit : h.lookupEntry ev = some i) :
    (i : ℤ) ≤ h.cacheLastIndex := by
  have hlt : i < (h.cache.take h.used).length :=
    (List.findIdx?_eq_some_iff_findIdx_eq.mp hhit).1
  rw [List.length_take] at hlt
  have := b.used
  omega

lemma target_bounds (b : Bounded h) (ev : Event) : 0 ≤ h.target ev ∧ h.target ev ≤ 121 := by
  have hlow := b.low
  have hhigh := b.high
  cases hfound : h.lookupEntry ev with
  | none =>
    rw [State.target, hfound, Option.elim_none]
    omega
  | some i =>
    have := b.hit_le hfound
    rw [State.target, hfound, Option.elim_some, Int.ofNat_eq_natCast]
    omega

lemma entry_updated (b : Bounded h) {i : ℕ} (hi : i < 128) : (h.updated ev).entry i =
    if h.target ev = i then eventUpdate ev (h.entry i) else h.entry i := by
  have hpos := (b.target_bounds ev).1
  rw [State.entry, State.updated, getD_modify _ _ _ _ (by rw [b.length]; exact hi)]
  have hiff : (h.target ev).toNat = i ↔ h.target ev = i := by omega
  simp only [hiff]
  rfl

lemma updated_tail (b : Bounded h) : ∀ i, 122 ≤ i → i < 128 → (h.updated ev).entry i = .zero := by
  intro i hi hlt
  have := (b.target_bounds ev).2
  rw [b.entry_updated hlt, if_neg (by omega)]
  exact b.tail i hi hlt

lemma updated_length (b : Bounded h) : (h.updated ev).cache.length = 128 := by
  rw [State.updated, List.length_modify, b.length]

lemma entry_flushCache (h : State) (i : ℕ) :
    h.flushCache.entry i = if i < 16 then .zero else h.entry i := by
  rw [State.entry, flushCache_cache, getD_clearedCache]
  rfl

lemma flushCache (hlength : h.cache.length = 128)
    (htail : ∀ i, 122 ≤ i → i < 128 → h.entry i = .zero) : Bounded h.flushCache := by
  refine ⟨Int.le_refl _, by rw [flushCache_last]; decide, ?_, fun i hi hlt => ?_⟩
  · exact (Window.clearedCache_drop hlength).1
  · rw [entry_flushCache, if_neg (by omega)]
    exact htail i hi hlt

lemma updated (b : Bounded h) (hfills : ¬ h.Fills ev) : Bounded (h.updated ev) := by
  refine ⟨?_, ?_, b.updated_length, b.updated_tail⟩
  all_goals
    have hlow := b.low
    have hhigh := b.high
    cases hfound : h.lookupEntry ev with
    | none =>
      have hlast : ¬ h.cacheLastIndex + 1 > 120 := fun hlast => hfills ⟨hfound, hlast⟩
      rw [updated_of_miss hfound]
      simp only
      omega
    | some i =>
      rw [updated_of_hit hfound]
      assumption

theorem act (b : Bounded h) (a : Action) : Bounded (h.act a) := by
  cases a with
  | flush => exact flushCache b.length b.tail
  | call ev =>
    by_cases hon : h.cacheEnabled = 1
    · rw [State.act, call_cached_eq hon]
      by_cases hfills : h.Fills ev
      · rw [if_pos hfills]
        exact flushCache b.updated_length b.updated_tail
      · rw [if_neg hfills]
        exact b.updated hfills
    · rw [State.act, call_uncached_eq hon]
      exact ⟨b.low, b.high, b.length, b.tail⟩

lemma writes_bounds (b : Bounded h) (a : Action) : ∀ i ∈ h.writes a, 0 ≤ i ∧ i ≤ 121 := by
  have hcleared : ∀ i ∈ clearedIndices, 0 ≤ i ∧ i ≤ 121 := by decide
  intro i hi
  cases a with
  | flush => exact hcleared i hi
  | call ev =>
    rw [State.writes] at hi
    split at hi
    · rcases List.mem_cons.mp hi with rfl | hi
      · exact b.target_bounds ev
      · split at hi
        · exact hcleared i hi
        · cases hi
    · cases hi

lemma submitted_tail (b : Bounded h) {buffer : List UseT} (hbuffer : h.submitted a = some buffer) :
    buffer.length = 128 ∧ ∀ i, 122 ≤ i → i < 128 → buffer.getD i .zero = .zero := by
  cases a with
  | flush =>
    rw [State.submitted, Option.ite_none_right_eq_some] at hbuffer
    obtain ⟨-, heq⟩ := hbuffer
    cases heq
    exact ⟨b.length, b.tail⟩
  | call ev =>
    rw [State.submitted, Option.ite_none_right_eq_some] at hbuffer
    obtain ⟨-, heq⟩ := hbuffer
    cases heq
    exact ⟨b.updated_length, b.updated_tail⟩

end Bounded

lemma mem_clearedIndices {i : ℕ} : (i : ℤ) ∈ clearedIndices ↔ i < 16 := by
  simp [clearedIndices]

theorem Bounded.act_entry (b : Bounded h) {i : ℕ} (hi : i < 128) (hwrites : (i : ℤ) ∉ h.writes a) :
    (h.act a).entry i = h.entry i := by
  cases a with
  | flush =>
    rw [State.writes, mem_clearedIndices] at hwrites
    rw [State.act, entry_flushCache, if_neg hwrites]
  | call ev =>
    by_cases hon : h.cacheEnabled = 1
    · rw [State.writes, if_pos hon, List.mem_cons, not_or] at hwrites
      obtain ⟨htarget, hcleared⟩ := hwrites
      have hupdated : (h.updated ev).entry i = h.entry i := by
        rw [b.entry_updated hi, if_neg (Ne.symm htarget)]
      rw [State.act, call_cached_eq hon]
      by_cases hfills : h.Fills ev
      · rw [if_pos hfills, mem_clearedIndices] at hcleared
        rw [if_pos hfills, entry_flushCache, if_neg hcleared, hupdated]
      · rw [if_neg hfills, hupdated]
    · rw [State.act, call_uncached_eq hon]
      rfl

theorem act_ta (hon : h.cacheEnabled = 1) (a : Action) : (h.act a).ta =
    (h.submitted a).elim h.ta fun buffer => (h.invoke 11 memrefInout (cacheParams buffer)).ta := by
  cases a with
  | flush =>
    rw [State.submitted, if_pos hon, State.act, State.flushCache]
    simp only [if_pos hon, Option.elim_some]
  | call ev =>
    rw [State.submitted, State.act, call_cached_eq hon]
    by_cases hfills : h.Fills ev
    · rw [if_pos hfills, if_pos ⟨hon, hfills⟩, Option.elim_some, State.flushCache]
      have hon' : (h.updated ev).cacheEnabled = 1 := hon
      simp only [if_pos hon']
      rfl
    · rw [if_neg hfills, if_neg fun hboth => hfills hboth.2]
      rfl

lemma flushLoop_stops {buffer : List UseT} {k : ℕ} (hk : k < buffer.length)
    (hzero : buffer.getD k .zero = .zero) (hfuel : k < intIndices) (s : Ta.State) :
    ∃ s' i, flushLoop (UseT.ofMemory (cacheParams buffer).memref.words) intIndices 0 s =
      some (s', i) ∧ i ≤ k := by
  have hget : buffer[k] = .zero := by
    rw [← hzero, List.getD_eq_getElem _ _ hk]
  have htake : buffer.take (k + 1) = buffer.take k ++ UseT.zero :: [] := by
    rw [List.take_succ_eq_append_getElem hk, hget]
  have hes : ∀ j (hj : j < (buffer.take (k + 1)).length),
      UseT.ofMemory (cacheParams buffer).memref.words (0 + j) = (buffer.take (k + 1))[j] := by
    intro j hj
    rw [List.getElem_take, cacheParams, UseT.ofMemory_toMemory, Nat.zero_add, List.getD_eq_getElem]
  have hblank : ∃ e ∈ buffer.take (k + 1), Blank e := by
    refine ⟨.zero, ?_, Ta.blank_zero⟩
    rw [htake]
    exact List.mem_append_right _ List.mem_cons_self
  have hlength : (buffer.take (k + 1)).length ≤ intIndices := by
    rw [List.length_take]
    omega
  refine ⟨_, _, Ta.flushLoop_of_blank intIndices s hes hblank hlength, ?_⟩
  have hle := Ta.decodeEntries_length_le (buffer.take k)
  rw [List.length_take] at hle
  rw [htake, Ta.decodeEntries_blank _ Ta.blank_zero]
  omega

theorem cache_indices_bounded (cacheEnabled : ℤ) (acts : List Action) :
    EveryState State.act (fun h => -1 ≤ h.cacheLastIndex ∧ h.cacheLastIndex ≤ 120 ∧
        ∀ i, 122 ≤ i → i < 128 → h.cache[i]? = some .zero) (zinit cacheEnabled) acts ∧
      EveryStep State.act (fun h a => (∀ i ∈ h.writes a, 0 ≤ i ∧ i ≤ 121) ∧
        (∀ i : ℕ, i < 128 → (i : ℤ) ∉ h.writes a → (h.act a).entry i = h.entry i) ∧
        (h.cacheEnabled = 1 → (h.act a).ta = (h.submitted a).elim h.ta fun buffer =>
          (h.invoke 11 memrefInout (cacheParams buffer)).ta) ∧
        ∀ buffer ∈ h.submitted a, ∀ s, ∃ s' i,
          flushLoop (UseT.ofMemory (cacheParams buffer).memref.words) intIndices 0 s = some (s', i) ∧
            i ≤ 122) (zinit cacheEnabled) acts := by
  have hstep : ∀ h a, Bounded h → Bounded (h.act a) := fun h a b => b.act a
  have hzinit := Bounded.zinit cacheEnabled
  constructor
  · have htrue : EveryStep State.act (fun _ _ => True) (zinit cacheEnabled) acts :=
      everyStep_of_invariant Bounded hstep (fun _ _ _ => trivial) hzinit
    have hbounded : EveryState State.act Bounded (zinit cacheEnabled) acts :=
      everyState_of_invariant Bounded (fun _ => True) (fun h a b _ _ => hstep h a b) hzinit
        (fun _ _ => trivial) htrue
    refine hbounded.imp fun h b => ⟨b.low, b.high, fun i hi hlt => ?_⟩
    have hget : i < h.cache.length := by rwa [b.length]
    have hentry := b.tail i hi hlt
    rw [State.entry, List.getD_eq_getElem _ _ hget] at hentry
    rw [List.getElem?_eq_getElem hget, hentry]
  · apply everyStep_of_invariant Bounded hstep ?_ hzinit
    intro h a b
    refine ⟨b.writes_bounds a, fun i hi => b.act_entry hi, fun hon => act_ta hon a,
      fun buffer hbuffer s => ?_⟩
    obtain ⟨hlength, htail⟩ := b.submitted_tail hbuffer
    have hk : 122 < buffer.length := by rw [hlength]; decide
    exact flushLoop_stops hk (htail 122 (Nat.le_refl _) (by decide)) (by decide) s

end Embedwatch.Host
