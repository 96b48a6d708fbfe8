import Embedwatch.Host.BothModes
import Embedwatch.Host.CacheBounds

/-! The entries of the cache behind the last index. The reset after a flush clears the first 16 entries,
so that a flush leaves a fresh cache behind exactly if the others were zero before it. -/

namespace Embedwatch.Host

open Library.Runs

def CleanBeyond (h : State) : Prop :=
  ∀ i : ℕ, h.cacheLastIndex < i → i < 128 → h.entry i = .zero

def ClearedEntries (h : State) : Prop := ∀ i, 16 ≤ i → i < 128 → h.entry i = .zero

def FlushesClean (h : State) : Action → Prop
  | .call ev => h.cacheEnabled = 1 → h.Fills ev → ClearedEntries h ∧ eventUpdate ev .zero = .zero
  | .flush => ClearedEntries h

structure Clean (h : State) : Prop extends Bounded h where
  beyond : CleanBeyond h

variable {h : State} {ev : Event} {a : Action}

lemma cleanBeyond_flushCache : CleanBeyond h.flushCache ↔ ClearedEntries h := by
  constructor
  · intro hclean i hi hlt
    have hlast : h.flushCache.cacheLastIndex < i := by
      rw [flushCache_last]
      omega
    have hentry := hclean i hlast hlt
    rwa [Bounded.entry_flushCache, if_neg (by omega)] at hentry
  · intro hcleared i _ hlt
    rw [Bounded.entry_flushCache]
    split
    · rfl
    · exact hcleared i (by omega) hlt

lemma CleanBeyond.cache_eq (hclean : CleanBeyond h) (hlength : h.cache.length = 128)
    (hlast : h.cacheLastIndex = -1) : h.cache = List.replicate 128 .zero := by
  apply List.eq_replicate_iff.mpr
  refine ⟨hlength, fun e he => ?_⟩
  obtain ⟨i, hi, rfl⟩ := List.mem_iff_getElem.mp he
  have hentry := hclean i (by omega) (by omega)
  rwa [State.entry, List.getD_eq_getElem _ _ hi] at hentry

namespace Clean

lemma zinit (cacheEnabled : ℤ) : Clean (zinit cacheEnabled) :=
  ⟨Bounded.zinit cacheEnabled, fun _ _ hi => entry_zinit cacheEnabled hi⟩

lemma updated (c : Clean h) : CleanBeyond (h.updated ev) := by
  intro i hlast hlt
  rw [c.entry_updated hlt]
  cases hfound : h.lookupEntry ev with
  | none =>
    rw [updated_of_miss hfound] at hlast
    simp only at hlast
    rw [State.target, hfound, Option.elim_none, if_neg (by omega)]
    exact c.beyond i (by omega) hlt
  | some j =>
    have hj := c.hit_le hfound
    rw [updated_of_hit hfound] at hlast
    simp only at hlast
    rw [State.target, hfound, Option.elim_some, Int.ofNat_eq_natCast, if_neg (by omega)]
    exact c.beyond i hlast hlt

lemma target_of_fills (c : Clean h) (hfills : h.Fills ev) : h.target ev = (121 : ℕ) := by
  have := c.high
  have := hfills.2
  rw [State.target, hfills.1, Option.elim_none]
  omega

lemma entry_last (c : Clean h) : h.entry 121 = .zero := by
  apply c.beyond 121 ?_ (by decide)
  have := c.high
  omega

lemma clearedEntries_updated (c : Clean h) (hfills : h.Fills ev) :
    ClearedEntries (h.updated ev) ↔ ClearedEntries h ∧ eventUpdate ev .zero = .zero := by
  have hzero := c.entry_last
  have htarget := c.target_of_fills hfills
  have hlast : (h.updated ev).entry 121 = eventUpdate ev .zero := by
    rw [c.entry_updated (by decide), if_pos htarget, hzero]
  have hother : ∀ i : ℕ, i ≠ 121 → i < 128 → (h.updated ev).entry i = h.entry i := by
    intro i hi hlt
    rw [c.entry_updated hlt, if_neg (by omega)]
  constructor
  · intro hcleared
    refine ⟨fun i hi hlt => ?_, ?_⟩
    · by_cases heq : i = 121
      · rw [heq, hzero]
      · rw [← hother i heq hlt]
        exact hcleared i hi hlt
    · rw [← hlast]
      exact hcleared 121 (by decide) (by decide)
  · rintro ⟨hcleared, hupdate⟩ i hi hlt
    by_cases heq : i = 121
    · rw [heq, hlast, hupdate]
    · rw [hother i heq hlt]
      exact hcleared i hi hlt

theorem cleanBeyond_act (c : Clean h) (a : Action) : CleanBeyond (h.act a) ↔ FlushesClean h a := by
  cases a with
  | flush => exact cleanBeyond_flushCache
  | call ev =>
    rw [State.act, FlushesClean]
    by_cases hon : h.cacheEnabled = 1
    · rw [call_cached_eq hon]
      by_cases hfills : h.Fills ev
      · rw [if_pos hfills, cleanBeyond_flushCache, c.clearedEntries_updated hfills]
        exact ⟨fun hboth _ _ => hboth, fun himp => himp hon hfills⟩
      · rw [if_neg hfills]
        exact ⟨fun _ _ hf => absurd hf hfills, fun _ => c.updated⟩
    · rw [call_uncached_eq hon]
      exact ⟨fun _ hon' => absurd hon' hon, fun _ => c.beyond⟩

end Clean

theorem cleanBeyond_iff (cacheEnabled : ℤ) (acts : List Action) :
    EveryState State.act (fun h => CleanBeyond h ∧
        (h.cacheLastIndex = -1 → h.cache = (zinit cacheEnabled).cache)) (zinit cacheEnabled) acts ↔
      EveryStep State.act FlushesClean (zinit cacheEnabled) acts := by
  apply everyState_iff_everyStep Clean (fun _ => True)
  · exact fun h c => ⟨c.beyond, c.beyond.cache_eq c.length⟩
  · exact fun h a c _ hcond => ⟨c.toBounded.act a, (c.cleanBeyond_act a).mpr hcond⟩
  · exact fun h a c _ hgood => (c.cleanBeyond_act a).mp hgood.1
  · exact Clean.zinit cacheEnabled
  · exact fun _ _ => trivial

theorem Clean.flushesClean (c : Clean h) (hlast : h.cacheLastIndex < 16) : FlushesClean h .flush :=
  fun i hi hlt => c.beyond i (by omega) hlt

theorem seventeenth_use_left :
    ¬ CleanBeyond (run State.act (zinit 1)
      (List.replicate 17 (.call (sampleMemory, .zuse 1 1)) ++ [.flush])) := by
  intro hclean
  have hentry := hclean 16 (by decide +kernel) (by decide)
  revert hentry
  decide +kernel

end Embedwatch.Host
