import Embedwatch.Host.Calls

/-! The cache between two flushes: the `live` entries collected since the last one, and after them
the `rest`, where a flush may have left entries that it has already sent. -/

namespace Embedwatch.Host

open Ta (Blank decodeEntries blank_zero decodeEntries_blank)

structure Window (h : State) (live rest : List UseT) : Prop where
  enabled : h.cacheEnabled = 1
  cache : h.cache = live ++ rest
  last : h.cacheLastIndex = live.length - 1
  short : live.length ≤ 121
  length : (live ++ rest).length = 128
  tail : (live ++ rest).drop 122 = List.replicate 6 .zero

def State.lookup (h : State) (r : Record) : Option ℕ := (h.cache.take h.used).findIdx? (hits r)

lemma modify_append_cons (as : List UseT) (e : UseT) (bs : List UseT) (f : UseT → UseT) :
    (as ++ e :: bs).modify as.length f = as ++ f e :: bs := by
  induction as with
  | nil => rfl
  | cons a as ih => simpa using ih

namespace Window

variable {h : State} {live rest : List UseT} {r : Record} {e : UseT}

lemma used (w : Window h live rest) : h.used = live.length := by
  rw [State.used, w.last]
  omega

lemma take_used (w : Window h live rest) : h.cache.take h.used = live := by
  rw [w.used, w.cache, List.take_left]

lemma lookup_eq_none (w : Window h live rest) (hn : ∀ a ∈ live, hits r a = false) :
    h.lookup r = none := by
  rw [State.lookup, w.take_used, List.findIdx?_eq_none_iff]
  exact hn

lemma lookup_eq_some {as bs : List UseT} (w : Window h (as ++ e :: bs) rest) (he : hits r e = true)
    (has : ∀ a ∈ as, hits r a = false) : h.lookup r = some as.length := by
  rw [State.lookup, w.take_used, List.findIdx?_append, List.findIdx?_eq_none_iff.mpr has]
  simp [List.findIdx?_cons, he]

lemma getD_length {as bs : List UseT} (w : Window h (as ++ e :: bs) rest) :
    h.cache.getD as.length .zero = e := by simp [w.cache]

lemma getD_used (w : Window h live (e :: rest)) : h.cache.getD h.used .zero = e := by
  simp [w.used, w.cache]

lemma drop_used (w : Window h live (e :: rest)) : h.cache.drop (h.used + 1) = rest := by
  simp [w.used, w.cache]

lemma modify_live {as bs : List UseT} (w : Window h (as ++ e :: bs) rest) (f : UseT → UseT) :
    h.cache.modify as.length f = as ++ f e :: bs ++ rest := by
  have hc : h.cache = as ++ e :: (bs ++ rest) := by simp [w.cache]
  rw [hc, modify_append_cons, List.append_assoc, List.cons_append]

lemma modify_rest (w : Window h live (e :: rest)) (f : UseT → UseT) :
    h.cache.modify h.used f = live ++ f e :: rest := by
  rw [w.used, w.cache, modify_append_cons]

lemma merge {as bs : List UseT} (w : Window h (as ++ e :: bs) rest) (he : hits r e = true)
    (has : ∀ a ∈ as, hits r a = false) :
    Window (h.insert r) (as ++ putCache r e :: bs) rest ∧ (h.insert r).ta = h.ta := by
  have hl := w.lookup_eq_some he has
  rw [State.lookup] at hl
  simp only [State.insert, hl]
  refine ⟨⟨w.enabled, w.modify_live _, ?_, ?_, ?_, ?_⟩, trivial⟩
  · simpa using w.last
  · simpa using w.short
  · simpa using w.length
  · have hs : as.length < 122 := by have := w.short; simp at this; omega
    have ht := w.tail
    rw [List.append_assoc, List.cons_append, List.drop_append, List.drop_of_length_le hs.le,
      List.nil_append, show 122 - as.length = (121 - as.length) + 1 by omega, List.drop_succ_cons]
      at ht ⊢
    exact ht

lemma exists_rest (w : Window h live rest) : ∃ e rest', rest = e :: rest' := by
  cases rest with
  | nil =>
    have hs := w.short
    have hl := w.length
    simp at hl
    omega
  | cons e rest' => exact ⟨e, rest', rfl⟩

lemma drop_put (w : Window h live (e :: rest)) (e' : UseT) :
    (live ++ e' :: rest).drop 122 = List.replicate 6 .zero := by
  have hs := w.short
  have ht := w.tail
  rw [List.drop_append, List.drop_of_length_le (by omega), List.nil_append,
    show 122 - live.length = (121 - live.length) + 1 by omega, List.drop_succ_cons] at ht ⊢
  exact ht

lemma append (w : Window h live (e :: rest)) (hn : ∀ a ∈ live, hits r a = false)
    (hk : live.length < 121) :
    Window (h.insert r) (live ++ [putCache r e]) rest ∧ (h.insert r).ta = h.ta := by
  have hl := w.lookup_eq_none hn
  have hlast : ¬ h.cacheLastIndex + 1 > 120 := by rw [w.last]; omega
  rw [State.lookup] at hl
  simp only [State.insert, hl, if_neg hlast]
  refine ⟨⟨w.enabled, ?_, ?_, ?_, ?_, ?_⟩, trivial⟩
  · simpa using w.modify_rest (putCache r)
  · simp [w.last]
  · simpa using hk
  · simpa [Nat.add_assoc, Nat.add_comm 1] using w.length
  · simpa using w.drop_put (putCache r e)

lemma clearedCache_drop {es : List UseT} (hl : es.length = 128) :
    (clearedCache es).length = 128 ∧ (clearedCache es).drop 122 = es.drop 122 := by
  constructor
  · simp [clearedCache, hl]
  · rw [clearedCache, List.drop_append, List.drop_of_length_le (by simp), List.nil_append,
      List.drop_drop]
    simp

lemma cleared {es : List UseT} (hon : h.cacheEnabled = 1) (hc : h.cache = clearedCache es)
    (hlast : h.cacheLastIndex = -1) (hl : es.length = 128)
    (ht : es.drop 122 = List.replicate 6 .zero) : Window h [] (clearedCache es) := by
  obtain ⟨hlen, hdrop⟩ := clearedCache_drop hl
  exact ⟨hon, hc, by simp [hlast], by simp, hlen, by rw [List.nil_append, hdrop, ht]⟩

lemma flush (w : Window h live (e :: rest)) (hn : ∀ a ∈ live, hits r a = false)
    (hk : live.length = 121) :
    rest = List.replicate 6 .zero ∧
      Window (h.insert r) [] (clearedCache (live ++ putCache r e :: rest)) ∧
      (h.insert r).ta.history = h.ta.history ++ decodeEntries (live ++ [putCache r e]) := by
  have hrest : rest = List.replicate 6 .zero := by
    have ht := w.tail
    rw [List.drop_append, List.drop_of_length_le (by omega), hk] at ht
    simpa using ht
  have hl := w.lookup_eq_none hn
  have hlast : h.cacheLastIndex + 1 > 120 := by rw [w.last]; omega
  have hlen : (live ++ putCache r e :: rest).length = 128 := by simpa using w.length
  have hblank : ∃ e' ∈ live ++ putCache r e :: rest, Blank e' :=
    ⟨.zero, by simp [hrest], blank_zero⟩
  rw [State.lookup] at hl
  have hf := flushCache_cached (h := { h with
      cache := live ++ putCache r e :: rest
      cacheLastIndex := h.cacheLastIndex + 1 }) w.enabled hlen hblank
  simp only [State.insert, hl, if_pos hlast, w.modify_rest (putCache r), hf]
  refine ⟨hrest, cleared w.enabled rfl rfl hlen (w.drop_put _), ?_⟩
  have hd : decodeEntries (live ++ putCache r e :: rest) = decodeEntries (live ++ [putCache r e]) := by
    rw [hrest, List.replicate_succ]
    have hh := decodeEntries_blank (live ++ [putCache r e]) blank_zero (List.replicate 5 .zero)
    simpa using hh
  rw [flushed_history, hd]

end Window

inductive Inserts (h : State) (live rest : List UseT) (r : Record) : Prop
  | merge (as : List UseT) (e : UseT) (bs : List UseT) (live_eq : live = as ++ e :: bs)
      (hit : hits r e = true) (first : ∀ a ∈ as, hits r a = false)
      (window : Window (h.insert r) (as ++ putCache r e :: bs) rest) (ta : (h.insert r).ta = h.ta)
  | append (e : UseT) (rest' : List UseT) (rest_eq : rest = e :: rest')
      (fresh : ∀ a ∈ live, hits r a = false)
      (window : Window (h.insert r) (live ++ [putCache r e]) rest') (ta : (h.insert r).ta = h.ta)
  | flush (e : UseT) (rest_eq : rest = e :: List.replicate 6 .zero)
      (fresh : ∀ a ∈ live, hits r a = false)
      (window : Window (h.insert r) []
        (clearedCache (live ++ putCache r e :: List.replicate 6 .zero)))
      (history : (h.insert r).ta.history = h.ta.history ++ decodeEntries (live ++ [putCache r e]))

theorem Window.inserts {h : State} {live rest : List UseT} (w : Window h live rest) (r : Record) :
    Inserts h live rest r := by
  by_cases hn : ∀ a ∈ live, hits r a = false
  · obtain ⟨e, rest', rfl⟩ := w.exists_rest
    rcases Nat.lt_or_eq_of_le w.short with hk | hk
    · obtain ⟨hw, hta⟩ := w.append hn hk
      exact .append e rest' rfl hn hw hta
    · obtain ⟨rfl, hw, hh⟩ := w.flush hn hk
      exact .flush e rfl hn hw hh
  · have hfind : (live.find? (hits r)).isSome := by simpa using hn
    obtain ⟨e, he⟩ := Option.isSome_iff_exists.mp hfind
    obtain ⟨hit, as, bs, rfl, has⟩ := List.find?_eq_some_iff_append.mp he
    have first : ∀ a ∈ as, hits r a = false := by simpa using has
    obtain ⟨hw, hta⟩ := w.merge hit first
    exact .merge as e bs rfl hit first hw hta

lemma window_zinit : Window (zinit 1) [] (List.replicate 128 .zero) :=
  ⟨rfl, rfl, rfl, by simp, by simp, by simp⟩

lemma Window.zexit_history {h : State} {live rest : List UseT} (w : Window h live rest) :
    h.zexit.ta.history = h.ta.history ++ decodeEntries (live ++ rest) := by
  have hlen : h.cache.length = 128 := by rw [w.cache, w.length]
  have hblank : ∃ e ∈ h.cache, Blank e := by
    refine ⟨.zero, List.mem_of_mem_drop (i := 122) ?_, blank_zero⟩
    rw [w.cache, w.tail]
    simp
  rw [Host.zexit_history, flushCache_cached w.enabled hlen hblank, flushed_history, w.cache]

structure Unbuffered (h : State) : Prop where
  disabled : h.cacheEnabled ≠ 1
  last : h.cacheLastIndex = -1

lemma unbuffered_zinit : Unbuffered (zinit 0) := ⟨by simp [zinit], rfl⟩

lemma Unbuffered.call {h : State} (u : Unbuffered h) {ev : Event} {r : Record}
    (hr : eventRecord ev = some r) :
    Unbuffered (h.call ev) ∧ (h.call ev).ta.history = h.ta.history ++ [r] := by
  rw [call_uncached u.disabled hr]
  exact ⟨⟨u.disabled, u.last⟩, Ta.store_history _ _⟩

lemma Unbuffered.zexit_history {h : State} (u : Unbuffered h) :
    h.zexit.ta.history = h.ta.history := by
  rw [Host.zexit_history, flushCache_uncached u.disabled u.last]

end Embedwatch.Host
