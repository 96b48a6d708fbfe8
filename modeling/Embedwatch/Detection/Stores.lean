import Embedwatch.Pass.Instrument
import Embedwatch.Verifier.StaticObjects

/-! Stores, from the inserted call to the verifier's check. -/

namespace Embedwatch.Detection

open Library.PlainText
open Host (Memory Call Event eventRecord recordLine slotLines Printable)
open Pass (StoreUse Reports)
open Verifier

lemma recordLine_mem_slotLines {r : Record} (hp : Printable r) (e : UseT) :
    recordLine r ∈ slotLines (Ta.put r e) := by
  cases r with
  | defRec id addr =>
    have hid : id ≠ 0 := hp
    apply List.mem_append_left
    apply List.mem_append_left
    apply List.mem_append_left
    exact List.mem_of_mem_head? (by simp only [Ta.put, hid, ne_eq, not_false_iff, and_self, if_true,
      List.head?_cons, Option.mem_def])
  | ddefRec id addr size =>
    obtain ⟨hid, hsize⟩ : id ≠ 0 ∧ size ≠ -1 := hp
    apply List.mem_append_left
    apply List.mem_append_left
    apply List.mem_append_right
    exact List.mem_of_mem_head? (by simp only [Ta.put, hid, hsize, ne_eq, not_false_iff, and_self,
      if_true, List.head?_cons, Option.mem_def])
  | useRec id addr =>
    have hid : id ≠ 0 := hp
    apply List.mem_append_left
    apply List.mem_append_right
    exact List.mem_of_mem_head? (by simp only [Ta.put, hid, ne_eq, not_false_iff, if_true,
      List.head?_cons, Option.mem_def])
  | iuseRec use defn addr =>
    have hid : defn ≠ 0 := hp
    apply List.mem_append_right
    exact List.mem_of_mem_head? (by simp only [Ta.put, hid, ne_eq, not_false_iff, if_true,
      List.head?_cons, Option.mem_def])

theorem recordLine_mem_call {h : Host.State} (hoff : h.cacheEnabled ≠ 1) {ev : Event} {r : Record}
    (hr : eventRecord ev = some r) (hp : Printable r) :
    recordLine r ∈ slotLines ((h.call ev).ta.dynamicTrace h.ta.slot) := by
  have hslot : (h.call ev).ta.dynamicTrace h.ta.slot =
      Ta.put r (h.ta.dynamicTrace h.ta.slot) := by
    rw [Host.call_uncached hoff hr]
    exact Function.update_self ..
  rw [hslot]
  exact recordLine_mem_slotLines hp _

lemma verifyInput_concat {v v' : State} {rs : List Record} {cs : List (Option Bool)} {r : Record}
    {c : Option Bool} (h : v.verifyInput (sentTrace rs) = some (v', cs ++ [none]))
    (hr : v'.verifyRecord r = some (v', c)) :
    v.verifyInput (sentTrace (rs ++ [r])) = some (v', cs ++ [c, none]) := by
  rw [verifyInput_sentTrace, Option.map_eq_some_iff] at h
  obtain ⟨⟨v₁, cs₁⟩, hrs, heq⟩ := h
  obtain ⟨rfl, hcs⟩ := Prod.mk.inj heq
  obtain rfl := List.append_cancel_right hcs
  rw [verifyInput_sentTrace, verifyRecords_append, hrs]
  simp only [Option.bind_some, State.verifyRecords, hr, Option.bind_eq_bind, Option.map_some,
    List.append_assoc, List.singleton_append]

lemma verifyRecords_of_verifyInput {v v' : State} {rs : List Record} {cs : List (Option Bool)}
    (h : v.verifyInput (sentTrace rs) = some (v', cs)) :
    ∃ cs', v.verifyRecords rs = some (v', cs') := by
  rw [verifyInput_sentTrace, Option.map_eq_some_iff] at h
  obtain ⟨⟨v₁, cs₁⟩, hrs, heq⟩ := h
  obtain ⟨rfl, -⟩ := Prod.mk.inj heq
  exact ⟨cs₁, hrs⟩

lemma addrOf_eq {use endAddr : Word} {defRef : Option Word} {r : Record}
    (h : Reports use defRef endAddr r) : addrOf r = endAddr := by
  rcases h with ⟨-, rfl⟩ | rfl <;> rfl

theorem store_check_iff {ztrace : Text} {v v' : State} (hparse : traceParser ztrace = some v)
    {s : StoreUse} {call : Call} (hc : call ∈ s.calls) {mem : Memory} {r : Record}
    (hr : eventRecord (mem, call) = some r) {place : ℕ} {pre rs : List Record} {defn base : Word}
    (hattr : Attributed v place pre defn rs r) (hsize : 1 ≤ s.storeSize)
    (hend : s.ptr.toNat + s.storeSize < 2 ^ 32) {cs : List (Option Bool)}
    (h : v.verifyInput (sentTrace (pre ++ .defRec defn base :: rs)) = some (v', cs ++ [none])) :
    (∀ host : Host.State, (host.cacheEnabled = 1 → host.call (mem, call) = host.insert r) ∧
      (host.cacheEnabled ≠ 1 → Printable r →
        recordLine r ∈ slotLines ((host.call (mem, call)).ta.dynamicTrace host.ta.slot))) ∧
    ∃ t len c, v.nodes[place]? = some t ∧ t.length 0 = some len ∧
      v.verifyInput (sentTrace ((pre ++ .defRec defn base :: rs) ++ [r])) =
        some (v', cs ++ [some c, none]) ∧
      (c = true ↔ ∃ x, s.ptr.toNat ≤ x ∧ x < s.ptr.toNat + s.storeSize ∧
        (base.toNat : ℤ) + len ≤ x) := by
  refine ⟨fun host => ⟨fun hon => Host.call_cached hon hr,
    fun hoff hp => recordLine_mem_call hoff hr hp⟩, ?_⟩
  obtain ⟨r', hr', hrep⟩ := s.reports hc mem
  obtain rfl : r' = r := Option.some.inj (hr'.symm.trans hr)
  have haddr : ((addrOf r').toNat : ℤ) = s.ptr.toNat + s.storeSize := by
    rw [addrOf_eq hrep, StoreUse.endAddr, BitVec.toNat_add, BitVec.toNat_ofNat,
      Nat.mod_eq_of_lt (a := s.storeSize) (by omega), Nat.mod_eq_of_lt hend, Nat.cast_add]
  obtain ⟨cs', hrun⟩ := verifyRecords_of_verifyInput h
  obtain ⟨t, len, ht, hlen, hcheck⟩ := hattr.check (traceParser_parsed hparse) hrun
  refine ⟨t, len, _, ht, hlen, verifyInput_concat h hcheck, ?_⟩
  rw [haddr, decide_eq_true_iff]
  constructor
  · intro hgt
    refine ⟨s.ptr.toNat + s.storeSize - 1, ?_, ?_, ?_⟩ <;> omega
  · rintro ⟨x, -, hx, hle⟩
    omega

def storeTrace : Text :=
  ['2', ';', 'I', 'N', ';', '-', '1', ';', 'x', '\n'] ++
  ['\t', '3', ';', 'S', 'U', 'S', 'E', ';', '2', ';', 'f', ';', 'y', '\n'] ++
  ['\t', '\t', '4', ';', 'A', 'D', 'E', 'F', ';', '3', ';', 'B', 'A', 'S', 'E', ';', '1', '0', ';',
    'z', '\n']

lemma storeTrace_attributed : ∃ v, traceParser storeTrace = some v ∧
    ∀ a, Attributed v 2 [] 0x40000 [] (.useRec 0x30000 a) := by
  have hparse : ((traceParser storeTrace).map fun v =>
      ((v.nodes[2]?).map fun t => (t.type, t.id), v.usePlace 3)) =
        some (some (adefType, 4), some 2) := by decide +kernel
  obtain ⟨v, hv, heq⟩ := Option.map_eq_some_iff.mp hparse
  obtain ⟨hnode, hplace⟩ := Prod.mk.inj heq
  obtain ⟨t, ht, htype⟩ := Option.map_eq_some_iff.mp hnode
  obtain ⟨htype, hid⟩ := Prod.mk.inj htype
  refine ⟨v, hv, fun a => ⟨⟨t, ht, Or.inl htype, hid⟩, rfl, hplace, ?_, ?_, ?_⟩⟩
  · intro r hr
    cases hr
  · intro r hr
    cases hr
  · exact Or.inl rfl

lemma storeTrace_def : ∃ v v', traceParser storeTrace = some v ∧
    v.verifyInput (sentTrace ([] ++ .defRec 0x40000 100 :: [])) = some (v', [none] ++ [none]) := by
  have hrun : ((traceParser storeTrace).bind fun v =>
      (v.verifyInput (sentTrace [.defRec 0x40000 100])).map Prod.snd) = some [none, none] := by
    decide +kernel
  obtain ⟨v, hv, hrun⟩ := Option.bind_eq_some_iff.mp hrun
  obtain ⟨⟨v', cs⟩, hrun, rfl⟩ := Option.map_eq_some_iff.mp hrun
  exact ⟨v, v', hv, hrun⟩

theorem store_across_end : ∃ v v', traceParser storeTrace = some v ∧
    v.verifyInput (sentTrace [.defRec 0x40000 100, .useRec 0x30000 111]) =
      some (v', [none, some true, none]) := by
  obtain ⟨v, v', hv, h⟩ := storeTrace_def
  obtain ⟨v₀, hv₀, hattr⟩ := storeTrace_attributed
  obtain rfl := Option.some.inj (hv₀.symm.trans hv)
  have hr : eventRecord (⟨fun _ => 0, 0, rfl⟩, StoreUse.plainCall ⟨3, 105, 6, none, 0, false⟩) =
      some (.useRec 0x30000 111) := rfl
  obtain ⟨-, t, len, c, ht, hlen, hrun, hc⟩ := store_check_iff hv₀ List.mem_cons_self hr
    (hattr 111) (by decide) (by decide) h
  have hlen' : len = 10 := by
    have h10 : ((traceParser storeTrace).bind fun v => v.nodes[2]?.bind fun t => t.length 0) =
        some 10 := by decide +kernel
    rw [hv₀, Option.bind_some, ht, Option.bind_some, hlen] at h10
    exact Option.some.inj h10
  have htrue : c = true := hc.mpr ⟨110, by decide, by decide, by rw [hlen']; decide⟩
  rw [htrue] at hrun
  exact ⟨v₀, v', hv₀, hrun⟩

theorem stores_outside_not_reported : ∃ v, traceParser storeTrace = some v ∧
    ∀ s ∈ [(⟨3, 90, 1, none, 0, false⟩ : StoreUse), ⟨3, 0xffffffff, 1, none, 0, false⟩],
      s.ptr.toNat + s.storeSize ≤ 2 ^ 32 ∧ (s.ptr.toNat < 100 ∨ 100 + 10 ≤ s.ptr.toNat) ∧
      ∀ mem, ∃ r v', eventRecord (mem, s.plainCall) = some r ∧
        Attributed v 2 [] 0x40000 [] r ∧
        v.verifyInput (sentTrace [.defRec 0x40000 100, r]) =
          some (v', [none, some false, none]) := by
  have hrun : ((traceParser storeTrace).map fun v =>
      ((v.verifyInput (sentTrace [.defRec 0x40000 100, .useRec 0x30000 91])).map Prod.snd,
        (v.verifyInput (sentTrace [.defRec 0x40000 100, .useRec 0x30000 0])).map Prod.snd)) =
        some (some [none, some false, none], some [none, some false, none]) := by decide +kernel
  obtain ⟨v, hv, heq⟩ := Option.map_eq_some_iff.mp hrun
  obtain ⟨hlow, hhigh⟩ := Prod.mk.inj heq
  obtain ⟨⟨v₁, cs₁⟩, hlow, rfl⟩ := Option.map_eq_some_iff.mp hlow
  obtain ⟨⟨v₂, cs₂⟩, hhigh, rfl⟩ := Option.map_eq_some_iff.mp hhigh
  obtain ⟨v₀, hv₀, hattr⟩ := storeTrace_attributed
  obtain rfl := Option.some.inj (hv₀.symm.trans hv)
  refine ⟨v₀, hv₀, ?_⟩
  intro s hs
  simp only [List.mem_cons, List.not_mem_nil, or_false] at hs
  rcases hs with rfl | rfl
  · exact ⟨by decide, by decide, fun mem => ⟨.useRec 0x30000 91, v₁, rfl, hattr 91, hlow⟩⟩
  · exact ⟨by decide, by decide, fun mem => ⟨.useRec 0x30000 0, v₂, rfl, hattr 0, hhigh⟩⟩

end Embedwatch.Detection
