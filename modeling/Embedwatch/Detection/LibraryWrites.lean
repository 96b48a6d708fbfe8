import Embedwatch.Detection.Stores
import Embedwatch.Svf.Analysis

/-! Writes of library functions, from the inserted call to the verifier's check. -/

namespace Embedwatch.Detection

open Library.PlainText
open Host (Memory Call Event eventRecord endOfWrite)
open Pass (StoreUse LibUse Reports StringAt useParam)
open Verifier

lemma LibUse.record {l : LibUse} {addr sizeOfWrite : Word} (haddr : l.addr = some addr)
    (hsize : l.sizeOfWrite = some sizeOfWrite) {calls : List Call} (hcalls : l.calls = some calls)
    {call : Call} (hc : call ∈ calls) {mem : Memory} {r : Record}
    (hr : eventRecord (mem, call) = some r) :
    r.isUse = true ∧ r.id = useParam l.use l.recCounter ∧
      addrOf r = endOfWrite mem addr sizeOfWrite := by
  obtain ⟨cs, hcs, -, hrep⟩ := l.reports haddr hsize
  obtain rfl := Option.some.inj (hcs.symm.trans hcalls)
  obtain ⟨r', hr', hrep⟩ := hrep call hc mem
  obtain rfl := Option.some.inj (hr'.symm.trans hr)
  exact ⟨hrep.isUse, hrep.id, addrOf_eq hrep⟩

theorem strcpy_check_iff {mem : Memory} {dst : Word} {n : ℕ} (hstring : StringAt mem dst n)
    (hn : dst.toNat + n < 2 ^ 32) {l : LibUse} (hl : l.function = .strcpy)
    (hdst : l.args[0]? = some dst) {calls : List Call} (hcalls : l.calls = some calls) {call : Call}
    (hc : call ∈ calls) {r : Record} (hr : eventRecord (mem, call) = some r) {v : State}
    {t : TraceLine} (ht : (v.place r).bind v.target = some t) {base len : ℤ}
    (hbase : t.getBase (frameOf r) = some base) (hlen : t.getLen (frameOf r) = some len) :
    ∃ c, v.verifyInput (sentTrace [r]) = some (v, [some c, none]) ∧
      ((c = true ↔ (dst.toNat : ℤ) + n + 1 > base + len) ↔ (dst.toNat : ℤ) + n ≠ base + len) := by
  have haddr : l.addr = some dst := by
    rw [LibUse.addr, hl]
    exact hdst
  have hsize : l.sizeOfWrite = some 0xdeadbeef := by rw [LibUse.sizeOfWrite, hl]
  obtain ⟨huse, -, hend⟩ := LibUse.record haddr hsize hcalls hc hr
  have haddr' : ((addrOf r).toNat : ℤ) = dst.toNat + n := by
    rw [hend, endOfWrite, if_pos rfl, hstring.getEndOfObject hn, Nat.cast_add]
  have hcheck : v.verifyRecord r = some (v, some (decide ((dst.toNat : ℤ) + n - base > len))) := by
    rw [verifyRecord_use huse, ht, Option.bind_some, TraceLine.checkUse, hbase, hlen, haddr']
    rfl
  refine ⟨decide ((dst.toNat : ℤ) + n - base > len), ?_, ?_⟩
  · rw [verifyInput_sentTrace, State.verifyRecords, hcheck]
    rfl
  · rw [decide_eq_true_iff]
    omega

def tenCharacters : Memory :=
  ⟨fun a => if 100 ≤ a.toNat ∧ a.toNat < 110 then 97 else 0, 0, rfl⟩

lemma stringAt_tenCharacters : StringAt tenCharacters 100 10 := by
  constructor
  · decide
  · rfl

def copyTen : LibUse := ⟨.strcpy, [100, 200], 3, none, 0, false⟩

lemma copyTen_calls : copyTen.calls = some [.zluse 0x30000 100 0xdeadbeef] := rfl

lemma copyTen_record :
    eventRecord (tenCharacters, .zluse 0x30000 100 0xdeadbeef) = some (.useRec 0x30000 110) := by
  have hend : Host.getEndOfObject tenCharacters 100 = 110 :=
    BitVec.eq_of_toNat_eq (stringAt_tenCharacters.getEndOfObject (by decide))
  rw [eventRecord, endOfWrite, if_pos rfl, hend]

theorem strcpy_across_end : ∃ v v', traceParser storeTrace = some v ∧
    v.verifyRecord (.defRec 0x40000 98) = some (v', none) ∧
    v'.verifyInput (sentTrace [.useRec 0x30000 110]) = some (v', [some true, none]) := by
  have hfacts : ((traceParser storeTrace).bind fun v =>
      (v.verifyRecord (.defRec 0x40000 98)).bind fun out =>
        ((out.1.place (.useRec 0x30000 110)).bind out.1.target).map fun t =>
          (out.2, t.getBase 0, t.getLen 0)) = some (none, some 98, some 10) := by decide +kernel
  obtain ⟨v, hv, hfacts⟩ := Option.bind_eq_some_iff.mp hfacts
  obtain ⟨⟨v', c⟩, hdef, hfacts⟩ := Option.bind_eq_some_iff.mp hfacts
  obtain ⟨t, ht, heq⟩ := Option.map_eq_some_iff.mp hfacts
  obtain ⟨hnone, hobject⟩ := Prod.mk.inj heq
  obtain rfl : c = none := hnone
  obtain ⟨hbase, hlen⟩ := Prod.mk.inj hobject
  obtain ⟨c, hrun, hc⟩ := strcpy_check_iff stringAt_tenCharacters (by decide) rfl rfl copyTen_calls
    List.mem_cons_self copyTen_record ht hbase hlen
  have htrue : c = true := (hc.mpr (by decide)).mpr (by decide)
  rw [htrue] at hrun
  exact ⟨v, v', hv, hdef, hrun⟩

theorem strcpy_terminator_not_reported : StringAt tenCharacters 100 10 ∧
    copyTen.calls = some [.zluse 0x30000 100 0xdeadbeef] ∧
    ∃ r v v', eventRecord (tenCharacters, .zluse 0x30000 100 0xdeadbeef) = some r ∧
      traceParser storeTrace = some v ∧
      v.verifyInput (sentTrace [.defRec 0x40000 100, r]) = some (v', [none, some false, none]) ∧
      (100 : ℤ) + 10 + 1 > 100 + 10 := by
  have hrun : ((traceParser storeTrace).bind fun v =>
      (v.verifyInput (sentTrace [.defRec 0x40000 100, .useRec 0x30000 110])).map Prod.snd) =
        some [none, some false, none] := by decide +kernel
  obtain ⟨v, hv, hrun⟩ := Option.bind_eq_some_iff.mp hrun
  obtain ⟨⟨v', cs⟩, hrun, rfl⟩ := Option.map_eq_some_iff.mp hrun
  exact ⟨stringAt_tenCharacters, copyTen_calls, .useRec 0x30000 110, v, v', copyTen_record, hv, hrun,
    by decide⟩

def EndsAt (l : LibUse) (e : Word) : Prop :=
  ∃ calls, l.calls = some calls ∧ calls ≠ [] ∧ ∀ call ∈ calls, ∀ mem : Memory,
    ∃ r, eventRecord (mem, call) = some r ∧ r.isUse = true ∧ r.id = useParam l.use l.recCounter ∧
      addrOf r = e

lemma EndsAt.unique {l : LibUse} {e e' : Word} (h : EndsAt l e) (h' : EndsAt l e') : e = e' := by
  obtain ⟨calls, hcalls, hne, hall⟩ := h
  obtain ⟨calls', hcalls', -, hall'⟩ := h'
  obtain rfl := Option.some.inj (hcalls.symm.trans hcalls')
  obtain ⟨call, hc⟩ := List.exists_mem_of_ne_nil calls hne
  obtain ⟨r, hr, -, -, rfl⟩ := hall call hc tenCharacters
  obtain ⟨r', hr', -, -, rfl⟩ := hall' call hc tenCharacters
  rw [Option.some.inj (hr.symm.trans hr')]

lemma endsAt_memcpy {l : LibUse} {dst src n : Word} (hl : l.function = .memcpy)
    (hargs : l.args = [dst, src, n]) (hn : n ≠ 0xdeadbeef) : EndsAt l (src + n) := by
  have haddr : l.addr = some src := by
    rw [LibUse.addr, hl, hargs]
    rfl
  have hsize : l.sizeOfWrite = some n := by
    rw [LibUse.sizeOfWrite, hl, hargs]
    rfl
  obtain ⟨calls, hcalls, hne, hall⟩ := l.reports haddr hsize
  refine ⟨calls, hcalls, hne, ?_⟩
  intro call hc mem
  obtain ⟨r, hr, hrep⟩ := hall call hc mem
  refine ⟨r, hr, hrep.isUse, hrep.id, ?_⟩
  rw [addrOf_eq hrep, endOfWrite, if_neg hn]

/-- The analysis registers the object of the destination of `memcpy`. The end of the destination is
reported if and only if it is the source too, and calls with different sources have different ends. -/
theorem memcpy_end_iff {l : LibUse} {dst src n : Word} (hl : l.function = .memcpy)
    (hargs : l.args = [dst, src, n]) (hn : n ≠ 0xdeadbeef) :
    (∀ (svf : Svf.Graphs) (s s' : Svf.State) (c : Svf.CallSite) (p : Svf.PAGNode)
      (ps : List Svf.PAGNode), c.params = p :: ps → svf.lib s l.function c = some s' →
        ∃ ds s₁, svf.targets { s with nextId := s.nextId + 2 } c.call (svf.getDefNodes p) =
            some (ds, s₁) ∧
          s'.trace = s₁.trace ++ [.input ⟨s.nextId, c.text, c.call,
            [.use ⟨.luse, s.nextId + 1, c.text, c.fun_, c.call, ds⟩]⟩]) ∧
    (EndsAt l (dst + n) ↔ src = dst) ∧
    ∀ src' e, EndsAt l e → (EndsAt { l with args := [dst, src', n] } e ↔ src' = src) := by
  have hend := endsAt_memcpy hl hargs hn
  refine ⟨?_, ?_, ?_⟩
  · intro svf s s' c p ps hparams hlib
    obtain ⟨param, ds, s₁, hparam, hds, htrace⟩ := svf.lib_use hlib
    rw [hl, hparams] at hparam
    obtain rfl : p = param := Option.some.inj hparam
    exact ⟨ds, s₁, hds, htrace⟩
  · constructor
    · intro h
      exact (BitVec.add_left_inj n).mp (hend.unique h)
    · rintro rfl
      exact hend
  · intro src' e he
    have hend' : EndsAt { l with args := [dst, src', n] } (src' + n) := endsAt_memcpy hl rfl hn
    rw [he.unique hend]
    constructor
    · intro h
      exact (BitVec.add_left_inj n).mp (hend'.unique h)
    · rintro rfl
      exact hend'

theorem memcpy_end_of_self : EndsAt ⟨.memcpy, [100, 100, 8], 3, none, 0, true⟩ (100 + 8) :=
  have hn : (8 : Word) ≠ 0xdeadbeef := by decide
  (memcpy_end_iff rfl rfl hn).2.1.mpr rfl

theorem memcpy_end_of_source : EndsAt ⟨.memcpy, [100, 200, 8], 3, none, 0, true⟩ 208 ∧
    ¬ EndsAt ⟨.memcpy, [100, 200, 8], 3, none, 0, true⟩ (100 + 8) := by
  have h : EndsAt ⟨.memcpy, [100, 200, 8], 3, none, 0, true⟩ (200 + 8) :=
    endsAt_memcpy rfl rfl (by decide)
  exact ⟨h, fun h' => absurd (h.unique h') (by decide)⟩

end Embedwatch.Detection
