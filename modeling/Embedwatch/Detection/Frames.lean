import Embedwatch.Pass.Activations
import Embedwatch.Verifier.CheckedUses

/-! Uses and the activations they mean. A packed id carries the depth of the activation that computed
it; while this one is live, the verifier finds under that depth what the activation itself has
reported last. -/

namespace Embedwatch.Detection

open Library.Runs Library.PlainText Pass Pass.Machine Verifier Verifier.State

lemma getIdVar_useParam (use recCounter : BitVec 16) :
    getIdVar (useParam use recCounter).toNat = ((use.toNat : ℤ), (recCounter.toNat : ℤ)) := by
  have hc := recCounter.isLt
  rw [useParam_eq_append, BitVec.toNat_append, ← Nat.shiftLeft_add_eq_or_of_lt hc,
    Nat.shiftLeft_eq, getIdVar, Int.shiftRight_eq_div_pow]
  apply Prod.ext
  · dsimp only
    push_cast
    omega
  · dsimp only
    push_cast
    omega

lemma getIdVar_useParam_toInt (use recCounter : BitVec 16) :
    getIdVar (useParam use recCounter).toInt = (use.toInt, (recCounter.toNat : ℤ)) := by
  have hc := recCounter.isLt
  have hu := use.isLt
  rw [BitVec.toInt_eq_toNat_cond, BitVec.toInt_eq_toNat_cond, useParam_eq_append,
    BitVec.toNat_append, ← Nat.shiftLeft_add_eq_or_of_lt hc, Nat.shiftLeft_eq, getIdVar,
    Int.shiftRight_eq_div_pow]
  apply Prod.ext
  · dsimp only
    split <;> split <;> push_cast <;> omega
  · dsimp only
    split <;> push_cast <;> omega

lemma getIdVar_shiftLeft (id : BitVec 16) :
    getIdVar (id.setWidth 32 <<< 16 : Word).toNat = ((id.toNat : ℤ), 0) := by
  have h := getIdVar_useParam id 0
  have hzero : useParam id 0 = id.setWidth 32 <<< 16 := by simp [useParam]
  rw [hzero] at h
  exact h

def sameLow (k : ℕ) (site : ℕ) : Bool := site % 65536 == k % 65536

lemma sameLow_iff {k site : ℕ} : sameLow k site = true ↔ site % 65536 = k % 65536 := beq_iff_eq

def entries (s : Machine) : List Entry := s.log.map fun e => entryOf e.record

structure Addressed (s : Machine) : Prop where
  tracked : s.Tracked
  address : ∀ a d, s.Live a d → ∀ k base, s.latest (sameLow k) a = some base →
    lastOf (Entry.address (k % 65536 : ℕ) d) (entries s) = some (base.toNat : ℤ)

section Emitted

variable {s : Machine} {activation : Option ℕ} {a d site : ℕ} {r : Record}

def OwnAddress (s : Machine) (activation : Option ℕ) (site : ℕ) (r : Record) : Prop :=
  ∀ a d, s.Live a d → ∀ k, Entry.address (k % 65536 : ℕ) d (entryOf r) =
    (Emission.gives (sameLow k) a ⟨activation, site, r⟩).map fun w => (w.toNat : ℤ)

lemma Addressed.emit (h : Addressed s) (htracked : (s.emit activation site r).Tracked)
    (hr : OwnAddress s activation site r) : Addressed (s.emit activation site r) := by
  refine ⟨htracked, ?_⟩
  intro a d hlive k base hbase
  have hlive : s.Live a d := hlive
  have hentries : entries (s.emit activation site r) = entries s ++ [entryOf r] := by
    rw [entries, Machine.emit, List.map_append]
    rfl
  have hone : lastOf (Entry.address (k % 65536 : ℕ) d) [entryOf r] =
      Entry.address (k % 65536 : ℕ) d (entryOf r) := by
    rw [lastOf_cons]
    rfl
  rw [hentries, lastOf_append, hone, hr a d hlive k]
  rw [latest_emit] at hbase
  cases hgives : Emission.gives (sameLow k) a ⟨activation, site, r⟩ with
  | some w =>
    rw [hgives] at hbase
    cases hbase
    rfl
  | none =>
    rw [hgives, Option.none_or] at hbase
    rw [Option.map_none, Option.none_or]
    exact h.address a d hlive k base hbase

lemma own_iff (h : s.Tracked) (hlive : s.Live a d) (defn k : ℕ) :
    getIdVar (s.pack defn).toNat = (((k % 65536 : ℕ) : ℤ), (d : ℤ)) ↔
      s.stack.head? = some a ∧ sameLow k defn = true := by
  rw [pack, getIdVar_useParam, Prod.mk.injEq, Nat.cast_inj, Nat.cast_inj, BitVec.toNat_ofNat,
    h.head_iff hlive, sameLow_iff, and_comm, eq_comm]

lemma ownAddress_collectAlloca (h : s.Tracked) (defn : ℕ) (addr : Word) :
    OwnAddress s s.stack.head? defn (.defRec (s.pack defn) addr) := by
  intro a d hlive k
  simp only [entryOf, Entry.address, Emission.gives, own_iff h hlive]
  split <;> rfl

lemma ownAddress_collectAllocaDyn (h : s.Tracked) (defn : ℕ) (addr size : Word) :
    OwnAddress s s.stack.head? defn (.ddefRec (s.pack defn) addr size) := by
  intro a d hlive k
  have hd : (d : ℤ) ≠ 0 := by
    have := hlive.le
    omega
  have hown := own_iff h hlive defn k
  rw [Prod.ext_iff] at hown
  simp only [entryOf, Entry.address, Emission.gives, hd, or_false, hown]
  split <;> rfl

lemma ownAddress_collectGlobal (defn : ℕ) (addr : Word) :
    OwnAddress s none defn (.defRec ((BitVec.ofNat 16 defn).setWidth 32 <<< 16) addr) := by
  intro a d hlive k
  have hd : (d : ℤ) ≠ 0 := by
    have := hlive.le
    omega
  have hne : getIdVar ((BitVec.ofNat 16 defn).setWidth 32 <<< 16 : Word).toNat ≠
      (((k % 65536 : ℕ) : ℤ), (d : ℤ)) := by
    rw [getIdVar_shiftLeft]
    exact fun h => hd (congrArg Prod.snd h).symm
  rw [entryOf, Entry.address, if_neg hne]
  rfl

lemma ownAddress_use (h : r.isUse = true) : OwnAddress s activation site r := by
  intro a d hlive k
  cases r with
  | defRec | ddefRec => cases h
  | useRec | iuseRec =>
    rw [Emission.gives]
    split <;> rfl

theorem Addressed.step (h : Addressed s) {act : Action} (hn : s.Nested act) :
    Addressed (s.step act) := by
  have htracked := h.tracked.step hn
  cases act with
  | collectAlloca defn addr => exact h.emit htracked (ownAddress_collectAlloca h.tracked defn addr)
  | collectAllocaDyn defn addr size =>
    exact h.emit htracked (ownAddress_collectAllocaDyn h.tracked defn addr size)
  | collectGlobal defn addr => exact h.emit htracked (ownAddress_collectGlobal defn addr)
  | zuse | ziuse => exact h.emit htracked (ownAddress_use rfl)
  | propagate defn => exact ⟨htracked, h.address⟩
  | leave =>
    refine ⟨htracked, fun a d hlive k base hbase => ?_⟩
    rcases live_of_step hn hlive with hl | ⟨hact, -⟩
    · exact h.address a d hl k base hbase
    · cases hact
  | enter =>
    refine ⟨htracked, fun a d hlive k base hbase => ?_⟩
    rcases live_of_step hn hlive with hl | ⟨-, rfl, -⟩
    · exact h.address a d hl k base hbase
    · -- what dead activations have left under the depth is not the new one's
      have hnone : s.latest (sameLow k) s.entered = none := by
        rw [latest, List.findSome?_eq_none_iff]
        intro e he
        apply if_neg
        rintro ⟨hactivation, -⟩
        exact lt_irrefl _ (h.tracked.emitted e (List.mem_reverse.mp he) _ hactivation)
      cases hnone.symm.trans hbase

end Emitted

section Run

variable {as : List Action} {a d k : ℕ} {base : Word}

lemma run_invariant (h : EveryStep Machine.step Nested start as) :
    Addressed (run Machine.step start as) ∧ (run Machine.step start as).Packed := by
  have hstep : ∀ s act, Addressed s ∧ s.Packed → True → s.Nested act →
      Addressed (s.step act) ∧ (s.step act).Packed :=
    fun s act hs _ hn => ⟨hs.1.step hn, hs.2.step hn⟩
  have hstart : Addressed start ∧ start.Packed := by
    refine ⟨⟨start_tracked, ?_⟩, ⟨start_tracked, ?_⟩⟩
    · intro a d _ k base hbase
      cases hbase
    · intro a d k w _ hmem
      cases hmem
  exact (everyState_of_invariant _ (fun _ => True) hstep hstart (fun _ _ => trivial) h).last

lemma lastOf_entries_large (s : Machine) (hk : 65536 ≤ k) (f : ℤ) :
    lastOf (Entry.address k f) (entries s) = none := by
  have hid : ∀ w : Word, (getIdVar w.toNat).1 ≠ k := by
    intro w
    have hw := w.isLt
    rw [getIdVar, Int.shiftRight_eq_div_pow]
    dsimp only
    omega
  apply lastOf_eq_none
  intro e he
  obtain ⟨em, -, rfl⟩ := List.mem_map.mp he
  cases em.record with
  | defRec w addr => exact if_neg fun h => hid w (congrArg Prod.fst h)
  | ddefRec w addr size => exact if_neg fun h => hid w h.1
  | useRec | iuseRec => rfl

lemma lastOf_entries_iff {s : Machine} (h : Addressed s) (hlive : s.Live a d)
    (hbase : s.latest (· == k) a = some base) :
    lastOf (Entry.address k d) (entries s) = some (base.toNat : ℤ) ↔
      k < 65536 ∧ s.latest (sameLow k) a = some base := by
  have hne : s.latest (· == k) a ≠ none := by
    rw [hbase]
    exact Option.some_ne_none _
  have hsome : s.latest (sameLow k) a ≠ none := by
    refine latest_ne_none_mono (fun site hsite => ?_) hne
    rw [sameLow_iff, beq_iff_eq.mp hsite]
  obtain ⟨base', hbase'⟩ := Option.ne_none_iff_exists'.mp hsome
  by_cases hk : k < 65536
  · have haddress := h.address a d hlive k base' hbase'
    rw [Nat.mod_eq_of_lt hk] at haddress
    rw [haddress, hbase']
    constructor
    · intro heq
      refine ⟨hk, congrArg some (BitVec.eq_of_toNat_eq ?_)⟩
      exact Int.ofNat_inj.mp (Option.some.inj heq)
    · rintro ⟨-, heq⟩
      rw [Option.some.inj heq]
  · constructor
    · intro heq
      rw [lastOf_entries_large s (Nat.le_of_not_lt hk)] at heq
      cases heq
    · exact fun heq => absurd heq.1 hk

end Run

def UsesBase (v : State) (e : Entry) (k base : ℤ) : Prop :=
  ∃ place t, v.judge e = some place ∧ v.nodes[place]? = some t ∧ t.id = k ∧
    t.address e.frame = some base ∧
    ((v.target place).bind fun target => target.getBase e.frame) = some base

def LeadsTo (v : State) (e : Entry) (k : ℤ) : Prop :=
  ∃ place t, v.judge e = some place ∧ v.nodes[place]? = some t ∧ t.id = k

section Base

variable {v v' : State} {k : ℤ} (hv : Parsed v)
  (hstack : ∀ t ∈ v.nodes, t.id = k → t.type = adefType)

include hv hstack

lemma address_after {es : List Entry} {cs : List (Option Bool)}
    (hrun : v.verifyAll es = some (v', cs)) {place : ℕ} {t t' : TraceLine}
    (ht : v.nodes[place]? = some t) (hid : t.id = k) (ht' : v'.nodes[place]? = some t') :
    t'.id = k ∧ t'.type = adefType ∧ ∀ f, t'.address f = lastOf (Entry.address k f) es := by
  have htype := hstack t (List.mem_of_getElem? ht) hid
  have hdef : occurs defType t.type = true := by
    rw [htype]
    decide
  obtain ⟨t₁, ht₁, hafter⟩ := verifyAll_after hv.mapped ht hdef hrun
  obtain rfl : t' = t₁ := Option.some.inj (ht'.symm.trans ht₁)
  obtain ⟨hid', htype', -, -⟩ := TraceLine.of_skeleton hafter.skeleton
  refine ⟨hid'.trans hid, htype'.trans htype, fun f => ?_⟩
  rw [hafter.address, hv.address_none ht, Option.or_none, hid]

lemma usesBase_iff {es : List Entry} {cs : List (Option Bool)}
    (hrun : v.verifyAll es = some (v', cs)) (e : Entry) (base : ℤ) :
    UsesBase v' e k base ↔ LeadsTo v e k ∧ lastOf (Entry.address k e.frame) es = some base := by
  have hskel := verifyAll_skeleton hrun
  constructor
  · rintro ⟨place, t', hplace, ht', hid, hbase, -⟩
    have hsymm : SameSkeleton v' v := ⟨hskel.nodes.symm, hskel.defMap.symm⟩
    obtain ⟨t, ht, hsame⟩ := State.SameSkeleton.getElem? hsymm ht'
    have hid₀ : t.id = k := (TraceLine.of_skeleton hsame).1.trans hid
    rw [hskel.judge_eq] at hplace
    rw [(address_after hv hstack hrun ht hid₀ ht').2.2] at hbase
    exact ⟨⟨place, t, hplace, ht, hid₀⟩, hbase⟩
  · rintro ⟨⟨place, t, hplace, ht, hid⟩, hbase⟩
    obtain ⟨t', ht', -⟩ := State.SameSkeleton.getElem? hskel ht
    obtain ⟨hid', htype', haddress⟩ := address_after hv hstack hrun ht hid ht'
    have haddr : t'.address e.frame = some base := (haddress e.frame).trans hbase
    have htarget : v'.target place = some t' := by
      have hne : t'.type ≠ ddefType := by
        rw [htype']
        decide
      rw [target, ht', Option.bind_eq_bind, Option.bind_some, deref, if_neg hne]
    have hgetBase : t'.getBase e.frame = some base := by
      apply getBase_of_some
      · rw [htype']
        decide
      · rw [htype']
        decide
      · rw [haddr]
        rfl
    refine ⟨place, t', ?_, ht', hid', haddr, ?_⟩
    · rw [hskel.judge_eq, hplace]
    · rw [htarget]
      exact hgetBase

lemma leadsTo_iuse (hk : ∃ t ∈ v.nodes, t.id = k) (w u addr : ℤ) :
    LeadsTo v (.iuse w u addr) k ↔
      (∃ t ∈ v.nodes, t.id = (getIdVar u).1) ∧ (getIdVar w).1 = k := by
  rw [LeadsTo]
  change (∃ place t, v.iusePlace _ _ = _ ∧ _) ↔ _
  constructor
  · rintro ⟨place, t, hplace, ht, rfl⟩
    obtain ⟨use, huse, hplace⟩ := Option.bind_eq_some_iff.mp hplace
    refine ⟨⟨use, List.mem_of_find?_eq_some huse, ?_⟩, ?_⟩
    · simpa using List.find?_some huse
    · obtain ⟨t', ht', -, hid⟩ := (hv.defMap _ _).mp (List.mem_of_getElem? hplace)
      rw [← hid, Option.some.inj (ht.symm.trans ht')]
  · rintro ⟨⟨use, huse, hid⟩, rfl⟩
    obtain ⟨t, ht, htid⟩ := hk
    obtain ⟨p, hp⟩ := List.mem_iff_getElem?.mp ht
    have hdef : occurs defType t.type = true := by
      rw [hstack t ht htid]
      decide
    have hmem : p ∈ v.defMap (getIdVar w).1 := (hv.defMap _ _).mpr ⟨t, hp, hdef, htid⟩
    obtain ⟨place, rest, hplaces⟩ := List.exists_cons_of_ne_nil (List.ne_nil_of_mem hmem)
    have hplace : place ∈ v.defMap (getIdVar w).1 := by
      rw [hplaces]
      exact List.mem_cons_self
    obtain ⟨t', ht', -, hid'⟩ := (hv.defMap _ _).mp hplace
    obtain ⟨use', huse'⟩ : ∃ use', v.nodes.find? (fun x => x.id = (getIdVar u).1) = some use' := by
      rw [← Option.isSome_iff_exists, List.find?_isSome]
      exact ⟨use, huse, decide_eq_true hid⟩
    refine ⟨place, t', ?_, ht', hid'⟩
    rw [iusePlace, huse', hplaces]
    rfl

end Base

theorem base_of_use {ztrace : Text} {v v' : State} (hparse : traceParser ztrace = some v)
    {as : List Action} (hnested : EveryStep Machine.step Nested start as) {s : Machine}
    (hs : run Machine.step start as = s) {cs : List (Option Bool)}
    (hrun : v.verifyRecords (s.log.map Emission.record) = some (v', cs)) {k a : ℕ}
    (hk : ∃ t ∈ v.nodes, t.id = k) (hstack : ∀ t ∈ v.nodes, t.id = k → t.type = adefType)
    (hlive : a ∈ s.stack) {base : Word} (hbase : s.latest (· == k) a = some base) :
    (s.stack.head? = some a → ∀ u addr,
      (UsesBase v' (entryOf (.useRec (s.pack u) addr)) k base.toNat ↔
        k < 65536 ∧ s.latest (sameLow k) a = some base ∧
          LeadsTo v (.use (s.pack u).toNat addr.toNat) k)) ∧
    ∀ w, (a, k, w) ∈ s.propagated → ∀ u addr,
      (UsesBase v' (entryOf (.iuseRec (s.pack u) w addr)) k base.toNat ↔
        k < 32768 ∧ s.latest (sameLow k) a = some base ∧
          ∃ t ∈ v.nodes, t.id = (BitVec.ofNat 16 u).toInt) := by
  have hv := traceParser_parsed hparse
  obtain ⟨haddressed, hpacked⟩ := run_invariant hnested
  rw [hs] at haddressed hpacked
  obtain ⟨d, hd⟩ := exists_live hlive
  have hlt : d < 65536 := by
    have hc := s.counter.isLt
    rw [haddressed.tracked.counter] at hc
    exact hd.le.2.trans_lt hc
  rw [verifyRecords_eq, List.map_map] at hrun
  have hrun : v.verifyAll (entries s) = some (v', cs) := hrun
  have hlast := lastOf_entries_iff haddressed hd hbase
  constructor
  · intro hhead u addr
    have hframe : (entryOf (.useRec (s.pack u) addr)).frame = d := by
      rw [(haddressed.tracked.head_iff hd).mp hhead]
      exact congrArg Prod.snd (getIdVar_useParam _ _)
    rw [usesBase_iff hv hstack hrun, hframe, hlast, and_comm, and_assoc]
    rfl
  · intro w hw u addr
    obtain rfl := hpacked.ids a d k w hd hw
    have hid := getIdVar_useParam_toInt (BitVec.ofNat 16 k) (BitVec.ofNat 16 d)
    have hframe : (entryOf (.iuseRec (s.pack u)
        (useParam (BitVec.ofNat 16 k) (BitVec.ofNat 16 d)) addr)).frame = d := by
      refine (congrArg Prod.snd hid).trans ?_
      rw [BitVec.toNat_ofNat, Nat.mod_eq_of_lt hlt]
    have huse : (getIdVar (s.pack u).toInt).1 = (BitVec.ofNat 16 u).toInt :=
      congrArg Prod.fst (getIdVar_useParam_toInt _ _)
    have hsmall : (BitVec.ofNat 16 k).toInt = k ∧ k < 65536 ↔ k < 32768 := by
      rw [BitVec.toInt_eq_toNat_cond, BitVec.toNat_ofNat]
      split <;> omega
    rw [usesBase_iff hv hstack hrun, hframe, hlast, entryOf, leadsTo_iuse hv hstack hk, huse, hid,
      ← hsmall]
    constructor
    · rintro ⟨⟨hnode, hk'⟩, hlt, hlatest⟩
      exact ⟨⟨hk', hlt⟩, hlatest, hnode⟩
    · rintro ⟨⟨hk', hlt⟩, hlatest, hnode⟩
      exact ⟨⟨hnode, hk'⟩, hlt, hlatest⟩

def useOf (defn : Text) : Text :=
  ['2', ';', 'I', 'N', ';', '-', '1', ';', 'x', '\n'] ++
  ['3', ';', 'S', 'U', 'S', 'E', ';', '2', ';', 'f', ';', 'y', '\n'] ++ defn ++
  [';', 'A', 'D', 'E', 'F', ';', '3', ';', 'B', 'A', 'S', 'E', ';', '1', '0', ';', 'z', '\n']

def recursive (k : ℕ) : List Action :=
  [.enter, .collectAlloca k 4096, .propagate k, .enter, .collectAlloca k 2048, .leave]

theorem iuse_of_large_id : ∃ v v' s, traceParser (useOf ['4', '0', '0', '0', '0']) = some v ∧
    EveryStep Machine.step Nested start (recursive 40000) ∧
    run Machine.step start (recursive 40000) = s ∧
    v.verifyRecords (s.log.map Emission.record) = some (v', [none, none]) ∧
    (∃ t ∈ v.nodes, t.id = 40000 ∧ t.type = adefType) ∧
    s.stack = [0] ∧ s.latest (· == 40000) 0 = some 4096 ∧
    (0, 40000, useParam 40000 1) ∈ s.propagated ∧
    ¬ UsesBase v' (entryOf (.iuseRec (s.pack 3) (useParam 40000 1) 5000)) 40000 4096 := by
  have hrun : ((traceParser (useOf ['4', '0', '0', '0', '0'])).bind fun v =>
      (v.verifyRecords ((run Machine.step start (recursive 40000)).log.map Emission.record)).map
        fun out => (out.2, (v.nodes[2]?.map fun t : TraceLine => (t.id, t.type)),
          out.1.judge (entryOf (.iuseRec (useParam 3 1) (useParam 40000 1) 5000)))) =
      some ([none, none], some (40000, adefType), none) := by decide +kernel
  obtain ⟨v, hv, hrun⟩ := Option.bind_eq_some_iff.mp hrun
  obtain ⟨⟨v', cs⟩, hrun, heq⟩ := Option.map_eq_some_iff.mp hrun
  simp only [Prod.mk.injEq, Option.map_eq_some_iff] at heq
  obtain ⟨rfl, ⟨t, ht, hid, htype⟩, hjudge⟩ := heq
  have hpack : (run Machine.step start (recursive 40000)).pack 3 = useParam 3 1 := by
    decide +kernel
  refine ⟨v, v', _, hv, ?_, rfl, hrun, ⟨t, List.mem_of_getElem? ht, hid, htype⟩, ?_, ?_, ?_, ?_⟩
  · simp [recursive, EveryStep, Nested, Machine.step, start, emit]
  · decide +kernel
  · decide +kernel
  · decide +kernel
  · rintro ⟨place, _, hplace, -⟩
    rw [hpack, hjudge] at hplace
    cases hplace

theorem base_of_use_recursive : ∃ v v' s, traceParser (useOf ['4']) = some v ∧
    v.verifyRecords (s.log.map Emission.record) = some (v', [none, none]) ∧
    run Machine.step start (recursive 4) = s ∧
    UsesBase v' (entryOf (.useRec (s.pack 3) 5000)) 4 4096 ∧
    UsesBase v' (entryOf (.iuseRec (s.pack 3) (useParam 4 1) 5000)) 4 4096 := by
  have hrun : ((traceParser (useOf ['4'])).bind fun v =>
      (v.verifyRecords ((run Machine.step start (recursive 4)).log.map Emission.record)).map
        fun out => (out.2, v.nodes.map fun t => (t.id, t.type))) = some ([none, none],
          [(2, ['I', 'N']), (3, ['S', 'U', 'S', 'E']), (4, adefType)]) := by decide +kernel
  have hjudge : ((traceParser (useOf ['4'])).bind fun v =>
      v.judge (.use (useParam 3 1).toNat 5000)) = some 2 := by decide +kernel
  obtain ⟨v, hv, hrun⟩ := Option.bind_eq_some_iff.mp hrun
  obtain ⟨⟨v', cs⟩, hrun, heq⟩ := Option.map_eq_some_iff.mp hrun
  obtain ⟨rfl, hnodes⟩ := Prod.mk.inj heq
  rw [hv, Option.bind_some] at hjudge
  have hmem : ∀ t ∈ v.nodes, (t.id, t.type) ∈
      [((2 : ℤ), ['I', 'N']), (3, ['S', 'U', 'S', 'E']), (4, adefType)] := by
    intro t ht
    rw [← hnodes]
    exact List.mem_map_of_mem ht
  have hstack : ∀ t ∈ v.nodes, t.id = (4 : ℕ) → t.type = adefType := by
    intro t ht hid
    have h := hmem t ht
    rw [hid] at h
    simpa using h
  have hplace := congrArg (fun ts : List (ℤ × Text) => ts[2]?) hnodes
  simp only [List.getElem?_map, Option.map_eq_some_iff, List.getElem?_cons_succ,
    List.getElem?_cons_zero] at hplace
  obtain ⟨t, ht, heq⟩ := hplace
  have hid : t.id = (4 : ℕ) := congrArg Prod.fst heq
  have huse : ∃ t ∈ v.nodes, t.id = (BitVec.ofNat 16 3).toInt := by
    have h : ((3 : ℤ), ['S', 'U', 'S', 'E']) ∈ v.nodes.map fun t => (t.id, t.type) := by
      rw [hnodes]
      simp
    obtain ⟨t, ht, heq⟩ := List.mem_map.mp h
    exact ⟨t, ht, congrArg Prod.fst heq⟩
  have hnested : EveryStep Machine.step Nested start (recursive 4) := by
    simp [recursive, EveryStep, Nested, Machine.step, start, emit]
  have hlatest : (run Machine.step start (recursive 4)).latest (sameLow 4) 0 = some 4096 := by
    decide +kernel
  have hbase : (run Machine.step start (recursive 4)).latest (· == 4) 0 = some 4096 := by
    decide +kernel
  have hpack : (run Machine.step start (recursive 4)).pack 3 = useParam 3 1 := by decide +kernel
  obtain ⟨hdirect, hindirect⟩ := base_of_use hv hnested rfl hrun
    ⟨t, List.mem_of_getElem? ht, hid⟩ hstack (by decide +kernel) hbase
  refine ⟨v, v', _, hv, hrun, rfl, ?_, ?_⟩
  · refine (hdirect (by decide +kernel) 3 5000).mpr ⟨by decide, hlatest, 2, t, ?_, ht, hid⟩
    rw [hpack]
    exact hjudge
  · exact (hindirect (useParam 4 1) (by decide +kernel) 3 5000).mpr ⟨by decide, hlatest, huse⟩

end Embedwatch.Detection
