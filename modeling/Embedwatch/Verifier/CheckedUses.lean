import Embedwatch.Verifier.Dictionaries

/-! What the check of a use compares, after any trace: the base that the definition's addresses
give, and the length of its target. -/

namespace Embedwatch.Verifier

open Library.PlainText

lemma verify_use {v : State} {e : Entry} (hu : e.isUse = true) :
    v.verify e = (((v.judge e).bind v.target).bind fun t =>
      t.checkUse e.endAddr e.frame).map fun c => (v, some c) := by
  cases e with
  | use id addr =>
    simp only [State.verify, State.onUse, State.judge, Entry.frame, Entry.endAddr,
      Option.bind_eq_bind]
    cases v.usePlace (getIdVar id).1 with
    | none => rfl
    | some p =>
      cases h : v.target p with
      | none => simp [h]
      | some t => cases h' : t.checkUse addr (getIdVar id).2 <;> simp [h, h']
  | iuse d use addr =>
    simp only [State.verify, State.onIuse, State.judge, Entry.frame, Entry.endAddr,
      Option.bind_eq_bind]
    cases v.iusePlace (getIdVar use).1 (getIdVar d).1 with
    | none => rfl
    | some p =>
      cases h : v.target p with
      | none => simp [h]
      | some t => cases h' : t.checkUse addr (getIdVar d).2 <;> simp [h, h']
  | defn => cases hu
  | ddefn => cases hu
  | other => cases hu

lemma eq_of_verify_use {v v' : State} {e : Entry} {c : Option Bool} (hu : e.isUse = true)
    (h : v.verify e = some (v', c)) : v' = v := by
  rw [verify_use hu, Option.map_eq_some_iff] at h
  obtain ⟨b, -, h⟩ := h
  exact (congrArg Prod.fst h).symm

lemma SameSkeleton.judge_eq {v v' : State} (h : SameSkeleton v v') (e : Entry) :
    v'.judge e = v.judge e := by
  have hstate : v'.skeleton = v.skeleton := by rw [State.skeleton, h.nodes, h.defMap, State.skeleton]
  cases e with
  | use id addr =>
    change v'.usePlace _ = v.usePlace _
    rw [← usePlace_skeleton v', hstate, usePlace_skeleton]
  | iuse d use addr =>
    change v'.iusePlace _ _ = v.iusePlace _ _
    rw [← iusePlace_skeleton v', hstate, iusePlace_skeleton]
  | defn => rfl
  | ddefn => rfl
  | other => rfl

lemma Parsed.address_none {v : State} (hv : Parsed v) {p : ℕ} {t : TraceLine}
    (ht : v.nodes[p]? = some t) (f : ℤ) : t.address f = none :=
  congrFun (hv.address t (List.mem_of_getElem? ht)) f

lemma getBase_eq_some {t : TraceLine} {f b : ℤ} (h : t.getBase f = some b) :
    occurs defType t.type = true ∧ ((t.address f).or (t.address 0) = none → b = 0) := by
  rw [TraceLine.getBase] at h
  split at h
  · next hdef =>
    refine ⟨hdef, fun hnone => ?_⟩
    rw [hnone] at h
    exact (Option.some.inj h).symm
  · cases h

lemma getBase_of_some {t : TraceLine} (hdef : occurs defType t.type = true)
    (hsdef : t.type ≠ sdefType) {f a : ℤ} (h : (t.address f).or (t.address 0) = some a) :
    t.getBase f = some a := by
  rw [TraceLine.getBase, if_pos hdef, h]
  exact if_neg hsdef

def Observed (id f : ℤ) (entries : List (List Text)) : Prop :=
  ∃ entry ∈ entries, ∃ e, readEntry entry = some e ∧
    (e.address id f ≠ none ∨ e.address id 0 ≠ none)

lemma readEntry_mem {entries : List (List Text)} {es : List Entry}
    (h : entries.mapM readEntry = some es) {e : Entry} (he : e ∈ es) :
    ∃ entry ∈ entries, readEntry entry = some e := by
  induction entries generalizing es with
  | nil =>
    cases h
    cases he
  | cons entry entries ih =>
    rw [List.mapM_cons] at h
    obtain ⟨e₁, h₁, h⟩ := Option.bind_eq_some_iff.mp h
    obtain ⟨es', h₂, h⟩ := Option.bind_eq_some_iff.mp h
    cases h
    rcases List.mem_cons.mp he with rfl | he
    · exact ⟨entry, List.mem_cons_self, h₁⟩
    · obtain ⟨entry', hmem, hread⟩ := ih h₂ he
      exact ⟨entry', List.mem_cons_of_mem entry hmem, hread⟩

lemma lastOf_of_not_observed {id f : ℤ} {entries : List (List Text)} {es : List Entry}
    (h : entries.mapM readEntry = some es) (hno : ¬ Observed id f entries) :
    lastOf (Entry.address id f) es = none ∧ lastOf (Entry.address id 0) es = none := by
  constructor
  · apply lastOf_eq_none
    intro e he
    obtain ⟨entry, hmem, hread⟩ := readEntry_mem h he
    by_contra hne
    exact hno ⟨entry, hmem, e, hread, Or.inl hne⟩
  · apply lastOf_eq_none
    intro e he
    obtain ⟨entry, hmem, hread⟩ := readEntry_mem h he
    by_contra hne
    exact hno ⟨entry, hmem, e, hread, Or.inr hne⟩

theorem unobserved_check_iff {ztrace : Text} {v v' : State} (hparse : traceParser ztrace = some v)
    {entries : List (List Text)} {cs : List (Option Bool)}
    (hrun : v.verifyEntries entries = some (v', cs)) {entry : List Text} {use : Entry}
    (hread : readEntry entry = some use) {place : ℕ} {t : TraceLine}
    (hplace : v.judge use = some place) (ht : v.nodes[place]? = some t)
    (hno : ¬ Observed t.id use.frame entries) {c : Bool}
    (h : v'.verifyEntry entry = some (v', some c)) :
    ∃ target len, v'.target place = some target ∧ target.getBase use.frame = some 0 ∧
      target.getLen use.frame = some len ∧ (c = true ↔ use.endAddr > len) := by
  have hv := traceParser_parsed hparse
  have huse := State.isUse_of_judge hplace
  rw [State.verifyEntries_eq, Option.bind_eq_some_iff] at hrun
  obtain ⟨es, hes, hrun⟩ := hrun
  have hskel := State.verifyAll_skeleton hrun
  rw [State.verifyEntry_eq, hread, Option.bind_some, verify_use huse, hskel.judge_eq, hplace,
    Option.bind_some, Option.map_eq_some_iff] at h
  obtain ⟨c', h, hc⟩ := h
  obtain rfl : c' = c := by simpa using congrArg Prod.snd hc
  obtain ⟨target, htarget, h⟩ := Option.bind_eq_some_iff.mp h
  obtain ⟨b, hbase, h⟩ := Option.bind_eq_some_iff.mp h
  obtain ⟨len, hlen, h⟩ := Option.bind_eq_some_iff.mp h
  obtain ⟨hdef, hzero⟩ := getBase_eq_some hbase
  obtain ⟨t', ht', hskel'⟩ := State.SameSkeleton.getElem? hskel ht
  have htype : t'.type = t.type := (TraceLine.of_skeleton hskel').2.1
  -- a use that leads to no definition cannot be checked
  have htdef : occurs defType t.type = true := by
    by_cases hd : t.type = ddefType
    · rw [hd]
      decide
    · have hsame : v'.target place = some t' := by
        simp only [State.target, ht', Option.bind_eq_bind, Option.bind_some, State.deref, htype, hd,
          if_false]
      rw [← htype, Option.some.inj (hsame.symm.trans htarget)]
      exact hdef
  obtain ⟨t'', ht'', hafter⟩ := State.verifyAll_after hv.mapped ht htdef hrun
  obtain rfl : t' = t'' := Option.some.inj (ht'.symm.trans ht'')
  obtain ⟨hnone, hnone₀⟩ := lastOf_of_not_observed hes hno
  have haddress : (t'.address use.frame).or (t'.address 0) = none := by
    rw [hafter.address, hafter.address, hnone, hnone₀, hv.address_none ht, hv.address_none ht]
    rfl
  have hsameAddress : target.address = t'.address := by
    rw [State.target, ht', Option.bind_eq_bind, Option.bind_some, State.deref] at htarget
    split at htarget
    · obtain ⟨place', -, htarget⟩ := Option.bind_eq_some_iff.mp htarget
      obtain ⟨newDef, -, htarget⟩ := Option.bind_eq_some_iff.mp htarget
      cases htarget
      rfl
    · cases htarget
      rfl
  have hb : b = 0 := by
    apply hzero
    rw [hsameAddress]
    exact haddress
  subst hb
  refine ⟨target, len, htarget, hbase, hlen, ?_⟩
  rw [← Option.some.inj h, decide_eq_true_iff, sub_zero]

def oneUse : Text :=
  ['2', ';', 'I', 'N', ';', '-', '1', ';', 'x', '\n'] ++
  ['3', ';', 'S', 'U', 'S', 'E', ';', '2', ';', 'f', ';', 'y', '\n'] ++
  ['4', ';', 'A', 'D', 'E', 'F', ';', '3', ';', 'B', 'A', 'S', 'E', ';', '1', '0', ';', 'z', '\n']

def useAt100 : List Text := [useType, ['1', '9', '6', '6', '0', '9'], ['6', '4']]

theorem violation_without_address : ∃ v v', traceParser oneUse = some v ∧
    v.verifyEntries [useAt100] = some (v', [some true]) ∧ ∀ id f, ¬ Observed id f [] := by
  have hrun : ((traceParser oneUse).bind fun v =>
      (v.verifyEntries [useAt100]).map Prod.snd) = some [some true] := by decide +kernel
  obtain ⟨v, hv, hrun⟩ := Option.bind_eq_some_iff.mp hrun
  obtain ⟨⟨v', cs⟩, hrun, rfl⟩ := Option.map_eq_some_iff.mp hrun
  refine ⟨v, v', hv, hrun, ?_⟩
  rintro id f ⟨entry, hmem, -⟩
  cases hmem

theorem useAt100_check_iff : ∃ v target len, traceParser oneUse = some v ∧
    v.verifyEntry useAt100 = some (v, some true) ∧ v.target 2 = some target ∧
    target.getBase 1 = some 0 ∧ target.getLen 1 = some len ∧ (100 : ℤ) > len := by
  have hread : readEntry useAt100 = some (.use 196609 100) := by decide +kernel
  have hrun : ((traceParser oneUse).bind fun v => (v.verifyEntry useAt100).map fun out =>
      (out.2, v.judge (.use 196609 100))) = some (some true, some 2) := by decide +kernel
  obtain ⟨v, hv, hrun⟩ := Option.bind_eq_some_iff.mp hrun
  obtain ⟨⟨v', c⟩, hrun, heq⟩ := Option.map_eq_some_iff.mp hrun
  obtain ⟨hc, hplace⟩ := Prod.mk.inj heq
  have hnode : ((traceParser oneUse).bind fun v => (v.nodes[2]?).map TraceLine.id) = some 4 := by
    decide +kernel
  rw [hv, Option.bind_some] at hnode
  obtain ⟨t, ht, -⟩ := Option.map_eq_some_iff.mp hnode
  have huse : v' = v := by
    rw [State.verifyEntry_eq, hread, Option.bind_some] at hrun
    exact eq_of_verify_use rfl hrun
  obtain rfl : c = some true := hc
  subst huse
  have hnil : v'.verifyEntries [] = some (v', []) := rfl
  have hno : ¬ Observed t.id (Entry.use 196609 100).frame [] := by
    rintro ⟨entry, hmem, -⟩
    cases hmem
  obtain ⟨target, len, htarget, hbase, hlen, hiff⟩ :=
    unobserved_check_iff hv hnil hread hplace ht hno hrun
  exact ⟨v', target, len, hv, hrun, htarget, hbase, hlen, hiff.mp rfl⟩

def baseAfter (id f base : ℤ) (es : List Entry) : ℤ := (lastOf (Entry.address id f) es).getD base

lemma lastOf_ddefn {id f w addr len : ℤ} (hid : getIdVar w = (id, f)) (pre es : List Entry) :
    lastOf (Entry.address id f) (pre ++ .ddefn w addr len :: es) =
      some (baseAfter id f addr es) := by
  have hgiven : Entry.address id f (.ddefn w addr len) = some addr := by
    rw [Entry.address, hid]
    exact if_pos ⟨rfl, Or.inl rfl⟩
  rw [lastOf_append, lastOf_cons, hgiven, baseAfter]
  cases lastOf (Entry.address id f) es <;> rfl

lemma baseAfter_eq {id f : ℤ} {es : List Entry} (hf : f ≠ 0)
    (hddefn : ∀ w addr len, Entry.ddefn w addr len ∈ es → getIdVar w ≠ (id, f))
    (hdefn : ∀ w addr, Entry.defn w addr ∈ es → getIdVar w ≠ (id, f)) (base : ℤ) :
    baseAfter id f base es = base := by
  have hnone : lastOf (Entry.address id f) es = none := by
    apply lastOf_eq_none
    intro e he
    cases e with
    | defn w addr => exact if_neg (hdefn w addr he)
    | ddefn w addr len =>
      apply if_neg
      rintro ⟨hid, hframe | h0⟩
      · exact hddefn w addr len he (Prod.ext hid hframe)
      · exact hf h0
    | use | iuse | other => rfl
  rw [baseAfter, hnone]
  rfl

lemma After.getLen {t t' : TraceLine} {es : List Entry} (h : After t es t')
    (hno : ∀ w addr len, Entry.ddefn w addr len ∈ es → (getIdVar w).1 ≠ t.id) (f : ℤ) :
    t'.getLen f = t.getLen f := by
  have hnone : ∀ f, lastOf (Entry.length t.id f) es = none := by
    intro f
    apply lastOf_eq_none
    intro e he
    cases e with
    | ddefn w addr len => exact if_neg fun hid => hno w addr len he hid.1
    | defn | use | iuse | other => rfl
  have htype : t'.type = t.type := (TraceLine.of_skeleton h.skeleton).2.1
  rw [TraceLine.getLen, TraceLine.getLen, htype, h.length, h.length, hnone, hnone]
  rfl

lemma After.getLen_ne_none {t t' : TraceLine} {es : List Entry} (h : After t es t')
    (hdef : occurs defType t.type = true) (hlen : t.length 0 ≠ none) (f : ℤ) :
    ∃ len, t'.getLen f = some len := by
  have htype : t'.type = t.type := (TraceLine.of_skeleton h.skeleton).2.1
  obtain ⟨len, hlen⟩ := Option.ne_none_iff_exists'.mp hlen
  rw [TraceLine.getLen, htype, if_pos hdef, h.length, h.length, hlen]
  cases lastOf (Entry.length t.id f) es with
  | some len' => exact ⟨len', rfl⟩
  | none =>
    cases t.length f with
    | some len' => exact ⟨len', rfl⟩
    | none => cases lastOf (Entry.length t.id 0) es <;> exact ⟨_, rfl⟩

/-- The check of a use of a dynamic object, with a static target, after its `DDEF`. It compares the
end with the length of the target and not with the size that the `DDEF` gave; so it tells whether the
end is behind the object unless that end lies between the two. -/
theorem ddef_check_iff {ztrace : Text} {v v' : State} (hparse : traceParser ztrace = some v)
    {pre es : List Entry} {w base size : ℤ} {cs : List (Option Bool)}
    (hrun : v.verifyAll (pre ++ .ddefn w base size :: es) = some (v', cs)) {use : Entry}
    {place place' : ℕ} {t target : TraceLine} (hplace : v.judge use = some place)
    (ht : v.nodes[place]? = some t) (htype : t.type = ddefType)
    (hid : getIdVar w = (t.id, use.frame)) (hchild : t.children[0]? = some place')
    (htarget : v.nodes[place']? = some target) (hstatic : isStatic target)
    (hnewer : ∀ w' addr len, Entry.ddefn w' addr len ∈ es → getIdVar w' ≠ (t.id, use.frame)) :
    ∃ c len, v'.verify use = some (v', some c) ∧
      (v'.nodes[place']?.bind fun u => u.getLen use.frame) = some len ∧
      ((∀ w' addr l, Entry.ddefn w' addr l ∈ pre ++ .ddefn w base size :: es →
        (getIdVar w').1 ≠ target.id) → target.length 0 = some len) ∧
      (use.frame ≠ 0 → (∀ w' addr, Entry.defn w' addr ∈ es → getIdVar w' ≠ (t.id, use.frame)) →
        baseAfter t.id use.frame base es = base) ∧
      ((c = true ↔ use.endAddr - base > size) ↔
        use.endAddr ≤ base + size ∧ use.endAddr ≤ baseAfter t.id use.frame base es + len ∨
        use.endAddr > base + size ∧ use.endAddr > baseAfter t.id use.frame base es + len) := by
  have hv := traceParser_parsed hparse
  have huse := State.isUse_of_judge hplace
  have hdef : occurs defType t.type = true := by
    rw [htype]
    decide
  obtain ⟨t', ht', hafter⟩ := State.verifyAll_after hv.mapped ht hdef hrun
  obtain ⟨u, hu, huafter⟩ := State.verifyAll_after hv.mapped htarget hstatic.occurs.1 hrun
  obtain ⟨-, htype', hchildren, -⟩ := TraceLine.of_skeleton hafter.skeleton
  obtain ⟨-, hutype, -, -⟩ := TraceLine.of_skeleton huafter.skeleton
  obtain ⟨len₀, hlen₀⟩ := hv.length target (List.mem_of_getElem? htarget) hstatic.occurs.1
  obtain ⟨len, hlen⟩ := huafter.getLen_ne_none hstatic.occurs.1
    (by rw [hlen₀, onlyAt, Function.update_self]; exact Option.some_ne_none _) use.frame
  have hmoved : v'.target place = some { u with address := t'.address } := by
    rw [State.target, ht', Option.bind_eq_bind, Option.bind_some, State.deref,
      if_pos (htype'.trans htype), hchildren, hchild]
    simp only [Option.bind_eq_bind, Option.bind_some, hu]
  have hbase : TraceLine.getBase { u with address := t'.address } use.frame =
      some (baseAfter t.id use.frame base es) := by
    have hustatic : isStatic { u with address := t'.address } := by
      rcases hstatic with hs | hs
      · exact Or.inl (hutype.trans hs)
      · exact Or.inr (hutype.trans hs)
    apply getBase_of_some hustatic.occurs.1 hustatic.occurs.2.1
    rw [hafter.address, lastOf_ddefn hid]
    rfl
  have hlen' : TraceLine.getLen { u with address := t'.address } use.frame = some len := hlen
  refine ⟨decide (use.endAddr - baseAfter t.id use.frame base es > len), len, ?_, ?_, ?_, ?_, ?_⟩
  · rw [verify_use huse, (State.verifyAll_skeleton hrun).judge_eq, hplace, Option.bind_some, hmoved,
      Option.bind_some, TraceLine.checkUse, hbase, hlen']
    rfl
  · rw [hu]
    exact hlen
  · intro hno
    rw [huafter.getLen hno, TraceLine.getLen, if_pos hstatic.occurs.1, hlen₀] at hlen
    rw [hlen₀]
    by_cases hf : use.frame = 0
    · rw [hf] at hlen
      simpa using hlen
    · rw [onlyAt, Function.update_of_ne hf] at hlen
      simpa [onlyAt] using hlen
  · exact fun hframe hno => baseAfter_eq hframe hnewer hno base
  · rw [decide_eq_true_iff]
    omega

def dynamicUse : Text :=
  ['2', ';', 'I', 'N', ';', '-', '1', ';', 'x', '\n'] ++
  ['3', ';', 'S', 'U', 'S', 'E', ';', '2', ';', 'f', ';', 'y', '\n'] ++
  ['4', ';', 'D', 'D', 'E', 'F', ';', '3', ';', 'B', 'A', 'S', 'E', ';', '-', '1', ';', 'm', '\n'] ++
  ['5', ';', 'A', 'D', 'E', 'F', ';', '4', ';', 'B', 'A', 'S', 'E', ';', '4', ';', 'p', '\n']

def allocation : Entry := .ddefn 0x40001 1000 100

lemma dynamicUse_parsed : ∃ (v v' : State) (t target : TraceLine), traceParser dynamicUse = some v ∧
    v.verifyAll ([] ++ allocation :: []) = some (v', [none]) ∧
    v.judge (.use 0x30001 1101) = some 2 ∧
    v.nodes[2]? = some t ∧ t.type = ddefType ∧ t.id = 4 ∧ t.children[0]? = some 3 ∧
    v.nodes[3]? = some target ∧ target.type = adefType ∧ target.id = 5 ∧
    target.length 0 = some 4 := by
  have hrun : ((traceParser dynamicUse).bind fun v => (v.verifyAll [allocation]).map fun out =>
      (out.2, v.judge (.use 0x30001 1101))) = some ([none], some 2) := by decide +kernel
  have hnodes : ((traceParser dynamicUse).bind fun v => v.nodes[2]?.bind fun t : TraceLine =>
      v.nodes[3]?.map fun u : TraceLine => ((t.type, t.id, t.children[0]?), u.type, u.id, u.length 0)) =
        some ((ddefType, 4, some 3), adefType, 5, some 4) := by decide +kernel
  obtain ⟨v, hv, hrun⟩ := Option.bind_eq_some_iff.mp hrun
  obtain ⟨⟨v', cs⟩, hrun, heq⟩ := Option.map_eq_some_iff.mp hrun
  rw [hv, Option.bind_some] at hnodes
  obtain ⟨t, ht, hnodes⟩ := Option.bind_eq_some_iff.mp hnodes
  obtain ⟨u, hu, heq'⟩ := Option.map_eq_some_iff.mp hnodes
  simp only [Prod.mk.injEq] at heq heq'
  obtain ⟨rfl, hp⟩ := heq
  obtain ⟨⟨htype, hid, hchild⟩, hutype, huid, hulen⟩ := heq'
  exact ⟨v, v', t, u, hv, hrun, hp, ht, htype, hid, hchild, hu, hutype, huid, hulen⟩

theorem use_inside_allocation_reported : ∃ v v', traceParser dynamicUse = some v ∧
    v.verifyAll [allocation] = some (v', [none]) ∧
    v'.verify (.use 0x30001 1050) = some (v', some true) ∧ ¬ (1050 : ℤ) - 1000 > 100 := by
  have hrun : ((traceParser dynamicUse).bind fun v => (v.verifyAll [allocation]).bind fun out =>
      (out.1.verify (.use 0x30001 1050)).map fun out' => (out.2, out'.2)) =
        some ([none], some true) := by decide +kernel
  obtain ⟨v, hv, hrun⟩ := Option.bind_eq_some_iff.mp hrun
  obtain ⟨⟨v', cs⟩, hrun, hcheck⟩ := Option.bind_eq_some_iff.mp hrun
  obtain ⟨⟨v'', c⟩, hcheck, heq⟩ := Option.map_eq_some_iff.mp hcheck
  obtain ⟨rfl, rfl⟩ := Prod.mk.inj heq
  have hsame := eq_of_verify_use rfl hcheck
  rw [hsame] at hcheck
  exact ⟨v, v', hv, hrun, hcheck, by decide⟩

theorem use_behind_allocation_reported : ∃ v', (∃ v, traceParser dynamicUse = some v ∧
    v.verifyAll [allocation] = some (v', [none])) ∧
    v'.verify (.use 0x30001 1101) = some (v', some true) := by
  obtain ⟨v, v', t, u, hv, hrun, hplace, ht, htype, hid, hchild, hu, hutype, huid, hulen⟩ :=
    dynamicUse_parsed
  have hw : getIdVar 0x40001 = (t.id, (Entry.use 0x30001 1101).frame) := by
    rw [hid]
    decide
  obtain ⟨c, len, hcheck, -, hlen, hbase, hiff⟩ := ddef_check_iff hv hrun hplace ht htype hw hchild
    hu (Or.inl hutype) fun _ _ _ h => absurd h List.not_mem_nil
  have hlen₄ : u.length 0 = some len := by
    apply hlen
    intro w' addr l hmem
    rw [List.nil_append, List.mem_singleton] at hmem
    cases hmem
    rw [huid]
    decide
  have hbase₀ := hbase (by decide) fun _ _ h => absurd h List.not_mem_nil
  obtain rfl : 4 = len := Option.some.inj (hulen.symm.trans hlen₄)
  rw [hbase₀] at hiff
  have hc : c = true := (hiff.mpr (Or.inr ⟨by decide, by decide⟩)).mpr (by decide)
  rw [hc] at hcheck
  exact ⟨v', ⟨v, hv, hrun⟩, hcheck⟩

end Embedwatch.Verifier
