import Embedwatch.Library.Runs
import Embedwatch.Verifier.Checks

/-! Static objects at run time: where the last `DEF` has put one, and with the length that the static
trace gives it, the uses that lead to it are checked. -/

namespace Embedwatch.Verifier

open Library.PlainText

def isStatic (t : TraceLine) : Prop := t.type = adefType ∨ t.type = gdefType

structure StaticObject (v : State) (place : ℕ) (id : ℤ) (len : ℤ) : Prop where
  node : ∃ t, v.nodes[place]? = some t ∧ isStatic t ∧ t.length = onlyAt 0 len
  defMap : ∀ i, place ∈ v.defMap i ↔ i = id

def Located (v : State) (place : ℕ) (f : ℤ) (address : Option ℤ) : Prop :=
  ∃ t, v.nodes[place]? = some t ∧ t.address f = address

def Redefines (id f : ℤ) : Record → Prop
  | .defRec w _ => getIdVar w.toNat = (id, f)
  | .ddefRec w _ _ => (getIdVar w.toNat).1 = id
  | .useRec _ _ | .iuseRec _ _ _ => False

def Reallocates (id : ℤ) : Record → Prop
  | .ddefRec w _ _ => (getIdVar w.toNat).1 = id
  | .defRec _ _ | .useRec _ _ | .iuseRec _ _ _ => False

lemma redefines_of_reallocates {id f : ℤ} {r : Record} (h : Reallocates id r) :
    Redefines id f r := by
  cases r with
  | ddefRec => exact h
  | _ => exact h.elim

structure Parsed (v : State) : Prop where
  defMap : ∀ i p, p ∈ v.defMap i ↔
    ∃ t, v.nodes[p]? = some t ∧ occurs defType t.type = true ∧ t.id = i
  address : ∀ t ∈ v.nodes, t.address = fun _ => none
  length : ∀ t ∈ v.nodes, occurs defType t.type = true → ∃ len, t.length = onlyAt 0 len

lemma ofLine_spec {line : Text} {t : TraceLine} (h : TraceLine.ofLine line = some t) :
    t.address = (fun _ => none) ∧
      (occurs defType t.type = true → ∃ len, t.length = onlyAt 0 len) ∧
      (t.type = sdefType → ∃ off, t.offset = some off) := by
  rw [TraceLine.ofLine, TraceLine.ofValues] at h
  obtain ⟨id, -, h⟩ := Option.bind_eq_some_iff.mp h
  obtain ⟨type, -, h⟩ := Option.bind_eq_some_iff.mp h
  obtain ⟨_, -, h⟩ := Option.bind_eq_some_iff.mp h
  obtain ⟨father, -, h⟩ := Option.bind_eq_some_iff.mp h
  obtain ⟨info, -, h⟩ := Option.bind_eq_some_iff.mp h
  obtain ⟨cls, -, h⟩ := Option.bind_eq_some_iff.mp h
  obtain ⟨length, hlength, h⟩ := Option.bind_eq_some_iff.mp h
  obtain ⟨offset, hoffset, h⟩ := Option.bind_eq_some_iff.mp h
  obtain ⟨fields, -, h⟩ := Option.bind_eq_some_iff.mp h
  obtain ⟨fun_, -, h⟩ := Option.bind_eq_some_iff.mp h
  cases h
  refine ⟨rfl, ?_, ?_⟩
  · intro hdef
    change occurs defType type = true at hdef
    rw [attrIf, if_pos hdef, Option.map_eq_some_iff] at hlength
    obtain ⟨len, -, rfl⟩ := hlength
    exact ⟨len, rfl⟩
  · intro htype
    change type = sdefType at htype
    rw [attrIf, if_pos (decide_eq_true htype), Option.map_eq_some_iff] at hoffset
    obtain ⟨off, -, rfl⟩ := hoffset
    exact ⟨off, rfl⟩

lemma addLine_forall {P : TraceLine → Prop} (hchildren : ∀ t cs, P t → P { t with children := cs })
    {v v' : State} {tl : TraceLine} (hv : ∀ t ∈ v.nodes, P t) (htl : P tl)
    (h : v.addLine tl = some v') : ∀ t ∈ v'.nodes, P t := by
  have happ : ∀ t ∈ v.nodes ++ [tl], P t := by
    intro t ht
    rcases List.mem_append.mp ht with ht | ht
    · exact hv t ht
    · rwa [List.mem_singleton.mp ht]
  rw [State.addLine] at h
  split at h
  · cases h
    exact happ
  · split at h
    · cases h
      intro t ht
      obtain ⟨p, hp⟩ := List.mem_iff_getElem?.mp ht
      rw [List.getElem?_modify] at hp
      obtain ⟨u, hu, rfl⟩ := Option.map_eq_some_iff.mp hp
      have hmem := happ u (List.mem_of_getElem? hu)
      split
      · exact hchildren u _ hmem
      · exact hmem
    · cases h

theorem traceParser_forall {P : TraceLine → Prop}
    (hchildren : ∀ t cs, P t → P { t with children := cs })
    (hline : ∀ line t, TraceLine.ofLine line = some t → P t) {trace : Text} {v : State}
    (h : traceParser trace = some v) : ∀ t ∈ v.nodes, P t := by
  refine Library.Runs.foldlM_invariant (fun u : State => ∀ t ∈ u.nodes, P t) ?_ ?_ h
  · intro line _ u u' hu hadd
    obtain ⟨tl, htl, hadd⟩ := Option.bind_eq_some_iff.mp hadd
    exact addLine_forall hchildren hu (hline _ _ htl) hadd
  · intro t ht
    cases ht

def Indexed (v : State) : Prop :=
  ∀ i p, p ∈ v.defMap i ↔ ∃ t, v.nodes[p]? = some t ∧ occurs defType t.type = true ∧ t.id = i

def TraceLine.childless (t : TraceLine) : TraceLine := { t with children := [] }

lemma Indexed.congr {v v' : State} (hv : Indexed v) (hdefMap : v'.defMap = v.defMap)
    (hnodes : ∀ p : ℕ, v'.nodes[p]?.map TraceLine.childless = v.nodes[p]?.map TraceLine.childless) :
    Indexed v' := by
  have hsame : ∀ {u u' : State}, (∀ p : ℕ, u'.nodes[p]?.map TraceLine.childless =
      u.nodes[p]?.map TraceLine.childless) → ∀ {p : ℕ} {t'}, u'.nodes[p]? = some t' →
        ∃ t, u.nodes[p]? = some t ∧ t'.childless = t.childless := by
    intro u u' hu p t' ht'
    have hp := hu p
    rw [ht', Option.map_some] at hp
    obtain ⟨t, ht, heq⟩ := Option.map_eq_some_iff.mp hp.symm
    exact ⟨t, ht, heq.symm⟩
  intro i p
  rw [hdefMap, hv i p]
  constructor
  · rintro ⟨t, ht, htype, rfl⟩
    obtain ⟨t', ht', heq⟩ := hsame (fun p => (hnodes p).symm) ht
    exact ⟨t', ht', congrArg TraceLine.type heq ▸ htype, (congrArg TraceLine.id heq).symm⟩
  · rintro ⟨t', ht', htype, rfl⟩
    obtain ⟨t, ht, heq⟩ := hsame hnodes ht'
    exact ⟨t, ht, congrArg TraceLine.type heq ▸ htype, (congrArg TraceLine.id heq).symm⟩

lemma Indexed.append {v v' : State} (hv : Indexed v) {tl : TraceLine}
    (hnodes : v'.nodes = v.nodes ++ [tl])
    (hdefMap : v'.defMap = if occurs defType tl.type then
      Function.update v.defMap tl.id (v.defMap tl.id ++ [v.nodes.length]) else v.defMap) :
    Indexed v' := by
  have hmem : ∀ i p, p ∈ v'.defMap i ↔
      p ∈ v.defMap i ∨ p = v.nodes.length ∧ occurs defType tl.type = true ∧ tl.id = i := by
    intro i p
    rw [hdefMap]
    by_cases hdef : occurs defType tl.type = true
    · simp only [hdef, if_true, Function.update_apply, true_and]
      by_cases hi : i = tl.id
      · subst hi
        simp only [if_true, List.mem_append, List.mem_singleton, and_true]
      · simp only [hi, if_false, Ne.symm hi, and_false, or_false]
    · simp only [hdef, if_false, false_and, and_false, or_false, Bool.false_eq_true]
  intro i p
  rw [hmem, hv i p, hnodes, List.getElem?_append]
  rcases Nat.lt_trichotomy p v.nodes.length with hp | rfl | hp
  · simp only [hp, if_true, hp.ne, false_and, or_false]
  · simp only [lt_irrefl, if_false, Nat.sub_self, List.getElem?_eq_none le_rfl, reduceCtorEq,
      false_and, exists_false, false_or, true_and, List.getElem?_cons_zero, Option.some.injEq,
      exists_eq_left']
  · have hsub : ¬ p - v.nodes.length < [tl].length := by
      rw [List.length_singleton]
      omega
    simp only [hp.not_gt, if_false, hp.ne', false_and, or_false,
      List.getElem?_eq_none hp.le, List.getElem?_eq_none (not_lt.mp hsub)]

lemma Indexed.addLine {v v' : State} (hv : Indexed v) {tl : TraceLine}
    (h : v.addLine tl = some v') : Indexed v' := by
  rw [State.addLine] at h
  split at h
  · cases h
    exact hv.append rfl rfl
  · split at h
    · cases h
      have happ : Indexed ⟨v.nodes ++ [tl], _, v.staticTrace⟩ := hv.append rfl rfl
      refine happ.congr rfl ?_
      intro p
      rw [List.getElem?_modify]
      change _ = ((v.nodes ++ [tl])[p]?).map TraceLine.childless
      cases (v.nodes ++ [tl])[p]? with
      | none => rfl
      | some t =>
        simp only [Option.map_eq_map, Option.map_some, Option.some.injEq]
        split <;> rfl
    · cases h

theorem traceParser_indexed {trace : Text} {v : State} (h : traceParser trace = some v) :
    Indexed v := by
  refine Library.Runs.foldlM_invariant Indexed ?_ ?_ h
  · intro line _ u u' hu hadd
    obtain ⟨tl, -, hadd⟩ := Option.bind_eq_some_iff.mp hadd
    exact hu.addLine hadd
  · intro i p
    simp [State.empty]

theorem traceParser_parsed {trace : Text} {v : State} (h : traceParser trace = some v) :
    Parsed v where
  defMap := traceParser_indexed h
  address := traceParser_forall (fun _ _ ht => ht) (fun _ _ hline => (ofLine_spec hline).1) h
  length := traceParser_forall (fun _ _ ht => ht) (fun _ _ hline => (ofLine_spec hline).2.1) h

lemma isStatic.occurs {t : TraceLine} (h : isStatic t) :
    occurs defType t.type = true ∧ t.type ≠ sdefType ∧ t.type ≠ ddefType := by
  rcases h with h | h <;> rw [h] <;> decide

theorem Parsed.staticObject {v : State} (hv : Parsed v) {place : ℕ} {t : TraceLine}
    (ht : v.nodes[place]? = some t) (hstatic : isStatic t) :
    ∃ len, t.length 0 = some len ∧ StaticObject v place t.id len := by
  have hdef := hstatic.occurs.1
  obtain ⟨len, hlen⟩ := hv.length t (List.mem_of_getElem? ht) hdef
  refine ⟨len, ?_, ⟨t, ht, hstatic, hlen⟩, ?_⟩
  · rw [hlen, onlyAt, Function.update_self]
  · intro i
    rw [hv.defMap, ht]
    constructor
    · rintro ⟨t', ht', -, rfl⟩
      rw [Option.some.inj ht']
    · rintro rfl
      exact ⟨t, rfl, hdef, rfl⟩

lemma getElem?_modifyDefs {v v' : State} {i : ℤ} {f : TraceLine → TraceLine}
    (h : v.modifyDefs i f = some v') (p : ℕ) :
    v'.nodes[p]? = (v.nodes[p]?).map fun t => if p ∈ v.defMap i then f t else t := by
  rw [State.modifyDefs] at h
  split at h
  · cases h
  · cases h
    rw [List.getElem?_mapIdx]

namespace StaticObject

variable {v v' : State} {place : ℕ} {id len : ℤ} {r : Record} {c : Option Bool}

theorem step (obj : StaticObject v place id len) (hr : ¬ Reallocates id r)
    (h : v.verifyRecord r = some (v', c)) : StaticObject v' place id len := by
  obtain ⟨t, ht, hstatic, hlen⟩ := obj.node
  refine ⟨?_, ?_⟩
  · cases r with
    | defRec w addr =>
      obtain ⟨v₁, h₁, h⟩ := Option.bind_eq_some_iff.mp h
      cases h
      rw [getElem?_modifyDefs h₁ place, ht, Option.map_some]
      split
      · exact ⟨_, rfl, hstatic, hlen⟩
      · exact ⟨t, rfl, hstatic, hlen⟩
    | ddefRec w addr size =>
      obtain ⟨v₁, h₁, h⟩ := Option.bind_eq_some_iff.mp h
      cases h
      have hnot : place ∉ v.defMap (getIdVar w.toNat).1 := fun hp => hr ((obj.defMap _).mp hp)
      rw [getElem?_modifyDefs h₁ place, ht, Option.map_some, if_neg hnot]
      exact ⟨t, rfl, hstatic, hlen⟩
    | useRec =>
      obtain rfl := eq_of_verifyRecord_use rfl h
      exact ⟨t, ht, hstatic, hlen⟩
    | iuseRec =>
      obtain rfl := eq_of_verifyRecord_use rfl h
      exact ⟨t, ht, hstatic, hlen⟩
  · intro i
    rw [(verifyRecord_skeleton h).defMap]
    exact obj.defMap i

lemma located_step (obj : StaticObject v place id len) {f : ℤ} {address : Option ℤ}
    (hr : ¬ Redefines id f r) (h : v.verifyRecord r = some (v', c))
    (hl : Located v place f address) : Located v' place f address := by
  obtain ⟨t, ht, haddress⟩ := hl
  cases r with
  | defRec w addr =>
    obtain ⟨v₁, h₁, h⟩ := Option.bind_eq_some_iff.mp h
    cases h
    rw [Located, getElem?_modifyDefs h₁ place, ht, Option.map_some]
    split
    · rename_i hp
      have hf : f ≠ (getIdVar w.toNat).2 := by
        intro hf
        exact hr (Prod.ext ((obj.defMap _).mp hp) hf.symm)
      exact ⟨_, rfl, (Function.update_of_ne hf _ _).trans haddress⟩
    · exact ⟨t, rfl, haddress⟩
  | ddefRec w addr size =>
    obtain ⟨v₁, h₁, h⟩ := Option.bind_eq_some_iff.mp h
    cases h
    have hnot : place ∉ v.defMap (getIdVar w.toNat).1 := fun hp => hr ((obj.defMap _).mp hp)
    rw [Located, getElem?_modifyDefs h₁ place, ht, Option.map_some, if_neg hnot]
    exact ⟨t, rfl, haddress⟩
  | useRec =>
    obtain rfl := eq_of_verifyRecord_use rfl h
    exact ⟨t, ht, haddress⟩
  | iuseRec =>
    obtain rfl := eq_of_verifyRecord_use rfl h
    exact ⟨t, ht, haddress⟩

lemma located_def (obj : StaticObject v place id len) {f : ℤ} {w addr : Word}
    (hid : getIdVar w.toNat = (id, f)) (h : v.verifyRecord (.defRec w addr) = some (v', c)) :
    Located v' place f (some addr.toNat) := by
  obtain ⟨t, ht, -⟩ := obj.node
  obtain ⟨v₁, h₁, h⟩ := Option.bind_eq_some_iff.mp h
  cases h
  have hp : place ∈ v.defMap (getIdVar w.toNat).1 := (obj.defMap _).mpr (congrArg Prod.fst hid)
  have hf : (getIdVar w.toNat).2 = f := congrArg Prod.snd hid
  rw [Located, getElem?_modifyDefs h₁ place, ht, Option.map_some, if_pos hp]
  refine ⟨_, rfl, ?_⟩
  rw [← hf]
  exact Function.update_self ..

lemma run {rs : List Record} {cs : List (Option Bool)} (obj : StaticObject v place id len)
    (hrs : ∀ r ∈ rs, ¬ Reallocates id r) (h : v.verifyRecords rs = some (v', cs)) :
    StaticObject v' place id len := by
  apply verifyRecords_induction (fun u => StaticObject u place id len) _ _ obj hrs h
  intro u r u' c hu hr hstep
  exact hu.step hr hstep

lemma located_run {rs : List Record} {cs : List (Option Bool)} (obj : StaticObject v place id len)
    {f : ℤ} {address : Option ℤ} (hrs : ∀ r ∈ rs, ¬ Redefines id f r)
    (h : v.verifyRecords rs = some (v', cs)) (hl : Located v place f address) :
    Located v' place f address := by
  refine (verifyRecords_induction
    (fun u => StaticObject u place id len ∧ Located u place f address) _ ?_ ⟨obj, hl⟩ hrs h).2
  rintro u r u' c ⟨hu, hloc⟩ hr hstep
  exact ⟨hu.step (fun hd => hr (redefines_of_reallocates hd)) hstep,
    hu.located_step hr hstep hloc⟩

lemma check (obj : StaticObject v place id len) (hu : r.isUse = true)
    (hplace : v.place r = some place) {begin : ℤ}
    (hbegin : Located v place (frameOf r) (some begin) ∨
      Located v place (frameOf r) none ∧ Located v place 0 (some begin)) :
    v.verifyRecord r = some (v, some (decide ((addrOf r).toNat - begin > len))) := by
  obtain ⟨t, ht, hstatic, hlen⟩ := obj.node
  obtain ⟨hdef, hsdef, hddef⟩ := hstatic.occurs
  have haddress : (t.address (frameOf r)).or (t.address 0) = some begin := by
    have hsame : ∀ {f a}, Located v place f a → t.address f = a := by
      rintro f a ⟨t', ht', rfl⟩
      rw [Option.some.inj (ht.symm.trans ht')]
    rcases hbegin with h | ⟨h, h₀⟩
    · rw [hsame h]
      rfl
    · rw [hsame h, hsame h₀]
      rfl
  have htarget : v.target place = some t := by
    simp only [State.target, ht, Option.bind_eq_bind, Option.bind_some, State.deref, hddef,
      if_false]
  have hgetBase : t.getBase (frameOf r) = some begin := by
    simp only [TraceLine.getBase, hdef, if_true, haddress, hsdef, if_false]
  have hgetLen : t.getLen (frameOf r) = some len := by
    have hzero : t.length 0 = some len := by rw [hlen, onlyAt, Function.update_self]
    have hall : t.length (frameOf r) = none ∨ t.length (frameOf r) = some len := by
      rw [hlen, onlyAt]
      by_cases hg : frameOf r = 0
      · rw [hg, Function.update_self]
        exact Or.inr rfl
      · rw [Function.update_of_ne hg]
        exact Or.inl rfl
    rw [TraceLine.getLen, if_pos hdef, hzero]
    rcases hall with h | h <;> rw [h] <;> rfl
  rw [verifyRecord_use hu, hplace, Option.bind_some, htarget, Option.bind_some]
  simp only [TraceLine.checkUse, hgetBase, hgetLen, Option.bind_eq_bind, Option.bind_some,
    Option.map_some]

end StaticObject

structure Attributed (v : State) (place : ℕ) (pre : List Record) (defn : Word) (rs : List Record)
    (use : Record) : Prop where
  object : ∃ t, v.nodes[place]? = some t ∧ isStatic t ∧ t.id = (getIdVar defn.toNat).1
  isUse : use.isUse = true
  place : v.place use = some place
  allocated : ∀ r ∈ pre, ¬ Reallocates (getIdVar defn.toNat).1 r
  defined : ∀ r ∈ rs, ¬ Redefines (getIdVar defn.toNat).1 (getIdVar defn.toNat).2 r
  frame : frameOf use = (getIdVar defn.toNat).2 ∨ (getIdVar defn.toNat).2 = 0 ∧
    ∀ r ∈ pre ++ rs, ¬ Redefines (getIdVar defn.toNat).1 (frameOf use) r

theorem Attributed.check {v v' : State} {place : ℕ} {pre rs : List Record} {defn base : Word}
    {use : Record} (hattr : Attributed v place pre defn rs use) (hv : Parsed v)
    {cs : List (Option Bool)}
    (h : v.verifyRecords (pre ++ .defRec defn base :: rs) = some (v', cs)) :
    ∃ t len, v.nodes[place]? = some t ∧ t.length 0 = some len ∧ v'.verifyRecord use =
      some (v', some (decide (((addrOf use).toNat : ℤ) - base.toNat > len))) := by
  obtain ⟨t, ht, hstatic, hid⟩ := hattr.object
  obtain ⟨len, hlen, obj⟩ := hv.staticObject ht hstatic
  refine ⟨t, len, ht, hlen, ?_⟩
  rw [hid] at obj
  have hskel : SameSkeleton v v' :=
    verifyRecords_induction (SameSkeleton v) (fun _ => True)
      (fun _ _ _ _ hv _ hstep => hv.trans (verifyRecord_skeleton hstep))
      (SameSkeleton.refl v) (fun _ _ => trivial) h
  have hplace : v'.place use = some place := (hskel.place_eq use).trans hattr.place
  rw [verifyRecords_append, Option.bind_eq_some_iff] at h
  obtain ⟨⟨v₁, cs₁⟩, hpre, h⟩ := h
  obtain ⟨out, h, heq⟩ := Option.map_eq_some_iff.mp h
  obtain ⟨⟨v₂, c₂⟩, hdef, h⟩ := Option.bind_eq_some_iff.mp h
  obtain ⟨⟨v₃, cs₃⟩, hrs, h⟩ := Option.bind_eq_some_iff.mp h
  cases h
  cases heq
  have obj₁ := obj.run hattr.allocated hpre
  have obj₂ := obj₁.step id hdef
  have obj₃ := obj₂.run (fun r hr hd => hattr.defined r hr (redefines_of_reallocates hd)) hrs
  have hloc := obj₂.located_run hattr.defined hrs (obj₁.located_def rfl hdef)
  apply obj₃.check hattr.isUse hplace
  rcases hattr.frame with hf | ⟨hg, hnone⟩
  · rw [hf]
    exact Or.inl hloc
  · rw [hg] at hloc
    by_cases hz : frameOf use = 0
    · rw [hz]
      exact Or.inl hloc
    · have hother : ¬ Redefines (getIdVar defn.toNat).1 (frameOf use) (.defRec defn base) :=
        fun he => hz ((congrArg Prod.snd he).symm.trans hg)
      have hfresh : Located v place (frameOf use) none :=
        ⟨t, ht, congrFun (hv.address t (List.mem_of_getElem? ht)) _⟩
      have h₁ := obj.located_run (fun r hr => hnone r (List.mem_append_left rs hr)) hpre hfresh
      have h₂ := obj₁.located_step hother hdef h₁
      have h₃ := obj₂.located_run (fun r hr => hnone r (List.mem_append_right pre hr)) hrs h₂
      exact Or.inr ⟨h₃, hloc⟩

end Embedwatch.Verifier
