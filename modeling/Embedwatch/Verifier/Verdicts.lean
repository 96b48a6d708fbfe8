import Embedwatch.Library.Runs
import Embedwatch.Verifier.CheckedUses

/-! The verdict on a use after any trace, from what the static trace says of the definition it leads to
and from the entries before it. -/

namespace Embedwatch.Verifier

open Library.PlainText

def State.object (v : State) (t : TraceLine) : Option TraceLine :=
  if t.type = ddefType then t.children[0]?.bind fun p => v.nodes[p]? else some t

def TraceLine.shift (t : TraceLine) : ℤ := if t.type = sdefType then t.offset.getD 0 else 0

def addressOf (t : TraceLine) (f : ℤ) (es : List Entry) : Option ℤ :=
  (lastOf (Entry.address t.id f) es).or (lastOf (Entry.address t.id 0) es)

def DynamicOnly (v : State) (es : List Entry) : Prop :=
  ∀ w addr len, Entry.ddefn w addr len ∈ es → ∀ t ∈ v.nodes, occurs defType t.type = true →
    t.id = (getIdVar w).1 → t.type = ddefType

theorem traceParser_offset {trace : Text} {v : State} (h : traceParser trace = some v) :
    ∀ t ∈ v.nodes, t.type = sdefType → ∃ off, t.offset = some off :=
  traceParser_forall (fun _ _ ht => ht) (fun _ _ hline => (ofLine_spec hline).2.2) h

variable {v v' : State} {es : List Entry} {cs : List (Option Bool)} {place : ℕ} {t o : TraceLine}

lemma object_mem (ht : v.nodes[place]? = some t) (ho : v.object t = some o) : o ∈ v.nodes := by
  rw [State.object] at ho
  split at ho
  · obtain ⟨p, -, ho⟩ := Option.bind_eq_some_iff.mp ho
    exact List.mem_of_getElem? ho
  · obtain rfl := Option.some.inj ho
    exact List.mem_of_getElem? ht

lemma target_after (hv : Parsed v) (hrun : v.verifyAll es = some (v', cs))
    (ht : v.nodes[place]? = some t) (hdef : occurs defType t.type = true) (ho : v.object t = some o)
    (hodef : occurs defType o.type = true) : ∃ u, v'.target place = some u ∧ u.type = o.type ∧
      u.offset = o.offset ∧
      (∀ f, u.address f = (lastOf (Entry.address t.id f) es).or (t.address f)) ∧
      ∀ f, u.length f = (lastOf (Entry.length o.id f) es).or (o.length f) := by
  obtain ⟨t', ht', hafter⟩ := State.verifyAll_after hv.mapped ht hdef hrun
  obtain ⟨-, htype, hchildren, hoffset⟩ := TraceLine.of_skeleton hafter.skeleton
  rw [State.object] at ho
  rw [State.target, ht', Option.bind_eq_bind, Option.bind_some, State.deref, htype]
  by_cases hdyn : t.type = ddefType
  · rw [if_pos hdyn] at ho ⊢
    obtain ⟨p, hp, ho⟩ := Option.bind_eq_some_iff.mp ho
    obtain ⟨u, hu, huafter⟩ := State.verifyAll_after hv.mapped ho hodef hrun
    obtain ⟨-, hutype, -, huoffset⟩ := TraceLine.of_skeleton huafter.skeleton
    refine ⟨{ u with address := t'.address }, ?_, hutype, huoffset, hafter.address, huafter.length⟩
    rw [hchildren, hp, Option.bind_eq_bind, Option.bind_some, hu]
    rfl
  · rw [if_neg hdyn] at ho ⊢
    obtain rfl := Option.some.inj ho
    exact ⟨t', rfl, htype, hoffset, hafter.address, hafter.length⟩

def baseFrom (o : TraceLine) (address : Option ℤ) : ℤ :=
  match address with
  | some a => a + o.shift
  | none => 0

lemma baseFrom_congr {u o : TraceLine} (h : u.shift = o.shift) (address : Option ℤ) :
    baseFrom u address = baseFrom o address := by
  cases address with
  | none => rfl
  | some a => exact congrArg (a + ·) h

lemma onlyAt_or (len f : ℤ) : (onlyAt 0 len f).or (onlyAt 0 len 0) = some len := by
  by_cases hf : f = 0
  · rw [hf, onlyAt, Function.update_self]
    rfl
  · rw [onlyAt, Function.update_of_ne hf, Function.update_self]
    rfl

lemma lastOf_length_none {id f : ℤ} (h : ∀ w addr l, Entry.ddefn w addr l ∈ es → (getIdVar w).1 ≠ id) :
    lastOf (Entry.length id f) es = none := by
  apply lastOf_eq_none
  intro e he
  cases e with
  | ddefn w addr l => exact if_neg fun hid => h w addr l he hid.1
  | defn | use | iuse | other => rfl

lemma getBase_of_offset {u : TraceLine} (hdef : occurs defType u.type = true)
    (hoff : u.type = sdefType → ∃ off, u.offset = some off) (f : ℤ) :
    u.getBase f = some (baseFrom u ((u.address f).or (u.address 0))) := by
  rw [TraceLine.getBase, if_pos hdef]
  cases (u.address f).or (u.address 0) with
  | none => rfl
  | some a =>
    by_cases htype : u.type = sdefType
    · obtain ⟨off, hoff⟩ := hoff htype
      simp only [htype, if_true, hoff, baseFrom, TraceLine.shift]
      rfl
    · simp only [htype, if_false, baseFrom, TraceLine.shift, add_zero]

theorem verify_verdict {ztrace : Text} (hparse : traceParser ztrace = some v)
    (hrun : v.verifyAll es = some (v', cs)) {use : Entry} (hplace : v.judge use = some place)
    (ht : v.nodes[place]? = some t) (hdef : occurs defType t.type = true) (ho : v.object t = some o)
    (hodef : occurs defType o.type = true) : ∃ len,
      ((∀ w addr l, Entry.ddefn w addr l ∈ es → (getIdVar w).1 ≠ o.id) → o.length 0 = some len) ∧
      v'.verify use = some (v', some
        (decide (use.endAddr - baseFrom o (addressOf t use.frame es) > len))) := by
  have hv := traceParser_parsed hparse
  have huse := State.isUse_of_judge hplace
  have homem : o ∈ v.nodes := object_mem ht ho
  obtain ⟨len₀, hlen₀⟩ := hv.length o homem hodef
  obtain ⟨u, hu, htype, hoffset, haddress, hlength⟩ := target_after hv hrun ht hdef ho hodef
  have hbase : u.getBase use.frame = some (baseFrom o (addressOf t use.frame es)) := by
    have hudef : occurs defType u.type = true := by rw [htype]; exact hodef
    have huoff : u.type = sdefType → ∃ off, u.offset = some off := by
      rw [htype, hoffset]
      exact traceParser_offset hparse o homem
    have hshift : u.shift = o.shift := by rw [TraceLine.shift, TraceLine.shift, htype, hoffset]
    rw [getBase_of_offset hudef huoff, haddress, haddress, hv.address_none ht, hv.address_none ht,
      Option.or_none, Option.or_none, baseFrom_congr hshift]
    rfl
  obtain ⟨len, hlen, hsame⟩ : ∃ len, u.getLen use.frame = some len ∧
      ((∀ w addr l, Entry.ddefn w addr l ∈ es → (getIdVar w).1 ≠ o.id) → o.length 0 = some len) := by
    rw [TraceLine.getLen, htype, if_pos hodef, hlength, hlength, hlen₀]
    by_cases hno : ∀ w addr l, Entry.ddefn w addr l ∈ es → (getIdVar w).1 ≠ o.id
    · refine ⟨len₀, ?_, fun _ => by rw [onlyAt, Function.update_self]⟩
      rw [lastOf_length_none hno, lastOf_length_none hno]
      exact onlyAt_or len₀ use.frame
    · have hsome : ∃ len, ((lastOf (Entry.length o.id use.frame) es).or (onlyAt 0 len₀ use.frame)).or
          ((lastOf (Entry.length o.id 0) es).or (onlyAt 0 len₀ 0)) = some len := by
        have h₀ : onlyAt 0 len₀ 0 = some len₀ := Function.update_self ..
        rw [h₀]
        cases lastOf (Entry.length o.id use.frame) es with
        | some len => exact ⟨len, rfl⟩
        | none =>
          cases onlyAt 0 len₀ use.frame with
          | some len => exact ⟨len, rfl⟩
          | none => cases lastOf (Entry.length o.id 0) es <;> exact ⟨_, rfl⟩
      obtain ⟨len, hlen⟩ := hsome
      exact ⟨len, hlen, fun h => absurd h hno⟩
  refine ⟨len, hsame, ?_⟩
  rw [verify_use huse, (State.verifyAll_skeleton hrun).judge_eq, hplace, Option.bind_some, hu,
    Option.bind_some, TraceLine.checkUse, hbase, hlen]
  rfl

def Entry.defAddress (id f : ℤ) : Entry → Option ℤ
  | .defn w addr => if getIdVar w = (id, f) then some addr else none
  | .ddefn _ _ _ | .use _ _ | .iuse _ _ _ | .other => none

def Entry.isDefOf (id : ℤ) : Entry → Bool
  | .defn w _ => (getIdVar w).1 = id
  | .ddefn _ _ _ | .use _ _ | .iuse _ _ _ | .other => false

def latestDef (id f : ℤ) (es : List Entry) : Option ℤ :=
  (lastOf (Entry.defAddress id f) es).or (lastOf (Entry.defAddress id 0) es)

def CopiesAgree (v : State) : Prop :=
  ∀ t ∈ v.nodes, ∀ t' ∈ v.nodes, occurs defType t.type = true → occurs defType t'.type = true →
    t.id = t'.id → ({ t with father := none, children := [] } : TraceLine) =
      { t' with father := none, children := [] }

lemma lastOf_congr {given given' : Entry → Option ℤ} (h : ∀ e ∈ es, given e = given' e) :
    lastOf given es = lastOf given' es := by
  induction es with
  | nil => rfl
  | cons e es ih =>
    rw [lastOf_cons, lastOf_cons, h e List.mem_cons_self, ih fun e' he' => h e' (List.mem_cons_of_mem e he')]

lemma lastOf_filter {given : Entry → Option ℤ} {p : Entry → Bool}
    (h : ∀ e, p e = false → given e = none) : lastOf given (es.filter p) = lastOf given es := by
  induction es with
  | nil => rfl
  | cons e es ih =>
    rw [lastOf_cons]
    cases hp : p e with
    | true => rw [List.filter_cons_of_pos hp, lastOf_cons, ih]
    | false =>
      rw [List.filter_cons_of_neg (by rw [hp]; exact Bool.false_ne_true), ih, h e hp, Option.or_none]

lemma latestDef_filter (id f : ℤ) (es : List Entry) :
    latestDef id f (es.filter (Entry.isDefOf id)) = latestDef id f es := by
  have hnone : ∀ f e, Entry.isDefOf id e = false → Entry.defAddress id f e = none := by
    intro f e he
    cases e with
    | defn w addr =>
      have hid : (getIdVar w).1 ≠ id := of_decide_eq_false he
      exact if_neg fun h => hid (congrArg Prod.fst h)
    | _ => rfl
  rw [latestDef, lastOf_filter (hnone f), lastOf_filter (hnone 0), latestDef]

lemma DynamicOnly.addressOf_eq (hdyn : DynamicOnly v es) (ht : t ∈ v.nodes)
    (hdef : occurs defType t.type = true) (hstatic : t.type ≠ ddefType) (f : ℤ) :
    addressOf t f es = latestDef t.id f es := by
  have hsame : ∀ f, ∀ e ∈ es, Entry.address t.id f e = Entry.defAddress t.id f e := by
    intro f e he
    cases e with
    | ddefn w addr len =>
      exact if_neg fun hid => hstatic (hdyn w addr len he t ht hdef hid.1.symm)
    | _ => rfl
  rw [addressOf, lastOf_congr (hsame f), lastOf_congr (hsame 0), latestDef]

lemma verify_static {ztrace : Text} (hparse : traceParser ztrace = some v) (hdyn : DynamicOnly v es)
    (hrun : v.verifyAll es = some (v', cs)) {use : Entry} (hplace : v.judge use = some place)
    (ht : v.nodes[place]? = some t) (hdef : occurs defType t.type = true) (hstatic : t.type ≠ ddefType)
    {b : ℤ} (hb : latestDef t.id use.frame es = some b) : ∃ len, t.length 0 = some len ∧
      v'.verify use = some (v', some (decide (use.endAddr - (b + t.shift) > len))) := by
  have hmem := List.mem_of_getElem? ht
  have ho : v.object t = some t := if_neg hstatic
  obtain ⟨len, hlen, hverify⟩ := verify_verdict hparse hrun hplace ht hdef ho hdef
  rw [hdyn.addressOf_eq hmem hdef hstatic, hb] at hverify
  refine ⟨len, hlen ?_, hverify⟩
  intro w addr l hw hid
  exact hstatic (hdyn w addr l hw t hmem hdef hid.symm)

theorem use_verdict {ztrace : Text} (hparse : traceParser ztrace = some v) (hcopies : CopiesAgree v)
    (hdyn : DynamicOnly v es) (hrun : v.verifyAll es = some (v', cs)) {use : Entry}
    (hplace : v.judge use = some place) (ht : v.nodes[place]? = some t)
    (hdef : occurs defType t.type = true) (hstatic : t.type ≠ ddefType) {b : ℤ}
    (hb : latestDef t.id use.frame es = some b) :
    (∃ len, t.length 0 = some len ∧
      v'.verify use = some (v', some (decide (use.endAddr - (b + t.shift) > len)))) ∧
    (∀ use' place' t', v.judge use' = some place' → v.nodes[place']? = some t' →
      occurs defType t'.type = true → t'.id = t.id → use'.frame = use.frame →
      use'.endAddr = use.endAddr → v'.verify use' = v'.verify use) ∧
    ∀ es₂ v₂ cs₂, DynamicOnly v es₂ → v.verifyAll es₂ = some (v₂, cs₂) →
      es₂.filter (Entry.isDefOf t.id) = es.filter (Entry.isDefOf t.id) →
      (v₂.verify use).map Prod.snd = (v'.verify use).map Prod.snd := by
  obtain ⟨len, hlen, hverify⟩ := verify_static hparse hdyn hrun hplace ht hdef hstatic hb
  refine ⟨⟨len, hlen, hverify⟩, ?_, ?_⟩
  · intro use' place' t' hplace' ht' hdef' hid hframe hend
    have hsame := hcopies t' (List.mem_of_getElem? ht') t (List.mem_of_getElem? ht) hdef' hdef hid
    have htype := congrArg TraceLine.type hsame
    change t'.type = t.type at htype
    have hlength := congrArg TraceLine.length hsame
    change t'.length = t.length at hlength
    have hoffset := congrArg TraceLine.offset hsame
    change t'.offset = t.offset at hoffset
    have hb' : latestDef t'.id use'.frame es = some b := by rw [hid, hframe, hb]
    obtain ⟨len', hlen', hverify'⟩ :=
      verify_static hparse hdyn hrun hplace' ht' hdef' (by rw [htype]; exact hstatic) hb'
    have hlens : len' = len := by
      rw [hlength, hlen] at hlen'
      exact (Option.some.inj hlen').symm
    rw [hverify', hverify, hend, hlens, TraceLine.shift, TraceLine.shift, htype, hoffset]
  · intro es₂ v₂ cs₂ hdyn₂ hrun₂ hfilter
    have hb₂ : latestDef t.id use.frame es₂ = some b := by
      rw [← latestDef_filter, hfilter, latestDef_filter, hb]
    obtain ⟨len₂, hlen₂, hverify₂⟩ := verify_static hparse hdyn₂ hrun₂ hplace ht hdef hstatic hb₂
    obtain rfl : len₂ = len := Option.some.inj (hlen₂.symm.trans hlen)
    rw [hverify₂, hverify]
    rfl

theorem oneUse_verdict : ∃ v v' len, traceParser oneUse = some v ∧
    v.verifyAll [.defn 0x40001 1000] = some (v', [none]) ∧
    v'.verify (.use 0x30001 1005) = some (v', some (decide (1005 - (1000 + 0) > (len : ℤ)))) := by
  have hrun : ((traceParser oneUse).bind fun v => (v.verifyAll [.defn 0x40001 1000]).map fun out =>
      (out.2, v.judge (.use 0x30001 1005))) = some ([none], some 2) := by decide +kernel
  have hnodes : ((traceParser oneUse).bind fun v => v.nodes[2]?.map fun t =>
      ((t.id, t.type, t.shift), (v.nodes.filter fun t => occurs defType t.type).length)) =
        some ((4, adefType, 0), 1) := by decide +kernel
  obtain ⟨v, hv, hrun⟩ := Option.bind_eq_some_iff.mp hrun
  obtain ⟨⟨v', cs⟩, hrun, heq⟩ := Option.map_eq_some_iff.mp hrun
  rw [hv, Option.bind_some] at hnodes
  obtain ⟨t, ht, heq'⟩ := Option.map_eq_some_iff.mp hnodes
  simp only [Prod.mk.injEq] at heq heq'
  obtain ⟨rfl, hplace⟩ := heq
  obtain ⟨⟨hid, htype, hshift⟩, hone⟩ := heq'
  obtain ⟨x, hx⟩ := List.length_eq_one_iff.mp hone
  have hcopies : CopiesAgree v := by
    intro t₁ h₁ t₂ h₂ hdef₁ hdef₂ _
    have hmem₁ : t₁ ∈ v.nodes.filter fun t => occurs defType t.type := List.mem_filter.mpr ⟨h₁, hdef₁⟩
    have hmem₂ : t₂ ∈ v.nodes.filter fun t => occurs defType t.type := List.mem_filter.mpr ⟨h₂, hdef₂⟩
    rw [hx] at hmem₁ hmem₂
    rw [List.mem_singleton.mp hmem₁, List.mem_singleton.mp hmem₂]
  have hdyn : DynamicOnly v [.defn 0x40001 1000] := by
    intro w addr len hw
    simp at hw
  have hlast : latestDef 4 1 [.defn 0x40001 1000] = some 1000 := by decide +kernel
  have hb : latestDef t.id (Entry.use 0x30001 1005).frame [.defn 0x40001 1000] = some 1000 := by
    rw [hid]
    exact hlast
  have hdef : occurs defType t.type = true := by rw [htype]; decide
  have hstatic : t.type ≠ ddefType := by rw [htype]; decide
  obtain ⟨⟨len, -, hverify⟩, -⟩ := use_verdict hv hcopies hdyn hrun hplace ht hdef hstatic hb
  rw [hshift] at hverify
  exact ⟨v, v', len, hv, hrun, hverify⟩

def State.baseChildren (v : State) (u : TraceLine) : List ℕ :=
  u.children.filter fun p => (v.nodes[p]?.bind TraceLine.cls) = some baseCls

def State.bounds (v : State) (f : ℤ) (es : List Entry) (p : ℕ) : Option (ℤ × ℤ) := do
  let t ← v.nodes[p]?
  let o ← v.object t
  let a ← addressOf t f es
  let len ← o.length 0
  some (a + o.shift, a + o.shift + len)

def State.Inside (v : State) (u : TraceLine) (f : ℤ) (es : List Entry) (e : ℤ) : Prop :=
  ∃ q ∈ v.baseChildren u, ∃ b end_, v.bounds f es q = some (b, end_) ∧ b < e ∧ e ≤ end_

lemma usePlace_of_base {id : ℤ} {u : TraceLine} {p p' : ℕ} {ps : List ℕ}
    (hu : v.nodes.find? (fun x => x.id = id) = some u) (hbase : v.baseChildren u = p :: p' :: ps) :
    v.usePlace id = some p := by
  have hlength : 1 < u.children.length := by
    have hle := List.length_filter_le (fun p => (v.nodes[p]?.bind TraceLine.cls) = some baseCls) u.children
    have hlist : (v.baseChildren u).length ≤ u.children.length := hle
    rw [hbase, List.length_cons, List.length_cons] at hlist
    omega
  obtain ⟨c, children, hchildren⟩ := List.exists_cons_of_length_pos (Nat.lt_of_succ_lt hlength)
  have hfind : u.children.find? (fun p => (v.nodes[p]?.bind TraceLine.cls) = some baseCls) = some p := by
    rw [← List.head?_filter]
    change (v.baseChildren u).head? = some p
    rw [hbase]
    rfl
  have hfirst : u.children[0]? = some c := by rw [hchildren]; rfl
  rw [State.usePlace, hu]
  simp only [Option.bind_eq_bind, Option.bind_some, hfirst, gt_iff_lt, hlength, if_true]
  exact hfind

theorem multi_object_use_iff {ztrace : Text} (hparse : traceParser ztrace = some v)
    (hdyn : DynamicOnly v es) (hrun : v.verifyAll es = some (v', cs)) {w e : ℤ} {u : TraceLine}
    (hu : v.nodes.find? (fun x => x.id = (getIdVar w).1) = some u) {p p' : ℕ} {ps : List ℕ}
    (hbase : v.baseChildren u = p :: p' :: ps) (ht : v.nodes[p]? = some t)
    (hdef : occurs defType t.type = true) (ho : v.object t = some o)
    (hodef : occurs defType o.type = true) (hostatic : o.type ≠ ddefType) {b end_ : ℤ}
    (hfirst : v.bounds (getIdVar w).2 es p = some (b, end_)) :
    (v.Inside u (getIdVar w).2 es e → v'.verify (.use w e) = some (v', some false)) ↔
      e ≤ end_ ∨ ¬ v.Inside u (getIdVar w).2 es e := by
  have hplace : v.judge (.use w e) = some p := usePlace_of_base hu hbase
  obtain ⟨len, hlen, hverify⟩ := verify_verdict hparse hrun hplace ht hdef ho hodef
  have homem : o ∈ v.nodes := object_mem ht ho
  have hlength : o.length 0 = some len := by
    apply hlen
    intro w' addr l hw' hid
    exact hostatic (hdyn w' addr l hw' o homem hodef hid.symm)
  have hbounds : v'.verify (.use w e) = some (v', some (decide (e > end_))) := by
    rw [State.bounds, ht, Option.bind_eq_bind, Option.bind_some, ho, Option.bind_eq_bind, Option.bind_some,
      hlength] at hfirst
    obtain ⟨a, ha, hfirst⟩ := Option.bind_eq_some_iff.mp hfirst
    obtain ⟨rfl, rfl⟩ := Prod.mk.inj (Option.some.inj hfirst)
    have ha' : addressOf t (Entry.use w e).frame es = some a := ha
    rw [hverify, ha']
    congr 3
    simp only [Entry.endAddr, baseFrom, gt_iff_lt, decide_eq_decide]
    omega
  have hiff : v'.verify (.use w e) = some (v', some false) ↔ e ≤ end_ := by
    rw [hbounds]
    simp
  rw [hiff, imp_iff_or_not]

def twoObjects : Text :=
  ['2', ';', 'I', 'N', ';', '-', '1', ';', 'x', '\n'] ++
  ['3', ';', 'S', 'U', 'S', 'E', ';', '2', ';', 'f', ';', 'y', '\n'] ++
  ['4', ';', 'A', 'D', 'E', 'F', ';', '3', ';', 'B', 'A', 'S', 'E', ';', '1', '0', ';', 'a', '\n'] ++
  ['5', ';', 'A', 'D', 'E', 'F', ';', '3', ';', 'B', 'A', 'S', 'E', ';', '4', ';', 'b', '\n']

def twoDefs : List Entry := [.defn 0x40001 1000, .defn 0x50001 2000]

lemma twoObjects_parsed : ∃ (v v' : State) (u t : TraceLine), traceParser twoObjects = some v ∧
    v.verifyAll twoDefs = some (v', [none, none]) ∧
    v.nodes.find? (fun x => x.id = 3) = some u ∧ v.baseChildren u = [2, 3] ∧
    v.nodes[2]? = some t ∧ t.type = adefType ∧ v.bounds 1 twoDefs 2 = some (1000, 1010) ∧
    v.bounds 1 twoDefs 3 = some (2000, 2004) := by
  have hrun : ((traceParser twoObjects).bind fun v => (v.verifyAll twoDefs).map Prod.snd) =
      some [none, none] := by decide +kernel
  have hnodes : ((traceParser twoObjects).bind fun v =>
      (v.nodes.find? fun x => x.id = 3).bind fun u => v.nodes[2]?.map fun t : TraceLine =>
        ((v.baseChildren u, t.type), v.bounds 1 twoDefs 2, v.bounds 1 twoDefs 3)) =
        some (([2, 3], adefType), some (1000, 1010), some (2000, 2004)) := by decide +kernel
  obtain ⟨v, hv, hrun⟩ := Option.bind_eq_some_iff.mp hrun
  obtain ⟨⟨v', cs⟩, hrun, rfl⟩ := Option.map_eq_some_iff.mp hrun
  rw [hv, Option.bind_some] at hnodes
  obtain ⟨u, hu, hnodes⟩ := Option.bind_eq_some_iff.mp hnodes
  obtain ⟨t, ht, heq⟩ := Option.map_eq_some_iff.mp hnodes
  simp only [Prod.mk.injEq] at heq
  obtain ⟨⟨hbase, htype⟩, hfirst, hsecond⟩ := heq
  exact ⟨v, v', u, t, hv, hrun, hu, hbase, ht, htype, hfirst, hsecond⟩

theorem first_object_not_reported : ∃ v v', traceParser twoObjects = some v ∧
    v.verifyAll twoDefs = some (v', [none, none]) ∧
    v'.verify (.use 0x30001 1010) = some (v', some false) := by
  obtain ⟨v, v', u, t, hv, hrun, hu, hbase, ht, htype, hfirst, -⟩ := twoObjects_parsed
  have hdyn : DynamicOnly v twoDefs := by
    intro w addr len hw
    simp [twoDefs] at hw
  have hstatic : t.type ≠ ddefType := by rw [htype]; decide
  have hdef : occurs defType t.type = true := by rw [htype]; decide
  have hinside : v.Inside u 1 twoDefs 1010 :=
    ⟨2, by rw [hbase]; exact List.mem_cons_self, 1000, 1010, hfirst, by decide, by decide⟩
  refine ⟨v, v', hv, hrun, ?_⟩
  exact (multi_object_use_iff hv hdyn hrun (w := 0x30001) hu hbase ht hdef (if_neg hstatic) hdef hstatic
    hfirst).mpr (.inl (by decide)) hinside

theorem second_object_reported : ∃ v v' u, traceParser twoObjects = some v ∧
    v.verifyAll twoDefs = some (v', [none, none]) ∧
    v.nodes.find? (fun x => x.id = 3) = some u ∧ v.Inside u 1 twoDefs 2002 ∧
    v'.verify (.use 0x30001 2002) = some (v', some true) := by
  obtain ⟨v, v', u, t, hv, hrun, hu, hbase, ht, htype, hfirst, hsecond⟩ := twoObjects_parsed
  have hcheck : ((traceParser twoObjects).bind fun v => (v.verifyAll twoDefs).bind fun out =>
      (out.1.verify (.use 0x30001 2002)).map Prod.snd) = some (some true) := by decide +kernel
  rw [hv, Option.bind_some, hrun, Option.bind_some] at hcheck
  obtain ⟨⟨v'', c⟩, hcheck, rfl⟩ := Option.map_eq_some_iff.mp hcheck
  have hsame := eq_of_verify_use rfl hcheck
  rw [hsame] at hcheck
  refine ⟨v, v', u, hv, hrun, hu, ⟨3, ?_, 2000, 2004, hsecond, by decide, by decide⟩, hcheck⟩
  rw [hbase]
  exact List.mem_cons_of_mem _ List.mem_cons_self

end Embedwatch.Verifier
