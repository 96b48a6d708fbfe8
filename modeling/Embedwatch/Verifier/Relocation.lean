import Embedwatch.Verifier.Replays

/-! Runs of the program with its objects at other addresses. The verifier comes to the same verdicts. -/

namespace Embedwatch.Verifier

open Library.PlainText

def TraceLine.moved (δ : ℤ → ℤ) (t : TraceLine) : TraceLine :=
  { t with address := fun f => (t.address f).map (· + δ t.id) }

def State.moved (δ : ℤ → ℤ) (v : State) : State := { v with nodes := v.nodes.map (TraceLine.moved δ) }

namespace State

def movedBy (v : State) (δ : ℤ → ℤ) (e : Entry) : ℤ :=
  (((v.judge e).bind fun p => v.nodes[p]?).map fun t => δ t.id).getD 0

def movedEntry (v : State) (δ : ℤ → ℤ) : Entry → Entry
  | .defn id addr => .defn id (addr + δ (getIdVar id).1)
  | .ddefn id addr len => .ddefn id (addr + δ (getIdVar id).1) len
  | .use id addr => .use id (addr + v.movedBy δ (.use id addr))
  | .iuse defn use addr => .iuse defn use (addr + v.movedBy δ (.iuse defn use addr))
  | .other => .other

end State

variable {v v' w : State} {δ : ℤ → ℤ} {e : Entry} {es : List Entry} {c : Option Bool}
  {cs : List (Option Bool)} {t a b : TraceLine}

lemma sameSkeleton_moved (δ : ℤ → ℤ) (v : State) : SameSkeleton v (v.moved δ) := by
  refine ⟨?_, rfl⟩
  rw [State.moved, List.map_map]
  rfl

lemma movedEntry_congr (h : SameSkeleton v w) (δ : ℤ → ℤ) : w.movedEntry δ = v.movedEntry δ := by
  have hby : ∀ e, w.movedBy δ e = v.movedBy δ e := by
    intro e
    have hid : ∀ p : ℕ, w.nodes[p]?.map TraceLine.id = v.nodes[p]?.map TraceLine.id := by
      intro p
      have hp := congrArg (fun ts : List TraceLine => ts[p]?.map TraceLine.id) h.nodes
      simp only [List.getElem?_map, Option.map_map] at hp
      exact hp
    rw [State.movedBy, State.movedBy, h.judge_eq]
    cases v.judge e with
    | none => rfl
    | some p =>
      have hmap := congrArg (fun i : Option ℤ => (i.map δ).getD 0) (hid p)
      simp only [Option.map_map] at hmap
      exact hmap
  funext e
  cases e with
  | use | iuse => simp only [State.movedEntry, hby]
  | defn | ddefn | other => rfl

lemma modifyDefs_moved (hv : Indexed v) {id : ℤ} {f g : TraceLine → TraceLine}
    (hfg : ∀ t : TraceLine, t.id = id → g (t.moved δ) = (f t).moved δ) (h : v.modifyDefs id f = some v') :
    (v.moved δ).modifyDefs id g = some (v'.moved δ) := by
  rw [State.modifyDefs] at h ⊢
  have hmap : (v.moved δ).defMap = v.defMap := rfl
  rw [hmap]
  split at h
  · cases h
  · rename_i hne
    cases h
    rw [if_neg hne]
    refine congrArg some ?_
    simp only [State.moved, State.mk.injEq, and_true]
    apply List.ext_getElem?
    intro p
    rw [List.getElem?_mapIdx, List.getElem?_map, List.getElem?_map, List.getElem?_mapIdx]
    cases ht : v.nodes[p]? with
    | none => rfl
    | some t =>
      simp only [Option.map_some, Option.some.injEq]
      by_cases hp : p ∈ v.defMap id
      · obtain ⟨t', ht', -, hid⟩ := (hv id p).mp hp
        obtain rfl := Option.some.inj (ht.symm.trans ht')
        rw [if_pos hp, if_pos hp]
        exact hfg t hid
      · rw [if_neg hp, if_neg hp]

lemma update_map {α β γ : Type} [DecidableEq α] (f : β → γ) (m : α → Option β) (x : α) (y : β) :
    Function.update (fun z => (m z).map f) x (some (f y)) =
      fun z => (Function.update m x (some y) z).map f := by
  funext z
  by_cases hz : z = x
  · subst hz
    rw [Function.update_self, Function.update_self]
    rfl
  · rw [Function.update_of_ne hz, Function.update_of_ne hz]

lemma checkUse_moved {k endAddr f : ℤ} (htype : b.type = a.type) (hoffset : b.offset = a.offset)
    (hlength : b.length = a.length) (haddress : ∀ f, b.address f = (a.address f).map (· + k))
    (hknown : (a.address f).or (a.address 0) ≠ none) :
    b.checkUse (endAddr + k) f = a.checkUse endAddr f := by
  obtain ⟨base, hbase⟩ := Option.ne_none_iff_exists'.mp hknown
  have hbase' : (b.address f).or (b.address 0) = some (base + k) := by
    rw [haddress, haddress, ← Option.map_or, hbase]
    rfl
  rw [TraceLine.checkUse, TraceLine.checkUse, TraceLine.getBase, TraceLine.getBase, TraceLine.getLen,
    TraceLine.getLen, htype, hoffset, hlength, hbase, hbase']
  cases occurs defType a.type with
  | false => rfl
  | true =>
    by_cases hsdef : a.type = sdefType
    · simp only [hsdef, if_true]
      cases a.offset with
      | none => rfl
      | some off =>
        cases (a.length f).or (a.length 0) with
        | none => rfl
        | some len =>
          have heq : endAddr + k - (base + k + off) = endAddr - (base + off) := by omega
          simp only [Option.map_some, Option.bind_eq_bind, Option.bind_some, heq]
    · simp only [hsdef, if_false, if_true]
      cases (a.length f).or (a.length 0) with
      | none => rfl
      | some len =>
        have heq : endAddr + k - (base + k) = endAddr - base := by omega
        simp only [Option.bind_eq_bind, Option.bind_some, heq]

lemma check_moved {p : ℕ} (ht : v.nodes[p]? = some t) {endAddr f : ℤ}
    (hknown : (t.address f).or (t.address 0) ≠ none) :
    (((v.moved δ).target p).bind fun u => u.checkUse (endAddr + δ t.id) f) =
      (v.target p).bind fun u => u.checkUse endAddr f := by
  have hnode : ∀ q : ℕ, (v.moved δ).nodes[q]? = v.nodes[q]?.map (TraceLine.moved δ) :=
    fun q => List.getElem?_map
  rw [State.target, State.target, hnode, ht]
  simp only [Option.map_some, Option.bind_eq_bind, Option.bind_some]
  rw [State.deref, State.deref]
  have htype : (t.moved δ).type = t.type := rfl
  have hchildren : (t.moved δ).children = t.children := rfl
  rw [htype, hchildren]
  by_cases hdyn : t.type = ddefType
  · rw [if_pos hdyn, if_pos hdyn]
    cases t.children[0]? with
    | none => rfl
    | some q =>
      simp only [Option.bind_eq_bind, Option.bind_some, hnode]
      cases v.nodes[q]? with
      | none => rfl
      | some o => exact checkUse_moved rfl rfl rfl (fun _ => rfl) hknown
  · rw [if_neg hdyn, if_neg hdyn]
    exact checkUse_moved rfl rfl rfl (fun _ => rfl) hknown

def State.Locates (v : State) (e : Entry) : Prop :=
  ∀ p t, v.judge e = some p → v.nodes[p]? = some t → (t.address e.frame).or (t.address 0) ≠ none

lemma verify_use_moved (huse : e.isUse = true) (h : v.verify e = some (v', c)) (hloc : v.Locates e) :
    (v.moved δ).verify (v.movedEntry δ e) = some (v'.moved δ, c) := by
  obtain rfl := eq_of_verify_use huse h
  have huse' : (v'.movedEntry δ e).isUse = true := by
    cases e with
    | use | iuse => rfl
    | defn | ddefn | other => cases huse
  have hjudge : (v'.moved δ).judge (v'.movedEntry δ e) = v'.judge e := by
    rw [(sameSkeleton_moved δ v').judge_eq]
    cases e <;> rfl
  have hframe : (v'.movedEntry δ e).frame = e.frame := by cases e <;> rfl
  have hend : (v'.movedEntry δ e).endAddr = e.endAddr + v'.movedBy δ e := by
    cases e with
    | use | iuse => rfl
    | defn | ddefn | other => cases huse
  rw [verify_use huse] at h
  rw [verify_use huse', hjudge, hframe, hend, State.movedBy]
  cases hp : v'.judge e with
  | none =>
    rw [hp] at h
    cases h
  | some p =>
    rw [hp, Option.bind_some] at h
    rw [Option.bind_some, Option.bind_some]
    cases ht : v'.nodes[p]? with
    | none =>
      rw [State.target, ht] at h
      cases h
    | some t =>
      rw [Option.map_some, Option.getD_some, check_moved ht (hloc p t hp ht)]
      obtain ⟨b, hb, heq⟩ := Option.map_eq_some_iff.mp h
      rw [hb]
      cases heq
      rfl

lemma verify_moved (hv : Indexed v) (h : v.verify e = some (v', c))
    (hloc : e.isUse = true → v.Locates e) :
    (v.moved δ).verify (v.movedEntry δ e) = some (v'.moved δ, c) := by
  cases e with
  | defn id addr =>
    obtain ⟨u, hu, h⟩ := Option.bind_eq_some_iff.mp h
    cases h
    refine Option.bind_eq_some_iff.mpr ⟨v'.moved δ, ?_, rfl⟩
    refine modifyDefs_moved hv (fun t hid => ?_) hu
    simp only [TraceLine.moved, ← hid, update_map (· + δ t.id)]
  | ddefn id addr len =>
    obtain ⟨u, hu, h⟩ := Option.bind_eq_some_iff.mp h
    cases h
    refine Option.bind_eq_some_iff.mpr ⟨v'.moved δ, ?_, rfl⟩
    refine modifyDefs_moved hv (fun t hid => ?_) hu
    simp only [TraceLine.moved, ← hid, update_map (· + δ t.id)]
  | use id addr => exact verify_use_moved rfl h (hloc rfl)
  | iuse d use addr => exact verify_use_moved rfl h (hloc rfl)
  | other =>
    cases h
    rfl

lemma verifyAll_moved (hv : Indexed v) (h : v.verifyAll es = some (v', cs))
    (hloc : ∀ i e, es[i]? = some e → e.isUse = true → ∀ w cs₁,
      v.verifyAll (es.take i) = some (w, cs₁) → w.Locates e) :
    (v.moved δ).verifyAll (es.map (v.movedEntry δ)) = some (v'.moved δ, cs) := by
  induction es generalizing v cs with
  | nil =>
    cases h
    rfl
  | cons e es ih =>
    obtain ⟨v₁, c, cs', h₁, h₂, rfl⟩ := State.verifyAll_cons h
    have hskel := State.verify_skeleton h₁
    have hfirst := @verify_moved v v₁ δ e c hv h₁ fun huse => hloc 0 e rfl huse v [] rfl
    have hrest := ih (hskel.indexed hv) h₂ fun i e' he' huse w cs₁ hw => by
      apply hloc (i + 1) e' he' huse w (c :: cs₁)
      rw [List.take_succ_cons, State.verifyAll, h₁]
      simp [hw]
    rw [movedEntry_congr hskel] at hrest
    rw [List.map_cons, State.verifyAll, hfirst]
    simp [hrest]

theorem relocation {ztrace : Text} (hparse : traceParser ztrace = some v) (δ : ℤ → ℤ)
    (h : v.verifyAll es = some (v', cs))
    (hknown : ∀ i e, es[i]? = some e → e.isUse = true → ∀ p t, v.judge e = some p →
      v.nodes[p]? = some t → addressOf t e.frame (es.take i) ≠ none) :
    v.verifyAll (es.map (v.movedEntry δ)) = some (v'.moved δ, cs) := by
  have hparsed := traceParser_parsed hparse
  have hstart : v.moved δ = v := by
    have hnodes : v.nodes.map (TraceLine.moved δ) = v.nodes := by
      apply List.ext_getElem?
      intro p
      rw [List.getElem?_map]
      cases ht : v.nodes[p]? with
      | none => rfl
      | some t =>
        have hnone : (fun f => (t.address f).map (· + δ t.id)) = t.address := by
          funext f
          rw [hparsed.address_none ht]
          rfl
        rw [Option.map_some, TraceLine.moved, hnone]
    rw [State.moved, hnodes]
  have hrun := @verifyAll_moved v v' δ es cs (traceParser_indexed hparse) h
    fun i e he huse w cs₁ hw p t hp ht => by
      obtain ⟨w', cs₂, w₁, c, hw', hverify, -⟩ := getElem?_verifyAll h he
      rw [hw] at hw'
      cases hw'
      have hskel := State.verifyAll_skeleton hw
      obtain ⟨place, t₀, o, hplace, ht₀, hdef, -, -⟩ := exists_judged hskel huse hverify
      rw [hskel.judge_eq, hplace] at hp
      cases hp
      obtain ⟨t', ht', hafter⟩ := State.verifyAll_after hparsed.mapped ht₀ hdef hw
      obtain rfl := Option.some.inj (ht.symm.trans ht')
      rw [hafter.address, hafter.address, hparsed.address_none ht₀, hparsed.address_none ht₀,
        Option.or_none, Option.or_none]
      exact hknown i e he huse p t₀ hplace ht₀
  rwa [hstart] at hrun

theorem defThenUse_relocated : ∃ v v' w, traceParser oneUse = some v ∧
    v.verifyAll defThenUse = some (v', [none, some false]) ∧
    v.verifyAll [.defn 0x40001 1100, .use 0x30001 1105] = some (w, [none, some false]) := by
  have hrun : ((traceParser oneUse).bind fun v => (v.verifyAll defThenUse).map fun out =>
      (out.2, defThenUse.map (v.movedEntry fun _ => 100), (v.judge (.use 0x30001 1005)).bind fun p =>
        v.nodes[p]?.map TraceLine.id)) =
      some ([none, some false], [.defn 0x40001 1100, .use 0x30001 1105], some 4) := by decide +kernel
  obtain ⟨v, hv, hrun⟩ := Option.bind_eq_some_iff.mp hrun
  obtain ⟨⟨v', cs⟩, h, heq⟩ := Option.map_eq_some_iff.mp hrun
  simp only [Prod.mk.injEq] at heq
  obtain ⟨rfl, hmoved, hid⟩ := heq
  have hmove := relocation hv (fun _ => 100) h fun i e he huse p t hp ht => by
    match i with
    | 0 =>
      cases he
      cases huse
    | 1 =>
      cases he
      rw [hp, Option.bind_some, ht] at hid
      have hlast : (lastOf (Entry.address 4 1) (defThenUse.take 1)).or
          (lastOf (Entry.address 4 0) (defThenUse.take 1)) = some 1000 := by decide +kernel
      have hid : t.id = 4 := Option.some.inj hid
      have haddress : addressOf t 1 (defThenUse.take 1) = some 1000 := by
        rw [addressOf, hid]
        exact hlast
      exact fun hnone => Option.some_ne_none _ (haddress.symm.trans hnone)
    | i + 2 => cases he
  rw [hmoved] at hmove
  exact ⟨v, v', _, hv, h, hmove⟩

end Embedwatch.Verifier
