import Embedwatch.Verifier.Receiver
import Embedwatch.Verifier.Reports
import Embedwatch.Verifier.Verdicts

/-! Traces that are verified more than once. The extractor sends all the records again with each of its
copies, so that a trace begins with those before it. -/

namespace Embedwatch.Verifier

open Library.PlainText

variable {v v' v₀ : State} {e : Entry} {es es₀ : List Entry} {cs cs₀ : List (Option Bool)} {p : ℕ}
  {t t' o : TraceLine}

lemma verify_staticTrace {c : Option Bool} (h : v.verify e = some (v', c)) :
    v'.staticTrace = v.staticTrace := by
  have hmodify : ∀ {id f} {u : State}, v.modifyDefs id f = some u → u.staticTrace = v.staticTrace := by
    intro id f u hu
    rw [State.modifyDefs] at hu
    split at hu <;> cases hu
    rfl
  cases e with
  | defn | ddefn =>
    obtain ⟨u, hu, h⟩ := Option.bind_eq_some_iff.mp h
    cases h
    exact hmodify hu
  | use | iuse =>
    obtain ⟨_, -, h⟩ := Option.bind_eq_some_iff.mp h
    cases h
    rfl
  | other =>
    cases h
    rfl

lemma verifyAll_staticTrace (h : v.verifyAll es = some (v', cs)) :
    v'.staticTrace = v.staticTrace := by
  induction es generalizing v cs with
  | nil =>
    cases h
    rfl
  | cons e es ih =>
    obtain ⟨v₁, c, cs', h₁, h₂, -⟩ := State.verifyAll_cons h
    rw [ih h₂, verify_staticTrace h₁]

lemma verify_other (hv : Indexed v) {c : Option Bool} (h : v.verify e = some (v', c))
    (ht : v.nodes[p]? = some t) (hdef : occurs defType t.type = false) : v'.nodes[p]? = some t := by
  have hmodify : ∀ {id f} {u : State}, v.modifyDefs id f = some u → u.nodes[p]? = some t := by
    intro id f u hu
    have hp : p ∉ v.defMap id := by
      intro hp
      obtain ⟨t', ht', hdef', -⟩ := (hv id p).mp hp
      obtain rfl := Option.some.inj (ht.symm.trans ht')
      rw [hdef] at hdef'
      cases hdef'
    rw [getElem?_modifyDefs hu, ht, Option.map_some, if_neg hp]
  cases e with
  | defn | ddefn =>
    obtain ⟨u, hu, h⟩ := Option.bind_eq_some_iff.mp h
    cases h
    exact hmodify hu
  | use | iuse =>
    obtain ⟨_, -, h⟩ := Option.bind_eq_some_iff.mp h
    cases h
    exact ht
  | other =>
    cases h
    exact ht

lemma verifyAll_other (hv : Indexed v) (h : v.verifyAll es = some (v', cs))
    (ht : v.nodes[p]? = some t) (hdef : occurs defType t.type = false) : v'.nodes[p]? = some t := by
  induction es generalizing v cs with
  | nil =>
    cases h
    exact ht
  | cons e es ih =>
    obtain ⟨v₁, c, cs', h₁, h₂, -⟩ := State.verifyAll_cons h
    exact ih ((State.verify_skeleton h₁).indexed hv) h₂ (verify_other hv h₁ ht hdef)

lemma TraceLine.ext_of_skeleton (hskeleton : t'.skeleton = t.skeleton)
    (haddress : ∀ f, t'.address f = t.address f) (hlength : ∀ f, t'.length f = t.length f) :
    t' = t := by
  have ha : t'.address = t.address := funext haddress
  have hl : t'.length = t.length := funext hlength
  cases t
  cases t'
  simp only [TraceLine.skeleton, TraceLine.mk.injEq] at hskeleton ha hl ⊢
  simp [hskeleton, ha, hl]

theorem verifyAll_eq_of_lastOf (hv : Indexed v) (h : v.verifyAll es = some (v', cs))
    (h₀ : v.verifyAll es₀ = some (v₀, cs₀))
    (haddress : ∀ id f, lastOf (Entry.address id f) es = lastOf (Entry.address id f) es₀)
    (hlength : ∀ id f, lastOf (Entry.length id f) es = lastOf (Entry.length id f) es₀) :
    v' = v₀ := by
  have hskel := State.verifyAll_skeleton h
  have hskel₀ := State.verifyAll_skeleton h₀
  have hmapped : Mapped v := fun i p t ht hdef => by
    rw [hv i p]
    constructor
    · rintro ⟨t', ht', -, rfl⟩
      rw [Option.some.inj (ht.symm.trans ht')]
    · rintro rfl
      exact ⟨t, ht, hdef, rfl⟩
  have hnodes : v'.nodes = v₀.nodes := by
    apply List.ext_getElem?
    intro p
    cases ht : v.nodes[p]? with
    | none =>
      have hlen : v'.nodes.length = v.nodes.length := by
        simpa using congrArg List.length hskel.nodes
      have hlen₀ : v₀.nodes.length = v.nodes.length := by
        simpa using congrArg List.length hskel₀.nodes
      have hge := List.getElem?_eq_none_iff.mp ht
      rw [List.getElem?_eq_none (by omega), List.getElem?_eq_none (by omega)]
    | some t =>
      cases hdef : occurs defType t.type with
      | false => rw [verifyAll_other hv h ht hdef, verifyAll_other hv h₀ ht hdef]
      | true =>
        obtain ⟨t₁, ht₁, ha₁⟩ := State.verifyAll_after hmapped ht hdef h
        obtain ⟨t₂, ht₂, ha₂⟩ := State.verifyAll_after hmapped ht hdef h₀
        rw [ht₁, ht₂]
        refine congrArg some (TraceLine.ext_of_skeleton (ha₁.skeleton.trans ha₂.skeleton.symm) ?_ ?_)
        · intro f
          rw [ha₁.address, ha₂.address, haddress]
        · intro f
          rw [ha₁.length, ha₂.length, hlength]
  have hdefMap : v'.defMap = v₀.defMap := hskel.defMap.trans hskel₀.defMap.symm
  have hstatic : v'.staticTrace = v₀.staticTrace :=
    (verifyAll_staticTrace h).trans (verifyAll_staticTrace h₀).symm
  cases v'
  cases v₀
  simp only at hnodes hdefMap hstatic
  rw [hnodes, hdefMap, hstatic]

lemma lastOf_replayed {given : Entry → Option ℤ} (hsub : ∀ e ∈ es₀, e ∈ es) :
    lastOf given (es₀ ++ es) = lastOf given es := by
  rw [lastOf_append]
  cases h : lastOf given es with
  | some a => rfl
  | none =>
    have hall : ∀ e ∈ es, given e = none := by
      intro e he
      rw [lastOf, List.findSome?_eq_none_iff] at h
      exact h e (List.mem_reverse.mpr he)
    rw [Option.none_or]
    exact lastOf_eq_none fun e he => hall e (hsub e he)

variable {w w' : State} {u : TraceLine}

lemma exists_judged (hskel : SameSkeleton v w) {c : Option Bool} (he : e.isUse = true)
    (h : w.verify e = some (w', c)) : ∃ place t o, v.judge e = some place ∧
      v.nodes[place]? = some t ∧ occurs defType t.type = true ∧ v.object t = some o ∧
      occurs defType o.type = true := by
  rw [verify_use he, hskel.judge_eq] at h
  obtain ⟨b, hb, -⟩ := Option.map_eq_some_iff.mp h
  obtain ⟨u, hu, hcheck⟩ := Option.bind_eq_some_iff.mp hb
  obtain ⟨place, hplace, htarget⟩ := Option.bind_eq_some_iff.mp hu
  obtain ⟨base, hbase, -⟩ := Option.bind_eq_some_iff.mp hcheck
  have hudef := (getBase_eq_some hbase).1
  obtain ⟨tw, htw, hderef⟩ := Option.bind_eq_some_iff.mp htarget
  obtain ⟨t, ht, hsk⟩ := State.SameSkeleton.getElem? hskel.symm htw
  obtain ⟨-, htype, hchildren, -⟩ := TraceLine.of_skeleton hsk
  rw [State.deref] at hderef
  by_cases hdyn : tw.type = ddefType
  · rw [if_pos hdyn] at hderef
    obtain ⟨q, hq, hderef⟩ := Option.bind_eq_some_iff.mp hderef
    obtain ⟨ow, how, hderef⟩ := Option.bind_eq_some_iff.mp hderef
    cases hderef
    obtain ⟨o, ho, hosk⟩ := State.SameSkeleton.getElem? hskel.symm how
    have hotype := (TraceLine.of_skeleton hosk).2.1
    rw [hdyn] at htype
    refine ⟨place, t, o, hplace, ht, by rw [htype]; decide, ?_, ?_⟩
    · rw [State.object, if_pos htype, hchildren, hq]
      exact ho
    · rw [hotype]
      exact hudef
  · rw [if_neg hdyn] at hderef
    cases hderef
    rw [← htype] at hdyn hudef
    exact ⟨place, t, t, hplace, ht, hudef, if_neg hdyn, hudef⟩

lemma verify_defined {ztrace : Text} (hparse : traceParser ztrace = some v)
    (h : v.verifyAll es = some (w, cs)) (h₀ : v.verifyAll es₀ = some (v₀, cs₀))
    {c : Option Bool} (he : w.verify e = some (w', c)) : ∃ out, v₀.verify e = some out := by
  have hskel := State.verifyAll_skeleton h
  have hskel₀ := State.verifyAll_skeleton h₀
  have hdefMap : v₀.defMap = w.defMap := hskel₀.defMap.trans hskel.defMap.symm
  have hmodify : ∀ {id f g} {u : State}, w.modifyDefs id f = some u →
      ∃ u', v₀.modifyDefs id g = some u' := by
    intro id f g u hu
    rw [State.modifyDefs] at hu
    split at hu
    · cases hu
    · rename_i hne
      rw [State.modifyDefs, hdefMap, if_neg hne]
      exact ⟨_, rfl⟩
  cases e with
  | defn | ddefn =>
    obtain ⟨u, hu, -⟩ := Option.bind_eq_some_iff.mp he
    obtain ⟨u', hu'⟩ := hmodify hu
    exact ⟨(u', none), Option.bind_eq_some_iff.mpr ⟨u', hu', rfl⟩⟩
  | other => exact ⟨_, rfl⟩
  | use | iuse =>
    obtain ⟨place, t, o, hplace, ht, hdef, ho, hodef⟩ := exists_judged hskel rfl he
    obtain ⟨len, -, hverify⟩ := verify_verdict hparse h₀ hplace ht hdef ho hodef
    exact ⟨_, hverify⟩

theorem verifyAll_defined {ztrace : Text} (hparse : traceParser ztrace = some v)
    (h₀ : v.verifyAll es₀ = some (v₀, cs₀)) (h : v.verifyAll es = some (v', cs)) :
    ∃ w cs', v₀.verifyAll es = some (w, cs') := by
  induction es using List.reverseRecOn generalizing v' cs with
  | nil => exact ⟨v₀, [], rfl⟩
  | append_singleton es e ih =>
    rw [State.verifyAll_append] at h
    obtain ⟨⟨w, cs₁⟩, h₁, h₂⟩ := Option.bind_eq_some_iff.mp h
    obtain ⟨w', cs', hrun⟩ := ih h₁
    obtain ⟨⟨w₂, cs₂⟩, h₂, -⟩ := Option.map_eq_some_iff.mp h₂
    obtain ⟨w₃, c, -, hverify, -, -⟩ := State.verifyAll_cons h₂
    have hafter : v.verifyAll (es₀ ++ es) = some (w', cs₀ ++ cs') := by
      rw [State.verifyAll_append, h₀, Option.bind_some, hrun]
      rfl
    obtain ⟨out, hout⟩ := verify_defined hparse h₁ hafter hverify
    refine ⟨out.1, cs' ++ [out.2], ?_⟩
    rw [State.verifyAll_append, hrun, Option.bind_some]
    simp [State.verifyAll, hout]

theorem replay_state {ztrace : Text} (hparse : traceParser ztrace = some v)
    (h₀ : v.verifyAll es₀ = some (v₀, cs₀)) (h : v.verifyAll es = some (v', cs))
    (hsub : ∀ e ∈ es₀, e ∈ es) : ∃ cs', v₀.verifyAll es = some (v', cs') := by
  obtain ⟨w, cs', hrun⟩ := verifyAll_defined hparse h₀ h
  have hafter : v.verifyAll (es₀ ++ es) = some (w, cs₀ ++ cs') := by
    rw [State.verifyAll_append, h₀, Option.bind_some, hrun]
    rfl
  obtain rfl := verifyAll_eq_of_lastOf (traceParser_indexed hparse) hafter h
    (fun id f => lastOf_replayed hsub) (fun id f => lastOf_replayed hsub)
  exact ⟨cs', hrun⟩

def Repeats (v : State) (es₀ pre : List Entry) (e : Entry) : Prop :=
  ∀ place t o, v.judge e = some place → v.nodes[place]? = some t → v.object t = some o → ∀ f,
    (lastOf (Entry.address t.id f) pre = none → lastOf (Entry.address t.id f) es₀ = none) ∧
    (lastOf (Entry.length o.id f) pre = none → lastOf (Entry.length o.id f) es₀ = none)

lemma lastOf_repeated {given : Entry → Option ℤ}
    (h : lastOf given es = none → lastOf given es₀ = none) :
    lastOf given (es₀ ++ es) = lastOf given es := by
  rw [lastOf_append]
  cases hes : lastOf given es with
  | some a => rfl
  | none => rw [h hes, Option.none_or]

lemma checkUse_congr {a b : TraceLine} (htype : a.type = b.type) (hoffset : a.offset = b.offset)
    (haddress : ∀ f, a.address f = b.address f) (hlength : ∀ f, a.length f = b.length f)
    (endAddr f : ℤ) : a.checkUse endAddr f = b.checkUse endAddr f := by
  simp only [TraceLine.checkUse, TraceLine.getBase, TraceLine.getLen, htype, hoffset, haddress,
    hlength]

lemma verify_repeated {ztrace : Text} (hparse : traceParser ztrace = some v)
    (h₀ : v.verifyAll es₀ = some (v₀, cs₀)) (h : v.verifyAll es = some (w, cs))
    {cs' : List (Option Bool)} (h' : v₀.verifyAll es = some (w', cs'))
    (hrep : e.isUse = true → Repeats v es₀ es e) {w₁ w₂ : State} {c c' : Option Bool}
    (he : w.verify e = some (w₁, c)) (he' : w'.verify e = some (w₂, c')) : c' = c := by
  have hv := traceParser_parsed hparse
  have hafter : v.verifyAll (es₀ ++ es) = some (w', cs₀ ++ cs') := by
    rw [State.verifyAll_append, h₀, Option.bind_some, h']
    rfl
  cases huse : e.isUse with
  | false =>
    have hnone : ∀ {x y : State} {d : Option Bool}, x.verify e = some (y, d) → d = none := by
      intro x y d hx
      cases e with
      | defn | ddefn =>
        obtain ⟨_, -, hx⟩ := Option.bind_eq_some_iff.mp hx
        cases hx
        rfl
      | use | iuse => cases huse
      | other =>
        cases hx
        rfl
    rw [hnone he, hnone he']
  | true =>
    have hskel := State.verifyAll_skeleton h
    have hskel' := State.verifyAll_skeleton hafter
    obtain ⟨place, t, o, hplace, ht, hdef, ho, hodef⟩ := exists_judged hskel huse he
    obtain ⟨a, ha, hatype, haoffset, haaddress, halength⟩ := target_after hv h ht hdef ho hodef
    obtain ⟨b, hb, hbtype, hboffset, hbaddress, hblength⟩ := target_after hv hafter ht hdef ho hodef
    have hsame : b.checkUse e.endAddr e.frame = a.checkUse e.endAddr e.frame := by
      apply checkUse_congr (hbtype.trans hatype.symm) (hboffset.trans haoffset.symm)
      · intro f
        rw [hbaddress, haaddress, lastOf_repeated (hrep huse place t o hplace ht ho f).1]
      · intro f
        rw [hblength, halength, lastOf_repeated (hrep huse place t o hplace ht ho f).2]
    rw [verify_use huse, hskel.judge_eq, hplace, Option.bind_some, ha, Option.bind_some] at he
    rw [verify_use huse, hskel'.judge_eq, hplace, Option.bind_some, hb, Option.bind_some, hsame] at he'
    have hpair := congrArg (Option.map Prod.snd) he
    have hpair' := congrArg (Option.map Prod.snd) he'
    rw [Option.map_map] at hpair hpair'
    exact Option.some.inj (hpair'.symm.trans hpair)

lemma getElem?_verifyAll (h : v.verifyAll es = some (v', cs)) {i : ℕ} (he : es[i]? = some e) :
    ∃ w cs₁ w₁ c, v.verifyAll (es.take i) = some (w, cs₁) ∧ w.verify e = some (w₁, c) ∧
      cs[i]? = some c := by
  induction es generalizing v cs i with
  | nil => simp at he
  | cons e' es ih =>
    obtain ⟨v₁, c, cs', h₁, h₂, rfl⟩ := State.verifyAll_cons h
    cases i with
    | zero =>
      cases he
      exact ⟨v, [], v₁, c, rfl, h₁, rfl⟩
    | succ i =>
      obtain ⟨w, cs₁, w₁, c₁, hrun, hverify, hget⟩ := ih h₂ he
      refine ⟨w, c :: cs₁, w₁, c₁, ?_, hverify, hget⟩
      rw [List.take_succ_cons, State.verifyAll, h₁]
      simp [hrun]

def defThenUse : List Entry := [.defn 0x40001 1000, .use 0x30001 1005]

example : ((traceParser oneUse).bind fun v => (v.verifyAll defThenUse.reverse).bind fun out =>
    (out.1.verifyAll defThenUse.reverse).map fun out' => (out.2, out'.2)) =
      some ([some true, none], [some false, none]) := by decide +kernel

lemma verifyHistory_eq {x : Verified} {rs : List Record} {w : State} {cs : List (Option Bool)}
    (h : x.state.verifyAll (rs.map State.entryOf) = some (w, cs)) :
    verifyHistory x rs = some ⟨w, x.results ++ [cs ++ [none]]⟩ := by
  rw [verifyHistory, State.verifyRecords_eq, h]
  rfl

lemma exists_copies {ztrace : Text} (hparse : traceParser ztrace = some v) {rs : List Record}
    (h : v.verifyAll (rs.map State.entryOf) = some (v', cs)) (hs : List (List Record))
    (hcopies : ∀ r ∈ hs, r <+: rs) : ∃ es₀ v₀ cs₀ results,
      hs.foldlM verifyHistory ⟨v, []⟩ = some ⟨v₀, results⟩ ∧
      v.verifyAll es₀ = some (v₀, cs₀) ∧ ∀ e ∈ es₀, e ∈ rs.map State.entryOf := by
  induction hs using List.reverseRecOn with
  | nil => exact ⟨[], v, [], [], rfl, rfl, by simp⟩
  | append_singleton hs r ih =>
    obtain ⟨es₀, v₀, cs₀, results, hfold, hrun, hsub⟩ :=
      ih fun r hr => hcopies r (List.mem_append_left _ hr)
    obtain ⟨rest, rfl⟩ := hcopies r (by simp)
    rw [List.map_append, State.verifyAll_append] at h
    obtain ⟨⟨w, cs₁⟩, hr, -⟩ := Option.bind_eq_some_iff.mp h
    obtain ⟨w', cs', hlast⟩ := verifyAll_defined hparse hrun hr
    refine ⟨es₀ ++ r.map State.entryOf, w', cs₀ ++ cs', results ++ [cs' ++ [none]], ?_, ?_, ?_⟩
    · rw [List.foldlM_append, hfold]
      have hstep := @verifyHistory_eq ⟨v₀, results⟩ r w' cs' hlast
      simpa using hstep
    · rw [State.verifyAll_append, hrun, Option.bind_some, hlast]
      rfl
    · intro e he
      rcases List.mem_append.mp he with he | he
      · exact hsub e he
      · rw [List.map_append]
        exact List.mem_append_left _ he

def oneSession : List Record := [.defRec 0x40001 1000, .useRec 0x30001 1005]

end Embedwatch.Verifier
