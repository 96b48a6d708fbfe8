import Embedwatch.Svf.RoundTrip
import Embedwatch.Verifier.Verdicts

/-! Which dynamic traces `verify_input` gets through, for a static trace that was exported: the lookups
that can fail are those of a use among the lines under it. -/

namespace Embedwatch.Verifier

open Library.PlainText

variable {v v' : State}

lemma verifyAll_isSome_iff {ok : Entry → Prop} {es : List Entry}
    (hstep : ∀ e ∈ es, ∀ pre u cs, v.verifyAll pre = some (u, cs) →
      ((∃ out, u.verify e = some out) ↔ ok e)) :
    (∃ out, v.verifyAll es = some out) ↔ ∀ e ∈ es, ok e := by
  induction es using List.reverseRecOn with
  | nil => exact iff_of_true ⟨_, rfl⟩ fun e he => absurd he List.not_mem_nil
  | append_singleton es e ih =>
    have hinit := ih fun e' he' => hstep e' (List.mem_append_left _ he')
    have hlast : ∀ u : State, (∃ out, u.verifyAll [e] = some out) ↔ ∃ out, u.verify e = some out := by
      intro u
      rw [State.verifyAll]
      cases u.verify e with
      | none => simp
      | some out => exact iff_of_true ⟨_, rfl⟩ ⟨_, rfl⟩
    rw [List.forall_mem_append, List.forall_mem_singleton, ← hinit, State.verifyAll_append]
    constructor
    · rintro ⟨out, hout⟩
      obtain ⟨⟨u, cs⟩, hu, hout⟩ := Option.bind_eq_some_iff.mp hout
      obtain ⟨out', hout', -⟩ := Option.map_eq_some_iff.mp hout
      refine ⟨⟨_, hu⟩, ?_⟩
      apply (hstep e (by simp) es u cs hu).mp
      exact (hlast u).mp ⟨out', hout'⟩
    · rintro ⟨⟨⟨u, cs⟩, hu⟩, hok⟩
      obtain ⟨out, hout⟩ := (hlast u).mpr ((hstep e (by simp) es u cs hu).mpr hok)
      rw [hu, Option.bind_some, hout]
      exact ⟨_, rfl⟩

def InOrder (v : State) : Prop :=
  ∀ i, (v.defMap i).Pairwise (· < ·) ∧ ∀ p ∈ v.defMap i, p < v.nodes.length

lemma InOrder.append (hv : InOrder v) {tl : TraceLine} (hlen : v'.nodes.length = v.nodes.length + 1)
    (hdefMap : v'.defMap = if occurs defType tl.type then
      Function.update v.defMap tl.id (v.defMap tl.id ++ [v.nodes.length]) else v.defMap) :
    InOrder v' := by
  intro i
  have hold : ∀ p ∈ v.defMap i, p < v'.nodes.length := by
    intro p hp
    have := (hv i).2 p hp
    omega
  rw [hdefMap]
  split
  · by_cases hi : i = tl.id
    · subst hi
      rw [Function.update_self, List.pairwise_append, List.forall_mem_append, List.forall_mem_singleton]
      refine ⟨⟨(hv _).1, List.pairwise_singleton _ _, ?_⟩, hold, by omega⟩
      intro p hp q hq
      rw [List.mem_singleton.mp hq]
      exact (hv _).2 p hp
    · rw [Function.update_of_ne hi]
      exact ⟨(hv i).1, hold⟩
  · exact ⟨(hv i).1, hold⟩

lemma traceParser_inOrder {trace : Text} (h : traceParser trace = some v) : InOrder v := by
  refine Library.Runs.foldlM_invariant InOrder ?_ ?_ h
  · intro line _ u u' hu hline
    obtain ⟨tl, -, hline⟩ := Option.bind_eq_some_iff.mp hline
    rw [State.addLine] at hline
    split at hline
    · cases hline
      exact hu.append List.length_append rfl
    · split at hline
      · cases hline
        exact hu.append ((List.length_modify ..).trans List.length_append) rfl
      · cases hline
  · intro i
    exact ⟨List.Pairwise.nil, fun p hp => absurd hp List.not_mem_nil⟩

lemma InOrder.le_of_head (hv : InOrder v) {i : ℤ} {p q : ℕ} (hp : (v.defMap i)[0]? = some p)
    (hq : q ∈ v.defMap i) : p ≤ q := by
  obtain ⟨ps, hps⟩ := List.head?_eq_some_iff.mp (List.head?_eq_getElem?.trans hp)
  have hsorted := (hv i).1
  rw [hps] at hq hsorted
  rcases List.mem_cons.mp hq with rfl | hq
  · exact le_rfl
  · exact (List.rel_of_pairwise_cons hsorted hq).le

lemma verify_isSome_of_mapped {id : ℤ} (h : v.defMap id ≠ []) {e : Entry}
    (he : (∃ w addr, e = .defn w addr ∧ (getIdVar w).1 = id) ∨
      ∃ w addr len, e = .ddefn w addr len ∧ (getIdVar w).1 = id) : ∃ out, v.verify e = some out := by
  rcases he with ⟨w, addr, rfl, rfl⟩ | ⟨w, addr, len, rfl, rfl⟩
  · rw [State.verify, State.onDef, State.modifyDefs, if_neg h]
    exact ⟨_, rfl⟩
  · rw [State.verify, State.onDdef, State.modifyDefs, if_neg h]
    exact ⟨_, rfl⟩

end Embedwatch.Verifier

namespace Embedwatch.Svf

open Library.PlainText
open Verifier (TraceLine traceParser forest childPlaces fatherPlace defType adefType gdefType sdefType
  ddefType baseCls getIdVar Entry readEntry formattedTrace sentTrace)

def TraceEntity.isDef : TraceEntity → Bool
  | .defn _ => true
  | .input _ | .use _ => false

def TraceEntity.isUse : TraceEntity → Bool
  | .use _ => true
  | .input _ | .defn _ => false

def TraceEntity.isInput : TraceEntity → Bool
  | .input _ => true
  | .use _ | .defn _ => false

def TraceEntity.isDdef : TraceEntity → Bool
  | .defn (.ddef _ _ _ _) => true
  | .defn (.adef _ _ _ _ _) | .defn (.gdef _ _ _ _ _) | .defn (.sdef _ _ _ _ _ _) => false
  | .input _ | .use _ => false

def TraceEntity.isBase : TraceEntity → Bool
  | .defn (.ddef _ _ _ _) => true
  | .defn (.adef _ node _ _ _) | .defn (.gdef _ node _ _ _) | .defn (.sdef _ node _ _ _ _) =>
    !node.dominator
  | .input _ | .use _ => false

lemma mem_layOut {α : Type*} {f : α → ℕ → List Line} {as : List α} {place : ℕ} {e : Line}
    (he : e ∈ layOut f as place) : ∃ a ∈ as, ∃ p, e ∈ f a p ∧ f a p ⊆ layOut f as place := by
  induction as generalizing place with
  | nil => cases he
  | cons a as ih =>
    rw [layOut] at he ⊢
    rcases List.mem_append.mp he with he | he
    · exact ⟨a, List.mem_cons_self, place, he, List.subset_append_left _ _⟩
    · obtain ⟨a', ha', p, hp, hsub⟩ := ih he
      exact ⟨a', List.mem_cons_of_mem a ha', p, hp, fun _ hx => List.mem_append_right _ (hsub hx)⟩

def TargetsWritten (es : List Line) : Prop :=
  ∀ e ∈ es, e.te.isDdef = true → ∃ e' ∈ es, e'.father = e.te.id

lemma targetsWritten_layOut {α : Type*} {f : α → ℕ → List Line} (h : ∀ a p, TargetsWritten (f a p))
    (as : List α) (place : ℕ) : TargetsWritten (layOut f as place) := by
  intro e he hd
  obtain ⟨a, -, p, hp, hsub⟩ := mem_layOut he
  obtain ⟨e', he', hfather⟩ := h a p e hp hd
  exact ⟨e', hsub he', hfather⟩

lemma TargetsWritten.cons {e : Line} {es : List Line} (h : TargetsWritten es)
    (he : e.te.isDdef = true → ∃ e' ∈ es, e'.father = e.te.id) : TargetsWritten (e :: es) := by
  intro e₁ he₁ hd
  rcases List.mem_cons.mp he₁ with rfl | he₁
  · obtain ⟨e', he', hfather⟩ := he hd
    exact ⟨e', List.mem_cons_of_mem _ he', hfather⟩
  · obtain ⟨e', he', hfather⟩ := h e₁ he₁ hd
    exact ⟨e', List.mem_cons_of_mem _ he', hfather⟩

lemma targetsWritten_nil : TargetsWritten [] := fun _ he => absurd he List.not_mem_nil

lemma Def.exists_line (d : Def) (father : ℤ) (ident : ℕ) (parent : Option ℕ) (place : ℕ) :
    ∃ e ∈ d.lines father ident parent place, e.father = father := by
  cases d <;> exact ⟨_, List.mem_cons_self, rfl⟩

lemma Def.targetsWritten (d : Def) (father : ℤ) (ident : ℕ) (parent : Option ℕ) (place : ℕ) :
    TargetsWritten (d.lines father ident parent place) := by
  induction d generalizing father ident parent place with
  | ddef id node call target ih =>
    apply (ih _ _ _ _).cons
    intro _
    exact target.exists_line _ _ _ _
  | _ => exact targetsWritten_nil.cons fun hd => absurd hd Bool.false_ne_true

lemma SubObject.targetsWritten (father parent : ℕ) (sub : SubObject) (place : ℕ) :
    TargetsWritten (sub.lines father parent place) := by
  cases sub with
  | use u =>
    apply (targetsWritten_layOut (fun d p => d.targetsWritten _ _ _ p) _ _).cons
    exact fun hd => absurd hd Bool.false_ne_true
  | defn d => exact d.targetsWritten _ _ _ _

lemma TraceEntity.targetsWritten (te : TraceEntity) (place : ℕ) : TargetsWritten (te.lines place) := by
  cases te with
  | input i =>
    apply (targetsWritten_layOut (fun sub p => sub.targetsWritten _ _ p) _ _).cons
    exact fun hd => absurd hd Bool.false_ne_true
  | use u => exact targetsWritten_nil.cons fun hd => absurd hd Bool.false_ne_true
  | defn d => exact d.targetsWritten _ _ _ _

lemma Def.isDef_of_mem {d : Def} {father : ℤ} {ident : ℕ} {parent : Option ℕ} {place : ℕ} {e : Line}
    (he : e ∈ d.lines father ident parent place) : e.te.isDef = true := by
  induction d generalizing father ident parent place with
  | ddef id node call target ih =>
    rcases List.mem_cons.mp he with rfl | he
    · rfl
    · exact ih he
  | _ =>
    rw [List.mem_singleton.mp he]
    rfl

lemma isDef_of_father {trace : List TraceEntity} {e : Line} (he : e ∈ exportedLines trace) :
    e.te.isDef = true ∨ e.father = -1 ∨
      ∃ e' ∈ exportedLines trace, e'.te.isInput = true ∧ e.father = e'.te.id := by
  obtain ⟨te, -, p, hp, hsub⟩ := mem_layOut he
  cases te with
  | input i =>
    rcases List.mem_cons.mp hp with rfl | hmem
    · exact .inr (.inl rfl)
    · obtain ⟨sub, -, p', hp', -⟩ := mem_layOut hmem
      cases sub with
      | use u =>
        rcases List.mem_cons.mp hp' with rfl | hmem
        · exact .inr (.inr ⟨_, hsub List.mem_cons_self, rfl, rfl⟩)
        · obtain ⟨d, -, p'', hp'', -⟩ := mem_layOut hmem
          exact .inl (Def.isDef_of_mem hp'')
      | defn d => exact .inl (Def.isDef_of_mem hp')
  | use u =>
    rw [List.mem_singleton.mp hp]
    exact .inr (.inl rfl)
  | defn d => exact .inl (Def.isDef_of_mem hp)

def linesUnder (es : List Line) (id : ℤ) : List ℕ :=
  (List.range es.length).filter fun p => es[p]?.map Line.father = some id

def FirstCopy (es : List Line) (i : ℕ) : Prop :=
  ∀ q < i, es[q]?.map (fun l => l.te.id) ≠ es[i]?.map fun l => l.te.id

instance (es : List Line) : DecidablePred (FirstCopy es) := fun i =>
  inferInstanceAs (Decidable (∀ q < i, es[q]?.map (fun l => l.te.id) ≠ es[i]?.map fun l => l.te.id))

section Places

variable {es : List Line} {i p : ℕ} {e : Line}

lemma fatherPlace_eq_some_iff (he : es[i]? = some e) : fatherPlace (es.map Line.parsed) p = some i ↔
    FirstCopy es i ∧ es[p]?.map Line.father = some (e.te.id : ℤ) := by
  have hi : i < es.length := (List.getElem?_eq_some_iff.mp he).1
  have hei : es[i] = e := (List.getElem?_eq_some_iff.mp he).2
  rw [fatherPlace, List.getElem?_map]
  cases hp : es[p]? with
  | none => simp
  | some l =>
    have hids : ∀ x : TraceLine, (some x.id = some l.father) = (x.id = l.father) := by
      intro x
      rw [Option.some.injEq]
    have hline : (some l.father = some (e.te.id : ℤ)) = (l.father = (e.te.id : ℤ)) :=
      Option.some.injEq ..
    rw [Option.map_some, Option.bind_some, parsed_father, Option.map_some, hline]
    by_cases hroot : l.father = -1
    · have hne : ¬ l.father = (e.te.id : ℤ) := by omega
      simp only [if_pos (congrArg some hroot), reduceCtorEq, hne, and_false]
    · have hsome : ¬ some l.father = some (-1) := fun h => hroot (Option.some.inj h)
      simp only [hids, if_neg hsome, List.findIdx?_eq_some_iff_getElem, List.length_map, hi, List.getElem_map,
        parsed_id, exists_true_left, hei, decide_eq_true_eq]
      constructor
      · rintro ⟨hid, hbefore⟩
        refine ⟨?_, hid.symm⟩
        intro q hq hc
        rw [he, List.getElem?_eq_getElem (hq.trans hi), Option.map_some, Option.map_some] at hc
        apply hbefore q hq
        rw [Option.some.inj hc, hid]
      · rintro ⟨hfirst, hid⟩
        refine ⟨hid.symm, ?_⟩
        intro q hq hc
        apply hfirst q hq
        rw [he, List.getElem?_eq_getElem (hq.trans hi), Option.map_some, Option.map_some]
        rw [hid] at hc
        exact congrArg some (Nat.cast_inj.mp hc)

lemma childPlaces_firstCopy (he : es[i]? = some e) (hfirst : FirstCopy es i) :
    childPlaces (es.map Line.parsed) i = linesUnder es e.te.id := by
  rw [childPlaces, linesUnder, List.length_map]
  apply List.filter_congr
  intro p _
  rw [decide_eq_decide, fatherPlace_eq_some_iff he, and_iff_right hfirst]

lemma childPlaces_laterCopy (he : es[i]? = some e) (hlater : ¬ FirstCopy es i) :
    childPlaces (es.map Line.parsed) i = [] := by
  rw [childPlaces, List.filter_eq_nil_iff]
  intro p _ hp
  exact hlater ((fatherPlace_eq_some_iff he).mp (of_decide_eq_true hp)).1

lemma exists_firstCopy {e : Line} (he : e ∈ es) :
    ∃ i e', es[i]? = some e' ∧ e'.te.id = e.te.id ∧ FirstCopy es i := by
  classical
  have hex : ∃ i : ℕ, es[i]?.map (fun l : Line => l.te.id) = some e.te.id := by
    obtain ⟨i, hi⟩ := List.mem_iff_getElem?.mp he
    exact ⟨i, by rw [hi]; rfl⟩
  obtain ⟨e', he', hid⟩ := Option.map_eq_some_iff.mp (Nat.find_spec hex)
  refine ⟨Nat.find hex, e', he', hid, ?_⟩
  intro q hq
  rw [he', Option.map_some, hid]
  exact Nat.find_min hex hq

lemma mem_linesUnder {id : ℤ} : p ∈ linesUnder es id ↔ ∃ e, es[p]? = some e ∧ e.father = id := by
  rw [linesUnder, List.mem_filter, List.mem_range, decide_eq_true_eq, Option.map_eq_some_iff]
  constructor
  · rintro ⟨-, h⟩
    exact h
  · rintro ⟨e, he, hfather⟩
    exact ⟨(List.getElem?_eq_some_iff.mp he).1, e, he, hfather⟩

end Places

def Line.node (e : Line) (children : List ℕ) : TraceLine :=
  e.te.node e.father e.te.parsedInfo e.te.parsedFun children

section Kinds

variable (e : Line) (children : List ℕ)

lemma occurs_node : occurs defType (e.node children).type = e.te.isDef := by
  have hdefs : ∀ t ∈ [adefType, gdefType, ddefType, sdefType], occurs defType t = true := by decide
  have hothers : ∀ t ∈ [inType, suseType, luseType], occurs defType t = false := by decide
  obtain ⟨te, father, ident, parent⟩ := e
  cases te with
  | input i => exact hothers inType (by simp)
  | use u =>
    change occurs defType u.kind.tag = false
    cases u.kind <;> exact hothers _ (by simp [UseKind.tag])
  | defn d => cases d <;> exact hdefs _ (by simp [Line.node, TraceEntity.node])

lemma node_ddef_iff : (e.node children).type = ddefType ↔ e.te.isDdef = true := by
  have hothers : ∀ t ∈ [inType, suseType, luseType, adefType, gdefType, sdefType],
      (t = ddefType ↔ false = true) := by decide
  obtain ⟨te, father, ident, parent⟩ := e
  cases te with
  | input i => exact hothers inType (by simp)
  | use u =>
    change u.kind.tag = ddefType ↔ false = true
    cases u.kind <;> exact hothers _ (by simp [UseKind.tag])
  | defn d =>
    cases d with
    | ddef => exact iff_of_true rfl rfl
    | _ => exact hothers _ (by simp [Line.node, TraceEntity.node])

lemma node_cls_iff : (e.node children).cls = some baseCls ↔ e.te.isBase = true := by
  have hcls : ∀ b, some (clsText b) = some baseCls ↔ (!b) = true := by decide
  obtain ⟨te, father, ident, parent⟩ := e
  cases te with
  | input i => exact iff_of_false (fun h => nomatch h) Bool.false_ne_true
  | use u => exact iff_of_false (fun h => nomatch h) Bool.false_ne_true
  | defn d =>
    cases d with
    | ddef => exact iff_of_true rfl rfl
    | _ => exact hcls _

end Kinds

def chosenLine (es : List Line) (id : ℤ) : Option ℕ :=
  match linesUnder es id with
  | [p] => some p
  | ps => ps.find? fun p => es[p]?.any fun e => e.te.isBase

def Judgeable (es : List Line) (id : ℤ) : Prop :=
  ∃ p ∈ chosenLine es id, (∃ e ∈ es[p]?, e.te.isDdef = true) → FirstCopy es p

def HasLine (es : List Line) (kind : TraceEntity → Bool) (id : ℤ) : Prop :=
  ∃ e ∈ es, kind e.te = true ∧ (e.te.id : ℤ) = id

def RightKind (es : List Line) : Entry → Prop
  | .defn w _ => HasLine es TraceEntity.isDef (getIdVar w).1
  | .ddefn w _ _ => HasLine es TraceEntity.isDdef (getIdVar w).1
  | .use w _ => HasLine es TraceEntity.isUse (getIdVar w).1
  | .iuse d w _ => HasLine es TraceEntity.isUse (getIdVar w).1 ∧ HasLine es TraceEntity.isDef (getIdVar d).1
  | .other => True

instance (es : List Line) (kind : TraceEntity → Bool) (id : ℤ) : Decidable (HasLine es kind id) :=
  inferInstanceAs (Decidable (∃ e ∈ es, kind e.te = true ∧ (e.te.id : ℤ) = id))

instance (es : List Line) : DecidablePred (RightKind es)
  | .defn w _ => inferInstanceAs (Decidable (HasLine es TraceEntity.isDef (getIdVar w).1))
  | .ddefn w _ _ => inferInstanceAs (Decidable (HasLine es TraceEntity.isDdef (getIdVar w).1))
  | .use w _ => inferInstanceAs (Decidable (HasLine es TraceEntity.isUse (getIdVar w).1))
  | .iuse d w _ => inferInstanceAs (Decidable
    (HasLine es TraceEntity.isUse (getIdVar w).1 ∧ HasLine es TraceEntity.isDef (getIdVar d).1))
  | .other => isTrue trivial

structure WellFormed (trace : List TraceEntity) : Prop where
  nonempty : trace ≠ []
  oneLine : ∀ e ∈ exportedLines trace, '\n' ∉ e.te.fun_
  ids : ∀ e ∈ exportedLines trace, ∀ e' ∈ exportedLines trace, e.te.id = e'.te.id → e.te = e'.te

lemma mem_of_chosenLine {es : List Line} {id : ℤ} {p : ℕ} (h : chosenLine es id = some p) :
    p ∈ linesUnder es id := by
  rw [chosenLine] at h
  split at h
  · rename_i heq
    rw [heq, ← Option.some.inj h]
    exact List.mem_cons_self
  · exact List.mem_of_find?_eq_some h

section Lookups

variable {es : List Line} {v : Verifier.State} {i p : ℕ} {e l : Line}

lemma getElem?_nodes (hnodes : v.nodes = forest (es.map Line.parsed)) (he : es[i]? = some e) :
    v.nodes[i]? = some (e.node (childPlaces (es.map Line.parsed) i)) := by
  rw [hnodes, Verifier.getElem?_forest, getElem?_parsed he, Option.map_some, Line.parsed,
    node_with_children]
  rfl

lemma find?_nodes (hnodes : v.nodes = forest (es.map Line.parsed)) (he : es[i]? = some e)
    (hfirst : FirstCopy es i) :
    v.nodes.find? (fun x => x.id = (e.te.id : ℤ)) = some (e.node (linesUnder es e.te.id)) := by
  have hnode := getElem?_nodes hnodes he
  rw [childPlaces_firstCopy he hfirst] at hnode
  obtain ⟨hi, hnode⟩ := List.getElem?_eq_some_iff.mp hnode
  rw [List.find?_eq_some_iff_getElem]
  refine ⟨decide_eq_true (node_id ..), i, hi, hnode, ?_⟩
  intro q hq
  have hlen : q < es.length := hq.trans (List.getElem?_eq_some_iff.mp he).1
  obtain ⟨_, hq'⟩ := List.getElem?_eq_some_iff.mp
    (getElem?_nodes hnodes (List.getElem?_eq_getElem hlen))
  rw [hq', Bool.not_eq_true', decide_eq_false_iff_not, Line.node, node_id]
  intro hid
  apply hfirst q hq
  rw [he, List.getElem?_eq_getElem hlen, Option.map_some, Option.map_some]
  exact congrArg some (Nat.cast_inj.mp hid)

lemma usePlace_eq (hnodes : v.nodes = forest (es.map Line.parsed)) (he : e ∈ es) :
    v.usePlace e.te.id = chosenLine es e.te.id := by
  obtain ⟨i, e', he', hid, hfirst⟩ := exists_firstCopy he
  have hbase : (fun p : ℕ => decide ((v.nodes[p]?.bind TraceLine.cls) = some baseCls)) =
      fun p : ℕ => es[p]?.any fun e : Line => e.te.isBase := by
    funext p
    cases hp : es[p]? with
    | none =>
      rw [hnodes, Verifier.getElem?_forest, List.getElem?_map, hp]
      rfl
    | some l =>
      rw [getElem?_nodes hnodes hp, Option.bind_some, Option.any_some, Bool.eq_iff_iff, decide_eq_true_eq]
      exact node_cls_iff l _
  rw [← hid, Verifier.State.usePlace, find?_nodes hnodes he' hfirst, chosenLine, Option.bind_eq_bind,
    Option.bind_some, Line.node, node_children, hbase]
  rcases linesUnder es e'.te.id with _ | ⟨_, _ | ⟨_, _⟩⟩ <;> rfl

lemma object_nodes (hnodes : v.nodes = forest (es.map Line.parsed)) (htargets : TargetsWritten es)
    (hdefs : ∀ e ∈ es, e.te.isDef = true → ∀ l ∈ es, l.father = e.te.id → l.te.isDef = true)
    (he : es[p]? = some e) (hdef : e.te.isDef = true) (hcopy : e.te.isDdef = true → FirstCopy es p) :
    ∃ o, v.object (e.node (childPlaces (es.map Line.parsed) p)) = some o ∧
      occurs defType o.type = true := by
  have hmem := List.mem_of_getElem? he
  rw [Verifier.State.object]
  by_cases hd : e.te.isDdef = true
  · rw [if_pos ((node_ddef_iff e _).mpr hd), Line.node, node_children, childPlaces_firstCopy he (hcopy hd)]
    obtain ⟨l, hl, hfather⟩ := htargets e hmem hd
    obtain ⟨q, hq⟩ := List.mem_iff_getElem?.mp hl
    obtain ⟨c, cs, hcs⟩ := List.exists_cons_of_ne_nil
      (List.ne_nil_of_mem (mem_linesUnder.mpr ⟨l, hq, hfather⟩))
    have hc : c ∈ linesUnder es e.te.id := by rw [hcs]; exact List.mem_cons_self
    obtain ⟨l', hl', hfather'⟩ := mem_linesUnder.mp hc
    refine ⟨l'.node (childPlaces (es.map Line.parsed) c), ?_, ?_⟩
    · rw [hcs, List.getElem?_cons_zero, Option.bind_some, getElem?_nodes hnodes hl']
    · rw [occurs_node]
      exact hdefs e hmem hdef l' (List.mem_of_getElem? hl') hfather'
  · rw [if_neg fun h => hd ((node_ddef_iff e _).mp h)]
    refine ⟨_, rfl, ?_⟩
    rw [occurs_node, hdef]

lemma verify_isSome_iff {ztrace : Text} (hparse : traceParser ztrace = some v)
    (hnodes : v.nodes = forest (es.map Line.parsed)) (htargets : TargetsWritten es)
    (hdefs : ∀ e ∈ es, e.te.isDef = true → ∀ l ∈ es, l.father = e.te.id → l.te.isDef = true)
    {pre : List Entry} {u : Verifier.State} {cs : List (Option Bool)}
    (hrun : v.verifyAll pre = some (u, cs)) {use : Entry} (hplace : v.judge use = some p)
    (he : es[p]? = some e) (hdef : e.te.isDef = true) :
    (∃ out, u.verify use = some out) ↔ (e.te.isDdef = true → FirstCopy es p) := by
  have hnode := getElem?_nodes hnodes he
  constructor
  · rintro ⟨out, hout⟩ hd
    by_contra hcopy
    have huse := Verifier.State.isUse_of_judge hplace
    have hskel := Verifier.State.verifyAll_skeleton hrun
    rw [childPlaces_laterCopy he hcopy] at hnode
    obtain ⟨t, ht, hsame⟩ := Verifier.State.SameSkeleton.getElem? hskel hnode
    obtain ⟨-, htype, hchildren, -⟩ := TraceLine.of_skeleton hsame
    have hnone : u.target p = none := by
      rw [Line.node, node_children] at hchildren
      rw [Verifier.State.target, ht, Option.bind_eq_bind, Option.bind_some, Verifier.State.deref,
        if_pos (htype.trans ((node_ddef_iff e _).mpr hd)), hchildren]
      rfl
    rw [Verifier.verify_use huse, hskel.judge_eq, hplace, Option.bind_some, hnone] at hout
    cases hout
  · intro hcopy
    obtain ⟨o, ho, hodef⟩ := object_nodes hnodes htargets hdefs he hdef hcopy
    have hoccurs : occurs defType (e.node (childPlaces (es.map Line.parsed) p)).type = true := by
      rw [occurs_node, hdef]
    obtain ⟨len, -, hverify⟩ := Verifier.verify_verdict hparse hrun hplace hnode hoccurs ho hodef
    exact ⟨_, hverify⟩

lemma defMap_of_hasLine {ztrace : Text} (hparse : traceParser ztrace = some v)
    (hnodes : v.nodes = forest (es.map Line.parsed)) (he : es[i]? = some e) (hdef : e.te.isDef = true) :
    i ∈ v.defMap e.te.id := by
  rw [(Verifier.traceParser_parsed hparse).defMap]
  refine ⟨_, getElem?_nodes hnodes he, ?_, node_id ..⟩
  rw [occurs_node, hdef]

lemma iusePlace_eq {ztrace : Text} (hparse : traceParser ztrace = some v)
    (hnodes : v.nodes = forest (es.map Line.parsed))
    (hids : ∀ e ∈ es, ∀ e' ∈ es, e.te.id = e'.te.id → e.te = e'.te) (he : e ∈ es) (hl : l ∈ es)
    (hdef : l.te.isDef = true) : ∃ p l', v.iusePlace e.te.id l.te.id = some p ∧
      es[p]? = some l' ∧ l'.te.isDef = true ∧ FirstCopy es p := by
  obtain ⟨i, e', he', hid, hfirst⟩ := exists_firstCopy he
  obtain ⟨p, l', hl', hid', hfirst'⟩ := exists_firstCopy hl
  have hdef' : l'.te.isDef = true := by
    rw [hids l' (List.mem_of_getElem? hl') l hl hid', hdef]
  have hp : p ∈ v.defMap l.te.id := by
    rw [← hid']
    exact defMap_of_hasLine hparse hnodes hl' hdef'
  refine ⟨p, l', ?_, hl', hdef', hfirst'⟩
  rw [← hid, Verifier.State.iusePlace, find?_nodes hnodes he' hfirst, Option.bind_eq_bind, Option.bind_some]
  obtain ⟨c, cs, hcs⟩ := List.exists_cons_of_ne_nil (List.ne_nil_of_mem hp)
  have hhead : (v.defMap l.te.id)[0]? = some c := by rw [hcs]; rfl
  have hle : c ≤ p := (Verifier.traceParser_inOrder hparse).le_of_head hhead hp
  have hc : c ∈ v.defMap l.te.id := by rw [hcs]; exact List.mem_cons_self
  obtain ⟨t, ht, -, htid⟩ := ((Verifier.traceParser_parsed hparse).defMap _ _).mp hc
  rw [hhead]
  congr 1
  rcases hle.lt_or_eq with hlt | heq
  · have hlen : c < es.length := hlt.trans (List.getElem?_eq_some_iff.mp hl').1
    have hnode := getElem?_nodes hnodes (List.getElem?_eq_getElem hlen)
    obtain rfl := Option.some.inj (ht.symm.trans hnode)
    rw [Line.node, node_id, ← hid'] at htid
    have hnot := hfirst' c hlt
    rw [hl', List.getElem?_eq_getElem hlen, Option.map_some, Option.map_some] at hnot
    exact absurd (congrArg some (Nat.cast_inj.mp htid)) hnot
  · exact heq

end Lookups

lemma isDef_of_father_eq {trace : List TraceEntity} (hwell : WellFormed trace) {e l : Line}
    (he : e ∈ exportedLines trace) (hinput : e.te.isInput = false) (hl : l ∈ exportedLines trace)
    (hfather : l.father = e.te.id) : l.te.isDef = true := by
  rcases isDef_of_father hl with hdef | hroot | ⟨e', he', hinput', hfather'⟩
  · exact hdef
  · omega
  · have hid : e'.te.id = e.te.id := by omega
    rw [hwell.ids e' he' e he hid, hinput] at hinput'
    cases hinput'

lemma verify_exported {trace : List TraceEntity} (hwell : WellFormed trace) {v : Verifier.State}
    (hv : traceParser (exportTrace trace) = some v)
    (hnodes : v.nodes = forest ((exportedLines trace).map Line.parsed)) {entry : Entry}
    (hkind : RightKind (exportedLines trace) entry) {pre : List Entry} {u : Verifier.State}
    {cs : List (Option Bool)} (hrun : v.verifyAll pre = some (u, cs)) :
    (∃ out, u.verify entry = some out) ↔
      ∀ w addr, entry = .use w addr → Judgeable (exportedLines trace) (getIdVar w).1 := by
  have hskel := Verifier.State.verifyAll_skeleton hrun
  have htargets : TargetsWritten (exportedLines trace) :=
    targetsWritten_layOut TraceEntity.targetsWritten trace 0
  have hinput : ∀ te : TraceEntity, te.isDef = true ∨ te.isUse = true → te.isInput = false := by
    intro te hte
    cases te with
    | input i => rcases hte with h | h <;> cases h
    | use | defn => rfl
  have hdefs : ∀ e ∈ exportedLines trace, e.te.isDef = true → ∀ l ∈ exportedLines trace,
      l.father = e.te.id → l.te.isDef = true := fun e he hdef l hl =>
    isDef_of_father_eq hwell he (hinput _ (.inl hdef)) hl
  have hmapped : ∀ e ∈ exportedLines trace, e.te.isDef = true → u.defMap e.te.id ≠ [] := by
    intro e he hdef
    obtain ⟨i, hi⟩ := List.mem_iff_getElem?.mp he
    rw [hskel.defMap]
    exact List.ne_nil_of_mem (defMap_of_hasLine hv hnodes hi hdef)
  have hnot : ∀ e : Entry, (∃ out, u.verify e = some out) → (∀ w addr, e ≠ .use w addr) →
      ((∃ out, u.verify e = some out) ↔
        ∀ w addr, e = .use w addr → Judgeable (exportedLines trace) (getIdVar w).1) := by
    intro e he hne
    exact iff_of_true he fun w addr h => absurd h (hne w addr)
  cases entry with
  | defn w addr =>
    obtain ⟨e, he, hdef, hid⟩ := hkind
    refine hnot _ ?_ fun _ _ h => Entry.noConfusion h
    exact Verifier.verify_isSome_of_mapped (hmapped e he hdef) (.inl ⟨w, addr, rfl, hid.symm⟩)
  | ddefn w addr len =>
    obtain ⟨e, he, hd, hid⟩ := hkind
    refine hnot _ ?_ fun _ _ h => Entry.noConfusion h
    have hdef : e.te.isDef = true := by
      cases hte : e.te with
      | defn d => rfl
      | input | use =>
        rw [hte] at hd
        cases hd
    exact Verifier.verify_isSome_of_mapped (hmapped e he hdef) (.inr ⟨w, addr, len, rfl, hid.symm⟩)
  | use w addr =>
    obtain ⟨e, he, huse, hid⟩ := hkind
    have hplace : v.judge (.use w addr) = chosenLine (exportedLines trace) (getIdVar w).1 := by
      rw [Verifier.State.judge, ← hid]
      exact usePlace_eq hnodes he
    have hiff : (∃ out, u.verify (.use w addr) = some out) ↔
        Judgeable (exportedLines trace) (getIdVar w).1 := by
      rw [Judgeable, ← hplace]
      cases hp : v.judge (.use w addr) with
      | none =>
        rw [Verifier.verify_use rfl, hskel.judge_eq, hp]
        simp
      | some p =>
        have hunder : p ∈ linesUnder (exportedLines trace) e.te.id := by
          rw [hid]
          exact mem_of_chosenLine (hplace.symm.trans hp)
        obtain ⟨l, hl, hfather⟩ := mem_linesUnder.mp hunder
        have hdef := isDef_of_father_eq hwell he (hinput _ (.inr huse)) (List.mem_of_getElem? hl) hfather
        rw [verify_isSome_iff hv hnodes htargets hdefs hrun hp hl hdef]
        simp [hl]
    rw [hiff]
    constructor
    · intro h w' addr' heq
      cases heq
      exact h
    · intro h
      exact h w addr rfl
  | iuse d w addr =>
    obtain ⟨⟨e, he, -, hid⟩, l, hl, hdef, hid'⟩ := hkind
    refine hnot _ ?_ fun _ _ h => Entry.noConfusion h
    obtain ⟨p, l', hp, hl', hdef', hfirst⟩ := iusePlace_eq hv hnodes hwell.ids he hl hdef
    have hplace : v.judge (.iuse d w addr) = some p := by
      rw [Verifier.State.judge, ← hid, ← hid']
      exact hp
    exact (verify_isSome_iff hv hnodes htargets hdefs hrun hplace hl' hdef').mpr fun _ => hfirst
  | other => exact hnot _ ⟨_, rfl⟩ fun _ _ h => Entry.noConfusion h

theorem verifyInput_isSome_iff {trace : List TraceEntity} (hwell : WellFormed trace) {input : Text}
    {entries : List Entry} (hread : (formattedTrace input).mapM readEntry = some entries)
    (hkind : ∀ entry ∈ entries, RightKind (exportedLines trace) entry) :
    ∃ v, traceParser (exportTrace trace) = some v ∧ ((∃ out, v.verifyInput input = some out) ↔
      ∀ w addr, Entry.use w addr ∈ entries → Judgeable (exportedLines trace) (getIdVar w).1) := by
  obtain ⟨v, hv, hnodes, -⟩ := traceParser_exportTrace hwell.nonempty hwell.oneLine
  refine ⟨v, hv, ?_⟩
  rw [Verifier.State.verifyInput, Verifier.State.verifyEntries_eq, hread, Option.bind_some,
    Verifier.verifyAll_isSome_iff fun e he pre u cs hrun =>
      verify_exported hwell hv hnodes (hkind e he) hrun]
  constructor
  · intro h w addr hmem
    exact h _ hmem w addr rfl
  · rintro h e he w addr rfl
    exact h w addr he

def storeToPointer : List TraceEntity :=
  let pointer : Def := .adef 1 ⟨4, ['p'], ⟨1, .alloca⟩, false⟩ ⟨1, .alloca⟩ 0 4
  [.input ⟨0, ['i'], ⟨3, .instruction⟩,
    [.use ⟨.suse, 3, ['s'], ['f'], ⟨4, .instruction⟩, [pointer]⟩]⟩]

theorem storeToPointer_verified : ∃ v, traceParser (exportTrace storeToPointer) = some v ∧
    ∃ out, v.verifyInput (sentTrace [.defRec 0x10001 1000, .useRec 0x30001 1004]) = some out := by
  have hwell : WellFormed storeToPointer := ⟨by decide, by decide +kernel, by decide +kernel⟩
  have hread : (formattedTrace (sentTrace [.defRec 0x10001 1000, .useRec 0x30001 1004])).mapM readEntry =
      some [.defn 0x10001 1000, .use 0x30001 1004, .other] := by decide +kernel
  obtain ⟨v, hv, hiff⟩ := verifyInput_isSome_iff hwell hread (by decide +kernel)
  refine ⟨v, hv, hiff.mpr ?_⟩
  intro w addr hmem
  obtain ⟨rfl, -⟩ : w = 0x30001 ∧ addr = 1004 := by simpa using hmem
  exact ⟨2, by decide +kernel, fun _ => by decide +kernel⟩

theorem repeated_ddef_raises : WellFormed storeToHeap ∧
    (∀ e ∈ exportedLines storeToHeap, e.te.isUse = true →
      linesUnder (exportedLines storeToHeap) e.te.id ≠ []) ∧
    (∀ entry ∈ [Entry.ddefn 0x20001 1000 100, .use 0x30001 1016, .other],
      RightKind (exportedLines storeToHeap) entry) ∧
    (formattedTrace (sentTrace [.ddefRec 0x20001 1000 100, .useRec 0x30001 1016])).mapM readEntry =
      some [.ddefn 0x20001 1000 100, .use 0x30001 1016, .other] ∧
    ∃ v, traceParser (exportTrace storeToHeap) = some v ∧
      v.verifyInput (sentTrace [.ddefRec 0x20001 1000 100, .useRec 0x30001 1016]) = none := by
  refine ⟨⟨by decide, by decide +kernel, by decide +kernel⟩, by decide +kernel, by decide +kernel,
    by decide +kernel, ?_⟩
  have hrun : (traceParser (exportTrace storeToHeap)).map (fun v => (v.verifyInput
      (sentTrace [.ddefRec 0x20001 1000 100, .useRec 0x30001 1016])).isNone) = some true := by
    decide +kernel
  obtain ⟨v, hv, hnone⟩ := Option.map_eq_some_iff.mp hrun
  exact ⟨v, hv, Option.isNone_iff_eq_none.mp hnone⟩

end Embedwatch.Svf
