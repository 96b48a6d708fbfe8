import Embedwatch.Library.FirstPaths
import Embedwatch.Library.Worklist
import Embedwatch.Svf.Entities

/-! The visits of the sparse value-flow graph in `visits.cpp`: the paths to a value, and the calls that
a node depends on. -/

namespace Embedwatch.Svf

open Relation Library.FirstPaths Library.Worklist

structure SVFGNode where
  id : ℕ
  value : Option Value
  deriving DecidableEq

structure SVFGEdge where
  src : SVFGNode
  dst : SVFGNode

structure SVFG where
  edges : List SVFGEdge

namespace SVFG

variable (g : SVFG)

def outEdges (n : SVFGNode) : List SVFGEdge := g.edges.filter fun e => e.src = n

def inEdges (n : SVFGNode) : List SVFGEdge := g.edges.filter fun e => e.dst = n

def next (n : SVFGNode) : List SVFGNode := (g.outEdges n).map SVFGEdge.dst

/-- The vectors that the calls of `concreteGetPathFromTo` share. -/
structure PathSearch where
  path : List SVFGNode
  visited : List SVFGNode
  ret : List (List SVFGNode)

def PathSearch.push (s : PathSearch) (target : Value) (n : SVFGNode) : PathSearch where
  path := s.path ++ [n]
  visited := s.visited
  ret := if n.value = some target then s.ret ++ [s.path ++ [n]] else s.ret

def PathSearch.pop (s : PathSearch) : PathSearch := { s with path := s.path.dropLast }

/-- With at most `depth` calls on the stack; the truth value that it returns is not used. -/
def concreteGetPathFromTo (target : Value) : ℕ → SVFGNode → PathSearch → Option PathSearch
  | 0, _, _ => none
  | depth + 1, source, s =>
    if source ∈ s.visited then some s
    else (g.outEdges source).foldlM
      (fun s p =>
        (concreteGetPathFromTo target depth p.dst (s.push target p.dst)).map PathSearch.pop)
      { s with visited := s.visited ++ [source] }

def getPathFromTo (depth : ℕ) (source : SVFGNode) (target : Value) : Option (List (List SVFGNode)) :=
  (g.concreteGetPathFromTo target depth source ⟨[], [], []⟩).map PathSearch.ret

def PathTo (source : SVFGNode) (target : Value) (l : List SVFGNode) : Prop :=
  List.IsChain (fun a b => b ∈ g.next a) (source :: l) ∧
    ∃ q m, l = q ++ [m] ∧ m.value = some target

def nodes (source : SVFGNode) : Finset SVFGNode := insert source (g.edges.map SVFGEdge.dst).toFinset

variable {g} {target : Value} {source a : SVFGNode}

lemma mem_nodes {e : SVFGEdge} (he : e ∈ g.outEdges a) : e.dst ∈ g.nodes source :=
  Finset.mem_insert_of_mem
    (List.mem_toFinset.mpr (List.mem_map_of_mem (List.mem_filter.mp he).1))

def FoundOver (g : SVFG) (target : Value) (V : Set SVFGNode) (dsts : List SVFGNode)
    (l : List SVFGNode) : Prop :=
  (∃ m ∈ dsts, m.value = some target ∧ l = [m]) ∨
    ∃ before c after b q m, dsts = before ++ c :: after ∧
      (∀ x ∈ before, ¬ Avoids g.next V x b) ∧ First g.next V c b q ∧ m ∈ g.next b ∧
      m.value = some target ∧ l = c :: (q ++ [m])

def Found (g : SVFG) (target : Value) (V : Set SVFGNode) (a : SVFGNode) (l : List SVFGNode) : Prop :=
  ∃ b q m, First g.next V a b q ∧ m ∈ g.next b ∧ m.value = some target ∧ l = q ++ [m]

lemma found_iff {V : Set SVFGNode} {l : List SVFGNode} (ha : a ∉ V) :
    Found g target V a l ↔ FoundOver g target (insert a V) (g.next a) l := by
  constructor
  · rintro ⟨b, q, m, hfirst, hm, htarget, rfl⟩
    cases hfirst with
    | here _ => exact Or.inl ⟨m, hm, htarget, rfl⟩
    | @step _ _ _ c before after q _ hnext hbefore hrest =>
      exact Or.inr ⟨before, c, after, b, q, m, hnext, hbefore, hrest, hm, htarget, rfl⟩
  · rintro (⟨m, hm, htarget, rfl⟩ | ⟨before, c, after, b, q, m, hnext, hbefore, hrest, hm, htarget, rfl⟩)
    · exact ⟨a, [], m, First.here ha, hm, htarget, rfl⟩
    · exact ⟨b, c :: q, m, First.step ha hnext hbefore hrest, hm, htarget, rfl⟩

lemma foundOver_concat {V : Set SVFGNode} {dsts l : List SVFGNode} {c : SVFGNode} :
    FoundOver g target V (dsts ++ [c]) l ↔
      FoundOver g target V dsts l ∨ (c.value = some target ∧ l = [c]) ∨
        ∃ b q m, (∀ x ∈ dsts, ¬ Avoids g.next V x b) ∧ First g.next V c b q ∧ m ∈ g.next b ∧
          m.value = some target ∧ l = c :: (q ++ [m]) := by
  constructor
  · rintro (⟨m, hm, hvalue, rfl⟩ | ⟨before, d, after, b, q, m, heq, hbefore, h⟩)
    · rcases List.mem_append.mp hm with hm | hm
      · exact Or.inl (Or.inl ⟨m, hm, hvalue, rfl⟩)
      · obtain rfl := List.mem_singleton.mp hm
        exact Or.inr (Or.inl ⟨hvalue, rfl⟩)
    · rcases List.eq_nil_or_concat' after with rfl | ⟨after, d', rfl⟩
      · obtain ⟨rfl, hd⟩ := List.append_inj' heq rfl
        obtain rfl := (List.cons.inj hd).1
        exact Or.inr (Or.inr ⟨b, q, m, hbefore, h⟩)
      · have heq' : dsts ++ [c] = (before ++ d :: after) ++ [d'] := by
          rw [heq, List.append_assoc, List.cons_append]
        exact Or.inl (Or.inr ⟨before, d, after, b, q, m, (List.append_inj' heq' rfl).1, hbefore, h⟩)
  · rintro ((⟨m, hm, h⟩ | ⟨before, d, after, b, q, m, rfl, h⟩) | ⟨hvalue, rfl⟩ |
      ⟨b, q, m, hbefore, h⟩)
    · exact Or.inl ⟨m, List.mem_append_left [c] hm, h⟩
    · exact Or.inr ⟨before, d, after ++ [c], b, q, m, by simp, h⟩
    · exact Or.inl ⟨c, List.mem_append_right dsts (List.mem_singleton_self c), hvalue, rfl⟩
    · exact Or.inr ⟨dsts, c, [], b, q, m, rfl, hbefore, h⟩

structure Visited (g : SVFG) (target : Value) (a : SVFGNode) (s s' : PathSearch) : Prop where
  path : s'.path = s.path
  visited : ∀ x, x ∈ s'.visited ↔ x ∈ s.visited ∨ Avoids g.next {y | y ∈ s.visited} a x
  ret : ∀ l, l ∈ s'.ret ↔
    l ∈ s.ret ∨ ∃ l', Found g target {y | y ∈ s.visited} a l' ∧ l = s.path ++ l'

structure Looped (g : SVFG) (target : Value) (V : Set SVFGNode) (dsts : List SVFGNode)
    (s s' : PathSearch) : Prop where
  path : s'.path = s.path
  visited : ∀ x, x ∈ s'.visited ↔ x ∈ V ∨ ∃ c ∈ dsts, Avoids g.next V c x
  ret : ∀ l, l ∈ s'.ret ↔
    l ∈ s.ret ∨ ∃ l', FoundOver g target V dsts l' ∧ l = s.path ++ l'

lemma Looped.dead {V : Set SVFGNode} {dsts : List SVFGNode} {s s' : PathSearch} {b : SVFGNode}
    (h : Looped g target V dsts s s') (hb : ∀ x ∈ dsts, ¬ Avoids g.next V x b) :
    ∀ x ∈ {y | y ∈ s'.visited}, x ∉ V → ¬ Avoids g.next V x b := by
  intro x hx hxV hxb
  obtain ⟨d, hd, hdx⟩ := ((h.visited x).mp hx).resolve_left hxV
  exact hb d hd (hdx.trans hxb)

lemma Looped.subset {V : Set SVFGNode} {dsts : List SVFGNode} {s s' : PathSearch}
    (h : Looped g target V dsts s s') : V ⊆ {y | y ∈ s'.visited} :=
  fun x hx => (h.visited x).mpr (Or.inl hx)

lemma Looped.first_iff {V : Set SVFGNode} {dsts q : List SVFGNode} {s s' : PathSearch}
    {b c : SVFGNode} (h : Looped g target V dsts s s') :
    First g.next {y | y ∈ s'.visited} c b q ↔
      (∀ x ∈ dsts, ¬ Avoids g.next V x b) ∧ First g.next V c b q := by
  constructor
  · intro hfirst
    have hb : ∀ x ∈ dsts, ¬ Avoids g.next V x b := by
      intro x hx hxb
      exact hfirst.avoids.end_notMem ((h.visited b).mpr (Or.inr ⟨x, hx, hxb⟩))
    exact ⟨hb, (First.enlarge_iff h.subset (h.dead hb)).mpr hfirst⟩
  · rintro ⟨hb, hfirst⟩
    exact (First.enlarge_iff h.subset (h.dead hb)).mp hfirst

lemma Looped.next {V : Set SVFGNode} {dsts : List SVFGNode} {s s₁ s₂ : PathSearch} {c : SVFGNode}
    (h : Looped g target V dsts s s₁)
    (hc : Visited g target c (s₁.push target c) s₂) :
    Looped g target V (dsts ++ [c]) s s₂.pop where
  path := by
    rw [PathSearch.pop, hc.path, PathSearch.push, List.dropLast_concat, h.path]
  visited x := by
    change x ∈ s₂.visited ↔ _
    rw [hc.visited, PathSearch.push, h.visited]
    constructor
    · rintro ((hx | ⟨d, hd, hdx⟩) | hcx)
      · exact Or.inl hx
      · exact Or.inr ⟨d, List.mem_append_left [c] hd, hdx⟩
      · exact Or.inr ⟨c, List.mem_append_right dsts (List.mem_singleton_self c),
          hcx.anti h.subset⟩
    · rintro (hx | ⟨d, hd, hdx⟩)
      · exact Or.inl (Or.inl hx)
      · by_cases hbefore : ∃ d ∈ dsts, Avoids g.next V d x
        · exact Or.inl (Or.inr hbefore)
        · have hb : ∀ d ∈ dsts, ¬ Avoids g.next V d x := fun d hd hdx => hbefore ⟨d, hd, hdx⟩
          rcases List.mem_append.mp hd with hd | hd
          · exact absurd hdx (hb d hd)
          · rw [List.mem_singleton.mp hd] at hdx
            exact Or.inr (hdx.enlarge (h.dead hb))
  ret l := by
    have hret : l ∈ (s₁.push target c).ret ↔
        l ∈ s₁.ret ∨ (c.value = some target ∧ l = s.path ++ [c]) := by
      rw [PathSearch.push]
      split <;> simp [*, h.path]
    change l ∈ s₂.ret ↔ _
    rw [hc.ret, hret, h.ret]
    simp only [foundOver_concat, Found, PathSearch.push, h.first_iff]
    constructor
    · rintro (((hl | ⟨l', hl', rfl⟩) | ⟨hvalue, rfl⟩) | ⟨l', ⟨b, q, m, ⟨hb, hq⟩, hm, hvalue, rfl⟩, rfl⟩)
      · exact Or.inl hl
      · exact Or.inr ⟨l', Or.inl hl', rfl⟩
      · exact Or.inr ⟨[c], Or.inr (Or.inl ⟨hvalue, rfl⟩), rfl⟩
      · refine Or.inr ⟨c :: (q ++ [m]), Or.inr (Or.inr ⟨b, q, m, hb, hq, hm, hvalue, rfl⟩), ?_⟩
        rw [h.path, List.append_assoc, List.singleton_append]
    · rintro (hl | ⟨l', hl' | ⟨hvalue, rfl⟩ | ⟨b, q, m, hb, hq, hm, hvalue, rfl⟩, rfl⟩)
      · exact Or.inl (Or.inl (Or.inl hl))
      · exact Or.inl (Or.inl (Or.inr ⟨l', hl', rfl⟩))
      · exact Or.inl (Or.inr ⟨hvalue, rfl⟩)
      · refine Or.inr ⟨q ++ [m], ⟨b, q, m, ⟨hb, hq⟩, hm, hvalue, rfl⟩, ?_⟩
        rw [h.path, List.append_assoc, List.singleton_append]

lemma Looped.fold {V : Set SVFGNode} {depth : ℕ} {es : List SVFGEdge} {dsts : List SVFGNode}
    {s s₁ : PathSearch}
    (hcall : ∀ e ∈ es, ∀ s', V ⊆ {y | y ∈ s'.visited} →
      ∃ s'', g.concreteGetPathFromTo target depth e.dst s' = some s'' ∧
        Visited g target e.dst s' s'')
    (h : Looped g target V dsts s s₁) :
    ∃ s₂, es.foldlM
        (fun s p =>
          (g.concreteGetPathFromTo target depth p.dst (s.push target p.dst)).map PathSearch.pop)
        s₁ = some s₂ ∧
      Looped g target V (dsts ++ es.map SVFGEdge.dst) s s₂ := by
  induction es generalizing dsts s₁ with
  | nil =>
    refine ⟨s₁, rfl, ?_⟩
    rw [List.map_nil, List.append_nil]
    exact h
  | cons e es ih =>
    obtain ⟨s', hs', hvisited⟩ := hcall e List.mem_cons_self (s₁.push target e.dst) h.subset
    obtain ⟨s₂, hs₂, hlooped⟩ :=
      ih (fun e' he' => hcall e' (List.mem_cons_of_mem e he')) (h.next hvisited)
    refine ⟨s₂, ?_, ?_⟩
    · rw [List.foldlM_cons, hs']
      exact hs₂
    · rw [List.append_assoc] at hlooped
      exact hlooped

lemma Looped.visited_all {s s' : PathSearch} (hmark : a ∉ s.visited)
    (h : Looped g target (insert a {y | y ∈ s.visited}) (g.next a) s s') :
    Visited g target a s s' where
  path := h.path
  visited x := by
    have hiff : Avoids g.next {y | y ∈ s.visited} a x ↔
        a = x ∨ ∃ c ∈ g.next a, Avoids g.next (insert a {y | y ∈ s.visited}) c x := avoids_iff hmark
    rw [h.visited, hiff, Set.mem_insert_iff, Set.mem_ofPred_eq, eq_comm, or_comm (a := a = x), or_assoc]
  ret l := by
    rw [h.ret]
    simp only [found_iff (g := g) (V := {y | y ∈ s.visited}) hmark]

theorem concreteGetPathFromTo_spec {depth : ℕ} {s : PathSearch} (ha : a ∈ g.nodes source)
    (hdepth : unmarked (g.nodes source) s.visited < depth) :
    ∃ s', g.concreteGetPathFromTo target depth a s = some s' ∧ Visited g target a s s' := by
  induction depth generalizing a s with
  | zero => omega
  | succ depth ih =>
    rw [concreteGetPathFromTo]
    by_cases hmark : a ∈ s.visited
    · rw [if_pos hmark]
      refine ⟨s, rfl, rfl, fun x => ?_, fun l => ?_⟩
      · exact ⟨Or.inl, fun h => h.resolve_right fun hax => hax.1 hmark⟩
      · refine ⟨Or.inl, fun h => h.resolve_right ?_⟩
        rintro ⟨l', ⟨b, q, m, hfirst, -⟩, -⟩
        exact hfirst.avoids.1 hmark
    · rw [if_neg hmark]
      let V : Set SVFGNode := insert a {y | y ∈ s.visited}
      have hmem : ∀ x, x ∈ s.visited ++ [a] ↔ x ∈ V := by
        intro x
        simp [V, or_comm]
      have hroom : unmarked (g.nodes source) (s.visited ++ [a]) < depth := by
        have hone := unmarked_cons ha hmark
        have hless : unmarked (g.nodes source) (s.visited ++ [a]) ≤
            unmarked (g.nodes source) (a :: s.visited) :=
          unmarked_anti fun x hx => (hmem x).mpr (List.mem_cons.mp hx)
        omega
      have hstart : Looped g target V [] s { s with visited := s.visited ++ [a] } := by
        refine ⟨rfl, fun x => ?_, fun l => ?_⟩
        · simp [hmem]
        · simp [FoundOver]
      have hcall : ∀ e ∈ g.outEdges a, ∀ s', V ⊆ {y | y ∈ s'.visited} →
          ∃ s'', g.concreteGetPathFromTo target depth e.dst s' = some s'' ∧
            Visited g target e.dst s' s'' := by
        intro e he s' hs'
        apply ih (mem_nodes he)
        have hless : unmarked (g.nodes source) s'.visited ≤
            unmarked (g.nodes source) (s.visited ++ [a]) :=
          unmarked_anti fun x hx => hs' ((hmem x).mp hx)
        omega
      obtain ⟨s₂, hs₂, hlooped⟩ := hstart.fold hcall
      exact ⟨s₂, hs₂, hlooped.visited_all hmark⟩

lemma card_nodes_le : (g.nodes source).card ≤ g.edges.length + 1 := by
  have hinsert := Finset.card_insert_le source (g.edges.map SVFGEdge.dst).toFinset
  have hlength := List.toFinset_card_le (g.edges.map SVFGEdge.dst)
  rw [List.length_map] at hlength
  exact hinsert.trans (Nat.add_le_add_right hlength 1)

lemma getPathFromTo_spec {depth : ℕ} (h : g.edges.length + 1 < depth) :
    ∃ ret, g.getPathFromTo depth source target = some ret ∧
      ∀ l, l ∈ ret ↔ Found g target ∅ source l := by
  have hroom : unmarked (g.nodes source) [] < depth := by
    have hall : unmarked (g.nodes source) [] ≤ (g.nodes source).card := Finset.card_filter_le _ _
    have hcard := @card_nodes_le g source
    omega
  obtain ⟨s', hs', hvisited⟩ := @concreteGetPathFromTo_spec g target source source depth ⟨[], [], []⟩
    (Finset.mem_insert_self source _) hroom
  refine ⟨s'.ret, by rw [getPathFromTo, hs', Option.map_some], fun l => ?_⟩
  rw [hvisited.ret]
  simp

lemma isChain_concat_iff {q : List SVFGNode} {m : SVFGNode} :
    List.IsChain (fun a b => b ∈ g.next a) (source :: (q ++ [m])) ↔
      List.IsChain (fun a b => b ∈ g.next a) (source :: q) ∧
        m ∈ g.next ((source :: q).getLast (List.cons_ne_nil source q)) := by
  rw [← List.cons_append, List.isChain_append]
  simp [List.getLast?_eq_some_getLast]

lemma Found.pathTo {V : Set SVFGNode} {l : List SVFGNode} (h : Found g target V source l) :
    g.PathTo source target l := by
  obtain ⟨b, q, m, hfirst, hm, hvalue, rfl⟩ := h
  refine ⟨isChain_concat_iff.mpr ⟨hfirst.isChain, ?_⟩, q, m, rfl, hvalue⟩
  rw [hfirst.getLast]
  exact hm

lemma found_concat_iff {q : List SVFGNode} {m : SVFGNode}
    (h : g.PathTo source target (q ++ [m])) :
    Found g target ∅ source (q ++ [m]) ↔
      First g.next ∅ source ((source :: q).getLast (List.cons_ne_nil source q)) q := by
  obtain ⟨hchain, q', m', heq, hvalue⟩ := h
  obtain ⟨rfl, hm⟩ := List.append_inj' heq rfl
  obtain rfl := (List.cons.inj hm).1
  constructor
  · rintro ⟨b, q', m', hfirst, -, -, heq⟩
    obtain ⟨rfl, -⟩ := List.append_inj' heq rfl
    rw [hfirst.getLast]
    exact hfirst
  · intro hfirst
    exact ⟨_, q, m, hfirst, (isChain_concat_iff.mp hchain).2, hvalue, rfl⟩

def FindsEveryPath (g : SVFG) (source : SVFGNode) (target : Value) : Prop :=
  ∀ depth > g.edges.length + 1, ∃ ret, g.getPathFromTo depth source target = some ret ∧
    (∀ l ∈ ret, g.PathTo source target l) ∧
    ∀ l, g.PathTo source target l → (source :: l).Nodup → l ∈ ret

theorem findsEveryPath_iff (g : SVFG) (source : SVFGNode) (target : Value) :
    FindsEveryPath g source target ↔
      ∀ q m, g.PathTo source target (q ++ [m]) → (source :: (q ++ [m])).Nodup →
        First g.next ∅ source ((source :: q).getLast (List.cons_ne_nil source q)) q := by
  constructor
  · intro h q m hpath hnodup
    obtain ⟨ret, hret, -, hall⟩ := h (g.edges.length + 2) (Nat.lt_succ_self _)
    obtain ⟨ret', hret', hiff⟩ :=
      @getPathFromTo_spec g target source (g.edges.length + 2) (Nat.lt_succ_self _)
    obtain rfl := Option.some.inj (hret.symm.trans hret')
    exact (found_concat_iff hpath).mp ((hiff _).mp (hall _ hpath hnodup))
  · intro h depth hdepth
    obtain ⟨ret, hret, hiff⟩ := @getPathFromTo_spec g target source depth hdepth
    refine ⟨ret, hret, fun l hl => ((hiff l).mp hl).pathTo, fun l hpath hnodup => ?_⟩
    obtain ⟨-, q, m, rfl, -⟩ := id hpath
    exact (hiff _).mpr ((found_concat_iff hpath).mpr (h q m hpath hnodup))

def flowNode (i : ℕ) : SVFGNode := ⟨i, some ⟨i, .instruction⟩⟩

def twoFields : SVFG where
  edges := [⟨flowNode 0, flowNode 1⟩, ⟨flowNode 0, flowNode 2⟩, ⟨flowNode 1, flowNode 3⟩,
    ⟨flowNode 2, flowNode 3⟩, ⟨flowNode 3, flowNode 4⟩]

theorem not_findsEveryPath_twoFields :
    ¬ FindsEveryPath twoFields (flowNode 0) ⟨4, .instruction⟩ := by
  intro h
  obtain ⟨ret, hret, -, hall⟩ := h 7 (by decide)
  have hfound : twoFields.getPathFromTo 7 (flowNode 0) ⟨4, .instruction⟩ =
      some [[flowNode 1, flowNode 3, flowNode 4]] := by decide
  obtain rfl := Option.some.inj (hret.symm.trans hfound)
  have hpath : twoFields.PathTo (flowNode 0) ⟨4, .instruction⟩
      [flowNode 2, flowNode 3, flowNode 4] := by
    refine ⟨?_, [flowNode 2, flowNode 3], flowNode 4, rfl, rfl⟩
    simp only [List.isChain_cons_cons, List.isChain_singleton, and_true]
    exact ⟨by decide, by decide, by decide⟩
  have hmem := hall _ hpath (by decide)
  revert hmem
  decide

def SVFGNode.isCall (n : SVFGNode) : Bool :=
  match n.value with
  | some v => match v.kind with
    | .call _ => true
    | _ => false
  | none => false

def visitAndSelectSVFGNodes (select : SVFGNode → Search SVFGNode → Search SVFGNode) (rounds : ℕ)
    (start : SVFGNode) : Option (List SVFGNode) :=
  run select rounds ⟨[start], [], []⟩

def selectCallBlockNodes (g : SVFG) (current : SVFGNode) (s : Search SVFGNode) :
    Search SVFGNode where
  worklist := (g.inEdges current).foldl
    (fun w e => if e.src ∈ current :: s.visited then w else e.src :: w) s.worklist
  visited := current :: s.visited
  ret := if SVFGNode.isCall current then s.ret.insert current else s.ret

def Depends (g : SVFG) (a b : SVFGNode) : Prop := a ∈ g.next b

def ancestors (g : SVFG) (start : SVFGNode) : Finset SVFGNode :=
  insert start (g.edges.map SVFGEdge.src).toFinset

lemma depends_iff {b : SVFGNode} : Depends g a b ↔ ∃ e ∈ g.inEdges a, e.src = b := by
  simp [Depends, next, outEdges, inEdges, and_comm, and_left_comm]

lemma foldl_push (visited : List SVFGNode) (es : List SVFGEdge) (w : List SVFGNode) :
    ∃ new, es.foldl (fun w e => if e.src ∈ visited then w else e.src :: w) w = new ++ w ∧
      new.length ≤ es.length ∧ (∀ x ∈ new, x ∉ visited ∧ ∃ e ∈ es, e.src = x) ∧
      ∀ e ∈ es, e.src ∈ visited ∨ e.src ∈ new := by
  induction es generalizing w with
  | nil => exact ⟨[], rfl, le_rfl, by simp, by simp⟩
  | cons e es ih =>
    rw [List.foldl_cons]
    by_cases hmark : e.src ∈ visited
    · rw [if_pos hmark]
      obtain ⟨new, heq, hlength, hnew, hall⟩ := ih w
      refine ⟨new, heq, Nat.le_succ_of_le hlength, fun x hx => ?_,
        List.forall_mem_cons.mpr ⟨Or.inl hmark, hall⟩⟩
      obtain ⟨hx', e', he', hsrc⟩ := hnew x hx
      exact ⟨hx', e', List.mem_cons_of_mem e he', hsrc⟩
    · rw [if_neg hmark]
      obtain ⟨new, heq, hlength, hnew, hall⟩ := ih (e.src :: w)
      refine ⟨new ++ [e.src], ?_, ?_, fun x hx => ?_, fun e' he' => ?_⟩
      · rw [heq, List.append_assoc]
        rfl
      · rw [List.length_append]
        exact Nat.add_le_add_right hlength 1
      · rcases List.mem_append.mp hx with hx | hx
        · obtain ⟨hx', e', he', hsrc⟩ := hnew x hx
          exact ⟨hx', e', List.mem_cons_of_mem e he', hsrc⟩
        · obtain rfl := List.mem_singleton.mp hx
          exact ⟨hmark, e, List.mem_cons_self, rfl⟩
      · rcases List.mem_cons.mp he' with rfl | he'
        · exact Or.inr (List.mem_append_right new (List.mem_singleton_self _))
        · exact (hall e' he').imp_right fun h => List.mem_append_left [e.src] h

structure CallsFound (g : SVFG) (start : SVFGNode) (s : Search SVFGNode) : Prop where
  searched : Library.Reachability.Searched (Depends g) start s.visited s.worklist
  known : ∀ x ∈ s.worklist, x ∈ ancestors g start
  ret : ∀ n, n ∈ s.ret ↔ n ∈ s.visited ∧ SVFGNode.isCall n = true

variable {start c : SVFGNode} {w v r : List SVFGNode}

lemma CallsFound.init : CallsFound g start ⟨[start], [], []⟩ where
  searched := Library.Reachability.Searched.init
  known x hx := by
    rw [List.mem_singleton.mp hx]
    exact Finset.mem_insert_self start _
  ret := by simp

lemma CallsFound.select (h : CallsFound g start ⟨c :: w, v, r⟩) :
    CallsFound g start (selectCallBlockNodes g c ⟨w, v, r⟩) := by
  obtain ⟨new, heq, -, hnew, hall⟩ := foldl_push (c :: v) (g.inEdges c) w
  rw [selectCallBlockNodes, heq]
  constructor
  · apply h.searched.expand (fun x => List.mem_cons)
    · intro x hx
      rcases List.mem_append.mp hx with hx | hx
      · exact Or.inr (depends_iff.mpr (hnew x hx).2)
      · exact Or.inl hx
    · exact fun x hx => List.mem_append_right new hx
    · intro y hy
      obtain ⟨e, he, rfl⟩ := depends_iff.mp hy
      exact (hall e he).imp_right fun h => List.mem_append_left w h
  · intro x hx
    rcases List.mem_append.mp hx with hx | hx
    · obtain ⟨-, e, he, rfl⟩ := hnew x hx
      exact Finset.mem_insert_of_mem
        (List.mem_toFinset.mpr (List.mem_map_of_mem (List.mem_filter.mp he).1))
    · exact h.known x (List.mem_cons_of_mem c hx)
  · intro n
    have hold := h.ret n
    by_cases hcall : SVFGNode.isCall c = true
    · rw [if_pos hcall, List.mem_insert_iff, hold, List.mem_cons]
      constructor
      · rintro (rfl | hn)
        · exact ⟨Or.inl rfl, hcall⟩
        · exact ⟨Or.inr hn.1, hn.2⟩
      · rintro ⟨rfl | hn, hn'⟩
        · exact Or.inl rfl
        · exact Or.inr ⟨hn, hn'⟩
    · rw [if_neg hcall, hold, List.mem_cons]
      constructor
      · exact fun hn => ⟨Or.inr hn.1, hn.2⟩
      · rintro ⟨rfl | hn, hn'⟩
        · exact absurd hn' hcall
        · exact ⟨hn, hn'⟩

lemma CallsFound.smaller (h : CallsFound g start ⟨c :: w, v, r⟩) :
    totalWeight (ancestors g start) g.edges.length (selectCallBlockNodes g c ⟨w, v, r⟩) <
      totalWeight (ancestors g start) g.edges.length ⟨c :: w, v, r⟩ := by
  obtain ⟨new, heq, hlength, hnew, -⟩ := foldl_push (c :: v) (g.inEdges c) w
  rw [selectCallBlockNodes, heq]
  apply totalWeight_lt (Or.inr (h.known c List.mem_cons_self)) fun x hx => (hnew x hx).1
  exact hlength.trans (List.length_filter_le _ _)

theorem selectCallBlockNodes_exact (g : SVFG) (start : SVFGNode) :
    ∃ calls, (∃ enough, ∀ rounds ≥ enough,
        visitAndSelectSVFGNodes (selectCallBlockNodes g) rounds start = some calls) ∧
      ∀ n, n ∈ calls ↔
        SVFGNode.isCall n = true ∧ ReflTransGen (fun a b => b ∈ g.next a) n start := by
  obtain ⟨calls, hcalls⟩ := run_of_measure (CallsFound g start)
    (totalWeight (ancestors g start) g.edges.length) (fun c w v r h => h.select)
    (fun c w v r h => h.smaller) CallsFound.init le_rfl
  refine ⟨calls, ⟨_, fun rounds hrounds => run_mono hcalls hrounds⟩, fun n => ?_⟩
  obtain ⟨visited, hend⟩ :=
    run_invariant (CallsFound g start) (fun c w v r h => h.select) CallsFound.init hcalls
  have hreach : ReflTransGen (fun a b => b ∈ g.next a) n start ↔ n ∈ visited := by
    rw [← hend.searched.done, ← reflTransGen_swap]
    rfl
  rw [hend.ret, hreach, and_comm]

end SVFG

end Embedwatch.Svf
