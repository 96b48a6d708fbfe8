import Embedwatch.Library.BreadthFirst
import Embedwatch.Svf.TraceDefs
import Embedwatch.Svf.ValueFlow

/-! The uses of an input: the stores that `traverseOnVFG` reaches along the sparse value-flow graph from
the definition of a value. -/

namespace Embedwatch.Svf

open Library.BreadthFirst Relation

inductive VFGNodeK
  | store
  | other
  deriving DecidableEq

structure UseGraph where
  svfg : SVFG
  defSVFGNode : Value → SVFGNode
  nodeKind : SVFGNode → VFGNodeK
  storeOf : SVFGNode → Option StoreNode
  iterate : Finset SVFGNode → List SVFGNode
  iterate_spec : ∀ s ⊆ (svfg.edges.map SVFGEdge.dst).toFinset,
    (iterate s).Nodup ∧ ∀ n, n ∈ iterate s ↔ n ∈ s

namespace UseGraph

variable (g : UseGraph)

def traverseOnVFG (rounds : ℕ) (val : Value) : Option (List SVFGNode) :=
  (run (pushRound g.svfg.next fun _ u => u) rounds ⟨[g.defSVFGNode val], ∅, ()⟩).map fun s =>
    g.iterate s.seen

def vfgNodeFilter (kind : VFGNodeK) (s : List SVFGNode) : List SVFGNode :=
  s.filter fun n => g.nodeKind n = kind

def storesFrom (rounds : ℕ) (v : Value) : Option (List StoreNode) :=
  (g.traverseOnVFG rounds v).map fun nodes => (g.vfgNodeFilter .store nodes).filterMap g.storeOf

variable {g} {v : Value}

theorem traverseOnVFG_reaches (v : Value) : ∃ nodes,
    g.traverseOnVFG (g.svfg.edges.length + 1) v = some nodes ∧ nodes.Nodup ∧
      ∀ n, n ∈ nodes ↔ TransGen (fun a b => b ∈ g.svfg.next a) (g.defSVFGNode v) n := by
  have hcard : (g.svfg.edges.map SVFGEdge.dst).toFinset.card + 1 ≤ g.svfg.edges.length + 1 := by
    have hlength := List.toFinset_card_le (g.svfg.edges.map SVFGEdge.dst)
    rw [List.length_map] at hlength
    omega
  have hdst : ∀ x y, y ∈ g.svfg.next x → y ∈ (g.svfg.edges.map SVFGEdge.dst).toFinset := by
    intro x y hy
    obtain ⟨e, he, rfl⟩ := List.mem_map.mp hy
    exact List.mem_toFinset.mpr (List.mem_map_of_mem (List.mem_filter.mp he).1)
  have hends : ∃ s, run (pushRound g.svfg.next fun _ u => u) (g.svfg.edges.length + 1)
      ⟨[g.defSVFGNode v], ∅, ()⟩ = some s := push_ends _ hdst hcard
  obtain ⟨s, hs⟩ := hends
  have hsub : s.seen ⊆ (g.svfg.edges.map SVFGEdge.dst).toFinset := by
    intro n hn
    obtain ⟨x, -, hx⟩ := TransGen.tail'_iff.mp ((push_reached hs).mp hn)
    exact hdst x n hx
  obtain ⟨hnodup, hmem⟩ := g.iterate_spec s.seen hsub
  refine ⟨g.iterate s.seen, ?_, hnodup, fun n => (hmem n).trans (push_reached hs)⟩
  rw [traverseOnVFG, hs]
  rfl

end UseGraph

def Graphs.usedValue (svf : Graphs) (p : PAGNode) : Option Value :=
  match p.value.kind with
  | .call _ => (svf.findTargetOfCall p).map PAGNode.value
  | _ => some p.value

variable {svf : Graphs} {s s' : State} {us : List ZUse} {use : StoreNode → Value}

lemma storeUses_instr {ns : List StoreNode} (h : svf.storeUses s use ns = some (us, s')) :
    us.map ZUse.instr = ns.map StoreNode.store := by
  induction ns generalizing s us with
  | nil =>
    cases h
    rfl
  | cons n ns ih =>
    obtain ⟨⟨ds, s₁⟩, hds, h⟩ := Option.bind_eq_some_iff.mp h
    obtain ⟨⟨rest, s₂⟩, hrest, h⟩ := Option.map_eq_some_iff.mp h
    cases h
    rw [List.map_cons, List.map_cons, ih hrest]

lemma uses_map_use (us : List ZUse) : (us.map SubObject.use).flatMap SubObject.uses = us := by
  induction us with
  | nil => rfl
  | cons u us ih =>
    rw [List.map_cons, List.flatMap_cons, ih]
    rfl

lemma inputDefs_uses {ps : List PAGNode} {subs : List SubObject}
    (h : svf.inputDefs s ps = some (subs, s')) : ∃ vs : List Value, ps.map svf.usedValue = vs.map some ∧
      (subs.flatMap SubObject.uses).map ZUse.instr =
        (vs.flatMap svf.storesFrom).map StoreNode.store := by
  induction ps generalizing s subs with
  | nil =>
    cases h
    exact ⟨[], rfl, rfl⟩
  | cons p ps ih =>
    rw [Graphs.inputDefs] at h
    obtain ⟨v, hv, h⟩ := Option.bind_eq_some_iff.mp h
    obtain ⟨⟨built, s₁⟩, hbuilt, h⟩ := Option.bind_eq_some_iff.mp h
    obtain ⟨d, hd, h⟩ := Option.bind_eq_some_iff.mp h
    obtain ⟨⟨us, s₂⟩, hus, h⟩ := Option.bind_eq_some_iff.mp h
    obtain ⟨⟨rest, s₃⟩, hrest, h⟩ := Option.map_eq_some_iff.mp h
    cases h
    obtain ⟨vs, hvs, hrest⟩ := ih hrest
    refine ⟨v :: vs, ?_, ?_⟩
    · have hused : svf.usedValue p = some v := hv
      rw [List.map_cons, List.map_cons, hused, hvs]
    · rw [List.flatMap_cons, List.map_append, ← storeUses_instr hus, ← hrest]
      simp only [List.flatMap_append, List.flatMap_cons, uses_map_use, SubObject.uses,
        List.nil_append, List.map_append]

theorem input_uses {g : UseGraph} {f : InputFunction} {c : CallSite}
    (hstores : ∀ v, g.storesFrom (g.svfg.edges.length + 1) v = some (svf.storesFrom v))
    (h : svf.input s f c = some s') :
    ∃ (param : PAGNode) (i : In) (before : List TraceEntity) (vs : List Value),
      svf.inputParam f c = some param ∧ s'.trace = before ++ [.input i] ∧
      i.call = c.call ∧ (svf.getDefNodes param).map svf.usedValue = vs.map some ∧
      ∃ nodes : Value → List SVFGNode,
        (∀ v, (nodes v).Nodup ∧ ∀ n, n ∈ nodes v ↔ g.nodeKind n = .store ∧
          TransGen (fun a b => b ∈ g.svfg.next a) (g.defSVFGNode v) n) ∧
        (TraceEntity.input i).uses.map ZUse.instr =
          (vs.flatMap fun v => (nodes v).filterMap g.storeOf).map StoreNode.store := by
  obtain ⟨param, hparam, h⟩ := Option.bind_eq_some_iff.mp h
  obtain ⟨⟨subs, s₁⟩, hsubs, h⟩ := Option.map_eq_some_iff.mp h
  cases h
  obtain ⟨vs, hvs, huses⟩ := inputDefs_uses hsubs
  have hreach := fun v => UseGraph.traverseOnVFG_reaches (g := g) v
  choose found hfound hnodup hmem using hreach
  refine ⟨param, _, s₁.trace, vs, hparam, rfl, rfl, hvs, fun v => g.vfgNodeFilter .store (found v),
    fun v => ⟨(hnodup v).filter _, fun n => ?_⟩, ?_⟩
  · simp only [UseGraph.vfgNodeFilter, List.mem_filter, hmem, decide_eq_true_eq, and_comm]
  · have heach : ∀ v, svf.storesFrom v = (g.vfgNodeFilter .store (found v)).filterMap g.storeOf := by
      intro v
      have hv := hstores v
      rw [UseGraph.storesFrom, hfound, Option.map_some] at hv
      exact (Option.some.inj hv).symm
    have hfun : svf.storesFrom = fun v => (g.vfgNodeFilter .store (found v)).filterMap g.storeOf :=
      funext heach
    rw [← hfun]
    exact huses

def storedAddress : UseGraph where
  svfg := ⟨[⟨⟨0, none⟩, ⟨1, none⟩⟩, ⟨⟨1, none⟩, ⟨0, none⟩⟩]⟩
  defSVFGNode _ := ⟨0, none⟩
  nodeKind n := if n.id = 1 then .store else .other
  storeOf n := if n.id = 1 then some ⟨[], [], ⟨5, .instruction⟩⟩ else none
  iterate s := [⟨1, none⟩, ⟨0, none⟩].filter (· ∈ s)
  iterate_spec s hs := by
    refine ⟨List.Nodup.filter _ (by decide), fun n => ?_⟩
    rw [List.mem_filter, decide_eq_true_eq, and_iff_right_iff_imp]
    intro hn
    have hdst := hs hn
    simp only [List.map_cons, List.map_nil, List.toFinset_cons, List.toFinset_nil,
      insert_empty_eq, Finset.mem_insert, Finset.mem_singleton] at hdst
    simpa only [List.mem_cons, List.not_mem_nil, or_false] using hdst

def storedGraphs : Graphs where
  valueType _ := 0
  allocatedType _ := 0
  globalType _ := 0
  structElements _ := none
  pointee _ := none
  allocSize _ := 4
  node v := ⟨0, [], v, false⟩
  getDefNodes p := [p]
  outEdges _ := 0
  findTargetOfCall _ := none
  findFirstStore _ := none
  findDefNodesFromStore _ := []
  defOfParam _ := none
  storesFrom v := (storedAddress.storesFrom 3 v).getD []
  pathsToUse _ _ := none
  stack := 1

def scanfCall : CallSite :=
  let node : PAGNode := ⟨0, [], ⟨0, .alloca⟩, false⟩
  ⟨⟨1, .call []⟩, [], [], [node, node], node⟩

theorem scanfCall_uses : ∃ s' i, storedGraphs.input .init .wrapperScanf scanfCall = some s' ∧
    s'.trace = [.input i] ∧ i.call = scanfCall.call ∧
    (TraceEntity.input i).uses.map ZUse.instr = [⟨5, .instruction⟩] := by
  have hstores : ∀ v, storedAddress.storesFrom (storedAddress.svfg.edges.length + 1) v =
      some (storedGraphs.storesFrom v) := fun _ => rfl
  have hinput : ∃ s', storedGraphs.input .init .wrapperScanf scanfCall = some s' := ⟨_, rfl⟩
  obtain ⟨s', hs'⟩ := hinput
  obtain ⟨param, i, before, vs, -, htrace, hcall, -, -⟩ := input_uses hstores hs'
  have hone : (storedGraphs.input .init .wrapperScanf scanfCall).map
      (fun s => s.trace.map fun te => te.uses.map ZUse.instr) = some [[⟨5, .instruction⟩]] := by
    decide +kernel
  rw [hs', Option.map_some, htrace, List.map_append, List.map_singleton] at hone
  obtain ⟨hbefore, hlast⟩ := List.append_eq_singleton_iff.mp (Option.some.inj hone) |>.resolve_right
    fun h => List.cons_ne_nil _ _ h.2
  obtain rfl := List.map_eq_nil_iff.mp hbefore
  exact ⟨s', i, hs', htrace, hcall, List.singleton_inj.mp hlast⟩

end Embedwatch.Svf
