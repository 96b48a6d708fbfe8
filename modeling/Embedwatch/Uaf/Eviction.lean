import Mathlib.Data.FinEnum
import Embedwatch.Library.Elimination
import Embedwatch.Uaf.CsvExport
import Embedwatch.Uaf.HasPath

/-! The eviction of nodes from a copy of the control flow graph, the way to the graph of allocations and
frees that the analysis took before it searched for paths without forbidden nodes. -/

namespace Embedwatch.Uaf

open Library.BreadthFirst Library.Elimination Library.Reachability Relation

namespace Graph

variable {T : Type*} [FinEnum T]

def removeNode (g : Graph T) (value : T) : Graph T :=
  ⟨Function.update (fun n => (g.nodes n).map fun targets => targets.filter (· ≠ value)) value none⟩

def getIncomingNodes (iteration : Iteration T) (g : Graph T) (node : T) : List T :=
  iteration.order ((FinEnum.toList T).filter fun n => node ∈ g.getOutgoingNodes n)

def evict (iteration : Iteration T) (current : T) (g : Graph T) : Graph T :=
  let nodi_entranti := g.getIncomingNodes iteration current
  let nodi_uscenti := iteration.order (g.getOutgoingNodes current)
  nodi_entranti.foldl (fun g inNode => nodi_uscenti.foldl (fun g outNode => g.addEdge inNode outNode) g)
    (g.removeNode current)

def visitEvict (iteration : Iteration T) (evictionCriteria : T → Bool) (current : T) (g : Graph T) :
    Graph T :=
  if evictionCriteria current then g.evict iteration current else g

def traverseAndRemoveNodes (iteration : Iteration T) (evictionCriteria : T → Bool) (rounds : ℕ)
    (start : T) (g : Graph T) : Option (Graph T) :=
  (run (visitRound (fun g current => iteration.order (g.getOutgoingNodes current))
    (visitEvict iteration evictionCriteria)) rounds ⟨[start], ∅, g⟩).map Traversal.out

end Graph

namespace ICFG

variable {Node Inst : Type*} [DecidableEq Node]

def evictedIfNotAllocOrFree (icfg : ICFG Node Inst) (allocAndFreeICFGNode : List Node) (node : Node) :
    Bool :=
  allocAndFreeICFGNode.all fun n => icfg.getId n ≠ icfg.getId node

def copyNode (icfg : ICFG Node Inst) (current : Node) (g : Graph Node) : Graph Node :=
  (icfg.successors current).foldl (fun g succNode => (g.addNode succNode).addEdge current succNode)
    (g.addNode current)

def traverseAndCopyGraph (icfg : ICFG Node Inst) (rounds : ℕ) (start : Node) (g : Graph Node) :
    Option (Graph Node) :=
  (run (visitRound (fun _ => icfg.successors) icfg.copyNode) rounds
    ⟨[start], ∅, g.addNode start⟩).map Traversal.out

end ICFG

namespace Graph

variable {T : Type*} [FinEnum T] {iteration : Iteration T} {g g' : Graph T} {a b c x : T}

lemma edge_removeNode : (g.removeNode c).Edge a b ↔ g.Edge a b ∧ a ≠ c ∧ b ≠ c := by
  by_cases ha : a = c
  · subst ha
    simp [Edge, getOutgoingNodes, removeNode]
  · rw [Edge, Edge, getOutgoingNodes, getOutgoingNodes, removeNode]
    simp only [Function.update_of_ne ha]
    cases g.nodes a with
    | none => simp
    | some targets => simp [ha]

lemma mem_getIncomingNodes : a ∈ g.getIncomingNodes iteration c ↔ g.Edge a c := by
  rw [getIncomingNodes, (iteration.perm _).mem_iff, List.mem_filter, decide_eq_true_eq]
  exact and_iff_right (FinEnum.mem_toList a)

lemma evict_eq_foldl (iteration : Iteration T) (c : T) (g : Graph T) :
    g.evict iteration c = ((g.getIncomingNodes iteration c).flatMap fun inNode =>
      (iteration.order (g.getOutgoingNodes c)).map (GraphCall.addEdge inNode)).foldl perform
        (g.removeNode c) := by
  rw [List.foldl_flatMap, evict]
  simp only [List.foldl_map]
  rfl

lemma edge_evict : (g.evict iteration c).Edge a b ↔ Eliminated g.Edge c a b := by
  have hout : ∀ x, x ∈ iteration.order (g.getOutgoingNodes c) ↔ g.Edge c x :=
    fun x => (iteration.perm _).mem_iff
  have hjoin : .addEdge a b ∈ ((g.getIncomingNodes iteration c).flatMap fun inNode =>
      (iteration.order (g.getOutgoingNodes c)).map (GraphCall.addEdge inNode)) ↔
      g.Edge a c ∧ g.Edge c b := by
    simp only [List.mem_flatMap, List.mem_map, GraphCall.addEdge.injEq, mem_getIncomingNodes, hout]
    constructor
    · rintro ⟨x, hx, y, hy, rfl, rfl⟩
      exact ⟨hx, hy⟩
    · exact fun h => ⟨a, h.1, b, h.2, rfl, rfl⟩
  rw [Edge, evict_eq_foldl, mem_getOutgoingNodes_foldl, hjoin, Eliminated, ← edge_removeNode]
  exact Iff.rfl

lemma evict_edge : (g.evict iteration c).Edge = Eliminated g.Edge c := by
  funext a b
  exact propext edge_evict

def kept (evictionCriteria : T → Bool) (done : List T) : Set T :=
  {x | ¬ (x ∈ done ∧ evictionCriteria x = true)}

structure Evicting (g : Graph T) (evictionCriteria : T → Bool) (start : T) (done queue : List T)
    (g' : Graph T) : Prop where
  start_mem : start ∈ done ++ queue
  reachable : ∀ x ∈ done ++ queue, ReflTransGen g.Edge start x
  closed : ∀ x ∈ done, ∀ y, g.Edge x y → y ∈ done ++ queue
  sound : ∀ a b, g'.Edge a b → TransGen g.Edge a b
  bridges : Bridges g.Edge (kept evictionCriteria done) g'.Edge
  evicted : ∀ x ∉ kept evictionCriteria done, Isolated g'.Edge x ∨
    g'.Edge x x ∧ Cyclic g.Edge (kept evictionCriteria done)ᶜ
  cyclic : ∀ E, Cyclic g.Edge E → Cyclic g'.Edge E

variable {evictionCriteria : T → Bool} {start : T} {done queue new : List T}

omit [FinEnum T] in
lemma Evicting.init : Evicting g evictionCriteria start [] [start] g where
  start_mem := List.mem_singleton_self start
  reachable x hx := by
    obtain rfl := List.mem_singleton.mp hx
    exact ReflTransGen.refl
  closed _ hx := absurd hx List.not_mem_nil
  sound _ _ h := TransGen.single h
  bridges := by
    have hall : kept evictionCriteria [] = Set.univ := by
      ext x
      simp [kept]
    rw [hall]
    exact bridges_univ
  evicted x hx := absurd (fun h => absurd h.1 List.not_mem_nil) hx
  cyclic _ h := h

lemma kept_append (hc : evictionCriteria c = true) :
    kept evictionCriteria (done ++ [c]) = kept evictionCriteria done \ {c} := by
  ext x
  simp only [kept, List.mem_append, List.mem_singleton, Set.mem_sdiff, Set.mem_ofPred_eq,
    Set.mem_singleton_iff]
  by_cases hx : x = c
  · subst hx
    simp [hc]
  · simp [hx]

lemma kept_append_of_not (hc : evictionCriteria c = false) :
    kept evictionCriteria (done ++ [c]) = kept evictionCriteria done := by
  ext x
  simp only [kept, List.mem_append, List.mem_singleton, Set.mem_ofPred_eq]
  by_cases hx : x = c
  · subst hx
    simp [hc]
  · simp [hx]

lemma Evicting.visit (h : Evicting g evictionCriteria start done (c :: queue) g') (hc : c ∉ done) :
    (∀ a b, (visitEvict iteration evictionCriteria c g').Edge a b → TransGen g.Edge a b) ∧
    Bridges g.Edge (kept evictionCriteria (done ++ [c]))
      (visitEvict iteration evictionCriteria c g').Edge ∧
    (∀ x ∉ kept evictionCriteria (done ++ [c]),
      Isolated (visitEvict iteration evictionCriteria c g').Edge x ∨
        (visitEvict iteration evictionCriteria c g').Edge x x ∧
          Cyclic g.Edge (kept evictionCriteria (done ++ [c]))ᶜ) ∧
    ∀ E, Cyclic g.Edge E → Cyclic (visitEvict iteration evictionCriteria c g').Edge E := by
  cases hcrit : evictionCriteria c with
  | false =>
    rw [visitEvict, hcrit, kept_append_of_not hcrit]
    exact ⟨h.sound, h.bridges, h.evicted, h.cyclic⟩
  | true =>
    have hcK : c ∈ kept evictionCriteria done := fun h => hc h.1
    rw [visitEvict, hcrit, kept_append hcrit, if_pos rfl, evict_edge]
    refine ⟨fun a b hab => ?_, h.bridges.eliminate hcK, fun x hx => ?_,
      fun E hE => (h.cyclic E hE).eliminate c⟩
    · rcases hab with ⟨hab, -, -⟩ | ⟨hac, hcb⟩
      · exact h.sound a b hab
      · exact (h.sound a c hac).trans (h.sound c b hcb)
    · have hmore : (kept evictionCriteria done)ᶜ ⊆ (kept evictionCriteria done \ {c})ᶜ :=
        Set.compl_subset_compl.mpr Set.sdiff_subset
      by_cases hxc : x = c
      · subst hxc
        by_cases hloop : g'.Edge x x
        · refine Or.inr ⟨eliminated_loop hloop x, ?_⟩
          -- the path back to `x` runs over what has been evicted before
          have hdirect := (h.bridges x hcK x hcK).mp hloop
          exact cyclic_of_direct (fun y hy => hmore hy) (fun hx => hx.2 rfl) hdirect
        · exact Or.inl (isolated_eliminated hloop)
      · have hxK : x ∉ kept evictionCriteria done := fun h => hx ⟨h, hxc⟩
        rcases h.evicted x hxK with hiso | ⟨hloop, hcycle⟩
        · exact Or.inl (hiso.eliminate c)
        · exact Or.inr ⟨eliminated_loop hloop c, hcycle.mono hmore⟩

lemma keeps_evicting : Keeps (fun g current => iteration.order (g.getOutgoingNodes current))
    (visitEvict iteration evictionCriteria) (Evicting g evictionCriteria start) := by
  intro done c queue g' new h hnodup hpush
  have hc : c ∉ done := by
    intro hc
    exact (List.nodup_append.mp hnodup).2.2 c hc c List.mem_cons_self rfl
  have hnext : ∀ x, x ∈ new ↔ g'.Edge c x ∧ x ∉ done ++ c :: queue := by
    intro x
    rw [hpush.mem_iff, (iteration.perm _).mem_iff, List.mem_toFinset]
    exact Iff.rfl
  have hmem : ∀ x, x ∈ done ++ [c] ++ (queue ++ new) ↔ x ∈ done ++ c :: queue ∨ x ∈ new := by
    intro x
    simp only [List.mem_append, List.mem_cons, List.not_mem_nil, or_false]
    tauto
  obtain ⟨hsound, hbridges, hevicted, hcyclic⟩ := h.visit hc
  refine ⟨(hmem start).mpr (Or.inl h.start_mem), fun x hx => ?_, fun x hx y hxy => ?_, hsound,
    hbridges, hevicted, hcyclic⟩
  · rcases (hmem x).mp hx with hx | hx
    · exact h.reachable x hx
    · have hcx := h.sound c x ((hnext x).mp hx).1
      exact (h.reachable c (List.mem_append_right _ List.mem_cons_self)).trans hcx.to_reflTransGen
  · rw [hmem]
    rcases List.mem_append.mp hx with hx | hx
    · exact Or.inl (h.closed x hx y hxy)
    · obtain rfl := List.mem_singleton.mp hx
      by_cases hy : y ∈ done ++ x :: queue
      · exact Or.inl hy
      · -- neither end has been visited: the edge is still there
        have hydone : y ∉ done := fun hd => hy (List.mem_append_left _ hd)
        have hedge := (h.bridges x (fun h => hc h.1) y fun h => hydone h.1).mpr (Direct.single hxy)
        exact Or.inr ((hnext y).mpr ⟨hedge, hy⟩)

theorem traverseAndRemoveNodes_bridges (iteration : Iteration T) (evictionCriteria : T → Bool) (start : T)
    (g : Graph T) : ∃ g', g.traverseAndRemoveNodes iteration evictionCriteria (Fintype.card T) start =
        some g' ∧
      Bridges g.Edge {x | ¬ (ReflTransGen g.Edge start x ∧ evictionCriteria x = true)} g'.Edge ∧
      (∀ a b, g'.Edge a b → TransGen g.Edge a b) ∧
      ((∀ x, ReflTransGen g.Edge start x → evictionCriteria x = true → Isolated g'.Edge x) ↔
        ¬ Cyclic g.Edge {x | ReflTransGen g.Edge start x ∧ evictionCriteria x = true}) := by
  have hvisiting : Visiting [] (⟨[start], ∅, g⟩ : Traversal T (Graph T)) :=
    Visiting.init start ∅ (fun x hx => absurd hx (Finset.notMem_empty x)) g
  obtain ⟨s', hs'⟩ : ∃ s', run (visitRound (fun g current => iteration.order (g.getOutgoingNodes current))
      (visitEvict iteration evictionCriteria)) (Fintype.card T) ⟨[start], ∅, g⟩ = some s' :=
    visit_ends Finset.univ keeps_evicting (fun done c queue out _ x _ => Finset.mem_univ x) hvisiting
      Evicting.init (fun x _ => Finset.mem_univ x) (Nat.le_refl _)
  obtain ⟨done, -, -, h⟩ := visit_invariant keeps_evicting hvisiting Evicting.init hs'
  have hmet := h.start_mem
  have hreachable := h.reachable
  have hclosed := h.closed
  rw [List.append_nil] at hmet hreachable hclosed
  have hdone : ∀ x, x ∈ done ↔ ReflTransGen g.Edge start x := by
    refine fun x => ⟨hreachable x, fun hx => ?_⟩
    induction hx with
    | refl => exact hmet
    | tail _ hxy ih => exact hclosed _ ih _ hxy
  have hkept : kept evictionCriteria done =
      {x | ¬ (ReflTransGen g.Edge start x ∧ evictionCriteria x = true)} := by
    simp only [kept, hdone]
  have hevictable : (kept evictionCriteria done)ᶜ =
      {x | ReflTransGen g.Edge start x ∧ evictionCriteria x = true} := by
    ext x
    rw [hkept]
    exact not_not
  refine ⟨s'.out, ?_, ?_, h.sound, ?_⟩
  · rw [traverseAndRemoveNodes, hs']
    rfl
  · rw [← hkept]
    exact h.bridges
  · rw [← hevictable]
    constructor
    · intro hiso hcycle
      obtain ⟨x, hx, y, hxy⟩ := (h.cyclic _ hcycle).exists_edge
      rw [hevictable] at hx
      exact (hiso x hx.1 hx.2 y).1 hxy
    · intro hnone x hx hcrit
      have hxK : x ∉ kept evictionCriteria done := fun h => h ⟨(hdone x).mpr hx, hcrit⟩
      rcases h.evicted x hxK with hiso | ⟨-, hcycle⟩
      · exact hiso
      · exact absurd hcycle hnone

end Graph

namespace ICFG

variable {Node Inst : Type*}

section Copy

variable [DecidableEq Node] {icfg : ICFG Node Inst} {a b : Node}

lemma edge_foldl_succ (current : Node) (succs : List Node) (g : Graph Node) :
    (succs.foldl (fun g succNode => (g.addNode succNode).addEdge current succNode) g).Edge a b ↔
      g.Edge a b ∨ a = current ∧ b ∈ succs := by
  induction succs generalizing g with
  | nil => simp
  | cons x succs ih =>
    rw [List.foldl_cons, ih, Graph.Edge, Graph.mem_getOutgoingNodes_addEdge,
      Graph.getOutgoingNodes_addNode, List.mem_cons, Graph.Edge]
    tauto

lemma edge_copyNode (current : Node) (g : Graph Node) :
    (icfg.copyNode current g).Edge a b ↔ g.Edge a b ∨ a = current ∧ icfg.Edge a b := by
  rw [copyNode, edge_foldl_succ, Graph.Edge, Graph.getOutgoingNodes_addNode]
  apply or_congr_right
  constructor
  · rintro ⟨rfl, hb⟩
    exact ⟨rfl, hb⟩
  · rintro ⟨rfl, hb⟩
    exact ⟨rfl, hb⟩

lemma edge_foldl_copyNode (order : List Node) (g : Graph Node) :
    (order.foldl (fun g c => icfg.copyNode c g) g).Edge a b ↔ g.Edge a b ∨ a ∈ order ∧ icfg.Edge a b := by
  induction order generalizing g with
  | nil => simp
  | cons c order ih =>
    rw [List.foldl_cons, ih, edge_copyNode, List.mem_cons]
    tauto

lemma traverseAndCopyGraph_edges [Fintype Node] (icfg : ICFG Node Inst) (start : Node) :
    ∃ g, icfg.traverseAndCopyGraph (Fintype.card Node) start Graph.empty = some g ∧
      g.Edge = Reached icfg.Edge start := by
  have hmarked : ∀ x ∈ (∅ : Finset Node), x = start := fun x hx => absurd hx (Finset.notMem_empty x)
  obtain ⟨s', hs'⟩ : ∃ s', run (visitRound (fun _ => icfg.successors) icfg.copyNode) (Fintype.card Node)
      ⟨[start], ∅, Graph.empty.addNode start⟩ = some s' :=
    visit_order_ends Finset.univ (Finset.mem_univ start) (fun x _ y _ => Finset.mem_univ y) hmarked
      (Nat.le_refl _)
  obtain ⟨order, -, hmem, hout⟩ := visit_order hmarked hs'
  refine ⟨s'.out, ?_, ?_⟩
  · rw [traverseAndCopyGraph, hs']
    rfl
  · funext a b
    have hnone : ¬ (Graph.empty.addNode start).Edge a b := by
      rw [Graph.Edge, Graph.getOutgoingNodes_addNode, Graph.getOutgoingNodes_empty]
      exact List.not_mem_nil
    rw [hout, edge_foldl_copyNode, hmem]
    exact propext (or_iff_right hnone)

lemma evictedIfNotAllocOrFree_iff (icfg : ICFG Node Inst) (nodes : List Node) (n : Node) :
    icfg.evictedIfNotAllocOrFree nodes n = true ↔ n ∉ nodes := by
  rw [evictedIfNotAllocOrFree, List.all_eq_true]
  simp only [decide_eq_true_eq, ne_eq, icfg.getId_injective.eq_iff]
  constructor
  · exact fun h hn => h n hn rfl
  · rintro h x hx rfl
    exact h hx

end Copy

section Agreement

variable [FinEnum Node]

lemma evicted_edge {icfg : ICFG Node Inst} {nodes : List Node} {start a b : Node} {g : Graph Node}
    (hbridges : Bridges (Reached icfg.Edge start) {x | ¬ (ReflTransGen (Reached icfg.Edge start) start x ∧
      icfg.evictedIfNotAllocOrFree nodes x = true)} g.Edge)
    (ha : a ∈ nodes) (hb : b ∈ nodes) (hreach : ReflTransGen icfg.Edge start a) :
    g.Edge a b ↔ Direct icfg.Edge {x | x ∈ nodes} a b := by
  simp only [reachable_reached_iff, evictedIfNotAllocOrFree_iff] at hbridges
  rw [hbridges a (fun h => h.2 ha) b (fun h => h.2 hb), direct_reached_iff hreach]
  constructor
  · intro h
    exact Direct.congr_reachable (fun x _ hx hmem => hx fun h => h.2 hmem) hreach h
  · intro h
    exact Direct.congr_reachable (fun x hx hmem hkept => hkept ⟨hx, hmem⟩) hreach h

theorem evicted_agrees (icfg : ICFG Node Inst) (iteration : Iteration Node)
    (freeList allocList : List (Site Node Inst)) (start : Node) :
    ∃ copied g, icfg.traverseAndCopyGraph (Fintype.card Node) start Graph.empty = some copied ∧
      copied.traverseAndRemoveNodes iteration
        (icfg.evictedIfNotAllocOrFree (icfg.allocAndFreeAndDefNodes freeList allocList))
        (Fintype.card Node) start = some g ∧
      ∀ a ∈ icfg.allocAndFreeAndDefNodes freeList allocList,
        ∀ b ∈ icfg.allocAndFreeAndDefNodes freeList allocList, ReflTransGen icfg.Edge start a →
          (a ≠ b → (g.Edge a b ↔
            (icfg.createAllocFreeFlowGraph Graph.empty freeList allocList).Edge a b)) ∧
          g.hasPath a b = (icfg.createAllocFreeFlowGraph Graph.empty freeList allocList).hasPath a b := by
  obtain ⟨copied, hcopied, hedges⟩ := icfg.traverseAndCopyGraph_edges start
  obtain ⟨g, hg, hbridges, hsound, -⟩ := copied.traverseAndRemoveNodes_bridges iteration
    (icfg.evictedIfNotAllocOrFree (icfg.allocAndFreeAndDefNodes freeList allocList)) start
  rw [hedges] at hbridges hsound
  have hcontracts := icfg.createAllocFreeFlowGraph_contracts freeList allocList
  have hedge : ∀ a ∈ icfg.allocAndFreeAndDefNodes freeList allocList,
      ∀ b ∈ icfg.allocAndFreeAndDefNodes freeList allocList, ReflTransGen icfg.Edge start a → a ≠ b →
        (g.Edge a b ↔ (icfg.createAllocFreeFlowGraph Graph.empty freeList allocList).Edge a b) := by
    intro a ha b hb hreach hab
    rw [evicted_edge hbridges ha hb hreach, hcontracts a b, ← direct_remove_ends hab]
    simp only [Set.mem_ofPred_eq, ha, hb, hab, true_and, false_or]
  refine ⟨copied, g, hcopied, hg, fun a ha b hb hreach => ⟨hedge a ha b hb hreach, ?_⟩⟩
  rw [Bool.eq_iff_iff, Graph.hasPath_iff, Graph.hasPath_iff]
  constructor
  · intro h
    apply (hcontracts.reachable_iff ha hb).mpr
    clear hb
    induction h with
    | refl => exact ReflTransGen.refl
    | tail _ hxy ih =>
      have hpath := TransGen.mono (fun c d h => h.2) _ _ (hsound _ _ hxy)
      exact ih.trans hpath.to_reflTransGen
  · intro h
    clear hb
    induction h with
    | refl => exact ReflTransGen.refl
    | @tail x y hax hxy ih =>
      obtain ⟨hx, hy, -⟩ := (hcontracts x y).mp hxy
      by_cases heq : x = y
      · subst heq
        exact ih
      · have hreachx := hreach.trans (hcontracts.sound hax)
        exact ih.tail ((hedge x hx y hy hreachx heq).mpr hxy)

end Agreement

end ICFG

end Embedwatch.Uaf
