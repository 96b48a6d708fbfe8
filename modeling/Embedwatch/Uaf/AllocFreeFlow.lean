import Embedwatch.Library.Reachability

/-! The graph that the use-after-free analysis carves out of the control flow graph: its nodes are
the allocations, the frees and their definitions, and its searches are those of the source. -/

namespace Embedwatch.Uaf

open Library.Reachability Relation

structure ICFGEdge (Node : Type*) where
  getDstNode : Node

structure PAGEdge (Inst : Type*) where
  getInst : Option Inst

structure PAGNode (Inst : Type*) where
  getOutEdges : List (PAGEdge Inst)

structure ICFG (Node Inst : Type*) where
  getId : Node → UInt32
  getOutEdges : Node → List (ICFGEdge Node)
  getICFGNode : Inst → Node
  getId_injective : Function.Injective getId

structure Site (Node Inst : Type*) where
  icfgNode : Node
  defs : List (PAGNode Inst)

structure Graph (T : Type*) where
  nodes : T → Option (List T)

namespace Graph

variable {T : Type*} [DecidableEq T]

def empty : Graph T := ⟨fun _ => none⟩

def addNode (g : Graph T) (value : T) : Graph T :=
  match g.nodes value with
  | none => ⟨Function.update g.nodes value (some [])⟩
  | some _ => g

def addEdge (g : Graph T) (fromNode toNode : T) : Graph T :=
  ⟨Function.update g.nodes fromNode (some (((g.nodes fromNode).getD []).insert toNode))⟩

def getOutgoingNodes (g : Graph T) (node : T) : List T := (g.nodes node).getD []

omit [DecidableEq T] in
lemma getOutgoingNodes_empty (node : T) : (empty : Graph T).getOutgoingNodes node = [] := rfl

lemma getOutgoingNodes_addNode (g : Graph T) (value node : T) :
    (g.addNode value).getOutgoingNodes node = g.getOutgoingNodes node := by
  unfold addNode
  split
  · next hv =>
    by_cases h : node = value
    · subst h
      simp [getOutgoingNodes, hv]
    · simp [getOutgoingNodes, h]
  · rfl

lemma mem_getOutgoingNodes_addEdge (g : Graph T) (a b node x : T) :
    x ∈ (g.addEdge a b).getOutgoingNodes node ↔
      x ∈ g.getOutgoingNodes node ∨ node = a ∧ x = b := by
  by_cases h : node = a
  · subst h
    simp [getOutgoingNodes, addEdge, or_comm]
  · simp [getOutgoingNodes, addEdge, h]

lemma mem_insert_visited (visited : List T) (current x : T) :
    x ∈ visited.insert current ↔ x = current ∨ x ∈ visited := List.mem_insert_iff

/-- The loop of `hasPath`. The neighbours are pushed one after the other, so that the last of them
is the next one taken. -/
def hasPathLoop [Fintype T] (g : Graph T) (node2 : T) (visited : List T) : List T → Bool
  | [] => false
  | current :: stack =>
    if current = node2 then true
    else
      let visited' := visited.insert current
      hasPathLoop g node2 visited'
        (((g.getOutgoingNodes current).filter (· ∉ visited')).reverse ++ stack)
termination_by stack => (unvisited visited, (stack.filter (· ∈ visited)).length)
decreasing_by
  by_cases hc : current ∈ visited
  · have hi : visited.insert current = visited := List.insert_of_mem hc
    simp only [hi]
    apply Prod.Lex.right
    simp [List.filter_append, List.filter_filter, hc]
  · exact Prod.Lex.left _ _ (unvisited_lt hc (mem_insert_visited visited current))

variable [Fintype T]

def hasPath (g : Graph T) (node1 node2 : T) : Bool := hasPathLoop g node2 [] [node1]

def Edge (g : Graph T) (a b : T) : Prop := b ∈ g.getOutgoingNodes a

lemma hasPathLoop_iff (g : Graph T) {node1 node2 : T} {visited stack : List T}
    (h : Searched g.Edge node1 visited stack) (hn : node2 ∉ visited) :
    g.hasPathLoop node2 visited stack = true ↔ ReflTransGen g.Edge node1 node2 := by
  fun_induction hasPathLoop g node2 visited stack with
  | case1 visited => simp [h.done, hn]
  | case2 visited stack =>
    simp only [true_iff]
    exact h.reachable _ (Or.inr List.mem_cons_self)
  | case3 visited current stack hne visited' ih =>
    have hv := mem_insert_visited visited current
    apply ih
    · refine h.expand hv ?_ ?_ ?_
      · intro x hx
        rcases List.mem_append.mp hx with hx | hx
        · exact Or.inr (List.mem_filter.mp (List.mem_reverse.mp hx)).1
        · exact Or.inl hx
      · exact fun x hx => List.mem_append.mpr (Or.inr hx)
      · intro y hy
        by_cases hyv : y ∈ visited'
        · exact Or.inl hyv
        · right
          apply List.mem_append.mpr
          left
          exact List.mem_reverse.mpr (List.mem_filter.mpr ⟨hy, by simpa using hyv⟩)
    · intro hm
      rcases (hv node2).mp hm with rfl | hm
      · exact hne rfl
      · exact hn hm

theorem hasPath_iff (g : Graph T) (node1 node2 : T) :
    g.hasPath node1 node2 = true ↔ ReflTransGen g.Edge node1 node2 :=
  hasPathLoop_iff g Searched.init (by simp)

end Graph

variable {Node Inst : Type*}

namespace ICFG

def Edge (icfg : ICFG Node Inst) (a b : Node) : Prop :=
  b ∈ (icfg.getOutEdges a).map ICFGEdge.getDstNode

/-- The node of the instruction on the first edge out of `n`. -/
def getICFGNodeFromPAGNode (icfg : ICFG Node Inst) (n : PAGNode Inst) : Option Node :=
  match n.getOutEdges with
  | [] => none
  | e :: _ => e.getInst.map icfg.getICFGNode

def siteNodes (icfg : ICFG Node Inst) (s : Site Node Inst) : List Node :=
  s.icfgNode :: s.defs.filterMap icfg.getICFGNodeFromPAGNode

def allocAndFreeAndDefNodes (icfg : ICFG Node Inst) (freeList allocList : List (Site Node Inst)) :
    List Node :=
  freeList.flatMap icfg.siteNodes ++ allocList.flatMap icfg.siteNodes

variable [DecidableEq Node]

/-- The inner loop of `existPathWithoutForbiddenNodes`: `none` when it meets `nodeB`, else the
queue with the successors pushed at its end. -/
def pushSuccessors (icfg : ICFG Node Inst) (nodeB : Node) (forbiddenNodesId : List UInt32)
    (visited : List Node) : List (ICFGEdge Node) → List Node → Option (List Node)
  | [], worklist => some worklist
  | outEdge :: outEdges, worklist =>
    let succNode := outEdge.getDstNode
    if icfg.getId succNode ∉ forbiddenNodesId ∧ succNode ∉ visited then
      if icfg.getId succNode = icfg.getId nodeB then none
      else icfg.pushSuccessors nodeB forbiddenNodesId visited outEdges (worklist ++ [succNode])
    else icfg.pushSuccessors nodeB forbiddenNodesId visited outEdges worklist

def Allowed (icfg : ICFG Node Inst) (forbiddenNodesId : List UInt32) (a b : Node) : Prop :=
  icfg.Edge a b ∧ icfg.getId b ∉ forbiddenNodesId

lemma pushSuccessors_none {icfg : ICFG Node Inst} {nodeB : Node} {forbidden : List UInt32}
    {visited worklist : List Node} {edges : List (ICFGEdge Node)}
    (h : icfg.pushSuccessors nodeB forbidden visited edges worklist = none) :
    nodeB ∈ edges.map ICFGEdge.getDstNode ∧ icfg.getId nodeB ∉ forbidden := by
  fun_induction pushSuccessors icfg nodeB forbidden visited edges worklist with
  | case1 => cases h
  | case2 e edges worklist succNode hs hB =>
    obtain rfl := icfg.getId_injective hB
    exact ⟨List.mem_cons_self, hs.1⟩
  | case3 e edges worklist succNode hs hB ih =>
    exact ⟨List.mem_cons_of_mem _ (ih h).1, (ih h).2⟩
  | case4 e edges worklist succNode hs ih =>
    exact ⟨List.mem_cons_of_mem _ (ih h).1, (ih h).2⟩

lemma pushSuccessors_some {icfg : ICFG Node Inst} {nodeB : Node} {forbidden : List UInt32}
    {visited worklist work : List Node} {edges : List (ICFGEdge Node)}
    (h : icfg.pushSuccessors nodeB forbidden visited edges worklist = some work) :
    ∀ x, x ∈ work ↔ x ∈ worklist ∨
      x ∈ edges.map ICFGEdge.getDstNode ∧ icfg.getId x ∉ forbidden ∧ x ∉ visited := by
  fun_induction pushSuccessors icfg nodeB forbidden visited edges worklist with
  | case1 worklist =>
    obtain rfl : worklist = work := by simpa using h
    simp
  | case2 => cases h
  | case3 e edges worklist succNode hs hB ih =>
    intro x
    rw [ih h x]
    by_cases hx : x = succNode
    · subst hx
      simp [succNode, hs]
    · have hx' : x ≠ e.getDstNode := hx
      simp [hx, hx']
  | case4 e edges worklist succNode hs ih =>
    intro x
    rw [ih h x]
    by_cases hx : x = succNode
    · subst hx
      have hs' : ¬ (icfg.getId e.getDstNode ∉ forbidden ∧ e.getDstNode ∉ visited) := hs
      simp only [succNode, hs', and_false]
    · have hx' : x ≠ e.getDstNode := hx
      simp [hx']

lemma pushSuccessors_not_mem {icfg : ICFG Node Inst} {nodeB : Node} {forbidden : List UInt32}
    {visited worklist work : List Node} {edges : List (ICFGEdge Node)}
    (h : icfg.pushSuccessors nodeB forbidden visited edges worklist = some work)
    (hB : nodeB ∉ worklist) : nodeB ∉ work := by
  fun_induction pushSuccessors icfg nodeB forbidden visited edges worklist with
  | case1 worklist =>
    obtain rfl : worklist = work := by simpa using h
    exact hB
  | case2 => cases h
  | case3 e edges worklist succNode hs hne ih =>
    apply ih h
    intro hm
    rcases List.mem_append.mp hm with hm | hm
    · exact hB hm
    · exact hne (congrArg icfg.getId (List.mem_singleton.mp hm).symm)
  | case4 e edges worklist succNode hs ih => exact ih h hB

omit [DecidableEq Node] in
lemma mem_visit (visited : List Node) (current x : Node) :
    x ∈ visited ++ [current] ↔ x = current ∨ x ∈ visited := by
  simp [or_comm]

def existPathLoop [Fintype Node] (icfg : ICFG Node Inst) (nodeB : Node) (forbiddenNodesId : List UInt32)
    (visited : List Node) : List Node → Bool
  | [] => false
  | current :: worklist =>
    if current ∈ visited then icfg.existPathLoop nodeB forbiddenNodesId visited worklist
    else
      let visited' := visited ++ [current]
      match icfg.pushSuccessors nodeB forbiddenNodesId visited' (icfg.getOutEdges current)
          worklist with
      | none => true
      | some worklist' => icfg.existPathLoop nodeB forbiddenNodesId visited' worklist'
termination_by worklist => (unvisited visited, worklist.length)
decreasing_by
  · apply Prod.Lex.right
    simp
  · exact Prod.Lex.left _ _ (unvisited_lt ‹current ∉ visited› (mem_visit visited current))

variable [Fintype Node]

def existPathWithoutForbiddenNodes (icfg : ICFG Node Inst) (nodeA nodeB : Node)
    (forbiddenNodesId : List UInt32) : Bool :=
  if icfg.getId nodeA = icfg.getId nodeB then true
  else icfg.existPathLoop nodeB forbiddenNodesId [] [nodeA]

lemma existPathLoop_iff (icfg : ICFG Node Inst) {nodeA nodeB : Node} {forbidden : List UInt32}
    {visited worklist : List Node}
    (h : Searched (icfg.Allowed forbidden) nodeA visited worklist)
    (hv : nodeB ∉ visited) (hw : nodeB ∉ worklist) :
    icfg.existPathLoop nodeB forbidden visited worklist = true ↔
      ReflTransGen (icfg.Allowed forbidden) nodeA nodeB := by
  fun_induction existPathLoop icfg nodeB forbidden visited worklist with
  | case1 visited => simp [h.done, hv]
  | case2 visited current worklist hc ih =>
    exact ih (h.skip hc) hv fun hm => hw (List.mem_cons_of_mem _ hm)
  | case3 visited current worklist hc visited' hpush =>
    obtain ⟨hedge, hB⟩ := pushSuccessors_none hpush
    simp only [true_iff]
    exact (h.reachable current (Or.inr List.mem_cons_self)).tail ⟨hedge, hB⟩
  | case4 visited current worklist hc visited' work hpush ih =>
    have hmem := pushSuccessors_some hpush
    have hvisit := mem_visit visited current
    apply ih
    · refine h.expand hvisit ?_ ?_ ?_
      · intro x hx
        rcases (hmem x).mp hx with hx | ⟨hedge, hx, _⟩
        · exact Or.inl hx
        · exact Or.inr ⟨hedge, hx⟩
      · exact fun x hx => (hmem x).mpr (Or.inl hx)
      · rintro y ⟨hedge, hy⟩
        by_cases hyv : y ∈ visited'
        · exact Or.inl hyv
        · exact Or.inr ((hmem y).mpr (Or.inr ⟨hedge, hy, hyv⟩))
    · intro hm
      rcases (hvisit nodeB).mp hm with rfl | hm
      · exact hw List.mem_cons_self
      · exact hv hm
    · exact pushSuccessors_not_mem hpush fun hm => hw (List.mem_cons_of_mem _ hm)

lemma existPathWithoutForbiddenNodes_iff (icfg : ICFG Node Inst) (nodeA nodeB : Node)
    (forbidden : List UInt32) :
    icfg.existPathWithoutForbiddenNodes nodeA nodeB forbidden = true ↔
      ReflTransGen (icfg.Allowed forbidden) nodeA nodeB := by
  unfold existPathWithoutForbiddenNodes
  split
  · next h =>
    obtain rfl := icfg.getId_injective h
    simp only [true_iff]
    exact ReflTransGen.refl
  · next h =>
    apply existPathLoop_iff icfg Searched.init
    · simp
    · intro hm
      exact h (congrArg icfg.getId (List.mem_singleton.mp hm).symm)

def forbiddenNodesId (icfg : ICFG Node Inst) (nodes : List Node) (nodeA nodeB : Node) :
    List UInt32 :=
  ((nodes.map icfg.getId).filter (· ≠ icfg.getId nodeB)).filter (· ≠ icfg.getId nodeA)

def createAllocFreeFlowGraph (icfg : ICFG Node Inst) (g : Graph Node)
    (freeList allocList : List (Site Node Inst)) : Graph Node :=
  let nodes := icfg.allocAndFreeAndDefNodes freeList allocList
  nodes.foldl (fun g nodeA => nodes.foldl (fun g nodeB =>
    if icfg.existPathWithoutForbiddenNodes nodeA nodeB (icfg.forbiddenNodesId nodes nodeA nodeB) then
      ((g.addNode nodeA).addNode nodeB).addEdge nodeA nodeB
    else g) g) g

omit [Fintype Node] in
lemma edge_foldl_row (path : Node → Bool) (nodeA a b : Node) (nodes : List Node) (g : Graph Node) :
    (nodes.foldl (fun g nodeB => if path nodeB then
      ((g.addNode nodeA).addNode nodeB).addEdge nodeA nodeB else g) g).Edge a b ↔
      g.Edge a b ∨ a = nodeA ∧ b ∈ nodes ∧ path b = true := by
  induction nodes generalizing g with
  | nil => simp
  | cons nodeB nodes ih =>
    rw [List.foldl_cons, ih]
    by_cases hp : path nodeB = true
    · simp only [hp, if_true, Graph.Edge, Graph.mem_getOutgoingNodes_addEdge,
        Graph.getOutgoingNodes_addNode, List.mem_cons]
      by_cases hb : b = nodeB
      · subst hb
        simp [hp]
        tauto
      · simp [hb]
    · simp only [hp, List.mem_cons]
      by_cases hb : b = nodeB
      · subst hb
        simp [hp]
      · simp [hb]

omit [Fintype Node] in
lemma edge_foldl (path : Node → Node → Bool) (a b : Node) (nodes rows : List Node)
    (g : Graph Node) :
    (rows.foldl (fun g nodeA => nodes.foldl (fun g nodeB => if path nodeA nodeB then
      ((g.addNode nodeA).addNode nodeB).addEdge nodeA nodeB else g) g) g).Edge a b ↔
      g.Edge a b ∨ a ∈ rows ∧ b ∈ nodes ∧ path a b = true := by
  induction rows generalizing g with
  | nil => simp
  | cons nodeA rows ih =>
    rw [List.foldl_cons, ih, edge_foldl_row]
    by_cases ha : a = nodeA
    · subst ha
      simp
      tauto
    · simp [ha]

omit [Fintype Node] in
lemma allowed_iff (icfg : ICFG Node Inst) (nodes : List Node) (nodeA nodeB a b : Node) :
    icfg.Allowed (icfg.forbiddenNodesId nodes nodeA nodeB) a b ↔
      icfg.Edge a b ∧ b ∉ {x | x ∈ nodes} \ {nodeA, nodeB} := by
  have hid : ∀ x y, icfg.getId x = icfg.getId y ↔ x = y :=
    fun x y => icfg.getId_injective.eq_iff
  simp only [Allowed, forbiddenNodesId, List.mem_filter, List.mem_map, hid, exists_eq_right,
    decide_eq_true_eq, Set.mem_sdiff, Set.mem_ofPred_eq, Set.mem_insert_iff, Set.mem_singleton_iff,
    ne_eq]
  tauto

theorem createAllocFreeFlowGraph_contracts (icfg : ICFG Node Inst)
    (freeList allocList : List (Site Node Inst)) :
    Contracts icfg.Edge {x | x ∈ icfg.allocAndFreeAndDefNodes freeList allocList}
      (icfg.createAllocFreeFlowGraph Graph.empty freeList allocList).Edge := by
  intro a b
  let nodes := icfg.allocAndFreeAndDefNodes freeList allocList
  have hempty : ¬ (Graph.empty : Graph Node).Edge a b := by
    simp [Graph.Edge, Graph.getOutgoingNodes_empty]
  have hstep : icfg.Allowed (icfg.forbiddenNodesId nodes a b) =
      fun x y => icfg.Edge x y ∧ y ∉ {x | x ∈ nodes} \ {a, b} := by
    funext x y
    exact propext (icfg.allowed_iff nodes a b x y)
  have hpath : icfg.existPathWithoutForbiddenNodes a b (icfg.forbiddenNodesId nodes a b) = true ↔
      a = b ∨ Direct icfg.Edge ({x | x ∈ nodes} \ {a, b}) a b := by
    rw [existPathWithoutForbiddenNodes_iff, hstep]
    exact reachable_avoiding_iff (by simp)
  calc (icfg.createAllocFreeFlowGraph Graph.empty freeList allocList).Edge a b
      ↔ Graph.empty.Edge a b ∨ a ∈ nodes ∧ b ∈ nodes ∧
          icfg.existPathWithoutForbiddenNodes a b (icfg.forbiddenNodesId nodes a b) = true :=
        edge_foldl (fun a b => icfg.existPathWithoutForbiddenNodes a b
          (icfg.forbiddenNodesId nodes a b)) a b nodes nodes Graph.empty
    _ ↔ a ∈ nodes ∧ b ∈ nodes ∧ (a = b ∨ Direct icfg.Edge ({x | x ∈ nodes} \ {a, b}) a b) := by
        rw [hpath]
        simp only [hempty, false_or]

theorem createAllocFreeFlowGraph_hasPath (icfg : ICFG Node Inst)
    (freeList allocList : List (Site Node Inst)) (nodeA nodeB : Node)
    (hA : nodeA ∈ icfg.allocAndFreeAndDefNodes freeList allocList)
    (hB : nodeB ∈ icfg.allocAndFreeAndDefNodes freeList allocList) :
    (nodeB ∈ (icfg.createAllocFreeFlowGraph Graph.empty freeList allocList).getOutgoingNodes nodeA ↔
      nodeA = nodeB ∨ ∃ p, List.IsChain icfg.Edge (nodeA :: (p ++ [nodeB])) ∧
        ∀ x ∈ p, x ∈ icfg.allocAndFreeAndDefNodes freeList allocList → x = nodeA ∨ x = nodeB) ∧
    ((icfg.createAllocFreeFlowGraph Graph.empty freeList allocList).hasPath nodeA nodeB = true ↔
      ReflTransGen icfg.Edge nodeA nodeB) := by
  have hc := icfg.createAllocFreeFlowGraph_contracts freeList allocList
  constructor
  · have hedge := hc nodeA nodeB
    simp only [Set.mem_ofPred_eq, hA, hB, true_and] at hedge
    apply hedge.trans
    simp only [Direct, Set.mem_sdiff, Set.mem_ofPred_eq, Set.mem_insert_iff,
      Set.mem_singleton_iff, not_and, not_not]
  · rw [Graph.hasPath_iff]
    exact hc.reachable_iff hA hB

end ICFG

def line : ICFG (Fin 3) Unit where
  getId n := ⟨⟨n, by omega⟩⟩
  getOutEdges n := if h : n.val + 1 < 3 then [⟨⟨n + 1, h⟩⟩] else []
  getICFGNode _ := 0
  getId_injective m n h := by
    have h' := congrArg UInt32.toNat h
    exact Fin.ext h'

theorem hasPath_line :
    (2 ∈ (line.createAllocFreeFlowGraph Graph.empty [⟨0, []⟩] [⟨2, []⟩]).getOutgoingNodes 0 ↔
      (0 : Fin 3) = 2 ∨ ∃ p, List.IsChain line.Edge (0 :: (p ++ [2])) ∧
        ∀ x ∈ p, x ∈ line.allocAndFreeAndDefNodes [⟨0, []⟩] [⟨2, []⟩] → x = 0 ∨ x = 2) ∧
    ((line.createAllocFreeFlowGraph Graph.empty [⟨0, []⟩] [⟨2, []⟩]).hasPath 0 2 = true ↔
      ReflTransGen line.Edge 0 2) :=
  line.createAllocFreeFlowGraph_hasPath [⟨0, []⟩] [⟨2, []⟩] 0 2 (by simp [ICFG.allocAndFreeAndDefNodes,
    ICFG.siteNodes]) (by simp [ICFG.allocAndFreeAndDefNodes, ICFG.siteNodes])

end Embedwatch.Uaf
