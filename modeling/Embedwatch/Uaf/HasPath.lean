import Embedwatch.Library.Worklist
import Embedwatch.Uaf.AllocFreeFlow

/-! The search of `Graph::hasPath` over nodes of any type, infinite ones too: a graph is what a sequence
of calls has built, and the search takes the neighbours of a node in the order of their hash set,
whatever this order is. A search that takes more rounds than it is given has no result. -/

namespace Embedwatch.Uaf

open Library.Reachability Library.Worklist Relation

structure Iteration (T : Type*) where
  order : List T → List T
  perm : ∀ l, (order l).Perm l

inductive GraphCall (T : Type*)
  | addNode (value : T)
  | addEdge (fromNode toNode : T)

def GraphCall.target {T : Type*} : GraphCall T → Option T
  | .addNode _ => none
  | .addEdge _ toNode => some toNode

namespace Graph

variable {T : Type*} [DecidableEq T]

def perform (g : Graph T) : GraphCall T → Graph T
  | .addNode value => g.addNode value
  | .addEdge fromNode toNode => g.addEdge fromNode toNode

def build (calls : List (GraphCall T)) : Graph T := calls.foldl perform empty

variable (iteration : Iteration T) (g : Graph T) (node1 node2 : T)

/-- A round of the loop of `hasPath`. The result is `node2` where the source returns true, and the
search is over then. -/
def visitNode (current : T) (s : Search T) : Search T :=
  if current = node2 then ⟨[], s.visited, [node2]⟩
  else
    let visited := current :: s.visited
    let neighbors := (iteration.order (g.getOutgoingNodes current)).filter (· ∉ visited)
    ⟨neighbors.reverse ++ s.worklist, visited, s.ret⟩

def hasPathWithin (rounds : ℕ) : Option Bool :=
  (run (visitNode iteration g node2) rounds ⟨[node1], [], []⟩).map (· ≠ [])

variable {iteration g node1 node2} {calls : List (GraphCall T)} {a b c : T} {w v r : List T}

lemma mem_getOutgoingNodes_perform (g : Graph T) (call : GraphCall T) (a b : T) :
    b ∈ (g.perform call).getOutgoingNodes a ↔
      b ∈ g.getOutgoingNodes a ∨ call = .addEdge a b := by
  cases call with
  | addNode value => simp [perform, getOutgoingNodes_addNode]
  | addEdge fromNode toNode =>
    rw [perform, mem_getOutgoingNodes_addEdge, GraphCall.addEdge.injEq]
    simp only [eq_comm]

lemma mem_getOutgoingNodes_foldl (calls : List (GraphCall T)) (g : Graph T) (a b : T) :
    b ∈ (calls.foldl perform g).getOutgoingNodes a ↔
      b ∈ g.getOutgoingNodes a ∨ .addEdge a b ∈ calls := by
  induction calls generalizing g with
  | nil => simp
  | cons call calls ih =>
    rw [List.foldl_cons, ih, mem_getOutgoingNodes_perform, List.mem_cons, or_assoc]
    simp only [eq_comm]

lemma edge_build : (build calls).Edge a b ↔ .addEdge a b ∈ calls := by
  rw [Edge, build, mem_getOutgoingNodes_foldl, getOutgoingNodes_empty]
  simp

lemma length_getOutgoingNodes_perform (g : Graph T) (call : GraphCall T) (a : T) :
    ((g.perform call).getOutgoingNodes a).length ≤ (g.getOutgoingNodes a).length + 1 := by
  cases call with
  | addNode value =>
    rw [perform, getOutgoingNodes_addNode]
    omega
  | addEdge fromNode toNode =>
    by_cases h : a = fromNode
    · subst h
      simp only [perform, getOutgoingNodes, addEdge, Function.update_self, Option.getD_some]
      rw [List.length_insert]
      split <;> omega
    · simp only [perform, getOutgoingNodes, addEdge, Function.update_of_ne h]
      omega

lemma length_getOutgoingNodes_foldl (calls : List (GraphCall T)) (g : Graph T) (a : T) :
    ((calls.foldl perform g).getOutgoingNodes a).length ≤
      (g.getOutgoingNodes a).length + calls.length := by
  induction calls generalizing g with
  | nil => exact Nat.le_refl _
  | cons call calls ih =>
    have hcall := length_getOutgoingNodes_perform g call a
    have hcalls := ih (g.perform call)
    rw [List.foldl_cons, List.length_cons]
    omega

def metNodes (start : T) (calls : List (GraphCall T)) : Finset T :=
  (start :: calls.filterMap GraphCall.target).toFinset

lemma start_mem_metNodes (start : T) : start ∈ metNodes start calls := by
  rw [metNodes, List.mem_toFinset]
  exact List.mem_cons_self

lemma mem_metNodes_of_edge {start : T} (h : (build calls).Edge a b) :
    b ∈ metNodes start calls := by
  rw [metNodes, List.mem_toFinset]
  apply List.mem_cons_of_mem
  exact List.mem_filterMap.mpr ⟨.addEdge a b, edge_build.mp h, rfl⟩

lemma visitNode_hit : visitNode iteration g node2 node2 ⟨w, v, r⟩ = ⟨[], v, [node2]⟩ := by
  rw [visitNode, if_pos rfl]

lemma visitNode_miss (iteration : Iteration T) (h : c ≠ node2) : ∃ new,
    visitNode iteration g node2 c ⟨w, v, r⟩ = ⟨new ++ w, c :: v, r⟩ ∧
    new.length ≤ (g.getOutgoingNodes c).length ∧
    ∀ x, x ∈ new ↔ g.Edge c x ∧ x ∉ c :: v := by
  rw [visitNode, if_neg h]
  have hperm := iteration.perm (g.getOutgoingNodes c)
  refine ⟨_, rfl, ?_, fun x => ?_⟩
  · rw [List.length_reverse, ← hperm.length_eq]
    exact List.length_filter_le _ _
  · rw [List.mem_reverse, List.mem_filter, hperm.mem_iff, decide_eq_true_eq]
    exact Iff.rfl

lemma weight_pos (nodes : Finset T) (bound : ℕ) (v : List T) (x : T) :
    0 < weight nodes bound v x := Nat.pow_pos bound.succ_pos

lemma visitNode_smaller (hc : c ∈ metNodes node1 calls) :
    totalWeight (metNodes node1 calls) calls.length
        (visitNode iteration (build calls) node2 c ⟨w, v, r⟩) <
      totalWeight (metNodes node1 calls) calls.length ⟨c :: w, v, r⟩ := by
  by_cases h : c = node2
  · subst h
    rw [visitNode_hit, totalWeight, totalWeight, List.map_cons, List.sum_cons]
    apply Nat.lt_of_lt_of_le (weight_pos _ _ v c)
    exact Nat.le_add_right _ _
  · obtain ⟨new, heq, hlength, hnew⟩ := visitNode_miss iteration h
    rw [heq]
    apply totalWeight_lt (Or.inr hc) fun x hx => ((hnew x).mp hx).2
    have := length_getOutgoingNodes_foldl calls empty c
    rw [getOutgoingNodes_empty, List.length_nil, Nat.zero_add] at this
    exact hlength.trans this

structure Seeks (calls : List (GraphCall T)) (node1 node2 : T) (s : Search T) : Prop where
  known : ∀ x ∈ s.worklist, x ∈ metNodes node1 calls
  found : Searched (build calls).Edge node1 s.visited s.worklist ∧ node2 ∉ s.visited ∧ s.ret = [] ∨
    s.worklist = [] ∧ ReflTransGen (build calls).Edge node1 node2 ∧ s.ret = [node2]

lemma Seeks.init : Seeks calls node1 node2 ⟨[node1], [], []⟩ where
  known x hx := by
    rw [List.mem_singleton.mp hx]
    exact start_mem_metNodes node1
  found := Or.inl ⟨Searched.init, List.not_mem_nil, rfl⟩

lemma Seeks.searched (h : Seeks calls node1 node2 ⟨c :: w, v, r⟩) :
    Searched (build calls).Edge node1 v (c :: w) ∧ node2 ∉ v ∧ r = [] := by
  rcases h.found with hsearched | ⟨hnil, -⟩
  · exact hsearched
  · cases hnil

lemma Seeks.visitNode (h : Seeks calls node1 node2 ⟨c :: w, v, r⟩) :
    Seeks calls node1 node2 (visitNode iteration (build calls) node2 c ⟨w, v, r⟩) := by
  obtain ⟨hsearched, hfresh, hret⟩ := h.searched
  by_cases hc : c = node2
  · subst hc
    rw [visitNode_hit]
    refine ⟨fun x hx => absurd hx List.not_mem_nil, Or.inr ⟨rfl, ?_, rfl⟩⟩
    exact hsearched.reachable c (Or.inr List.mem_cons_self)
  · obtain ⟨new, heq, -, hnew⟩ := visitNode_miss iteration hc
    rw [heq]
    refine ⟨fun x hx => ?_, Or.inl ⟨?_, ?_, hret⟩⟩
    · rcases List.mem_append.mp hx with hx | hx
      · exact mem_metNodes_of_edge ((hnew x).mp hx).1
      · exact h.known x (List.mem_cons_of_mem c hx)
    · apply hsearched.expand (fun x => List.mem_cons)
      · intro x hx
        rcases List.mem_append.mp hx with hx | hx
        · exact Or.inr ((hnew x).mp hx).1
        · exact Or.inl hx
      · exact fun x hx => List.mem_append_right new hx
      · intro y hy
        by_cases hmark : y ∈ c :: v
        · exact Or.inl hmark
        · exact Or.inr (List.mem_append_left w ((hnew y).mpr ⟨hy, hmark⟩))
    · rw [List.mem_cons, not_or]
      exact ⟨Ne.symm hc, hfresh⟩

lemma Seeks.result (h : Seeks calls node1 node2 ⟨[], v, r⟩) :
    r ≠ [] ↔ ReflTransGen (build calls).Edge node1 node2 := by
  rcases h.found with ⟨hsearched, hfresh, hret⟩ | ⟨-, hreach, hret⟩
  · have hnone : ¬ ReflTransGen (build calls).Edge node1 node2 := by
      rw [hsearched.done]
      exact hfresh
    exact ⟨fun hne => absurd hret hne, fun hreach => absurd hreach hnone⟩
  · refine ⟨fun _ => hreach, fun _ hnil => ?_⟩
    exact List.cons_ne_nil node2 [] (hret.symm.trans hnil)

lemma hasPathWithin_correct {rounds : ℕ} {found : Bool}
    (h : hasPathWithin iteration (build calls) node1 node2 rounds = some found) :
    found = true ↔ ReflTransGen (build calls).Edge node1 node2 := by
  obtain ⟨ret, hrun, rfl⟩ := Option.map_eq_some_iff.mp h
  obtain ⟨visited, hseeks⟩ :=
    run_invariant (Seeks calls node1 node2) (fun c w v r h => h.visitNode) Seeks.init hrun
  rw [decide_eq_true_eq]
  exact hseeks.result

lemma hasPathWithin_ends (iteration : Iteration T) (calls : List (GraphCall T)) (node1 node2 : T) :
    ∃ rounds found, ∀ more, rounds ≤ more →
      hasPathWithin iteration (build calls) node1 node2 more = some found := by
  let size := totalWeight (metNodes node1 calls) calls.length
  have hrun : ∃ ret, run (visitNode iteration (build calls) node2) (size ⟨[node1], [], []⟩)
      ⟨[node1], [], []⟩ = some ret := by
    apply run_of_measure (Seeks calls node1 node2) size (fun c w v r h => h.visitNode)
    · exact fun c w v r h => visitNode_smaller (h.known c List.mem_cons_self)
    · exact Seeks.init
    · exact Nat.le_refl _
  obtain ⟨ret, hret⟩ := hrun
  refine ⟨size ⟨[node1], [], []⟩, decide (ret ≠ []), fun more hmore => ?_⟩
  rw [hasPathWithin, run_mono hret hmore]
  rfl

theorem hasPath_decides (iteration : Iteration T) (calls : List (GraphCall T)) (node1 node2 : T) :
    ∃ rounds found, (∀ more, rounds ≤ more →
        hasPathWithin iteration (build calls) node1 node2 more = some found) ∧
      (found = true ↔
        node1 = node2 ∨ TransGen (fun a b => GraphCall.addEdge a b ∈ calls) node1 node2) := by
  obtain ⟨rounds, found, hends⟩ := hasPathWithin_ends iteration calls node1 node2
  refine ⟨rounds, found, hends, ?_⟩
  have hedge : (build calls).Edge = fun a b => GraphCall.addEdge a b ∈ calls := by
    funext a b
    exact propext edge_build
  rw [hasPathWithin_correct (hends rounds (Nat.le_refl _)), hedge,
    reflTransGen_iff_eq_or_transGen, eq_comm]

theorem hasPathWithin_eq_hasPath [Fintype T] {rounds : ℕ} {found : Bool}
    (h : hasPathWithin iteration (build calls) node1 node2 rounds = some found) :
    (build calls).hasPath node1 node2 = found := by
  rw [Bool.eq_iff_iff, hasPath_iff, hasPathWithin_correct h]

example : hasPathWithin ⟨fun l => l, fun l => List.Perm.refl l⟩
    (build [.addNode 0, .addEdge 0 1, .addEdge 1 2, .addEdge 2 1, .addEdge 2 2, .addEdge 3 0]) 0 3 9
      = some false := by decide

end Graph

end Embedwatch.Uaf
