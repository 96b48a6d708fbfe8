import Embedwatch.Svf.DefNodes
import Embedwatch.Svf.FirstHits

/-! What a call allocates for, and what a store may write: the searches of `visits.cpp` that start at a
call of an allocating function and at a store. -/

namespace Embedwatch.Svf.Visits

open Relation Library.Worklist

variable (pag : PAG) (svf : Graphs) (storeOperand : Value → Option Value) (rounds : ℕ)

def findDefNodesFromStore (si : Value) : Option (List PAGNode) := do
  let start := pag.useStart svf (pag.useTarget si)
  let ret ← getDefNodes pag rounds start
  some (if pag.addrEdges start = [] then ret else ret ++ [start])

/-- The stores into what the call is first stored to, up to the first that is not from a dummy node;
`storeOperand` is the pointer operand of a store instruction. Without a first store, and where that edge
is not one of a store instruction, the program crashes. -/
def findTargetOfCall (callNode : PAGNode) : Option (Option PAGNode) := do
  let found ← findFirstStore pag rounds callNode
  let storeNode ← found
  match (pag.storeEdges storeNode).find? fun e => !pag.isDummy e.src with
  | none => some none
  | some e => do
    let si ← e.value
    let target ← storeOperand si
    findFirstDominator pag rounds (svf.node target)

/-- Not set for a node without an outgoing address edge. -/
def isDominatorNode (pn : PAGNode) : Option Bool :=
  (pag.addrEdges pn).getLast?.map fun e => 1 < (pag.inEdges e.dst).length

def Defines (d n : PAGNode) : Prop := ∃ m, ReflTransGen (Fed pag) n m ∧ AddrSource pag m d

def StoresToOperand : Prop :=
  ∀ e ∈ pag.edges, e.kind = .store →
    ∀ target, e.value.bind storeOperand = some target → svf.node target = e.dst

structure AddressOf (v : Value) (o : PAGNode) : Prop where
  addr : ∃ e ∈ pag.inEdges (svf.node v), e.kind = .addr ∧ e.value = some v
  source : ∀ e ∈ pag.inEdges (svf.node v), e.kind = .addr ∨ e.value = some v → e.src = o
  only : ∀ e ∈ pag.addrEdges o, e.dst = svf.node v
  object : pag.isDummy o = false
  first : pag.inEdges o = []

variable {pag svf storeOperand rounds} {call pointer d start : PAGNode} {si : Value}

lemma storeAt_of_findFirstStore (h : findFirstStore pag rounds call = some (some pointer)) :
    ∃ c, ReflTransGen (fun a b => storeAt pag a = none ∧ b ∈ storeNext pag a) call c ∧
      storeAt pag c = some pointer := by
  obtain ⟨ret, hret, hhead⟩ := Option.map_eq_some_iff.mp h
  rw [visitAndSelectPagNodes, selectFirstStore_eq] at hret
  rcases run_first hret with ⟨x, hx, c, p, hxc, hc, rfl⟩ | ⟨rfl, -⟩
  · obtain rfl := List.mem_singleton.mp hx
    obtain rfl := Option.some.inj hhead
    exact ⟨c, hxc, hc⟩
  · cases hhead

lemma defines_of_findFirstDominator (h : findFirstDominator pag rounds start = some (some d)) :
    Defines pag d start := by
  obtain ⟨ret, hret, hhead⟩ := Option.map_eq_some_iff.mp h
  rw [visitAndSelectPagNodes, selectFirstDominator_eq] at hret
  rcases run_first hret with ⟨x, hx, m, p, hxm, hm, rfl⟩ | ⟨rfl, -⟩
  · obtain rfl := List.mem_singleton.mp hx
    obtain rfl := Option.some.inj hhead
    refine ⟨m, ReflTransGen.mono ?_ _ _ hxm, ?_⟩
    · rintro a b ⟨hmiss, hb⟩
      obtain ⟨e, he, hdummy, hsrc⟩ := mem_followed.mp hb
      exact ⟨e, he, hdummy, kind_ne_of_hitAmong hmiss he hdummy, hsrc⟩
    · exact hitAmong_eq_some hm
  · cases hhead

lemma exists_storeEdge (h : findFirstStore pag rounds call = some (some pointer)) :
    ∃ e, (pag.storeEdges pointer).find? (fun e => !pag.isDummy e.src) = some e := by
  obtain ⟨c, -, hc⟩ := storeAt_of_findFirstStore h
  obtain ⟨e, he, hdummy, hkind, rfl⟩ := hitAmong_eq_some hc
  have hmem : e ∈ pag.storeEdges e.dst := by
    rw [PAG.storeEdges, List.mem_filter]
    exact ⟨(List.mem_filter.mp he).1, by simp [hkind]⟩
  rw [← Option.isSome_iff_exists, List.find?_isSome]
  exact ⟨e, hmem, by simp [hdummy]⟩

lemma findTargetOfCall_eq {e : PAGEdge}
    (h : findFirstStore pag rounds call = some (some pointer))
    (he : (pag.storeEdges pointer).find? (fun e => !pag.isDummy e.src) = some e) :
    findTargetOfCall pag svf storeOperand rounds call =
      (e.value.bind storeOperand).bind fun target =>
        findFirstDominator pag rounds (svf.node target) := by
  simp only [findTargetOfCall, h, Option.bind_eq_bind, Option.bind_some, he, Option.bind_assoc]

lemma StoresToOperand.node_eq {e : PAGEdge} {target : Value}
    (hstores : StoresToOperand pag svf storeOperand)
    (he : (pag.storeEdges pointer).find? (fun e => !pag.isDummy e.src) = some e)
    (htarget : e.value.bind storeOperand = some target) : svf.node target = pointer := by
  obtain ⟨hedge, hkind⟩ := List.mem_filter.mp (List.mem_of_find?_eq_some he)
  rw [Bool.and_eq_true, decide_eq_true_eq, decide_eq_true_eq] at hkind
  exact (hstores e hedge hkind.1 target htarget).trans hkind.2

namespace AddressOf

variable {v : Value} {o : PAGNode} (h : AddressOf pag svf v o)

include h

lemma hit : hitAmong pag .addr PAGEdge.src (pag.inEdges (svf.node v)) = some o := by
  obtain ⟨e, he, hkind, -⟩ := h.addr
  rw [hitAmong]
  cases hfind : (pag.inEdges (svf.node v)).find? fun e => !pag.isDummy e.src && e.kind = .addr with
  | none =>
    have hnot := List.find?_eq_none.mp hfind e he
    simp [h.source e he (Or.inl hkind), h.object, hkind] at hnot
  | some e' =>
    have hcond := List.find?_some hfind
    rw [Bool.and_eq_true, decide_eq_true_eq] at hcond
    exact congrArg some (h.source e' (List.mem_of_find?_eq_some hfind) (Or.inl hcond.2))

lemma findFirstDominator_eq (hrounds : rounds ≠ 0) :
    findFirstDominator pag rounds (svf.node v) = some (some o) := by
  obtain ⟨rounds, rfl⟩ := Nat.exists_eq_succ_of_ne_zero hrounds
  have hhit : (fun n => hitAmong pag .addr PAGEdge.src (pag.inEdges n)) (svf.node v) = some o := h.hit
  rw [findFirstDominator, visitAndSelectPagNodes, selectFirstDominator_eq, run, selectFirst_hit hhit,
    run_nil]
  rfl

lemma useStart_eq : pag.useStart svf v = o := by
  obtain ⟨e, he, -, hvalue⟩ := h.addr
  rw [PAG.useStart]
  split
  · next e' he' =>
    have hvalue' := List.find?_some he'
    exact h.source e' (List.mem_of_find?_eq_some he') (Or.inr (of_decide_eq_true hvalue'))
  · next hnone => exact absurd (decide_eq_true hvalue) (List.find?_eq_none.mp hnone e he)

lemma addrEdges_ne_nil : pag.addrEdges o ≠ [] := by
  obtain ⟨e, he, hkind, -⟩ := h.addr
  apply List.ne_nil_of_mem (a := e)
  rw [PAG.addrEdges, List.mem_filter]
  exact ⟨(List.mem_filter.mp he).1, by simp [hkind, h.source e he (Or.inl hkind)]⟩

lemma getDefNodes_eq (hrounds : rounds ≠ 0) : getDefNodes pag rounds o = some [] := by
  obtain ⟨rounds, rfl⟩ := Nat.exists_eq_succ_of_ne_zero hrounds
  rw [getDefNodes, visitAndSelectPagNodes, run, selectDefs, h.first, selectDefEdges, run_nil]

lemma isDominatorNode_eq (hstore : storeAt pag call = some (svf.node v)) :
    isDominatorNode pag o = some true := by
  obtain ⟨e, he, hkind, -⟩ := h.addr
  obtain ⟨e', he', -, hkind', hdst⟩ := hitAmong_eq_some hstore
  have hmem : e' ∈ pag.inEdges (svf.node v) :=
    List.mem_filter.mpr ⟨(List.mem_filter.mp he').1, decide_eq_true hdst⟩
  have hne : e ≠ e' := by
    intro heq
    rw [heq, hkind'] at hkind
    cases hkind
  obtain ⟨last, hlast⟩ := Option.isSome_iff_exists.mp (List.getLast?_isSome.mpr h.addrEdges_ne_nil)
  have htwo : 1 < (pag.inEdges last.dst).length := by
    rw [h.only last (List.mem_of_getLast? hlast)]
    by_contra hle
    obtain ⟨x, hx⟩ | hnil : (∃ x, pag.inEdges (svf.node v) = [x]) ∨ pag.inEdges (svf.node v) = [] := by
      cases hedges : pag.inEdges (svf.node v) with
      | nil => exact Or.inr rfl
      | cons x l =>
        rw [hedges, List.length_cons] at hle
        obtain rfl : l = [] := List.length_eq_zero_iff.mp (by omega)
        exact Or.inl ⟨x, rfl⟩
    · rw [hx, List.mem_singleton] at he hmem
      exact hne (he.trans hmem.symm)
    · rw [hnil] at he
      cases he
  rw [isDominatorNode, hlast]
  exact congrArg some (decide_eq_true htwo)

end AddressOf

theorem targets_of_allocation (hstores : StoresToOperand pag svf storeOperand)
    (h : findFirstStore pag rounds call = some (some pointer)) :
    (∃ c, ReflTransGen (fun a b => storeAt pag a = none ∧ b ∈ storeNext pag a) call c ∧
      storeAt pag c = some pointer) ∧
    ∃ e, (pag.storeEdges pointer).find? (fun e => !pag.isDummy e.src) = some e ∧
      (e.value.bind storeOperand = none →
        findTargetOfCall pag svf storeOperand rounds call = none) ∧
      (∀ d, findTargetOfCall pag svf storeOperand rounds call = some (some d) →
        Defines pag d pointer) ∧
      ∀ v o, svf.node v = pointer → AddressOf pag svf v o → rounds ≠ 0 →
        (e.value.bind storeOperand ≠ none →
          findTargetOfCall pag svf storeOperand rounds call = some (some o)) ∧
        isDominatorNode pag o = some true ∧
        ∀ si, pag.useTarget si = v → findDefNodesFromStore pag svf rounds si = some [o] := by
  have hfirst := storeAt_of_findFirstStore h
  obtain ⟨e, he⟩ := exists_storeEdge h
  rw [findTargetOfCall_eq h he]
  refine ⟨hfirst, e, he, ?_, ?_, ?_⟩
  · intro hnone
    rw [hnone, Option.bind_none]
  · intro d hd
    obtain ⟨target, htarget, hd⟩ := Option.bind_eq_some_iff.mp hd
    rw [hstores.node_eq he htarget] at hd
    exact defines_of_findFirstDominator hd
  · rintro v o rfl haddr hrounds
    obtain ⟨c, -, hc⟩ := hfirst
    refine ⟨fun hsome => ?_, haddr.isDominatorNode_eq hc, ?_⟩
    · obtain ⟨target, htarget⟩ := Option.ne_none_iff_exists'.mp hsome
      rw [htarget, Option.bind_some, hstores.node_eq he htarget]
      exact haddr.findFirstDominator_eq hrounds
    · rintro si rfl
      rw [findDefNodesFromStore, haddr.useStart_eq]
      simp [haddr.getDefNodes_eq hrounds, haddr.addrEdges_ne_nil]

def stackVariable : Value := ⟨1, .alloca⟩

def allocation : PAGNode := ⟨30, [], ⟨0, .call ['m', 'a', 'l', 'l', 'o', 'c']⟩, false⟩

def stackObject : PAGNode := ⟨31, [], stackVariable, false⟩

def allocating : PAG where
  edges := [⟨.store, allocation, PAG.nodeOf stackVariable, some ⟨9, .instruction⟩⟩,
    ⟨.addr, stackObject, PAG.nodeOf stackVariable, some stackVariable⟩]
  isDummy _ := false
  useTarget _ := stackVariable
  functionOf _ := none
  noAlias _ _ := true
  isAggregateType _ := false
  rounds := 3

def allocatingOperand (v : Value) : Option Value := if v.ref = 9 then some stackVariable else none

theorem allocating_target :
    findTargetOfCall allocating PAG.loadingGraphs allocatingOperand 3 allocation =
        some (some stackObject) ∧
      isDominatorNode allocating stackObject = some true ∧
      findDefNodesFromStore allocating PAG.loadingGraphs 3 ⟨9, .instruction⟩ = some [stackObject] := by
  have hstores : StoresToOperand allocating PAG.loadingGraphs allocatingOperand := by
    intro e he hkind target htarget
    rcases List.mem_cons.mp he with rfl | he
    · cases htarget
      rfl
    · rw [List.mem_singleton.mp he] at hkind
      cases hkind
  have haddr : AddressOf allocating PAG.loadingGraphs stackVariable stackObject := by
    refine ⟨⟨⟨.addr, stackObject, PAG.nodeOf stackVariable, some stackVariable⟩, ?_, rfl, rfl⟩, ?_,
      ?_, rfl, rfl⟩
    · exact List.mem_filter.mpr ⟨List.mem_cons_of_mem _ List.mem_cons_self, rfl⟩
    · intro e he hcond
      rcases List.mem_cons.mp (List.mem_filter.mp he).1 with rfl | he
      · rcases hcond with hkind | hvalue
        · cases hkind
        · cases hvalue
      · rw [List.mem_singleton.mp he]
    · intro e he
      rcases List.mem_cons.mp (List.mem_filter.mp he).1 with rfl | he
      · rfl
      · rw [List.mem_singleton.mp he]
        rfl
  have hfound : findFirstStore allocating 3 allocation = some (some (PAG.nodeOf stackVariable)) := by
    decide
  obtain ⟨-, e, he, -, -, hvariable⟩ := targets_of_allocation hstores hfound
  obtain ⟨htarget, hdominator, hstore⟩ :=
    hvariable stackVariable stackObject rfl haddr (by decide)
  have hedge : (allocating.storeEdges (PAG.nodeOf stackVariable)).find?
      (fun e => !allocating.isDummy e.src) =
        some ⟨.store, allocation, PAG.nodeOf stackVariable, some ⟨9, .instruction⟩⟩ := rfl
  obtain rfl := Option.some.inj (hedge.symm.trans he)
  exact ⟨htarget (Option.some_ne_none stackVariable), hdominator, hstore ⟨9, .instruction⟩ rfl⟩

end Embedwatch.Svf.Visits
