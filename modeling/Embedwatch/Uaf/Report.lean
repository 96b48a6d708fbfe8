import Mathlib.Data.Set.Card
import Embedwatch.Svf.DefNodes
import Embedwatch.Uaf.FlowCount
import Embedwatch.Uaf.HasPath

/-! What `main` counts, from the call sites of a program to the number it prints. -/

namespace Embedwatch.Uaf

open Library.PlainText Relation
open Svf.Visits (getDefNodes Fed AddrSource)

def freeFunctions : List Text := [['f', 'r', 'e', 'e']]

def allocFunctions : List Text :=
  [['m', 'a', 'l', 'l', 'o', 'c'], ['c', 'a', 'l', 'l', 'o', 'c'], ['r', 'e', 'a', 'l', 'l', 'o', 'c']]

/-- A call, with the nodes of its arguments and of its result. A call through a pointer has no called
function. -/
structure CallSite (Node : Type) where
  icfgNode : Node
  called : Option Text
  actualParms : List Svf.PAGNode
  actualRet : Option Svf.PAGNode

structure Listed (Node : Type) where
  icfgNode : Node
  pagNode : Svf.PAGNode
  defs : List Svf.PAGNode

/-- A program as the tool sees it. The call sites are a set, and no two nodes share an id. -/
structure Program (Node Inst : Type) where
  pag : Svf.PAG
  getBaseValVar : Svf.PAGNode → Svf.PAGNode
  getInst : Svf.PAGEdge → Option Inst
  icfg : ICFG Node Inst
  callSites : List (CallSite Node)
  callSites_nodup : (callSites.map CallSite.icfgNode).Nodup
  unique : ∀ e ∈ pag.edges, ∀ e' ∈ pag.edges, e.src.id = e'.src.id → e.src = e'.src

namespace Program

variable {Node Inst : Type} (P : Program Node Inst) (iteration : Iteration Svf.PAGNode) (rounds : ℕ)

def listed (c : CallSite Node) (p : Svf.PAGNode) : Option (Listed Node) := do
  let v := P.getBaseValVar p
  let defs ← getDefNodes P.pag rounds v
  some ⟨c.icfgNode, v, iteration.order defs⟩

def freeEntries (c : CallSite Node) (called : Text) : Option (List (Listed Node)) :=
  if called ∈ freeFunctions then c.actualParms.mapM (P.listed iteration rounds c) else some []

def allocEntries (c : CallSite Node) (called : Text) : Option (List (Listed Node)) :=
  if called ∈ allocFunctions then do some [← P.listed iteration rounds c (← c.actualRet)]
  else some []

/-- One call in the loop of `main`. -/
def collect (lists : List (Listed Node) × List (Listed Node)) (c : CallSite Node) :
    Option (List (Listed Node) × List (Listed Node)) :=
  match c.called with
  | none => some lists
  | some called => do
    let frees ← P.freeEntries iteration rounds c called
    let allocs ← P.allocEntries iteration rounds c called
    some (lists.1 ++ frees, lists.2 ++ allocs)

def site (l : Listed Node) : Site Node Inst :=
  ⟨l.icfgNode, l.defs.map fun d => ⟨(Svf.Visits.outEdges P.pag d).map fun e => ⟨P.getInst e⟩⟩⟩

def entry (l : Listed Node) : Entry Node :=
  ⟨l.icfgNode, l.pagNode.id, (P.icfg.getId l.icfgNode).toNat,
    ⟨(l.defs.map Svf.PAGNode.id).dedup, List.nodup_dedup _⟩⟩

/-- `main`, up to the number it prints. -/
def main [DecidableEq Node] [Fintype Node] : Option ℤ := do
  let (freeList, allocList) ← P.callSites.foldlM (P.collect iteration rounds) ([], [])
  let g := P.icfg.createAllocFreeFlowGraph Graph.empty (freeList.map P.site) (allocList.map P.site)
  some (totalPathCounter g (freeList.map P.entry) (allocList.map P.entry))

def freed (P : Program Node Inst) : List (CallSite Node × Svf.PAGNode) :=
  P.callSites.flatMap fun c =>
    if ∃ f ∈ c.called, f ∈ freeFunctions then c.actualParms.map fun p => (c, p) else []

def allocated (P : Program Node Inst) : List (CallSite Node × Svf.PAGNode) :=
  P.callSites.flatMap fun c =>
    if ∃ f ∈ c.called, f ∈ allocFunctions then c.actualRet.toList.map fun r => (c, r) else []

def Defines (o p : Svf.PAGNode) : Prop :=
  ∃ n, ReflTransGen (Fed P.pag) (P.getBaseValVar p) n ∧ AddrSource P.pag n o

def toListed (c : CallSite Node × Svf.PAGNode) : Listed Node :=
  ⟨c.1.icfgNode, P.getBaseValVar c.2,
    iteration.order ((getDefNodes P.pag rounds (P.getBaseValVar c.2)).getD [])⟩

variable {P} {iteration} {rounds}

section Collected

variable (hrounds : P.pag.edges.length < rounds)

include hrounds

lemma listed_eq (c : CallSite Node) (p : Svf.PAGNode) :
    P.listed iteration rounds c p = some (P.toListed iteration rounds (c, p)) := by
  obtain ⟨ds, hds⟩ := @Svf.Visits.getDefNodes_ends P.pag (P.getBaseValVar p) rounds hrounds
  rw [listed, toListed, hds]
  rfl

lemma mapM_listed (c : CallSite Node) (ps : List Svf.PAGNode) :
    ps.mapM (P.listed iteration rounds c) =
      some ((ps.map fun p => (c, p)).map (P.toListed iteration rounds)) := by
  induction ps with
  | nil => rfl
  | cons p ps ih =>
    rw [List.mapM_cons, listed_eq hrounds, ih]
    rfl

lemma collect_eq {lists : List (Listed Node) × List (Listed Node)} {c : CallSite Node}
    (hret : (∃ f ∈ c.called, f ∈ allocFunctions) → c.actualRet ≠ none) :
    P.collect iteration rounds lists c = some
      (lists.1 ++ (if ∃ f ∈ c.called, f ∈ freeFunctions then c.actualParms.map fun p => (c, p)
        else []).map (P.toListed iteration rounds),
      lists.2 ++ (if ∃ f ∈ c.called, f ∈ allocFunctions then c.actualRet.toList.map fun r => (c, r)
        else []).map (P.toListed iteration rounds)) := by
  cases hcalled : c.called with
  | none => simp [collect, hcalled]
  | some called =>
    rw [hcalled] at hret
    have hfrees : P.freeEntries iteration rounds c called =
        some ((if ∃ f ∈ some called, f ∈ freeFunctions then c.actualParms.map fun p => (c, p)
          else []).map (P.toListed iteration rounds)) := by
      rw [freeEntries]
      by_cases h : called ∈ freeFunctions
      · simp only [h, mapM_listed hrounds, Option.mem_def, Option.some.injEq, exists_eq_left', if_true]
      · simp [h]
    have hallocs : P.allocEntries iteration rounds c called =
        some ((if ∃ f ∈ some called, f ∈ allocFunctions then
          c.actualRet.toList.map fun r => (c, r) else []).map (P.toListed iteration rounds)) := by
      rw [allocEntries]
      by_cases h : called ∈ allocFunctions
      · obtain ⟨r, hr⟩ := Option.ne_none_iff_exists'.mp (hret ⟨called, rfl, h⟩)
        simp [h, hr, listed_eq hrounds]
      · simp [h]
    rw [collect, hcalled]
    dsimp only
    rw [hfrees, hallocs]
    rfl

lemma foldlM_collect {cs : List (CallSite Node)}
    (hrets : ∀ c ∈ cs, (∃ f ∈ c.called, f ∈ allocFunctions) → c.actualRet ≠ none)
    (lists : List (Listed Node) × List (Listed Node)) :
    cs.foldlM (P.collect iteration rounds) lists = some
      (lists.1 ++ (cs.flatMap fun c => if ∃ f ∈ c.called, f ∈ freeFunctions then
        c.actualParms.map fun p => (c, p) else []).map (P.toListed iteration rounds),
      lists.2 ++ (cs.flatMap fun c => if ∃ f ∈ c.called, f ∈ allocFunctions then
        c.actualRet.toList.map fun r => (c, r) else []).map (P.toListed iteration rounds)) := by
  induction cs generalizing lists with
  | nil => simp
  | cons c cs ih =>
    rw [List.foldlM_cons, collect_eq hrounds (hrets c List.mem_cons_self)]
    refine (ih (fun c' hc' => hrets c' (List.mem_cons_of_mem c hc')) _).trans ?_
    simp only [List.flatMap_cons, List.map_append, List.append_assoc]

end Collected

lemma mem_defs {c : CallSite Node × Svf.PAGNode} {o : Svf.PAGNode}
    (hrounds : P.pag.edges.length < rounds) :
    o ∈ (P.toListed iteration rounds c).defs ↔ P.Defines o c.2 := by
  obtain ⟨ds, hds⟩ := @Svf.Visits.getDefNodes_ends P.pag (P.getBaseValVar c.2) rounds hrounds
  rw [toListed, hds]
  exact (iteration.perm ds).mem_iff.trans ((Svf.Visits.getDefNodes_spec hds).2 o)

lemma Defines.inj {o o' p p' : Svf.PAGNode} (ho : P.Defines o p) (ho' : P.Defines o' p')
    (h : o.id = o'.id) : o = o' := by
  obtain ⟨n, -, e, he, -, -, rfl⟩ := ho
  obtain ⟨n', -, e', he', -, -, rfl⟩ := ho'
  exact P.unique e (List.mem_filter.mp he).1 e' (List.mem_filter.mp he').1 h

lemma length_common (hrounds : P.pag.edges.length < rounds) (a f : CallSite Node × Svf.PAGNode) :
    (common (P.entry (P.toListed iteration rounds a)) (P.entry (P.toListed iteration rounds f))).length =
      {o | P.Defines o a.2 ∧ P.Defines o f.2}.ncard := by
  classical
  have hnodup : (common (P.entry (P.toListed iteration rounds a))
      (P.entry (P.toListed iteration rounds f))).Nodup := List.Nodup.filter _ (List.nodup_dedup _)
  have himage : Svf.PAGNode.id '' {o | P.Defines o a.2 ∧ P.Defines o f.2} =
      ↑(common (P.entry (P.toListed iteration rounds a))
        (P.entry (P.toListed iteration rounds f))).toFinset := by
    ext i
    simp only [Set.mem_image, Set.mem_ofPred_eq, List.coe_toFinset, common, entry, List.mem_filter,
      List.mem_dedup, List.mem_map, decide_eq_true_eq, mem_defs hrounds]
    constructor
    · rintro ⟨o, ⟨ha, hf⟩, rfl⟩
      exact ⟨⟨o, ha, rfl⟩, o, hf, rfl⟩
    · rintro ⟨⟨o, ha, rfl⟩, o', hf, heq⟩
      exact ⟨o, ⟨ha, hf.inj ha heq ▸ hf⟩, rfl⟩
  have hinj : Set.InjOn Svf.PAGNode.id {o | P.Defines o a.2 ∧ P.Defines o f.2} :=
    fun o ho o' ho' h => ho.1.inj ho'.1 h
  rw [← hinj.ncard_image, himage, Set.ncard_coe_finset,
    List.toFinset_card_of_nodup hnodup]

lemma allocated_nodup (P : Program Node Inst) : (P.allocated.map fun a => a.1.icfgNode).Nodup := by
  have hsub : ∀ cs : List (CallSite Node), List.Sublist
      ((cs.flatMap fun c => if ∃ f ∈ c.called, f ∈ allocFunctions then
        c.actualRet.toList.map fun r => (c, r) else []).map fun a => a.1.icfgNode)
      (cs.map CallSite.icfgNode) := by
    intro cs
    induction cs with
    | nil => exact List.Sublist.refl []
    | cons c cs ih =>
      rw [List.flatMap_cons, List.map_append, List.map_cons]
      split
      · cases c.actualRet with
        | none => exact ih.cons _
        | some r => exact ih.cons_cons _
      · exact ih.cons _
  exact (hsub P.callSites).nodup P.callSites_nodup

variable [DecidableEq Node] [Fintype Node]

variable (P iteration rounds) in
def allocCalls : CallList Node where
  entries := (P.allocated.map (P.toListed iteration rounds)).map P.entry
  nodup := by
    rw [List.map_map, List.map_map]
    exact P.allocated_nodup

variable (P iteration rounds) in
def flowGraph : Graph Node :=
  P.icfg.createAllocFreeFlowGraph Graph.empty
    ((P.freed.map (P.toListed iteration rounds)).map P.site)
    ((P.allocated.map (P.toListed iteration rounds)).map P.site)

lemma hasPath_flowGraph {a a' : CallSite Node × Svf.PAGNode} (ha : a ∈ P.allocated)
    (ha' : a' ∈ P.allocated) : (P.flowGraph iteration rounds).hasPath a.1.icfgNode a'.1.icfgNode = true ↔
      ReflTransGen P.icfg.Edge a.1.icfgNode a'.1.icfgNode := by
  have hkey : ∀ c ∈ P.allocated, c.1.icfgNode ∈ P.icfg.allocAndFreeAndDefNodes
      ((P.freed.map (P.toListed iteration rounds)).map P.site)
      ((P.allocated.map (P.toListed iteration rounds)).map P.site) := by
    intro c hc
    apply List.mem_append_right
    apply List.mem_flatMap.mpr
    exact ⟨_, List.mem_map_of_mem (List.mem_map_of_mem hc), List.mem_cons_self⟩
  rw [Graph.hasPath_iff]
  exact (P.icfg.createAllocFreeFlowGraph_contracts _ _).reachable_iff (hkey a ha) (hkey a' ha')

lemma length_reached {a : CallSite Node × Svf.PAGNode} (ha : a ∈ P.allocated) :
    (reached (P.flowGraph iteration rounds) (P.allocCalls iteration rounds) a.1.icfgNode).length =
      {a' | a' ∈ P.allocated ∧ ReflTransGen P.icfg.Edge a.1.icfgNode a'.1.icfgNode}.ncard := by
  classical
  have hset : {a' | a' ∈ P.allocated ∧ ReflTransGen P.icfg.Edge a.1.icfgNode a'.1.icfgNode} =
      ↑(P.allocated.filter fun a' =>
        (P.flowGraph iteration rounds).hasPath a.1.icfgNode a'.1.icfgNode).toFinset := by
    ext a'
    rw [Set.mem_ofPred_eq, List.coe_toFinset, Set.mem_ofPred_eq, List.mem_filter]
    exact and_congr_right fun ha' => (hasPath_flowGraph ha ha').symm
  have hnodup : P.allocated.Nodup := List.Nodup.of_map _ P.allocated_nodup
  rw [hset, Set.ncard_coe_finset, List.toFinset_card_of_nodup (hnodup.filter _), reached, allocCalls,
    List.filter_map, List.filter_map, List.length_map, List.length_map]
  rfl

/-- The number that is printed: for each allocation and each argument of `free`, the definitions that
they have in common, times the allocations that the program reaches from the allocation. As `main` calls
`initMFFlow` with its lists exchanged, it is of no account from where a `free` is reached. -/
theorem main_total (P : Program Node Inst) (iteration : Iteration Svf.PAGNode)
    (hrets : ∀ c ∈ P.callSites, (∃ f ∈ c.called, f ∈ allocFunctions) → c.actualRet ≠ none) :
    ∀ rounds > P.pag.edges.length, P.main iteration rounds =
      some (toInt (P.allocated.map fun a => (P.freed.map fun f =>
        ({o | P.Defines o a.2 ∧ P.Defines o f.2}.ncard * {a' | a' ∈ P.allocated ∧
          ReflTransGen P.icfg.Edge a.1.icfgNode a'.1.icfgNode}.ncard : ℤ)).sum).sum) := by
  intro rounds hrounds
  have hlists : P.callSites.foldlM (P.collect iteration rounds) ([], []) = some
      (P.freed.map (P.toListed iteration rounds), P.allocated.map (P.toListed iteration rounds)) := by
    rw [foldlM_collect hrounds hrets]
    rfl
  have htotal := totalPathCounter_eq (P.flowGraph iteration rounds)
    ((P.freed.map (P.toListed iteration rounds)).map P.entry) (P.allocCalls iteration rounds)
  rw [main, hlists]
  refine congrArg some (htotal.trans (congrArg toInt ?_))
  have hentries : (P.allocCalls iteration rounds).entries =
      P.allocated.map (P.entry ∘ P.toListed iteration rounds) := List.map_map ..
  rw [hentries, List.map_map]
  congr 1
  apply List.map_congr_left
  intro a ha
  rw [Function.comp, List.map_map, List.map_map]
  congr 1
  apply List.map_congr_left
  intro f _
  have hcommon := @length_common Node Inst P iteration rounds hrounds a f
  have hreached := @length_reached Node Inst P iteration rounds _ _ a ha
  rw [← hcommon, ← hreached]
  rfl

end Program

def pointer : Svf.PAGNode := ⟨1, [], ⟨1, .instruction⟩, false⟩

def object : Svf.PAGNode := ⟨5, [], ⟨5, .instruction⟩, false⟩

def mallocSite : CallSite Bool := ⟨false, some ['m', 'a', 'l', 'l', 'o', 'c'], [], some pointer⟩

def freeSite : CallSite Bool := ⟨true, some ['f', 'r', 'e', 'e'], [pointer], none⟩

def mallocFree : Program Bool Unit where
  pag :=
    { edges := [⟨.addr, object, pointer, none⟩]
      isDummy := fun _ => false
      useTarget := fun v => v
      functionOf := fun _ => none
      noAlias := fun _ _ => true
      isAggregateType := fun _ => false
      rounds := 2 }
  getBaseValVar v := v
  getInst _ := none
  icfg :=
    { getId := fun n => if n then 1 else 0
      getOutEdges := fun n => if n then [] else [⟨true⟩]
      getICFGNode := fun _ => false
      getId_injective := by decide }
  callSites := [mallocSite, freeSite]
  callSites_nodup := by decide
  unique := by decide

lemma defines_object (o : Svf.PAGNode) : mallocFree.Defines o pointer ↔ o = object := by
  constructor
  · rintro ⟨n, -, e, he, -, -, rfl⟩
    obtain rfl := List.mem_singleton.mp (List.mem_filter.mp he).1
    rfl
  · rintro rfl
    refine ⟨pointer, .refl, ⟨.addr, object, pointer, none⟩, ?_, rfl, rfl, rfl⟩
    exact List.mem_filter.mpr ⟨List.mem_singleton_self _, decide_eq_true rfl⟩

theorem mallocFree_total :
    mallocFree.main ⟨fun l => l, fun l => List.Perm.refl l⟩ 2 = some 1 := by
  have hrets : ∀ c ∈ mallocFree.callSites, (∃ f ∈ c.called, f ∈ allocFunctions) →
      c.actualRet ≠ none := by decide
  have hdefs : {o | mallocFree.Defines o pointer ∧ mallocFree.Defines o pointer} = {object} := by
    ext o
    simp only [Set.mem_ofPred_eq, and_self, defines_object, Set.mem_singleton_iff]
  have hreached : {a' | a' ∈ mallocFree.allocated ∧
      ReflTransGen mallocFree.icfg.Edge mallocSite.icfgNode a'.1.icfgNode} = {(mallocSite, pointer)} := by
    ext a'
    constructor
    · rintro ⟨ha', -⟩
      exact List.mem_singleton.mp ha'
    · rintro rfl
      exact ⟨List.mem_singleton_self _, .refl⟩
  rw [Program.main_total mallocFree _ hrets 2 (by decide)]
  have hallocated : mallocFree.allocated = [(mallocSite, pointer)] := rfl
  have hfreed : mallocFree.freed = [(freeSite, pointer)] := rfl
  have hpair : ∀ a ∈ mallocFree.allocated, (mallocFree.freed.map fun f =>
      ({o | mallocFree.Defines o a.2 ∧ mallocFree.Defines o f.2}.ncard *
        {a' | a' ∈ mallocFree.allocated ∧
          ReflTransGen mallocFree.icfg.Edge a.1.icfgNode a'.1.icfgNode}.ncard : ℤ)).sum = 1 := by
    intro a ha
    rw [hallocated] at ha
    obtain rfl := List.mem_singleton.mp ha
    rw [hfreed]
    rw [List.map_singleton, List.sum_singleton, hdefs, hreached, Set.ncard_singleton,
      Set.ncard_singleton]
    rfl
  rw [List.map_congr_left hpair, hallocated]
  rfl

end Embedwatch.Uaf
