import Embedwatch.Records
import Embedwatch.Uaf.AllocFreeFlow

/-! The number of use-after-free candidates that `main` prints: flows from an allocation to a free of
one of its definitions, and on to another allocation. -/

namespace Embedwatch.Uaf

open Relation (ReflTransGen)

/-- A `set<PAGNode *>`, by the ids of its nodes in the order of the set. -/
structure DefSet where
  ids : List ℕ
  nodup : ids.Nodup
  deriving DecidableEq

structure Entry (Node : Type*) where
  icfgNode : Node
  pagNode : ℕ
  callNode : ℕ
  defs : DefSet
  deriving DecidableEq

structure CallList (Node : Type*) where
  entries : List (Entry Node)
  nodup : (entries.map Entry.icfgNode).Nodup

variable {Node : Type*} [DecidableEq Node]

structure MFPath (Node : Type*) where
  free : Entry Node
  alloc : Entry Node
  lastAlloc : Finset (Entry Node)
  pathDefs : Finset ℕ

namespace MFPath

def new (free alloc : Entry Node) : MFPath Node :=
  ⟨free, alloc, ∅, free.defs.ids.toFinset ∪ alloc.defs.ids.toFinset⟩

def addLastAlloc (p : MFPath Node) (a : Entry Node) : MFPath Node :=
  { p with lastAlloc := insert a p.lastAlloc }

def getMFMPathCounter (p : MFPath Node) : ℤ := toInt p.lastAlloc.card

end MFPath

def initMFFlow (allocList freeList : List (Entry Node)) : List (MFPath Node) :=
  freeList.flatMap fun free => allocList.flatMap fun alloc =>
    free.defs.ids.flatMap fun freeDef => alloc.defs.ids.flatMap fun allocDef =>
      if freeDef = allocDef then [MFPath.new free alloc] else []

def resolveMFMFlow [Fintype Node] (g : Graph Node) (flow : List (MFPath Node))
    (allocList : List (Entry Node)) : List (MFPath Node) :=
  flow.map fun path => allocList.foldl (fun path alloc =>
    if g.hasPath path.free.icfgNode alloc.icfgNode then path.addLastAlloc alloc else path) path

/-- What `main` does with the lists. It calls `initMFFlow` with `freeList` for its parameter `allocList`
and with `allocList` for `freeList`. -/
def totalPathCounter [Fintype Node] (g : Graph Node) (freeList allocList : List (Entry Node)) : ℤ :=
  let flow := resolveMFMFlow g (initMFFlow freeList allocList) allocList
  flow.foldl (fun total path => toInt (total + path.getMFMPathCounter)) 0

variable [Fintype Node]

instance (g : Graph Node) (a b : Node) : Decidable (ReflTransGen g.Edge a b) :=
  decidable_of_iff (g.hasPath a b = true) (g.hasPath_iff a b)

def candidates (g : Graph Node) (frees allocs : CallList Node) :
    Finset (Entry Node × Entry Node × Entry Node) :=
  (allocs.entries.toFinset ×ˢ frees.entries.toFinset ×ˢ allocs.entries.toFinset).filter fun c =>
    (∃ d ∈ c.1.defs.ids, d ∈ c.2.1.defs.ids) ∧ ReflTransGen g.Edge c.2.1.icfgNode c.2.2.icfgNode

def common (a f : Entry Node) : List ℕ := a.defs.ids.filter (· ∈ f.defs.ids)

def reached (g : Graph Node) (allocs : CallList Node) (n : Node) : List (Entry Node) :=
  allocs.entries.filter fun a => g.hasPath n a.icfgNode

def surplus (g : Graph Node) (allocs : CallList Node) (a f : Entry Node) : ℤ :=
  if common a f = [] then 0
  else (common a f).length * (reached g allocs a.icfgNode).length -
    (reached g allocs f.icfgNode).length

variable {g : Graph Node} {frees allocs : CallList Node}

omit [DecidableEq Node] [Fintype Node] in
lemma CallList.nodup_entries (l : CallList Node) : l.entries.Nodup := List.Nodup.of_map _ l.nodup

lemma flatMap_ite_eq {α β : Type*} [DecidableEq α] {l : List α} (h : l.Nodup) (x : α) (p : β) :
    (l.flatMap fun y => if x = y then [p] else []) = if x ∈ l then [p] else [] := by
  induction l with
  | nil => rfl
  | cons y l ih =>
    obtain ⟨hy, hl⟩ := List.nodup_cons.mp h
    rw [List.flatMap_cons, ih hl]
    by_cases hxy : x = y
    · subst hxy
      simp [hy]
    · simp [hxy]

omit [DecidableEq Node] [Fintype Node] in
lemma flatMap_eq_replicate (a f : Entry Node) (p : MFPath Node) :
    (a.defs.ids.flatMap fun d => f.defs.ids.flatMap fun d' => if d = d' then [p] else []) =
      List.replicate (common a f).length p := by
  simp only [flatMap_ite_eq f.defs.nodup, common]
  induction a.defs.ids with
  | nil => rfl
  | cons d ds ih =>
    rw [List.flatMap_cons, ih]
    by_cases hd : d ∈ f.defs.ids
    · rw [if_pos hd, List.filter_cons_of_pos (by simpa using hd), List.length_cons, List.replicate_succ]
      rfl
    · rw [if_neg hd, List.filter_cons_of_neg (by simpa using hd)]
      rfl

lemma foldl_addLastAlloc (l : List (Entry Node)) (p : MFPath Node) :
    (l.foldl (fun path alloc => if g.hasPath path.free.icfgNode alloc.icfgNode then
      path.addLastAlloc alloc else path) p).lastAlloc =
        p.lastAlloc ∪ (l.filter fun a => g.hasPath p.free.icfgNode a.icfgNode).toFinset := by
  induction l generalizing p with
  | nil => simp
  | cons a l ih =>
    rw [List.foldl_cons, ih]
    by_cases ha : g.hasPath p.free.icfgNode a.icfgNode = true
    · simp only [ha, if_true, List.filter_cons, List.toFinset_cons, Finset.union_insert]
      exact Finset.insert_union ..
    · simp only [ha, if_false, List.filter_cons, Bool.false_eq_true]

lemma card_lastAlloc (a f : Entry Node) :
    (allocs.entries.foldl (fun path alloc => if g.hasPath path.free.icfgNode alloc.icfgNode then
      path.addLastAlloc alloc else path) (MFPath.new a f)).lastAlloc.card =
        (reached g allocs a.icfgNode).length := by
  have hnodup : (reached g allocs a.icfgNode).Nodup := allocs.nodup_entries.filter _
  rw [foldl_addLastAlloc]
  change (∅ ∪ (reached g allocs a.icfgNode).toFinset).card = _
  rw [Finset.empty_union, List.toFinset_card_of_nodup hnodup]

lemma foldl_toInt {α : Type*} (l : List α) (f : α → ℤ) (n : ℤ) :
    l.foldl (fun total x => toInt (total + toInt (f x))) (toInt n) = toInt (n + (l.map f).sum) := by
  induction l generalizing n with
  | nil => simp
  | cons x l ih =>
    have hstep : toInt (toInt n + toInt (f x)) = toInt (n + f x) := by
      rw [toInt, toInt, toInt, Int.bmod_add_bmod, Int.add_bmod_bmod, toInt]
    rw [List.foldl_cons, hstep, ih, List.map_cons, List.sum_cons, add_assoc]

lemma totalPathCounter_eq (g : Graph Node) (frees : List (Entry Node)) (allocs : CallList Node) :
    totalPathCounter g frees allocs.entries =
      toInt (allocs.entries.map fun a => (frees.map fun f =>
        ((common a f).length * (reached g allocs a.icfgNode).length : ℤ)).sum).sum := by
  have hflow : initMFFlow frees allocs.entries = allocs.entries.flatMap fun a =>
      frees.flatMap fun f => List.replicate (common a f).length (MFPath.new a f) := by
    simp only [initMFFlow, flatMap_eq_replicate]
  have hfold := foldl_toInt (resolveMFMFlow g (initMFFlow frees allocs.entries) allocs.entries)
    (fun path => (path.lastAlloc.card : ℤ)) 0
  rw [zero_add] at hfold
  rw [totalPathCounter]
  refine hfold.trans (congrArg toInt ?_)
  rw [hflow, resolveMFMFlow]
  simp only [List.map_flatMap, List.map_replicate, card_lastAlloc]
  simp only [List.flatMap_def, List.sum_flatten, List.map_map, Function.comp_def, List.sum_replicate,
    nsmul_eq_mul]

omit [DecidableEq Node] [Fintype Node] in
lemma exists_common_iff (a f : Entry Node) :
    (∃ d ∈ a.defs.ids, d ∈ f.defs.ids) ↔ common a f ≠ [] := by
  rw [common, ne_eq, List.filter_eq_nil_iff]
  push Not
  simp

lemma card_candidates : ((candidates g frees allocs).card : ℤ) =
    (allocs.entries.map fun a => (frees.entries.map fun f =>
      if common a f = [] then 0 else ((reached g allocs f.icfgNode).length : ℤ)).sum).sum := by
  have hreached : ∀ f : Entry Node,
      (allocs.entries.toFinset.filter fun a' => ReflTransGen g.Edge f.icfgNode a'.icfgNode).card =
        (reached g allocs f.icfgNode).length := by
    intro f
    have hnodup : (reached g allocs f.icfgNode).Nodup := allocs.nodup_entries.filter _
    rw [← List.toFinset_card_of_nodup hnodup, reached, List.toFinset_filter]
    congr 1
    apply Finset.filter_congr
    intro a _
    exact (g.hasPath_iff f.icfgNode a.icfgNode).symm
  have hpair : ∀ a f : Entry Node,
      (∑ a' ∈ allocs.entries.toFinset, if (∃ d ∈ a.defs.ids, d ∈ f.defs.ids) ∧
        ReflTransGen g.Edge f.icfgNode a'.icfgNode then 1 else 0) =
      if common a f = [] then 0 else (reached g allocs f.icfgNode).length := by
    intro a f
    by_cases h : common a f = []
    · simp [exists_common_iff, h]
    · simp only [exists_common_iff, h, ne_eq, not_false_eq_true, true_and, if_false]
      rw [← Finset.card_filter, hreached]
  rw [candidates, Finset.card_filter, Finset.sum_product, ← List.sum_toFinset _ allocs.nodup_entries]
  push_cast
  apply Finset.sum_congr rfl
  intro a _
  rw [Finset.sum_product, ← List.sum_toFinset _ frees.nodup_entries]
  apply Finset.sum_congr rfl
  intro f _
  exact_mod_cast hpair a f

lemma toInt_eq_natCast_iff (m : ℤ) (n : ℕ) : toInt m = n ↔ (2 ^ 32 : ℤ) ∣ m - n ∧ n < 2 ^ 31 := by
  rw [toInt, Int.bmod_def]
  split <;> omega

theorem totalPathCounter_eq_iff (g : Graph Node) (frees allocs : CallList Node) :
    totalPathCounter g frees.entries allocs.entries = ((candidates g frees allocs).card : ℤ) ↔
      (2 ^ 32 : ℤ) ∣ (allocs.entries.map fun a =>
        (frees.entries.map fun f => surplus g allocs a f).sum).sum ∧
      (candidates g frees allocs).card < 2 ^ 31 := by
  have hsum : (allocs.entries.map fun a => (frees.entries.map fun f =>
        ((common a f).length * (reached g allocs a.icfgNode).length : ℤ)).sum).sum =
      (allocs.entries.map fun a => (frees.entries.map fun f => surplus g allocs a f).sum).sum +
        ((candidates g frees allocs).card : ℤ) := by
    rw [card_candidates, ← List.sum_map_add]
    congr 2
    funext a
    rw [← List.sum_map_add]
    congr 2
    funext f
    by_cases h : common a f = [] <;> simp [surplus, h]
  rw [totalPathCounter_eq, toInt_eq_natCast_iff, hsum, add_sub_cancel_right]

def mallocEntry : Entry Bool := ⟨false, 1, 2, ⟨[5], by decide⟩⟩

def freeEntry : Entry Bool := ⟨true, 3, 4, ⟨[5], by decide⟩⟩

def mallocCalls : CallList Bool := ⟨[mallocEntry], by decide⟩

def freeCalls : CallList Bool := ⟨[freeEntry], by decide⟩

def mallocGraph : Graph Bool := ⟨fun n => some (if n then [] else [true])⟩

theorem malloc_free_counted :
    totalPathCounter mallocGraph freeCalls.entries mallocCalls.entries = 1 ∧
      candidates mallocGraph freeCalls mallocCalls = ∅ := by
  have hself : mallocGraph.hasPath false false = true := (mallocGraph.hasPath_iff _ _).mpr .refl
  have hfree : ¬ ReflTransGen mallocGraph.Edge true false := by
    intro h
    obtain hne | ⟨n, hn, -⟩ := ReflTransGen.cases_head h
    · cases hne
    · cases hn
  constructor
  · have hreached : reached mallocGraph mallocCalls mallocEntry.icfgNode = [mallocEntry] :=
      List.filter_cons_of_pos hself
    have hcommon : common mallocEntry freeEntry = [5] := rfl
    rw [totalPathCounter_eq]
    simp only [mallocCalls, freeCalls] at hreached ⊢
    simp only [List.map_cons, List.map_nil, hcommon, hreached]
    rfl
  · apply Finset.filter_eq_empty_iff.mpr
    rintro ⟨a, f, a'⟩ hc ⟨-, hpath⟩
    simp only [mallocCalls, freeCalls, Finset.mem_product, List.toFinset_cons, List.toFinset_nil,
      insert_empty_eq, Finset.mem_singleton] at hc
    obtain ⟨-, rfl, rfl⟩ := hc
    exact hfree hpath

end Embedwatch.Uaf
