import Embedwatch.Svf.Visits

/-! The searches for the first store and the first dominator mark no nodes: they end unless they come
into a cycle before they meet what they look for. -/

namespace Embedwatch.Svf.Visits

open Relation Library.Worklist

variable (pag : PAG)

def storeAt (n : PAGNode) : Option PAGNode := hitAmong pag .store PAGEdge.dst (outEdges pag n)

def storeNext (n : PAGNode) : List PAGNode := followed pag PAGEdge.dst (outEdges pag n)

def dominatorAt (n : PAGNode) : Option PAGNode := hitAmong pag .addr PAGEdge.src (pag.inEdges n)

def dominatorNext (n : PAGNode) : List PAGNode := followed pag PAGEdge.src (pag.inEdges n)

def EntersCycle (hit : PAGNode → Option PAGNode) (next : PAGNode → List PAGNode)
    (start : PAGNode) : Prop :=
  ∃ c, ReflTransGen (Enters hit next) start c ∧ TransGen (Enters hit next) c c

def FirstStoreEnds (start : PAGNode) : Prop :=
  ∃ rounds found, findFirstStore pag rounds start = some found

def FirstDominatorEnds (start : PAGNode) : Prop :=
  ∃ rounds found, findFirstDominator pag rounds start = some found

variable {pag}

lemma finite_next {far : PAGEdge → PAGNode} {edgesOf : PAGNode → List PAGEdge}
    (h : ∀ n, edgesOf n ⊆ pag.edges) : {m | ∃ n, m ∈ followed pag far (edgesOf n)}.Finite := by
  apply (pag.edges.map far).finite_toSet.subset
  rintro m ⟨n, hm⟩
  obtain ⟨e, he, -, rfl⟩ := mem_followed.mp hm
  exact List.mem_map_of_mem (h n he)

lemma ends_iff {select : PAGNode → Search PAGNode → Search PAGNode}
    {hit : PAGNode → Option PAGNode} {next : PAGNode → List PAGNode} {start : PAGNode}
    (hselect : select = selectFirst hit next) (hfin : {m | ∃ n, m ∈ next n}.Finite) :
    (∃ rounds found, (visitAndSelectPagNodes select rounds start).map List.head? = some found) ↔
      ¬ EntersCycle hit next start := by
  rw [EntersCycle, ← run_first_ends_iff hfin [] [], hselect]
  constructor
  · rintro ⟨rounds, found, h⟩
    obtain ⟨ret, hret, -⟩ := Option.map_eq_some_iff.mp h
    exact ⟨rounds, ret, hret⟩
  · rintro ⟨rounds, ret, hret⟩
    exact ⟨rounds, ret.head?, Option.map_eq_some_iff.mpr ⟨ret, hret, rfl⟩⟩

lemma firstStoreEnds_iff {start : PAGNode} :
    FirstStoreEnds pag start ↔ ¬ EntersCycle (storeAt pag) (storeNext pag) start := by
  apply ends_iff selectFirstStore_eq
  exact finite_next fun n => List.filter_subset_self _

lemma firstDominatorEnds_iff {start : PAGNode} :
    FirstDominatorEnds pag start ↔ ¬ EntersCycle (dominatorAt pag) (dominatorNext pag) start := by
  apply ends_iff selectFirstDominator_eq
  exact finite_next fun n => List.filter_subset_self _

theorem first_searches_end_iff (pag : PAG) (start : PAGNode) :
    (FirstStoreEnds pag start ↔ ¬ EntersCycle (storeAt pag) (storeNext pag) start) ∧
      (FirstDominatorEnds pag start ↔
        ¬ EntersCycle (dominatorAt pag) (dominatorNext pag) start) :=
  ⟨firstStoreEnds_iff, firstDominatorEnds_iff⟩

/-! A loop over a list: the pointer 1 of the loop is the parameter 0 or the pointer 2 that the last
round has loaded through it. -/

def pointerNode (i : ℕ) : PAGNode := ⟨i, [], ⟨i, .instruction⟩, false⟩

def looping : PAG where
  edges := [⟨.other, pointerNode 0, pointerNode 1, none⟩,
    ⟨.other, pointerNode 2, pointerNode 1, none⟩, ⟨.other, pointerNode 1, pointerNode 2, none⟩]
  isDummy _ := false
  useTarget v := v
  functionOf _ := none
  noAlias _ _ := true
  isAggregateType _ := false
  rounds := 3

lemma entersCycle_of_next {hit : PAGNode → Option PAGNode} {next : PAGNode → List PAGNode}
    {a b : PAGNode} {rest rest' : List PAGNode} (ha : hit a = none) (hb : hit b = none)
    (hab : next a = b :: rest) (hba : next b = a :: rest') : EntersCycle hit next a := by
  have hthere : Enters hit next a b := ⟨ha, [], rest, hab, by simp⟩
  have hback : Enters hit next b a := ⟨hb, [], rest', hba, by simp⟩
  exact ⟨a, ReflTransGen.refl, TransGen.tail (TransGen.single hthere) hback⟩

theorem first_searches_of_looping :
    ¬ FirstStoreEnds looping (pointerNode 1) ∧ ¬ FirstDominatorEnds looping (pointerNode 1) := by
  have hstore : EntersCycle (storeAt looping) (storeNext looping) (pointerNode 1) :=
    entersCycle_of_next (b := pointerNode 2) rfl rfl rfl rfl
  have hdominator : EntersCycle (dominatorAt looping) (dominatorNext looping) (pointerNode 1) :=
    entersCycle_of_next (b := pointerNode 2) rfl rfl rfl rfl
  exact ⟨fun hends => firstStoreEnds_iff.mp hends hstore,
    fun hends => firstDominatorEnds_iff.mp hends hdominator⟩

end Embedwatch.Svf.Visits
