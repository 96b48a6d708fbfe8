import Embedwatch.Library.Worklist
import Embedwatch.Svf.IndirectUses

/-! The visits of the program assignment graph in `visits.cpp`. The back of a vector is the head of its
list, and a set is a list without repetitions. A visit that takes more rounds than it is given has no
result. -/

namespace Embedwatch.Svf.Visits

open Relation Library.Worklist

variable (pag : PAG)

def visitAndSelectPagNodes (select : PAGNode → Search PAGNode → Search PAGNode) (rounds : ℕ)
    (start : PAGNode) : Option (List PAGNode) :=
  run select rounds ⟨[start], [], []⟩

/-- The loop over the incoming edges in `selectDefs`. -/
def selectDefEdges : List PAGEdge → Search PAGNode → Search PAGNode
  | [], s => s
  | e :: es, s =>
    if pag.isDummy e.src then selectDefEdges es s
    else if e.kind = .addr then selectDefEdges es { s with ret := s.ret.insert e.src }
    else if e.src ∈ s.visited then selectDefEdges es s
    else selectDefEdges es
      { s with worklist := e.src :: s.worklist, visited := e.src :: s.visited }

def selectDefs (current : PAGNode) (s : Search PAGNode) : Search PAGNode :=
  let s := selectDefEdges pag (pag.inEdges current) s
  { s with visited := current :: s.visited }

def getDefNodes (rounds : ℕ) (pgn : PAGNode) : Option (List PAGNode) :=
  visitAndSelectPagNodes (selectDefs pag) rounds pgn

/-- The loop over edges in `selectFirstStore` and `selectFirstDominator`: an edge of the kind that is
looked for clears the work list, the far ends of other edges go to it. -/
def selectFirstEdges (kind : EdgeKind) (far : PAGEdge → PAGNode) :
    List PAGEdge → Search PAGNode → Search PAGNode
  | [], s => s
  | e :: es, s =>
    if pag.isDummy e.src then selectFirstEdges kind far es s
    else if e.kind = kind then { s with worklist := [], ret := s.ret.insert (far e) }
    else selectFirstEdges kind far es { s with worklist := far e :: s.worklist }

def outEdges (n : PAGNode) : List PAGEdge := pag.edges.filter fun e => e.src = n

def selectFirstStore (current : PAGNode) : Search PAGNode → Search PAGNode :=
  selectFirstEdges pag .store PAGEdge.dst (outEdges pag current)

def findFirstStore (rounds : ℕ) (top : PAGNode) : Option (Option PAGNode) :=
  (visitAndSelectPagNodes (selectFirstStore pag) rounds top).map List.head?

def selectFirstDominator (current : PAGNode) : Search PAGNode → Search PAGNode :=
  selectFirstEdges pag .addr PAGEdge.src (pag.inEdges current)

def findFirstDominator (rounds : ℕ) (top : PAGNode) : Option (Option PAGNode) :=
  (visitAndSelectPagNodes (selectFirstDominator pag) rounds top).map List.head?

def hitAmong (kind : EdgeKind) (far : PAGEdge → PAGNode) (es : List PAGEdge) : Option PAGNode :=
  (es.find? fun e => !pag.isDummy e.src && e.kind = kind).map far

def followed (far : PAGEdge → PAGNode) (es : List PAGEdge) : List PAGNode :=
  ((es.filter fun e => !pag.isDummy e.src).map far).reverse

variable {pag} {n : PAGNode}

lemma selectFirstEdges_eq (kind : EdgeKind) (far : PAGEdge → PAGNode) (es : List PAGEdge)
    (s : Search PAGNode) : selectFirstEdges pag kind far es s =
      selectFirst (fun _ => hitAmong pag kind far es) (fun _ => followed pag far es) n s := by
  induction es generalizing s with
  | nil => rfl
  | cons e es ih =>
    rw [selectFirstEdges, selectFirst, hitAmong, followed]
    by_cases hdummy : pag.isDummy e.src = true
    · rw [if_pos hdummy, ih, List.find?_cons_of_neg (by simp [hdummy]),
        List.filter_cons_of_neg (by simp [hdummy])]
      rfl
    · rw [if_neg hdummy, List.filter_cons_of_pos (by simpa using hdummy)]
      by_cases hkind : e.kind = kind
      · rw [if_pos hkind, List.find?_cons_of_pos (by simp [hdummy, hkind])]
        rfl
      · rw [if_neg hkind, ih, List.find?_cons_of_neg (by simp [hkind]), List.map_cons,
          List.reverse_cons, List.append_assoc]
        rfl

lemma selectFirstStore_eq : selectFirstStore pag =
    selectFirst (fun n => hitAmong pag .store PAGEdge.dst (outEdges pag n))
      (fun n => followed pag PAGEdge.dst (outEdges pag n)) := by
  funext n s
  exact @selectFirstEdges_eq pag n .store PAGEdge.dst (outEdges pag n) s

lemma selectFirstDominator_eq : selectFirstDominator pag =
    selectFirst (fun n => hitAmong pag .addr PAGEdge.src (pag.inEdges n))
      (fun n => followed pag PAGEdge.src (pag.inEdges n)) := by
  funext n s
  exact @selectFirstEdges_eq pag n .addr PAGEdge.src (pag.inEdges n) s

lemma mem_followed {far : PAGEdge → PAGNode} {es : List PAGEdge} :
    n ∈ followed pag far es ↔ ∃ e ∈ es, pag.isDummy e.src = false ∧ far e = n := by
  simp [followed, and_assoc]

lemma selectFirstEdges_addr (es : List PAGEdge) (w v r : List PAGNode) :
    selectFirstEdges pag .addr PAGEdge.src es ⟨w, v, r⟩ =
      (pag.selectFirstDominator es w).elim (fun d => ⟨[], v, r.insert d⟩) (fun w => ⟨w, v, r⟩) := by
  induction es generalizing w with
  | nil => rfl
  | cons e es ih =>
    rw [selectFirstEdges, PAG.selectFirstDominator]
    split_ifs
    · exact ih w
    · rfl
    · exact ih (e.src :: w)

theorem visitFirstDominator_eq (rounds : ℕ) (top : PAGNode) :
    pag.visitFirstDominator rounds [top] = findFirstDominator pag rounds top := by
  have hvisit : ∀ w v, pag.visitFirstDominator rounds w =
      (run (selectFirstDominator pag) rounds ⟨w, v, []⟩).map List.head? := by
    induction rounds with
    | zero =>
      intro w v
      cases w <;> rfl
    | succ rounds ih =>
      intro w v
      cases w with
      | nil => rfl
      | cons c w =>
        rw [PAG.visitFirstDominator, run, selectFirstDominator, selectFirstEdges_addr]
        cases pag.selectFirstDominator (pag.inEdges c) w with
        | inl d =>
          rw [Sum.elim_inl, run_nil]
          rfl
        | inr w' => exact ih w' v
  exact hvisit [top] []

end Embedwatch.Svf.Visits
