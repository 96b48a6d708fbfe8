import Embedwatch.Library.BreadthFirst
import Embedwatch.Library.Lookup
import Embedwatch.Library.PlainText
import Embedwatch.Uaf.AllocFreeFlow

/-! The export of the control flow graph in `traverseAndWriteToCSV`: one line for each statement of each
node that can be reached. -/

namespace Embedwatch.Uaf

open Library.BreadthFirst Library.Lookup Library.PlainText Relation

/-- `std::string::find`: the place of the first occurrence. -/
def find (sub : Text) : Text → Option ℕ
  | [] => if sub = [] then some 0 else none
  | c :: cs => if sub.isPrefixOf (c :: cs) then some 0 else (find sub cs).map (· + 1)

/-- The loop of `replace`, on what is left of the text. Each round but the last takes a character at
least. -/
def replaceLoop (old new : Text) : ℕ → Text → Text
  | 0, t => t
  | rounds + 1, t =>
    match find old t with
    | none => t
    | some i => t.take i ++ new ++ replaceLoop old new rounds (t.drop (i + old.length))

def replace (t old new : Text) : Text := if old = [] then t else replaceLoop old new (t.length + 1) t

inductive NodeKind
  | funEntryBlock | funExitBlock | funCallBlock | funRetBlock | globalBlock | intraBlock
  deriving DecidableEq

/-- A statement; `opcodeName` is that of its instruction, which it may lack. -/
structure SVFStmt where
  text : Text
  opcodeName : Option Text
  edgeKind : ℤ

/-- What the export reads of a node. The global node lacks a function, and a call through a pointer
lacks `calledFunction`. -/
structure NodeText where
  stmts : List SVFStmt
  funName : Option Text
  kind : NodeKind
  calledFunction : Option Text
  actualParms : ℕ

def header : Text := "instruction;opcode;instr_kind;function;type;call_to;call_params".toList

def escaped (name : Text) : Text :=
  let name := replace name ['\n'] ['\\', 'n']
  let name := replace name ['{'] ['\\', '{']
  let name := replace name ['}'] ['\\', '}']
  replace name ['<'] ['\\', '<']

def NodeKind.text : NodeKind → Text
  | .funEntryBlock => "Function entry".toList
  | .funExitBlock => "Function exit".toList
  | .funCallBlock => "Call".toList
  | .funRetBlock => "Function Ret".toList
  | .globalBlock => "Global".toList
  | .intraBlock => "Intra function".toList

namespace NodeText

def callText (n : NodeText) : Text :=
  if n.kind = .funCallBlock then
    match n.calledFunction with
    | some name => name ++ [';'] ++ decimal n.actualParms ++ [';']
    | none => [';', ';']
  else [';', ';']

/-- The line of a statement of the node, without its end. A statement without an instruction stops the
program, and so does one of a node without a function. -/
def line (n : NodeText) (s : SVFStmt) : Option Text := do
  let opcodeName ← s.opcodeName
  let funName ← n.funName
  some (escaped s.text ++ [';'] ++ opcodeName ++ [';'] ++ signedDecimal s.edgeKind ++ [';'] ++
    (if n.stmts.length = 0 then [';', ';', ';'] else []) ++ funName ++ [';'] ++ n.kind.text ++
    [';'] ++ n.callText)

def lines (n : NodeText) : Option (List Text) := n.stmts.mapM n.line

structure OneLine (n : NodeText) : Prop where
  funName : ∀ name ∈ n.funName, '\n' ∉ name
  calledFunction : ∀ name ∈ n.calledFunction, '\n' ∉ name
  opcodeName : ∀ s ∈ n.stmts, ∀ name ∈ s.opcodeName, '\n' ∉ name

end NodeText

variable {Node Inst : Type*}

namespace ICFG

def successors (icfg : ICFG Node Inst) (n : Node) : List Node :=
  (icfg.getOutEdges n).map ICFGEdge.getDstNode

variable [DecidableEq Node]

def writeNode (text : Node → NodeText) (current : Node) (file : Option Text) : Option Text := do
  some ((← file) ++ unlines (← (text current).lines))

/-- The file that is written, if it can be opened. -/
def traverseAndWriteToCSV (icfg : ICFG Node Inst) (text : Node → NodeText) (opened : Bool)
    (rounds : ℕ) (start : Node) : Option (Option Text) :=
  if opened then
    ((run (pushRound icfg.successors (writeNode text)) rounds
      ⟨[start], {start}, some (unlines [header])⟩).bind Traversal.out).map some
  else some none

end ICFG

variable {t new a : Text} {c old : Char} {n : NodeText} {s : SVFStmt} {l : Text}

lemma find_singleton_none (h : find [c] t = none) : c ∉ t := by
  induction t with
  | nil => exact List.not_mem_nil
  | cons x xs ih =>
    rw [find] at h
    split at h
    · cases h
    · next hpre =>
      have hx : c ≠ x := by
        rintro rfl
        simp at hpre
      have hxs := ih (Option.map_eq_none_iff.mp h)
      exact List.not_mem_cons_of_ne_of_not_mem hx hxs

lemma find_singleton_some {i : ℕ} (h : find [c] t = some i) :
    ∃ a b, t = a ++ c :: b ∧ a.length = i ∧ c ∉ a := by
  induction t generalizing i with
  | nil =>
    rw [find, if_neg (List.cons_ne_nil c [])] at h
    cases h
  | cons x xs ih =>
    rw [find] at h
    split at h
    · next hpre =>
      have hx : c = x := by simpa using hpre
      subst hx
      exact ⟨[], xs, rfl, Option.some.inj h, List.not_mem_nil⟩
    · next hpre =>
      have hx : c ≠ x := by
        rintro rfl
        simp at hpre
      obtain ⟨j, hj, rfl⟩ := Option.map_eq_some_iff.mp h
      obtain ⟨a, b, rfl, rfl, ha⟩ := ih hj
      exact ⟨x :: a, b, rfl, rfl, List.not_mem_cons_of_ne_of_not_mem hx ha⟩

def replaceChar (old : Char) (new t : Text) : Text := t.flatMap fun x => if x = old then new else [x]

lemma replaceChar_of_not_mem (h : old ∉ t) : replaceChar old new t = t := by
  induction t with
  | nil => rfl
  | cons x xs ih =>
    obtain ⟨hx, hxs⟩ := List.ne_and_not_mem_of_not_mem_cons h
    have hrest := ih hxs
    rw [replaceChar] at hrest ⊢
    rw [List.flatMap_cons, if_neg (Ne.symm hx), hrest]
    rfl

lemma replaceLoop_singleton {rounds : ℕ} (h : t.length < rounds) :
    replaceLoop [old] new rounds t = replaceChar old new t := by
  induction rounds generalizing t with
  | zero => omega
  | succ rounds ih =>
    rw [replaceLoop]
    cases hfind : find [old] t with
    | none => exact (replaceChar_of_not_mem (find_singleton_none hfind)).symm
    | some i =>
      obtain ⟨a, b, rfl, rfl, ha⟩ := find_singleton_some hfind
      have hdrop : (a ++ old :: b).drop (a.length + [old].length) = b := by
        rw [List.drop_append]
        simp
      have hlength : b.length < rounds := by
        rw [List.length_append, List.length_cons] at h
        omega
      dsimp only
      rw [hdrop, ih hlength, List.take_left, replaceChar, replaceChar, List.flatMap_append,
        List.flatMap_cons, if_pos rfl, List.append_assoc]
      congr 1
      exact (replaceChar_of_not_mem ha).symm

theorem replace_singleton (t : Text) (old : Char) (new : Text) :
    replace t [old] new = replaceChar old new t := by
  rw [replace, if_neg (List.cons_ne_nil old [])]
  exact replaceLoop_singleton (Nat.lt_succ_self _)

lemma not_mem_replaceChar (hnew : c ∉ new) (h : c = old ∨ c ∉ t) : c ∉ replaceChar old new t := by
  intro hc
  obtain ⟨x, hx, hc⟩ := List.mem_flatMap.mp hc
  split at hc
  · exact hnew hc
  · next hne =>
    obtain rfl := List.mem_singleton.mp hc
    rcases h with rfl | h
    · exact hne rfl
    · exact h hx

lemma newline_not_mem_escaped (t : Text) : '\n' ∉ escaped t := by
  simp only [escaped, replace_singleton]
  apply not_mem_replaceChar (by decide)
  right
  apply not_mem_replaceChar (by decide)
  right
  apply not_mem_replaceChar (by decide)
  right
  exact not_mem_replaceChar (by decide) (Or.inl rfl)

namespace NodeText

lemma two_le_count_callText (n : NodeText) : 2 ≤ n.callText.count ';' := by
  rw [callText]
  split
  · split
    · simp only [List.count_append, List.count_singleton_self]
      omega
    · decide
  · decide

lemma line_eq_none : n.line s = none ↔ s.opcodeName = none ∨ n.funName = none := by
  rw [line]
  cases s.opcodeName <;> cases n.funName <;> simp

lemma count_line (h : n.line s = some l) : header.count ';' < l.count ';' := by
  obtain ⟨opcodeName, -, h⟩ := Option.bind_eq_some_iff.mp h
  obtain ⟨funName, -, h⟩ := Option.bind_eq_some_iff.mp h
  cases h
  have hheader : header.count ';' = 6 := by decide
  have hcall := n.two_le_count_callText
  simp only [List.count_append, List.count_singleton_self]
  omega

lemma newline_not_mem_callText (h : n.OneLine) : '\n' ∉ n.callText := by
  rw [callText]
  split
  · cases hcalled : n.calledFunction with
    | none =>
      have hempty : '\n' ∉ [';', ';'] := by decide
      exact hempty
    | some name =>
      have hname : '\n' ∉ name := h.calledFunction name hcalled
      have hparms := not_mem_decimal (c := '\n') (by decide) n.actualParms
      simp only [List.mem_append, not_or]
      exact ⟨⟨⟨hname, by decide⟩, hparms⟩, by decide⟩
  · decide

lemma newline_not_mem_line (h : n.OneLine) (hs : s ∈ n.stmts) (hl : n.line s = some l) :
    '\n' ∉ l := by
  obtain ⟨opcodeName, hop, hl⟩ := Option.bind_eq_some_iff.mp hl
  obtain ⟨funName, hfun, hl⟩ := Option.bind_eq_some_iff.mp hl
  cases hl
  have hkind : '\n' ∉ n.kind.text := by cases n.kind <;> decide
  have hnum := not_mem_signedDecimal (c := '\n') (by decide) (by decide) s.edgeKind
  have hnone : '\n' ∉ (if n.stmts.length = 0 then [';', ';', ';'] else ([] : Text)) := by
    split <;> decide
  simp only [List.mem_append, not_or]
  exact ⟨⟨⟨⟨⟨⟨⟨⟨⟨⟨⟨newline_not_mem_escaped s.text, by decide⟩, h.opcodeName s hs _ hop⟩, by decide⟩,
    hnum⟩, by decide⟩, hnone⟩, h.funName _ hfun⟩, by decide⟩, hkind⟩, by decide⟩,
    newline_not_mem_callText h⟩

end NodeText

variable {text : Node → NodeText} {order : List Node} {ls ls' : List Text}

lemma unlines_append (ls ls' : List Text) : unlines (ls ++ ls') = unlines ls ++ unlines ls' :=
  List.flatMap_append

lemma foldl_writeNode_none (order : List Node) :
    order.foldl (fun file c => ICFG.writeNode text c file) none = none := by
  induction order with
  | nil => rfl
  | cons c order ih => exact ih

lemma foldl_writeNode (order : List Node) (ls : List Text) :
    order.foldl (fun file c => ICFG.writeNode text c file) (some (unlines ls)) =
      (order.mapM fun c => (text c).lines).map fun rows => unlines (ls ++ rows.flatten) := by
  induction order generalizing ls with
  | nil =>
    rw [List.foldl_nil, List.mapM_nil]
    exact congrArg some (congrArg unlines (List.append_nil ls).symm)
  | cons c order ih =>
    rw [List.foldl_cons, List.mapM_cons]
    cases hc : (text c).lines with
    | none =>
      have hwrite : ICFG.writeNode text c (some (unlines ls)) = none := by
        rw [ICFG.writeNode, hc]
        rfl
      rw [hwrite, foldl_writeNode_none]
      rfl
    | some rows =>
      have hwrite : ICFG.writeNode text c (some (unlines ls)) = some (unlines (ls ++ rows)) := by
        rw [ICFG.writeNode, hc, unlines_append]
        rfl
      rw [hwrite, ih]
      cases hrest : order.mapM fun c => (text c).lines with
      | none => rfl
      | some rest =>
        have hassoc : ls ++ rows ++ rest.flatten = ls ++ (rows :: rest).flatten := by
          rw [List.append_assoc, List.flatten_cons]
        exact congrArg some (congrArg unlines hassoc)

lemma splitOn_unlines (hne : ls ≠ []) (h : ∀ l ∈ ls, '\n' ∉ l) :
    (unlines ls).splitOn '\n' = ls ++ [[]] := by
  rw [unlines_eq_intercalate hne, ← intercalate_concat '\n' hne [],
    List.splitOn_intercalate _ _ (List.append_ne_nil_of_left_ne_nil hne _)]
  intro l hl
  rcases List.mem_append.mp hl with hl | hl
  · exact h l hl
  · rw [List.mem_singleton.mp hl]
    exact List.not_mem_nil

lemma mapM_lines_eq_none : (order.mapM fun c => (text c).lines) = none ↔
    ∃ n ∈ order, ∃ s ∈ (text n).stmts, s.opcodeName = none ∨ (text n).funName = none := by
  simp only [mapM_eq_none, NodeText.lines, NodeText.line_eq_none]

lemma length_rows {rows : List (List Text)} (h : (order.mapM fun c => (text c).lines) = some rows) :
    rows.flatten.length = (order.map fun c => (text c).stmts.length).sum := by
  induction order generalizing rows with
  | nil =>
    cases h
    rfl
  | cons c order ih =>
    obtain ⟨r, rows, hr, hrows, rfl⟩ := mapM_cons_eq_some.mp h
    rw [List.flatten_cons, List.length_append, List.map_cons, List.sum_cons, ih hrows,
      length_of_mapM hr]

lemma mem_rows {rows : List (List Text)} {l : Text}
    (h : (order.mapM fun c => (text c).lines) = some rows) (hl : l ∈ rows.flatten) :
    ∃ c ∈ order, ∃ s ∈ (text c).stmts, (text c).line s = some l := by
  obtain ⟨row, hrow, hl⟩ := List.mem_flatten.mp hl
  obtain ⟨c, horder, hc⟩ := mem_of_mapM h hrow
  obtain ⟨s, hs, hsl⟩ := mem_of_mapM hc hl
  exact ⟨c, horder, s, hs, hsl⟩

namespace ICFG

variable [DecidableEq Node] [Fintype Node]

theorem traverseAndWriteToCSV_lines (icfg : ICFG Node Inst) (text : Node → NodeText) (start : Node) :
    icfg.traverseAndWriteToCSV text false (Fintype.card Node) start = some none ∧
    ∃ order : List Node, order.Nodup ∧ (∀ n, n ∈ order ↔ ReflTransGen icfg.Edge start n) ∧
      (icfg.traverseAndWriteToCSV text true (Fintype.card Node) start = none ↔
        ∃ n ∈ order, ∃ s ∈ (text n).stmts, s.opcodeName = none ∨ (text n).funName = none) ∧
      ∀ out, icfg.traverseAndWriteToCSV text true (Fintype.card Node) start = some out →
        ∃ rows, (order.mapM fun n => (text n).lines) = some rows ∧
          out = some (unlines (header :: rows.flatten)) ∧
          rows.flatten.length = (order.map fun n => (text n).stmts.length).sum ∧
          (∀ l ∈ rows.flatten, header.count ';' < l.count ';') ∧
          ((∀ n ∈ order, (text n).OneLine) →
            (unlines (header :: rows.flatten)).splitOn '\n' = header :: rows.flatten ++ [[]]) := by
  refine ⟨rfl, ?_⟩
  have hstart : ∀ x ∈ ({start} : Finset Node), x = start := fun x hx => Finset.mem_singleton.mp hx
  have hqueue : ∀ x ∈ [start], x ∈ ({start} : Finset Node) :=
    fun x hx => Finset.mem_singleton.mpr (List.mem_singleton.mp hx)
  have hends : ∃ s', run (visitRound (fun _ => icfg.successors) (writeNode text)) (Fintype.card Node)
      ⟨[start], {start}, some (unlines [header])⟩ = some s' :=
    visit_order_ends Finset.univ (Finset.mem_univ start) (fun x _ y _ => Finset.mem_univ y) hstart
      (Nat.le_refl _)
  obtain ⟨s', hs'⟩ := hends
  obtain ⟨order, hnodup, hmem, hout⟩ := visit_order hstart hs'
  have hfile : icfg.traverseAndWriteToCSV text true (Fintype.card Node) start =
      (order.mapM fun c => (text c).lines).map fun rows =>
        some (unlines ([header] ++ rows.flatten)) := by
    rw [traverseAndWriteToCSV, if_pos rfl, run_pushRound hqueue, hs', Option.bind_some, hout,
      foldl_writeNode, Option.map_map]
    rfl
  refine ⟨order, hnodup, hmem, ?_, fun out h' => ?_⟩
  · rw [hfile, Option.map_eq_none_iff]
    exact mapM_lines_eq_none
  · rw [hfile] at h'
    obtain ⟨rows, hrows, rfl⟩ := Option.map_eq_some_iff.mp h'
    refine ⟨rows, hrows, rfl, length_rows hrows, fun l hl => ?_, fun h => ?_⟩
    · obtain ⟨n, -, s, hs, hline⟩ := mem_rows hrows hl
      exact NodeText.count_line hline
    · apply splitOn_unlines (List.cons_ne_nil header rows.flatten)
      intro l hl
      rcases List.mem_cons.mp hl with rfl | hl
      · decide
      · obtain ⟨n, hn, s, hs, hline⟩ := mem_rows hrows hl
        exact NodeText.newline_not_mem_line (h n hn) hs hline

end ICFG

def callCycle : ICFG (Fin 2) Unit where
  getId n := n.val.toUInt32
  getOutEdges n := if n = 0 then [⟨1⟩, ⟨1⟩] else [⟨0⟩]
  getICFGNode _ := 0
  getId_injective := by decide

def callCycleText (n : Fin 2) : NodeText :=
  if n = 0 then ⟨[⟨['a', '\n', '<'], some ['c', 'a', 'l', 'l'], 3⟩], some ['f'], .funCallBlock, none, 0⟩
  else ⟨[], some ['g'], .funRetBlock, none, 0⟩

example : callCycle.traverseAndWriteToCSV callCycleText true 2 0 =
    some (some (unlines [header, "a\\n\\<;call;3;f;Call;;;".toList])) := by
  decide +kernel

end Embedwatch.Uaf
