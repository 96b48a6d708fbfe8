import Embedwatch.Library.PlainText
import Mathlib.Logic.Function.Basic

/-! The verifier's static trace: the nodes read from the lines of the `ztrace` file, with the
children found by the father's id. A step that raises an exception gives `none`. -/

namespace Embedwatch.Verifier

open Library.PlainText

def defType : Text := ['D', 'E', 'F']

def useType : Text := ['U', 'S', 'E']

def adefType : Text := ['A', 'D', 'E', 'F']

def gdefType : Text := ['G', 'D', 'E', 'F']

def sdefType : Text := ['S', 'D', 'E', 'F']

def ddefType : Text := ['D', 'D', 'E', 'F']

def baseCls : Text := ['B', 'A', 'S', 'E']

/-- `Trace_line`. The children are given by their places among the nodes; `length` and `address`
are the dictionaries, by frame. -/
structure TraceLine where
  id : ℤ
  type : Text
  father : Option ℤ
  info : Text
  cls : Option Text
  length : ℤ → Option ℤ
  offset : Option ℤ
  fields : Option (List ℤ)
  fun_ : Option Text
  children : List ℕ
  address : ℤ → Option ℤ

/-- `eval` on the text of a list of integers. -/
def evalList (t : Text) : Option (List ℤ) :=
  match strip t with
  | '[' :: cs =>
    match cs.reverse with
    | ']' :: ds =>
      if ds = [] then some [] else (ds.reverse.splitOn ',').mapM (readInt 10)
    | _ => none
  | _ => none

def onlyAt (g : ℤ) (x : ℤ) : ℤ → Option ℤ := Function.update (fun _ => none) g (some x)

def attrIf {α : Type*} (present : Bool) (value : Option α) : Option (Option α) :=
  if present then value.map some else some none

def TraceLine.ofValues (values : List Text) : Option TraceLine := do
  let id ← values[0]?.bind (readInt 10)
  let type ← values[1]?
  let fatherText ← values[2]?
  let father ← attrIf (fatherText ≠ []) (readInt 10 fatherText)
  let info ← values.getLast?
  let isDef := occurs defType type
  let cls ← attrIf isDef values[3]?
  let length ← attrIf isDef (values[4]?.bind (readInt 10))
  let offset ← attrIf (type = sdefType) (values[5]?.bind (readInt 10))
  let fields ← attrIf (type = sdefType) (values[6]?.bind evalList)
  let fun_ ← attrIf (occurs useType type) values[3]?
  let lengths := (length.map (onlyAt 0)).getD fun _ => none
  some ⟨id, type, father, info, cls, lengths, offset, fields, fun_, [], fun _ => none⟩

/-- `Trace_line.__init__`. -/
def TraceLine.ofLine (traceline : Text) : Option TraceLine :=
  TraceLine.ofValues (traceline.splitOn ';')

/-- The globals `nodes`, `def_map` and `static_trace`; the latter two refer to nodes by their
places, and an id without definitions is not a key of `def_map`. -/
structure State where
  nodes : List TraceLine
  defMap : ℤ → List ℕ
  staticTrace : List ℕ

def State.empty : State := ⟨[], fun _ => [], []⟩

def State.addLine (v : State) (tl : TraceLine) : Option State :=
  let place := v.nodes.length
  let nodes := v.nodes ++ [tl]
  let defMap := if occurs defType tl.type then
    Function.update v.defMap tl.id (v.defMap tl.id ++ [place]) else v.defMap
  if tl.father = some (-1) then some ⟨nodes, defMap, v.staticTrace ++ [place]⟩
  else match nodes.findIdx? fun t => some t.id = tl.father with
    | some i =>
      some ⟨nodes.modify i fun t => { t with children := t.children ++ [place] }, defMap,
        v.staticTrace⟩
    | none => none

def State.parseLine (v : State) (line : Text) : Option State := do
  v.addLine (← TraceLine.ofLine (strip line))

def traceParser (trace : Text) : Option State :=
  ((strip trace).splitOn '\n').foldlM State.parseLine .empty

end Embedwatch.Verifier
