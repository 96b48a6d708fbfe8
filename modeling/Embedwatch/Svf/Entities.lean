import Embedwatch.Verifier.TraceParser

/-! The entities that the static analysis collects, and the text that `exportTrace` writes for a trace
of them. Two pointers to entities are equal if and only if the ids are. -/

namespace Embedwatch.Svf

open Library.PlainText
open Verifier (adefType gdefType sdefType ddefType baseCls)

inductive ValueKind
  | alloca
  | call (function : Text)
  | instruction
  | globalVariable
  | globalValue
  | other
  deriving DecidableEq

structure Value where
  ref : ℕ
  kind : ValueKind
  deriving DecidableEq

def Value.isInstruction (v : Value) : Bool :=
  match v.kind with
  | .alloca | .call _ | .instruction => true
  | .globalVariable | .globalValue | .other => false

def Value.isGlobalVariable (v : Value) : Bool := v.kind = .globalVariable

/-- A node of the program assignment graph, with its text and the answer of `isDominatorNode`. -/
structure PAGNode where
  id : ℕ
  text : Text
  value : Value
  dominator : Bool
  deriving DecidableEq

abbrev TypeRef := ℕ

/-- `ADef`, `GDef`, `DDef` and `SDef`; the value is that of the alloca, the global or the call. -/
inductive Def
  | adef (id : ℕ) (node : PAGNode) (alloca : Value) (type : TypeRef) (bytes : ℤ)
  | gdef (id : ℕ) (node : PAGNode) (global : Value) (type : TypeRef) (bytes : ℤ)
  | ddef (id : ℕ) (node : PAGNode) (call : Value) (target : Def)
  | sdef (id : ℕ) (node : PAGNode) (type : TypeRef) (bytes : ℤ) (fields : List ℤ) (offset : ℤ)
  deriving DecidableEq

def Def.id : Def → ℕ
  | .adef id _ _ _ _ | .gdef id _ _ _ _ | .ddef id _ _ _ | .sdef id _ _ _ _ _ => id

inductive UseKind
  | suse
  | luse
  deriving DecidableEq

structure ZUse where
  kind : UseKind
  id : ℕ
  text : Text
  fun_ : Text
  instr : Value
  targets : List Def
  deriving DecidableEq

inductive SubObject
  | use (u : ZUse)
  | defn (d : Def)
  deriving DecidableEq

structure In where
  id : ℕ
  text : Text
  call : Value
  subObjects : List SubObject
  deriving DecidableEq

inductive TraceEntity
  | input (i : In)
  | use (u : ZUse)
  | defn (d : Def)
  deriving DecidableEq

def SubObject.entity : SubObject → TraceEntity
  | .use u => .use u
  | .defn d => .defn d

def TraceEntity.id : TraceEntity → ℕ
  | .input i => i.id
  | .use u => u.id
  | .defn d => d.id

/-- `std::replace(out.begin(), out.end(), '\n', ' ')`. -/
def oneLine (t : Text) : Text := t.map fun c => if c = '\n' then ' ' else c

def clsText (dominator : Bool) : Text :=
  if dominator then ['D', 'O', 'M', 'I', 'N', 'A', 'T', 'O', 'R'] else baseCls

def fieldList (fields : List ℤ) : Text :=
  ['['] ++ List.intercalate [','] (fields.map signedDecimal) ++ [']']

def row (values : List Text) : Text := List.intercalate [';'] values ++ ['\n']

def inType : Text := ['I', 'N']

def suseType : Text := ['S', 'U', 'S', 'E']

def luseType : Text := ['L', 'U', 'S', 'E']

def Def.values (father : ℤ) : Def → List Text
  | .adef id node _ _ bytes =>
    [decimal id, adefType, signedDecimal father, clsText node.dominator, signedDecimal bytes,
      oneLine node.text]
  | .gdef id node _ _ bytes =>
    [decimal id, gdefType, signedDecimal father, clsText node.dominator, signedDecimal bytes,
      oneLine node.text]
  | .ddef id node _ _ =>
    [decimal id, ddefType, signedDecimal father, baseCls, signedDecimal (-1),
      oneLine node.text]
  | .sdef id node _ bytes fields offset =>
    [decimal id, sdefType, signedDecimal father, clsText node.dominator,
      signedDecimal bytes, signedDecimal offset, fieldList fields, oneLine node.text]

def UseKind.tag : UseKind → Text
  | .suse => suseType
  | .luse => luseType

def ZUse.values (father : ℤ) (u : ZUse) : List Text :=
  [decimal u.id, u.kind.tag, signedDecimal father, u.fun_, oneLine u.text]

def In.values (father : ℤ) (i : In) : List Text :=
  [decimal i.id, inType, signedDecimal father, oneLine i.text]

def TraceEntity.values (father : ℤ) : TraceEntity → List Text
  | .input i => i.values father
  | .use u => u.values father
  | .defn d => d.values father

def TraceEntity.traceLine (father : ℤ) (te : TraceEntity) : Text := row (te.values father)

def tabs (ident : ℕ) : Text := List.replicate ident '\t'

def Def.exportEntity (d : Def) (father : ℤ) (ident : ℕ) : Text :=
  match d with
  | .ddef id node call target =>
    tabs ident ++ TraceEntity.traceLine father (.defn (.ddef id node call target)) ++
      target.exportEntity id (ident + 1)
  | d => tabs ident ++ TraceEntity.traceLine father (.defn d)

def TraceEntity.exportEntity (te : TraceEntity) (father : ℤ) (ident : ℕ) : Text :=
  match te with
  | .defn d => d.exportEntity father ident
  | te => tabs ident ++ te.traceLine father

/-- An entity that `exportTrace` writes and enters into its map, with the father and the indentation
it is written with. The target of a `DDef` is written only. -/
structure Visit where
  te : TraceEntity
  father : ℤ
  ident : ℕ

def SubObject.visits (father : ℕ) (sub : SubObject) : List Visit :=
  ⟨sub.entity, father, 1⟩ ::
    match sub with
    | .use u => u.targets.map fun d => ⟨.defn d, u.id, 2⟩
    | .defn _ => []

def TraceEntity.visits (te : TraceEntity) : List Visit :=
  ⟨te, -1, 0⟩ ::
    match te with
    | .input i => i.subObjects.flatMap (SubObject.visits i.id)
    | .use _ | .defn _ => []

def visits (trace : List TraceEntity) : List Visit := trace.flatMap TraceEntity.visits

def exportTrace (trace : List TraceEntity) : Text :=
  (visits trace).flatMap fun visit => visit.te.exportEntity visit.father visit.ident

end Embedwatch.Svf
