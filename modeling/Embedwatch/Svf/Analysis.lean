import Embedwatch.Records
import Embedwatch.Library.Runs
import Embedwatch.Svf.Entities

/-! The analyses of `main`, which collect the trace: input functions, library functions, parameters of
`_instrumented` functions and integers cast to pointers. What the graphs of SVF answer is given. A
step that dereferences a null pointer or runs into an assertion gives `none`. -/

namespace Embedwatch.Svf

open Library.PlainText

/-- A path of `getPathFromTo`, by the operands of its `getelementptr` instructions behind the base and
the first index; an operand that is not constant is `none`. -/
abbrev GepPath := List (List (Option ℤ))

structure StoreNode where
  text : Text
  fun_ : Text
  store : Value

structure Graphs where
  valueType : Value → TypeRef
  allocatedType : Value → TypeRef
  globalType : Value → TypeRef
  structElements : TypeRef → Option (List TypeRef)
  pointee : TypeRef → Option TypeRef
  allocSize : TypeRef → ℤ
  node : Value → PAGNode
  getDefNodes : PAGNode → List PAGNode
  outEdges : PAGNode → ℕ
  findTargetOfCall : PAGNode → Option PAGNode
  findFirstStore : PAGNode → Option PAGNode
  findDefNodesFromStore : Value → List PAGNode
  defOfParam : Value → Option Value
  storesFrom : Value → List StoreNode
  pathsToUse : PAGNode → Value → Option (List GepPath)
  stack : ℕ

structure State where
  nextId : ℕ
  trace : List TraceEntity
  deflist : List Def
  zref : Value → Text → Option Text

def State.init : State := ⟨0, [], [], fun _ _ => none⟩

def defNodeCompare : Def → PAGNode → Bool
  | .adef _ node _ _ _, pn => pn.id = node.id
  | .gdef _ node _ _ _, pn => pn.id = node.id
  | .ddef _ node _ target, pn => pn.id = node.id || defNodeCompare target pn
  | .sdef _ _ _ _ _ _, _ => false

def getDefId (deflist : List Def) (node : PAGNode) : Option ℕ :=
  (deflist.find? fun d => defNodeCompare d node).map Def.id

def getDefWithID (deflist : List Def) (id : ℕ) : Option Def := deflist.find? fun d => d.id = id

def dynamicFunctions : List Text :=
  [['m', 'a', 'l', 'l', 'o', 'c'], ['c', 'a', 'l', 'l', 'o', 'c']]

def isDynamicFunction (function : Text) : Bool := function ∈ dynamicFunctions

namespace Graphs

variable (svf : Graphs)

/-- `DefBuilder.buildDef` with the id counter; `none` inside is the null pointer that a call of another
function gives. The target of a `DDef` that is null crashes the program when it is exported. -/
def buildDef : ℕ → PAGNode → ℕ → Option (Option Def × ℕ)
  | 0, _, _ => none
  | stack + 1, node, nextId =>
    match node.value.kind with
    | .alloca =>
      let type := svf.allocatedType node.value
      some (some (.adef nextId node node.value type (svf.allocSize type)), nextId + 1)
    | .globalVariable | .globalValue =>
      let type := svf.globalType node.value
      some (some (.gdef nextId node node.value type (svf.allocSize type)), nextId + 1)
    | .call function =>
      if isDynamicFunction function then
        (svf.findTargetOfCall node).bind fun targetNode =>
          (buildDef stack targetNode nextId).bind fun built =>
            built.1.map fun target => (some (.ddef built.2 node node.value target), built.2 + 1)
      else some (none, nextId)
    | .instruction | .other => none

def getOrBuildDef (s : State) (node : PAGNode) : Option (Option Def × State) :=
  match getDefId s.deflist node with
  | none =>
    (svf.buildDef svf.stack node s.nextId).map fun built => (built.1, { s with nextId := built.2 })
  | some id => some (getDefWithID s.deflist id, s)

def elements (t : TypeRef) : Option (List TypeRef) :=
  match svf.structElements t with
  | some es => some es
  | none => (svf.pointee t).bind svf.structElements

/-- The variables `t`, `field_list` and `size` of `analyzeGep`. -/
structure Access where
  type : TypeRef
  fields : List ℤ
  size : ℤ

def accessOperands (a : Access) : List (Option ℤ) → Option Access
  | [] => some a
  | operand :: operands =>
    match svf.elements a.type, operand with
    | none, _ => some a
    | some _, none => some a
    | some es, some i =>
      if 0 ≤ i then
        es[i.toNat]?.bind fun tp => accessOperands
          ⟨tp, a.fields ++ [i], toInt (a.size + ((es.take i.toNat).map svf.allocSize).sum)⟩ operands
      else none

def accessPath (a : Access) : GepPath → Option Access
  | [] => some a
  | gep :: geps =>
    (svf.accessOperands a gep).bind fun a' =>
      if (svf.elements a'.type).isSome then accessPath a' geps else some a'

def fieldDefs (deflist : List Def) (p : PAGNode) (a : Access) : List Def :=
  deflist.filter fun d =>
    match d with
    | .sdef _ node type _ _ offset => node = p ∧ type = a.type ∧ offset = a.size
    | _ => false

/-- A round of the loop over the paths in `analyzeGep`; the definitions are those whose ids it returns
and which it adds to the targets of the use, if it has got one. -/
def analyzePath (s : State) (p : PAGNode) (path : GepPath) : Option (List Def × State) :=
  (svf.accessPath ⟨svf.valueType p.value, [], 0⟩ path).bind fun a =>
    let found := fieldDefs s.deflist p a
    if found ≠ [] then some (found, s)
    else
      let first : Option Access := if a.type = svf.valueType p.value then
        ((svf.elements a.type).bind List.head?).map fun t => ⟨t, a.fields ++ [0], a.size⟩
        else some a
      first.map fun a =>
        let d : Def := .sdef s.nextId p a.type (svf.allocSize a.type) a.fields a.size
        ([d], { s with nextId := s.nextId + 1, deflist := s.deflist ++ [d] })

def analyzePaths (s : State) (p : PAGNode) : List GepPath → Option (List Def × State)
  | [] => some ([], s)
  | path :: paths =>
    (svf.analyzePath s p path).bind fun one =>
      (analyzePaths one.2 p paths).map fun rest => (one.1 ++ rest.1, rest.2)

def analyzeGep (s : State) (p : PAGNode) (use : Value) : Option (List Def × State) :=
  (svf.pathsToUse p use).bind fun paths => svf.analyzePaths s p paths

def isStruct (p : PAGNode) : Bool := (svf.elements (svf.valueType p.value)).isSome

def targetsOf (s : State) (use : Value) (p : PAGNode) : Option (List Def × State) :=
  if svf.isStruct p then svf.analyzeGep s p use
  else (svf.getOrBuildDef s p).bind fun got =>
    got.1.map fun d => ([d], { got.2 with deflist := got.2.deflist ++ [d] })

def targets (s : State) (use : Value) : List PAGNode → Option (List Def × State)
  | [] => some ([], s)
  | p :: ps =>
    (svf.targetsOf s use p).bind fun one =>
      (targets one.2 use ps).map fun rest => (one.1 ++ rest.1, rest.2)

def storeUses (s : State) (use : StoreNode → Value) : List StoreNode → Option (List ZUse × State)
  | [] => some ([], s)
  | n :: ns =>
    (svf.targets { s with nextId := s.nextId + 1 } (use n)
      (svf.findDefNodesFromStore n.store)).bind fun one =>
        (storeUses one.2 use ns).map fun rest =>
          (⟨.suse, s.nextId, n.text, n.fun_, n.store, one.1⟩ :: rest.1, rest.2)

end Graphs

inductive InputFunction
  | wrapperGets | wrapperGetc | wrapperFgets | fgetc | wrapperFread | wrapperScanf
  deriving DecidableEq

structure CallSite where
  call : Value
  text : Text
  fun_ : Text
  params : List PAGNode
  ret : PAGNode

structure Param where
  call : Value
  name : Text
  pointer : Bool
  value : Option Value
  aliased : Option Text

def functionParam {α : Type*} (f : LibFunction) (paramList : List α) : Option α :=
  match f with
  | .scanf => paramList[1]?
  | .isoc99Scanf => paramList[1]?
  | .strcpy => paramList[0]?
  | .memcpy => paramList[0]?

def zrefName (param : Text) : Text := ['z', 'r', 'e', 'f', '_'] ++ param ++ ['_', 'i', 'd']

def argumentId (arg : Text) : Text := arg ++ ['_', 'i', 'd']

def State.setZref (s : State) (call : Value) (param value : Text) : State :=
  { s with zref :=
      Function.update s.zref call (Function.update (s.zref call) (zrefName param) (some value)) }

namespace Graphs

variable (svf : Graphs)

/-- The variable has no value for four of the functions. -/
def inputParam (f : InputFunction) (c : CallSite) : Option PAGNode :=
  match f with
  | .wrapperScanf => c.params[1]?
  | .fgetc => if svf.outEdges c.ret = 0 then some c.ret else svf.findFirstStore c.ret
  | .wrapperGets | .wrapperGetc | .wrapperFgets | .wrapperFread => none

def inputDefs (s : State) : List PAGNode → Option (List SubObject × State)
  | [] => some ([], s)
  | p :: ps =>
    let v := match p.value.kind with
      | .call _ => (svf.findTargetOfCall p).map PAGNode.value
      | _ => some p.value
    v.bind fun v => (svf.getOrBuildDef s p).bind fun got => got.1.bind fun d =>
      (svf.storeUses { got.2 with deflist := got.2.deflist ++ [d] } StoreNode.store
        (svf.storesFrom v)).bind fun uses =>
          (inputDefs uses.2 ps).map fun rest =>
            (.defn d :: uses.1.map .use ++ rest.1, rest.2)

def input (s : State) (f : InputFunction) (c : CallSite) : Option State :=
  (svf.inputParam f c).bind fun param =>
    (svf.inputDefs { s with nextId := s.nextId + 1 } (svf.getDefNodes param)).map fun subs =>
      { subs.2 with trace := subs.2.trace ++ [.input ⟨s.nextId, c.text, c.call, subs.1⟩] }

def lib (s : State) (f : LibFunction) (c : CallSite) : Option State :=
  (functionParam f c.params).bind fun param =>
    (svf.targets { s with nextId := s.nextId + 2 } c.call (svf.getDefNodes param)).map fun got =>
      let luse : ZUse := ⟨.luse, s.nextId + 1, c.text, c.fun_, c.call, got.1⟩
      { got.2 with trace := got.2.trace ++ [.input ⟨s.nextId, c.text, c.call, [.use luse]⟩] }

lemma lib_use {s s' : State} {f : LibFunction} {c : CallSite} (h : svf.lib s f c = some s') :
    ∃ param ds s₁, functionParam f c.params = some param ∧
      svf.targets { s with nextId := s.nextId + 2 } c.call (svf.getDefNodes param) = some (ds, s₁) ∧
      s'.trace = s₁.trace ++ [.input ⟨s.nextId, c.text, c.call,
        [.use ⟨.luse, s.nextId + 1, c.text, c.fun_, c.call, ds⟩]⟩] := by
  obtain ⟨param, hparam, h⟩ := Option.bind_eq_some_iff.mp h
  obtain ⟨⟨ds, s₁⟩, hds, h⟩ := Option.map_eq_some_iff.mp h
  cases h
  exact ⟨param, ds, s₁, hparam, hds, rfl⟩

def attachDef (s : State) (call : Value) (name : Text) (use : Value) :
    List PAGNode → Option State
  | [] => some s
  | p :: ps =>
    if p.dominator then attachDef s call name use ps
    else match getDefId s.deflist p with
      | some id => some (s.setZref call name (decimal id))
      | none =>
        if svf.isStruct p then
          (svf.analyzeGep s p use).bind fun got => got.1.head?.map fun d =>
            got.2.setZref call name (decimal d.id)
        else (svf.getOrBuildDef s p).bind fun got =>
          match got.1 with
          | none => attachDef got.2 call name use ps
          | some d =>
            some (State.setZref { got.2 with
              trace := got.2.trace ++ [.defn d], deflist := got.2.deflist ++ [d] }
              call name (decimal d.id))

def param (s : State) (p : Param) : Option State :=
  if p.pointer then
    match p.value, p.aliased with
    | none, _ => some s
    | some _, some arg => some (s.setZref p.call p.name (argumentId arg))
    | some v, none => (svf.defOfParam v).bind fun use =>
      svf.attachDef s p.call p.name use (svf.getDefNodes (svf.node use))
  else some s

def castUses (s : State) (cast call : Value) :
    List TraceEntity → Option (List TraceEntity × State)
  | [] => some ([], s)
  | te :: tes =>
    match te with
    | .input i =>
      if i.call = call then
        (svf.storeUses s (fun _ => cast) (svf.storesFrom cast)).bind fun uses =>
          (castUses uses.2 cast call tes).map fun rest =>
            (.input { i with subObjects := i.subObjects ++ uses.1.map .use } :: rest.1, rest.2)
      else (castUses s cast call tes).map fun rest => (.input i :: rest.1, rest.2)
    | te => (castUses s cast call tes).map fun rest => (te :: rest.1, rest.2)

def inttoptr (s : State) (cast call : Value) : Option State :=
  (svf.castUses s cast call s.trace).map fun got => { got.2 with trace := got.1 }

end Graphs

inductive Round
  | input (f : InputFunction) (c : CallSite)
  | lib (f : LibFunction) (c : CallSite)
  | param (p : Param)
  | inttoptr (cast call : Value)

def Graphs.round (svf : Graphs) (s : State) : Round → Option State
  | .input f c => svf.input s f c
  | .lib f c => svf.lib s f c
  | .param p => svf.param s p
  | .inttoptr cast call => svf.inttoptr s cast call

structure Module where
  callSites : List ((InputFunction × CallSite) ⊕ (LibFunction × CallSite))
  params : List Param
  casts : List (Value × Value)

def Module.rounds (m : Module) : List Round :=
  m.callSites.map (Sum.elim (fun c => .input c.1 c.2) fun c => .lib c.1 c.2) ++
    m.params.map .param ++ m.casts.map fun c => .inttoptr c.1 c.2

end Embedwatch.Svf
