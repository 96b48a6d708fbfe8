import Embedwatch.Instrumentor.Ir
import Embedwatch.Library.Runs
import Embedwatch.Pass.Phases
import Embedwatch.Svf.TraceDefs

/-! The analysis of indirect uses, which attaches `ziuse` metadata: it goes from the target of a use to
its first dominator, and from the stores into this object to an argument of the storing function. A
step that dereferences a null pointer or runs into an assertion gives `none`. -/

namespace Embedwatch.Svf

open Library.PlainText Library.Runs
open Ir (instrumentedSuffix endsWith)

inductive EdgeKind
  | addr
  | store
  | other
  deriving DecidableEq

structure PAGEdge where
  kind : EdgeKind
  src : PAGNode
  dst : PAGNode
  value : Option Value

structure Fun where
  name : Text
  args : List (Text × Value)

/-- The program assignment graph, what the analysis asks about values, and the rounds that a visit of
the graph may take. `useTarget` is the pointer operand of a store, or the parameter that a call of a
library function writes to; `functionOf` is the function of an instruction. -/
structure PAG where
  edges : List PAGEdge
  isDummy : PAGNode → Bool
  useTarget : Value → Value
  functionOf : Value → Option Fun
  noAlias : Value → Value → Bool
  isAggregateType : TypeRef → Bool
  rounds : ℕ

abbrev Ziuse := Value → Option Text

def Def.type : Def → TypeRef
  | .adef _ _ _ type _ | .gdef _ _ _ type _ | .sdef _ _ type _ _ _ => type
  | .ddef _ _ _ target => target.type

namespace PAG

variable (pag : PAG)

def inEdges (n : PAGNode) : List PAGEdge := pag.edges.filter fun e => e.dst = n

/-- `getOutgoingEdges(PAGEdge::Addr)`. -/
def addrEdges (n : PAGNode) : List PAGEdge :=
  pag.edges.filter fun e => e.kind = .addr && e.src = n

/-- `getIncomingEdges(PAGEdge::Store)`. -/
def storeEdges (n : PAGNode) : List PAGEdge :=
  pag.edges.filter fun e => e.kind = .store && e.dst = n

def selectFirstDominator : List PAGEdge → List PAGNode → PAGNode ⊕ List PAGNode
  | [], worklist => .inr worklist
  | e :: es, worklist =>
    if pag.isDummy e.src then selectFirstDominator es worklist
    else if e.kind = .addr then .inl e.src
    else selectFirstDominator es (e.src :: worklist)

/-- `visitAndSelectPagNodes` with `selectFirstDominator`. -/
def visitFirstDominator : ℕ → List PAGNode → Option (Option PAGNode)
  | _, [] => some none
  | 0, _ :: _ => none
  | rounds + 1, current :: worklist =>
    match pag.selectFirstDominator (pag.inEdges current) worklist with
    | .inl dominator => some (some dominator)
    | .inr worklist => visitFirstDominator rounds worklist

def findFirstDominator (top : PAGNode) : Option (Option PAGNode) :=
  pag.visitFirstDominator pag.rounds [top]

def useStart (svf : Graphs) (target : Value) : PAGNode :=
  match (pag.inEdges (svf.node target)).find? fun e => e.value = some target with
  | some e => e.src
  | none => svf.node target

def checkParameterAliasing (param : Value) (func : Fun) : Option (Text × Value) :=
  func.args.find? fun a => !pag.noAlias param a.2

def storeArgument (e : PAGEdge) : Option (Text × Value) := do
  let func ← pag.functionOf (← e.value)
  if endsWith func.name instrumentedSuffix then pag.checkParameterAliasing e.src.value func else none

def indirectDef (pn : PAGNode) (instr : Value) (ziuse : Ziuse) (d : Def) : Option Ziuse :=
  if pag.isAggregateType d.type then some ziuse
  else match pag.addrEdges pn with
    | [e] =>
      match (pag.storeEdges e.dst).findSome? pag.storeArgument with
      | some arg => some (Function.update ziuse instr (some (argumentId arg.1)))
      | none => some ziuse
    | _ => none

variable (svf : Graphs)

def dominatorIds (s : State) (pn : PAGNode) (instr : Value) : Option (List (Option ℕ) × State) :=
  if svf.isStruct pn then
    (svf.analyzeGep s pn instr).map fun got => (got.1.map fun d => some d.id, got.2)
  else some ([getDefId s.deflist pn], s)

def indirectId (deflist : List Def) (pn : PAGNode) (instr : Value) (ziuse : Ziuse)
    (id : Option ℕ) : Option Ziuse :=
  (id.bind (getDefWithID deflist)).bind (pag.indirectDef pn instr ziuse)

def indirectUse (sz : State × Ziuse) (u : ZUse) : Option (State × Ziuse) :=
  (pag.findFirstDominator (pag.useStart svf (pag.useTarget u.instr))).bind fun found =>
    match found with
    | none => some sz
    | some pn =>
      (dominatorIds svf sz.1 pn u.instr).bind fun got =>
        (got.1.foldlM (pag.indirectId got.2.deflist pn u.instr) sz.2).map fun ziuse => (got.2, ziuse)

def indirectUses (s : State) : Option (State × Ziuse) :=
  (s.trace.flatMap TraceEntity.uses).foldlM (pag.indirectUse svf) (s, fun _ => none)

def Attached (instr : Value) (value : Text) : Prop :=
  ∃ pn e arg, pag.findFirstDominator (pag.useStart svf (pag.useTarget instr)) = some (some pn) ∧
    pag.addrEdges pn = [e] ∧ (pag.storeEdges e.dst).findSome? pag.storeArgument = some arg ∧
    value = argumentId arg.1

variable {pag svf}

lemma indirectDef_attached {pn : PAGNode} {instr : Value} {ziuse ziuse' : Ziuse} {d : Def}
    (hpn : pag.findFirstDominator (pag.useStart svf (pag.useTarget instr)) = some (some pn))
    (h : pag.indirectDef pn instr ziuse d = some ziuse')
    (hold : ∀ i value, ziuse i = some value → pag.Attached svf i value) :
    ∀ i value, ziuse' i = some value → pag.Attached svf i value := by
  rw [indirectDef] at h
  split at h
  · cases h
    exact hold
  · split at h
    · next e he =>
      split at h
      · next arg harg =>
        cases h
        intro i value hvalue
        by_cases hi : i = instr
        · rw [hi, Function.update_self] at hvalue
          rw [hi]
          exact ⟨pn, e, arg, hpn, he, harg, (Option.some.inj hvalue).symm⟩
        · rw [Function.update_of_ne hi] at hvalue
          exact hold i value hvalue
      · cases h
        exact hold
    · cases h

lemma indirectUse_attached {sz sz' : State × Ziuse} {u : ZUse}
    (hold : ∀ i value, sz.2 i = some value → pag.Attached svf i value)
    (h : pag.indirectUse svf sz u = some sz') :
    ∀ i value, sz'.2 i = some value → pag.Attached svf i value := by
  obtain ⟨found, hfound, h⟩ := Option.bind_eq_some_iff.mp h
  cases found with
  | none =>
    cases h
    exact hold
  | some pn =>
    obtain ⟨⟨ids, s⟩, -, h⟩ := Option.bind_eq_some_iff.mp h
    obtain ⟨ziuse, hids, rfl⟩ := Option.map_eq_some_iff.mp h
    apply foldlM_invariant _ ?_ hold hids
    intro id _ z z' hz hid
    obtain ⟨d, -, hd⟩ := Option.bind_eq_some_iff.mp hid
    exact indirectDef_attached hfound hd hz

theorem indirectUses_attached {s s' : State} {ziuse : Ziuse}
    (h : pag.indirectUses svf s = some (s', ziuse)) {instr : Value} {value : Text}
    (hvalue : ziuse instr = some value) : pag.Attached svf instr value := by
  have hstart : ∀ i value, (fun _ => none : Ziuse) i = some value → pag.Attached svf i value :=
    fun i value hnone => by cases hnone
  have hall := foldlM_invariant
    (fun sz : State × Ziuse => ∀ i value, sz.2 i = some value → pag.Attached svf i value)
    (fun u _ sz sz' hold hu => indirectUse_attached hold hu) hstart h
  exact hall instr value hvalue

/-! A global variable 0, into which the store 1 of a function puts its argument 2; the store 4 of
`useFun` goes through the value 3 that it has loaded from the variable. -/

def variable₀ : Value := ⟨0, .globalVariable⟩

def nodeOf (v : Value) : PAGNode := ⟨v.ref + 10, [], v, false⟩

def objectNode : PAGNode := ⟨20, [], variable₀, true⟩

def loadingGraphs : Graphs where
  valueType _ := 0
  allocatedType _ := 0
  globalType _ := 0
  structElements _ := none
  pointee _ := none
  allocSize _ := 4
  node := nodeOf
  getDefNodes _ := []
  outEdges _ := 0
  findTargetOfCall _ := none
  findFirstStore _ := none
  findDefNodesFromStore _ := []
  defOfParam _ := none
  storesFrom _ := []
  pathsToUse _ _ := none
  stack := 0

def storing : Fun :=
  ⟨['g'] ++ instrumentedSuffix, [(['q'], ⟨2, .other⟩), (['q', '_', 'i', 'd'], ⟨5, .other⟩)]⟩

def loading (useFun : Fun) : PAG where
  edges := [⟨.addr, objectNode, nodeOf variable₀, none⟩,
    ⟨.store, nodeOf ⟨2, .other⟩, nodeOf variable₀, some ⟨1, .instruction⟩⟩,
    ⟨.other, nodeOf variable₀, nodeOf ⟨3, .instruction⟩, some ⟨3, .instruction⟩⟩]
  isDummy _ := false
  useTarget _ := ⟨3, .instruction⟩
  functionOf v := if v.ref = 1 then some storing else if v.ref = 4 then some useFun else none
  noAlias v w := v ≠ w
  isAggregateType _ := false
  rounds := 1

def variableDef : Def := .gdef 2 objectNode variable₀ 0 4

def useState (f : Text) : State :=
  ⟨3, [.input ⟨0, [], ⟨6, .call []⟩, [.use ⟨.suse, 1, [], f, ⟨4, .instruction⟩, [variableDef]⟩]⟩],
    [variableDef], fun _ _ => none⟩

def mainFun : Fun := ⟨['m', 'a', 'i', 'n'], []⟩

theorem ziuse_of_other_function : ∃ s' ziuse,
    (loading mainFun).indirectUses loadingGraphs (useState mainFun.name) = some (s', ziuse) ∧
    (loading mainFun).functionOf ⟨4, .instruction⟩ = some mainFun ∧
    ∃ value, ziuse ⟨4, .instruction⟩ = some value ∧
      (¬ ∃ a ∈ mainFun.args, value = argumentId a.1) ∧
      Pass.Inst.defRef ⟨mainFun.args, [], [], List.nodup_nil⟩ value = none := by
  refine ⟨_, _, rfl, rfl, argumentId ['q'], rfl, ?_, rfl⟩
  rintro ⟨a, ha, -⟩
  cases ha

end PAG

end Embedwatch.Svf
