import Embedwatch.Svf.FieldOffsets
import Embedwatch.Svf.ParameterIds
import Embedwatch.Svf.RepeatedFields
import Embedwatch.Svf.RequestedDefs
import Embedwatch.Svf.StoreTargets
import Embedwatch.Svf.UseNodes

/-! The analyses on top of the visits of the graphs. The targets of the uses of a trace are the
objects that define the written pointer, and the fields that the paths from a structure to the use
select. -/

namespace Embedwatch.Svf

open Relation Library.PlainText Library.Runs

structure FlowGraph extends UseGraph where
  valueEdges : Value → List PAGEdge
  stmtVFGNode : PAGEdge → Option SVFGNode
  defNode : PAGNode → Option SVFGNode
  gep : Value → Option (List (Option ℤ))
  storeOperand : Value → Option Value

namespace FlowGraph

variable (flow : FlowGraph) (svf : Graphs)

def getSVFGNodesFromValue (value : Value) : List SVFGNode :=
  (flow.valueEdges value).filterMap flow.stmtVFGNode ++ (flow.defNode (svf.node value)).toList

def gepPath (path : List SVFGNode) : GepPath := path.filterMap fun e => e.value.bind flow.gep

def pathsToUse (p : PAGNode) (use : Value) : Option (List GepPath) := do
  let svfgDef ← (flow.getSVFGNodesFromValue svf p.value).head?
  let paths ← flow.svfg.getPathFromTo (flow.svfg.edges.length + 2) svfgDef use
  some (paths.map flow.gepPath)

def Selects (use : Value) (p : PAGNode) (path : GepPath) : Prop :=
  ∃ n l, (flow.getSVFGNodesFromValue svf p.value).head? = some n ∧
    SVFG.Found flow.svfg use ∅ n l ∧ path = flow.gepPath l

end FlowGraph

def Graphs.visiting (svf : Graphs) (pag : PAG) (flow : FlowGraph) : Graphs where
  valueType := svf.valueType
  allocatedType := svf.allocatedType
  globalType := svf.globalType
  structElements := svf.structElements
  pointee := svf.pointee
  allocSize := svf.allocSize
  node := svf.node
  getDefNodes n := (Visits.getDefNodes pag (pag.edges.length + 1) n).getD []
  outEdges n := (Visits.outEdges pag n).length
  findTargetOfCall n := (Visits.findTargetOfCall pag svf flow.storeOperand pag.rounds n).join
  findFirstStore n := (Visits.findFirstStore pag pag.rounds n).join
  findDefNodesFromStore si :=
    (Visits.findDefNodesFromStore pag svf (pag.edges.length + 1) si).getD []
  defOfParam v := (flow.getSVFGNodesFromValue svf v).head?.bind SVFGNode.value
  storesFrom v := (flow.storesFrom (flow.svfg.edges.length + 1) v).getD []
  pathsToUse := flow.pathsToUse svf
  stack := svf.stack

inductive Sought
  | object (p : PAGNode)
  | field (p : PAGNode) (path : GepPath)

def Seeks (svf : Graphs) (Defined : PAGNode → Prop) (Selected : PAGNode → GepPath → Prop) :
    Sought → Prop
  | .object p => Defined p ∧ svf.isStruct p = false
  | .field p path => Defined p ∧ svf.isStruct p = true ∧ Selected p path

def Sought.Is (svf : Graphs) : Sought → Def → Prop
  | .object p, d => d.isField = false ∧ ∃ e ∈ d.parts, e.node.id = p.id
  | .field p path, d => ∃ a a', svf.accessPath ⟨svf.valueType p.value, [], 0⟩ path = some a ∧
      (a' = a ∨ svf.listedAccess p a = some a') ∧ d.isField = true ∧ d.node = p ∧
      d.type = a'.type ∧ d.offset = some a'.size

structure Exactly (svf : Graphs) (sought : Sought → Prop) (ds : List Def) : Prop where
  sound : ∀ d ∈ ds, ∃ x, sought x ∧ x.Is svf d
  complete : ∀ x, sought x → ∃ d ∈ ds, x.Is svf d

variable {svf : Graphs} {sought sought' : Sought → Prop} {ds es : List Def} {s s' : State}

lemma Exactly.congr (h : Exactly svf sought ds) (hiff : ∀ x, sought x ↔ sought' x) :
    Exactly svf sought' ds where
  sound d hd := by
    obtain ⟨x, hx, hd⟩ := h.sound d hd
    exact ⟨x, (hiff x).mp hx, hd⟩
  complete x hx := h.complete x ((hiff x).mpr hx)

lemma Exactly.nil : Exactly svf (fun _ => False) [] where
  sound _ hd := nomatch hd
  complete _ hx := hx.elim

lemma Exactly.append (h : Exactly svf sought ds) (h' : Exactly svf sought' es) :
    Exactly svf (fun x => sought x ∨ sought' x) (ds ++ es) where
  sound d hd := by
    rcases List.mem_append.mp hd with hd | hd
    · obtain ⟨x, hx, hd⟩ := h.sound d hd
      exact ⟨x, Or.inl hx, hd⟩
    · obtain ⟨x, hx, hd⟩ := h'.sound d hd
      exact ⟨x, Or.inr hx, hd⟩
  complete x hx := by
    rcases hx with hx | hx
    · obtain ⟨d, hd, hx⟩ := h.complete x hx
      exact ⟨d, List.mem_append_left _ hd, hx⟩
    · obtain ⟨d, hd, hx⟩ := h'.complete x hx
      exact ⟨d, List.mem_append_right _ hd, hx⟩

lemma exists_part_of_compare {d : Def} {p : PAGNode} (h : defNodeCompare d p = true) :
    ∃ e ∈ d.parts, e.node.id = p.id := by
  induction d with
  | ddef id node call target ih =>
    rw [defNodeCompare, Bool.or_eq_true, decide_eq_true_eq] at h
    rcases h with hid | h
    · exact ⟨_, List.mem_cons_self, hid.symm⟩
    · obtain ⟨e, he, hid⟩ := ih h
      exact ⟨e, List.mem_cons_of_mem _ he, hid⟩
  | sdef => cases h
  | _ => exact ⟨_, List.mem_singleton_self _, (of_decide_eq_true h).symm⟩

lemma getOrBuildDef_is (hl : Listed s.deflist s.nextId) {p : PAGNode} {d : Def} {s₁ : State}
    (h : svf.getOrBuildDef s p = some (some d, s₁)) : (Sought.object p).Is svf d := by
  refine ⟨(getOrBuildDef_grows hl h).2, ?_⟩
  rw [Graphs.getOrBuildDef] at h
  cases hid : getDefId s.deflist p with
  | none =>
    rw [hid] at h
    obtain ⟨⟨o, k⟩, hbuild, h⟩ := Option.map_eq_some_iff.mp h
    cases h
    exact ⟨d, d.mem_parts_self, congrArg PAGNode.id (buildDef_follows hbuild).2.1⟩
  | some id =>
    rw [hid] at h
    have hfind := resolve_eq hl p
    rw [State.resolve, hid, Option.bind_some, (Prod.mk.inj (Option.some.inj h)).1] at hfind
    have hcompare : defNodeCompare d p = true := by simpa using List.find?_some hfind.symm
    exact exists_part_of_compare hcompare

lemma fieldDefs_is {p : PAGNode} {path : GepPath} {a : Graphs.Access} {d : Def} {l : List Def}
    (ha : svf.accessPath ⟨svf.valueType p.value, [], 0⟩ path = some a)
    (h : d ∈ Graphs.fieldDefs l p a) : (Sought.field p path).Is svf d := by
  obtain ⟨-, hd⟩ := List.mem_filter.mp h
  cases d with
  | sdef id node type bytes fields offset =>
    obtain ⟨hnode, htype, hoffset⟩ := of_decide_eq_true hd
    exact ⟨a, a, ha, Or.inl rfl, rfl, hnode, htype, congrArg some hoffset⟩
  | _ => cases hd

lemma analyzePath_exactly {p : PAGNode} {path : GepPath}
    (h : svf.analyzePath s p path = some (ds, s')) :
    Exactly svf (fun x => x = .field p path) ds := by
  have hall : ds ≠ [] ∧ ∀ d ∈ ds, (Sought.field p path).Is svf d := by
    obtain ⟨a, ha, -⟩ := Option.bind_eq_some_iff.mp h
    rcases (Graphs.analyzePath_iff ha).mp h with ⟨hsome, rfl, -⟩ | ⟨-, a', ha', rfl, -⟩
    · exact ⟨hsome, fun d hd => fieldDefs_is ha hd⟩
    · refine ⟨List.cons_ne_nil _ _, fun d hd => ?_⟩
      rw [List.mem_singleton.mp hd]
      exact ⟨a, a', ha, Or.inr ha', rfl, rfl, rfl, rfl⟩
  constructor
  · exact fun d hd => ⟨_, rfl, hall.2 d hd⟩
  · rintro x rfl
    obtain ⟨d, hd⟩ := List.exists_mem_of_ne_nil ds hall.1
    exact ⟨d, hd, hall.2 d hd⟩

lemma analyzePaths_exactly {p : PAGNode} {paths : List GepPath}
    (h : svf.analyzePaths s p paths = some (ds, s')) :
    Exactly svf (fun x => ∃ path ∈ paths, x = .field p path) ds := by
  induction paths generalizing s ds with
  | nil =>
    cases h
    exact Exactly.nil.congr fun x => by simp
  | cons path paths ih =>
    obtain ⟨⟨one, s₁⟩, hone, h⟩ := Option.bind_eq_some_iff.mp h
    obtain ⟨⟨rest, s₂⟩, hrest, h⟩ := Option.map_eq_some_iff.mp h
    cases h
    exact ((analyzePath_exactly hone).append (ih hrest)).congr fun x => by simp

def Graphs.Answers (svf : Graphs) (ps : List PAGNode) (use : Value) : Sought → Prop :=
  Seeks svf (· ∈ ps) fun p path => ∃ paths, svf.pathsToUse p use = some paths ∧ path ∈ paths

lemma answers_nil (use : Value) (x : Sought) : svf.Answers [] use x ↔ False := by
  cases x <;> simp [Graphs.Answers, Seeks]

lemma answers_cons (p : PAGNode) (ps : List PAGNode) (use : Value) (x : Sought) :
    svf.Answers (p :: ps) use x ↔ svf.Answers [p] use x ∨ svf.Answers ps use x := by
  cases x <;>
    simp only [Graphs.Answers, Seeks, List.mem_cons, List.not_mem_nil, or_false, or_and_right]

lemma targetsOf_exactly (hl : Listed s.deflist s.nextId) {use : Value} {p : PAGNode}
    (h : svf.targetsOf s use p = some (ds, s')) : Exactly svf (svf.Answers [p] use) ds := by
  rw [Graphs.targetsOf] at h
  split at h
  · next hstruct =>
    obtain ⟨paths, hpaths, h⟩ := Option.bind_eq_some_iff.mp h
    refine (analyzePaths_exactly h).congr fun x => ?_
    cases x with
    | object q =>
      simp only [reduceCtorEq, and_false, exists_false, Graphs.Answers, Seeks, List.mem_singleton,
        false_iff, not_and, Bool.not_eq_false]
      rintro rfl
      exact hstruct
    | field q path =>
      simp only [Graphs.Answers, Seeks, List.mem_singleton, Sought.field.injEq]
      constructor
      · rintro ⟨path', hpath, rfl, rfl⟩
        exact ⟨rfl, hstruct, paths, hpaths, hpath⟩
      · rintro ⟨rfl, -, paths', hpaths', hpath⟩
        obtain rfl := Option.some.inj (hpaths.symm.trans hpaths')
        exact ⟨path, hpath, rfl, rfl⟩
  · next hstruct =>
    obtain ⟨⟨o, s₁⟩, hgot, h⟩ := Option.bind_eq_some_iff.mp h
    obtain ⟨d, hd, h⟩ := Option.map_eq_some_iff.mp h
    obtain rfl : o = some d := hd
    cases h
    have his := getOrBuildDef_is hl hgot
    rw [Bool.not_eq_true] at hstruct
    constructor
    · intro e he
      rw [List.mem_singleton.mp he]
      exact ⟨.object p, ⟨List.mem_singleton_self p, hstruct⟩, his⟩
    · rintro (q | ⟨q, path⟩) ⟨hq, hx⟩
      · obtain rfl := List.mem_singleton.mp hq
        exact ⟨d, List.mem_singleton_self d, his⟩
      · rw [List.mem_singleton.mp hq, hstruct] at hx
        cases hx.1

lemma targets_exactly (hl : Listed s.deflist s.nextId) {use : Value} {ps : List PAGNode}
    (h : svf.targets s use ps = some (ds, s')) : Exactly svf (svf.Answers ps use) ds := by
  induction ps generalizing s ds with
  | nil =>
    cases h
    exact Exactly.nil.congr fun x => (answers_nil use x).symm
  | cons p ps ih =>
    obtain ⟨⟨one, s₁⟩, hone, h⟩ := Option.bind_eq_some_iff.mp h
    obtain ⟨⟨rest, s₂⟩, hrest, h⟩ := Option.map_eq_some_iff.mp h
    cases h
    have hrest := ih ((targetsOf_grows hl hone).listed hl) hrest
    exact ((targetsOf_exactly hl hone).append hrest).congr fun x => (answers_cons p ps use x).symm

lemma castUses_listed (hl : Listed s.deflist s.nextId) {cast call : Value}
    {tes tes' : List TraceEntity} (h : svf.castUses s cast call tes = some (tes', s')) :
    Listed s'.deflist s'.nextId := by
  induction tes generalizing s tes' with
  | nil =>
    cases h
    exact hl
  | cons te tes ih =>
    rcases castUses_cons h with ⟨i, us, s₁, rest, -, -, hus, hrest, -⟩ | ⟨rest, -, hrest, -⟩
    · exact ih ((storeUses_grows hl hus).listed hl) hrest
    · exact ih hl hrest

lemma param_cases (hl : Listed s.deflist s.nextId) {p : Param} (h : svf.param s p = some s') :
    s' = s ∨ (∃ value, s' = s.setZref p.call p.name value) ∨
      ∃ use o, Attached svf s p.call p.name use o s' := by
  rw [Graphs.param] at h
  split at h
  · split at h
    · cases h
      exact Or.inl rfl
    · cases h
      exact Or.inr (Or.inl ⟨_, rfl⟩)
    · obtain ⟨use, -, h⟩ := Option.bind_eq_some_iff.mp h
      exact Or.inr (Or.inr ⟨use, _, attached hl h⟩)
  · cases h
    exact Or.inl rfl

lemma Attached.listed (hl : Listed s.deflist s.nextId) {call : Value} {name : Text} {use : Value}
    {o : Option PAGNode} (h : Attached svf s call name use o s') : Listed s'.deflist s'.nextId := by
  cases h with
  | nothing => exact hl
  | known => exact hl
  | built hgot => exact (getOrBuildDef_grows hl hgot).1.listed hl
  | field hgep => exact (analyzeGep_grows hgep).1.listed hl

lemma round_listed (hl : Listed s.deflist s.nextId) {r : Round} (h : svf.round s r = some s') :
    Listed s'.deflist s'.nextId := by
  cases r with
  | input f c =>
    obtain ⟨param, -, h⟩ := Option.bind_eq_some_iff.mp h
    obtain ⟨⟨subs, s₁⟩, hsubs, h⟩ := Option.map_eq_some_iff.mp h
    cases h
    have hcount := (Grows.count s 1).listed hl
    exact (inputDefs_grows hcount hsubs).1.listed hcount
  | lib f c =>
    obtain ⟨param, -, h⟩ := Option.bind_eq_some_iff.mp h
    obtain ⟨⟨ds, s₁⟩, hds, h⟩ := Option.map_eq_some_iff.mp h
    cases h
    have hcount := (Grows.count s 2).listed hl
    exact (targets_grows hcount hds).listed hcount
  | inttoptr cast call =>
    obtain ⟨⟨trace, s₁⟩, hgot, h⟩ := Option.map_eq_some_iff.mp h
    cases h
    have hgrown := castUses_listed hl hgot
    exact hgrown
  | param p =>
    rcases param_cases hl h with rfl | ⟨value, rfl⟩ | ⟨use, o, hattached⟩
    · exact hl
    · exact hl
    · exact hattached.listed hl

def StoreDefines (pag : PAG) (svf : Graphs) (si : Value) (p : PAGNode) : Prop :=
  Visits.Defines pag p (pag.useStart svf (pag.useTarget si)) ∨
    (p = pag.useStart svf (pag.useTarget si) ∧ pag.addrEdges p ≠ [])

variable {pag : PAG} {flow : FlowGraph} {p : PAGNode}

lemma mem_getDefNodes_iff {n : PAGNode} :
    p ∈ (svf.visiting pag flow).getDefNodes n ↔ Visits.Defines pag p n := by
  obtain ⟨ds, hds⟩ := @Visits.getDefNodes_ends pag n _ (Nat.lt_add_one pag.edges.length)
  change p ∈ (Visits.getDefNodes pag (pag.edges.length + 1) n).getD [] ↔ _
  rw [hds]
  exact (Visits.getDefNodes_spec hds).2 p

lemma mem_findDefNodesFromStore_iff {si : Value} :
    p ∈ (svf.visiting pag flow).findDefNodesFromStore si ↔ StoreDefines pag svf si p := by
  obtain ⟨ds, hds⟩ := @Visits.getDefNodes_ends pag (pag.useStart svf (pag.useTarget si)) _
    (Nat.lt_add_one pag.edges.length)
  have hmem := (Visits.getDefNodes_spec hds).2 p
  change p ∈ (Visits.findDefNodesFromStore pag svf (pag.edges.length + 1) si).getD [] ↔ _
  rw [Visits.findDefNodesFromStore, hds]
  simp only [Option.bind_eq_bind, Option.bind_some, Option.getD_some, StoreDefines, Visits.Defines]
  rw [← hmem]
  split
  · next hnone =>
    refine ⟨Or.inl, fun h => h.resolve_right ?_⟩
    rintro ⟨rfl, haddr⟩
    exact haddr hnone
  · next hsome =>
    rw [List.mem_append, List.mem_singleton]
    refine or_congr Iff.rfl ⟨?_, And.left⟩
    rintro rfl
    exact ⟨rfl, hsome⟩

lemma mem_pathsToUse_iff {use : Value} {path : GepPath} :
    (∃ paths, (svf.visiting pag flow).pathsToUse p use = some paths ∧ path ∈ paths) ↔
      flow.Selects svf use p path := by
  change (∃ paths, flow.pathsToUse svf p use = some paths ∧ path ∈ paths) ↔ _
  simp only [FlowGraph.Selects, FlowGraph.pathsToUse, Option.bind_eq_bind]
  cases (flow.getSVFGNodesFromValue svf p.value).head? with
  | none => simp
  | some n =>
    obtain ⟨ret, hret, hfound⟩ := @SVFG.getPathFromTo_spec flow.svfg use n _
      (Nat.lt_add_one (flow.svfg.edges.length + 1))
    simp [hret, hfound, eq_comm]

end Embedwatch.Svf
