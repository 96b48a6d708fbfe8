import Embedwatch.Library.Stateful
import Embedwatch.Svf.IndirectUses

/-! The pointers to definitions that `main` puts into the list of definitions, the inputs and the uses,
with the null pointer that `buildDef` gives for a call of another function. -/

namespace Embedwatch.Svf.Pointers

open Relation Library.PlainText Library.Stateful

inductive DefPtr
  | null
  | adef (id : ℕ) (node : PAGNode) (alloca : Value) (type : TypeRef) (bytes : ℤ)
  | gdef (id : ℕ) (node : PAGNode) (global : Value) (type : TypeRef) (bytes : ℤ)
  | ddef (id : ℕ) (node : PAGNode) (call : Value) (target : DefPtr)
  | sdef (id : ℕ) (node : PAGNode) (type : TypeRef) (bytes : ℤ) (fields : List ℤ) (offset : ℤ)
  deriving DecidableEq

structure UseObj where
  kind : UseKind
  id : ℕ
  text : Text
  fun_ : Text
  instr : Value
  targets : List DefPtr

inductive SubPtr
  | use (u : UseObj)
  | defn (d : DefPtr)

structure InObj where
  id : ℕ
  text : Text
  call : Value
  subObjects : List SubPtr

inductive EntityPtr
  | input (i : InObj)
  | defn (d : DefPtr)

structure Heap where
  nextId : ℕ
  trace : List EntityPtr
  deflist : List DefPtr
  zref : Value → Text → Option Text

def Heap.init : Heap := ⟨0, [], [], fun _ _ => none⟩

inductive Site
  | input (i : ℕ)
  | store (i j : ℕ)
  | lib (i j : ℕ)
  | zref

abbrev M := Steps Heap (Site × PAGNode)

def DefPtr.id : DefPtr → Option ℕ
  | .null => none
  | .adef id _ _ _ _ | .gdef id _ _ _ _ | .ddef id _ _ _ | .sdef id _ _ _ _ _ => some id

def DefPtr.type : DefPtr → Option TypeRef
  | .null => none
  | .adef _ _ _ type _ | .gdef _ _ _ type _ | .sdef _ _ type _ _ _ => some type
  | .ddef _ _ _ target => target.type

def defNodeCompare : DefPtr → PAGNode → Option Bool
  | .null, _ => none
  | .adef _ node _ _ _, pn => some (pn.id = node.id)
  | .gdef _ node _ _ _, pn => some (pn.id = node.id)
  | .ddef _ node _ target, pn => if pn.id = node.id then some true else defNodeCompare target pn
  | .sdef _ _ _ _ _ _, _ => some false

def getDefId : List DefPtr → PAGNode → Option (Option ℕ)
  | [], _ => some none
  | d :: ds, node =>
    (defNodeCompare d node).bind fun same => if same then d.id.map some else getDefId ds node

def getDefWithID : List DefPtr → ℕ → Option DefPtr
  | [], _ => some .null
  | d :: ds, id => d.id.bind fun i => if i = id then some d else getDefWithID ds id

def fieldDefs : List DefPtr → PAGNode → Graphs.Access → Option (List DefPtr)
  | [], _, _ => some []
  | .null :: _, _, _ => none
  | .sdef id node type bytes fields offset :: ds, p, a =>
    (fieldDefs ds p a).map fun found =>
      if node = p ∧ type = a.type ∧ offset = a.size then
        .sdef id node type bytes fields offset :: found
      else found
  | _ :: ds, p, a => fieldDefs ds p a

def SubPtr.addTargetObject (d : DefPtr) : SubPtr → SubPtr
  | .use u => .use { u with targets := u.targets ++ [d] }
  | .defn d' => .defn d'

def EntityPtr.modify (f : List SubPtr → List SubPtr) : EntityPtr → EntityPtr
  | .input i => .input { i with subObjects := f i.subObjects }
  | .defn d => .defn d

def Heap.entityInsert (i : ℕ) (sub : SubPtr) (h : Heap) : Heap :=
  { h with trace := h.trace.modify i (EntityPtr.modify fun subs => subs ++ [sub]) }

def Heap.addTargetObject (i j : ℕ) (d : DefPtr) (h : Heap) : Heap :=
  { h with trace :=
      h.trace.modify i (EntityPtr.modify fun subs => subs.modify j (SubPtr.addTargetObject d)) }

def Heap.push (d : DefPtr) (h : Heap) : Heap := { h with deflist := h.deflist ++ [d] }

def Heap.append (te : EntityPtr) (h : Heap) : Heap := { h with trace := h.trace ++ [te] }

def Heap.setZref (call : Value) (param value : Text) (h : Heap) : Heap :=
  { h with zref :=
      Function.update h.zref call (Function.update (h.zref call) (zrefName param) (some value)) }

variable (svf : Graphs)

def buildDef : ℕ → PAGNode → ℕ → Option (DefPtr × ℕ)
  | 0, _, _ => none
  | stack + 1, node, nextId =>
    match node.value.kind with
    | .alloca =>
      let type := svf.allocatedType node.value
      some (.adef nextId node node.value type (svf.allocSize type), nextId + 1)
    | .globalVariable | .globalValue =>
      let type := svf.globalType node.value
      some (.gdef nextId node node.value type (svf.allocSize type), nextId + 1)
    | .call function =>
      if isDynamicFunction function then
        (svf.findTargetOfCall node).bind fun targetNode =>
          (buildDef stack targetNode nextId).map fun built =>
            (.ddef built.2 node node.value built.1, built.2 + 1)
      else some (.null, nextId)
    | .instruction | .other => none

def getOrBuildDef (h : Heap) (node : PAGNode) : Option (DefPtr × ℕ) :=
  (getDefId h.deflist node).bind fun found =>
    match found with
    | none => buildDef svf svf.stack node h.nextId
    | some id => (getDefWithID h.deflist id).map fun d => (d, h.nextId)

def insertAt (d : DefPtr) : Site → M Unit
  | .input i => do
    step none (Heap.entityInsert i (.defn d))
    step none (Heap.push d)
  | .store i j => do
    step none (Heap.addTargetObject i j d)
    step none (Heap.push d)
  | .lib i j => do
    step none (Heap.push d)
    step none (Heap.addTargetObject i j d)
  | .zref =>
    if d = .null then pure ()
    else do
      step none (Heap.append (.defn d))
      step none (Heap.push d)

def insertDef (site : Site) (node : PAGNode) : M DefPtr := do
  let h ← current
  let built ← orCrash (getOrBuildDef svf h node)
  step (some (site, node)) fun h => { h with nextId := built.2 }
  insertAt built.1 site
  pure built.1

def analyzePath (p : PAGNode) (traceUse : Option (ℕ × ℕ)) (path : GepPath) : M (List ℕ) := do
  let addTarget (d : DefPtr) : M Unit :=
    match traceUse with
    | some (i, j) => step none (Heap.addTargetObject i j d)
    | none => pure ()
  let a ← orCrash (svf.accessPath ⟨svf.valueType p.value, [], 0⟩ path)
  let h ← current
  let found ← orCrash (fieldDefs h.deflist p a)
  if found ≠ [] then do
    found.forM addTarget
    pure (found.filterMap DefPtr.id)
  else do
    let a ← orCrash (if a.type = svf.valueType p.value then
      ((svf.elements a.type).bind List.head?).map fun t =>
        (⟨t, a.fields ++ [0], a.size⟩ : Graphs.Access)
      else some a)
    let d : DefPtr := .sdef h.nextId p a.type (svf.allocSize a.type) a.fields a.size
    step none fun h => { h with nextId := h.nextId + 1, deflist := h.deflist ++ [d] }
    addTarget d
    pure [h.nextId]

def analyzePaths (p : PAGNode) (traceUse : Option (ℕ × ℕ)) : List GepPath → M (List ℕ)
  | [] => pure []
  | path :: paths => do
    let one ← analyzePath svf p traceUse path
    let rest ← analyzePaths p traceUse paths
    pure (one ++ rest)

def analyzeGep (p : PAGNode) (use : Value) (traceUse : Option (ℕ × ℕ)) : M (List ℕ) := do
  let paths ← orCrash (svf.pathsToUse p use)
  analyzePaths svf p traceUse paths

def newIn (c : CallSite) : M ℕ := do
  let h ← current
  step none fun h =>
    { h with nextId := h.nextId + 1, trace := h.trace ++ [.input ⟨h.nextId, c.text, c.call, []⟩] }
  pure h.trace.length

def subObjectsOf (h : Heap) (i : ℕ) : List SubPtr :=
  match h.trace[i]? with
  | some (.input inp) => inp.subObjects
  | _ => []

def newUse (i : ℕ) (kind : UseKind) (text fun_ : Text) (instr : Value) : M ℕ := do
  let h ← current
  step none fun h =>
    { h.entityInsert i (.use ⟨kind, h.nextId, text, fun_, instr, []⟩) with nextId := h.nextId + 1 }
  pure (subObjectsOf h i).length

def storeUses (i : ℕ) (use : StoreNode → Value) (ns : List StoreNode) : M Unit :=
  ns.forM fun n => do
    let j ← newUse i .suse n.text n.fun_ n.store
    (svf.findDefNodesFromStore n.store).forM fun p =>
      if svf.isStruct p then do
        let _ ← analyzeGep svf p (use n) (some (i, j))
      else do
        let _ ← insertDef svf (.store i j) p

def input (f : InputFunction) (c : CallSite) : M Unit := do
  let param ← orCrash (svf.inputParam f c)
  let i ← newIn c
  (svf.getDefNodes param).forM fun p => do
    let v ← orCrash (match p.value.kind with
      | .call _ => (svf.findTargetOfCall p).map PAGNode.value
      | _ => some p.value)
    let _ ← insertDef svf (.input i) p
    storeUses svf i StoreNode.store (svf.storesFrom v)

def lib (f : LibFunction) (c : CallSite) : M Unit := do
  let param ← orCrash (functionParam f c.params)
  let i ← newIn c
  let j ← newUse i .luse c.text c.fun_ c.call
  (svf.getDefNodes param).forM fun p =>
    if svf.isStruct p then do
      let _ ← analyzeGep svf p c.call (some (i, j))
    else do
      let _ ← insertDef svf (.lib i j) p

def attachId (call : Value) (name : Text) (id : ℕ) : M Unit := do
  let h ← current
  let d ← orCrash (getDefWithID h.deflist id)
  let _ ← orCrash d.id
  step none (Heap.setZref call name (decimal id))

def attachDef (call : Value) (name : Text) (use : Value) : List PAGNode → M Unit
  | [] => pure ()
  | p :: ps =>
    if p.dominator then attachDef call name use ps
    else do
      let h ← current
      let found ← orCrash (getDefId h.deflist p)
      match found with
      | some id => attachId call name id
      | none =>
        if svf.isStruct p then do
          let ids ← analyzeGep svf p use none
          let id ← orCrash ids.head?
          attachId call name id
        else do
          let d ← insertDef svf .zref p
          match d.id with
          | none => attachDef call name use ps
          | some id => attachId call name id

def param (p : Param) : M Unit :=
  if p.pointer then
    match p.value, p.aliased with
    | none, _ => pure ()
    | some _, some arg => step none (Heap.setZref p.call p.name (argumentId arg))
    | some v, none => do
      let use ← orCrash (svf.defOfParam v)
      attachDef svf p.call p.name use (svf.getDefNodes (svf.node use))
  else pure ()

def inttoptr (cast call : Value) : M Unit := do
  let h ← current
  h.trace.zipIdx.forM fun te =>
    match te.1 with
    | .input i =>
      if i.call = call then storeUses svf te.2 (fun _ => cast) (svf.storesFrom cast) else pure ()
    | .defn d => do
      let _ ← orCrash d.id

def printDef (d : DefPtr) : M Unit := do
  let _ ← orCrash d.type

def printEntity : SubPtr → M Unit
  | .use u => u.targets.forM printDef
  | .defn d => printDef d

def dominatorIds (pn : PAGNode) (instr : Value) : M (List (Option ℕ)) :=
  if svf.isStruct pn then do
    let ids ← analyzeGep svf pn instr none
    pure (ids.map some)
  else do
    let h ← current
    let id ← orCrash (getDefId h.deflist pn)
    pure [id]

/-- What the analysis of indirect uses reads and lists; the metadata that it attaches are left out. -/
def indirectUse (pag : PAG) (u : UseObj) : M Unit := do
  let found ← orCrash (pag.findFirstDominator (pag.useStart svf (pag.useTarget u.instr)))
  match found with
  | none => pure ()
  | some pn => do
    let ids ← dominatorIds svf pn u.instr
    ids.forM fun id => do
      let h ← current
      let d ← orCrash (id.bind (getDefWithID h.deflist))
      let type ← orCrash d.type
      orCrash (if pag.isAggregateType type || (pag.addrEdges pn).length = 1 then some () else none)

def indirectUses (pag : PAG) : M Unit := do
  let h ← current
  h.trace.forM fun te =>
    match te with
    | .input i => do
      i.subObjects.forM printEntity
      i.subObjects.forM fun sub =>
        match sub with
        | .use u => indirectUse svf pag u
        | .defn _ => pure ()
    | .defn d => do
      let _ ← orCrash d.id

def round : Round → M Unit
  | .input f c => input svf f c
  | .lib f c => lib svf f c
  | .param p => param svf p
  | .inttoptr cast call => inttoptr svf cast call

/-- The rounds, whatever their order is, then the analysis of indirect uses. -/
def main (pag : PAG) (rounds : List Round) : M Unit := do
  rounds.forM (round svf)
  indirectUses svf pag

def history (pag : PAG) (rounds : List Round) : History Heap (Site × PAGNode) :=
  reached (main svf pag rounds ⟨Heap.init, []⟩)

def DefPtr.Built : DefPtr → Prop
  | .null => False
  | .ddef _ _ _ target => target.Built
  | .adef _ _ _ _ _ | .gdef _ _ _ _ _ | .sdef _ _ _ _ _ _ => True

def SubPtr.ptrs : SubPtr → List DefPtr
  | .use u => u.targets
  | .defn d => [d]

def EntityPtr.ptrs : EntityPtr → List DefPtr
  | .input i => i.subObjects.flatMap SubPtr.ptrs
  | .defn d => [d]

structure NoNull (h : Heap) : Prop where
  deflist : ∀ d ∈ h.deflist, d.Built
  trace : ∀ te ∈ h.trace, ∀ d ∈ te.ptrs, d.Built

def StoredTo (svf : Graphs) (p q : PAGNode) : Prop :=
  ∃ function, p.value.kind = .call function ∧ isDynamicFunction function = true ∧
    svf.findTargetOfCall p = some q

def Definable (svf : Graphs) (p : PAGNode) : Prop :=
  ∀ q, ReflTransGen (StoredTo svf) p q → q.isOtherCall = false

def Fine (svf : Graphs) (h : Heap) (site : Site) (p : PAGNode) : Prop :=
  getDefId h.deflist p = some none →
    Definable svf p ∨ (site = .zref ∧ p.isOtherCall = true)

variable {svf} {h : Heap} {d : DefPtr} {p q : PAGNode} {site : Site} {i j : ℕ}

lemma definable_of_not_call (hcall : ∀ function, p.value.kind ≠ .call function) :
    Definable svf p := by
  intro q hq
  rcases ReflTransGen.cases_head hq with rfl | ⟨r, ⟨function, hkind, -⟩, -⟩
  · rw [PAGNode.isOtherCall]
    split
    · next function hkind => exact absurd hkind (hcall function)
    · rfl
  · exact absurd hkind (hcall function)

lemma definable_iff {function : Text} (hkind : p.value.kind = .call function)
    (hdyn : isDynamicFunction function = true) (htarget : svf.findTargetOfCall p = some q) :
    Definable svf p ↔ Definable svf q := by
  constructor
  · intro hp r hr
    exact hp r (ReflTransGen.head ⟨function, hkind, hdyn, htarget⟩ hr)
  · intro hq r hr
    rcases ReflTransGen.cases_head hr with rfl | ⟨t, ⟨_, -, -, ht⟩, htr⟩
    · simp [PAGNode.isOtherCall, hkind, hdyn]
    · obtain rfl := Option.some.inj (htarget.symm.trans ht)
      exact hq r htr

lemma buildDef_built_iff {stack n n' : ℕ} (hd : buildDef svf stack p n = some (d, n')) :
    (d.Built ↔ Definable svf p) ∧ (d = .null ↔ p.isOtherCall = true) := by
  induction stack generalizing p n d n' with
  | zero => cases hd
  | succ stack ih =>
    rw [buildDef] at hd
    cases hkind : p.value.kind with
    | alloca =>
      rw [hkind] at hd
      cases hd
      refine ⟨iff_of_true trivial (definable_of_not_call (by simp [hkind])), ?_⟩
      simp [PAGNode.isOtherCall, hkind]
    | globalVariable =>
      rw [hkind] at hd
      cases hd
      refine ⟨iff_of_true trivial (definable_of_not_call (by simp [hkind])), ?_⟩
      simp [PAGNode.isOtherCall, hkind]
    | globalValue =>
      rw [hkind] at hd
      cases hd
      refine ⟨iff_of_true trivial (definable_of_not_call (by simp [hkind])), ?_⟩
      simp [PAGNode.isOtherCall, hkind]
    | call function =>
      simp only [hkind] at hd
      split at hd
      · next hdyn =>
        obtain ⟨q, hq, hd⟩ := Option.bind_eq_some_iff.mp hd
        obtain ⟨⟨target, n''⟩, htarget, hd⟩ := Option.map_eq_some_iff.mp hd
        cases hd
        rw [definable_iff hkind hdyn hq]
        refine ⟨(ih htarget).1, ?_⟩
        simp [PAGNode.isOtherCall, hkind, hdyn]
      · next hdyn =>
        cases hd
        have hother : p.isOtherCall = true := by simpa [PAGNode.isOtherCall, hkind] using hdyn
        refine ⟨iff_of_false id fun hdef => ?_, iff_of_true rfl hother⟩
        rw [hdef p ReflTransGen.refl] at hother
        cases hother
    | instruction =>
      rw [hkind] at hd
      cases hd
    | other =>
      rw [hkind] at hd
      cases hd

lemma DefPtr.Built.id_isSome (hd : d.Built) : ∃ id, d.id = some id := by
  cases d with
  | null => exact hd.elim
  | _ => exact ⟨_, rfl⟩

lemma defNodeCompare_isSome (hd : d.Built) (p : PAGNode) : ∃ same, defNodeCompare d p = some same := by
  induction d with
  | null => exact hd.elim
  | ddef id node call target ih =>
    rw [defNodeCompare]
    split
    · exact ⟨true, rfl⟩
    · exact ih hd
  | _ => exact ⟨_, rfl⟩

lemma getDefId_isSome {l : List DefPtr} (hl : ∀ d ∈ l, d.Built) (p : PAGNode) :
    ∃ found, getDefId l p = some found := by
  induction l with
  | nil => exact ⟨none, rfl⟩
  | cons d l ih =>
    obtain ⟨hd, hl⟩ := List.forall_mem_cons.mp hl
    obtain ⟨same, hsame⟩ := defNodeCompare_isSome hd p
    obtain ⟨id, hid⟩ := hd.id_isSome
    rw [getDefId, hsame, Option.bind_some]
    cases same with
    | true => exact ⟨some id, by rw [if_pos rfl, hid]; rfl⟩
    | false => exact ih hl

lemma getDefWithID_isSome {l : List DefPtr} (hl : ∀ d ∈ l, d.Built) (id : ℕ) :
    ∃ d, getDefWithID l id = some d ∧ (d.Built ∨ ∀ d' ∈ l, d'.id ≠ some id) := by
  induction l with
  | nil => exact ⟨.null, rfl, Or.inr fun d' hd' => absurd hd' List.not_mem_nil⟩
  | cons d l ih =>
    obtain ⟨hd, hl⟩ := List.forall_mem_cons.mp hl
    obtain ⟨i, hi⟩ := hd.id_isSome
    rw [getDefWithID, hi, Option.bind_some]
    by_cases hid : i = id
    · rw [if_pos hid]
      exact ⟨d, rfl, Or.inl hd⟩
    · rw [if_neg hid]
      obtain ⟨d', hd', hfound⟩ := ih hl
      refine ⟨d', hd', hfound.imp_right fun hnone => List.forall_mem_cons.mpr ⟨?_, hnone⟩⟩
      rw [hi]
      exact fun h => hid (Option.some.inj h)

lemma id_mem_of_getDefId {l : List DefPtr} {id : ℕ} (h : getDefId l p = some (some id)) :
    ∃ d ∈ l, d.id = some id := by
  induction l with
  | nil => cases h
  | cons d l ih =>
    obtain ⟨same, -, h⟩ := Option.bind_eq_some_iff.mp h
    cases same with
    | true =>
      obtain ⟨i, hi, heq⟩ := Option.map_eq_some_iff.mp h
      cases heq
      exact ⟨d, List.mem_cons_self, hi⟩
    | false =>
      obtain ⟨d', hd', hid⟩ := ih h
      exact ⟨d', List.mem_cons_of_mem d hd', hid⟩

lemma getOrBuildDef_fine_iff {n : ℕ} (hh : NoNull h) (hd : getOrBuildDef svf h p = some (d, n)) :
    Fine svf h site p ↔ d.Built ∨ (site = .zref ∧ d = .null) := by
  obtain ⟨found, hfound, hd⟩ := Option.bind_eq_some_iff.mp hd
  rw [Fine, hfound]
  cases found with
  | none =>
    obtain ⟨hbuilt, hnull⟩ := buildDef_built_iff hd
    rw [hbuilt, hnull]
    exact ⟨fun hfine => hfine rfl, fun h _ => h⟩
  | some id =>
    obtain ⟨d', hd', heq⟩ := Option.map_eq_some_iff.mp hd
    cases heq
    obtain ⟨e, he, hfine⟩ := getDefWithID_isSome hh.deflist id
    obtain rfl := Option.some.inj (hd'.symm.trans he)
    obtain ⟨e, he, hid⟩ := id_mem_of_getDefId hfound
    refine iff_of_true (fun hnone => by cases hnone) (Or.inl ?_)
    exact hfine.resolve_right fun hnone => hnone e he hid

lemma mem_modify {α : Type} {f : α → α} {l : List α} {i : ℕ} {x : α} (hx : x ∈ l.modify i f) :
    x ∈ l ∨ ∃ y ∈ l, x = f y := by
  obtain ⟨k, hk⟩ := List.mem_iff_getElem?.mp hx
  rw [List.getElem?_modify] at hk
  obtain ⟨y, hy, heq⟩ := Option.map_eq_some_iff.mp hk
  have hmem : y ∈ l := List.mem_of_getElem? hy
  split at heq
  · exact Or.inr ⟨y, hmem, heq.symm⟩
  · exact Or.inl (heq ▸ hmem)

lemma NoNull.modify (hh : NoNull h) {f : List SubPtr → List SubPtr}
    (hf : ∀ subs : List SubPtr, ∀ d ∈ (f subs).flatMap SubPtr.ptrs,
      d ∈ subs.flatMap SubPtr.ptrs ∨ d.Built) :
    NoNull { h with trace := h.trace.modify i (EntityPtr.modify f) } where
  deflist := hh.deflist
  trace te hte d hd := by
    rcases mem_modify hte with hte | ⟨te', hte', rfl⟩
    · exact hh.trace te hte d hd
    · cases te' with
      | input inp =>
        rcases hf inp.subObjects d hd with hd | hd
        · exact hh.trace _ hte' d hd
        · exact hd
      | defn d' => exact hh.trace _ hte' d hd

lemma NoNull.entityInsert (hh : NoNull h) {sub : SubPtr} (hsub : ∀ d ∈ sub.ptrs, d.Built) :
    NoNull (h.entityInsert i sub) := by
  apply hh.modify
  intro subs d hd
  rw [List.flatMap_append, List.mem_append] at hd
  refine hd.imp_right fun hd => hsub d ?_
  rw [List.flatMap_singleton] at hd
  exact hd

lemma NoNull.addTargetObject (hh : NoNull h) (hd : d.Built) : NoNull (h.addTargetObject i j d) := by
  apply hh.modify
  intro subs d' hd'
  obtain ⟨sub, hsub, hd'⟩ := List.mem_flatMap.mp hd'
  rcases mem_modify hsub with hsub | ⟨sub', hsub', rfl⟩
  · exact Or.inl (List.mem_flatMap.mpr ⟨sub, hsub, hd'⟩)
  · cases sub' with
    | use u =>
      rcases List.mem_append.mp hd' with hd' | hd'
      · exact Or.inl (List.mem_flatMap.mpr ⟨_, hsub', hd'⟩)
      · rw [List.mem_singleton.mp hd']
        exact Or.inr hd
    | defn e => exact Or.inl (List.mem_flatMap.mpr ⟨_, hsub', hd'⟩)

lemma NoNull.push_iff (hh : NoNull h) : NoNull (h.push d) ↔ d.Built := by
  constructor
  · intro hpush
    exact hpush.deflist d (List.mem_append_right _ (List.mem_singleton_self d))
  · intro hd
    refine ⟨fun d' hd' => ?_, hh.trace⟩
    rcases List.mem_append.mp hd' with hd' | hd'
    · exact hh.deflist d' hd'
    · rw [List.mem_singleton.mp hd']
      exact hd

lemma NoNull.append (hh : NoNull h) {te : EntityPtr} (hte : ∀ d ∈ te.ptrs, d.Built) :
    NoNull (h.append te) := by
  refine ⟨hh.deflist, fun te' hte' => ?_⟩
  rcases List.mem_append.mp hte' with hte' | hte'
  · exact hh.trace te' hte'
  · rw [List.mem_singleton.mp hte']
    exact hte

lemma NoNull.count (hh : NoNull h) (n : ℕ) : NoNull { h with nextId := n } :=
  ⟨hh.deflist, hh.trace⟩

def Consistent (svf : Graphs) (r : History Heap (Site × PAGNode)) : Prop :=
  (∀ h ∈ r.states, NoNull h) ↔ ∀ h site p, (h, some (site, p)) ∈ r.past → Fine svf h site p

lemma keeps_step {f : Heap → Heap} (hf : ∀ h, NoNull h → NoNull (f h)) :
    Keeps (Consistent svf) (step none f) := by
  intro r hr
  have hpast : ∀ h site p, (h, some (site, p)) ∈ (r.now, none) :: r.past ↔
      (h, some (site, p)) ∈ r.past := by
    intro h site p
    simp
  have hstates : (∀ h ∈ (⟨f r.now, (r.now, none) :: r.past⟩ : History Heap (Site × PAGNode)).states,
      NoNull h) ↔ ∀ h ∈ r.states, NoNull h := by
    simp only [History.states, List.map_cons, List.forall_mem_cons]
    exact ⟨fun h => h.2, fun h => ⟨hf r.now h.1, h⟩⟩
  rw [Consistent] at hr
  simp only [reached, step, Consistent, hpast, hstates]
  exact hr

lemma Consistent.extend {r : History Heap (Site × PAGNode)} (hr : Consistent svf r)
    {extra : List (Heap × Option (Site × PAGNode))} {now : Heap}
    (hlabels : ∀ x ∈ extra, x.2 = none)
    (hiff : NoNull r.now → ((NoNull now ∧ ∀ x ∈ extra, NoNull x.1) ↔ Fine svf r.now site p)) :
    Consistent svf ⟨now, extra ++ (r.now, some (site, p)) :: r.past⟩ := by
  have hpast : (∀ h site' p', (h, some (site', p')) ∈ extra ++ (r.now, some (site, p)) :: r.past →
      Fine svf h site' p') ↔ Fine svf r.now site p ∧
        ∀ h site p, (h, some (site, p)) ∈ r.past → Fine svf h site p := by
    constructor
    · intro hall
      refine ⟨hall _ _ _ (by simp), fun h site p hp => hall h site p ?_⟩
      exact List.mem_append_right _ (List.mem_cons_of_mem _ hp)
    · rintro ⟨hfine, hall⟩ h site' p' hmem
      rcases List.mem_append.mp hmem with hmem | hmem
      · cases hlabels _ hmem
      · rcases List.mem_cons.mp hmem with heq | hmem
        · cases heq
          exact hfine
        · exact hall h site' p' hmem
  have hstates : (∀ h ∈ (⟨now, extra ++ (r.now, some (site, p)) :: r.past⟩ :
      History Heap (Site × PAGNode)).states, NoNull h) ↔
        (NoNull now ∧ ∀ x ∈ extra, NoNull x.1) ∧ ∀ h ∈ r.states, NoNull h := by
    simp only [History.states, List.map_append, List.map_cons, List.forall_mem_cons,
      List.forall_mem_append, List.forall_mem_map, and_assoc]
  rw [Consistent] at hr
  rw [Consistent, hpast, hstates, ← hr]
  constructor
  · rintro ⟨hnew, hold⟩
    exact ⟨(hiff (hold r.now List.mem_cons_self)).mp hnew, hold⟩
  · rintro ⟨hfine, hold⟩
    exact ⟨(hiff (hold r.now List.mem_cons_self)).mpr hfine, hold⟩

lemma Consistent.insert {r : History Heap (Site × PAGNode)} (hr : Consistent svf r)
    {h₁ h₂ now : Heap} (hfine : NoNull r.now → (Fine svf r.now site p ↔ d.Built))
    (hmem : d ∈ now.deflist)
    (hbuilt : NoNull r.now → d.Built → NoNull h₁ ∧ NoNull h₂ ∧ NoNull now) :
    Consistent svf ⟨now, [(h₂, none), (h₁, none)] ++ (r.now, some (site, p)) :: r.past⟩ := by
  apply hr.extend (by simp)
  intro hh
  rw [hfine hh]
  constructor
  · exact fun hnow => hnow.1.deflist d hmem
  · intro hd
    obtain ⟨h₁_noNull, h₂_noNull, hnow⟩ := hbuilt hh hd
    exact ⟨hnow, by simp [h₁_noNull, h₂_noNull]⟩

lemma keeps_insertDef (site : Site) (p : PAGNode) :
    Keeps (Consistent svf) (insertDef svf site p) := by
  intro r hr
  cases hbuilt : getOrBuildDef svf r.now p with
  | none =>
    have hrun : insertDef svf site p r = .error () r := by
      simp only [insertDef, current, bind, EStateM.bind, hbuilt, orCrash]
      rfl
    rw [hrun]
    exact hr
  | some built =>
    obtain ⟨d, n⟩ := built
    let h₁ : Heap := { r.now with nextId := n }
    have hrun : insertDef svf site p r =
        (insertAt d site >>= fun _ => pure d) ⟨h₁, (r.now, some (site, p)) :: r.past⟩ := by
      simp only [insertDef, current, bind, EStateM.bind, hbuilt, orCrash]
      rfl
    have h₁_noNull : NoNull r.now → NoNull h₁ := fun hh => hh.count n
    have hfine : NoNull r.now → (Fine svf r.now site p ↔ d.Built ∨ (site = .zref ∧ d = .null)) :=
      fun hh => getOrBuildDef_fine_iff hh hbuilt
    have hpushed : ∀ h : Heap, d ∈ (h.push d).deflist :=
      fun h => List.mem_append_right _ (List.mem_singleton_self d)
    rw [hrun]
    cases site with
    | input i =>
      apply hr.insert (fun hh => by simpa using hfine hh) (hpushed (h₁.entityInsert i (.defn d)))
      intro hh hd
      have h₂_noNull : NoNull (h₁.entityInsert i (.defn d)) :=
        (h₁_noNull hh).entityInsert (by simpa [SubPtr.ptrs] using hd)
      exact ⟨h₁_noNull hh, h₂_noNull, h₂_noNull.push_iff.mpr hd⟩
    | store i j =>
      apply hr.insert (fun hh => by simpa using hfine hh) (hpushed (h₁.addTargetObject i j d))
      intro hh hd
      have h₂_noNull := (h₁_noNull hh).addTargetObject (i := i) (j := j) hd
      exact ⟨h₁_noNull hh, h₂_noNull, h₂_noNull.push_iff.mpr hd⟩
    | lib i j =>
      have hmem : d ∈ ((h₁.push d).addTargetObject i j d).deflist := hpushed h₁
      apply hr.insert (fun hh => by simpa using hfine hh) hmem
      intro hh hd
      have h₂_noNull := (h₁_noNull hh).push_iff.mpr hd
      exact ⟨h₁_noNull hh, h₂_noNull, h₂_noNull.addTargetObject hd⟩
    | zref =>
      by_cases hnull : d = .null
      · rw [insertAt, if_pos hnull]
        change Consistent svf ⟨h₁, [] ++ _⟩
        apply hr.extend (by simp)
        intro hh
        rw [hfine hh]
        exact iff_of_true ⟨h₁_noNull hh, by simp⟩ (Or.inr ⟨rfl, hnull⟩)
      · rw [insertAt, if_neg hnull]
        apply hr.insert (fun hh => by simpa [hnull] using hfine hh) (hpushed (h₁.append (.defn d)))
        intro hh hd
        have h₂_noNull : NoNull (h₁.append (.defn d)) :=
          (h₁_noNull hh).append (by simpa [EntityPtr.ptrs] using hd)
        exact ⟨h₁_noNull hh, h₂_noNull, h₂_noNull.push_iff.mpr hd⟩

lemma built_of_mem_fieldDefs {l found : List DefPtr} {a : Graphs.Access}
    (h : fieldDefs l p a = some found) : ∀ d ∈ found, d.Built := by
  induction l generalizing found with
  | nil =>
    cases h
    simp
  | cons d l ih =>
    cases d with
    | null => cases h
    | sdef id node type bytes fields offset =>
      obtain ⟨rest, hrest, rfl⟩ := Option.map_eq_some_iff.mp h
      split
      · exact List.forall_mem_cons.mpr ⟨trivial, ih hrest⟩
      · exact ih hrest
    | _ => exact ih h

lemma keeps_analyzePath (p : PAGNode) (traceUse : Option (ℕ × ℕ)) (path : GepPath) :
    Keeps (Consistent svf) (analyzePath svf p traceUse path) := by
  have hadd : ∀ d : DefPtr, d.Built → Keeps (Consistent svf) (match traceUse with
      | some (i, j) => step none (Heap.addTargetObject i j d)
      | none => pure () : M Unit) := by
    intro d hd
    cases traceUse with
    | none => exact Keeps.pure ()
    | some place => exact keeps_step fun h hh => hh.addTargetObject hd
  refine Keeps.bind (Keeps.orCrash _) fun a => Keeps.bind Keeps.current fun h => ?_
  refine Keeps.orCrash_bind fun found hfound => ?_
  split
  · refine Keeps.bind (Keeps.forM fun d hd => ?_) fun _ => Keeps.pure _
    exact hadd d (built_of_mem_fieldDefs hfound d hd)
  · refine Keeps.bind (Keeps.orCrash _) fun a => Keeps.bind (keeps_step fun h' hh => ?_) fun _ => ?_
    · refine ⟨fun d hd => ?_, hh.trace⟩
      rcases List.mem_append.mp hd with hd | hd
      · exact hh.deflist d hd
      · rw [List.mem_singleton.mp hd]
        trivial
    · exact Keeps.bind (hadd _ trivial) fun _ => Keeps.pure _

lemma keeps_analyzeGep (p : PAGNode) (use : Value) (traceUse : Option (ℕ × ℕ)) :
    Keeps (Consistent svf) (analyzeGep svf p use traceUse) := by
  refine Keeps.bind (Keeps.orCrash _) fun paths => ?_
  induction paths with
  | nil => exact Keeps.pure _
  | cons path paths ih =>
    exact Keeps.bind (keeps_analyzePath p traceUse path) fun _ => Keeps.bind ih fun _ => Keeps.pure _

lemma keeps_newIn (c : CallSite) : Keeps (Consistent svf) (newIn c) := by
  refine Keeps.bind Keeps.current fun h => Keeps.bind (keeps_step fun h' hh => ?_) fun _ => Keeps.pure _
  have hempty : ∀ d ∈ (EntityPtr.input ⟨h'.nextId, c.text, c.call, []⟩).ptrs, d.Built := by
    simp [EntityPtr.ptrs]
  exact (hh.append hempty).count _

lemma keeps_newUse (i : ℕ) (kind : UseKind) (text fun_ : Text) (instr : Value) :
    Keeps (Consistent svf) (newUse i kind text fun_ instr) := by
  refine Keeps.bind Keeps.current fun h => Keeps.bind (keeps_step fun h' hh => ?_) fun _ => Keeps.pure _
  have hempty : ∀ d ∈ (SubPtr.use ⟨kind, h'.nextId, text, fun_, instr, []⟩).ptrs, d.Built := by
    simp [SubPtr.ptrs]
  exact (hh.entityInsert hempty).count _

lemma keeps_targets (p : PAGNode) (use : Value) (i j : ℕ) (site : Site) :
    Keeps (Consistent svf) (if svf.isStruct p then do
      let _ ← analyzeGep svf p use (some (i, j))
      else do
        let _ ← insertDef svf site p : M Unit) := by
  split
  · exact Keeps.bind (keeps_analyzeGep p use _) fun _ => Keeps.pure _
  · exact Keeps.bind (keeps_insertDef site p) fun _ => Keeps.pure _

lemma keeps_storeUses (i : ℕ) (use : StoreNode → Value) (ns : List StoreNode) :
    Keeps (Consistent svf) (storeUses svf i use ns) := by
  refine Keeps.forM fun n _ => Keeps.bind (keeps_newUse _ _ _ _ _) fun j => ?_
  exact Keeps.forM fun p _ => keeps_targets p (use n) i j (.store i j)

lemma keeps_attachId (call : Value) (name : Text) (id : ℕ) :
    Keeps (Consistent svf) (attachId call name id) := by
  refine Keeps.bind Keeps.current fun h => Keeps.bind (Keeps.orCrash _) fun d => ?_
  exact Keeps.bind (Keeps.orCrash _) fun _ => keeps_step fun h' hh => ⟨hh.deflist, hh.trace⟩

lemma keeps_attachDef (call : Value) (name : Text) (use : Value) (ps : List PAGNode) :
    Keeps (Consistent svf) (attachDef svf call name use ps) := by
  induction ps with
  | nil => exact Keeps.pure _
  | cons p ps ih =>
    rw [attachDef]
    split
    · exact ih
    · refine Keeps.bind Keeps.current fun h => Keeps.bind (Keeps.orCrash _) fun found => ?_
      cases found with
      | some id => exact keeps_attachId call name id
      | none =>
        change Keeps _ (ite _ _ _)
        split
        · refine Keeps.bind (keeps_analyzeGep p use none) fun ids => ?_
          exact Keeps.bind (Keeps.orCrash _) fun id => keeps_attachId call name id
        · refine Keeps.bind (keeps_insertDef .zref p) fun d => ?_
          cases d.id with
          | none => exact ih
          | some id => exact keeps_attachId call name id

lemma keeps_round (r : Round) : Keeps (Consistent svf) (round svf r) := by
  cases r with
  | input f c =>
    refine Keeps.bind (Keeps.orCrash _) fun param => Keeps.bind (keeps_newIn c) fun i => ?_
    refine Keeps.forM fun p _ => Keeps.bind (Keeps.orCrash _) fun v => ?_
    exact Keeps.bind (keeps_insertDef (.input i) p) fun _ => keeps_storeUses _ _ _
  | lib f c =>
    refine Keeps.bind (Keeps.orCrash _) fun param => Keeps.bind (keeps_newIn c) fun i => ?_
    refine Keeps.bind (keeps_newUse _ _ _ _ _) fun j => ?_
    exact Keeps.forM fun p _ => keeps_targets p c.call i j (.lib i j)
  | param p =>
    change Keeps _ (Pointers.param svf p)
    rw [Pointers.param]
    split
    · split
      · exact Keeps.pure _
      · exact keeps_step fun h hh => ⟨hh.deflist, hh.trace⟩
      · exact Keeps.bind (Keeps.orCrash _) fun use => keeps_attachDef _ _ _ _
    · exact Keeps.pure _
  | inttoptr cast call =>
    refine Keeps.bind Keeps.current fun h => Keeps.forM fun te _ => ?_
    cases te.1 with
    | input i =>
      change Keeps _ (ite _ _ _)
      split
      · exact keeps_storeUses _ _ _
      · exact Keeps.pure _
    | defn d => exact Keeps.bind (Keeps.orCrash _) fun _ => Keeps.pure _

lemma keeps_indirectUse (pag : PAG) (u : UseObj) :
    Keeps (Consistent svf) (indirectUse svf pag u) := by
  refine Keeps.bind (Keeps.orCrash _) fun found => ?_
  cases found with
  | none => exact Keeps.pure _
  | some pn =>
    refine Keeps.bind ?_ fun ids => Keeps.forM fun id _ => ?_
    · rw [dominatorIds]
      split
      · exact Keeps.bind (keeps_analyzeGep pn u.instr none) fun _ => Keeps.pure _
      · exact Keeps.bind Keeps.current fun h => Keeps.bind (Keeps.orCrash _) fun _ => Keeps.pure _
    · refine Keeps.bind Keeps.current fun h => Keeps.bind (Keeps.orCrash _) fun d => ?_
      exact Keeps.bind (Keeps.orCrash _) fun type => Keeps.orCrash _

lemma keeps_indirectUses (pag : PAG) : Keeps (Consistent svf) (indirectUses svf pag) := by
  have hprint : ∀ d, Keeps (Consistent svf) (printDef d) :=
    fun d => Keeps.bind (Keeps.orCrash _) fun _ => Keeps.pure _
  refine Keeps.bind Keeps.current fun h => Keeps.forM fun te _ => ?_
  cases te with
  | input i =>
    refine Keeps.bind (Keeps.forM fun sub _ => ?_) fun _ => Keeps.forM fun sub _ => ?_
    · cases sub with
      | use u => exact Keeps.forM fun d _ => hprint d
      | defn d => exact hprint d
    · cases sub with
      | use u => exact keeps_indirectUse pag u
      | defn d => exact Keeps.pure _
  | defn d => exact Keeps.bind (Keeps.orCrash _) fun _ => Keeps.pure _

theorem noNull_iff (svf : Graphs) (pag : PAG) (rounds : List Round) :
    ((∀ h ∈ (history svf pag rounds).states, NoNull h) ↔
      ∀ h site p, (h, some (site, p)) ∈ (history svf pag rounds).past → Fine svf h site p) ∧
    ∀ h, NoNull h → ∀ p id, getDefId h.deflist p ≠ none ∧ getDefWithID h.deflist id ≠ none := by
  constructor
  · have hinit : Consistent svf ⟨Heap.init, []⟩ := by
      refine iff_of_true (fun h hh => ?_) (fun h site p hp => absurd hp List.not_mem_nil)
      rw [List.mem_singleton.mp hh]
      exact ⟨fun d hd => absurd hd List.not_mem_nil, fun te hte => absurd hte List.not_mem_nil⟩
    have hmain : Keeps (Consistent svf) (main svf pag rounds) :=
      Keeps.bind (Keeps.forM fun r _ => keeps_round r) fun _ => keeps_indirectUses pag
    exact hmain _ hinit
  · intro h hh p id
    obtain ⟨found, hfound⟩ := getDefId_isSome hh.deflist p
    obtain ⟨d, hd, -⟩ := getDefWithID_isSome hh.deflist id
    rw [hfound, hd]
    exact ⟨Option.some_ne_none found, Option.some_ne_none d⟩

def duplicated : PAGNode := ⟨1, [], ⟨1, .call ['s', 't', 'r', 'd', 'u', 'p']⟩, false⟩

def pointerNode (i : ℕ) : PAGNode := ⟨i, [], ⟨i, .instruction⟩, false⟩

def allocatingGraphs : Graphs where
  valueType _ := 0
  allocatedType _ := 0
  globalType _ := 0
  structElements _ := none
  pointee _ := none
  allocSize _ := 1
  node v := ⟨v.ref, [], v, false⟩
  getDefNodes _ := [duplicated]
  outEdges _ := 0
  findTargetOfCall _ := some (pointerNode 2)
  findFirstStore _ := none
  findDefNodesFromStore _ := []
  defOfParam _ := none
  storesFrom _ := []
  pathsToUse _ _ := none
  stack := 1

def emptyGraph : PAG where
  edges := []
  isDummy _ := false
  useTarget v := v
  functionOf _ := none
  noAlias _ _ := true
  isAggregateType _ := false
  rounds := 1

def inputCall : CallSite :=
  ⟨⟨3, .call ['w', 'r', 'a', 'p', 'p', 'e', 'r', '_', 's', 'c', 'a', 'n', 'f']⟩, [], [],
    [pointerNode 4, pointerNode 5], pointerNode 6⟩

theorem null_of_duplicated :
    ¬ ∀ h ∈ (history allocatingGraphs emptyGraph [.input .wrapperScanf inputCall]).states,
      NoNull h := by
  intro hall
  have hnull : .null ∈ (history allocatingGraphs emptyGraph
      [.input .wrapperScanf inputCall]).now.deflist := by decide
  exact (hall _ List.mem_cons_self).deflist _ hnull

end Embedwatch.Svf.Pointers
