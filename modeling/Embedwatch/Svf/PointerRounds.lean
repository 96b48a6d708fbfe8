import Embedwatch.Library.Lookup
import Embedwatch.Svf.NullDefs
import Embedwatch.Svf.UseTargets

/-! The rounds with pointers do what those of the analysis do, wherever the analysis comes to an end. -/

namespace Embedwatch.Svf.Pointers

open Library.PlainText Library.Stateful

def ofDef : Def → DefPtr
  | .adef id node alloca type bytes => .adef id node alloca type bytes
  | .gdef id node global type bytes => .gdef id node global type bytes
  | .ddef id node call target => .ddef id node call (ofDef target)
  | .sdef id node type bytes fields offset => .sdef id node type bytes fields offset

def ofFound : Option Def → DefPtr
  | some d => ofDef d
  | none => .null

def ofUse (u : ZUse) : UseObj := ⟨u.kind, u.id, u.text, u.fun_, u.instr, u.targets.map ofDef⟩

def ofSub : SubObject → SubPtr
  | .use u => .use (ofUse u)
  | .defn d => .defn (ofDef d)

def ofIn (i : In) : InObj := ⟨i.id, i.text, i.call, i.subObjects.map ofSub⟩

inductive Stands : EntityPtr → TraceEntity → Prop
  | input (i : In) : Stands (.input (ofIn i)) (.input i)
  | defn (d : Def) : Stands (.defn (ofDef d)) (.defn d)

def heapOf (trace : List EntityPtr) (s : State) : Heap :=
  ⟨s.nextId, trace, s.deflist.map ofDef, s.zref⟩

structure Agrees (h : Heap) (s : State) : Prop where
  listed : Listed s.deflist s.nextId
  trace : List.Forall₂ Stands h.trace s.trace
  heap : h = heapOf h.trace s

variable {svf : Graphs} {s s₁ s' : State} {d : Def} {ds : List Def} {p : PAGNode} {n : ℕ}
  {trace : List EntityPtr}

@[simp] lemma id_ofDef (d : Def) : (ofDef d).id = some d.id := by cases d <;> rfl

lemma defNodeCompare_ofDef (d : Def) (p : PAGNode) :
    defNodeCompare (ofDef d) p = some (Svf.defNodeCompare d p) := by
  induction d with
  | ddef id node call target ih =>
    rw [ofDef, defNodeCompare, Svf.defNodeCompare, ih]
    by_cases hid : p.id = node.id <;> simp [hid]
  | _ => rfl

lemma getDefId_map (l : List Def) (p : PAGNode) :
    getDefId (l.map ofDef) p = some (Svf.getDefId l p) := by
  induction l with
  | nil => rfl
  | cons d l ih =>
    rw [List.map_cons, getDefId, defNodeCompare_ofDef, Option.bind_some, ih, Svf.getDefId, Svf.getDefId,
      List.find?_cons]
    cases Svf.defNodeCompare d p <;> simp

lemma getDefWithID_map (l : List Def) (id : ℕ) :
    getDefWithID (l.map ofDef) id = some (ofFound (Svf.getDefWithID l id)) := by
  induction l with
  | nil => rfl
  | cons d l ih =>
    rw [List.map_cons, getDefWithID, id_ofDef, Option.bind_some, ih, Svf.getDefWithID, Svf.getDefWithID,
      List.find?_cons]
    by_cases hid : d.id = id <;> simp [hid, ofFound]

lemma fieldDefs_map (l : List Def) (p : PAGNode) (a : Graphs.Access) :
    fieldDefs (l.map ofDef) p a = some ((Graphs.fieldDefs l p a).map ofDef) := by
  induction l with
  | nil => rfl
  | cons d l ih =>
    rw [List.map_cons, Graphs.fieldDefs, List.filter_cons]
    cases d with
    | sdef id node type bytes fields offset =>
      rw [ofDef, fieldDefs, ih, Option.map_some, Graphs.fieldDefs]
      by_cases hfield : node = p ∧ type = a.type ∧ offset = a.size <;> simp [hfield, ofDef]
    | _ => exact ih

lemma buildDef_ofFound {stack : ℕ} {o : Option Def} {n' : ℕ}
    (h : svf.buildDef stack p n = some (o, n')) :
    buildDef svf stack p n = some (ofFound o, n') := by
  induction stack generalizing p n o n' with
  | zero => cases h
  | succ stack ih =>
    rw [Graphs.buildDef] at h
    rw [buildDef]
    cases hkind : p.value.kind with
    | call function =>
      rw [hkind] at h
      simp only at h ⊢
      split at h
      · next hdyn =>
        obtain ⟨target, htarget, h⟩ := Option.bind_eq_some_iff.mp h
        obtain ⟨⟨o', n₁⟩, hbuilt, h⟩ := Option.bind_eq_some_iff.mp h
        obtain ⟨d, rfl, h⟩ := Option.map_eq_some_iff.mp h
        cases h
        rw [if_pos hdyn, htarget, Option.bind_some, ih hbuilt]
        rfl
      · next hdyn =>
        cases h
        rw [if_neg hdyn]
        rfl
    | instruction =>
      rw [hkind] at h
      cases h
    | other =>
      rw [hkind] at h
      cases h
    | _ =>
      rw [hkind] at h
      cases h
      rfl

lemma getOrBuildDef_heapOf {o : Option Def} (h : svf.getOrBuildDef s p = some (o, s₁)) :
    getOrBuildDef svf (heapOf trace s) p = some (ofFound o, s₁.nextId) ∧
      s₁ = { s with nextId := s₁.nextId } := by
  rw [Graphs.getOrBuildDef] at h
  rw [getOrBuildDef, heapOf, getDefId_map, Option.bind_some]
  cases hid : Svf.getDefId s.deflist p with
  | none =>
    rw [hid] at h
    obtain ⟨⟨o', n⟩, hbuilt, h⟩ := Option.map_eq_some_iff.mp h
    cases h
    exact ⟨buildDef_ofFound hbuilt, rfl⟩
  | some id =>
    rw [hid] at h
    cases h
    simp only [getDefWithID_map, Option.map_some]
    exact ⟨trivial, trivial⟩

lemma push_heapOf (trace : List EntityPtr) (s : State) (d : Def) :
    (heapOf trace s).push (ofDef d) = heapOf trace { s with deflist := s.deflist ++ [d] } := by
  rw [heapOf, heapOf, List.map_append]
  rfl

def addTargets (place : Option (ℕ × ℕ)) (ds : List Def) (trace : List EntityPtr) : List EntityPtr :=
  match place with
  | none => trace
  | some (i, j) => ds.foldl (fun trace d =>
      trace.modify i (EntityPtr.modify fun subs => subs.modify j (SubPtr.addTargetObject (ofDef d)))) trace

lemma addTargets_nil (place : Option (ℕ × ℕ)) (trace : List EntityPtr) :
    addTargets place [] trace = trace := by cases place <;> rfl

lemma addTargets_append (place : Option (ℕ × ℕ)) (ds es : List Def) (trace : List EntityPtr) :
    addTargets place (ds ++ es) trace = addTargets place es (addTargets place ds trace) := by
  cases place with
  | none => rfl
  | some place => exact List.foldl_append

lemma insertDef_gives {o : Option Def} {site : Site} {h' : Heap}
    (hgot : svf.getOrBuildDef s p = some (o, s₁))
    (hinsert : Gives (insertAt (ofFound o) site) (heapOf trace s₁) () h') :
    Gives (insertDef svf site p) (heapOf trace s) (ofFound o) h' := by
  obtain ⟨hbuilt, hs₁⟩ := @getOrBuildDef_heapOf svf s s₁ p trace o hgot
  refine Gives.bind (Gives.current _) (Gives.bind (Gives.orCrash hbuilt _) ?_)
  have hcount : { heapOf trace s with nextId := s₁.nextId } = heapOf trace s₁ := by
    rw [hs₁]
    rfl
  refine Gives.bind (Gives.step _ _ _) ?_
  change Gives _ { heapOf trace s with nextId := s₁.nextId } _ _
  rw [hcount]
  exact Gives.bind hinsert (Gives.pure h' _)

lemma insertAt_input (i : ℕ) (d : Def) (trace : List EntityPtr) (s : State) :
    Gives (insertAt (ofDef d) (.input i)) (heapOf trace s) ()
      (heapOf (trace.modify i (EntityPtr.modify fun subs => subs ++ [.defn (ofDef d)]))
        { s with deflist := s.deflist ++ [d] }) := by
  rw [← push_heapOf]
  exact Gives.bind (Gives.step _ _ _) (Gives.step _ _ _)

inductive OfUse : Site → ℕ → ℕ → Prop
  | store (i j : ℕ) : OfUse (.store i j) i j
  | lib (i j : ℕ) : OfUse (.lib i j) i j

lemma insertAt_ofUse {site : Site} {i j : ℕ} (hsite : OfUse site i j) (d : Def)
    (trace : List EntityPtr) (s : State) : Gives (insertAt (ofDef d) site) (heapOf trace s) ()
      (heapOf (addTargets (some (i, j)) [d] trace) { s with deflist := s.deflist ++ [d] }) := by
  rw [← push_heapOf]
  cases hsite <;> exact Gives.bind (Gives.step _ _ _) (Gives.step _ _ _)

lemma insertAt_zref (d : Def) (trace : List EntityPtr) (s : State) :
    Gives (insertAt (ofDef d) .zref) (heapOf trace s) ()
      (heapOf (trace ++ [.defn (ofDef d)]) { s with deflist := s.deflist ++ [d] }) := by
  have hne : ofDef d ≠ .null := by cases d <;> exact DefPtr.noConfusion
  rw [← push_heapOf, insertAt, if_neg hne]
  exact Gives.bind (Gives.step _ _ _) (Gives.step _ _ _)

lemma addTarget_gives (place : Option (ℕ × ℕ)) (d : Def) (trace : List EntityPtr) (s : State) :
    Gives (match place with
      | some (i, j) => step none (Heap.addTargetObject i j (ofDef d))
      | none => pure () : M Unit) (heapOf trace s) () (heapOf (addTargets place [d] trace) s) := by
  cases place with
  | none => exact Gives.pure _ _
  | some place => exact Gives.step _ _ _

lemma forM_addTarget_gives (place : Option (ℕ × ℕ)) (ds : List Def) (trace : List EntityPtr)
    (s : State) : Gives ((ds.map ofDef).forM fun d => match place with
      | some (i, j) => step none (Heap.addTargetObject i j d)
      | none => pure () : M Unit) (heapOf trace s) () (heapOf (addTargets place ds trace) s) := by
  induction ds generalizing trace with
  | nil =>
    rw [addTargets_nil]
    exact Gives.forM_nil _ _
  | cons d ds ih =>
    have happend := addTargets_append place [d] ds trace
    rw [List.singleton_append] at happend
    rw [happend]
    exact Gives.forM_cons (addTarget_gives place d trace s) (ih _)

lemma filterMap_id_map (ds : List Def) : (ds.map ofDef).filterMap DefPtr.id = ds.map Def.id := by
  simp [List.filterMap_map]

lemma analyzePath_gives {place : Option (ℕ × ℕ)} {path : GepPath}
    (h : svf.analyzePath s p path = some (ds, s')) :
    Gives (analyzePath svf p place path) (heapOf trace s) (ds.map Def.id)
      (heapOf (addTargets place ds trace) s') := by
  obtain ⟨a, ha, h⟩ := Option.bind_eq_some_iff.mp h
  refine Gives.bind (Gives.orCrash ha _) (Gives.bind (Gives.current _) ?_)
  refine Gives.bind (Gives.orCrash (fieldDefs_map s.deflist p a) _) ?_
  by_cases hfound : Graphs.fieldDefs s.deflist p a = []
  · simp only [hfound, ne_eq, not_true_eq_false, if_false, List.map_nil] at h ⊢
    obtain ⟨a', ha', h⟩ := Option.map_eq_some_iff.mp h
    cases h
    generalize hd : Def.sdef s.nextId p a'.type (svf.allocSize a'.type) a'.fields a'.size = d
    have hpushed : { heapOf trace s with nextId := s.nextId + 1, deflist := s.deflist.map ofDef ++ [ofDef d] } =
        heapOf trace { s with nextId := s.nextId + 1, deflist := s.deflist ++ [d] } := by
      rw [heapOf, heapOf, List.map_append]
      rfl
    have hadd := addTarget_gives place d trace
      { s with nextId := s.nextId + 1, deflist := s.deflist ++ [d] }
    rw [← hpushed] at hadd
    subst hd
    refine Gives.bind (Gives.orCrash ha' _) (Gives.bind (Gives.step _ _ _) ?_)
    exact Gives.bind hadd (Gives.pure _ _)
  · have hmap : (Graphs.fieldDefs s.deflist p a).map ofDef ≠ [] := by simpa using hfound
    simp only [ne_eq, hfound, not_false_eq_true, if_true] at h
    cases h
    rw [if_pos hmap, filterMap_id_map]
    exact Gives.bind (forM_addTarget_gives place _ trace s) (Gives.pure _ _)

lemma analyzePaths_gives {place : Option (ℕ × ℕ)} {paths : List GepPath}
    (h : svf.analyzePaths s p paths = some (ds, s')) :
    Gives (analyzePaths svf p place paths) (heapOf trace s) (ds.map Def.id)
      (heapOf (addTargets place ds trace) s') := by
  induction paths generalizing s ds trace with
  | nil =>
    cases h
    rw [addTargets_nil]
    exact Gives.pure _ _
  | cons path paths ih =>
    obtain ⟨⟨one, s₁⟩, hone, h⟩ := Option.bind_eq_some_iff.mp h
    obtain ⟨⟨rest, s₂⟩, hrest, h⟩ := Option.map_eq_some_iff.mp h
    cases h
    rw [addTargets_append, List.map_append]
    exact Gives.bind (analyzePath_gives hone) (Gives.bind (ih hrest) (Gives.pure _ _))

lemma analyzeGep_gives {place : Option (ℕ × ℕ)} {use : Value}
    (h : svf.analyzeGep s p use = some (ds, s')) :
    Gives (analyzeGep svf p use place) (heapOf trace s) (ds.map Def.id)
      (heapOf (addTargets place ds trace) s') := by
  obtain ⟨paths, hpaths, h⟩ := Option.bind_eq_some_iff.mp h
  exact Gives.bind (Gives.orCrash hpaths _) (analyzePaths_gives h)

lemma targetsOf_gives {use : Value} {site : Site} {i j : ℕ} (hsite : OfUse site i j)
    (h : svf.targetsOf s use p = some (ds, s')) :
    Gives (if svf.isStruct p then do
      let _ ← analyzeGep svf p use (some (i, j))
      else do
        let _ ← insertDef svf site p : M Unit) (heapOf trace s) ()
      (heapOf (addTargets (some (i, j)) ds trace) s') := by
  rw [Graphs.targetsOf] at h
  split at h
  · next hstruct =>
    rw [if_pos hstruct]
    exact Gives.bind (analyzeGep_gives h) (Gives.pure _ _)
  · next hstruct =>
    obtain ⟨⟨o, s₁⟩, hgot, h⟩ := Option.bind_eq_some_iff.mp h
    obtain ⟨d, rfl, h⟩ := Option.map_eq_some_iff.mp h
    cases h
    rw [if_neg hstruct]
    exact Gives.bind (insertDef_gives hgot (insertAt_ofUse hsite d trace s₁)) (Gives.pure _ _)

lemma targets_gives {use : Value} {ps : List PAGNode} {site : Site} {i j : ℕ}
    (hsite : OfUse site i j) (h : svf.targets s use ps = some (ds, s')) :
    Gives (ps.forM fun p => if svf.isStruct p then do
      let _ ← analyzeGep svf p use (some (i, j))
      else do
        let _ ← insertDef svf site p : M Unit) (heapOf trace s) ()
      (heapOf (addTargets (some (i, j)) ds trace) s') := by
  induction ps generalizing s ds trace with
  | nil =>
    cases h
    exact Gives.forM_nil _ _
  | cons p ps ih =>
    obtain ⟨⟨one, s₁⟩, hone, h⟩ := Option.bind_eq_some_iff.mp h
    obtain ⟨⟨rest, s₂⟩, hrest, h⟩ := Option.map_eq_some_iff.mp h
    cases h
    rw [addTargets_append]
    exact Gives.forM_cons (targetsOf_gives hsite hone) (ih hrest)

def within (pre : List EntityPtr) (i : InObj) (post : List EntityPtr) (subs : List SubPtr) :
    List EntityPtr := pre ++ .input { i with subObjects := subs } :: post

variable {pre post : List EntityPtr} {i : InObj} {subs : List SubPtr}

lemma modify_length {α : Type*} (l l' : List α) (a : α) (f : α → α) :
    (l ++ a :: l').modify l.length f = l ++ f a :: l' := by
  induction l with
  | nil => rfl
  | cons b l ih => exact congrArg (List.cons b) ih

lemma modify_within (f : List SubPtr → List SubPtr) :
    (within pre i post subs).modify pre.length (EntityPtr.modify f) = within pre i post (f subs) :=
  modify_length pre post _ _

lemma addTargets_within (u : UseObj) (ds : List Def) :
    addTargets (some (pre.length, subs.length)) ds (within pre i post (subs ++ [.use u])) =
      within pre i post (subs ++ [.use { u with targets := u.targets ++ ds.map ofDef }]) := by
  induction ds generalizing u with
  | nil => simp [addTargets]
  | cons d ds ih =>
    have hone : addTargets (some (pre.length, subs.length)) [d] (within pre i post (subs ++ [.use u])) =
        within pre i post (subs ++ [.use { u with targets := u.targets ++ [ofDef d] }]) := by
      refine (modify_within _).trans ?_
      rw [modify_length]
      rfl
    rw [← List.singleton_append, addTargets_append, hone, ih, List.append_assoc]
    rfl

lemma subObjectsOf_within (s : State) :
    subObjectsOf (heapOf (within pre i post subs) s) pre.length = subs := by
  simp [subObjectsOf, heapOf, within]

lemma newUse_gives (kind : UseKind) (text fun_ : Text) (instr : Value) (s : State) :
    Gives (newUse pre.length kind text fun_ instr) (heapOf (within pre i post subs) s) subs.length
      (heapOf (within pre i post (subs ++ [.use ⟨kind, s.nextId, text, fun_, instr, []⟩]))
        { s with nextId := s.nextId + 1 }) := by
  have hlength : (subObjectsOf (heapOf (within pre i post subs) s) pre.length).length = subs.length :=
    congrArg List.length (subObjectsOf_within s)
  refine Gives.bind (Gives.current _) ?_
  rw [hlength]
  have hinserted : (within pre i post subs).modify pre.length (EntityPtr.modify fun subs =>
      subs ++ [.use ⟨kind, s.nextId, text, fun_, instr, []⟩]) =
      within pre i post (subs ++ [.use ⟨kind, s.nextId, text, fun_, instr, []⟩]) := modify_within _
  refine Gives.bind (Gives.step _ _ _) ?_
  rw [← hinserted]
  exact Gives.pure _ _

lemma targets_within {use : Value} {ps : List PAGNode} {site : Site}
    (hsite : OfUse site pre.length subs.length) (u : UseObj)
    (h : svf.targets s use ps = some (ds, s')) :
    Gives (ps.forM fun p => if svf.isStruct p then do
      let _ ← analyzeGep svf p use (some (pre.length, subs.length))
      else do
        let _ ← insertDef svf site p : M Unit) (heapOf (within pre i post (subs ++ [.use u])) s) ()
      (heapOf (within pre i post (subs ++ [.use { u with targets := u.targets ++ ds.map ofDef }])) s') := by
  rw [← addTargets_within]
  exact targets_gives hsite h

lemma storeUses_gives {use : StoreNode → Value} {ns : List StoreNode} {us : List ZUse}
    (h : svf.storeUses s use ns = some (us, s')) :
    Gives (storeUses svf pre.length use ns) (heapOf (within pre i post subs) s) ()
      (heapOf (within pre i post (subs ++ us.map fun u => .use (ofUse u))) s') := by
  induction ns generalizing s us subs with
  | nil =>
    cases h
    rw [List.map_nil, List.append_nil]
    exact Gives.forM_nil _ _
  | cons n ns ih =>
    obtain ⟨⟨ds, s₁⟩, hds, h⟩ := Option.bind_eq_some_iff.mp h
    obtain ⟨⟨rest, s₂⟩, hrest, h⟩ := Option.map_eq_some_iff.mp h
    cases h
    rw [List.map_cons, List.append_cons]
    refine Gives.forM_cons (Gives.bind (newUse_gives .suse n.text n.fun_ n.store s) ?_) (ih hrest)
    exact targets_within (.store pre.length subs.length) _ hds

lemma newIn_gives (c : CallSite) (trace : List EntityPtr) (s : State) :
    Gives (newIn c) (heapOf trace s) trace.length
      (heapOf (within trace ⟨s.nextId, c.text, c.call, []⟩ [] []) { s with nextId := s.nextId + 1 }) :=
  Gives.bind (Gives.current _) (Gives.bind (Gives.step _ _ _) (Gives.pure _ _))

lemma inputDefs_gives {ps : List PAGNode} {found : List SubObject}
    (h : svf.inputDefs s ps = some (found, s')) :
    Gives (ps.forM fun p => do
      let v ← orCrash (match p.value.kind with
        | .call _ => (svf.findTargetOfCall p).map PAGNode.value
        | _ => some p.value)
      let _ ← insertDef svf (.input pre.length) p
      storeUses svf pre.length StoreNode.store (svf.storesFrom v))
      (heapOf (within pre i post subs) s) ()
      (heapOf (within pre i post (subs ++ found.map ofSub)) s') := by
  induction ps generalizing s found subs with
  | nil =>
    cases h
    rw [List.map_nil, List.append_nil]
    exact Gives.forM_nil _ _
  | cons p ps ih =>
    obtain ⟨v, hv, h⟩ := Option.bind_eq_some_iff.mp h
    obtain ⟨⟨o, s₁⟩, hgot, h⟩ := Option.bind_eq_some_iff.mp h
    obtain ⟨d, rfl, h⟩ := Option.bind_eq_some_iff.mp h
    obtain ⟨⟨us, s₂⟩, huses, h⟩ := Option.bind_eq_some_iff.mp h
    obtain ⟨⟨rest, s₃⟩, hrest, h⟩ := Option.map_eq_some_iff.mp h
    cases h
    have hinserted := insertDef_gives hgot (insertAt_input pre.length d (within pre i post subs) s₁)
    rw [modify_within] at hinserted
    have hsubs : subs ++ (SubObject.defn d :: us.map .use ++ rest).map ofSub =
        ((subs ++ [.defn (ofDef d)]) ++ us.map fun u => .use (ofUse u)) ++ rest.map ofSub := by
      simp [ofSub, Function.comp_def]
    rw [hsubs]
    refine Gives.forM_cons (Gives.bind (Gives.orCrash hv _) (Gives.bind hinserted ?_)) (ih hrest)
    exact storeUses_gives huses

lemma input_gives (trace : List EntityPtr) (hl : Listed s.deflist s.nextId) {f : InputFunction} {c : CallSite}
    (h : svf.input s f c = some s') : ∃ i, s'.trace = s.trace ++ [.input i] ∧
      Gives (input svf f c) (heapOf trace s) () (heapOf (trace ++ [.input (ofIn i)]) s') := by
  obtain ⟨param, hparam, h⟩ := Option.bind_eq_some_iff.mp h
  obtain ⟨⟨found, s₁⟩, hfound, h⟩ := Option.map_eq_some_iff.mp h
  cases h
  have hcount := Grows.count s 1
  obtain ⟨hgrows, -⟩ := inputDefs_grows (hcount.listed hl) hfound
  refine ⟨_, by rw [hgrows.trace], ?_⟩
  have hdefs : Gives _ (heapOf (within trace ⟨s.nextId, c.text, c.call, []⟩ [] []) _) () _ :=
    inputDefs_gives hfound
  exact Gives.bind (Gives.orCrash hparam _) (Gives.bind (newIn_gives c trace s) hdefs)

lemma lib_gives (trace : List EntityPtr) (hl : Listed s.deflist s.nextId) {f : LibFunction} {c : CallSite}
    (h : svf.lib s f c = some s') : ∃ i, s'.trace = s.trace ++ [.input i] ∧
      Gives (lib svf f c) (heapOf trace s) () (heapOf (trace ++ [.input (ofIn i)]) s') := by
  obtain ⟨param, hparam, h⟩ := Option.bind_eq_some_iff.mp h
  obtain ⟨⟨ds, s₁⟩, hds, h⟩ := Option.map_eq_some_iff.mp h
  cases h
  have hcount := Grows.count s 2
  have hgrows := targets_grows (hcount.listed hl) hds
  refine ⟨_, by rw [hgrows.trace], ?_⟩
  have htargets : Gives _ (heapOf (within trace ⟨s.nextId, c.text, c.call, []⟩ []
      ([] ++ [.use ⟨.luse, s.nextId + 1, c.text, c.fun_, c.call, []⟩])) _) () _ :=
    targets_within (.lib trace.length 0) _ hds
  refine Gives.bind (Gives.orCrash hparam _) (Gives.bind (newIn_gives c trace s) ?_)
  exact Gives.bind (newUse_gives .luse c.text c.fun_ c.call _) htargets

lemma setZref_trace (s : State) (call : Value) (name value : Text) :
    (s.setZref call name value).trace = s.trace := rfl

lemma attachId_gives (hd : d ∈ s.deflist) (call : Value) (name : Text) :
    Gives (attachId call name d.id) (heapOf trace s) ()
      (heapOf trace (s.setZref call name (decimal d.id))) := by
  obtain ⟨e, he⟩ : ∃ e, Svf.getDefWithID s.deflist d.id = some e := by
    rw [Svf.getDefWithID, ← Option.isSome_iff_exists, List.find?_isSome]
    exact ⟨d, hd, decide_eq_true rfl⟩
  have hget : getDefWithID (heapOf trace s).deflist d.id = some (ofDef e) := by
    rw [heapOf, getDefWithID_map, he]
    rfl
  refine Gives.bind (Gives.current _) (Gives.bind (Gives.orCrash hget _) ?_)
  exact Gives.bind (Gives.orCrash (id_ofDef e) _) (Gives.step _ _ _)

lemma attachDef_gives (hl : Listed s.deflist s.nextId) (ht : List.Forall₂ Stands trace s.trace)
    {call : Value} {name : Text} {use : Value} {ps : List PAGNode}
    (h : svf.attachDef s call name use ps = some s') :
    ∃ trace', List.Forall₂ Stands trace' s'.trace ∧
      Gives (attachDef svf call name use ps) (heapOf trace s) () (heapOf trace' s') := by
  induction ps generalizing s with
  | nil =>
    cases h
    exact ⟨trace, ht, Gives.pure _ _⟩
  | cons p ps ih =>
    rw [Graphs.attachDef] at h
    rw [attachDef]
    by_cases hdom : p.dominator
    · rw [if_pos hdom] at h ⊢
      exact ih hl ht h
    rw [if_neg hdom] at h ⊢
    have hfound := getDefId_map s.deflist p
    cases hid : Svf.getDefId s.deflist p with
    | some id =>
      rw [hid] at h hfound
      cases h
      obtain ⟨d, hd, -, rfl, -⟩ := getDefWithID_of_getDefId hl hid
      refine ⟨trace, ht, Gives.bind (Gives.current _) (Gives.bind (Gives.orCrash hfound _) ?_)⟩
      exact attachId_gives hd call name
    | none =>
      rw [hid] at hfound
      simp only [hid] at h
      by_cases hstruct : svf.isStruct p
      · rw [if_pos hstruct] at h
        obtain ⟨⟨ds, s₁⟩, hgep, h⟩ := Option.bind_eq_some_iff.mp h
        obtain ⟨d, hd, h⟩ := Option.map_eq_some_iff.mp h
        cases h
        obtain ⟨hgrows, -⟩ := analyzeGep_grows hgep
        have hhead : (ds.map Def.id).head? = some d.id := by
          rw [List.head?_map, hd, Option.map_some]
        refine ⟨trace, hgrows.trace ▸ ht, ?_⟩
        refine Gives.bind (Gives.current _) (Gives.bind (Gives.orCrash hfound _) ?_)
        simp only [if_pos hstruct]
        refine Gives.bind (analyzeGep_gives hgep) (Gives.bind (Gives.orCrash hhead _) ?_)
        exact attachId_gives (hgrows.new (List.mem_of_head? hd)) call name
      · rw [if_neg hstruct] at h
        obtain ⟨⟨o, s₁⟩, hgot, hrun⟩ := Option.bind_eq_some_iff.mp h
        cases o with
        | none =>
          obtain ⟨rfl, -⟩ := getOrBuildDef_none hl hgot
          obtain ⟨trace', ht', hrest⟩ := ih hl ht hrun
          have hnull : Gives (insertAt .null .zref) (heapOf trace s₁) () (heapOf trace s₁) :=
            Gives.pure _ _
          refine ⟨trace', ht', ?_⟩
          refine Gives.bind (Gives.current _) (Gives.bind (Gives.orCrash hfound _) ?_)
          simp only [if_neg hstruct]
          exact Gives.bind (insertDef_gives hgot hnull) hrest
        | some d =>
          cases hrun
          obtain ⟨hgrows, -⟩ := getOrBuildDef_grows hl hgot
          have htrace : s₁.trace = s.trace := hgrows.trace
          refine ⟨trace ++ [.defn (ofDef d)], ?_, ?_⟩
          · rw [setZref_trace, htrace]
            exact List.rel_append ht (.cons (.defn d) .nil)
          · refine Gives.bind (Gives.current _) (Gives.bind (Gives.orCrash hfound _) ?_)
            simp only [if_neg hstruct]
            refine Gives.bind (insertDef_gives hgot (insertAt_zref d trace s₁)) ?_
            rw [ofFound, id_ofDef]
            exact attachId_gives (List.mem_append_right _ (List.mem_singleton_self d)) call name

lemma param_gives (hl : Listed s.deflist s.nextId) (ht : List.Forall₂ Stands trace s.trace)
    {q : Param} (h : svf.param s q = some s') :
    ∃ trace', List.Forall₂ Stands trace' s'.trace ∧
      Gives (param svf q) (heapOf trace s) () (heapOf trace' s') := by
  rw [Graphs.param] at h
  rw [param]
  by_cases hpointer : q.pointer
  · rw [if_pos hpointer] at h ⊢
    cases hvalue : q.value with
    | none =>
      rw [hvalue] at h
      cases h
      exact ⟨trace, ht, Gives.pure _ _⟩
    | some v =>
      rw [hvalue] at h
      cases haliased : q.aliased with
      | some arg =>
        rw [haliased] at h
        cases h
        exact ⟨trace, ht, Gives.step _ _ _⟩
      | none =>
        rw [haliased] at h
        obtain ⟨use, huse, h⟩ := Option.bind_eq_some_iff.mp h
        obtain ⟨trace', ht', hgives⟩ := attachDef_gives hl ht h
        exact ⟨trace', ht', Gives.bind (Gives.orCrash huse _) hgives⟩
  · rw [if_neg hpointer] at h ⊢
    cases h
    exact ⟨trace, ht, Gives.pure _ _⟩

def castRound (svf : Graphs) (cast call : Value) (te : EntityPtr × ℕ) : M Unit :=
  match te.1 with
  | .input i =>
    if i.call = call then storeUses svf te.2 (fun _ => cast) (svf.storesFrom cast) else pure ()
  | .defn d => do
    let _ ← orCrash d.id

lemma castUses_gives {cast call : Value} (done : List EntityPtr) {rest : List EntityPtr}
    {tes tes' : List TraceEntity} (ht : List.Forall₂ Stands rest tes) (h : svf.castUses s cast call tes = some (tes', s')) :
    ∃ rest', List.Forall₂ Stands rest' tes' ∧
      Gives ((rest.zipIdx done.length).forM (castRound svf cast call)) (heapOf (done ++ rest) s) ()
        (heapOf (done ++ rest') s') := by
  induction ht generalizing s done tes' with
  | nil =>
    cases h
    exact ⟨[], .nil, Gives.forM_nil _ _⟩
  | @cons e te rest tes hstands ht ih =>
    have hnext : ∀ {e' te' s₁ rest₁}, Stands e' te' →
        Gives (castRound svf cast call (e, done.length)) (heapOf (done ++ e :: rest) s) ()
          (heapOf (done ++ e' :: rest) s₁) →
        svf.castUses s₁ cast call tes = some (rest₁, s') →
        ∃ rest', List.Forall₂ Stands rest' (te' :: rest₁) ∧
          Gives (((e :: rest).zipIdx done.length).forM (castRound svf cast call))
            (heapOf (done ++ e :: rest) s) () (heapOf (done ++ rest') s') := by
      intro e' te' s₁ rest₁ hstands' hone hrest
      obtain ⟨rest', ht', hgives⟩ := @ih s₁ (done ++ [e']) rest₁ hrest
      rw [List.length_append, List.length_singleton, List.append_assoc, List.append_assoc] at hgives
      exact ⟨e' :: rest', .cons hstands' ht', Gives.forM_cons hone hgives⟩
    rcases castUses_cons h with ⟨i, us, s₁, rest₁, rfl, hcall, hus, hrest, rfl⟩ | ⟨rest₁, hne, hrest, rfl⟩
    · cases hstands
      have hround : castRound svf cast call (.input (ofIn i), done.length) =
          storeUses svf done.length (fun _ => cast) (svf.storesFrom cast) := if_pos hcall
      have hsubs : i.subObjects.map ofSub ++ us.map (fun u => .use (ofUse u)) =
          (i.subObjects ++ us.map SubObject.use).map ofSub := by
        simp [ofSub, Function.comp_def]
      have huses : Gives _ (heapOf (within done (ofIn i) rest (i.subObjects.map ofSub)) _) () _ :=
        storeUses_gives hus
      rw [hsubs] at huses
      apply hnext (.input _) ?_ hrest
      rw [hround]
      exact huses
    · apply hnext hstands ?_ hrest
      cases hstands with
      | input i =>
        have hround : castRound svf cast call (.input (ofIn i), done.length) = pure () :=
          if_neg (hne i rfl)
        rw [hround]
        exact Gives.pure _ _
      | defn d => exact Gives.bind (Gives.orCrash (id_ofDef d) _) (Gives.pure _ _)

theorem round_gives {h : Heap} {r : Round} (ha : Agrees h s) (hround : svf.round s r = some s') :
    ∃ h', Agrees h' s' ∧ Gives (round svf r) h () h' := by
  obtain ⟨hl, ht, hheap⟩ := ha
  have hl' := round_listed hl hround
  generalize h.trace = trace at ht hheap
  subst hheap
  cases r with
  | input f c =>
    obtain ⟨i, htrace, hgives⟩ := input_gives trace hl hround
    exact ⟨_, ⟨hl', htrace ▸ List.rel_append ht (.cons (.input i) .nil), rfl⟩, hgives⟩
  | lib f c =>
    obtain ⟨i, htrace, hgives⟩ := lib_gives trace hl hround
    exact ⟨_, ⟨hl', htrace ▸ List.rel_append ht (.cons (.input i) .nil), rfl⟩, hgives⟩
  | param q =>
    obtain ⟨trace', ht', hgives⟩ := param_gives hl ht hround
    exact ⟨_, ⟨hl', ht', rfl⟩, hgives⟩
  | inttoptr cast call =>
    obtain ⟨⟨tes, s₁⟩, hcasts, hround⟩ := Option.map_eq_some_iff.mp hround
    cases hround
    obtain ⟨trace', ht', hgives⟩ := castUses_gives [] ht hcasts
    exact ⟨_, ⟨hl', ht', rfl⟩, Gives.bind (Gives.current _) hgives⟩

lemma built_ofDef (d : Def) : (ofDef d).Built := by
  induction d with
  | ddef id node call target ih => exact ih
  | _ => trivial

lemma Stands.built {e : EntityPtr} {te : TraceEntity} (h : Stands e te) : ∀ d ∈ e.ptrs, d.Built := by
  cases h with
  | input i =>
    intro d hd
    obtain ⟨sub, hsub, hd⟩ := List.mem_flatMap.mp hd
    obtain ⟨sub, -, rfl⟩ := List.mem_map.mp hsub
    cases sub with
    | use u =>
      obtain ⟨d, -, rfl⟩ := List.mem_map.mp hd
      exact built_ofDef d
    | defn d' =>
      rw [List.mem_singleton.mp hd]
      exact built_ofDef d'
  | defn d' =>
    intro d hd
    rw [List.mem_singleton.mp hd]
    exact built_ofDef d'

lemma Agrees.noNull {h : Heap} (ha : Agrees h s) : NoNull h where
  deflist d hd := by
    rw [ha.heap] at hd
    obtain ⟨d, -, rfl⟩ := List.mem_map.mp hd
    exact built_ofDef d
  trace e he := by
    obtain ⟨te, -, hstands⟩ := Library.Lookup.exists_right_of_mem ha.trace he
    exact hstands.built

lemma rounds_gives {h : Heap} {rs : List Round} (ha : Agrees h s)
    (hrun : rs.foldlM svf.round s = some s') :
    ∃ h', Agrees h' s' ∧ Gives (rs.forM (round svf)) h () h' := by
  induction rs generalizing h s with
  | nil =>
    cases hrun
    exact ⟨h, ha, Gives.forM_nil _ _⟩
  | cons r rs ih =>
    rw [List.foldlM_cons] at hrun
    obtain ⟨s₁, hround, hrun⟩ := Option.bind_eq_some_iff.mp hrun
    obtain ⟨h₁, ha₁, hone⟩ := round_gives ha hround
    obtain ⟨h', ha', hrest⟩ := ih ha₁ hrun
    exact ⟨h', ha', Gives.forM_cons hone hrest⟩

theorem analyses_give {m : Module} (hrun : m.rounds.foldlM svf.round .init = some s) :
    ∃ h, Agrees h s ∧ NoNull h ∧ Gives (m.rounds.forM (round svf)) Heap.init () h := by
  have hinit : Agrees .init .init := ⟨Listed.nil, .nil, rfl⟩
  obtain ⟨h, ha, hgives⟩ := rounds_gives hinit hrun
  exact ⟨h, ha, ha.noNull, hgives⟩

end Embedwatch.Svf.Pointers
