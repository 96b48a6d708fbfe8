import Embedwatch.Svf.UseTargets

/-! The inputs of a trace: one for each call of an input or library function, with the stores that
the input reaches for uses, and the targets of these. -/

namespace Embedwatch.Svf

open Relation Library.Runs

abbrev InputSite := (InputFunction × CallSite) ⊕ (LibFunction × CallSite)

def TraceEntity.inputs : TraceEntity → List In
  | .input i => [i]
  | .use _ | .defn _ => []

def traceInputs (trace : List TraceEntity) : List In := trace.flatMap TraceEntity.inputs

def In.UsesInstr (i : In) (instr : Value) : Prop :=
  ∃ u ∈ (TraceEntity.input i).uses, u.instr = instr

def InputSite.call : InputSite → Value
  | .inl (_, c) => c.call
  | .inr (_, c) => c.call

def SiteUse (svf : Graphs) (paramDefs : PAGNode → PAGNode → Prop) (Reaches : Value → Value → Prop) :
    InputSite → Value → Prop
  | .inl (f, c), instr => ∃ param p v, svf.inputParam f c = some param ∧ paramDefs param p ∧
      svf.usedValue p = some v ∧ Reaches v instr
  | .inr (_, c), instr => instr = c.call

structure Covers (svf : Graphs) (paramDefs : PAGNode → PAGNode → Prop)
    (Reaches : Value → Value → Prop) (casts : List (Value × Value)) (site : InputSite) (i : In) :
    Prop where
  call : i.call = site.call
  uses : ∀ instr, i.UsesInstr instr ↔ SiteUse svf paramDefs Reaches site instr ∨
    ∃ cast, (cast, i.call) ∈ casts ∧ Reaches cast instr

def Graphs.Covers (svf : Graphs) : List (Value × Value) → InputSite → In → Prop :=
  Svf.Covers svf (fun param p => p ∈ svf.getDefNodes param) fun v instr =>
    ∃ n ∈ svf.storesFrom v, n.store = instr

structure Lookup where
  storeDefs : Value → PAGNode → Prop
  paramDefs : PAGNode → PAGNode → Prop
  selects : Value → PAGNode → GepPath → Prop

structure StoreUse (svf : Graphs) (look : Lookup) (v : Value) (st : StoreNode) (u : ZUse) :
    Prop where
  kind : u.kind = .suse
  instr : u.instr = st.store
  targets : Exactly svf (Seeks svf (look.storeDefs st.store) (look.selects v)) u.targets

inductive SiteUses (svf : Graphs) (look : Lookup) : InputSite → List ZUse → Prop
  | input {f : InputFunction} {c : CallSite} {param : PAGNode} {vs : List Value} {us : List ZUse}
    (hparam : svf.inputParam f c = some param)
    (hvalues : (svf.getDefNodes param).map svf.usedValue = vs.map some)
    (huses : List.Forall₂ (fun st u => StoreUse svf look st.store st u)
      (vs.flatMap svf.storesFrom) us) : SiteUses svf look (.inl (f, c)) us
  | lib {f : LibFunction} {c : CallSite} {param : PAGNode} {u : ZUse}
    (hparam : functionParam f c.params = some param) (hkind : u.kind = .luse)
    (hinstr : u.instr = c.call)
    (htargets : Exactly svf (Seeks svf (look.paramDefs param) (look.selects c.call)) u.targets) :
    SiteUses svf look (.inr (f, c)) [u]

def Graphs.castStores (svf : Graphs) (casts : List (Value × Value)) (call : Value) :
    List (Value × StoreNode) :=
  (casts.filter fun c => c.2 = call).flatMap fun c => (svf.storesFrom c.1).map fun st => (c.1, st)

structure Traced (svf : Graphs) (look : Lookup) (casts : List (Value × Value)) (site : InputSite)
    (i : In) : Prop where
  call : i.call = site.call
  uses : ∃ own added, (TraceEntity.input i).uses = own ++ added ∧ SiteUses svf look site own ∧
    List.Forall₂ (fun c u => StoreUse svf look c.1 c.2 u) (svf.castStores casts i.call) added

def Graphs.lookup (svf : Graphs) : Lookup where
  storeDefs si p := p ∈ svf.findDefNodesFromStore si
  paramDefs param p := p ∈ svf.getDefNodes param
  selects v p path := ∃ paths, svf.pathsToUse p v = some paths ∧ path ∈ paths

variable {svf : Graphs} {s s' : State} {m : Module} {i : In}

lemma traceInputs_concat (trace : List TraceEntity) (te : TraceEntity) :
    traceInputs (trace ++ [te]) = traceInputs trace ++ te.inputs := by
  rw [traceInputs, List.flatMap_append, List.flatMap_singleton]
  rfl

lemma usesInstr_iff {instr : Value} :
    i.UsesInstr instr ↔ instr ∈ (TraceEntity.input i).uses.map ZUse.instr := List.mem_map.symm

lemma flatMap_uses (trace : List TraceEntity) : trace.flatMap TraceEntity.uses =
    (traceInputs trace).flatMap fun i => (TraceEntity.input i).uses := by
  rw [traceInputs, List.flatMap_assoc]
  refine List.flatMap_congr fun te _ => ?_
  cases te with
  | input i => exact (List.append_nil _).symm
  | use u => rfl
  | defn d => rfl

lemma storeUses_traced (hl : Listed s.deflist s.nextId) {use : StoreNode → Value}
    {ns : List StoreNode} {us : List ZUse} (h : svf.storeUses s use ns = some (us, s')) :
    List.Forall₂ (fun st u => StoreUse svf svf.lookup (use st) st u) ns us := by
  induction ns generalizing s us with
  | nil =>
    cases h
    exact .nil
  | cons n ns ih =>
    obtain ⟨⟨ds, s₁⟩, hds, h⟩ := Option.bind_eq_some_iff.mp h
    obtain ⟨⟨rest, s₂⟩, hrest, h⟩ := Option.map_eq_some_iff.mp h
    cases h
    have hl₁ := (Grows.count s 1).listed hl
    have huse : StoreUse svf svf.lookup (use n) n ⟨.suse, s.nextId, n.text, n.fun_, n.store, ds⟩ :=
      ⟨rfl, rfl, targets_exactly hl₁ hds⟩
    exact .cons huse (ih ((targets_grows hl₁ hds).listed hl₁) hrest)

lemma inputDefs_traced (hl : Listed s.deflist s.nextId) {ps : List PAGNode}
    {subs : List SubObject} (h : svf.inputDefs s ps = some (subs, s')) :
    ∃ vs : List Value, ps.map svf.usedValue = vs.map some ∧
      List.Forall₂ (fun st u => StoreUse svf svf.lookup st.store st u) (vs.flatMap svf.storesFrom)
        (subs.flatMap SubObject.uses) := by
  induction ps generalizing s subs with
  | nil =>
    cases h
    exact ⟨[], rfl, .nil⟩
  | cons p ps ih =>
    obtain ⟨v, hv, h⟩ := Option.bind_eq_some_iff.mp h
    obtain ⟨⟨o, s₁⟩, hgot, h⟩ := Option.bind_eq_some_iff.mp h
    obtain ⟨d, rfl, h⟩ := Option.bind_eq_some_iff.mp h
    obtain ⟨⟨us, s₂⟩, huses, h⟩ := Option.bind_eq_some_iff.mp h
    obtain ⟨⟨rest, s₃⟩, hrest, h⟩ := Option.map_eq_some_iff.mp h
    cases h
    have hused : svf.usedValue p = some v := hv
    have hl₁ := (getOrBuildDef_grows hl hgot).1.listed hl
    obtain ⟨vs, hvs, hrest⟩ := ih ((storeUses_grows hl₁ huses).listed hl₁) hrest
    refine ⟨v :: vs, by rw [List.map_cons, List.map_cons, hused, hvs], ?_⟩
    have hsubs : (SubObject.defn d :: us.map .use ++ rest).flatMap SubObject.uses =
        us ++ rest.flatMap SubObject.uses := by
      rw [List.flatMap_append, List.flatMap_cons, uses_map_use]
      rfl
    dsimp only
    rw [hsubs, List.flatMap_cons]
    exact List.rel_append (storeUses_traced hl₁ huses) hrest

lemma input_traced (hl : Listed s.deflist s.nextId) {f : InputFunction} {c : CallSite}
    (h : svf.input s f c = some s') : ∃ i, traceInputs s'.trace = traceInputs s.trace ++ [i] ∧
      Traced svf svf.lookup [] (.inl (f, c)) i := by
  obtain ⟨param, hparam, h⟩ := Option.bind_eq_some_iff.mp h
  obtain ⟨⟨subs, s₁⟩, hsubs, h⟩ := Option.map_eq_some_iff.mp h
  cases h
  have hl := (Grows.count s 1).listed hl
  obtain ⟨vs, hvs, huses⟩ := inputDefs_traced hl hsubs
  refine ⟨⟨s.nextId, c.text, c.call, subs⟩, ?_, rfl, _, [], (List.append_nil _).symm,
    .input hparam hvs huses, .nil⟩
  rw [(inputDefs_grows hl hsubs).1.trace, traceInputs_concat]
  rfl

lemma lib_traced (hl : Listed s.deflist s.nextId) {f : LibFunction} {c : CallSite}
    (h : svf.lib s f c = some s') : ∃ i, traceInputs s'.trace = traceInputs s.trace ++ [i] ∧
      Traced svf svf.lookup [] (.inr (f, c)) i := by
  obtain ⟨param, ds, s₁, hparam, hds, htrace⟩ := Graphs.lib_use svf h
  have hl := (Grows.count s 2).listed hl
  refine ⟨⟨s.nextId, c.text, c.call, [.use ⟨.luse, s.nextId + 1, c.text, c.fun_, c.call, ds⟩]⟩, ?_,
    rfl, _, [], (List.append_nil _).symm, .lib hparam rfl rfl (targets_exactly hl hds), .nil⟩
  rw [htrace, (targets_grows hl hds).trace, traceInputs_concat]
  rfl

lemma callSites_traced (h : m.callSites.foldlM (fun s site =>
      svf.round s (Sum.elim (fun c => .input c.1 c.2) (fun c => .lib c.1 c.2) site)) s = some s')
    (hl : Listed s.deflist s.nextId) (htrace : s.trace = []) : Listed s'.deflist s'.nextId ∧
      List.Forall₂ (Traced svf svf.lookup []) m.callSites (traceInputs s'.trace) := by
  refine foldlM_taken (fun done s => Listed s.deflist s.nextId ∧
    List.Forall₂ (Traced svf svf.lookup []) done (traceInputs s.trace)) ?_ ⟨hl, ?_⟩ h
  · rintro done site - s s' ⟨hl, htraced⟩ hround
    refine ⟨round_listed hl hround, ?_⟩
    have hone : ∃ i, traceInputs s'.trace = traceInputs s.trace ++ [i] ∧
        Traced svf svf.lookup [] site i := by
      cases site with
      | inl site => exact input_traced hl hround
      | inr site => exact lib_traced hl hround
    obtain ⟨i, htrace, hi⟩ := hone
    rw [htrace]
    exact List.rel_append htraced (.cons hi .nil)
  · rw [htrace]
    exact .nil

lemma attached_inputs {call : Value} {name : Library.PlainText.Text} {use : Value}
    {o : Option PAGNode} (hl : Listed s.deflist s.nextId)
    (h : Attached svf s call name use o s') : traceInputs s'.trace = traceInputs s.trace := by
  cases h with
  | nothing => rfl
  | known => rfl
  | @built p d s₁ hgot =>
    have htrace := (getOrBuildDef_grows hl hgot).1.trace
    change traceInputs (s₁.trace ++ [.defn d]) = _
    rw [traceInputs_concat, htrace]
    exact List.append_nil _
  | field hgep => exact congrArg traceInputs (analyzeGep_grows hgep).1.trace

lemma param_inputs (hl : Listed s.deflist s.nextId) {p : Param} (h : svf.param s p = some s') :
    traceInputs s'.trace = traceInputs s.trace := by
  rcases param_cases hl h with rfl | ⟨value, rfl⟩ | ⟨use, o, hattached⟩
  · rfl
  · rfl
  · exact attached_inputs hl hattached

lemma castStores_concat (casts : List (Value × Value)) (cast call call' : Value) :
    svf.castStores (casts ++ [(cast, call)]) call' = svf.castStores casts call' ++
      if call = call' then (svf.storesFrom cast).map fun st => (cast, st) else [] := by
  rw [Graphs.castStores, List.filter_append, List.flatMap_append, Graphs.castStores]
  by_cases hcall : call = call'
  · simp [hcall]
  · simp [hcall]

lemma Traced.other {look : Lookup} {cast call : Value} {casts : List (Value × Value)}
    {site : InputSite} (h : Traced svf look casts site i) (hcall : i.call ≠ call) :
    Traced svf look (casts ++ [(cast, call)]) site i where
  call := h.call
  uses := by
    rw [castStores_concat, if_neg (Ne.symm hcall), List.append_nil]
    exact h.uses

lemma Traced.cast {look : Lookup} {cast : Value} {casts : List (Value × Value)} {us : List ZUse}
    {site : InputSite} (h : Traced svf look casts site i)
    (hus : List.Forall₂ (fun st u => StoreUse svf look cast st u) (svf.storesFrom cast) us) :
    Traced svf look (casts ++ [(cast, i.call)]) site
      { i with subObjects := i.subObjects ++ us.map .use } where
  call := h.call
  uses := by
    obtain ⟨own, added, huses, hown, hadded⟩ := h.uses
    refine ⟨own, added ++ us, ?_, hown, ?_⟩
    · rw [TraceEntity.uses] at huses ⊢
      rw [List.flatMap_append, uses_map_use, huses, List.append_assoc]
    · rw [castStores_concat, if_pos rfl]
      refine List.rel_append hadded ?_
      rw [List.forall₂_map_left_iff]
      exact hus

lemma castUses_traced (hl : Listed s.deflist s.nextId) {cast call : Value}
    {casts : List (Value × Value)} {sites : List InputSite} {tes tes' : List TraceEntity}
    (htraced : List.Forall₂ (Traced svf svf.lookup casts) sites (traceInputs tes))
    (h : svf.castUses s cast call tes = some (tes', s')) :
    List.Forall₂ (Traced svf svf.lookup (casts ++ [(cast, call)])) sites (traceInputs tes') := by
  induction tes generalizing s tes' sites with
  | nil =>
    cases h
    cases htraced
    exact .nil
  | cons te tes ih =>
    rcases castUses_cons h with
      ⟨i, us, s₁, rest, rfl, rfl, hus, hrest, rfl⟩ | ⟨rest, hother, hrest, rfl⟩
    · have hl₁ := (storeUses_grows hl hus).listed hl
      cases htraced with
      | cons hi htraced => exact .cons (hi.cast (storeUses_traced hl hus)) (ih hl₁ htraced hrest)
    · cases te with
      | input i =>
        cases htraced with
        | cons hi htraced => exact .cons (hi.other (hother i rfl)) (ih hl htraced hrest)
      | use u | defn d =>
        have htail := ih hl htraced hrest
        exact htail

lemma inputs_traced (h : m.rounds.foldlM svf.round .init = some s) :
    List.Forall₂ (Traced svf svf.lookup m.casts) m.callSites (traceInputs s.trace) := by
  rw [Module.rounds, List.foldlM_append, List.foldlM_append] at h
  obtain ⟨s₂, h, hcasts⟩ := Option.bind_eq_some_iff.mp h
  obtain ⟨s₁, hsites, hparams⟩ := Option.bind_eq_some_iff.mp h
  rw [List.foldlM_map] at hsites hparams hcasts
  obtain ⟨hl₁, htraced⟩ := callSites_traced hsites Listed.nil rfl
  have hparams : Listed s₂.deflist s₂.nextId ∧ traceInputs s₂.trace = traceInputs s₁.trace := by
    refine foldlM_invariant
      (fun s => Listed s.deflist s.nextId ∧ traceInputs s.trace = traceInputs s₁.trace) ?_
      ⟨hl₁, rfl⟩ hparams
    rintro p - s s' ⟨hl, htrace⟩ hround
    exact ⟨round_listed hl hround, (param_inputs hl hround).trans htrace⟩
  refine (foldlM_taken (fun done s => Listed s.deflist s.nextId ∧
    List.Forall₂ (Traced svf svf.lookup done) m.callSites (traceInputs s.trace)) ?_ ?_ hcasts).2
  · rintro done cast - s s' ⟨hl, htraced⟩ hround
    refine ⟨round_listed hl hround, ?_⟩
    obtain ⟨⟨trace, s₁⟩, hgot, hround⟩ := Option.map_eq_some_iff.mp hround
    cases hround
    exact castUses_traced hl htraced hgot
  · refine ⟨hparams.1, ?_⟩
    rw [hparams.2]
    exact htraced

lemma map_instr_eq {look : Lookup} {α : Type} {v : α → Value} {st : α → StoreNode} {l : List α}
    {us : List ZUse} (h : List.Forall₂ (fun a u => StoreUse svf look (v a) (st a) u) l us) :
    us.map ZUse.instr = l.map fun a => (st a).store := by
  induction h with
  | nil => rfl
  | cons hu _ ih => rw [List.map_cons, List.map_cons, hu.instr, ih]

lemma SiteUses.mem_iff {look : Lookup} {site : InputSite} {us : List ZUse}
    (h : SiteUses svf look site us) (instr : Value) : instr ∈ us.map ZUse.instr ↔
      SiteUse svf (fun param p => p ∈ svf.getDefNodes param)
        (fun v instr => ∃ n ∈ svf.storesFrom v, n.store = instr) site instr := by
  cases h with
  | @input f c param vs us hparam hvs huses =>
    have hvalues : ∀ v, v ∈ vs ↔ ∃ p ∈ svf.getDefNodes param, svf.usedValue p = some v := by
      intro v
      rw [← List.mem_map, hvs]
      simp
    rw [map_instr_eq huses]
    simp only [List.mem_map, List.mem_flatMap, hvalues, SiteUse, hparam, Option.some.injEq]
    constructor
    · rintro ⟨n, ⟨v, ⟨p, hp, hv⟩, hn⟩, rfl⟩
      exact ⟨param, p, v, rfl, hp, hv, n, hn, rfl⟩
    · rintro ⟨param', p, v, rfl, hp, hv, n, hn, rfl⟩
      exact ⟨n, ⟨v, ⟨p, hp, hv⟩, hn⟩, rfl⟩
  | lib _ _ hinstr _ => simp [SiteUse, hinstr]

lemma Traced.covers {look : Lookup} {casts : List (Value × Value)} {site : InputSite}
    (h : Traced svf look casts site i) : svf.Covers casts site i where
  call := h.call
  uses instr := by
    obtain ⟨own, added, huses, hown, hadded⟩ := h.uses
    rw [usesInstr_iff, huses, List.map_append, List.mem_append, hown.mem_iff, map_instr_eq hadded]
    refine or_congr Iff.rfl ?_
    simp only [Graphs.castStores, List.mem_map, List.mem_flatMap, List.mem_filter,
      decide_eq_true_eq]
    constructor
    · rintro ⟨-, ⟨⟨cast, call⟩, ⟨hcast, rfl⟩, n, hn, rfl⟩, rfl⟩
      exact ⟨cast, hcast, n, hn, rfl⟩
    · rintro ⟨cast, hcast, n, hn, rfl⟩
      exact ⟨(cast, n), ⟨(cast, i.call), ⟨hcast, rfl⟩, n, hn, rfl⟩, rfl⟩

def FlowGraph.ReachesStore (flow : FlowGraph) (v instr : Value) : Prop :=
  ∃ n st, TransGen (fun a b => b ∈ flow.svfg.next a) (flow.defSVFGNode v) n ∧
    flow.nodeKind n = .store ∧ flow.storeOf n = some st ∧ st.store = instr

def FlowGraph.lookup (flow : FlowGraph) (pag : PAG) (svf : Graphs) : Lookup where
  storeDefs := StoreDefines pag svf
  paramDefs param p := Visits.Defines pag p param
  selects := flow.Selects svf

variable {pag : PAG} {flow : FlowGraph}

lemma visiting_getDefNodes : (fun param p => p ∈ (svf.visiting pag flow).getDefNodes param) =
    fun param p => Visits.Defines pag p param := by
  funext param p
  exact propext mem_getDefNodes_iff

lemma visiting_lookup : (svf.visiting pag flow).lookup = flow.lookup pag svf := by
  have hstore : (svf.visiting pag flow).lookup.storeDefs = StoreDefines pag svf := by
    funext si p
    exact propext mem_findDefNodesFromStore_iff
  have hselects : (svf.visiting pag flow).lookup.selects = flow.Selects svf := by
    funext v p path
    exact propext mem_pathsToUse_iff
  have hparam : (svf.visiting pag flow).lookup.paramDefs = fun param p => Visits.Defines pag p param :=
    visiting_getDefNodes
  rw [FlowGraph.lookup, ← hstore, ← hselects, ← hparam]

lemma mem_storesFrom_iff {v instr : Value} :
    (∃ n ∈ (svf.visiting pag flow).storesFrom v, n.store = instr) ↔ flow.ReachesStore v instr := by
  obtain ⟨nodes, hnodes, -, hmem⟩ := UseGraph.traverseOnVFG_reaches (g := flow.toUseGraph) v
  change (∃ n ∈ (flow.storesFrom (flow.svfg.edges.length + 1) v).getD [], n.store = instr) ↔ _
  rw [UseGraph.storesFrom, hnodes, Option.map_some, Option.getD_some]
  simp only [List.mem_filterMap, UseGraph.vfgNodeFilter, List.mem_filter, hmem, decide_eq_true_eq]
  constructor
  · rintro ⟨st, ⟨n, ⟨hreach, hkind⟩, hst⟩, hinstr⟩
    exact ⟨n, st, hreach, hkind, hst, hinstr⟩
  · rintro ⟨n, st, hreach, hkind, hst, hinstr⟩
    exact ⟨st, ⟨n, ⟨hreach, hkind⟩, hst⟩, hinstr⟩

theorem inputs_exact (flow : FlowGraph)
    (h : m.rounds.foldlM (svf.visiting pag flow).round .init = some s) :
    List.Forall₂ (Covers (svf.visiting pag flow) (fun param p => Visits.Defines pag p param)
      flow.ReachesStore m.casts) m.callSites (traceInputs s.trace) := by
  have hcovers : List.Forall₂ ((svf.visiting pag flow).Covers m.casts) m.callSites
      (traceInputs s.trace) := (inputs_traced h).imp fun _ _ => Traced.covers
  have hreaches : (fun v instr => ∃ n ∈ (svf.visiting pag flow).storesFrom v, n.store = instr) =
      flow.ReachesStore := by
    funext v instr
    exact propext mem_storesFrom_iff
  rwa [Graphs.Covers, visiting_getDefNodes, hreaches] at hcovers

theorem targets_exact (flow : FlowGraph)
    (h : m.rounds.foldlM (svf.visiting pag flow).round .init = some s) :
    s.trace.flatMap TraceEntity.uses =
      ((traceInputs s.trace).flatMap fun i => (TraceEntity.input i).uses) ∧
    List.Forall₂ (Traced (svf.visiting pag flow) (flow.lookup pag svf) m.casts) m.callSites
      (traceInputs s.trace) := by
  have htraced := inputs_traced h
  rw [visiting_lookup] at htraced
  exact ⟨flatMap_uses s.trace, htraced⟩

def scanned : Value := ⟨1, .alloca⟩

def copied : Value := ⟨2, .alloca⟩

def strcpyCall : Value := ⟨6, .call ['s', 't', 'r', 'c', 'p', 'y']⟩

def scannedObject : PAGNode := ⟨31, [], scanned, false⟩

def copiedObject : PAGNode := ⟨32, [], copied, false⟩

def scanningGraphs : Graphs :=
  { storedGraphs with
    valueType := fun v => if v = copied then 1 else 2
    structElements := fun t => if t = 0 then some [2, 2] else none
    pointee := fun t => if t = 1 then some 0 else none
    node := fun v => ⟨v.ref, [], v, false⟩ }

def scanningPag : PAG where
  edges := [⟨.addr, scannedObject, scanningGraphs.node scanned, some scanned⟩,
    ⟨.addr, copiedObject, scanningGraphs.node copied, some copied⟩,
    ⟨.other, scanningGraphs.node copied, scanningGraphs.node ⟨3, .instruction⟩, none⟩]
  isDummy _ := false
  useTarget _ := scanned
  functionOf _ := none
  noAlias _ _ := true
  isAggregateType _ := false
  rounds := 4

def scanningFlow : FlowGraph where
  svfg := ⟨[⟨SVFG.flowNode 1, SVFG.flowNode 5⟩, ⟨SVFG.flowNode 2, SVFG.flowNode 3⟩,
    ⟨SVFG.flowNode 3, ⟨6, some strcpyCall⟩⟩]⟩
  defSVFGNode v := SVFG.flowNode v.ref
  nodeKind n := if n.id = 5 then .store else .other
  storeOf n := if n.id = 5 then some ⟨[], [], ⟨5, .instruction⟩⟩ else none
  iterate s := [SVFG.flowNode 5, SVFG.flowNode 3, ⟨6, some strcpyCall⟩].filter (· ∈ s)
  iterate_spec s hs := by
    refine ⟨List.Nodup.filter _ (by decide), fun n => ?_⟩
    rw [List.mem_filter, decide_eq_true_eq, and_iff_right_iff_imp]
    intro hn
    simpa using hs hn
  valueEdges _ := []
  stmtVFGNode _ := none
  defNode n := some (SVFG.flowNode n.id)
  gep v := if v.ref = 3 then some [some 1] else none
  storeOperand _ := none

def scanningModule : Module where
  callSites := [
    .inl (.wrapperScanf, ⟨⟨4, .call []⟩, [], [],
      [scanningGraphs.node ⟨7, .other⟩, scanningGraphs.node scanned],
      scanningGraphs.node ⟨4, .call []⟩⟩),
    .inr (.strcpy, ⟨strcpyCall, [], [], [scanningGraphs.node ⟨3, .instruction⟩],
      scanningGraphs.node strcpyCall⟩)]
  params := []
  casts := []

def castingModule : Module := { scanningModule with casts := [(scanned, ⟨4, .call []⟩)] }

theorem casting_inputs : ∃ s,
    castingModule.rounds.foldlM
      (scanningGraphs.visiting scanningPag scanningFlow).round .init = some s ∧
    (traceInputs s.trace).map (fun i => (TraceEntity.input i).uses.map ZUse.instr) =
      [[⟨5, .instruction⟩, ⟨5, .instruction⟩], [strcpyCall]] ∧
    List.Forall₂ (Covers (scanningGraphs.visiting scanningPag scanningFlow)
      (fun param p => Visits.Defines scanningPag p param) scanningFlow.ReachesStore
      castingModule.casts) castingModule.callSites (traceInputs s.trace) := by
  have hsome : (castingModule.rounds.foldlM
      (scanningGraphs.visiting scanningPag scanningFlow).round .init).map (fun s =>
        (traceInputs s.trace).map fun i => (TraceEntity.input i).uses.map ZUse.instr) =
      some [[⟨5, .instruction⟩, ⟨5, .instruction⟩], [strcpyCall]] := by
    decide +kernel
  obtain ⟨s, hs, huses⟩ := Option.map_eq_some_iff.mp hsome
  exact ⟨s, hs, huses, inputs_exact scanningFlow hs⟩

theorem casting_targets : ∃ s,
    castingModule.rounds.foldlM
      (scanningGraphs.visiting scanningPag scanningFlow).round .init = some s ∧
    (s.trace.flatMap TraceEntity.uses).map (fun u => u.targets.map fun d => (d.node.id, d.offset)) =
      [[(31, none)], [(31, none)], [(32, some 4)]] ∧
    List.Forall₂ (Traced (scanningGraphs.visiting scanningPag scanningFlow)
      (scanningFlow.lookup scanningPag scanningGraphs) castingModule.casts) castingModule.callSites
      (traceInputs s.trace) := by
  have hsome : (castingModule.rounds.foldlM
      (scanningGraphs.visiting scanningPag scanningFlow).round .init).map (fun s =>
        (s.trace.flatMap TraceEntity.uses).map
          fun u => u.targets.map fun d => (d.node.id, d.offset)) =
      some [[(31, none)], [(31, none)], [(32, some 4)]] := by
    decide +kernel
  obtain ⟨s, hs, htargets⟩ := Option.map_eq_some_iff.mp hsome
  exact ⟨s, hs, htargets, (targets_exact scanningFlow hs).2⟩

end Embedwatch.Svf
