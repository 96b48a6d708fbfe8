import Embedwatch.Svf.Growth
import Mathlib.Logic.Relation

/-! The definitions that requests for nodes create, against the graph of the targets of heap calls. -/

namespace Embedwatch.Svf

open Relation (ReflTransGen)

structure PAGNodes (svf : Graphs) where
  node : ℕ → PAGNode
  node_id : ∀ i, (node i).id = i
  target_eq : ∀ i t, svf.findTargetOfCall (node i) = some t → t = node t.id

def PAGNode.isDynamicCall (p : PAGNode) : Bool :=
  match p.value.kind with
  | .call function => isDynamicFunction function
  | _ => false

def Def.node : Def → PAGNode
  | .adef _ node _ _ _ | .gdef _ node _ _ _ | .ddef _ node _ _ | .sdef _ node _ _ _ _ => node

def Def.isDynamic : Def → Bool
  | .ddef _ _ _ _ => true
  | .adef _ _ _ _ _ | .gdef _ _ _ _ _ | .sdef _ _ _ _ _ _ => false

namespace Graphs

variable (svf : Graphs)

def TargetOf (n t : PAGNode) : Prop := n.isDynamicCall = true ∧ svf.findTargetOfCall n = some t

def request (s : State) (n : PAGNode) : Option State :=
  (svf.getOrBuildDef s n).bind fun got =>
    got.1.map fun d => { got.2 with deflist := got.2.deflist ++ [d] }

def requests (s : State) (ns : List PAGNode) : Option State := ns.foldlM svf.request s

def Builds : ℕ → PAGNode → Prop
  | 0, _ => False
  | stack + 1, n =>
    match n.value.kind with
    | .alloca | .globalVariable | .globalValue => True
    | .call function => isDynamicFunction function = true ∧
        ∃ t, svf.findTargetOfCall n = some t ∧ Builds stack t
    | .instruction | .other => False

def Follows : Def → Prop
  | .adef _ node _ _ _ | .gdef _ node _ _ _ => node.isDynamicCall = false
  | .ddef _ node _ target => svf.TargetOf node target.node ∧ Follows target
  | .sdef _ _ _ _ _ _ => False

end Graphs

def State.resolve (s : State) (n : PAGNode) : Option Def :=
  (getDefId s.deflist n).bind (getDefWithID s.deflist)

def State.kindOf (s : State) (n : PAGNode) : Option Bool := (s.resolve n).map Def.isDynamic

def State.OneDef (s : State) : Prop :=
  ∀ d ∈ s.deflist, ∀ d' ∈ s.deflist, ∀ e ∈ d.parts, ∀ e' ∈ d'.parts, e.node.id = e'.node.id → e.id = e'.id

variable {svf : Graphs}

lemma targetOf_unique {n t t' : PAGNode} (h : svf.TargetOf n t) (h' : svf.TargetOf n t') : t = t' :=
  Option.some.inj (h.2.symm.trans h'.2)

lemma Graphs.Follows.isDynamic {d : Def} (h : svf.Follows d) : d.isDynamic = d.node.isDynamicCall := by
  cases d with
  | ddef id node call target => exact h.1.1.symm
  | sdef => exact h.elim
  | _ => exact h.symm

lemma defNodeCompare_iff {d : Def} {n : PAGNode} (h : svf.Follows d) :
    defNodeCompare d n = true ↔ ∃ e ∈ d.parts, e.node.id = n.id := by
  induction d with
  | ddef id node call target ih =>
    rw [defNodeCompare, Bool.or_eq_true, decide_eq_true_eq, ih h.2, Def.parts, List.exists_mem_cons_iff,
      eq_comm]
    rfl
  | sdef => exact h.elim
  | _ => simp [defNodeCompare, Def.parts, Def.node, eq_comm]

lemma Graphs.Follows.reaches {d e : Def} (h : svf.Follows d) (he : e ∈ d.parts) :
    svf.Follows e ∧ ReflTransGen svf.TargetOf d.node e.node := by
  induction d with
  | ddef id node call target ih =>
    rcases List.mem_cons.mp he with rfl | he
    · exact ⟨h, .refl⟩
    · obtain ⟨hfollows, hreach⟩ := ih h.2 he
      exact ⟨hfollows, .head h.1 hreach⟩
  | _ =>
    obtain rfl := List.mem_singleton.mp he
    exact ⟨h, .refl⟩

lemma Graphs.Follows.exists_part {d : Def} {m : PAGNode} (h : svf.Follows d)
    (hm : ReflTransGen svf.TargetOf d.node m) : ∃ e ∈ d.parts, e.node = m := by
  induction d with
  | ddef id node call target ih =>
    rcases ReflTransGen.cases_head hm with rfl | ⟨t, ht, hm⟩
    · exact ⟨_, List.mem_cons_self, rfl⟩
    · obtain rfl := targetOf_unique h.1 ht
      obtain ⟨e, he, rfl⟩ := ih h.2 hm
      exact ⟨e, List.mem_cons_of_mem _ he, rfl⟩
  | sdef => exact h.elim
  | adef id node | gdef id node =>
    rcases ReflTransGen.cases_head hm with rfl | ⟨t, ht, -⟩
    · exact ⟨_, List.mem_singleton_self _, rfl⟩
    · rw [Graphs.Follows] at h
      have hdyn : node.isDynamicCall = true := ht.1
      rw [h] at hdyn
      cases hdyn

lemma Graphs.Follows.length_eq {d d' : Def} (h : svf.Follows d) (h' : svf.Follows d')
    (hnode : d.node = d'.node) : d.parts.length = d'.parts.length := by
  induction d generalizing d' with
  | ddef id node call target ih =>
    cases d' with
    | ddef id' node' call' target' =>
      obtain rfl : node = node' := hnode
      rw [Def.parts, Def.parts, List.length_cons, List.length_cons, ih h.2 h'.2 (targetOf_unique h.1 h'.1)]
    | sdef => exact h'.elim
    | _ =>
      have hkind := h.isDynamic.trans ((congrArg _ hnode).trans h'.isDynamic.symm)
      cases hkind
  | sdef => exact h.elim
  | _ =>
    cases d' with
    | ddef =>
      have hkind := h.isDynamic.trans ((congrArg _ hnode).trans h'.isDynamic.symm)
      cases hkind
    | sdef => exact h'.elim
    | _ => rfl

lemma parts_length_le {d e : Def} (he : e ∈ d.parts) : e.parts.length ≤ d.parts.length := by
  induction d with
  | ddef id node call target ih =>
    rcases List.mem_cons.mp he with rfl | he
    · exact le_rfl
    · exact (ih he).trans (Nat.le_succ _)
  | _ =>
    obtain rfl := List.mem_singleton.mp he
    exact le_rfl

lemma Graphs.Follows.part_unique {d e e' : Def} (h : svf.Follows d) (he : e ∈ d.parts)
    (he' : e' ∈ d.parts) (hnode : e.node = e'.node) : e = e' := by
  have hne : ∀ {id : ℕ} {node : PAGNode} {call : Value} {target e : Def},
      svf.Follows (.ddef id node call target) → e ∈ target.parts → e.node ≠ node := by
    intro id node call target e h he hnode
    have hlength : e.parts.length = (Def.ddef id node call target).parts.length :=
      (h.2.reaches he).1.length_eq h hnode
    have hle := parts_length_le he
    rw [Def.parts, List.length_cons] at hlength
    omega
  induction d with
  | ddef id node call target ih =>
    rcases List.mem_cons.mp he with rfl | he <;> rcases List.mem_cons.mp he' with rfl | he'
    · rfl
    · exact absurd hnode.symm (hne h he')
    · exact absurd hnode (hne h he)
    · exact ih h.2 he he'
  | _ =>
    rw [List.mem_singleton.mp he, List.mem_singleton.mp he']

lemma Graphs.Follows.antisymm {d d' : Def} (h : svf.Follows d) (h' : svf.Follows d')
    (hd : ReflTransGen svf.TargetOf d.node d'.node) (hd' : ReflTransGen svf.TargetOf d'.node d.node) :
    d.node = d'.node := by
  obtain ⟨e, he, hnode⟩ := h.exists_part hd
  obtain ⟨e', he', hnode'⟩ := h'.exists_part hd'
  have hle := parts_length_le he
  have hle' := parts_length_le he'
  rw [(h.reaches he).1.length_eq h' hnode] at hle
  rw [(h'.reaches he').1.length_eq h hnode'] at hle'
  have hlength : e.parts.length = d.parts.length := by
    rw [(h.reaches he).1.length_eq h' hnode]
    omega
  cases d with
  | ddef id node call target =>
    rcases List.mem_cons.mp he with rfl | he
    · exact hnode
    · have hlt := parts_length_le he
      rw [Def.parts, List.length_cons] at hlength
      omega
  | _ =>
    obtain rfl := List.mem_singleton.mp he
    exact hnode

lemma builds_mono {stack : ℕ} {n : PAGNode} (h : svf.Builds stack n) : svf.Builds (stack + 1) n := by
  induction stack generalizing n with
  | zero => exact h.elim
  | succ stack ih =>
    rw [Graphs.Builds] at h ⊢
    cases hkind : n.value.kind with
    | call function =>
      rw [hkind] at h
      obtain ⟨hdyn, t, ht, hrest⟩ := h
      exact ⟨hdyn, t, ht, ih hrest⟩
    | alloca | globalVariable | globalValue => trivial
    | instruction | other =>
      rw [hkind] at h
      exact h.elim

lemma builds_of_reaches {stack : ℕ} {n m : PAGNode} (h : svf.Builds stack n)
    (hm : ReflTransGen svf.TargetOf n m) : svf.Builds stack m := by
  induction hm with
  | refl => exact h
  | @tail m t hm ht ih =>
    cases stack with
    | zero => exact ih.elim
    | succ stack =>
      rw [Graphs.Builds] at ih
      obtain ⟨hdyn, ht⟩ := ht
      cases hkind : m.value.kind with
      | call function =>
        rw [hkind] at ih
        obtain ⟨-, t', ht', hrest⟩ := ih
        obtain rfl : t = t' := Option.some.inj (ht.symm.trans ht')
        exact builds_mono hrest
      | _ =>
        rw [PAGNode.isDynamicCall, hkind] at hdyn
        cases hdyn

lemma exists_buildDef {stack : ℕ} {n : PAGNode} (h : svf.Builds stack n) (id : ℕ) :
    ∃ d id', svf.buildDef stack n id = some (some d, id') := by
  induction stack generalizing n id with
  | zero => exact h.elim
  | succ stack ih =>
    rw [Graphs.Builds] at h
    rw [Graphs.buildDef]
    cases hkind : n.value.kind with
    | call function =>
      rw [hkind] at h
      obtain ⟨hdyn, t, ht, hrest⟩ := h
      obtain ⟨d, id', hd⟩ := ih hrest id
      simp only [hdyn, if_true, ht, Option.bind_some, hd, Option.map_some]
      exact ⟨_, _, rfl⟩
    | alloca => exact ⟨_, _, rfl⟩
    | globalVariable => exact ⟨_, _, rfl⟩
    | globalValue => exact ⟨_, _, rfl⟩
    | instruction | other =>
      rw [hkind] at h
      exact h.elim

lemma buildDef_follows {stack : ℕ} {n : PAGNode} {id id' : ℕ} {d : Def}
    (h : svf.buildDef stack n id = some (some d, id')) :
    svf.Builds stack n ∧ d.node = n ∧ svf.Follows d := by
  induction stack generalizing n id id' d with
  | zero => cases h
  | succ stack ih =>
    rw [Graphs.buildDef] at h
    rw [Graphs.Builds]
    cases hkind : n.value.kind with
    | call function =>
      simp only [hkind] at h
      split at h
      · rename_i hdyn
        obtain ⟨t, ht, h⟩ := Option.bind_eq_some_iff.mp h
        obtain ⟨⟨o, k⟩, hbuilt, h⟩ := Option.bind_eq_some_iff.mp h
        obtain ⟨target, htarget, h⟩ := Option.map_eq_some_iff.mp h
        cases h
        obtain rfl : o = some target := htarget
        obtain ⟨hbuilds, rfl, hfollows⟩ := ih hbuilt
        have hcall : n.isDynamicCall = true := by rw [PAGNode.isDynamicCall, hkind]; exact hdyn
        exact ⟨⟨hdyn, _, ht, hbuilds⟩, rfl, ⟨hcall, ht⟩, hfollows⟩
      · cases h
    | alloca | globalVariable | globalValue =>
      rw [hkind] at h
      cases h
      refine ⟨trivial, rfl, ?_⟩
      rw [Graphs.Follows, PAGNode.isDynamicCall, hkind]
    | instruction | other =>
      rw [hkind] at h
      cases h

lemma exists_definition {stack : ℕ} {n : PAGNode} (h : svf.Builds stack n) :
    ∃ d, d.node = n ∧ svf.Follows d := by
  obtain ⟨d, id', hd⟩ := exists_buildDef h 0
  obtain ⟨-, hnode, hfollows⟩ := buildDef_follows hd
  exact ⟨d, hnode, hfollows⟩

lemma resolve_eq {s : State} (hl : Listed s.deflist s.nextId) (n : PAGNode) :
    s.resolve n = s.deflist.find? fun d => defNodeCompare d n := by
  rw [State.resolve, getDefId]
  cases hfind : s.deflist.find? fun d => defNodeCompare d n with
  | none => rfl
  | some d =>
    have hid : getDefId s.deflist n = some d.id := by rw [getDefId, hfind]; rfl
    obtain ⟨d', hd', -, hid', hget⟩ := getDefWithID_of_getDefId hl hid
    obtain rfl : d' = d := hl.unique d' hd' d (List.mem_of_find?_eq_some hfind) d' d'.mem_parts_self d
      d.mem_parts_self hid'
    exact hget

lemma request_cases {s s' : State} {n : PAGNode} (hl : Listed s.deflist s.nextId)
    (h : svf.request s n = some s') :
    (∃ d ∈ s.deflist, defNodeCompare d n = true ∧ s' = { s with deflist := s.deflist ++ [d] }) ∨
      (∀ d ∈ s.deflist, defNodeCompare d n = false) ∧ ∃ d k,
        svf.buildDef svf.stack n s.nextId = some (some d, k) ∧
        s' = { s with nextId := k, deflist := s.deflist ++ [d] } := by
  obtain ⟨⟨o, s₁⟩, hgot, h⟩ := Option.bind_eq_some_iff.mp h
  obtain ⟨d, hd, rfl⟩ := Option.map_eq_some_iff.mp h
  obtain rfl : o = some d := hd
  have hres := resolve_eq hl n
  rw [State.resolve] at hres
  rw [Graphs.getOrBuildDef] at hgot
  cases hid : getDefId s.deflist n with
  | none =>
    rw [hid] at hgot hres
    obtain ⟨⟨o, k⟩, hbuild, hgot⟩ := Option.map_eq_some_iff.mp hgot
    cases hgot
    refine .inr ⟨?_, d, k, hbuild, rfl⟩
    intro e he
    simpa using List.find?_eq_none.mp hres.symm e he
  | some id =>
    rw [hid] at hgot hres
    obtain ⟨hd, rfl⟩ := Prod.mk.inj (Option.some.inj hgot)
    have hfind := hres.symm.trans hd
    exact .inl ⟨d, List.mem_of_find?_eq_some hfind, by simpa using List.find?_some hfind, rfl⟩

lemma exists_request {s : State} {n : PAGNode} (hl : Listed s.deflist s.nextId)
    (h : svf.Builds svf.stack n) : ∃ s', svf.request s n = some s' := by
  rw [Graphs.request, Graphs.getOrBuildDef]
  cases hid : getDefId s.deflist n with
  | none =>
    obtain ⟨d, k, hd⟩ := exists_buildDef h s.nextId
    rw [hd]
    exact ⟨_, rfl⟩
  | some id =>
    obtain ⟨d, -, -, -, hget⟩ := getDefWithID_of_getDefId hl hid
    simp only [hget]
    exact ⟨_, rfl⟩

lemma reaches_node (pag : PAGNodes svf) {i : ℕ} {m : PAGNode}
    (h : ReflTransGen svf.TargetOf (pag.node i) m) : m = pag.node m.id := by
  induction h with
  | refl => rw [pag.node_id]
  | @tail m t hm ht ih =>
    rw [ih] at ht
    exact pag.target_eq _ t ht.2

structure Requested (pag : PAGNodes svf) (ids : List ℕ) (s : State) : Prop where
  listed : Listed s.deflist s.nextId
  follows : ∀ d ∈ s.deflist, svf.Follows d
  root : ∀ d ∈ s.deflist, ∃ i ∈ ids, d.node = pag.node i
  unique : ∀ d ∈ s.deflist, ∀ d' ∈ s.deflist, d.node = d'.node → d = d'
  found : ∀ i ∈ ids, ∃ d ∈ s.deflist, defNodeCompare d (pag.node i) = true
  builds : ∀ i ∈ ids, svf.Builds svf.stack (pag.node i)

namespace Requested

variable {pag : PAGNodes svf} {ids : List ℕ} {s s' : State} {d : Def} {i j : ℕ}

lemma init : Requested pag [] .init := by
  refine ⟨Listed.nil, ?_, ?_, ?_, ?_, ?_⟩ <;> intro x hx <;> cases hx

lemma compare_iff (h : Requested pag ids s) (hd : d ∈ s.deflist) :
    defNodeCompare d (pag.node j) = true ↔ ReflTransGen svf.TargetOf d.node (pag.node j) := by
  have hfollows := h.follows d hd
  obtain ⟨i, -, hi⟩ := h.root d hd
  rw [defNodeCompare_iff hfollows]
  constructor
  · rintro ⟨e, he, hid⟩
    obtain ⟨-, hreach⟩ := hfollows.reaches he
    have hnode : e.node = pag.node e.node.id := reaches_node pag (hi ▸ hreach)
    rw [hid, pag.node_id] at hnode
    rwa [← hnode]
  · intro hreach
    obtain ⟨e, he, hnode⟩ := hfollows.exists_part hreach
    exact ⟨e, he, congrArg PAGNode.id hnode⟩

lemma request (h : Requested pag ids s) (hs : svf.request s (pag.node i) = some s') :
    Requested pag (ids ++ [i]) s' ∧ s.deflist ⊆ s'.deflist := by
  have hids : ids ⊆ ids ++ [i] := List.subset_append_left _ _
  rcases request_cases h.listed hs with ⟨d, hd, hcompare, rfl⟩ | ⟨hnone, d, k, hbuild, rfl⟩
  · have hmem : ∀ e, e ∈ s.deflist ++ [d] ↔ e ∈ s.deflist := by
      intro e
      constructor
      · intro he
        rcases List.mem_append.mp he with he | he
        · exact he
        · rwa [List.mem_singleton.mp he]
      · exact fun he => List.mem_append_left _ he
    refine ⟨⟨?_, ?_, ?_, ?_, ?_, ?_⟩, List.subset_append_left _ _⟩
    · exact h.listed.of_subset (fun e he => (hmem e).mp he) le_rfl
    · exact fun e he => h.follows e ((hmem e).mp he)
    · intro e he
      obtain ⟨j, hj, hnode⟩ := h.root e ((hmem e).mp he)
      exact ⟨j, hids hj, hnode⟩
    · exact fun e he e' he' => h.unique e ((hmem e).mp he) e' ((hmem e').mp he')
    · intro j hj
      rcases List.mem_append.mp hj with hj | hj
      · obtain ⟨e, he, hfound⟩ := h.found j hj
        exact ⟨e, (hmem e).mpr he, hfound⟩
      · rw [List.mem_singleton.mp hj]
        exact ⟨d, (hmem d).mpr hd, hcompare⟩
    · intro j hj
      rcases List.mem_append.mp hj with hj | hj
      · exact h.builds j hj
      · rw [List.mem_singleton.mp hj]
        obtain ⟨r, hr, hroot⟩ := h.root d hd
        have hreach := (h.compare_iff hd).mp hcompare
        rw [hroot] at hreach
        exact builds_of_reaches (h.builds r hr) hreach
  · obtain ⟨hbuilds, hnode, hfollows⟩ := buildDef_follows hbuild
    have hself : defNodeCompare d (pag.node i) = true :=
      (defNodeCompare_iff hfollows).mpr ⟨d, d.mem_parts_self, congrArg PAGNode.id hnode⟩
    have hother : ∀ e ∈ s.deflist, e.node ≠ d.node := by
      intro e he heq
      have hcompare := (defNodeCompare_iff (n := pag.node i) (h.follows e he)).mpr
        ⟨e, e.mem_parts_self, by rw [heq, hnode]⟩
      rw [hnone e he] at hcompare
      cases hcompare
    have hcases : ∀ e, e ∈ s.deflist ++ [d] → e ∈ s.deflist ∨ e = d := by
      intro e he
      exact (List.mem_append.mp he).imp_right List.mem_singleton.mp
    have hdmem : d ∈ s.deflist ++ [d] := List.mem_append_right _ (List.mem_singleton_self d)
    refine ⟨⟨?_, ?_, ?_, ?_, ?_, ?_⟩, List.subset_append_left _ _⟩
    · rcases buildDef_spec svf hbuild with ⟨hnone', -⟩ | ⟨d', hd', hnew, -⟩
      · cases hnone'
      · cases hd'
        exact hnew.listed h.listed
    · intro e he
      rcases hcases e he with he | rfl
      · exact h.follows e he
      · exact hfollows
    · intro e he
      rcases hcases e he with he | rfl
      · obtain ⟨j, hj, hroot⟩ := h.root e he
        exact ⟨j, hids hj, hroot⟩
      · exact ⟨i, List.mem_append_right _ (List.mem_singleton_self i), hnode⟩
    · intro e he e' he' heq
      rcases hcases e he with hold | rfl <;> rcases hcases e' he' with hold' | rfl
      · exact h.unique e hold e' hold' heq
      · exact absurd heq (hother e hold)
      · exact absurd heq.symm (hother e' hold')
      · rfl
    · intro j hj
      rcases List.mem_append.mp hj with hj | hj
      · obtain ⟨e, he, hfound⟩ := h.found j hj
        exact ⟨e, List.mem_append_left _ he, hfound⟩
      · rw [List.mem_singleton.mp hj]
        exact ⟨d, hdmem, hself⟩
    · intro j hj
      rcases List.mem_append.mp hj with hj | hj
      · exact h.builds j hj
      · rwa [List.mem_singleton.mp hj]

lemma requests {more : List ℕ} (h : Requested pag ids s)
    (hs : svf.requests s (more.map pag.node) = some s') :
    Requested pag (ids ++ more) s' ∧ s.deflist ⊆ s'.deflist := by
  induction more generalizing ids s with
  | nil =>
    cases hs
    rw [List.append_nil]
    exact ⟨h, List.Subset.refl _⟩
  | cons i more ih =>
    rw [List.map_cons, Graphs.requests, List.foldlM_cons] at hs
    obtain ⟨s₁, hs₁, hs⟩ := Option.bind_eq_some_iff.mp hs
    obtain ⟨h₁, hsub₁⟩ := h.request hs₁
    obtain ⟨h', hsub⟩ := ih h₁ hs
    rw [List.append_assoc] at h'
    exact ⟨h', List.Subset.trans hsub₁ hsub⟩

lemma exists_requests {more : List ℕ} (h : Requested pag ids s)
    (hmore : ∀ i ∈ more, svf.Builds svf.stack (pag.node i)) :
    ∃ s', svf.requests s (more.map pag.node) = some s' := by
  induction more generalizing ids s with
  | nil => exact ⟨s, rfl⟩
  | cons i more ih =>
    obtain ⟨s₁, hs₁⟩ := exists_request h.listed (hmore i List.mem_cons_self)
    obtain ⟨s', hs'⟩ := ih (h.request hs₁).1 fun j hj => hmore j (List.mem_cons_of_mem i hj)
    refine ⟨s', ?_⟩
    rw [List.map_cons, Graphs.requests, List.foldlM_cons]
    exact Option.bind_eq_some_iff.mpr ⟨s₁, hs₁, hs'⟩

lemma resolve_iff (h : Requested pag ids s) (i : ℕ) :
    (∀ d, s.resolve (pag.node i) = some d → d ∈ s.deflist ∧ ∃ r ∈ ids, d.node = pag.node r ∧
      ReflTransGen svf.TargetOf (pag.node r) (pag.node i)) ∧
    (s.resolve (pag.node i) = none → ∀ d ∈ s.deflist,
      ¬ ReflTransGen svf.TargetOf d.node (pag.node i)) := by
  rw [resolve_eq h.listed]
  constructor
  · intro d hfind
    have hd := List.mem_of_find?_eq_some hfind
    have hcompare : defNodeCompare d (pag.node i) = true := by simpa using List.find?_some hfind
    obtain ⟨r, hr, hroot⟩ := h.root d hd
    refine ⟨hd, r, hr, hroot, ?_⟩
    rw [← hroot]
    exact (h.compare_iff hd).mp hcompare
  · intro hnone d hd hreach
    have hcompare := List.find?_eq_none.mp hnone d hd
    exact hcompare ((h.compare_iff hd).mpr hreach)

end Requested

def Apart (pag : PAGNodes svf) (ids : List ℕ) : Prop :=
  ∀ i ∈ ids, ∀ j ∈ ids, i ≠ j → ∀ m, ReflTransGen svf.TargetOf (pag.node i) m →
    ¬ ReflTransGen svf.TargetOf (pag.node j) m

section Order

variable {pag : PAGNodes svf} {ids ids' : List ℕ} {s s' : State}

lemma Apart.oneDef (hapart : Apart pag ids) (h : Requested pag ids s) : s.OneDef := by
  intro d hd d' hd' e he e' he' hid
  obtain ⟨i, hi, hroot⟩ := h.root d hd
  obtain ⟨j, hj, hroot'⟩ := h.root d' hd'
  have hreach := ((h.follows d hd).reaches he).2
  have hreach' := ((h.follows d' hd').reaches he').2
  rw [hroot] at hreach
  rw [hroot'] at hreach'
  have hnode : e.node = e'.node := by
    rw [reaches_node pag hreach, reaches_node pag hreach', hid]
  by_cases hij : i = j
  · subst hij
    obtain rfl := h.unique d hd d' hd' (hroot.trans hroot'.symm)
    rw [(h.follows d hd).part_unique he he' hnode]
  · rw [← hnode] at hreach'
    exact absurd hreach' (hapart i hi j hj hij _ hreach)

lemma Apart.resolve (hapart : Apart pag ids) (h : Requested pag ids s) (h' : Requested pag ids' s')
    (hperm : ids'.Perm ids) {i : ℕ} {d : Def} (hd : s.resolve (pag.node i) = some d) :
    ∃ d', s'.resolve (pag.node i) = some d' ∧ d'.isDynamic = d.isDynamic := by
  obtain ⟨hmem, r, hr, hroot, hreach⟩ := (h.resolve_iff i).1 d hd
  cases hres : s'.resolve (pag.node i) with
  | none =>
    -- the requested node has a definition in the other order too
    obtain ⟨d', hd', hfound⟩ := h'.found r (hperm.mem_iff.mpr hr)
    have hreach' := ((h'.compare_iff hd').mp hfound).trans hreach
    exact absurd hreach' ((h'.resolve_iff i).2 hres d' hd')
  | some d' =>
    obtain ⟨hmem', r', hr', hroot', hreach'⟩ := (h'.resolve_iff i).1 d' hres
    refine ⟨d', rfl, ?_⟩
    have hrr : r = r' := by
      by_contra hne
      exact hapart r hr r' (hperm.mem_iff.mp hr') hne _ hreach hreach'
    rw [(h'.follows d' hmem').isDynamic, (h.follows d hmem).isDynamic, hroot, hroot', hrr]

lemma Apart.kindOf (hapart : Apart pag ids) (h : Requested pag ids s) (h' : Requested pag ids' s')
    (hperm : ids'.Perm ids) (i : ℕ) : s'.kindOf (pag.node i) = s.kindOf (pag.node i) := by
  have hapart' : Apart pag ids' := by
    intro i hi j hj
    exact hapart i (hperm.mem_iff.mp hi) j (hperm.mem_iff.mp hj)
  rw [State.kindOf, State.kindOf]
  cases hd : s.resolve (pag.node i) with
  | some d =>
    obtain ⟨d', hd', hkind⟩ := hapart.resolve h h' hperm hd
    rw [hd', Option.map_some, Option.map_some, hkind]
  | none =>
    cases hd' : s'.resolve (pag.node i) with
    | none => rfl
    | some d' =>
      obtain ⟨d, hd₁, -⟩ := hapart'.resolve h' h hperm.symm hd'
      rw [hd] at hd₁
      cases hd₁

lemma exists_perm_cons_cons {i j : ℕ} (hi : i ∈ ids) (hj : j ∈ ids) (hij : i ≠ j) :
    ∃ rest, (i :: j :: rest).Perm ids := by
  have hj' : j ∈ ids.erase i := (List.mem_erase_of_ne hij.symm).mpr hj
  refine ⟨(ids.erase i).erase j, ?_⟩
  exact ((List.perm_cons_erase hj').symm.cons i).trans (List.perm_cons_erase hi).symm

lemma not_oneDef {i j : ℕ} {more : List ℕ} {m : PAGNode}
    (hj : ¬ ReflTransGen svf.TargetOf (pag.node i) (pag.node j))
    (hi : ReflTransGen svf.TargetOf (pag.node i) m) (hm : ReflTransGen svf.TargetOf (pag.node j) m)
    (hs : svf.requests .init ((i :: j :: more).map pag.node) = some s) : ¬ s.OneDef := by
  rw [List.map_cons, List.map_cons, Graphs.requests, List.foldlM_cons] at hs
  obtain ⟨s₁, hs₁, hs⟩ := Option.bind_eq_some_iff.mp hs
  rw [List.foldlM_cons] at hs
  obtain ⟨s₂, hs₂, hs⟩ := Option.bind_eq_some_iff.mp hs
  have h₁ : Requested pag [i] s₁ := (Requested.init.request hs₁).1
  have h₂ : Requested pag [i, j] s₂ := (h₁.request hs₂).1
  have hsub : s₂.deflist ⊆ s.deflist := (h₂.requests hs).2
  -- both requests build: the list is empty first, then it has nothing for the second node
  rcases request_cases Listed.nil hs₁ with ⟨d, hd, -⟩ | ⟨-, d, k, hbuild, hs₁'⟩
  · cases hd
  have hd : d ∈ s₁.deflist := by rw [hs₁']; exact List.mem_singleton_self d
  have hnext : s₁.nextId = k := by rw [hs₁']
  obtain ⟨-, hnode, hfollows⟩ := buildDef_follows hbuild
  rcases request_cases h₁.listed hs₂ with ⟨d₀, hd₀, hcompare, -⟩ | ⟨-, d', k', hbuild', hs₂'⟩
  · obtain rfl : d₀ = d := by
      rw [hs₁'] at hd₀
      exact List.mem_singleton.mp hd₀
    rw [h₁.compare_iff hd, hnode] at hcompare
    exact absurd hcompare hj
  obtain ⟨-, hnode', hfollows'⟩ := buildDef_follows hbuild'
  have hd₂ : d ∈ s.deflist := hsub (by rw [hs₂']; exact List.mem_append_left _ hd)
  have hd₂' : d' ∈ s.deflist :=
    hsub (by rw [hs₂']; exact List.mem_append_right _ (List.mem_singleton_self d'))
  rw [← hnode] at hi
  rw [← hnode'] at hm
  obtain ⟨e, he, hem⟩ := hfollows.exists_part hi
  obtain ⟨e', he', hem'⟩ := hfollows'.exists_part hm
  intro hone
  have hid : e.id = e'.id := hone d hd₂ d' hd₂' e he e' he' (by rw [hem, hem'])
  have hlt : e.id < s₁.nextId := h₁.listed.lt d hd e he
  have hle : s₁.nextId ≤ e'.id := by
    rcases buildDef_spec svf hbuild' with ⟨hnone, -⟩ | ⟨d₁, hd₁, hnew, -⟩
    · cases hnone
    · cases hd₁
      exact hnew.le e' he'
  omega

theorem one_def_iff (hrun : svf.requests .init (ids.map pag.node) = some s) :
    (∀ ids' : List ℕ, ids'.Perm ids → ∀ s', svf.requests .init (ids'.map pag.node) = some s' →
        s'.OneDef ∧ ∀ i, s'.kindOf (pag.node i) = s.kindOf (pag.node i)) ↔ Apart pag ids := by
  have h : Requested pag ids s := (Requested.init.requests hrun).1
  constructor
  · intro hall i hi j hj hij m him hjm
    have hfirst : ∀ i ∈ ids, ∀ j ∈ ids, i ≠ j → ReflTransGen svf.TargetOf (pag.node i) m →
        ReflTransGen svf.TargetOf (pag.node j) m →
        ReflTransGen svf.TargetOf (pag.node i) (pag.node j) := by
      intro i hi j hj hij him hjm
      by_contra hreach
      -- the order that begins with the two nodes
      obtain ⟨rest, hrest⟩ := exists_perm_cons_cons hi hj hij
      have hbuilds : ∀ k ∈ i :: j :: rest, svf.Builds svf.stack (pag.node k) :=
        fun k hk => h.builds k (hrest.mem_iff.mp hk)
      obtain ⟨s', hs'⟩ := Requested.init.exists_requests hbuilds
      exact not_oneDef hreach him hjm hs' (hall _ hrest s' hs').1
    have hij' := hfirst i hi j hj hij him hjm
    have hji' := hfirst j hj i hi hij.symm hjm him
    obtain ⟨d, hnode, hfollows⟩ := exists_definition (h.builds i hi)
    obtain ⟨d', hnode', hfollows'⟩ := exists_definition (h.builds j hj)
    rw [← hnode, ← hnode'] at hij' hji'
    have hsame := hfollows.antisymm hfollows' hij' hji'
    rw [hnode, hnode'] at hsame
    exact hij (by rw [← pag.node_id i, hsame, pag.node_id])
  · intro hapart ids' hperm s' hrun'
    have h' : Requested pag ids' s' := (Requested.init.requests hrun').1
    have hapart' : Apart pag ids' := by
      intro i hi j hj
      exact hapart i (hperm.mem_iff.mp hi) j (hperm.mem_iff.mp hj)
    exact ⟨hapart'.oneDef h', hapart.kindOf h h' hperm⟩

end Order

def heapNode (i : ℕ) : PAGNode :=
  ⟨i, [], ⟨i, if i = 1 then .call ['m', 'a', 'l', 'l', 'o', 'c'] else .alloca⟩, false⟩

def heapGraphs : Graphs where
  valueType _ := 0
  allocatedType _ := 0
  globalType _ := 0
  structElements _ := none
  pointee _ := none
  allocSize _ := 4
  node v := heapNode v.ref
  getDefNodes p := [p]
  outEdges _ := 0
  findTargetOfCall n := if n.id = 1 then some (heapNode 0) else none
  findFirstStore _ := none
  findDefNodesFromStore _ := []
  defOfParam _ := none
  storesFrom _ := []
  pathsToUse _ _ := none
  stack := 2

def heapNodes : PAGNodes heapGraphs where
  node := heapNode
  node_id _ := rfl
  target_eq i t h := by
    simp only [heapGraphs, Option.ite_none_right_eq_some, Option.some.injEq] at h
    obtain ⟨-, rfl⟩ := h
    rfl

lemma heap_reaches {i : ℕ} {m : PAGNode} (h : ReflTransGen heapGraphs.TargetOf (heapNode i) m) :
    m.id = i ∨ i = 1 ∧ m.id = 0 := by
  induction h with
  | refl => exact .inl rfl
  | @tail m t hm ht ih =>
    obtain ⟨-, ht⟩ := ht
    simp only [heapGraphs, Option.ite_none_right_eq_some, Option.some.injEq] at ht
    obtain ⟨hid, rfl⟩ := ht
    rcases ih with ih | ⟨-, ih⟩
    · exact .inr ⟨ih.symm.trans hid, rfl⟩
    · rw [hid] at ih
      cases ih

theorem call_and_variable_oneDef : ∃ s, heapGraphs.requests .init ([1, 2].map heapNodes.node) = some s ∧
    s.OneDef := by
  have hrun : heapGraphs.requests .init ([1, 2].map heapNodes.node) = some
      ⟨3, [], [.ddef 1 (heapNode 1) (heapNode 1).value (.adef 0 (heapNode 0) (heapNode 0).value 0 4),
        .adef 2 (heapNode 2) (heapNode 2).value 0 4], fun _ _ => none⟩ := rfl
  refine ⟨_, hrun, ((one_def_iff hrun).mpr ?_ [1, 2] (.refl _) _ hrun).1⟩
  intro i hi j hj hij m him hjm
  have him := heap_reaches him
  have hjm := heap_reaches hjm
  simp only [List.mem_cons, List.not_mem_nil, or_false] at hi hj
  omega

theorem variable_before_call : ∃ s s', heapGraphs.requests .init ([0, 1].map heapNodes.node) = some s ∧
    heapGraphs.requests .init ([1, 0].map heapNodes.node) = some s' ∧ ¬ s.OneDef ∧
    s.kindOf (heapNode 0) = some false ∧ s'.kindOf (heapNode 0) = some true := by
  have hrun : heapGraphs.requests .init ([0, 1].map heapNodes.node) = some
      ⟨3, [], [.adef 0 (heapNode 0) (heapNode 0).value 0 4,
        .ddef 2 (heapNode 1) (heapNode 1).value (.adef 1 (heapNode 0) (heapNode 0).value 0 4)],
        fun _ _ => none⟩ := rfl
  refine ⟨_, _, hrun, rfl, ?_, rfl, rfl⟩
  intro hone
  have hid := hone _ (.head _) _ (.tail _ (.head _)) _ (.head _) _ (.tail _ (.head _)) rfl
  cases hid

end Embedwatch.Svf
