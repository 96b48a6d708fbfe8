import Embedwatch.Svf.ParsedLines

/-! The static trace from `exportTrace` to `trace_parser`: when the nodes of the verifier are the
exported entities again. -/

namespace Embedwatch.Svf

open Library.PlainText
open Verifier (TraceLine traceParser forest childPlaces rootPlaces fatherPlace FathersFirst
  foldlM_addLine length_nodes_parse)

def nestedPlaces (es : List Line) (i : ℕ) : List ℕ :=
  (List.range es.length).filter fun p => es[p]?.bind Line.parent = some i

def outerPlaces (es : List Line) : List ℕ :=
  (List.range es.length).filter fun p => es[p]?.map Line.parent = some none

def RoundTrip (trace : List TraceEntity) : Prop :=
  ∃ v, traceParser (exportTrace trace) = some v ∧
    v.nodes = ((exportedLines trace).mapIdx fun i e =>
      e.te.node e.father e.te.info e.te.fun_ (nestedPlaces (exportedLines trace) i)) ∧
    v.staticTrace = outerPlaces (exportedLines trace)

def Readable (te : TraceEntity) : Prop :=
  ';' ∉ te.info ∧ te.info.rdropWhile isSpace = te.info ∧ ';' ∉ te.fun_ ∧ '\n' ∉ te.fun_

def NestedUnderFirst (es : List Line) : Prop :=
  ∀ (p : ℕ) (e : Line) (q : ℕ), es[p]? = some e → e.parent = some q →
    ∀ q' < q, es[q']?.map (fun l => l.te.id) ≠ es[q]?.map fun l => l.te.id

section node

variable (te : TraceEntity) (father : ℤ) (info fun_ : Text) (children : List ℕ)

lemma node_id : (te.node father info fun_ children).id = te.id := by
  cases te with
  | defn d => cases d <;> rfl
  | _ => rfl

lemma node_father : (te.node father info fun_ children).father = some father := by
  cases te with
  | defn d => cases d <;> rfl
  | _ => rfl

lemma node_info : (te.node father info fun_ children).info = info := by
  cases te with
  | defn d => cases d <;> rfl
  | _ => rfl

lemma node_children : (te.node father info fun_ children).children = children := by
  cases te with
  | defn d => cases d <;> rfl
  | _ => rfl

lemma node_with_children (children' : List ℕ) :
    { te.node father info fun_ children with children := children' } =
      te.node father info fun_ children' := by
  cases te with
  | defn d => cases d <;> rfl
  | _ => rfl

end node

lemma Hangs.parent_cases {es : List Line} (h : Hangs none (-1) 0 es) {p : ℕ} {e : Line}
    (he : es[p]? = some e) : (e.parent = none ∧ e.father = -1) ∨
      ∃ q < p, ∃ e' : Line, es[q]? = some e' ∧ e.parent = some q ∧ e.father = e'.te.id := by
  have hcases := h p e he
  simp only [Nat.zero_add] at hcases
  exact hcases

lemma getElem?_parsed {es : List Line} {p : ℕ} {e : Line} (he : es[p]? = some e) :
    (es.map Line.parsed)[p]? = some e.parsed := by
  rw [List.getElem?_map, he]
  rfl

lemma parsed_father (e : Line) : e.parsed.father = some e.father := node_father _ _ _ _ _

lemma parsed_id (e : Line) : e.parsed.id = e.te.id := node_id _ _ _ _ _

lemma fathersFirst_parsed {es : List Line} (h : Hangs none (-1) 0 es) :
    FathersFirst (es.map Line.parsed) := by
  intro p t ht
  rw [List.getElem?_map] at ht
  obtain ⟨e, he, rfl⟩ := Option.map_eq_some_iff.mp ht
  rw [parsed_father]
  rcases h.parent_cases he with ⟨-, hf⟩ | ⟨q, hq, e', he', -, hf⟩
  · exact Or.inl (congrArg some hf)
  · refine Or.inr ⟨q, hq, e'.parsed, getElem?_parsed he', ?_⟩
    rw [parsed_id, hf]

lemma exportedLines_ne_nil {trace : List TraceEntity} (h : trace ≠ []) :
    exportedLines trace ≠ [] := by
  cases trace with
  | nil => exact absurd rfl h
  | cons te trace =>
    intro hnil
    obtain ⟨hte, -⟩ := List.append_eq_nil_iff.mp hnil
    cases te with
    | defn d => cases d <;> cases hte
    | _ => cases hte

lemma strip_ne_nil_of_mem_raw {es : List Line} : ∀ l ∈ es.map Line.raw, strip l ≠ [] := by
  intro l hl
  obtain ⟨e, -, rfl⟩ := List.mem_map.mp hl
  exact strip_raw_ne_nil e

theorem traceParser_exportTrace {trace : List TraceEntity} (hne : trace ≠ [])
    (h : ∀ e ∈ exportedLines trace, '\n' ∉ e.te.fun_) :
    ∃ v, traceParser (exportTrace trace) = some v ∧
      v.nodes = forest ((exportedLines trace).map Line.parsed) ∧
      v.staticTrace = rootPlaces ((exportedLines trace).map Line.parsed) := by
  let es := exportedLines trace
  have hchildren : ∀ t ∈ es.map Line.parsed, t.children = [] := by
    intro t ht
    obtain ⟨e, -, rfl⟩ := List.mem_map.mp ht
    exact node_children _ _ _ _ _
  obtain ⟨v, hv, hnodes, hroots⟩ :=
    foldlM_addLine (fathersFirst_parsed (hangs_exportedLines trace)) hchildren
  refine ⟨v, ?_, hnodes, hroots⟩
  have hstrip : ((strip (unlines (es.map Line.raw))).splitOn '\n').map strip =
      (es.map Line.raw).map strip := by
    apply map_strip_splitOn_unlines
    · exact fun hnil => exportedLines_ne_nil hne (List.map_eq_nil_iff.mp hnil)
    · exact strip_ne_nil_of_mem_raw
    · intro l hl
      obtain ⟨e, he, rfl⟩ := List.mem_map.mp hl
      exact not_mem_raw (h e he)
  let pieces := (strip (unlines (es.map Line.raw))).splitOn '\n'
  have hparse : ∀ (ls : List Text) (es' : List Line) (w : Verifier.State),
      ls.map strip = (es'.map Line.raw).map strip →
        ls.foldlM Verifier.State.parseLine w = (es'.map Line.parsed).foldlM Verifier.State.addLine w := by
    intro ls es'
    induction es' generalizing ls with
    | nil =>
      intro w hls
      obtain rfl := List.map_eq_nil_iff.mp hls
      rfl
    | cons e es' ih =>
      intro w hls
      obtain ⟨l, ls', rfl, hl, hls'⟩ := List.map_eq_cons_iff.mp hls
      have hone : Verifier.State.parseLine w l = w.addLine e.parsed := by
        rw [Verifier.State.parseLine, hl, ofLine_raw]
        rfl
      rw [List.foldlM_cons, hone, List.map_cons, List.foldlM_cons]
      congr 1
      funext w'
      exact ih ls' w' hls'
  rw [traceParser, exportTrace_eq_unlines, ← hv]
  exact hparse pieces es .empty hstrip

lemma traceParser_length {trace : List TraceEntity} {v : Verifier.State} (hne : trace ≠ [])
    (hv : traceParser (exportTrace trace) = some v) (h : ∃ e ∈ exportedLines trace, '\n' ∈ e.te.fun_) :
    (exportedLines trace).length < v.nodes.length := by
  obtain ⟨e, he, hmem⟩ := h
  have hne' : (exportedLines trace).map Line.raw ≠ [] := fun hnil =>
    exportedLines_ne_nil hne (List.map_eq_nil_iff.mp hnil)
  have hlt := length_lt_splitOn_unlines hne' strip_ne_nil_of_mem_raw
    ⟨e.raw, List.mem_map_of_mem he, mem_strip_raw hmem⟩
  rw [traceParser, exportTrace_eq_unlines] at hv
  rw [length_nodes_parse hv, Verifier.State.empty, List.length_nil, Nat.zero_add]
  rwa [List.length_map] at hlt

lemma parsedInfo_eq_iff (te : TraceEntity) :
    te.parsedInfo = te.info ↔ ';' ∉ te.info ∧ te.info.rdropWhile isSpace = te.info := by
  rw [TraceEntity.parsedInfo]
  constructor
  · intro h
    have hpiece : te.info ∈ (te.info.rdropWhile isSpace).splitOn ';' := by
      cases hlast : ((te.info.rdropWhile isSpace).splitOn ';').getLast? with
      | none =>
        exact absurd (List.getLast?_eq_none_iff.mp hlast) (List.splitOn_ne_nil _ _)
      | some piece =>
        rw [hlast] at h
        obtain rfl : piece = te.info := h
        exact List.mem_of_getLast? hlast
    have hnot := not_mem_of_mem_splitOn hpiece
    refine ⟨hnot, ?_⟩
    have hnot' : ';' ∉ te.info.rdropWhile isSpace := fun hmem =>
      hnot ((List.rdropWhile_prefix _ _).subset hmem)
    rw [List.splitOn_eq_singleton hnot'] at h
    exact h
  · rintro ⟨hnot, hspace⟩
    rw [hspace, List.splitOn_eq_singleton hnot]
    rfl

lemma parsedFun_eq_iff (te : TraceEntity) : te.parsedFun = te.fun_ ↔ ';' ∉ te.fun_ := by
  rw [TraceEntity.parsedFun]
  constructor
  · intro h
    obtain ⟨q, qs, hq⟩ := List.exists_cons_of_ne_nil (List.splitOn_ne_nil ';' te.fun_)
    rw [hq] at h
    obtain rfl : q = te.fun_ := h
    apply not_mem_of_mem_splitOn (l := te.fun_)
    rw [hq]
    exact List.mem_cons_self
  · intro h
    rw [List.splitOn_eq_singleton h]
    rfl

lemma fatherPlace_eq_parent_iff {es : List Line} (h : Hangs none (-1) 0 es) {p : ℕ} {e : Line}
    (he : es[p]? = some e) : fatherPlace (es.map Line.parsed) p = e.parent ↔
      ∀ q, e.parent = some q → ∀ q' < q,
        es[q']?.map (fun l => l.te.id) ≠ es[q]?.map fun l => l.te.id := by
  rw [fatherPlace, getElem?_parsed he, Option.bind_some, parsed_father]
  rcases h.parent_cases he with ⟨hp, hf⟩ | ⟨q, -, e', he', hp, hf⟩
  · rw [hp, hf, if_pos rfl]
    apply iff_of_true rfl
    intro q hq
    cases hq
  · have hne : some e.father ≠ some (-1) := by
      rw [hf]
      intro hc
      have := Option.some.inj hc
      omega
    have hids : ∀ x : TraceLine, (some x.id = some e.father) = (x.id = (e'.te.id : ℤ)) := by
      intro x
      rw [Option.some.injEq, hf]
    obtain ⟨hq, rfl⟩ := List.getElem?_eq_some_iff.mp he'
    simp only [hids, if_neg hne, hp, List.findIdx?_eq_some_iff_getElem, List.length_map, hq,
      List.getElem_map, parsed_id, decide_true, true_and, exists_true_left]
    constructor
    · rintro hfirst q₁ hq₁ q' hq'
      obtain rfl := Option.some.inj hq₁
      have hlt := hq'.trans hq
      rw [List.getElem?_eq_getElem hlt, List.getElem?_eq_getElem hq]
      intro hc
      apply hfirst q' hq'
      have hid : (es[q']).te.id = (es[q]).te.id := Option.some.inj hc
      rw [hid]
      exact decide_eq_true rfl
    · intro hfirst q' hq' hc
      apply hfirst q rfl q' hq'
      rw [List.getElem?_eq_getElem (hq'.trans hq), List.getElem?_eq_getElem hq]
      have hid := of_decide_eq_true hc
      exact congrArg some (Nat.cast_inj.mp hid)

lemma rootPlaces_parsed {es : List Line} (h : Hangs none (-1) 0 es) :
    rootPlaces (es.map Line.parsed) = outerPlaces es := by
  rw [rootPlaces, outerPlaces, List.length_map]
  apply List.filter_congr
  intro p hp
  have he := List.getElem?_eq_getElem (List.mem_range.mp hp)
  rw [getElem?_parsed he, he, Option.bind_some, Option.map_some, parsed_father]
  rcases h.parent_cases he with ⟨hp, hf⟩ | ⟨q, -, e', -, hp, hf⟩
  · rw [hp, hf]
    rfl
  · rw [hp, hf]
    have hne : (some (e'.te.id : ℤ)) ≠ some (-1) := by
      intro hc
      have := Option.some.inj hc
      omega
    rw [decide_eq_false hne]
    rfl

lemma childPlaces_parsed {es : List Line} (h : Hangs none (-1) 0 es) (hfirst : NestedUnderFirst es)
    (i : ℕ) : childPlaces (es.map Line.parsed) i = nestedPlaces es i := by
  rw [childPlaces, nestedPlaces, List.length_map]
  apply List.filter_congr
  intro p hp
  have he := List.getElem?_eq_getElem (List.mem_range.mp hp)
  rw [(fatherPlace_eq_parent_iff h he).mpr fun q => hfirst p _ q he, he, Option.bind_some]

lemma nestedUnderFirst_of_childPlaces {es : List Line} (h : Hangs none (-1) 0 es)
    (hchildren : ∀ i < es.length, childPlaces (es.map Line.parsed) i = nestedPlaces es i) :
    NestedUnderFirst es := by
  intro p e q he hq
  have hp : p < es.length := (List.getElem?_eq_some_iff.mp he).1
  have hlt : q < es.length := by
    rcases h.parent_cases he with ⟨hnone, -⟩ | ⟨q', hq', -, -, hparent, -⟩
    · rw [hq] at hnone
      cases hnone
    · rw [hq] at hparent
      obtain rfl := Option.some.inj hparent
      exact hq'.trans hp
  have hmem : p ∈ nestedPlaces es q := by
    rw [nestedPlaces, List.mem_filter, he, Option.bind_some]
    exact ⟨List.mem_range.mpr hp, decide_eq_true hq⟩
  rw [← hchildren q hlt, childPlaces, List.mem_filter] at hmem
  have hfather : fatherPlace (es.map Line.parsed) p = e.parent := by
    rw [hq]
    exact of_decide_eq_true hmem.2
  exact (fatherPlace_eq_parent_iff h he).mp hfather q hq

lemma node_eq_iff (te : TraceEntity) (father : ℤ) (cs cs' : List ℕ) :
    te.node father te.parsedInfo te.parsedFun cs = te.node father te.info te.fun_ cs' ↔
      te.parsedInfo = te.info ∧ te.parsedFun = te.fun_ ∧ cs = cs' := by
  constructor
  · intro h
    have hinfo := congrArg TraceLine.info h
    have hchildren := congrArg TraceLine.children h
    rw [node_info, node_info] at hinfo
    rw [node_children, node_children] at hchildren
    refine ⟨hinfo, ?_, hchildren⟩
    cases te with
    | use u => exact Option.some.inj (congrArg TraceLine.fun_ h)
    | _ => rfl
  · rintro ⟨hinfo, hfun, rfl⟩
    rw [hinfo, hfun]

lemma forest_parsed_iff {es : List Line} (h : Hangs none (-1) 0 es) :
    (forest (es.map Line.parsed) = es.mapIdx fun i e =>
      e.te.node e.father e.te.info e.te.fun_ (nestedPlaces es i)) ↔
      (∀ e ∈ es, e.te.parsedInfo = e.te.info ∧ e.te.parsedFun = e.te.fun_) ∧ NestedUnderFirst es := by
  have hnode : ∀ (i : ℕ) (e : Line), es[i]? = some e → (forest (es.map Line.parsed))[i]? =
      some (e.te.node e.father e.te.parsedInfo e.te.parsedFun
        (childPlaces (es.map Line.parsed) i)) := by
    intro i e he
    rw [Verifier.getElem?_forest, getElem?_parsed he, Option.map_some, Line.parsed,
      node_with_children]
  constructor
  · intro heq
    have heach : ∀ (i : ℕ) (e : Line), es[i]? = some e → e.te.parsedInfo = e.te.info ∧
        e.te.parsedFun = e.te.fun_ ∧ childPlaces (es.map Line.parsed) i = nestedPlaces es i := by
      intro i e he
      have hi := hnode i e he
      rw [heq, List.getElem?_mapIdx, he] at hi
      exact (node_eq_iff _ _ _ _).mp (Option.some.inj hi).symm
    constructor
    · intro e he
      obtain ⟨i, hi⟩ := List.mem_iff_getElem?.mp he
      exact ⟨(heach i e hi).1, (heach i e hi).2.1⟩
    · apply nestedUnderFirst_of_childPlaces h
      intro i hi
      exact (heach i _ (List.getElem?_eq_getElem hi)).2.2
  · rintro ⟨htexts, hfirst⟩
    apply List.ext_getElem?
    intro i
    cases he : es[i]? with
    | none =>
      rw [Verifier.getElem?_forest, List.getElem?_mapIdx, List.getElem?_map, he]
      rfl
    | some e =>
      obtain ⟨hinfo, hfun⟩ := htexts e (List.mem_of_getElem? he)
      rw [hnode i e he, List.getElem?_mapIdx, he, Option.map_some, hinfo, hfun,
        childPlaces_parsed h hfirst]

theorem roundTrip_iff (trace : List TraceEntity) :
    RoundTrip trace ↔ trace ≠ [] ∧ (∀ e ∈ exportedLines trace, Readable e.te) ∧
      NestedUnderFirst (exportedLines trace) := by
  have hangs := hangs_exportedLines trace
  constructor
  · rintro ⟨v, hv, hnodes, hroots⟩
    have hne : trace ≠ [] := by
      rintro rfl
      cases hv
    have hline : ∀ e ∈ exportedLines trace, '\n' ∉ e.te.fun_ := by
      intro e he hmem
      have hlt := traceParser_length hne hv ⟨e, he, hmem⟩
      rw [hnodes, List.length_mapIdx] at hlt
      exact lt_irrefl _ hlt
    obtain ⟨v', hv', hnodes', -⟩ := traceParser_exportTrace hne hline
    obtain rfl : v = v' := Option.some.inj (hv.symm.trans hv')
    obtain ⟨htexts, hfirst⟩ := (forest_parsed_iff hangs).mp (hnodes'.symm.trans hnodes)
    refine ⟨hne, ?_, hfirst⟩
    intro e he
    obtain ⟨hinfo, hspace⟩ := (parsedInfo_eq_iff e.te).mp (htexts e he).1
    exact ⟨hinfo, hspace, (parsedFun_eq_iff e.te).mp (htexts e he).2, hline e he⟩
  · rintro ⟨hne, hread, hfirst⟩
    obtain ⟨v, hv, hnodes, hroots⟩ := traceParser_exportTrace hne fun e he => (hread e he).2.2.2
    refine ⟨v, hv, ?_, hroots.trans (rootPlaces_parsed hangs)⟩
    rw [hnodes]
    apply (forest_parsed_iff hangs).mpr
    refine ⟨?_, hfirst⟩
    intro e he
    obtain ⟨hinfo, hspace, hfun, -⟩ := hread e he
    exact ⟨(parsedInfo_eq_iff e.te).mpr ⟨hinfo, hspace⟩, (parsedFun_eq_iff e.te).mpr hfun⟩

def storeToHeap : List TraceEntity :=
  let malloc : Text := ['m', 'a', 'l', 'l', 'o', 'c']
  let pointer : Def := .adef 1 ⟨4, ['p'], ⟨1, .alloca⟩, false⟩ ⟨1, .alloca⟩ 0 4
  let block : Def := .ddef 2 ⟨6, ['m'], ⟨2, .call malloc⟩, false⟩ ⟨2, .call malloc⟩ pointer
  [.input ⟨0, ['i'], ⟨3, .instruction⟩,
    [.defn block, .use ⟨.suse, 3, ['s'], ['f'], ⟨4, .instruction⟩, [block]⟩]⟩]

theorem ddef_exported_twice :
    (traceParser (exportTrace storeToHeap)).map (fun v => v.nodes.map TraceLine.children) =
      some [[1, 3], [2, 5], [], [4], [], []] ∧ ¬ RoundTrip storeToHeap := by
  have hparsed : (traceParser (exportTrace storeToHeap)).map
      (fun v => v.nodes.map TraceLine.children) = some [[1, 3], [2, 5], [], [4], [], []] := by
    decide +kernel
  refine ⟨hparsed, ?_⟩
  rintro ⟨v, hv, hnodes, -⟩
  rw [hv, Option.map_some, hnodes] at hparsed
  exact absurd hparsed (by decide +kernel)

end Embedwatch.Svf
