import Embedwatch.Svf.Visits

/-! The definition nodes of a node, and its first dominator, which is one of them. -/

namespace Embedwatch.Svf.Visits

open Relation Library.Reachability Library.Worklist

variable (pag : PAG)

def Fed (n m : PAGNode) : Prop :=
  ∃ e ∈ pag.inEdges n, pag.isDummy e.src = false ∧ e.kind ≠ .addr ∧ e.src = m

def AddrSource (n d : PAGNode) : Prop :=
  ∃ e ∈ pag.inEdges n, pag.isDummy e.src = false ∧ e.kind = .addr ∧ e.src = d

def fedSources (es : List PAGEdge) : List PAGNode :=
  (es.filter fun e => !pag.isDummy e.src && !decide (e.kind = .addr)).map PAGEdge.src

def addrSources (es : List PAGEdge) : List PAGNode :=
  (es.filter fun e => !pag.isDummy e.src && e.kind = .addr).map PAGEdge.src

def sources : Finset PAGNode := (pag.edges.map PAGEdge.src).toFinset

variable {pag} {start n d : PAGNode} {s : Search PAGNode}

lemma mem_sources {e : PAGEdge} (he : e ∈ pag.inEdges n) : e.src ∈ sources pag :=
  List.mem_toFinset.mpr (List.mem_map_of_mem (List.mem_filter.mp he).1)

lemma card_sources_le : (sources pag).card ≤ pag.edges.length := by
  have h := List.toFinset_card_le (pag.edges.map PAGEdge.src)
  rwa [List.length_map] at h

lemma mem_fedSources : d ∈ fedSources pag (pag.inEdges n) ↔ Fed pag n d := by
  simp [fedSources, Fed, and_assoc]

lemma mem_addrSources : d ∈ addrSources pag (pag.inEdges n) ↔ AddrSource pag n d := by
  simp [addrSources, AddrSource, and_assoc]

lemma selectDefEdges_eq (es : List PAGEdge) (w v r : List PAGNode) :
    selectDefEdges pag es ⟨w, v, r⟩ =
      ⟨(pushNew (fedSources pag es) ⟨w, v, []⟩).worklist,
        (pushNew (fedSources pag es) ⟨w, v, []⟩).visited,
        (addrSources pag es).foldl (fun ret d => ret.insert d) r⟩ := by
  induction es generalizing w v r with
  | nil => rfl
  | cons e es ih =>
    rw [selectDefEdges, fedSources, addrSources]
    by_cases hdummy : pag.isDummy e.src = true
    · rw [if_pos hdummy, ih, List.filter_cons_of_neg (by simp [hdummy]),
        List.filter_cons_of_neg (by simp [hdummy])]
      rfl
    · rw [if_neg hdummy]
      by_cases hkind : e.kind = .addr
      · rw [if_pos hkind, ih, List.filter_cons_of_neg (by simp [hkind]),
          List.filter_cons_of_pos (by simp [hdummy, hkind])]
        rfl
      · rw [if_neg hkind, List.filter_cons_of_pos (by simp [hdummy, hkind]),
          List.filter_cons_of_neg (by simp [hkind]), List.map_cons, pushNew]
        split
        · exact ih w v r
        · exact ih (e.src :: w) (e.src :: v) r

lemma mem_foldl_insert {l r : List PAGNode} :
    d ∈ l.foldl (fun ret d => ret.insert d) r ↔ d ∈ r ∨ d ∈ l := by
  induction l generalizing r with
  | nil => simp
  | cons x l ih =>
    rw [List.foldl_cons, ih, List.mem_insert_iff, List.mem_cons]
    tauto

lemma nodup_foldl_insert {l r : List PAGNode} (h : r.Nodup) :
    (l.foldl (fun ret d => ret.insert d) r).Nodup := by
  induction l generalizing r with
  | nil => exact h
  | cons x l ih => exact ih h.insert

structure Collected (pag : PAG) (start : PAGNode) (s : Search PAGNode)
    (processed : List PAGNode) : Prop where
  searched : Searched (Fed pag) start processed s.worklist
  marked : ∀ x ∈ s.visited, x ∈ processed ∨ x ∈ s.worklist
  nodup : s.ret.Nodup
  ret : ∀ d, d ∈ s.ret ↔ ∃ n ∈ processed, AddrSource pag n d

lemma selectDefs_spec (c : PAGNode) (w v r : List PAGNode) :
    ∃ new, selectDefs pag c ⟨w, v, r⟩ =
        ⟨new ++ w, c :: (new ++ v),
          (addrSources pag (pag.inEdges c)).foldl (fun ret d => ret.insert d) r⟩ ∧
      new.Nodup ∧ (∀ x ∈ new, Fed pag c x ∧ x ∉ v) ∧ ∀ x, Fed pag c x → x ∈ new ∨ x ∈ v := by
  obtain ⟨new, heq, hnodup, hnew, hall⟩ := pushNew_spec (fedSources pag (pag.inEdges c)) ⟨w, v, []⟩
  refine ⟨new, ?_, hnodup, fun x hx => ?_, fun x hx => hall x (mem_fedSources.mpr hx)⟩
  · rw [selectDefs, selectDefEdges_eq, heq]
  · exact ⟨mem_fedSources.mp (hnew x hx).1, (hnew x hx).2⟩

lemma Collected.init : Collected pag start ⟨[start], [], []⟩ [] where
  searched := Searched.init
  marked := by simp
  nodup := List.nodup_nil
  ret := by simp

lemma Collected.select {c : PAGNode} {w v r processed : List PAGNode}
    (h : Collected pag start ⟨c :: w, v, r⟩ processed) :
    Collected pag start (selectDefs pag c ⟨w, v, r⟩) (c :: processed) := by
  obtain ⟨new, heq, -, hnew, hall⟩ := selectDefs_spec c w v r
  rw [heq]
  constructor
  · apply h.searched.expand (fun x => List.mem_cons)
    · intro x hx
      rcases List.mem_append.mp hx with hx | hx
      · exact Or.inr (hnew x hx).1
      · exact Or.inl hx
    · exact fun x hx => List.mem_append_right new hx
    · intro y hy
      rcases hall y hy with hpushed | hmark
      · exact Or.inr (List.mem_append_left w hpushed)
      · rcases h.marked y hmark with hy | hy
        · exact Or.inl (List.mem_cons_of_mem c hy)
        · rcases List.mem_cons.mp hy with rfl | hy
          · exact Or.inl List.mem_cons_self
          · exact Or.inr (List.mem_append_right new hy)
  · intro x hx
    rcases List.mem_cons.mp hx with rfl | hx
    · exact Or.inl List.mem_cons_self
    · rcases List.mem_append.mp hx with hx | hx
      · exact Or.inr (List.mem_append_left w hx)
      · rcases h.marked x hx with hx | hx
        · exact Or.inl (List.mem_cons_of_mem c hx)
        · rcases List.mem_cons.mp hx with rfl | hx
          · exact Or.inl List.mem_cons_self
          · exact Or.inr (List.mem_append_right new hx)
  · exact nodup_foldl_insert h.nodup
  · intro d
    rw [mem_foldl_insert, mem_addrSources, h.ret]
    constructor
    · rintro (⟨n, hn, hd⟩ | hd)
      · exact ⟨n, List.mem_cons_of_mem c hn, hd⟩
      · exact ⟨c, List.mem_cons_self, hd⟩
    · rintro ⟨n, hn, hd⟩
      rcases List.mem_cons.mp hn with rfl | hn
      · exact Or.inr hd
      · exact Or.inl ⟨n, hn, hd⟩

lemma selectDefs_smaller (c : PAGNode) (w v r : List PAGNode) :
    unmarked (sources pag) (selectDefs pag c ⟨w, v, r⟩).visited +
        (selectDefs pag c ⟨w, v, r⟩).worklist.length <
      unmarked (sources pag) v + (c :: w).length := by
  obtain ⟨new, heq, hnodup, hnew, -⟩ := selectDefs_spec c w v r
  have hsources : ∀ x ∈ new, x ∈ sources pag := by
    intro x hx
    obtain ⟨e, he, -, -, rfl⟩ := (hnew x hx).1
    exact mem_sources he
  have hpushed := unmarked_append hsources hnodup fun x hx => (hnew x hx).2
  have hcurrent : unmarked (sources pag) (c :: (new ++ v)) ≤ unmarked (sources pag) (new ++ v) :=
    unmarked_anti fun x hx => List.mem_cons_of_mem c hx
  rw [heq]
  simp only [List.length_append, List.length_cons]
  omega

lemma getDefNodes_ends {rounds : ℕ} (h : pag.edges.length < rounds) :
    ∃ ds, getDefNodes pag rounds start = some ds := by
  apply run_of_measure (fun _ => True)
    (fun s => unmarked (sources pag) s.visited + s.worklist.length)
  · exact fun _ _ _ _ _ => trivial
  · exact fun c w v r _ => selectDefs_smaller c w v r
  · trivial
  · have hall : unmarked (sources pag) [] ≤ (sources pag).card := Finset.card_filter_le _ _
    have hcard := @card_sources_le pag
    change unmarked (sources pag) [] + 1 ≤ rounds
    omega

lemma getDefNodes_spec {rounds : ℕ} {ds : List PAGNode}
    (h : getDefNodes pag rounds start = some ds) :
    ds.Nodup ∧ ∀ d, d ∈ ds ↔ ∃ n, ReflTransGen (Fed pag) start n ∧ AddrSource pag n d := by
  obtain ⟨visited, processed, hend⟩ :=
    run_invariant (fun s => ∃ processed, Collected pag start s processed)
      (fun c w v r ⟨processed, hs⟩ => ⟨c :: processed, hs.select⟩) ⟨[], Collected.init⟩ h
  refine ⟨hend.nodup, fun d => ?_⟩
  rw [hend.ret]
  simp only [hend.searched.done]

theorem getDefNodes_exact (pag : PAG) (start : PAGNode) :
    ∃ ds, (∀ rounds > pag.edges.length, getDefNodes pag rounds start = some ds) ∧ ds.Nodup ∧
      ∀ d, d ∈ ds ↔ ∃ n, ReflTransGen (Fed pag) start n ∧ AddrSource pag n d := by
  obtain ⟨ds, hds⟩ := @getDefNodes_ends pag start _ pag.edges.length.lt_succ_self
  refine ⟨ds, fun rounds hrounds => run_mono hds hrounds, getDefNodes_spec hds⟩

lemma hitAmong_eq_some {es : List PAGEdge} {kind : EdgeKind} {far : PAGEdge → PAGNode}
    (h : hitAmong pag kind far es = some d) :
    ∃ e ∈ es, pag.isDummy e.src = false ∧ e.kind = kind ∧ far e = d := by
  obtain ⟨e, he, rfl⟩ := Option.map_eq_some_iff.mp h
  have hcond := List.find?_some he
  simp only [Bool.and_eq_true, Bool.not_eq_true', decide_eq_true_eq] at hcond
  exact ⟨e, List.mem_of_find?_eq_some he, hcond.1, hcond.2, rfl⟩

lemma kind_ne_of_hitAmong {es : List PAGEdge} {kind : EdgeKind} {far : PAGEdge → PAGNode}
    (h : hitAmong pag kind far es = none) {e : PAGEdge} (he : e ∈ es)
    (hdummy : pag.isDummy e.src = false) : e.kind ≠ kind := by
  have hcond := List.find?_eq_none.mp (Option.map_eq_none_iff.mp h) e he
  intro hkind
  exact hcond (by simp [hdummy, hkind])

theorem findFirstDominator_among_getDefNodes {pag : PAG} {start : PAGNode} {rounds : ℕ}
    {found : Option PAGNode} (h : findFirstDominator pag rounds start = some found) :
    ∃ ds, (∀ rounds > pag.edges.length, getDefNodes pag rounds start = some ds) ∧
      (found = none ↔ ds = []) ∧ ∀ d, found = some d → d ∈ ds := by
  obtain ⟨ds, hds⟩ := @getDefNodes_ends pag start _ pag.edges.length.lt_succ_self
  refine ⟨ds, fun rounds hrounds => run_mono hds hrounds, ?_⟩
  obtain ⟨ret, hret, rfl⟩ := Option.map_eq_some_iff.mp h
  rw [visitAndSelectPagNodes, selectFirstDominator_eq] at hret
  have hmem := (getDefNodes_spec hds).2
  rcases run_first hret with ⟨x, hx, y, d, hxy, hy, rfl⟩ | ⟨rfl, hnone⟩
  · obtain rfl := List.mem_singleton.mp hx
    obtain ⟨e, he, hdummy, hkind, hd⟩ := hitAmong_eq_some hy
    have hfed : ReflTransGen (Fed pag) x y := by
      refine ReflTransGen.mono ?_ x y hxy
      rintro a b ⟨hmiss, hb⟩
      obtain ⟨e, he, hdummy, hsrc⟩ := mem_followed.mp hb
      exact ⟨e, he, hdummy, kind_ne_of_hitAmong hmiss he hdummy, hsrc⟩
    have hds : d ∈ ds := (hmem d).mpr ⟨y, hfed, e, he, hdummy, hkind, hd⟩
    refine ⟨⟨?_, ?_⟩, ?_⟩
    · intro hnone
      cases hnone
    · rintro rfl
      cases hds
    · intro d' hd'
      obtain rfl := Option.some.inj hd'
      exact hds
  · refine ⟨⟨fun _ => ?_, fun _ => rfl⟩, fun d hd => by cases hd⟩
    rw [List.eq_nil_iff_forall_not_mem]
    intro d hd
    obtain ⟨n, hn, e, he, hdummy, hkind, -⟩ := (hmem d).mp hd
    have hreach : ReflTransGen (fun a b => b ∈ followed pag PAGEdge.src (pag.inEdges a)) start n := by
      refine ReflTransGen.mono ?_ start n hn
      rintro a b ⟨e, he, hdummy, -, hsrc⟩
      exact mem_followed.mpr ⟨e, he, hdummy, hsrc⟩
    have hmiss := hnone start (List.mem_singleton_self start) n hreach
    exact kind_ne_of_hitAmong hmiss he hdummy hkind

theorem findFirstDominator_of_loading :
    findFirstDominator (PAG.loading PAG.mainFun) 2 (PAG.nodeOf ⟨3, .instruction⟩) =
        some (some PAG.objectNode) ∧
      ∃ ds, (∀ rounds > (PAG.loading PAG.mainFun).edges.length,
          getDefNodes (PAG.loading PAG.mainFun) rounds (PAG.nodeOf ⟨3, .instruction⟩) = some ds) ∧
        (some PAG.objectNode = none ↔ ds = []) ∧ ∀ d, some PAG.objectNode = some d → d ∈ ds := by
  have hfound : findFirstDominator (PAG.loading PAG.mainFun) 2 (PAG.nodeOf ⟨3, .instruction⟩) =
      some (some PAG.objectNode) := by decide
  exact ⟨hfound, findFirstDominator_among_getDefNodes hfound⟩

end Embedwatch.Svf.Visits
