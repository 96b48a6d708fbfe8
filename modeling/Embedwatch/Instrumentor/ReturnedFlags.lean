import Embedwatch.Instrumentor.Erasure
import Embedwatch.Pass.RecursionTracker

/-! What the passes return: whether they have changed the module. In `FunctionInstrumentor` the loop
that clones functions assigns to a variable of its own, in `RecursionTracker` the global variable is
added before the first assignment. -/

namespace Embedwatch.Instrumentor

open Library.PlainText Library.Replacement Library.Lookup Ir

def callsCreated (m : Module) (instrumented : List (Text × ℕ)) : Bool :=
  !(funcalls m instrumented).isEmpty

/-- The pass with so many rounds of its first loop: the module it leaves, and what it returns. -/
def runReturning (r : Renaming) (order : List (ℕ × Inst) → List (ℕ × Inst)) (fuel : ℕ) (m : Module) :
    Option (Module × Bool) := do
  -- the `res` that the first loop assigns to is declared in the loop
  let res := false
  let s ← visitFrom r fuel 0 (initialRun m)
  let m' ← (eraseOrder s).foldlM removeFunction (instrumentCalls s.module s.instrumented order)
  some (m', res || callsCreated s.module s.instrumented)

def cloneable : List Text → List Function → List Function
  | _, [] => []
  | blacklist, f :: fs =>
    if f.body = none then cloneable blacklist fs
    else if f.pointerParams = [] ∨ f.name ∈ blacklist then cloneable (blacklist ++ [f.name]) fs
    else f :: cloneable (blacklist ++ [f.name ++ instrumentedSuffix]) fs

def originals (m : Module) : List Function := cloneable initialBlacklist m.functions

def CallsOriginal (m : Module) : Prop :=
  ∃ i ∈ m.code, ∃ f ∈ originals m, i.op = .call (some f.ref) ∧
    f.name ++ instrumentedSuffix ∉ m.globals

def Differs (m m' : Module) : Prop := m'.globals ≠ m.globals ∨ m'.functions ≠ m.functions

variable {r : Renaming} {order : List (ℕ × Inst) → List (ℕ × Inst)} {m m' : Module} {s s' t : Run}
  {f : Function} {fs : List Function} {k fuel : ℕ} {res : Bool}

lemma exists_visited (hwf : m.WellFormed) (h : runReturning r order fuel m = some (m', res)) :
    ∃ s, visitFrom r fuel 0 (initialRun m) = some s ∧
      (keys s).foldlM removeFunction (instrumentCalls s.module s.instrumented order) = some m' ∧
      res = callsCreated s.module s.instrumented := by
  obtain ⟨s, hs, h⟩ := Option.bind_eq_some_iff.mp h
  obtain ⟨m₁, hm₁, h⟩ := Option.bind_eq_some_iff.mp h
  cases h
  obtain ⟨hswf, hkeyed⟩ := visited hwf hs
  rw [foldlM_eraseOrder hswf hkeyed] at hm₁
  exact ⟨s, hs, hm₁, Bool.false_or _⟩

lemma runOnModule_of_runReturning (hwf : m.WellFormed)
    (h : runReturning r order fuel m = some (m', res)) :
    ∃ clones, runOnModule r order fuel m = some (m', clones) := by
  obtain ⟨s, hs, hm', -⟩ := exists_visited hwf h
  refine ⟨s.clones, ?_⟩
  have hs' : visitFrom r fuel 0 ⟨m, initialBlacklist, [], []⟩ = some s := hs
  have hm₁ : (s.instrumented.map Prod.fst).foldlM removeFunction
    (instrumentCalls s.module s.instrumented order) = some m' := hm'
  simp [runOnModule, hs', hm₁]

lemma mem_keys_insertEntry (entries : List (Text × ℕ)) (name n : Text) (count : ℕ) :
    n ∈ (insertEntry entries name count).map Prod.fst ↔ n ∈ entries.map Prod.fst ∨ n = name := by
  rw [insertEntry]
  split
  · next hmem =>
    refine ⟨Or.inl, ?_⟩
    rintro (hn | rfl)
    · exact hn
    · exact hmem
  · rw [List.map_append, List.mem_append, List.map_singleton, List.mem_singleton]

structure Passed (fs : List Function) (s t : Run) : Prop where
  extended : Extends s t
  keys : ∀ n, n ∈ keys t ↔ n ∈ keys s ∨ n ∈ (cloneable s.blacklist fs).map Function.name
  symbols : ∀ f ∈ cloneable s.blacklist fs, f.name ++ instrumentedSuffix ∈ t.module.symbols
  untouched : cloneable s.blacklist fs = [] → t.module = s.module

lemma symbols_of_extends (h : Extends s t) {n : Text} (hn : n ∈ s.module.symbols) :
    n ∈ t.module.symbols := by
  obtain ⟨rest, hrest⟩ := h.functions
  rw [Module.symbols, List.mem_append] at hn ⊢
  rw [h.globals, ← hrest, List.map_append, List.mem_append]
  exact hn.imp_right Or.inl

lemma Passed.cons_of_none (hbody : f.body = none) (h : Passed fs s t) : Passed (f :: fs) s t where
  extended := h.extended
  keys n := by
    rw [cloneable, if_pos hbody]
    exact h.keys n
  symbols g hg := by
    rw [cloneable, if_pos hbody] at hg
    exact h.symbols g hg
  untouched hnil := by
    rw [cloneable, if_pos hbody] at hnil
    exact h.untouched hnil

lemma Passed.cons_of_skip (hbody : f.body ≠ none) (hskip : f.pointerParams = [] ∨ f.name ∈ s.blacklist)
    (h : Passed fs (visit r s f) t) : Passed (f :: fs) s t := by
  have hcloneable : cloneable s.blacklist (f :: fs) = cloneable (s.blacklist ++ [f.name]) fs := by
    rw [cloneable, if_neg hbody, if_pos hskip]
  have hextends := visit_extends r s f
  rw [visit_of_skip hbody hskip] at h hextends
  refine ⟨hextends.trans h.extended, fun n => ?_, fun g hg => ?_, fun hnil => ?_⟩
  · rw [hcloneable]
    exact h.keys n
  · rw [hcloneable] at hg
    exact h.symbols g hg
  · rw [hcloneable] at hnil
    exact h.untouched hnil

lemma Passed.cons_of_clone (hbody : f.body ≠ none)
    (hclone : ¬ (f.pointerParams = [] ∨ f.name ∈ s.blacklist))
    (h : Passed fs (visit r s f) t) : Passed (f :: fs) s t := by
  have hcloneable : cloneable s.blacklist (f :: fs) =
      f :: cloneable (s.blacklist ++ [f.name ++ instrumentedSuffix]) fs := by
    rw [cloneable, if_neg hbody, if_neg hclone]
  have hextends := visit_extends r s f
  rw [visit_of_clone hbody hclone] at h hextends
  refine ⟨hextends.trans h.extended, fun n => ?_, fun g hg => ?_, fun hnil => ?_⟩
  · have hentry := mem_keys_insertEntry s.instrumented f.name n f.pointerParams.length
    rw [h.keys n, hcloneable, List.map_cons, List.mem_cons, ← or_assoc]
    exact or_congr hentry Iff.rfl
  · rw [hcloneable] at hg
    rcases List.mem_cons.mp hg with rfl | hg
    · apply symbols_of_extends h.extended
      rw [symbols_addClone, List.mem_append, List.mem_singleton, cloneOf]
      -- the clone has the name, or a symbol had it
      by_cases htaken : g.name ++ instrumentedSuffix ∈ s.module.symbols
      · exact Or.inl htaken
      · exact Or.inr (if_neg htaken).symm
    · exact h.symbols g hg
  · rw [hcloneable] at hnil
    cases hnil

lemma Passed.cons (h : Passed fs (visit r s f) t) : Passed (f :: fs) s t := by
  by_cases hbody : f.body = none
  · rw [visit_of_none hbody] at h
    exact h.cons_of_none hbody
  · by_cases hskip : f.pointerParams = [] ∨ f.name ∈ s.blacklist
    · exact h.cons_of_skip hbody hskip
    · exact h.cons_of_clone hbody hskip

lemma passed (r : Renaming) (fs : List Function) (hgrown : Grown m k s)
    (hfs : m.functions.drop k = fs) : ∃ t, Grown m (k + fs.length) t ∧ Passed fs s t ∧
      ∀ fuel, visitFrom r (fs.length + fuel) k s = visitFrom r fuel (k + fs.length) t := by
  induction fs generalizing k s with
  | nil =>
    refine ⟨s, hgrown, ⟨Extends.refl s, fun n => ?_, fun f hf => absurd hf List.not_mem_nil,
      fun _ => rfl⟩, fun fuel => ?_⟩
    · simp [cloneable]
    · rw [List.length_nil, Nat.zero_add, Nat.add_zero]
  | cons f fs ih =>
    have hf : m.functions[k]? = some f := by
      rw [← List.head?_drop, hfs, List.head?_cons]
    have hself := getElem?_of_extends hgrown.functions hf
    have hdrop : m.functions.drop (k + 1) = fs := by
      rw [← List.tail_drop, hfs, List.tail_cons]
    obtain ⟨t, hgrown', hpassed, hruns⟩ := ih (hgrown.visit (r := r) hself) hdrop
    have hk : k + (f :: fs).length = k + 1 + fs.length := by
      rw [List.length_cons]
      omega
    refine ⟨t, hk ▸ hgrown', hpassed.cons, fun fuel => ?_⟩
    rw [hk, ← hruns fuel, List.length_cons, Nat.add_right_comm, visitFrom_some hself]

def SameOps (is js : List Inst) : Prop := ∀ i ∈ is, ∃ j ∈ js, j.op = i.op

lemma sameOps_shift (d : ℕ) (code : List Inst) : SameOps code (code.map (Inst.shift d)) :=
  fun i hi => ⟨i.shift d, List.mem_map_of_mem hi, rfl⟩

lemma shift_sameOps (d : ℕ) (code : List Inst) : SameOps (code.map (Inst.shift d)) code := by
  intro j hj
  obtain ⟨i, hi, rfl⟩ := List.mem_map.mp hj
  exact ⟨i, hi, rfl⟩

structure Copies (m : Module) (s : Run) : Prop where
  old : SameOps s.module.code m.code
  later : ∀ n ∈ keys s, ∃ (a b : ℕ) (f c : Function), a < b ∧ s.module.functions[a]? = some f ∧
    f.name = n ∧ s.module.functions[b]? = some c ∧ SameOps f.code c.code

lemma Copies.start : Copies m (initialRun m) where
  old i hi := ⟨i, hi, rfl⟩
  later _ hn := absurd hn List.not_mem_nil

lemma Copies.visit (h : Copies m s) (hf : s.module.functions[k]? = some f) :
    Copies m (visit r s f) := by
  have hlt := (List.getElem?_eq_some_iff.mp hf).1
  rcases visit_cases r s f with hv | hv | hv
  · rw [hv]
    exact h
  · rw [hv]
    exact ⟨h.old, h.later⟩
  · have hextends := visit_extends r s f
    rw [hv] at hextends ⊢
    refine ⟨?_, fun n hn => ?_⟩
    · intro i hi
      rw [code_addClone] at hi
      rcases List.mem_append.mp hi with hi | hi
      · exact h.old i hi
      · obtain ⟨j, hj, hop⟩ := shift_sameOps s.module.next f.code i hi
        obtain ⟨j', hj', hop'⟩ := h.old j (mem_code_of_mem (List.mem_of_getElem? hf) hj)
        exact ⟨j', hj', hop'.trans hop⟩
    · rcases (mem_keys_insertEntry s.instrumented f.name n f.pointerParams.length).mp hn with hn | rfl
      · obtain ⟨a, b, g, c, hab, hg, hname, hc, hops⟩ := h.later n hn
        exact ⟨a, b, g, c, hab, getElem?_of_extends hextends.functions hg, hname,
          getElem?_of_extends hextends.functions hc, hops⟩
      · have hclone : (addClone r s.module f).functions[s.module.functions.length]? =
            some (cloneOf r s.module f) := by
          rw [addClone, List.getElem?_append_right le_rfl, Nat.sub_self]
          rfl
        have hcode : (cloneOf r s.module f).code = f.code.map (Inst.shift s.module.next) := by
          rw [Function.code, Function.code, cloneOf]
          cases f.body <;> rfl
        refine ⟨k, _, f, _, hlt, getElem?_of_extends hextends.functions hf, rfl, hclone, ?_⟩
        rw [hcode]
        exact sameOps_shift s.module.next f.code

lemma copies (h : visitFrom r fuel 0 (initialRun m) = some s) : Copies m s := by
  have hvisit : ∀ (k : ℕ) s f, Copies m s → s.module.functions[k]? = some f → Copies m (visit r s f) :=
    fun k s f hcopies hf => hcopies.visit hf
  obtain ⟨_, hcopies⟩ := visitFrom_invariant (fun _ s => Copies m s) hvisit Copies.start h
  exact hcopies

lemma Copies.exists_searched (h : Copies m s) (hwf : s.module.WellFormed) (hnamed : [] ∉ keys s)
    {i : Inst} (hf : s.module.functions[k]? = some f) (hi : i ∈ f.code) :
    ∃ j ∈ searched s.module s.instrumented, j.op = i.op := by
  -- the clones are behind what they are clones of
  generalize hrest : s.module.functions.length - k = rest
  induction rest using Nat.strong_induction_on generalizing k f i with
  | _ rest ih =>
    by_cases hkey : f.name ∈ keys s
    · obtain ⟨a, b, g, c, hab, hg, hname, hc, hops⟩ := h.later f.name hkey
      have hne : f.name ≠ [] := fun hnil => hnamed (hnil ▸ hkey)
      have hak : a = k := name_injective hwf hg hf hname hne
      subst hak
      obtain rfl : g = f := Option.some.inj (hg.symm.trans hf)
      obtain ⟨i', hi', hop⟩ := hops i hi
      have hlt := (List.getElem?_eq_some_iff.mp hc).1
      obtain ⟨j, hj, hop'⟩ := ih (s.module.functions.length - b) (by omega) hc hi' rfl
      exact ⟨j, hj, hop'.trans hop⟩
    · refine ⟨i, ?_, rfl⟩
      rw [searched, List.mem_flatMap]
      exact ⟨f, List.mem_filter.mpr ⟨List.mem_of_getElem? hf, decide_eq_true hkey⟩, hi⟩

lemma mem_of_cloneable {b : List Text} (h : f ∈ cloneable b fs) : f ∈ fs := by
  induction fs generalizing b with
  | nil => cases h
  | cons g fs ih =>
    rw [cloneable] at h
    split at h
    · exact List.mem_cons_of_mem g (ih h)
    · split at h
      · exact List.mem_cons_of_mem g (ih h)
      · rcases List.mem_cons.mp h with rfl | h
        · exact List.mem_cons_self
        · exact List.mem_cons_of_mem g (ih h)

lemma exists_passed (hwf : m.WellFormed) (h : visitFrom r fuel 0 (initialRun m) = some s) :
    ∃ t, Grown m m.functions.length t ∧ Passed m.functions (initialRun m) t ∧
      visitFrom r fuel m.functions.length t = some s := by
  obtain ⟨t, hgrown, hpassed, hruns⟩ := passed r m.functions (Cloned.start hwf).grown List.drop_zero
  rw [Nat.zero_add] at hgrown hruns
  refine ⟨t, hgrown, hpassed, ?_⟩
  rw [← hruns]
  exact visitFrom_add h m.functions.length

lemma keys_of_rest (h : visitFrom r fuel k t = some s) :
    ∀ n ∈ keys s, n ∈ keys t ∨ ∃ j ≥ k, ∃ c, s.module.functions[j]? = some c ∧ c.name = n := by
  have hvisit : ∀ (i : ℕ) u f, (k ≤ i ∧ ∀ n ∈ keys u, n ∈ keys t ∨
        ∃ j ≥ k, ∃ c, u.module.functions[j]? = some c ∧ c.name = n) →
      u.module.functions[i]? = some f → (k ≤ i + 1 ∧ ∀ n ∈ keys (visit r u f), n ∈ keys t ∨
        ∃ j ≥ k, ∃ c, (visit r u f).module.functions[j]? = some c ∧ c.name = n) := by
    rintro i u f ⟨hki, hold⟩ hf
    refine ⟨Nat.le_succ_of_le hki, fun n hn => ?_⟩
    have hfunctions := (visit_extends r u f).functions
    have hnew : n ∈ keys u ∨ n = f.name := by
      rcases visit_cases r u f with hv | hv | hv <;> rw [hv] at hn
      · exact Or.inl hn
      · exact Or.inl hn
      · exact (mem_keys_insertEntry _ _ _ _).mp hn
    rcases hnew with hn | rfl
    · rcases hold n hn with hn | ⟨j, hj, c, hc, hname⟩
      · exact Or.inl hn
      · exact Or.inr ⟨j, hj, c, getElem?_of_extends hfunctions hc, hname⟩
    · exact Or.inr ⟨i, hki, f, getElem?_of_extends hfunctions hf, rfl⟩
  obtain ⟨_, -, hkeys⟩ := visitFrom_invariant _ hvisit ⟨le_rfl, fun n hn => Or.inl hn⟩ h
  exact hkeys

structure Visited (m : Module) (s : Run) : Prop where
  wellFormed : s.module.WellFormed
  keyed : Keyed s
  copies : Copies m s
  functions : m.functions <+: s.module.functions
  globals : s.module.globals = m.globals
  keys : ∀ f ∈ m.functions, f.name ∈ keys s ↔ f ∈ originals m
  symbols : ∀ f ∈ originals m, f.name ++ instrumentedSuffix ∈ s.module.symbols

lemma visited_of_run (hwf : m.WellFormed) (h : visitFrom r fuel 0 (initialRun m) = some s)
    (hnamed : [] ∉ keys s) : Visited m s := by
  obtain ⟨hswf, hkeyed⟩ := visited hwf h
  obtain ⟨t, hgrown, hpassed, hrest⟩ := exists_passed hwf h
  have hextends := visitFrom_extends hrest
  have hfunctions := hgrown.functions.trans hextends.functions
  refine ⟨hswf, hkeyed, copies h, hfunctions, hextends.globals.trans hgrown.globals, ?_, ?_⟩
  · intro f hf
    constructor
    · intro hkey
      have hne : f.name ≠ [] := fun hnil => hnamed (hnil ▸ hkey)
      rcases keys_of_rest hrest f.name hkey with hkey | ⟨j, hj, c, hc, hname⟩
      · have hnil : f.name ∉ keys (initialRun m) := List.not_mem_nil
        obtain ⟨g, hg, hname⟩ := List.mem_map.mp (((hpassed.keys f.name).mp hkey).resolve_left hnil)
        rw [← name_inj hwf hf (mem_of_cloneable hg) hname hne]
        exact hg
      · obtain ⟨i, hi⟩ := List.getElem?_of_mem hf
        have hlt := (List.getElem?_eq_some_iff.mp hi).1
        have hsame := name_injective hswf hc (getElem?_of_extends hfunctions hi) hname hne
        omega
    · intro horiginal
      have hkey : f.name ∈ keys t :=
        (hpassed.keys f.name).mpr (Or.inr (List.mem_map_of_mem horiginal))
      exact List.map_subset Prod.fst hextends.instrumented hkey
  · exact fun f hf => symbols_of_extends hextends (hpassed.symbols f hf)

lemma callsCreated_iff (m : Module) (instrumented : List (Text × ℕ)) :
    callsCreated m instrumented = true ↔
      ∃ i ∈ searched m instrumented, redirect m instrumented i ≠ none := by
  rw [callsCreated, Bool.not_eq_true', List.isEmpty_eq_false_iff, funcalls, ne_eq,
    List.map_eq_nil_iff, List.zipIdx_eq_nil_iff, List.filterMap_eq_nil_iff]
  push Not
  apply exists_congr
  intro i
  apply and_congr_right
  intro _
  rw [ne_eq, Option.map_eq_none_iff]

lemma redirect_ne_none_iff {instrumented : List (Text × ℕ)} {i : Inst} (hwf : m.WellFormed) :
    redirect m instrumented i ≠ none ↔ ∃ f ∈ m.functions, i.op = .call (some f.ref) ∧
      f.name ∈ instrumented.map Prod.fst ∧ m.getFunction (f.name ++ instrumentedSuffix) ≠ none := by
  constructor
  · intro hne
    obtain ⟨call, hcall⟩ := Option.ne_none_iff_exists'.mp hne
    rw [redirect] at hcall
    split at hcall
    · next callee hop =>
      obtain ⟨f, hf, hcall⟩ := Option.bind_eq_some_iff.mp hcall
      obtain ⟨entry, hentry, hcall⟩ := Option.bind_eq_some_iff.mp hcall
      obtain ⟨clone, hclone, -⟩ := Option.bind_eq_some_iff.mp hcall
      have href : f.ref = callee := by simpa using List.find?_some hf
      have hname : entry.1 = f.name := by simpa using List.find?_some hentry
      refine ⟨f, List.mem_of_find?_eq_some hf, by rw [hop, href], ?_, by simp [hclone]⟩
      rw [← hname]
      exact List.mem_map_of_mem (List.mem_of_find?_eq_some hentry)
    · cases hcall
    · cases hcall
  · rintro ⟨f, hf, hop, hkey, hclone⟩
    obtain ⟨clone, hclone⟩ := Option.ne_none_iff_exists'.mp hclone
    have hfind : (m.functions.find? fun g => g.ref = f.ref) = some f := by
      apply find?_of_unique hf (decide_eq_true rfl)
      intro g hg href
      exact ref_inj hwf hf hg (of_decide_eq_true href)
    obtain ⟨entry, hentry⟩ : ∃ entry,
        (instrumented.find? fun entry => entry.1 = f.name) = some entry := by
      rw [← Option.isSome_iff_exists, List.find?_isSome]
      obtain ⟨entry, hentry, hname⟩ := List.mem_map.mp hkey
      exact ⟨entry, hentry, decide_eq_true hname⟩
    simp [redirect, hop, hfind, hentry, hclone]

lemma getFunction_ne_none_iff {n : Text} (hwf : m.WellFormed) (hne : n ≠ []) (hn : n ∈ m.symbols) :
    m.getFunction n ≠ none ↔ n ∉ m.globals := by
  rw [Module.getFunction, if_neg hne, ne_eq, List.find?_eq_none]
  push Not
  constructor
  · rintro ⟨f, hf, hname⟩ hglobal
    have hname : f.name = n := of_decide_eq_true hname
    have hnodup := hwf.names
    rw [Module.symbols, List.filter_append, List.nodup_append] at hnodup
    have hleft : n ∈ m.globals.filter (· ≠ []) := List.mem_filter.mpr ⟨hglobal, decide_eq_true hne⟩
    have hright : n ∈ (m.functions.map Function.name).filter (· ≠ []) :=
      List.mem_filter.mpr ⟨List.mem_map.mpr ⟨f, hf, hname⟩, decide_eq_true hne⟩
    exact hnodup.2.2 n hleft n hright rfl
  · intro hglobal
    obtain ⟨f, hf, hname⟩ := List.mem_map.mp ((List.mem_append.mp hn).resolve_left hglobal)
    exact ⟨f, hf, decide_eq_true hname⟩

namespace Visited

variable (v : Visited m s)

include v

lemma getFunction_suffix (hf : f ∈ originals m) :
    s.module.getFunction (f.name ++ instrumentedSuffix) ≠ none ↔
      f.name ++ instrumentedSuffix ∉ m.globals := by
  have hne : f.name ++ instrumentedSuffix ≠ [] := by
    intro hnil
    have hsuffix := (List.append_eq_nil_iff.mp hnil).2
    cases hsuffix
  rw [getFunction_ne_none_iff v.wellFormed hne (v.symbols f hf), v.globals]

lemma callsCreated_iff (hwf : m.WellFormed) (hnamed : [] ∉ Instrumentor.keys s) :
    callsCreated s.module s.instrumented = true ↔ CallsOriginal m := by
  rw [Instrumentor.callsCreated_iff]
  constructor
  · rintro ⟨i, hi, hredirect⟩
    obtain ⟨f, hf, hop, hkey, hclone⟩ := (redirect_ne_none_iff v.wellFormed).mp hredirect
    obtain ⟨j, hj, hjop⟩ := v.copies.old i ((searched_sublist _ _).subset hi)
    obtain ⟨g, hg, href, -⟩ := hwf.typed j hj f.ref (hjop.trans hop)
    have hsame : g = f := ref_inj v.wellFormed hf (v.functions.subset hg) href
    subst hsame
    have horiginal := (v.keys g hg).mp hkey
    exact ⟨j, hj, g, horiginal, hjop.trans hop, (v.getFunction_suffix horiginal).mp hclone⟩
  · rintro ⟨j, hj, f, hf, hop, hglobal⟩
    obtain ⟨g, hg, hjg⟩ := List.mem_flatMap.mp hj
    obtain ⟨k, hk⟩ := List.getElem?_of_mem (v.functions.subset hg)
    obtain ⟨i, hi, hiop⟩ := v.copies.exists_searched v.wellFormed hnamed hk hjg
    have hfm := mem_of_cloneable hf
    refine ⟨i, hi, (redirect_ne_none_iff v.wellFormed).mpr ⟨f, v.functions.subset hfm, ?_, ?_, ?_⟩⟩
    · exact hiop.trans hop
    · exact (v.keys f hfm).mpr hf
    · exact (v.getFunction_suffix hf).mpr hglobal

end Visited

lemma replaceCalls_nil (f : Function) : replaceCalls [] f = f := by
  obtain ⟨ref, name, params, varArg, body⟩ := f
  cases body <;> rfl

lemma untouched (hwf : m.WellFormed) (h : visitFrom r fuel 0 (initialRun m) = some s)
    (hnil : originals m = []) : s.module = m ∧ keys s = [] := by
  obtain ⟨t, -, hpassed, hrest⟩ := exists_passed hwf h
  have hcloneable : cloneable (initialRun m).blacklist m.functions = [] := hnil
  have hmodule : t.module = m := hpassed.untouched hcloneable
  have hend : t.module.functions[m.functions.length]? = none := by
    rw [hmodule]
    exact List.getElem?_eq_none le_rfl
  rw [visitFrom_none hend] at hrest
  cases hrest
  refine ⟨hmodule, List.eq_nil_iff_forall_not_mem.mpr fun n hn => ?_⟩
  rcases (hpassed.keys n).mp hn with hn | hn
  · cases hn
  · rw [hcloneable] at hn
    cases hn

lemma instrumentCalls_nil (horder : ∀ l, (order l).Perm l) :
    (instrumentCalls m [] order).functions = m.functions := by
  have hfuncalls : funcalls m [] = [] := by
    rw [funcalls, List.map_eq_nil_iff, List.zipIdx_eq_nil_iff, List.filterMap_eq_nil_iff]
    intro i _
    rw [Option.map_eq_none_iff, redirect]
    split
    · cases m.functions.find? _ <;> rfl
    · rfl
    · rfl
  have hnil : order (funcalls m []) = [] := by
    rw [hfuncalls]
    exact (horder []).eq_nil
  have hid : replaceCalls [] = id := funext replaceCalls_nil
  rw [instrumentCalls, hnil, hid, List.map_id]

lemma differs_iff (hwf : m.WellFormed) (horder : ∀ l, (order l).Perm l)
    (hs : visitFrom r fuel 0 (initialRun m) = some s) (hnamed : [] ∉ keys s)
    (hm' : (keys s).foldlM removeFunction (instrumentCalls s.module s.instrumented order) = some m') :
    Differs m m' ↔ originals m ≠ [] := by
  have v := visited_of_run hwf hs hnamed
  constructor
  · rintro hdiffers hnil
    obtain ⟨hmodule, hkeys⟩ := untouched hwf hs hnil
    have hinstrumented : s.instrumented = [] := List.map_eq_nil_iff.mp hkeys
    rw [hkeys, hinstrumented, hmodule] at hm'
    cases hm'
    rcases hdiffers with hglobals | hfunctions
    · exact hglobals rfl
    · exact hfunctions (instrumentCalls_nil horder)
  · intro hne
    obtain ⟨f, hf⟩ := List.exists_mem_of_ne_nil _ hne
    have hfm := mem_of_cloneable hf
    have hkey := (v.keys f hfm).mpr hf
    rw [erased v.wellFormed v.keyed hnamed v.keyed.nodup (List.Subset.refl _)] at hm'
    cases hm'
    right
    intro heq
    rw [← heq] at hfm
    exact of_decide_eq_true (List.mem_filter.mp hfm).2 hkey

lemma foldlM_removeFunction_named {names : List Text} (h : names.foldlM removeFunction m = some m') :
    [] ∉ names := by
  intro hmem
  rw [foldlM_removeFunction_none hmem] at h
  cases h

lemma returns_true_iff (hwf : m.WellFormed) (horder : ∀ l, (order l).Perm l)
    (h : runReturning r order fuel m = some (m', res)) :
    (Differs m m' → res = true) ↔ originals m = [] ∨ CallsOriginal m := by
  obtain ⟨s, hs, hm', rfl⟩ := exists_visited hwf h
  have hnamed := foldlM_removeFunction_named hm'
  have v := visited_of_run hwf hs hnamed
  rw [differs_iff hwf horder hs hnamed hm', v.callsCreated_iff hwf hnamed]
  by_cases hnil : originals m = []
  · simp [hnil]
  · simp [hnil]

def unusedModule : Module := ⟨[], [pointerFunction 0 'f' []], 1, 0⟩

lemma wellFormed_unusedModule : unusedModule.WellFormed where
  names := by decide
  refs := by decide
  nextRef := by simp [unusedModule, pointerFunction]
  values := by decide
  next _ hi := absurd hi List.not_mem_nil
  typed _ hi := absurd hi List.not_mem_nil

theorem unused_clone_not_returned : unusedModule.WellFormed ∧ ∃ m',
    runReturning numbered id 2 unusedModule = some (m', false) ∧ Differs unusedModule m' := by
  refine ⟨wellFormed_unusedModule, _, rfl, Or.inr ?_⟩
  intro heq
  have hnames := congrArg (List.map Function.name) heq
  revert hnames
  decide

end Embedwatch.Instrumentor

namespace Embedwatch.Pass.RecursionTracker

open Library.PlainText
open Instrumentor (Renaming)

def counterName : Text :=
  ['z', 'b', 'o', 'u', 'n', 'c', 'e', 'r', '_', 'r', 'e', 'c', 'u', 'r', 's', 'i', 'o', 'n', '_',
    'c', 'o', 'u', 'n', 't', 'e', 'r']

structure Module where
  globals : List Text
  names : List Text
  functions : List Function

structure TrackedModule where
  globals : List Text
  code : Code

/-- The module that the pass leaves, and what it returns: each function that is defined sets the result
anew. -/
def runReturning (r : Renaming) (M : Module) : TrackedModule × Bool :=
  let symbols := M.globals ++ M.names
  let gv := if counterName ∈ symbols then r.symbol symbols counterName else counterName
  (⟨M.globals ++ [gv], runOnModule M.functions⟩,
    M.functions.foldl (fun res F => if F.isDeclaration then res else true) false)

def Differs (M : Module) (M' : TrackedModule) : Prop :=
  M'.globals ≠ M.globals ∨ M'.code ≠ M.functions.map fun F => F.blocks.map (List.map .orig)

lemma differs (r : Renaming) (M : Module) : Differs M (runReturning r M).1 := by
  left
  intro heq
  have hlength := congrArg List.length heq
  rw [runReturning, List.length_append, List.length_singleton] at hlength
  omega

lemma foldl_res (Fs : List Function) (res : Bool) :
    Fs.foldl (fun res F => if F.isDeclaration then res else true) res = true ↔
      res = true ∨ ∃ F ∈ Fs, F.isDeclaration = false := by
  induction Fs generalizing res with
  | nil => simp
  | cons F Fs ih =>
    rw [List.foldl_cons, ih]
    cases hF : F.isDeclaration <;> simp [hF]

lemma returns_true_iff (r : Renaming) (M : Module) :
    (Differs M (runReturning r M).1 → (runReturning r M).2 = true) ↔
      ∃ F ∈ M.functions, F.isDeclaration = false := by
  have hres := foldl_res M.functions false
  simp only [Bool.false_eq_true, false_or] at hres
  rw [← hres]
  exact ⟨fun h => h (differs r M), fun h _ => h⟩

end Embedwatch.Pass.RecursionTracker

namespace Embedwatch.Pass

open Instrumentor Ir

theorem changes_returned_iff (r : Renaming) (order : List (ℕ × Ir.Inst) → List (ℕ × Ir.Inst))
    (horder : ∀ l, (order l).Perm l) (m : Ir.Module) (hwf : m.WellFormed) (fuel : ℕ)
    (m' : Ir.Module) (res : Bool) (hrun : Instrumentor.runReturning r order fuel m = some (m', res))
    (M : RecursionTracker.Module) :
    ((Instrumentor.Differs m m' → res = true) ↔ originals m = [] ∨ CallsOriginal m) ∧
      ((RecursionTracker.Differs M (RecursionTracker.runReturning r M).1 →
          (RecursionTracker.runReturning r M).2 = true) ↔
        ∃ F ∈ M.functions, F.isDeclaration = false) :=
  ⟨Instrumentor.returns_true_iff hwf horder hrun, RecursionTracker.returns_true_iff r M⟩

def recursiveModule : RecursionTracker.Module := ⟨[], [['f']], [RecursionTracker.recursive]⟩

theorem redirected_call_returned : ∃ m' res,
    Instrumentor.runReturning numbered id 5 (twoModule (.other 0)) = some (m', res) ∧
      (Instrumentor.Differs (twoModule (.other 0)) m' → res = true) ∧
      (RecursionTracker.Differs recursiveModule (RecursionTracker.runReturning numbered recursiveModule).1 →
        (RecursionTracker.runReturning numbered recursiveModule).2 = true) := by
  have hwf := wellFormed_twoModule (.other 0) fun c hc => by cases hc
  refine ⟨_, _, rfl, ?_⟩
  obtain ⟨hcloned, htracked⟩ := changes_returned_iff numbered id (fun _ => List.Perm.refl _) _ hwf 5 _ _
    rfl recursiveModule
  refine ⟨hcloned.mpr (Or.inr ⟨mainCall, ?_, pointerFunction 1 'g' [gInst (.other 0)], ?_, rfl,
    List.not_mem_nil⟩), htracked.mpr ⟨RecursionTracker.recursive, List.mem_singleton_self _, rfl⟩⟩
  · exact List.mem_cons_of_mem _ List.mem_cons_self
  · exact List.mem_cons_of_mem _ List.mem_cons_self

end Embedwatch.Pass
