import Embedwatch.Instrumentor.FunctionInstrumentor
import Embedwatch.Library.Lookup
import Mathlib.Data.List.Nodup

/-! The clones: which functions are cloned, and that a clone is cloned again only if its name was
taken. -/

namespace Embedwatch.Instrumentor

open Library.PlainText Library.Replacement Library.Lookup Ir

variable {r : Renaming} {m : Module} {s s' : Run} {f : Function} {k : ℕ}

lemma functionName_notMem (name : Text) : functionName r m name ∉ m.symbols := by
  rw [functionName]
  split
  · exact r.symbol_fresh _ _
  · assumption

lemma symbols_addClone (f : Function) :
    (addClone r m f).symbols = m.symbols ++ [(cloneOf r m f).name] := by
  rw [Module.symbols, addClone, List.map_append, ← List.append_assoc]
  rfl

lemma code_addClone (f : Function) :
    (addClone r m f).code = m.code ++ f.code.map (Inst.shift m.next) := by
  have hcode : (cloneOf r m f).code = f.code.map (Inst.shift m.next) := by
    rw [Function.code, Function.code, cloneOf]
    cases f.body <;> rfl
  rw [Module.code, addClone, List.flatMap_append, List.flatMap_singleton, hcode]
  rfl

lemma mem_code_of_mem (hf : f ∈ m.functions) {i : Inst} (hi : i ∈ f.code) : i ∈ m.code :=
  List.mem_flatMap.mpr ⟨f, hf, hi⟩

lemma types_shift (d : ℕ) (i : Inst) :
    (i.shift d).operands.map Operand.type = i.operands.map Operand.type := by
  rw [Inst.shift, Inst.subst, List.map_map]
  apply List.map_congr_left
  intro o _
  exact Operand.subst_type _ o

lemma wellFormed_addClone (h : m.WellFormed) (hf : f ∈ m.functions) :
    (addClone r m f).WellFormed where
  names := by
    rw [symbols_addClone, List.filter_append]
    apply h.names.append
    · exact (List.nodup_singleton _).filter _
    · intro n hn hclone
      obtain rfl := List.mem_singleton.mp (List.mem_of_mem_filter hclone)
      exact functionName_notMem _ (List.mem_of_mem_filter hn)
  refs := by
    rw [addClone, List.map_append]
    apply h.refs.append (List.nodup_singleton _)
    intro ref href hclone
    obtain rfl := List.mem_singleton.mp hclone
    obtain ⟨g, hg, heq⟩ := List.mem_map.mp href
    exact (h.nextRef g hg).ne heq
  nextRef g hg := by
    rcases List.mem_append.mp hg with hg | hg
    · exact (h.nextRef g hg).trans (Nat.lt_succ_self _)
    · obtain rfl := List.mem_singleton.mp hg
      exact Nat.lt_succ_self _
  values := by
    rw [code_addClone, List.map_append, List.map_map]
    have hvalues := h.values
    rw [Module.code, List.map_flatMap, List.nodup_flatMap] at hvalues
    apply h.values.append
    · have hinj : ((fun v => v + m.next) ∘ Inst.value) = Inst.value ∘ Inst.shift m.next := rfl
      rw [← hinj, ← List.map_map]
      exact (hvalues.1 f hf).map (add_left_injective m.next)
    · intro v hv hclone
      obtain ⟨i, hi, rfl⟩ := List.mem_map.mp hv
      obtain ⟨j, -, heq⟩ := List.mem_map.mp hclone
      have hlt := h.next i hi
      have heq : j.value + m.next = i.value := heq
      omega
  next i hi := by
    rw [code_addClone] at hi
    change i.value < m.next + m.next
    rcases List.mem_append.mp hi with hi | hi
    · exact (h.next i hi).trans_le (Nat.le_add_left _ _)
    · obtain ⟨j, hj, rfl⟩ := List.mem_map.mp hi
      exact Nat.add_lt_add_right (h.next j (mem_code_of_mem hf hj)) _
  typed i hi c hc := by
    rw [code_addClone] at hi
    have hold : ∀ i ∈ m.code, i.op = .call (some c) → ∃ g ∈ (addClone r m f).functions, g.ref = c ∧
        g.types <+: i.operands.map Operand.type ∧
          (g.varArg = false → i.operands.length = g.params.length) := by
      intro i hi hc
      obtain ⟨g, hg, hrest⟩ := h.typed i hi c hc
      exact ⟨g, List.mem_append_left _ hg, hrest⟩
    rcases List.mem_append.mp hi with hi | hi
    · exact hold i hi hc
    · obtain ⟨j, hj, rfl⟩ := List.mem_map.mp hi
      obtain ⟨g, hg, href, htypes, hlength⟩ := hold j (mem_code_of_mem hf hj) hc
      refine ⟨g, hg, href, ?_, ?_⟩
      · rw [types_shift]
        exact htypes
      · intro hvarArg
        rw [← hlength hvarArg, Inst.shift, Inst.subst, List.length_map]

lemma visit_of_none (hf : f.body = none) : visit r s f = s := if_pos hf

lemma visit_of_skip (hf : f.body ≠ none) (h : f.pointerParams = [] ∨ f.name ∈ s.blacklist) :
    visit r s f = { s with blacklist := s.blacklist ++ [f.name] } := by
  rw [visit, if_neg hf, instrumentFunction, if_pos h]

lemma visit_of_clone (hf : f.body ≠ none) (h : ¬ (f.pointerParams = [] ∨ f.name ∈ s.blacklist)) :
    visit r s f = ⟨addClone r s.module f, s.blacklist ++ [f.name ++ instrumentedSuffix],
      insertEntry s.instrumented f.name f.pointerParams.length,
      s.clones ++ [(f.ref, (cloneOf r s.module f).ref)]⟩ := by
  rw [visit, if_neg hf, instrumentFunction, if_neg h]

lemma visit_cases (r : Renaming) (s : Run) (f : Function) :
    visit r s f = s ∨ visit r s f = { s with blacklist := s.blacklist ++ [f.name] } ∨
      visit r s f = ⟨addClone r s.module f, s.blacklist ++ [f.name ++ instrumentedSuffix],
        insertEntry s.instrumented f.name f.pointerParams.length,
        s.clones ++ [(f.ref, (cloneOf r s.module f).ref)]⟩ := by
  by_cases hf : f.body = none
  · exact Or.inl (visit_of_none hf)
  · by_cases h : f.pointerParams = [] ∨ f.name ∈ s.blacklist
    · exact Or.inr (Or.inl (visit_of_skip hf h))
    · exact Or.inr (Or.inr (visit_of_clone hf h))

structure Extends (s s' : Run) : Prop where
  functions : s.module.functions <+: s'.module.functions
  globals : s'.module.globals = s.module.globals
  clones : s.clones ⊆ s'.clones
  instrumented : s.instrumented ⊆ s'.instrumented

lemma Extends.refl (s : Run) : Extends s s :=
  ⟨List.prefix_rfl, rfl, List.Subset.refl _, List.Subset.refl _⟩

lemma Extends.trans {s s' s'' : Run} (h : Extends s s') (h' : Extends s' s'') : Extends s s'' where
  functions := h.functions.trans h'.functions
  globals := h'.globals.trans h.globals
  clones := List.Subset.trans h.clones h'.clones
  instrumented := List.Subset.trans h.instrumented h'.instrumented

lemma subset_insertEntry (entries : List (Text × ℕ)) (name : Text) (n : ℕ) :
    entries ⊆ insertEntry entries name n := by
  rw [insertEntry]
  split
  · exact List.Subset.refl _
  · exact List.subset_append_left _ _

lemma visit_extends (r : Renaming) (s : Run) (f : Function) : Extends s (visit r s f) := by
  rcases visit_cases r s f with h | h | h <;> rw [h]
  · exact Extends.refl s
  · exact ⟨List.prefix_rfl, rfl, List.Subset.refl _, List.Subset.refl _⟩
  · exact ⟨List.prefix_append _ _, rfl, List.subset_append_left _ _, subset_insertEntry _ _ _⟩

lemma visitFrom_none (hk : s.module.functions[k]? = none) (fuel : ℕ) :
    visitFrom r fuel k s = some s := by
  cases fuel with
  | zero => rw [visitFrom, if_pos (List.getElem?_eq_none_iff.mp hk)]
  | succ fuel => rw [visitFrom, hk]

lemma visitFrom_some (hf : s.module.functions[k]? = some f) (fuel : ℕ) :
    visitFrom r (fuel + 1) k s = visitFrom r fuel (k + 1) (visit r s f) := by
  rw [visitFrom, hf]

lemma visitFrom_zero (hf : s.module.functions[k]? = some f) : visitFrom r 0 k s = none := by
  rw [visitFrom, if_neg (not_le.mpr (List.getElem?_eq_some_iff.mp hf).1)]

structure Grown (m : Module) (k : ℕ) (s : Run) : Prop where
  wellFormed : s.module.WellFormed
  functions : m.functions <+: s.module.functions
  globals : s.module.globals = m.globals
  blacklist : ∀ n ∈ s.blacklist, n ∈ initialBlacklist ∨
    (∃ j < k, ∃ f, s.module.functions[j]? = some f ∧ f.name = n) ∨ ∃ n', n = n' ++ instrumentedSuffix

lemma getElem?_of_extends {fs gs : List Function} (h : fs <+: gs) {j : ℕ} (hf : fs[j]? = some f) :
    gs[j]? = some f := by
  obtain ⟨rest, rfl⟩ := h
  rw [List.getElem?_append_left (List.getElem?_eq_some_iff.mp hf).1]
  exact hf

lemma Grown.visit (h : Grown m k s) (hf : s.module.functions[k]? = some f) :
    Grown m (k + 1) (visit r s f) := by
  have hextends := visit_extends r s f
  have hold : ∀ n ∈ s.blacklist, n ∈ initialBlacklist ∨
      (∃ j < k + 1, ∃ g, (Instrumentor.visit r s f).module.functions[j]? = some g ∧ g.name = n) ∨
        ∃ n', n = n' ++ instrumentedSuffix := by
    intro n hn
    rcases h.blacklist n hn with hn | ⟨j, hj, g, hg, hname⟩ | hn
    · exact Or.inl hn
    · have hg' := getElem?_of_extends hextends.functions hg
      exact Or.inr (Or.inl ⟨j, hj.trans (Nat.lt_succ_self k), g, hg', hname⟩)
    · exact Or.inr (Or.inr hn)
  have hself : (Instrumentor.visit r s f).module.functions[k]? = some f :=
    getElem?_of_extends hextends.functions hf
  refine ⟨?_, h.functions.trans hextends.functions, hextends.globals.trans h.globals, ?_⟩
  · rcases visit_cases r s f with hv | hv | hv <;> rw [hv]
    · exact h.wellFormed
    · exact h.wellFormed
    · exact wellFormed_addClone h.wellFormed (List.mem_of_getElem? hf)
  · intro n hn
    have hnew : n ∈ s.blacklist ∨ n = f.name ∨ n = f.name ++ instrumentedSuffix := by
      rcases visit_cases r s f with hv | hv | hv <;> rw [hv] at hn
      · exact Or.inl hn
      · exact (List.mem_append.mp hn).imp_right fun hn => Or.inl (List.mem_singleton.mp hn)
      · exact (List.mem_append.mp hn).imp_right fun hn => Or.inr (List.mem_singleton.mp hn)
    rcases hnew with hn | rfl | rfl
    · exact hold n hn
    · exact Or.inr (Or.inl ⟨k, Nat.lt_succ_self k, f, hself, rfl⟩)
    · exact Or.inr (Or.inr ⟨f.name, rfl⟩)

lemma visitFrom_invariant (inv : ℕ → Run → Prop)
    (hvisit : ∀ k s f, inv k s → s.module.functions[k]? = some f → inv (k + 1) (visit r s f))
    {fuel : ℕ} (hs : inv k s) (h : visitFrom r fuel k s = some s') : ∃ j, inv j s' := by
  induction fuel generalizing k s with
  | zero =>
    cases hf : s.module.functions[k]? with
    | none =>
      rw [visitFrom_none hf] at h
      cases h
      exact ⟨k, hs⟩
    | some f =>
      rw [visitFrom_zero hf] at h
      cases h
  | succ fuel ih =>
    cases hf : s.module.functions[k]? with
    | none =>
      rw [visitFrom_none hf] at h
      cases h
      exact ⟨k, hs⟩
    | some f =>
      rw [visitFrom_some hf] at h
      exact ih (hvisit k s f hs hf) h

lemma visitFrom_extends {fuel : ℕ} (h : visitFrom r fuel k s = some s') : Extends s s' := by
  have hvisit : ∀ (j : ℕ) t f, Extends s t → t.module.functions[j]? = some f → Extends s (visit r t f) :=
    fun _ t f ht _ => ht.trans (visit_extends r t f)
  obtain ⟨_, hextends⟩ := visitFrom_invariant (fun _ t => Extends s t) hvisit (Extends.refl s) h
  exact hextends

lemma visitFrom_visits {fuel j : ℕ} {c : Function} (hinv : Grown m k s) (hk : k ≤ j)
    (hc : s.module.functions[j]? = some c) (h : visitFrom r fuel k s = some s') :
    ∃ t, Grown m j t ∧ t.module.functions[j]? = some c ∧ Extends (visit r t c) s' := by
  induction fuel generalizing k s with
  | zero =>
    have hlt := (List.getElem?_eq_some_iff.mp hc).1
    rw [visitFrom_zero (List.getElem?_eq_getElem (hk.trans_lt hlt))] at h
    cases h
  | succ fuel ih =>
    have hlt := (List.getElem?_eq_some_iff.mp hc).1
    have hf := List.getElem?_eq_getElem (hk.trans_lt hlt)
    rw [visitFrom_some hf] at h
    rcases hk.eq_or_lt with rfl | hk
    · rw [hc] at hf
      rw [← Option.some.inj hf] at h
      exact ⟨s, hinv, hc, visitFrom_extends h⟩
    · have hc' := getElem?_of_extends (visit_extends r s s.module.functions[k]).functions hc
      exact ih (hinv.visit hf) hk hc' h

def Instrumentable (m : Module) (k : ℕ) (f : Function) : Prop :=
  f.body ≠ none ∧ f.pointerParams ≠ [] ∧ f.name ∉ initialBlacklist ∧
    ∀ g ∈ m.functions.take k, g.body ≠ none → g.pointerParams = [] → g.name ≠ f.name

instance : Decidable (Instrumentable m k f) := inferInstanceAs (Decidable (_ ∧ _ ∧ _ ∧ _))

def chosen (m : Module) : ℕ → List Function
  | 0 => []
  | k + 1 => chosen m k ++ (m.functions[k]?.filter fun f => Instrumentable m k f).toList

lemma chosen_succ (hf : m.functions[k]? = some f) (h : Instrumentable m k f) :
    chosen m (k + 1) = chosen m k ++ [f] := by
  rw [chosen, hf, Option.filter_some, if_pos (decide_eq_true h)]
  rfl

lemma chosen_succ_of_not (hf : m.functions[k]? = some f) (h : ¬ Instrumentable m k f) :
    chosen m (k + 1) = chosen m k := by
  rw [chosen, hf, Option.filter_some, if_neg (fun hd => h (of_decide_eq_true hd))]
  exact List.append_nil _

lemma mem_chosen : f ∈ chosen m k ↔ ∃ j < k, m.functions[j]? = some f ∧ Instrumentable m j f := by
  induction k with
  | zero => simp [chosen]
  | succ k ih =>
    rw [chosen, List.mem_append, ih, Option.mem_toList, Option.filter_eq_some_iff,
      decide_eq_true_iff]
    constructor
    · rintro (⟨j, hj, hf⟩ | hf)
      · exact ⟨j, hj.trans (Nat.lt_succ_self k), hf⟩
      · exact ⟨k, Nat.lt_succ_self k, hf⟩
    · rintro ⟨j, hj, hf⟩
      rcases (Nat.lt_succ_iff.mp hj).eq_or_lt with rfl | hj
      · exact Or.inr hf
      · exact Or.inl ⟨j, hj, hf⟩

lemma chosen_sublist (m : Module) (k : ℕ) : (chosen m k).Sublist (m.functions.take k) := by
  induction k with
  | zero => exact List.Sublist.refl _
  | succ k ih =>
    rw [chosen, List.take_add_one]
    apply ih.append
    cases m.functions[k]? with
    | none => exact List.Sublist.refl _
    | some f =>
      rw [Option.filter_some]
      split
      · exact List.Sublist.refl _
      · exact List.nil_sublist _

structure Free (m : Module) (f : Function) : Prop where
  named : f.name ≠ []
  free : f.name ++ instrumentedSuffix ∉ m.symbols

structure IsClone (f c : Function) : Prop where
  name : c.name = f.name ++ instrumentedSuffix
  types : c.types = f.types ++ List.replicate f.pointerParams.length .int32
  body : ∃ d, c.body = f.body.map fun code => code.map (Inst.shift d)

lemma types_idParams (taken : List Text) (ps : List Param) :
    (idParams r taken ps).map Param.type = List.replicate ps.length .int32 := by
  induction ps generalizing taken with
  | nil => rfl
  | cons p ps ih =>
    rw [idParams, List.map_cons, ih]
    rfl

lemma isClone_cloneOf (h : f.name ++ instrumentedSuffix ∉ m.symbols) :
    IsClone f (cloneOf r m f) where
  name := if_neg h
  types := by
    rw [Function.types, cloneOf, cloneParams, List.map_append, types_idParams]
    rfl
  body := ⟨m.next, rfl⟩

lemma name_injective (h : m.WellFormed) {j : ℕ} {g : Function} (hg : m.functions[j]? = some g)
    (hf : m.functions[k]? = some f) (hname : g.name = f.name) (hne : f.name ≠ []) : j = k := by
  have hnames := h.names
  rw [Module.symbols, List.filter_append, List.nodup_append] at hnames
  exact index_unique hnames.2.1 hg hf hname hne

structure Cloned (m : Module) (k : ℕ) (cs : List Function) (s : Run) : Prop where
  grown : Grown m k s
  functions : s.module.functions = m.functions ++ cs
  isClone : List.Forall₂ IsClone (chosen m k) cs
  clones : s.clones = List.zipWith (fun f c => (f.ref, c.ref)) (chosen m k) cs
  instrumented : s.instrumented = (chosen m k).map fun f => (f.name, f.pointerParams.length)
  initial : initialBlacklist ⊆ s.blacklist
  passed : ∀ g ∈ m.functions.take k, g.body ≠ none → g.pointerParams = [] → g.name ∈ s.blacklist
  listed : ∀ f ∈ chosen m k, f.name ++ instrumentedSuffix ∈ s.blacklist
  blacklist : ∀ n ∈ s.blacklist, n ∈ initialBlacklist ∨
    (∃ j < k, ∃ g, m.functions[j]? = some g ∧ g.body ≠ none ∧ ¬ Instrumentable m j g ∧ g.name = n) ∨
      ∃ f ∈ chosen m k, n = f.name ++ instrumentedSuffix

lemma Cloned.start (h : m.WellFormed) : Cloned m 0 [] ⟨m, initialBlacklist, [], []⟩ where
  grown := ⟨h, List.prefix_rfl, rfl, fun _ hn => Or.inl hn⟩
  functions := (List.append_nil _).symm
  isClone := List.Forall₂.nil
  clones := rfl
  instrumented := rfl
  initial := List.Subset.refl _
  passed _ hg := absurd hg List.not_mem_nil
  listed _ hf := absurd hf List.not_mem_nil
  blacklist _ hn := Or.inl hn

lemma mem_symbols (hf : f ∈ m.functions) : f.name ∈ m.symbols :=
  List.mem_append_right _ (List.mem_map_of_mem hf)

lemma Cloned.notMem_blacklist {cs : List Function} (h : Cloned m k cs s)
    (hfree : ∀ g ∈ chosen m k, Free m g) (hf : m.functions[k]? = some f)
    (hi : Instrumentable m k f) : f.name ∉ s.blacklist := by
  intro hn
  obtain ⟨-, -, hinitial, hearlier⟩ := hi
  rcases h.blacklist _ hn with hn | ⟨j, hj, g, hg, hbody, hnot, hname⟩ | ⟨g, hg, hname⟩
  · exact hinitial hn
  · -- a function of that name that was passed over is before `k`, or one before it
    have htake : ∀ {i : ℕ} {g' : Function}, i < k → m.functions[i]? = some g' →
        g' ∈ m.functions.take k := by
      intro i g' hik hg'
      have hlt := (List.getElem?_eq_some_iff.mp hg').1
      exact List.mem_take_iff_getElem.mpr ⟨i, by omega, (List.getElem?_eq_some_iff.mp hg').2⟩
    apply hnot
    refine ⟨hbody, fun hnil => hearlier g (htake hj hg) hbody hnil hname, ?_, ?_⟩
    · rw [hname]
      exact hinitial
    · intro g' hg' hbody' hnil
      rw [hname]
      obtain ⟨i, hi, rfl⟩ := List.mem_take_iff_getElem.mp hg'
      exact hearlier _ (htake (by omega) (List.getElem?_eq_getElem (by omega))) hbody' hnil
  · apply (hfree g hg).free
    rw [← hname]
    exact mem_symbols (List.mem_of_getElem? hf)

lemma Cloned.skip {cs : List Function} (h : Cloned m k cs s) (hbody : f.body ≠ none)
    (hi : ¬ Instrumentable m k f) : f.pointerParams = [] ∨ f.name ∈ s.blacklist := by
  by_contra hno
  rw [not_or] at hno
  apply hi
  refine ⟨hbody, hno.1, fun hn => hno.2 (h.initial hn), ?_⟩
  intro g hg hgbody hnil hname
  rw [← hname] at hno
  exact hno.2 (h.passed g hg hgbody hnil)

lemma Cloned.functionName_notMem {cs : List Function} (h : Cloned m k cs s) (hwf : m.WellFormed)
    (hf : m.functions[k]? = some f) (hfree : Free m f) :
    f.name ++ instrumentedSuffix ∉ s.module.symbols := by
  rw [Module.symbols, h.grown.globals, h.functions, List.map_append, ← List.append_assoc,
    List.mem_append]
  rintro (hmem | hmem)
  · exact hfree.free hmem
  · obtain ⟨c, hc, hname⟩ := List.mem_map.mp hmem
    obtain ⟨g, hg, hclone⟩ := exists_left_of_mem h.isClone hc
    obtain ⟨j, hj, hg, -⟩ := mem_chosen.mp hg
    have heq := List.append_cancel_right (hclone.name.symm.trans hname)
    exact hj.ne (name_injective hwf hg hf heq hfree.named)

lemma Cloned.pass {cs : List Function} {b : List Text} (h : Cloned m k cs s)
    (hf : m.functions[k]? = some f) (hi : ¬ Instrumentable m k f)
    (hgrown : Grown m (k + 1) { s with blacklist := b }) (hsub : s.blacklist ⊆ b)
    (hlisted : f.body ≠ none → f.name ∈ b)
    (hnew : ∀ n ∈ b, n ∈ s.blacklist ∨ f.body ≠ none ∧ n = f.name) :
    Cloned m (k + 1) cs { s with blacklist := b } := by
  have hchosen := chosen_succ_of_not hf hi
  refine ⟨hgrown, h.functions, ?_, ?_, ?_, fun n hn => hsub (h.initial hn), ?_, ?_, ?_⟩
  · rw [hchosen]
    exact h.isClone
  · rw [hchosen]
    exact h.clones
  · rw [hchosen]
    exact h.instrumented
  · intro g hg hbody hnil
    rw [List.take_add_one, hf] at hg
    rcases List.mem_append.mp hg with hg | hg
    · exact hsub (h.passed g hg hbody hnil)
    · obtain rfl := List.mem_singleton.mp hg
      exact hlisted hbody
  · rw [hchosen]
    exact fun g hg => hsub (h.listed g hg)
  · intro n hn
    rw [hchosen]
    rcases hnew n hn with hn | ⟨hbody, rfl⟩
    · rcases h.blacklist n hn with hn | ⟨j, hj, hrest⟩ | hn
      · exact Or.inl hn
      · exact Or.inr (Or.inl ⟨j, hj.trans (Nat.lt_succ_self k), hrest⟩)
      · exact Or.inr (Or.inr hn)
    · exact Or.inr (Or.inl ⟨k, Nat.lt_succ_self k, f, hf, hbody, hi, rfl⟩)

lemma Cloned.visit {cs : List Function} (h : Cloned m k cs s) (hwf : m.WellFormed)
    (hf : m.functions[k]? = some f) (hfree : ∀ g ∈ chosen m (k + 1), Free m g) :
    ∃ cs', Cloned m (k + 1) cs' (visit r s f) := by
  have hlt := (List.getElem?_eq_some_iff.mp hf).1
  have hself : s.module.functions[k]? = some f := by
    rw [h.functions, List.getElem?_append_left hlt]
    exact hf
  have hgrown := h.grown.visit (r := r) hself
  have htake : m.functions.take (k + 1) = m.functions.take k ++ [f] := by
    rw [List.take_add_one, hf]
    rfl
  have hlater : ∀ n, (n ∈ initialBlacklist ∨
      (∃ j < k, ∃ g, m.functions[j]? = some g ∧ g.body ≠ none ∧ ¬ Instrumentable m j g ∧
        g.name = n) ∨ ∃ g ∈ chosen m k, n = g.name ++ instrumentedSuffix) →
      n ∈ initialBlacklist ∨
      (∃ j < k + 1, ∃ g, m.functions[j]? = some g ∧ g.body ≠ none ∧ ¬ Instrumentable m j g ∧
        g.name = n) ∨ ∃ g ∈ chosen m (k + 1), n = g.name ++ instrumentedSuffix := by
    rintro n (hn | ⟨j, hj, hrest⟩ | ⟨g, hg, hn⟩)
    · exact Or.inl hn
    · exact Or.inr (Or.inl ⟨j, hj.trans (Nat.lt_succ_self k), hrest⟩)
    · exact Or.inr (Or.inr ⟨g, List.mem_append_left _ hg, hn⟩)
  by_cases hi : Instrumentable m k f
  · have hchosen := chosen_succ hf hi
    have hmem : f ∈ chosen m (k + 1) := by
      rw [hchosen]
      exact List.mem_append_right _ List.mem_cons_self
    have hfree' : ∀ g ∈ chosen m k, Free m g := fun g hg => hfree g (List.mem_append_left _ hg)
    have hname := h.functionName_notMem hwf hf (hfree f hmem)
    have hno : ¬ (f.pointerParams = [] ∨ f.name ∈ s.blacklist) := by
      rintro (hnil | hn)
      · exact hi.2.1 hnil
      · exact h.notMem_blacklist hfree' hf hi hn
    have hkey : f.name ∉ s.instrumented.map Prod.fst := by
      rw [h.instrumented, List.map_map]
      intro hkey
      obtain ⟨g, hg, hname⟩ := List.mem_map.mp hkey
      obtain ⟨j, hj, hg, -⟩ := mem_chosen.mp hg
      exact hj.ne (name_injective hwf hg hf hname (hfree f hmem).named)
    have hclone := isClone_cloneOf (r := r) hname
    rw [visit_of_clone hi.1 hno] at hgrown ⊢
    refine ⟨cs ++ [cloneOf r s.module f], hgrown, ?_, ?_, ?_, ?_, ?_, ?_, ?_, ?_⟩
    · rw [addClone, h.functions, List.append_assoc]
    · rw [hchosen]
      exact List.rel_append h.isClone (.cons hclone .nil)
    · rw [hchosen, List.zipWith_append h.isClone.length_eq, ← h.clones]
      rfl
    · rw [hchosen, List.map_append, ← h.instrumented]
      exact if_neg hkey
    · exact fun n hn => List.mem_append_left _ (h.initial hn)
    · intro g hg hbody hnil
      rw [htake] at hg
      rcases List.mem_append.mp hg with hg | hg
      · exact List.mem_append_left _ (h.passed g hg hbody hnil)
      · obtain rfl := List.mem_singleton.mp hg
        exact absurd hnil hi.2.1
    · intro g hg
      rw [hchosen] at hg
      rcases List.mem_append.mp hg with hg | hg
      · exact List.mem_append_left _ (h.listed g hg)
      · obtain rfl := List.mem_singleton.mp hg
        exact List.mem_append_right _ List.mem_cons_self
    · intro n hn
      rcases List.mem_append.mp hn with hn | hn
      · exact hlater n (h.blacklist n hn)
      · exact Or.inr (Or.inr ⟨f, hmem, List.mem_singleton.mp hn⟩)
  · by_cases hbody : f.body = none
    · rw [visit_of_none hbody] at hgrown ⊢
      exact ⟨cs, h.pass hf hi hgrown (List.Subset.refl _) (fun hsome => absurd hbody hsome)
        fun n hn => Or.inl hn⟩
    · rw [visit_of_skip hbody (h.skip hbody hi)] at hgrown ⊢
      refine ⟨cs, h.pass hf hi hgrown (List.subset_append_left _ _) ?_ ?_⟩
      · exact fun _ => List.mem_append_right _ List.mem_cons_self
      · intro n hn
        exact (List.mem_append.mp hn).imp_right fun hn => ⟨hbody, List.mem_singleton.mp hn⟩

def initialRun (m : Module) : Run := ⟨m, initialBlacklist, [], []⟩

lemma visitFrom_add {fuel : ℕ} (h : visitFrom r fuel k s = some s') (n : ℕ) :
    visitFrom r (n + fuel) k s = some s' := by
  induction fuel generalizing k s with
  | zero =>
    cases hf : s.module.functions[k]? with
    | none =>
      rw [visitFrom_none hf] at h ⊢
      exact h
    | some f =>
      rw [visitFrom_zero hf] at h
      cases h
  | succ fuel ih =>
    cases hf : s.module.functions[k]? with
    | none =>
      rw [visitFrom_none hf] at h ⊢
      exact h
    | some f =>
      rw [visitFrom_some hf] at h
      rw [← Nat.add_assoc, visitFrom_some hf]
      exact ih h

lemma reached (hwf : m.WellFormed) (hk : k ≤ m.functions.length)
    (hfree : ∀ g ∈ chosen m k, Free m g) :
    ∃ cs t, Cloned m k cs t ∧
      ∀ fuel, visitFrom r (k + fuel) 0 (initialRun m) = visitFrom r fuel k t := by
  induction k with
  | zero =>
    refine ⟨[], initialRun m, Cloned.start hwf, fun fuel => ?_⟩
    rw [Nat.zero_add]
  | succ k ih =>
    obtain ⟨cs, t, hcloned, hruns⟩ := ih (Nat.le_of_succ_le hk) fun g hg =>
      hfree g (List.mem_append_left _ hg)
    have hf := List.getElem?_eq_getElem hk
    obtain ⟨cs', hcloned'⟩ := hcloned.visit (r := r) hwf hf hfree
    refine ⟨cs', _, hcloned', fun fuel => ?_⟩
    have hself : t.module.functions[k]? = some m.functions[k] := by
      rw [hcloned.functions, List.getElem?_append_left hk]
      exact hf
    rw [Nat.add_right_comm, Nat.add_assoc, hruns, visitFrom_some hself]

structure Done (m : Module) (cs : List Function) (s : Run) : Prop where
  wellFormed : s.module.WellFormed
  functions : s.module.functions = m.functions ++ cs
  isClone : List.Forall₂ IsClone (chosen m m.functions.length) cs
  clones : s.clones = List.zipWith (fun f c => (f.ref, c.ref)) (chosen m m.functions.length) cs
  instrumented : s.instrumented =
    (chosen m m.functions.length).map fun f => (f.name, f.pointerParams.length)

lemma visitFrom_listed (fuel : ℕ)
    (hlisted : ∀ j ≥ k, ∀ c, s.module.functions[j]? = some c → c.name ∈ s.blacklist)
    (hfuel : s.module.functions.length ≤ k + fuel) :
    ∃ b, visitFrom r fuel k s = some { s with blacklist := b } := by
  induction fuel generalizing k s with
  | zero => exact ⟨s.blacklist, visitFrom_none (List.getElem?_eq_none_iff.mpr hfuel) 0⟩
  | succ fuel ih =>
    cases hf : s.module.functions[k]? with
    | none => exact ⟨s.blacklist, visitFrom_none hf _⟩
    | some f =>
      rw [visitFrom_some hf]
      have hfuel' : s.module.functions.length ≤ k + 1 + fuel := by omega
      by_cases hbody : f.body = none
      · rw [visit_of_none hbody]
        exact ih (fun j hj => hlisted j (Nat.le_of_succ_le hj)) hfuel'
      · rw [visit_of_skip hbody (Or.inr (hlisted k le_rfl f hf))]
        have hlater : ∀ j ≥ k + 1, ∀ c, s.module.functions[j]? = some c →
            c.name ∈ s.blacklist ++ [f.name] := fun j hj c hc =>
          List.mem_append_left _ (hlisted j (Nat.le_of_succ_le hj) c hc)
        exact ih (s := { s with blacklist := s.blacklist ++ [f.name] }) hlater hfuel'

lemma finished (r : Renaming) (hwf : m.WellFormed)
    (hfree : ∀ g ∈ chosen m m.functions.length, Free m g) :
    ∃ cs s, Done m cs s ∧ (∃ fuel, visitFrom r fuel 0 (initialRun m) = some s) ∧
      ∀ fuel s', visitFrom r fuel 0 (initialRun m) = some s' → s' = s := by
  obtain ⟨cs, t, hcloned, hruns⟩ := reached (r := r) hwf le_rfl hfree
  have hlisted : ∀ j ≥ m.functions.length, ∀ c, t.module.functions[j]? = some c →
      c.name ∈ t.blacklist := by
    intro j hj c hc
    rw [hcloned.functions, List.getElem?_append_right hj] at hc
    obtain ⟨g, hg, hclone⟩ := exists_left_of_mem hcloned.isClone (List.mem_of_getElem? hc)
    rw [hclone.name]
    exact hcloned.listed g hg
  obtain ⟨b, hend⟩ := visitFrom_listed (r := r) t.module.functions.length hlisted
    (Nat.le_add_left _ _)
  rw [← hruns] at hend
  refine ⟨cs, { t with blacklist := b }, ?_, ⟨_, hend⟩, ?_⟩
  · exact ⟨hcloned.grown.wellFormed, hcloned.functions, hcloned.isClone, hcloned.clones,
      hcloned.instrumented⟩
  · intro fuel s' h
    have hend' := visitFrom_add hend fuel
    rw [Nat.add_comm, visitFrom_add h] at hend'
    exact Option.some.inj hend'

lemma exists_first (h : ∃ k f, m.functions[k]? = some f ∧ Instrumentable m k f ∧ ¬ Free m f) :
    ∃ k f, m.functions[k]? = some f ∧ Instrumentable m k f ∧ ¬ Free m f ∧
      ∀ g ∈ chosen m k, Free m g := by
  classical
  obtain ⟨f, hf, hi, hfree⟩ := Nat.find_spec h
  refine ⟨Nat.find h, f, hf, hi, hfree, ?_⟩
  intro g hg
  obtain ⟨j, hj, hg, hi⟩ := mem_chosen.mp hg
  by_contra hfree
  exact Nat.find_min h hj ⟨g, hg, hi, hfree⟩

lemma foldlM_removeFunction_none {names : List Text} (h : [] ∈ names) (m : Module) :
    names.foldlM removeFunction m = none := by
  induction names generalizing m with
  | nil => cases h
  | cons name names ih =>
    rw [List.foldlM_cons]
    rcases List.mem_cons.mp h with rfl | h
    · rfl
    · cases removeFunction m name with
      | none => rfl
      | some m' => exact ih h m'

lemma mem_insertEntry (entries : List (Text × ℕ)) (name : Text) (n : ℕ) :
    name ∈ (insertEntry entries name n).map Prod.fst := by
  rw [insertEntry]
  split
  · assumption
  · rw [List.map_append]
    exact List.mem_append_right _ List.mem_cons_self

lemma renamed_notMem_blacklist (h : Grown m k s) {c : Function} (hc : s.module.functions[k]? = some c)
    {base : Text} {n : ℕ} (hname : c.name = base ++ '.' :: decimal n) : c.name ∉ s.blacklist := by
  have hdot : '.' ∈ c.name := by
    rw [hname]
    exact List.mem_append_right _ List.mem_cons_self
  intro hn
  rcases h.blacklist _ hn with hn | ⟨j, hj, g, hg, heq⟩ | ⟨n', heq⟩
  · have hinitial : ∀ name ∈ initialBlacklist, '.' ∉ name := by
      simp [initialBlacklist, mainName, wrapperScanf, wrapperGets]
    exact hinitial _ hn hdot
  · exact hj.ne (name_injective h.wellFormed hg hc heq (List.ne_nil_of_mem hdot))
  · rw [hname] at heq
    have hnumber : '.' :: decimal n <:+ n' ++ instrumentedSuffix := heq ▸ List.suffix_append _ _
    have hunderscore : '_' ∉ '.' :: decimal n := by
      rw [List.mem_cons, not_or]
      exact ⟨by decide, not_mem_decimal (by decide) n⟩
    rcases List.suffix_or_suffix_of_suffix hnumber (List.suffix_append _ _) with hsuffix | hsuffix
    · have hnodot : '.' ∉ instrumentedSuffix := by decide
      exact hnodot (hsuffix.subset List.mem_cons_self)
    · exact hunderscore (hsuffix.subset List.mem_cons_self)

lemma not_free {fuel : ℕ} (hwf : m.WellFormed) (hf : m.functions[k]? = some f)
    (hi : Instrumentable m k f) (hnot : ¬ Free m f) (hearlier : ∀ g ∈ chosen m k, Free m g)
    (h : visitFrom r fuel 0 (initialRun m) = some s') :
    [] ∈ s'.instrumented.map Prod.fst ∨ ∃ p ∈ s'.clones, p.2 ∈ s'.clones.map Prod.fst := by
  have hlt := (List.getElem?_eq_some_iff.mp hf).1
  obtain ⟨cs, t, hcloned, hruns⟩ := reached (r := r) hwf hlt.le hearlier
  have hself : t.module.functions[k]? = some f := by
    rw [hcloned.functions, List.getElem?_append_left hlt]
    exact hf
  have hno : ¬ (f.pointerParams = [] ∨ f.name ∈ t.blacklist) := by
    rintro (hnil | hn)
    · exact hi.2.1 hnil
    · exact hcloned.notMem_blacklist hearlier hf hi hn
  -- the run goes on with the clone of `f`
  have hrun : visitFrom r fuel (k + 1) (visit r t f) = some s' := by
    have hadd := visitFrom_add h (k + 1)
    rw [Nat.add_right_comm, Nat.add_assoc, hruns, visitFrom_some hself] at hadd
    exact hadd
  have hgrown := hcloned.grown.visit (r := r) hself
  have hextends := visitFrom_extends hrun
  have hvisit := visit_of_clone (r := r) hi.1 hno
  by_cases hnamed : f.name = []
  · left
    have hkey := mem_insertEntry t.instrumented f.name f.pointerParams.length
    rw [hnamed] at hkey
    obtain ⟨entry, hentry, hnil⟩ := List.mem_map.mp hkey
    refine List.mem_map.mpr ⟨entry, hextends.instrumented ?_, hnil⟩
    rw [hvisit, hnamed]
    exact hentry
  · right
    have htaken : f.name ++ instrumentedSuffix ∈ t.module.symbols := by
      by_contra hfree
      apply hnot
      refine ⟨hnamed, fun hmem => hfree ?_⟩
      rw [Module.symbols, hcloned.grown.globals, hcloned.functions, List.map_append,
        ← List.append_assoc]
      exact List.mem_append_left _ hmem
    have hc : (visit r t f).module.functions[t.module.functions.length]? =
        some (cloneOf r t.module f) := by
      rw [hvisit, addClone, List.getElem?_append_right le_rfl, Nat.sub_self]
      rfl
    have hklt : k + 1 ≤ t.module.functions.length := (List.getElem?_eq_some_iff.mp hself).1
    obtain ⟨t', hgrown', hc', hextends'⟩ := visitFrom_visits hgrown hklt hc hrun
    obtain ⟨n, hname⟩ := r.symbol_eq t.module.symbols (f.name ++ instrumentedSuffix)
    have hcname : (cloneOf r t.module f).name = (f.name ++ instrumentedSuffix) ++ '.' :: decimal n :=
      (if_pos htaken).trans hname
    have hbody : (cloneOf r t.module f).body ≠ none := by
      intro hnone
      exact hi.1 (Option.map_eq_none_iff.mp hnone)
    have hpointers : (cloneOf r t.module f).pointerParams ≠ [] := by
      rw [Function.pointerParams, cloneOf, cloneParams, List.filter_append]
      exact fun hnil => hi.2.1 (List.append_eq_nil_iff.mp hnil).1
    have hno' : ¬ ((cloneOf r t.module f).pointerParams = [] ∨
        (cloneOf r t.module f).name ∈ t'.blacklist) := by
      rintro (hnil | hn)
      · exact hpointers hnil
      · exact renamed_notMem_blacklist hgrown' hc' hcname hn
    have hvisit' := visit_of_clone (r := r) hbody hno'
    refine ⟨(f.ref, (cloneOf r t.module f).ref), hextends.clones ?_,
      List.mem_map.mpr ⟨((cloneOf r t.module f).ref, (cloneOf r t'.module
        (cloneOf r t.module f)).ref), hextends'.clones ?_, rfl⟩⟩
    · rw [hvisit]
      exact List.mem_append_right _ List.mem_cons_self
    · rw [hvisit']
      exact List.mem_append_right _ List.mem_cons_self

end Embedwatch.Instrumentor
