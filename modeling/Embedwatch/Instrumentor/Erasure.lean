import Mathlib.Data.Char
import Mathlib.Data.List.Lex
import Mathlib.Data.List.Pairwise
import Mathlib.Data.List.Sort
import Embedwatch.Instrumentor.Redirection

/-! The end of the pass: the originals are erased one after the other. What still refers to one that
is erased, in which module. -/

namespace Embedwatch.Instrumentor

open Library.PlainText Library.Replacement Library.Lookup Ir

structure Constants where
  functions : ℤ → List ℕ
  zero : functions 0 = []
  initializers : List ℕ

def callee (i : Inst) : Option ℕ :=
  match i.op with
  | .call c => c
  | .other _ => none

namespace Constants

variable (K : Constants)

def operand (o : Operand) : List ℕ :=
  match o.source with
  | .const c => K.functions c
  | .inst _ | .arg _ | .packed _ => []

def InOperands (i : Inst) (f : ℕ) : Prop := ∃ o ∈ i.operands, f ∈ K.operand o

def Refers (i : Inst) (f : ℕ) : Prop := callee i = some f ∨ K.InOperands i f

def Referred (m : Module) (f : Function) : Prop :=
  f.ref ∈ K.initializers ∨
    ∃ g ∈ m.functions, g.ref ≠ f.ref ∧ ∃ i ∈ g.code, K.Refers i f.ref

instance (i : Inst) (f : ℕ) : Decidable (K.InOperands i f) :=
  inferInstanceAs (Decidable (∃ o ∈ i.operands, f ∈ K.operand o))

instance (i : Inst) (f : ℕ) : Decidable (K.Refers i f) := inferInstanceAs (Decidable (_ ∨ _))

instance (m : Module) (f : Function) : Decidable (K.Referred m f) :=
  inferInstanceAs (Decidable (_ ∨ ∃ g ∈ m.functions, g.ref ≠ f.ref ∧ ∃ i ∈ g.code, K.Refers i f.ref))

end Constants

def keys (s : Run) : List Text := s.instrumented.map Prod.fst

/-- The names in the order of the `std::map`. -/
def eraseOrder (s : Run) : List Text := (keys s).insertionSort (· ≤ ·)

/-- `eraseFromParent` of a function that something else refers to leaves the defined behaviour. -/
def eraseFunction (K : Constants) (m : Module) (name : Text) : Option Module :=
  (m.getFunction name).bind fun f => if K.Referred m f then none else removeFunction m name

def runErasing (K : Constants) (r : Renaming) (order : List (ℕ × Inst) → List (ℕ × Inst))
    (fuel : ℕ) (m : Module) : Option (Module × List (ℕ × ℕ)) := do
  let s ← visitFrom r fuel 0 (initialRun m)
  let m' ← (eraseOrder s).foldlM (eraseFunction K) (instrumentCalls s.module s.instrumented order)
  some (m', s.clones)

def NothingDangles (K : Constants) (r : Renaming)
    (order : List (ℕ × Inst) → List (ℕ × Inst)) (m : Module) : Prop :=
  ∀ fuel s, visitFrom r fuel 0 (initialRun m) = some s →
    ∀ done name rest, eraseOrder s = done ++ name :: rest →
      ∀ m', done.foldlM removeFunction (instrumentCalls s.module s.instrumented order) = some m' →
        ∀ f, m'.getFunction name = some f → ¬ K.Referred m' f

def calledAfter (s : Run) (i : Inst) : Option ℕ :=
  match redirect s.module s.instrumented i with
  | some call => some call.1
  | none => callee i

def Unreferred (K : Constants) (s : Run) : Prop :=
  ∀ f ∈ s.module.functions, f.name ∈ keys s →
    f.ref ∉ K.initializers ∧ ∀ g ∈ s.module.functions,
      (g.name ∉ keys s → ∀ i ∈ g.code, calledAfter s i ≠ some f.ref ∧ ¬ K.InOperands i f.ref) ∧
      (g.name ∈ keys s → f.name < g.name → ∀ i ∈ g.code, ¬ K.Refers i f.ref)

variable {K : Constants} {r : Renaming} {order : List (ℕ × Inst) → List (ℕ × Inst)}
  {m m' : Module} {s s' : Run} {f g : Function} {i : Inst} {k : ℕ}

structure Keyed (s : Run) : Prop where
  nodup : (keys s).Nodup
  present : ∀ n ∈ keys s, ∃ f ∈ s.module.functions, f.name = n

lemma Keyed.visit (h : Keyed s) (hf : f ∈ s.module.functions) : Keyed (visit r s f) := by
  rcases visit_cases r s f with hv | hv | hv
  · rw [hv]
    exact h
  · rw [hv]
    exact ⟨h.nodup, h.present⟩
  · rw [hv]
    have hpresent : ∀ n, n ∈ keys s ∨ n = f.name →
        ∃ g ∈ s.module.functions ++ [cloneOf r s.module f], g.name = n := by
      rintro n (hn | rfl)
      · obtain ⟨g, hg, hname⟩ := h.present n hn
        exact ⟨g, List.mem_append_left _ hg, hname⟩
      · exact ⟨f, List.mem_append_left _ hf, rfl⟩
    by_cases hmem : f.name ∈ keys s
    · have hentry : insertEntry s.instrumented f.name f.pointerParams.length = s.instrumented :=
        if_pos hmem
      rw [hentry]
      exact ⟨h.nodup, fun n hn => hpresent n (Or.inl hn)⟩
    · have hentry : insertEntry s.instrumented f.name f.pointerParams.length =
          s.instrumented ++ [(f.name, f.pointerParams.length)] := if_neg hmem
      rw [hentry]
      constructor
      · rw [keys, List.map_append]
        apply h.nodup.append (List.nodup_singleton _)
        intro n hn hlast
        obtain rfl := List.mem_singleton.mp hlast
        exact hmem hn
      · intro n hn
        rw [keys, List.map_append, List.mem_append] at hn
        exact hpresent n (hn.imp_right List.mem_singleton.mp)

lemma visited (hwf : m.WellFormed) {fuel : ℕ}
    (h : visitFrom r fuel 0 (initialRun m) = some s) : s.module.WellFormed ∧ Keyed s := by
  have hkeyed : Keyed (initialRun m) := ⟨List.nodup_nil, fun n hn => absurd hn List.not_mem_nil⟩
  have hvisit : ∀ k s f, Grown m k s ∧ Keyed s → s.module.functions[k]? = some f →
      Grown m (k + 1) (visit r s f) ∧ Keyed (visit r s f) := by
    rintro k s f ⟨hgrown, hkeyed⟩ hf
    exact ⟨hgrown.visit hf, hkeyed.visit (List.mem_of_getElem? hf)⟩
  obtain ⟨_, hgrown, hkeyed⟩ := visitFrom_invariant (fun k s => Grown m k s ∧ Keyed s) hvisit
    ⟨(Cloned.start hwf).grown, hkeyed⟩ h
  exact ⟨hgrown.wellFormed, hkeyed⟩

lemma mem_done_iff {α : Type*} [LinearOrder α] {l done rest : List α} {a b : α}
    (hnodup : l.Nodup) (h : l.insertionSort (· ≤ ·) = done ++ a :: rest) :
    b ∈ done ↔ b ∈ l ∧ b < a := by
  have hperm := List.perm_insertionSort (· ≤ ·) l
  have hsorted := List.pairwise_insertionSort (· ≤ ·) l
  have hnodup := hperm.nodup_iff.mpr hnodup
  rw [h] at hperm hsorted hnodup
  rw [← hperm.mem_iff]
  obtain ⟨-, hrest, hle⟩ := List.pairwise_append.mp hsorted
  constructor
  · intro hb
    refine ⟨List.mem_append_left _ hb, lt_of_le_of_ne (hle b hb a List.mem_cons_self) ?_⟩
    rintro rfl
    exact (List.nodup_append.mp hnodup).2.2 b hb b List.mem_cons_self rfl
  · rintro ⟨hb, hlt⟩
    rcases List.mem_append.mp hb with hb | hb
    · exact hb
    · rcases List.mem_cons.mp hb with rfl | hb
      · exact absurd hlt (lt_irrefl b)
      · exact absurd (List.rel_of_pairwise_cons hrest hb) (not_le.mpr hlt)

lemma operand_subst (σ : ℕ → ℕ) (o : Operand) : K.operand (o.subst σ) = K.operand o := by
  obtain ⟨source, type⟩ := o
  cases source <;> rfl

lemma exists_operand_subst {σ : ℕ → ℕ} {os : List Operand} {f : ℕ} :
    (∃ o ∈ os.map (·.subst σ), f ∈ K.operand o) ↔ ∃ o ∈ os, f ∈ K.operand o := by
  constructor
  · rintro ⟨_, ho, hf⟩
    obtain ⟨o, hmem, rfl⟩ := List.mem_map.mp ho
    rw [operand_subst] at hf
    exact ⟨o, hmem, hf⟩
  · rintro ⟨o, ho, hf⟩
    refine ⟨_, List.mem_map_of_mem ho, ?_⟩
    rw [operand_subst]
    exact hf

lemma callee_congr {j : Inst} (h : i.op = j.op) : callee i = callee j := by
  rw [callee, callee, h]

lemma inOperands_shift (d : ℕ) (i : Inst) (f : ℕ) :
    K.InOperands (i.shift d) f ↔ K.InOperands i f :=
  exists_operand_subst

lemma redirect_operands {call : ℕ × List Operand}
    (h : redirect s.module s.instrumented i = some call) :
    ∃ n, call.2 = i.operands ++ List.replicate n zero := by
  rw [redirect] at h
  split at h
  · obtain ⟨g, -, h⟩ := Option.bind_eq_some_iff.mp h
    obtain ⟨entry, -, h⟩ := Option.bind_eq_some_iff.mp h
    obtain ⟨clone, -, h⟩ := Option.bind_eq_some_iff.mp h
    cases h
    exact ⟨entry.2, rfl⟩
  · cases h
  · cases h

lemma exists_zeros {os : List Operand} {n f : ℕ} :
    (∃ o ∈ os ++ List.replicate n zero, f ∈ K.operand o) ↔ ∃ o ∈ os, f ∈ K.operand o := by
  have hzero : K.operand zero = [] := K.zero
  constructor
  · rintro ⟨o, ho, hf⟩
    rcases List.mem_append.mp ho with ho | ho
    · exact ⟨o, ho, hf⟩
    · rw [(List.mem_replicate.mp ho).2, hzero] at hf
      cases hf
  · rintro ⟨o, ho, hf⟩
    exact ⟨o, List.mem_append_left _ ho, hf⟩

lemma exists_searched_of_mem {c : ℕ × Inst} (h : c ∈ funcalls s.module s.instrumented) :
    ∃ i ∈ searched s.module s.instrumented, i.value = c.1 := by
  obtain ⟨entry, hentry, rfl⟩ := List.mem_map.mp h
  obtain ⟨i, hi, hcall⟩ := List.mem_filterMap.mp (List.fst_mem_of_mem_zipIdx hentry)
  obtain ⟨call, -, heq⟩ := Option.map_eq_some_iff.mp hcall
  exact ⟨i, hi, by rw [← heq]⟩

lemma eq_of_value_eq (hwf : m.WellFormed) (hf : f ∈ m.functions) (hg : g ∈ m.functions) {j : Inst}
    (hi : i ∈ f.code) (hj : j ∈ g.code) (hvalue : i.value = j.value) : f = g := by
  by_contra hne
  have hvalues := hwf.values
  rw [Module.code, List.map_flatMap, List.nodup_flatMap] at hvalues
  have hsymm : Std.Symm (Function.onFun List.Disjoint fun f : Function => f.code.map Inst.value) :=
    ⟨fun _ _ h _ hb ha => h ha hb⟩
  have hdisjoint := hvalues.2.forall hf hg hne
  apply hdisjoint (List.mem_map_of_mem hi)
  rw [hvalue]
  exact List.mem_map_of_mem hj

section Calls

variable (hwf : s.module.WellFormed) (horder : ∀ l, (order l).Perm l)

include hwf horder

lemma refers_erased (hg : g ∈ s.module.functions) (hname : g.name ∈ keys s) (hi : i ∈ g.code)
    (f : ℕ) : K.Refers (replaced (replacedCalls s order) i) f ↔ K.Refers i f := by
  have hvalue : i.value ∉ (replacedCalls s order).map Prod.fst := by
    intro hmem
    obtain ⟨c, hc, hvalue⟩ := List.mem_map.mp hmem
    obtain ⟨j, hj, hjvalue⟩ := exists_searched_of_mem ((horder _).mem_iff.mp hc)
    obtain ⟨g', hg', hj⟩ := List.mem_flatMap.mp hj
    obtain ⟨hg', hname'⟩ := List.mem_filter.mp hg'
    have hsame := eq_of_value_eq hwf hg' hg hj hi (hjvalue.trans hvalue)
    rw [hsame] at hname'
    exact of_decide_eq_true hname' hname
  rw [replaced, Collected.placed_of_notMem hvalue]
  exact or_congr Iff.rfl exists_operand_subst

lemma refers_kept (hg : g ∈ s.module.functions) (hname : g.name ∉ keys s) (hi : i ∈ g.code)
    (f : ℕ) : K.Refers (replaced (replacedCalls s order) i) f ↔
      calledAfter s i = some f ∨ K.InOperands i f := by
  have hcollected : Collected s.module s.instrumented (replacedCalls s order) :=
    (collected hwf).perm (horder _)
  have hsearched : i ∈ searched s.module s.instrumented := by
    rw [searched, List.mem_flatMap]
    exact ⟨g, List.mem_filter.mpr ⟨hg, decide_eq_true hname⟩, hi⟩
  rw [Constants.Refers, Constants.InOperands, calledAfter]
  cases hcall : redirect s.module s.instrumented i with
  | none =>
    obtain ⟨-, hop, hoperands⟩ :=
      hcollected.replaced_other hwf ((searched_sublist _ _).subset hsearched) hcall
    rw [callee_congr hop, hoperands, exists_operand_subst]
    rfl
  | some call =>
    obtain ⟨-, hop, hoperands⟩ := hcollected.replaced_call hwf hsearched hcall
    obtain ⟨n, hn⟩ := redirect_operands hcall
    have hcallee : callee (replaced (replacedCalls s order) i) = some call.1 := by
      rw [callee, hop]
    rw [hcallee, hoperands, exists_operand_subst, hn, exists_zeros]
    rfl

end Calls

lemma done_sub {done rest : List Text} {name : Text} (hkeyed : Keyed s)
    (hsplit : eraseOrder s = done ++ name :: rest) :
    name ∈ keys s ∧ done.Nodup ∧ done ⊆ keys s := by
  have hperm : (eraseOrder s).Perm (keys s) := List.perm_insertionSort (· ≤ ·) (keys s)
  have hnodup := hperm.nodup_iff.mpr hkeyed.nodup
  rw [hsplit] at hnodup hperm
  refine ⟨?_, hnodup.of_append_left, fun n hn => ?_⟩
  · exact hperm.mem_iff.mp (List.mem_append_right done List.mem_cons_self)
  · exact hperm.mem_iff.mp (List.mem_append_left _ hn)

section Erase

variable (hwf : s.module.WellFormed) (hkeyed : Keyed s) (hnamed : [] ∉ keys s)

lemma named_iff (hwf : m.WellFormed) (hf : f ∈ m.functions) (hg : g ∈ m.functions)
    (hne : f.name ≠ []) : g.name = f.name ↔ g.ref = f.ref := by
  constructor
  · intro hname
    rw [name_inj hwf hf hg hname hne]
  · intro href
    rw [ref_inj hwf hf hg href]

include hwf hkeyed hnamed

lemma erased {names : List Text} (hnodup : names.Nodup) (hsub : names ⊆ keys s) :
    names.foldlM removeFunction (instrumentCalls s.module s.instrumented order) =
      some { instrumentCalls s.module s.instrumented order with
        functions := (s.module.functions.map (replaceCalls (replacedCalls s order))).filter
          fun f => f.name ∉ names } := by
  apply foldlM_removeFunction hnodup (fun hmem => hnamed (hsub hmem))
  · intro n hn
    obtain ⟨f, hf, rfl⟩ := hkeyed.present n (hsub hn)
    exact ⟨_, List.mem_map_of_mem hf, rfl⟩
  · intro f' hf' g' hg' hname
    obtain ⟨f, hf, rfl⟩ := List.mem_map.mp hf'
    obtain ⟨g, hg, rfl⟩ := List.mem_map.mp hg'
    have hne : f.name ≠ [] := by
      intro hnil
      have hname : f.name ∈ names := hname
      exact hnamed (hnil ▸ hsub hname)
    have hiff := named_iff hwf hf hg hne
    exact hiff

lemma there_iff {done rest : List Text} (hsplit : eraseOrder s = done ++ f.name :: rest)
    (hf : f ∈ s.module.functions) (hmem : f.name ∈ keys s) (hg : g ∈ s.module.functions) :
    g.name ∉ done ∧ g.ref ≠ f.ref ↔ g.name ∉ keys s ∨ g.name ∈ keys s ∧ f.name < g.name := by
  have hne : f.name ≠ [] := fun hnil => hnamed (hnil ▸ hmem)
  rw [mem_done_iff hkeyed.nodup hsplit, ne_eq, ← named_iff hwf hf hg hne]
  constructor
  · rintro ⟨hdone, hname⟩
    by_cases hkey : g.name ∈ keys s
    · rcases lt_trichotomy g.name f.name with hlt | heq | hlt
      · exact absurd ⟨hkey, hlt⟩ hdone
      · exact absurd heq hname
      · exact Or.inr ⟨hkey, hlt⟩
    · exact Or.inl hkey
  · rintro (hkey | ⟨hkey, hlt⟩)
    · exact ⟨fun hdone => hkey hdone.1, fun heq => hkey (heq ▸ hmem)⟩
    · exact ⟨fun hdone => lt_asymm hlt hdone.2, hlt.ne'⟩

lemma referred_iff (horder : ∀ l, (order l).Perm l) {done rest : List Text}
    (hsplit : eraseOrder s = done ++ f.name :: rest) (hf : f ∈ s.module.functions)
    (hm' : done.foldlM removeFunction (instrumentCalls s.module s.instrumented order) = some m') :
    K.Referred m' (replaceCalls (replacedCalls s order) f) ↔
      f.ref ∈ K.initializers ∨ ∃ g ∈ s.module.functions,
        (g.name ∉ keys s ∧ ∃ i ∈ g.code, calledAfter s i = some f.ref ∨ K.InOperands i f.ref) ∨
          g.name ∈ keys s ∧ f.name < g.name ∧ ∃ i ∈ g.code, K.Refers i f.ref := by
  have hcollected : Collected s.module s.instrumented (replacedCalls s order) :=
    (collected hwf).perm (horder _)
  have hcode : ∀ g, (replaceCalls (replacedCalls s order) g).code =
      g.code.map (replaced (replacedCalls s order)) := by
    intro g
    rw [hcollected.replaceCalls_eq, Function.code, Function.code]
    cases g.body <;> rfl
  obtain ⟨hmem, hnodup, hsub⟩ := done_sub hkeyed hsplit
  have hthere := fun g hg => there_iff (g := g) hwf hkeyed hnamed hsplit hf hmem hg
  rw [erased hwf hkeyed hnamed hnodup hsub] at hm'
  obtain rfl := Option.some.inj hm'
  apply or_congr Iff.rfl
  constructor
  · rintro ⟨g', hg', href, j, hj, hrefers⟩
    obtain ⟨hg', hname⟩ := List.mem_filter.mp hg'
    obtain ⟨g, hg, rfl⟩ := List.mem_map.mp hg'
    rw [hcode] at hj
    obtain ⟨i, hi, rfl⟩ := List.mem_map.mp hj
    refine ⟨g, hg, ?_⟩
    rcases (hthere g hg).mp ⟨of_decide_eq_true hname, href⟩ with hkey | ⟨hkey, hlt⟩
    · exact Or.inl ⟨hkey, i, hi, (refers_kept hwf horder hg hkey hi _).mp hrefers⟩
    · exact Or.inr ⟨hkey, hlt, i, hi, (refers_erased hwf horder hg hkey hi _).mp hrefers⟩
  · rintro ⟨g, hg, h⟩
    obtain ⟨hname, href⟩ := (hthere g hg).mpr (h.imp And.left fun h => ⟨h.1, h.2.1⟩)
    refine ⟨replaceCalls (replacedCalls s order) g,
      List.mem_filter.mpr ⟨List.mem_map_of_mem hg, decide_eq_true hname⟩, href, ?_⟩
    rw [hcode]
    rcases h with ⟨hkey, i, hi, hrefers⟩ | ⟨hkey, -, i, hi, hrefers⟩
    · exact ⟨_, List.mem_map_of_mem hi, (refers_kept hwf horder hg hkey hi _).mpr hrefers⟩
    · exact ⟨_, List.mem_map_of_mem hi, (refers_erased hwf horder hg hkey hi _).mpr hrefers⟩

lemma getFunction_erased {done rest : List Text} {name : Text}
    (hsplit : eraseOrder s = done ++ name :: rest)
    (hm' : done.foldlM removeFunction (instrumentCalls s.module s.instrumented order) = some m')
    {f' : Function} : m'.getFunction name = some f' ↔
      ∃ f ∈ s.module.functions, f.name = name ∧ replaceCalls (replacedCalls s order) f = f' := by
  obtain ⟨hmem, hnodup, hsub⟩ := done_sub hkeyed hsplit
  have hne : name ≠ [] := fun hnil => hnamed (hnil ▸ hmem)
  rw [erased hwf hkeyed hnamed hnodup hsub] at hm'
  obtain rfl := Option.some.inj hm'
  rw [Module.getFunction, if_neg hne]
  constructor
  · intro h
    obtain ⟨f, hf, rfl⟩ := List.mem_map.mp (List.mem_of_mem_filter (List.mem_of_find?_eq_some h))
    exact ⟨f, hf, by simpa using! List.find?_some h, rfl⟩
  · rintro ⟨f, hf, rfl, rfl⟩
    apply find?_of_unique
    · refine List.mem_filter.mpr ⟨List.mem_map_of_mem hf, decide_eq_true ?_⟩
      intro hdone
      exact lt_irrefl _ ((mem_done_iff hkeyed.nodup hsplit).mp hdone).2
    · exact decide_eq_true rfl
    · intro g' hg' hname
      obtain ⟨g, hg, rfl⟩ := List.mem_map.mp (List.mem_of_mem_filter hg')
      rw [name_inj hwf hf hg (of_decide_eq_true hname) hne]

end Erase

lemma getFunction_unnamed (hkeyed : Keyed s) (hnil : [] ∈ keys s) {done rest : List Text}
    {name : Text} (hsplit : eraseOrder s = done ++ name :: rest) {m'' : Module}
    (hm' : done.foldlM removeFunction m'' = some m') : m'.getFunction name = none := by
  by_cases hname : name = []
  · exact if_pos hname
  · obtain ⟨c, t, rfl⟩ := List.exists_cons_of_ne_nil hname
    have hmem := (mem_done_iff hkeyed.nodup hsplit).mpr ⟨hnil, List.Lex.nil⟩
    rw [foldlM_removeFunction_none hmem] at hm'
    cases hm'

lemma unreferred_iff (hwf : s.module.WellFormed) (hkeyed : Keyed s)
    (horder : ∀ l, (order l).Perm l) :
    (∀ done name rest, eraseOrder s = done ++ name :: rest →
      ∀ m', done.foldlM removeFunction (instrumentCalls s.module s.instrumented order) = some m' →
        ∀ f, m'.getFunction name = some f → ¬ K.Referred m' f) ↔
      ([] ∉ keys s → Unreferred K s) := by
  constructor
  · intro h hnamed f hf hmem
    have hperm : (eraseOrder s).Perm (keys s) := List.perm_insertionSort (· ≤ ·) (keys s)
    obtain ⟨done, rest, hsplit⟩ := List.append_of_mem (hperm.mem_iff.mpr hmem)
    obtain ⟨-, hnodup, hsub⟩ := done_sub hkeyed hsplit
    have hm' := @erased order s hwf hkeyed hnamed done hnodup hsub
    have hnot := h done f.name rest hsplit _ hm' _
      ((getFunction_erased hwf hkeyed hnamed hsplit hm').mpr ⟨f, hf, rfl, rfl⟩)
    rw [referred_iff hwf hkeyed hnamed horder hsplit hf hm', not_or] at hnot
    refine ⟨hnot.1, fun g hg => ⟨fun hkey i hi => ?_, fun hkey hlt i hi hrefers => ?_⟩⟩
    · rw [← not_or]
      exact fun hrefers => hnot.2 ⟨g, hg, Or.inl ⟨hkey, i, hi, hrefers⟩⟩
    · exact hnot.2 ⟨g, hg, Or.inr ⟨hkey, hlt, i, hi, hrefers⟩⟩
  · intro h done name rest hsplit m' hm' f' hf' hreferred
    by_cases hnamed : [] ∈ keys s
    · rw [getFunction_unnamed hkeyed hnamed hsplit hm'] at hf'
      cases hf'
    · obtain ⟨f, hf, rfl, rfl⟩ := (getFunction_erased hwf hkeyed hnamed hsplit hm').mp hf'
      obtain ⟨hmem, -, -⟩ := done_sub hkeyed hsplit
      obtain ⟨hinit, hothers⟩ := h hnamed f hf hmem
      rcases (referred_iff hwf hkeyed hnamed horder hsplit hf hm').mp hreferred with
        href | ⟨g, hg, ⟨hkey, i, hi, hrefers⟩ | ⟨hkey, hlt, i, hi, hrefers⟩⟩
      · exact hinit href
      · exact not_or.mpr ((hothers g hg).1 hkey i hi) hrefers
      · exact (hothers g hg).2 hkey hlt i hi hrefers

theorem foldlM_eraseOrder (hwf : s.module.WellFormed) (hkeyed : Keyed s) :
    (eraseOrder s).foldlM removeFunction (instrumentCalls s.module s.instrumented order) =
      (keys s).foldlM removeFunction (instrumentCalls s.module s.instrumented order) := by
  have hperm : (eraseOrder s).Perm (keys s) := List.perm_insertionSort (· ≤ ·) (keys s)
  by_cases hnamed : [] ∈ keys s
  · rw [foldlM_removeFunction_none hnamed, foldlM_removeFunction_none (hperm.mem_iff.mpr hnamed)]
  · rw [erased hwf hkeyed hnamed (hperm.nodup_iff.mpr hkeyed.nodup) hperm.subset,
      erased hwf hkeyed hnamed hkeyed.nodup (List.Subset.refl _)]
    simp only [hperm.mem_iff]

lemma foldlM_eraseFunction {names : List Text} (h : ∀ done name rest,
    names = done ++ name :: rest → ∀ m', done.foldlM removeFunction m = some m' →
      ∀ f, m'.getFunction name = some f → ¬ K.Referred m' f) :
    names.foldlM (eraseFunction K) m = names.foldlM removeFunction m := by
  induction names generalizing m with
  | nil => rfl
  | cons name names ih =>
    have hfirst : eraseFunction K m name = removeFunction m name := by
      rw [eraseFunction]
      cases hf : m.getFunction name with
      | none => rw [removeFunction, hf, Option.bind_none, Option.map_none]
      | some f => rw [Option.bind_some, if_neg (h [] name names rfl m rfl f hf)]
    rw [List.foldlM_cons, List.foldlM_cons, hfirst]
    cases hm : removeFunction m name with
    | none => rfl
    | some next =>
      apply ih
      intro done name' rest hsplit m' hm'
      apply h (name :: done) name' rest (by rw [hsplit, List.cons_append]) m'
      rw [List.foldlM_cons, hm]
      exact hm'

theorem runErasing_eq (hwf : m.WellFormed) (h : NothingDangles K r order m) (fuel : ℕ) :
    runErasing K r order fuel m = runOnModule r order fuel m := by
  rw [runErasing, runOnModule]
  cases hs : visitFrom r fuel 0 (initialRun m) with
  | none =>
    have hs : visitFrom r fuel 0 ⟨m, initialBlacklist, [], []⟩ = none := hs
    rw [hs]
    rfl
  | some s =>
    obtain ⟨hswf, hkeyed⟩ := visited hwf hs
    have hs' : visitFrom r fuel 0 ⟨m, initialBlacklist, [], []⟩ = some s := hs
    have herase := (foldlM_eraseFunction (h fuel s hs)).trans (foldlM_eraseOrder hswf hkeyed)
    simp only [Option.bind_eq_bind, Option.bind_some, hs', herase]
    rfl

def Detached (K : Constants) (m : Module) : Prop :=
  ∀ f ∈ cloned m, f.ref ∉ K.initializers ∧ (∀ i ∈ m.code, ¬ K.InOperands i f.ref) ∧
    ∀ g ∈ cloned m, f.name < g.name → ∀ i ∈ g.code, callee i ≠ some f.ref

lemma callee_eq_some {f : ℕ} : callee i = some f ↔ i.op = .call (some f) := by
  rw [callee]
  cases i.op with
  | call c => simp
  | other n => simp

namespace Done

variable {cs : List Function} {c : Function} (h : Done m cs s) (hwf : m.WellFormed)
  (hfree : ∀ f ∈ cloned m, Free m f)

include h in
lemma mem_code_clone (hmem : (f, c) ∈ (cloned m).zip cs) : ∃ d, c.code = f.code.map (Inst.shift d) := by
  obtain ⟨d, hbody⟩ := (h.isClone_of_mem hmem).body
  refine ⟨d, ?_⟩
  rw [Function.code, Function.code, hbody]
  cases f.body <;> rfl

include h in
lemma inOperands_of_mem (hg : g ∈ s.module.functions) (hi : i ∈ g.code) {v : ℕ}
    (hv : K.InOperands i v) : ∃ j ∈ m.code, K.InOperands j v := by
  rw [h.functions, List.mem_append] at hg
  rcases hg with hg | hg
  · exact ⟨i, mem_code_of_mem hg hi, hv⟩
  · obtain ⟨f, hmem⟩ := h.exists_original hg
    obtain ⟨d, hcode⟩ := h.mem_code_clone hmem
    rw [hcode] at hi
    obtain ⟨j, hj, rfl⟩ := List.mem_map.mp hi
    exact ⟨j, mem_code_of_mem (h.mem_of_mem_zip hmem).2.1 hj, (inOperands_shift d j v).mp hv⟩

include h in
lemma mem_keys {n : Text} : n ∈ Instrumentor.keys s ↔ n ∈ names m := by
  rw [Instrumentor.keys, h.keys]

include h hwf hfree

lemma mem_cloned_of_mem_keys (hf : f ∈ s.module.functions) (hmem : f.name ∈ Instrumentor.keys s) :
    f ∈ cloned m := by
  rw [h.mem_keys] at hmem
  rw [h.functions, List.mem_append] at hf
  rcases hf with hf | hf
  · exact (mem_names hwf hfree hf).mp hmem
  · exact absurd hmem (h.name_notMem hfree hf)

lemma calledAfter_ne (hf : f ∈ cloned m) : calledAfter s i ≠ some f.ref := by
  by_cases hcall : ∃ f ∈ cloned m, i.op = .call (some f.ref)
  · obtain ⟨f', hf', hop⟩ := hcall
    obtain ⟨c, hmem⟩ := h.exists_clone hf'
    obtain ⟨-, -, hcs, hc⟩ := h.mem_of_mem_zip hmem
    rw [calledAfter, h.redirect_cloned hfree hmem hwf hop]
    intro href
    have hfs : f ∈ s.module.functions :=
      h.functions ▸ List.mem_append_left _ ((cloned_sublist m).subset hf)
    have hsame := ref_inj h.wellFormed hfs hc (Option.some.inj href)
    rw [hsame] at hcs
    exact h.name_notMem hfree hcs (List.mem_map_of_mem hf)
  · have hother : ∀ f ∈ cloned m, i.op ≠ .call (some f.ref) := by
      intro f hf hop
      exact hcall ⟨f, hf, hop⟩
    rw [calledAfter, h.redirect_other hfree hwf hother]
    intro hcallee
    exact hother f hf (callee_eq_some.mp hcallee)

lemma unreferred_iff_detached : Unreferred K s ↔ Detached K m := by
  constructor
  · intro hunreferred f hf
    have hfs : ∀ g ∈ cloned m, g ∈ s.module.functions := fun g hg =>
      h.functions ▸ List.mem_append_left _ ((cloned_sublist m).subset hg)
    have hkey : ∀ g ∈ cloned m, g.name ∈ Instrumentor.keys s := fun g hg =>
      h.mem_keys.mpr (List.mem_map_of_mem hg)
    obtain ⟨hinit, hothers⟩ := hunreferred f (hfs f hf) (hkey f hf)
    refine ⟨hinit, ?_, fun g hg hlt i hi hcallee => ?_⟩
    · intro i hi hv
      obtain ⟨e, he, hie⟩ := List.mem_flatMap.mp hi
      by_cases hmem : e ∈ cloned m
      · -- the clone of the function has the operand as well, and stays
        obtain ⟨c, hzip⟩ := h.exists_clone hmem
        obtain ⟨-, -, hcs, hc⟩ := h.mem_of_mem_zip hzip
        obtain ⟨d, hcode⟩ := h.mem_code_clone hzip
        have hkept : c.name ∉ Instrumentor.keys s := by
          rw [h.mem_keys]
          exact h.name_notMem hfree hcs
        have hic : i.shift d ∈ c.code := by
          rw [hcode]
          exact List.mem_map_of_mem hie
        exact ((hothers c hc).1 hkept _ hic).2 ((inOperands_shift d i f.ref).mpr hv)
      · have hkept : e.name ∉ Instrumentor.keys s := by
          rw [h.mem_keys, mem_names hwf hfree he]
          exact hmem
        have hes : e ∈ s.module.functions := h.functions ▸ List.mem_append_left _ he
        exact ((hothers e hes).1 hkept i hie).2 hv
    · exact (hothers g (hfs g hg)).2 (hkey g hg) hlt i hi (Or.inl hcallee)
  · intro hdetached f hf hkey
    have hfm := h.mem_cloned_of_mem_keys hwf hfree hf hkey
    obtain ⟨hinit, hoperands, hcallees⟩ := hdetached f hfm
    have hnot : ∀ g ∈ s.module.functions, ∀ i ∈ g.code, ¬ K.InOperands i f.ref := by
      intro g hg i hi hv
      obtain ⟨j, hj, hv⟩ := h.inOperands_of_mem hg hi hv
      exact hoperands j hj hv
    refine ⟨hinit, fun g hg => ⟨fun _ i hi => ?_, fun hgkey hlt i hi hrefers => ?_⟩⟩
    · exact ⟨h.calledAfter_ne hwf hfree hfm, hnot g hg i hi⟩
    · have hgm := h.mem_cloned_of_mem_keys hwf hfree hg hgkey
      rcases hrefers with hcallee | hv
      · exact hcallees g hgm hlt i hi hcallee
      · exact hnot g hg i hi hv

end Done

def Erasable (K : Constants) (r : Renaming) (m : Module) : Prop :=
  ((∀ f ∈ cloned m, Free m f) → Detached K m) ∧
    (¬ (∀ f ∈ cloned m, Free m f) → ∀ fuel s, visitFrom r fuel 0 (initialRun m) = some s →
      [] ∉ keys s → Unreferred K s)

lemma nothingDangles_iff_unreferred (hwf : m.WellFormed) (horder : ∀ l, (order l).Perm l) :
    NothingDangles K r order m ↔ ∀ fuel s, visitFrom r fuel 0 (initialRun m) = some s →
      [] ∉ keys s → Unreferred K s := by
  apply forall_congr'
  intro fuel
  apply forall_congr'
  intro s
  apply imp_congr_right
  intro hs
  obtain ⟨hswf, hkeyed⟩ := visited hwf hs
  exact unreferred_iff hswf hkeyed horder

lemma nothingDangles_iff_detached (hwf : m.WellFormed) (horder : ∀ l, (order l).Perm l)
    (hfree : ∀ f ∈ cloned m, Free m f) : NothingDangles K r order m ↔ Detached K m := by
  rw [nothingDangles_iff_unreferred hwf horder]
  obtain ⟨cs, s, hdone, ⟨fuel, hs⟩, hunique⟩ := finished r hwf hfree
  have hnamed : [] ∉ keys s := by
    rw [hdone.mem_keys]
    intro hnil
    obtain ⟨f, hf, hname⟩ := List.mem_map.mp hnil
    exact (hfree f hf).named hname
  rw [← hdone.unreferred_iff_detached hwf hfree]
  constructor
  · exact fun h => h fuel s hs hnamed
  · intro h fuel' s' hs' _
    rw [hunique fuel' s' hs']
    exact h

theorem nothing_dangles_iff (K : Constants) (r : Renaming)
    (order : List (ℕ × Inst) → List (ℕ × Inst)) (horder : ∀ l, (order l).Perm l) (m : Module)
    (hwf : m.WellFormed) : NothingDangles K r order m ↔ Erasable K r m := by
  by_cases hfree : ∀ f ∈ cloned m, Free m f
  · rw [nothingDangles_iff_detached hwf horder hfree]
    exact ⟨fun h => ⟨fun _ => h, fun hnot => absurd hfree hnot⟩, fun h => h.1 hfree⟩
  · rw [nothingDangles_iff_unreferred hwf horder]
    exact ⟨fun h => ⟨fun hall => absurd hall hfree, fun _ => h⟩, fun h => h.2 hfree⟩

/-! A module with the functions `f` and `g`, which have a pointer parameter; `main` calls `g`, and the
instruction of `g` is given. -/

def noConstants : Constants := ⟨fun _ => [], rfl, []⟩

def pointerFunction (ref : ℕ) (name : Char) (code : List Inst) : Function :=
  ⟨ref, [name], [⟨['p'], .pointer 0⟩], false, some code⟩

def gInst (op : Op) : Inst := ⟨0, op, [⟨.arg 0, .pointer 0⟩], fun _ => none⟩

def mainCall : Inst := ⟨1, .call (some 1), [nullPointer], fun _ => none⟩

def twoModule (op : Op) : Module where
  globals := []
  functions := [pointerFunction 0 'f' [], pointerFunction 1 'g' [gInst op],
    ⟨2, mainName, [], false, some [mainCall]⟩]
  nextRef := 3
  next := 2

lemma wellFormed_twoModule (op : Op) (h : ∀ c, op = .call (some c) → c = 0) :
    (twoModule op).WellFormed where
  names := by
    have hsymbols : (twoModule op).symbols = [['f'], ['g'], mainName] := rfl
    rw [hsymbols]
    decide
  refs := by
    have hrefs : (twoModule op).functions.map Function.ref = [0, 1, 2] := rfl
    rw [hrefs]
    decide
  nextRef := by simp [twoModule, pointerFunction]
  values := by simp [twoModule, pointerFunction, Module.code, Function.code, gInst, mainCall]
  next := by simp [twoModule, pointerFunction, Module.code, Function.code, gInst, mainCall]
  typed := by
    intro i hi c hc
    have hi : i = gInst op ∨ i = mainCall := by
      simpa [twoModule, pointerFunction, Module.code, Function.code] using hi
    rcases hi with rfl | rfl
    · obtain rfl := h c hc
      exact ⟨_, List.mem_cons_self, rfl, List.prefix_rfl, fun _ => rfl⟩
    · have hc : 1 = c := Option.some.inj (Op.call.inj hc)
      subst hc
      exact ⟨_, List.mem_cons_of_mem _ List.mem_cons_self, rfl, List.prefix_rfl, fun _ => rfl⟩

lemma cloned_twoModule (op : Op) :
    cloned (twoModule op) = [pointerFunction 0 'f' [], pointerFunction 1 'g' [gInst op]] := rfl

lemma free_twoModule (op : Op) : ∀ f ∈ cloned (twoModule op), Free (twoModule op) f := by
  have hsymbols : (twoModule op).symbols = [['f'], ['g'], mainName] := rfl
  intro f hf
  rw [cloned_twoModule] at hf
  have hname : f.name = ['f'] ∨ f.name = ['g'] := by
    rcases List.mem_cons.mp hf with rfl | hf
    · exact Or.inl rfl
    · obtain rfl := List.mem_singleton.mp hf
      exact Or.inr rfl
  rcases hname with hname | hname
  · refine ⟨?_, ?_⟩ <;> rw [hname]
    · decide
    · rw [hsymbols]
      decide
  · refine ⟨?_, ?_⟩ <;> rw [hname]
    · decide
    · rw [hsymbols]
      decide

theorem nothing_dangles_fixed : NothingDangles noConstants numbered id (twoModule (.other 0)) := by
  have hwf := wellFormed_twoModule (.other 0) fun c hc => by cases hc
  apply (nothing_dangles_iff noConstants numbered id (fun _ => List.Perm.refl _) _ hwf).mpr
  refine ⟨fun _ f hf => ⟨List.not_mem_nil, ?_, ?_⟩, fun hnot => absurd (free_twoModule _) hnot⟩
  · rintro i - ⟨o, -, ho⟩
    obtain ⟨source, type⟩ := o
    cases source <;> cases ho
  · intro g hg hlt i hi hcallee
    rw [cloned_twoModule] at hg
    rcases List.mem_cons.mp hg with rfl | hg
    · cases hi
    · obtain rfl := List.mem_singleton.mp hg
      obtain rfl := List.mem_singleton.mp hi
      cases hcallee

theorem call_dangles : ¬ NothingDangles noConstants numbered id (twoModule (.call (some 0))) := by
  have hwf := wellFormed_twoModule (.call (some 0)) fun c hc => (Option.some.inj (Op.call.inj hc)).symm
  have horder : ∀ l : List (ℕ × Inst), (id l).Perm l := fun _ => List.Perm.refl _
  rw [nothingDangles_iff_detached hwf horder (free_twoModule _)]
  intro h
  have hf : pointerFunction 0 'f' [] ∈ cloned (twoModule (.call (some 0))) := List.mem_cons_self
  have hg : pointerFunction 1 'g' [gInst (.call (some 0))] ∈ cloned (twoModule (.call (some 0))) :=
    List.mem_cons_of_mem _ List.mem_cons_self
  have hlt : (['f'] : Text) < ['g'] := List.Lex.rel (by decide)
  exact (h _ hf).2.2 _ hg hlt _ List.mem_cons_self rfl

end Embedwatch.Instrumentor
