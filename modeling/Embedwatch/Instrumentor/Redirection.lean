import Embedwatch.Instrumentor.CallReplacement
import Embedwatch.Instrumentor.Clones

/-! When every call of a cloned function becomes a call of its clone. -/

namespace Embedwatch.Instrumentor

open Library.PlainText Library.Replacement Library.Lookup Ir

def CallRedirected (m m' : Module) (clones : List (ℕ × ℕ)) (σ : ℕ → ℕ) (i j : Inst) : Prop :=
  j.value = σ i.value ∧
    ((∃ f ∈ m.functions, ∃ c ∈ m'.functions, i.op = .call (some f.ref) ∧ (f.ref, c.ref) ∈ clones ∧
        j.op = .call (some c.ref) ∧
        j.operands = i.operands.map (·.subst σ) ++ List.replicate f.pointerParams.length zero ∧
        j.operands.map Operand.type = c.types) ∨
      ((∀ callee clone, i.op = .call (some callee) → (callee, clone) ∉ clones) ∧ j.op = i.op ∧
        j.operands = i.operands.map (·.subst σ)))

def Version (m m' : Module) (clones : List (ℕ × ℕ)) (f g : Function) : Prop :=
  (f.ref = g.ref ∨ (f.ref, g.ref) ∈ clones) ∧
    ∃ σ, Set.InjOn σ {v | v ∈ f.code.map Inst.value} ∧
      Option.Rel (List.Forall₂ (CallRedirected m m' clones σ)) f.body g.body

structure Redirected (m m' : Module) (clones : List (ℕ × ℕ)) : Prop where
  once : (clones.map Prod.fst).Nodup
  notAgain : ∀ p ∈ clones, p.2 ∉ clones.map Prod.fst
  versions : ∀ f ∈ m.functions, ∃ g ∈ m'.functions, Version m m' clones f g
  remaining : ∀ g ∈ m'.functions, ∃ f ∈ m.functions, Version m m' clones f g

def Redirectable (m : Module) : Prop :=
  ∀ k f, m.functions[k]? = some f → Instrumentable m k f → Free m f ∧
    ∀ i ∈ m.code, i.op = .call (some f.ref) → i.operands.length = f.params.length

variable {r : Renaming} {order : List (ℕ × Inst) → List (ℕ × Inst)} {m m' : Module} {s : Run}
  {f c : Function} {i : Inst} {cs : List Function} {calls : List (ℕ × Inst)}

lemma foldlM_removeFunction {names : List Text} (hnodup : names.Nodup) (hnamed : [] ∉ names)
    (hpresent : ∀ n ∈ names, ∃ f ∈ m.functions, f.name = n)
    (hunique : ∀ f ∈ m.functions, ∀ g ∈ m.functions, f.name ∈ names →
      (g.name = f.name ↔ g.ref = f.ref)) :
    names.foldlM removeFunction m =
      some { m with functions := m.functions.filter fun f => f.name ∉ names } := by
  induction names generalizing m with
  | nil =>
    rw [List.foldlM_nil]
    have hall : m.functions.filter (fun f => f.name ∉ ([] : List Text)) = m.functions := by
      simp
    rw [hall]
    rfl
  | cons name names ih =>
    obtain ⟨hname, hnodup⟩ := List.nodup_cons.mp hnodup
    have hne : name ≠ [] := fun heq => hnamed (heq ▸ List.mem_cons_self)
    obtain ⟨f, hf⟩ : ∃ f, (m.functions.find? fun f => f.name = name) = some f := by
      rw [← Option.isSome_iff_exists, List.find?_isSome]
      obtain ⟨f, hf, heq⟩ := hpresent name List.mem_cons_self
      exact ⟨f, hf, decide_eq_true heq⟩
    have hfname : f.name = name := by simpa using List.find?_some hf
    have hfmem := List.mem_of_find?_eq_some hf
    have hgone : m.functions.filter (fun g => g.ref ≠ f.ref) =
        m.functions.filter fun g => g.name ≠ name := by
      apply List.filter_congr
      intro g hg
      have hiff := hunique f hfmem g hg (hfname ▸ List.mem_cons_self)
      rw [hfname] at hiff
      simp [hiff]
    have hremove : removeFunction m name =
        some { m with functions := m.functions.filter fun g => g.name ≠ name } := by
      rw [removeFunction, Module.getFunction, if_neg hne, hf, Option.map_some, hgone]
    rw [List.foldlM_cons, hremove]
    refine (ih hnodup (fun hmem => hnamed (List.mem_cons_of_mem _ hmem)) ?_ ?_).trans ?_
    · intro n hn
      obtain ⟨g, hg, rfl⟩ := hpresent n (List.mem_cons_of_mem _ hn)
      have hkeep : g.name ≠ name := fun heq => hname (heq ▸ hn)
      exact ⟨g, List.mem_filter.mpr ⟨hg, decide_eq_true hkeep⟩, rfl⟩
    · intro g hg g' hg' hmem
      exact hunique g (List.mem_of_mem_filter hg) g' (List.mem_of_mem_filter hg')
        (List.mem_cons_of_mem _ hmem)
    · rw [List.filter_filter]
      congr 2
      apply List.filter_congr
      intro g _
      by_cases heq : g.name = name <;> simp [heq]

lemma name_inj (hwf : m.WellFormed) {g : Function} (hf : f ∈ m.functions) (hg : g ∈ m.functions)
    (hname : g.name = f.name) (hne : f.name ≠ []) : g = f := by
  obtain ⟨j, hj⟩ := List.getElem?_of_mem hg
  obtain ⟨k, hk⟩ := List.getElem?_of_mem hf
  rw [name_injective hwf hj hk hname hne, hk] at hj
  exact (Option.some.inj hj).symm

lemma ref_inj (hwf : m.WellFormed) {g : Function} (hf : f ∈ m.functions) (hg : g ∈ m.functions)
    (href : g.ref = f.ref) : g = f :=
  List.inj_on_of_nodup_map hwf.refs hg hf href

def cloned (m : Module) : List Function := chosen m m.functions.length

lemma cloned_sublist (m : Module) : (cloned m).Sublist m.functions := by
  have hsub := chosen_sublist m m.functions.length
  rw [List.take_length] at hsub
  exact hsub

def names (m : Module) : List Text := (cloned m).map Function.name

lemma mem_names (hwf : m.WellFormed) (hfree : ∀ g ∈ cloned m, Free m g) (hf : f ∈ m.functions) :
    f.name ∈ names m ↔ f ∈ cloned m := by
  constructor
  · intro hmem
    obtain ⟨g, hg, hname⟩ := List.mem_map.mp hmem
    have hsame : f = g :=
      name_inj hwf ((cloned_sublist m).subset hg) hf hname.symm (hfree g hg).named
    exact hsame ▸ hg
  · exact List.mem_map_of_mem

lemma names_nodup (hwf : m.WellFormed) (hfree : ∀ g ∈ cloned m, Free m g) : (names m).Nodup := by
  have hall : (names m).filter (· ≠ []) = names m := by
    rw [List.filter_eq_self]
    intro n hn
    obtain ⟨g, hg, rfl⟩ := List.mem_map.mp hn
    exact decide_eq_true (hfree g hg).named
  rw [← hall]
  refine List.Nodup.sublist ?_ hwf.names
  apply List.Sublist.filter
  exact ((cloned_sublist m).map _).trans (List.sublist_append_right _ _)

namespace Done

variable (h : Done m cs s) (hwf : m.WellFormed) (hfree : ∀ g ∈ cloned m, Free m g)

include h in
lemma keys : s.instrumented.map Prod.fst = names m := by
  rw [h.instrumented, List.map_map]
  rfl

include h in
lemma mem_clones {p : ℕ × ℕ} :
    p ∈ s.clones ↔ ∃ f c, (f, c) ∈ (cloned m).zip cs ∧ p = (f.ref, c.ref) := by
  rw [h.clones, ← List.map_uncurry_zip_eq_zipWith, List.mem_map]
  constructor
  · rintro ⟨⟨f, c⟩, hmem, rfl⟩
    exact ⟨f, c, hmem, rfl⟩
  · rintro ⟨f, c, hmem, rfl⟩
    exact ⟨(f, c), hmem, rfl⟩

include h in
lemma clones_fst : s.clones.map Prod.fst = (cloned m).map Function.ref := by
  rw [h.clones, ← List.map_uncurry_zip_eq_zipWith, List.map_map]
  have hzip := congrArg (List.map Function.ref) (List.map_fst_zip h.isClone.length_eq.le)
  rw [List.map_map] at hzip
  exact hzip

include h in
lemma isClone_of_mem (hmem : (f, c) ∈ (cloned m).zip cs) : IsClone f c :=
  (List.forall₂_iff_zip.mp h.isClone).2 hmem

include h in
lemma exists_clone (hf : f ∈ cloned m) : ∃ c, (f, c) ∈ (cloned m).zip cs := by
  have hfst := List.map_fst_zip h.isClone.length_eq.le
  have hf : f ∈ ((cloned m).zip cs).map Prod.fst := hfst.symm ▸ hf
  obtain ⟨⟨_, c⟩, hmem, rfl⟩ := List.mem_map.mp hf
  exact ⟨c, hmem⟩

include h in
lemma exists_original (hc : c ∈ cs) : ∃ f, (f, c) ∈ (cloned m).zip cs := by
  have hsnd := List.map_snd_zip h.isClone.length_eq.ge
  have hc : c ∈ ((cloned m).zip cs).map Prod.snd := hsnd.symm ▸ hc
  obtain ⟨⟨f, _⟩, hmem, rfl⟩ := List.mem_map.mp hc
  exact ⟨f, hmem⟩

include h in
lemma mem_of_mem_zip (hmem : (f, c) ∈ (cloned m).zip cs) :
    f ∈ cloned m ∧ f ∈ m.functions ∧ c ∈ cs ∧ c ∈ s.module.functions := by
  obtain ⟨hf, hc⟩ := List.of_mem_zip hmem
  refine ⟨hf, (cloned_sublist m).subset hf, hc, ?_⟩
  rw [h.functions]
  exact List.mem_append_right _ hc

include h hfree in
lemma name_notMem (hc : c ∈ cs) : c.name ∉ names m := by
  obtain ⟨f, hmem⟩ := h.exists_original hc
  rw [(h.isClone_of_mem hmem).name]
  intro hname
  apply (hfree f (h.mem_of_mem_zip hmem).1).free
  obtain ⟨g, hg, hname⟩ := List.mem_map.mp hname
  rw [← hname]
  exact mem_symbols ((cloned_sublist m).subset hg)

include h hfree in
lemma redirect_cloned (hmem : (f, c) ∈ (cloned m).zip cs) (hwf : m.WellFormed)
    (hcall : i.op = .call (some f.ref)) :
    redirect s.module s.instrumented i =
      some (c.ref, i.operands ++ List.replicate f.pointerParams.length zero) := by
  obtain ⟨hf, hfm, -, hcs⟩ := h.mem_of_mem_zip hmem
  have hfs : f ∈ s.module.functions := h.functions ▸ List.mem_append_left _ hfm
  have hname := (h.isClone_of_mem hmem).name
  have href : (s.module.functions.find? fun g => g.ref = f.ref) = some f := by
    apply find?_of_unique hfs (decide_eq_true rfl)
    intro g hg heq
    exact ref_inj h.wellFormed hfs hg (of_decide_eq_true heq)
  have hentry : (s.instrumented.find? fun entry => entry.1 = f.name) =
      some (f.name, f.pointerParams.length) := by
    apply find?_of_mem
    · rw [h.keys]
      exact names_nodup hwf hfree
    · rw [h.instrumented]
      exact List.mem_map.mpr ⟨f, hf, rfl⟩
  have hsuffix : f.name ++ instrumentedSuffix ≠ [] := by
    intro hnil
    exact (hfree f hf).named (List.append_eq_nil_iff.mp hnil).1
  have hclone : s.module.getFunction (f.name ++ instrumentedSuffix) = some c := by
    rw [Module.getFunction, if_neg hsuffix]
    apply find?_of_unique hcs (decide_eq_true hname)
    intro g hg heq
    have heq := of_decide_eq_true heq
    exact name_inj h.wellFormed hcs hg (heq.trans hname.symm) (hname ▸ hsuffix)
  rw [redirect, hcall]
  simp only [href, hentry, hclone, Option.bind_eq_bind, Option.bind_some]

include h hfree in
lemma redirect_other (hwf : m.WellFormed)
    (hother : ∀ f ∈ cloned m, i.op ≠ .call (some f.ref)) :
    redirect s.module s.instrumented i = none := by
  rw [redirect]
  split
  · rename_i callee hcall
    cases hg : s.module.functions.find? fun g => g.ref = callee with
    | none => rfl
    | some g =>
      have href : g.ref = callee := by simpa using List.find?_some hg
      have hgs := List.mem_of_find?_eq_some hg
      have hname : g.name ∉ s.instrumented.map Prod.fst := by
        rw [h.keys]
        rw [h.functions, List.mem_append] at hgs
        rcases hgs with hgs | hgs
        · rw [mem_names hwf hfree hgs]
          intro hcloned
          apply hother g hcloned
          rw [hcall, href]
        · exact h.name_notMem hfree hgs
      have hentry : (s.instrumented.find? fun entry => entry.1 = g.name) = none := by
        rw [List.find?_eq_none]
        intro entry hentry heq
        exact hname (List.mem_map.mpr ⟨entry, hentry, of_decide_eq_true heq⟩)
      simp only [Option.bind_eq_bind, Option.bind_some, hentry, Option.bind_none]
  · rfl
  · rfl

end Done

def replacedCalls (s : Run) (order : List (ℕ × Inst) → List (ℕ × Inst)) : List (ℕ × Inst) :=
  order (funcalls s.module s.instrumented)

def leftover (s : Run) (order : List (ℕ × Inst) → List (ℕ × Inst)) : Module :=
  { instrumentCalls s.module s.instrumented order with
    functions := (s.module.functions.map (replaceCalls (replacedCalls s order))).filter fun f =>
      f.name ∉ s.instrumented.map Prod.fst }

lemma mem_leftover {g : Function} : g ∈ (leftover s order).functions ↔
    ∃ c ∈ s.module.functions, c.name ∉ s.instrumented.map Prod.fst ∧
      replaceCalls (replacedCalls s order) c = g := by
  rw [leftover, List.mem_filter, List.mem_map]
  constructor
  · rintro ⟨⟨c, hc, rfl⟩, hname⟩
    exact ⟨c, hc, of_decide_eq_true hname, rfl⟩
  · rintro ⟨c, hc, hname, rfl⟩
    exact ⟨⟨c, hc, rfl⟩, decide_eq_true hname⟩

lemma operands_shift (d : ℕ) (i : Inst) :
    (i.shift d).operands = i.operands.map (·.subst (· + d)) := rfl

lemma map_subst_subst (σ τ : ℕ → ℕ) (os : List Operand) :
    (os.map (·.subst τ)).map (·.subst σ) = os.map (·.subst fun v => σ (τ v)) := by
  rw [List.map_map]
  apply List.map_congr_left
  intro o _
  exact Operand.subst_subst σ τ o

lemma types_map_subst (σ : ℕ → ℕ) (os : List Operand) :
    (os.map (·.subst σ)).map Operand.type = os.map Operand.type := by
  rw [List.map_map]
  apply List.map_congr_left
  intro o _
  exact Operand.subst_type σ o

lemma map_shift_zero (body : Option (List Inst)) :
    (body.map fun code => code.map (Inst.shift 0)) = body := by
  have hid : Inst.shift 0 = id := by
    funext i
    exact Instruction.subst_id i
  simp [hid]

lemma mem_cloned : f ∈ cloned m ↔ ∃ k, m.functions[k]? = some f ∧ Instrumentable m k f := by
  rw [cloned, mem_chosen]
  constructor
  · rintro ⟨k, -, hf⟩
    exact ⟨k, hf⟩
  · rintro ⟨k, hf⟩
    exact ⟨k, (List.getElem?_eq_some_iff.mp hf.1).1, hf⟩

def Counted (m : Module) : Prop :=
  ∀ f ∈ cloned m, ∀ i ∈ m.code, i.op = .call (some f.ref) → i.operands.length = f.params.length

lemma redirectable_iff :
    Redirectable m ↔ (∀ f ∈ cloned m, Free m f) ∧ Counted m := by
  constructor
  · intro h
    constructor
    · intro f hf
      obtain ⟨k, hk, hi⟩ := mem_cloned.mp hf
      exact (h k f hk hi).1
    · intro f hf
      obtain ⟨k, hk, hi⟩ := mem_cloned.mp hf
      exact (h k f hk hi).2
  · rintro ⟨hfree, hcounted⟩ k f hf hi
    have hmem := mem_cloned.mpr ⟨k, hf, hi⟩
    exact ⟨hfree f hmem, hcounted f hmem⟩

namespace Done

variable (h : Done m cs s) (hwf : m.WellFormed) (hfree : ∀ g ∈ cloned m, Free m g)
  (horder : ∀ l, (order l).Perm l)

include h horder in
lemma collected : Collected s.module s.instrumented (replacedCalls s order) :=
  (Instrumentor.collected h.wellFormed).perm (horder _)

include h hwf hfree in
lemma removed : (s.instrumented.map Prod.fst).foldlM removeFunction
    (instrumentCalls s.module s.instrumented order) = some (leftover s order) := by
  apply foldlM_removeFunction
  · rw [h.keys]
    exact names_nodup hwf hfree
  · rw [h.keys]
    intro hmem
    obtain ⟨f, hf, hname⟩ := List.mem_map.mp hmem
    exact (hfree f hf).named hname
  · rw [h.keys]
    intro n hn
    obtain ⟨f, hf, rfl⟩ := List.mem_map.mp hn
    have hfs : f ∈ s.module.functions :=
      h.functions ▸ List.mem_append_left _ ((cloned_sublist m).subset hf)
    exact ⟨_, List.mem_map_of_mem hfs, rfl⟩
  · intro f' hf' g' hg' hname
    obtain ⟨f, hf, rfl⟩ := List.mem_map.mp hf'
    obtain ⟨g, hg, rfl⟩ := List.mem_map.mp hg'
    have hne : f.name ≠ [] := by
      rw [h.keys] at hname
      obtain ⟨f', hf', heq⟩ := List.mem_map.mp hname
      have heq : f'.name = f.name := heq
      exact heq ▸ (hfree f' hf').named
    constructor
    · intro heq
      have hsame := name_inj h.wellFormed hf hg heq hne
      rw [hsame]
    · intro heq
      have hsame := ref_inj h.wellFormed hf hg heq
      rw [hsame]

include h hwf hfree horder in
lemma callRedirected (hcounted : Counted m) {d : ℕ} (hi : i ∈ m.code)
    (hsearched : i.shift d ∈ searched s.module s.instrumented) :
    CallRedirected m (leftover s order) s.clones
      (fun v => renamed (replacedCalls s order) (v + d)) i
      (replaced (replacedCalls s order) (i.shift d)) := by
  have hcollected := h.collected horder
  by_cases hcall : ∃ f ∈ cloned m, i.op = .call (some f.ref)
  · obtain ⟨f, hf, hop⟩ := hcall
    obtain ⟨c, hmem⟩ := h.exists_clone hf
    obtain ⟨-, hfm, hcs, hcm⟩ := h.mem_of_mem_zip hmem
    have hredirect := h.redirect_cloned (i := i.shift d) hfree hmem hwf hop
    obtain ⟨hvalue, hop', hoperands⟩ :=
      hcollected.replaced_call h.wellFormed hsearched hredirect
    have hzero : (List.replicate f.pointerParams.length zero).map
        (·.subst (renamed (replacedCalls s order))) =
          List.replicate f.pointerParams.length zero := List.map_replicate
    rw [List.map_append, operands_shift, map_subst_subst, hzero] at hoperands
    have hkept : c.name ∉ s.instrumented.map Prod.fst := by
      rw [h.keys]
      exact h.name_notMem hfree hcs
    refine ⟨hvalue, Or.inl ⟨f, hfm, replaceCalls (replacedCalls s order) c,
      mem_leftover.mpr ⟨c, hcm, hkept, rfl⟩, hop, h.mem_clones.mpr ⟨f, c, hmem, rfl⟩, hop',
      hoperands, ?_⟩⟩
    -- as many arguments as parameters, so their types are all the types of the parameters
    obtain ⟨g, hg, hgref, htypes, -⟩ := hwf.typed i hi f.ref hop
    rw [ref_inj hwf hfm hg hgref] at htypes
    have hlength : f.types.length = (i.operands.map Operand.type).length := by
      rw [Function.types, List.length_map, List.length_map]
      exact (hcounted f hf i hi hop).symm
    have hclone := (h.isClone_of_mem hmem).types
    rw [htypes.eq_of_length hlength] at hclone
    rw [hoperands, List.map_append, types_map_subst, List.map_replicate]
    exact hclone.symm
  · have hother : ∀ f ∈ cloned m, i.op ≠ .call (some f.ref) := by
      intro f hf hop
      exact hcall ⟨f, hf, hop⟩
    have hredirect := h.redirect_other (i := i.shift d) hfree hwf hother
    obtain ⟨hvalue, hop', hoperands⟩ := hcollected.replaced_other h.wellFormed
      ((searched_sublist _ _).subset hsearched) hredirect
    rw [operands_shift, map_subst_subst] at hoperands
    refine ⟨hvalue, Or.inr ⟨?_, hop', hoperands⟩⟩
    intro callee clone hop hclone
    obtain ⟨f, c, hmem, heq⟩ := h.mem_clones.mp hclone
    cases heq
    exact hother f (h.mem_of_mem_zip hmem).1 hop

include h hwf hfree horder in
lemma version (hcounted : Counted m) {d : ℕ} (hf : f ∈ m.functions) (hc : c ∈ s.module.functions)
    (hname : c.name ∉ s.instrumented.map Prod.fst)
    (hbody : c.body = f.body.map fun code => code.map (Inst.shift d))
    (href : f.ref = c.ref ∨ (f.ref, c.ref) ∈ s.clones) :
    Version m (leftover s order) s.clones f (replaceCalls (replacedCalls s order) c) := by
  have hcollected := h.collected horder
  have hcode : ∀ i ∈ f.code, i.shift d ∈ c.code := by
    intro i hi
    rw [Function.code] at hi ⊢
    rw [hbody]
    cases hfbody : f.body with
    | none => simp [hfbody] at hi
    | some code =>
      rw [hfbody] at hi
      exact List.mem_map_of_mem hi
  refine ⟨href, fun v => renamed (replacedCalls s order) (v + d), ?_, ?_⟩
  · have hlt : ∀ v ∈ f.code.map Inst.value, v + d < s.module.next := by
      intro v hv
      obtain ⟨i, hi, rfl⟩ := List.mem_map.mp hv
      exact h.wellFormed.next _ (mem_code_of_mem hc (hcode i hi))
    intro v hv w hw heq
    exact Nat.add_right_cancel (hcollected.renamed_injOn (hlt v hv) (hlt w hw) heq)
  · rw [hcollected.replaceCalls_eq, hbody, Option.map_map]
    cases hfbody : f.body with
    | none => exact Option.Rel.none
    | some code =>
      apply Option.Rel.some
      rw [Function.comp_apply, List.map_map, List.forall₂_map_right_iff, List.forall₂_same]
      intro i hi
      have hi : i ∈ f.code := by
        rw [Function.code, hfbody]
        exact hi
      apply h.callRedirected hwf hfree horder hcounted (mem_code_of_mem hf hi)
      rw [searched, List.mem_flatMap]
      exact ⟨c, List.mem_filter.mpr ⟨hc, decide_eq_true hname⟩, hcode i hi⟩

include h hwf hfree horder in
lemma redirected (hcounted : Counted m) : Redirected m (leftover s order) s.clones where
  once := by
    rw [h.clones_fst]
    exact List.Nodup.sublist ((cloned_sublist m).map _) hwf.refs
  notAgain p hp := by
    obtain ⟨f, c, hmem, rfl⟩ := h.mem_clones.mp hp
    obtain ⟨-, -, hc, -⟩ := h.mem_of_mem_zip hmem
    rw [h.clones_fst]
    intro href
    obtain ⟨g, hg, href⟩ := List.mem_map.mp href
    have hrefs := h.wellFormed.refs
    rw [h.functions, List.map_append, List.nodup_append] at hrefs
    exact hrefs.2.2 g.ref (List.mem_map_of_mem ((cloned_sublist m).subset hg)) c.ref
      (List.mem_map_of_mem hc) href
  versions f hf := by
    by_cases hcloned : f ∈ cloned m
    · obtain ⟨c, hmem⟩ := h.exists_clone hcloned
      obtain ⟨-, -, hcs, hc⟩ := h.mem_of_mem_zip hmem
      obtain ⟨d, hbody⟩ := (h.isClone_of_mem hmem).body
      have hname : c.name ∉ s.instrumented.map Prod.fst := by
        rw [h.keys]
        exact h.name_notMem hfree hcs
      have href := h.mem_clones.mpr ⟨f, c, hmem, rfl⟩
      exact ⟨_, mem_leftover.mpr ⟨c, hc, hname, rfl⟩,
        h.version hwf hfree horder hcounted hf hc hname hbody (Or.inr href)⟩
    · have hname : f.name ∉ s.instrumented.map Prod.fst := by
        rw [h.keys, mem_names hwf hfree hf]
        exact hcloned
      have hfs : f ∈ s.module.functions := h.functions ▸ List.mem_append_left _ hf
      exact ⟨_, mem_leftover.mpr ⟨f, hfs, hname, rfl⟩,
        h.version hwf hfree horder hcounted hf hfs hname (map_shift_zero _).symm (Or.inl rfl)⟩
  remaining g hg := by
    obtain ⟨c, hc, hname, rfl⟩ := mem_leftover.mp hg
    have hcases := hc
    rw [h.functions, List.mem_append] at hcases
    rcases hcases with hcm | hcs
    · exact ⟨c, hcm,
        h.version hwf hfree horder hcounted hcm hc hname (map_shift_zero _).symm (Or.inl rfl)⟩
    · obtain ⟨f, hmem⟩ := h.exists_original hcs
      obtain ⟨-, hf, -, -⟩ := h.mem_of_mem_zip hmem
      obtain ⟨d, hbody⟩ := (h.isClone_of_mem hmem).body
      have href := h.mem_clones.mpr ⟨f, c, hmem, rfl⟩
      exact ⟨f, hf, h.version hwf hfree horder hcounted hf hc hname hbody (Or.inr href)⟩

include h hwf in
lemma counted (hredirected : Redirected m (leftover s order) s.clones) : Counted m := by
  intro f hf i hi hop
  obtain ⟨c, hmem⟩ := h.exists_clone hf
  obtain ⟨-, hfm, -, hc⟩ := h.mem_of_mem_zip hmem
  have hclone := h.mem_clones.mpr ⟨f, c, hmem, rfl⟩
  -- the version of the function with the call has a call in its place
  obtain ⟨e, he, hie⟩ := List.mem_flatMap.mp hi
  obtain ⟨g, -, -, σ, -, hcode⟩ := hredirected.versions e he
  rw [Function.code] at hie
  cases hbody : e.body with
  | none => simp [hbody] at hie
  | some code =>
    rw [hbody] at hcode hie
    generalize g.body = body at hcode
    cases hcode with
    | some hcode =>
      obtain ⟨j, -, hj⟩ := exists_right_of_mem hcode hie
      rcases hj.2 with ⟨f', hf', g', hg', hop', hclone', -, hoperands, htypes⟩ | ⟨hother, -⟩
      · have href : f'.ref = f.ref := by
          have hcallee := hop'.symm.trans hop
          injection hcallee with hcallee
          exact Option.some.inj hcallee
        have hsame := ref_inj hwf hfm hf' href
        subst hsame
        obtain ⟨x, hx, -, rfl⟩ := mem_leftover.mp hg'
        obtain ⟨f'', c', hmem', heq⟩ := h.mem_clones.mp hclone'
        obtain ⟨-, hfm', -, hc'⟩ := h.mem_of_mem_zip hmem'
        have hsame := ref_inj hwf hfm hfm' (congrArg Prod.fst heq).symm
        subst hsame
        have hsame := ref_inj h.wellFormed hc' hx (congrArg Prod.snd heq)
        subst hsame
        have htypes' := (h.isClone_of_mem hmem').types
        have hlength := congrArg List.length (htypes.trans htypes')
        rw [hoperands] at hlength
        simp only [List.length_map, List.length_append, List.length_replicate, Function.types] at hlength
        omega
      · exact absurd hclone (hother f.ref c.ref hop)

end Done

lemma redirectable_of_redirected (hwf : m.WellFormed) {fuel : ℕ} {clones : List (ℕ × ℕ)}
    (hrun : runOnModule r order fuel m = some (m', clones)) (hredirected : Redirected m m' clones) :
    Redirectable m := by
  rw [redirectable_iff]
  obtain ⟨s, hs, hrun⟩ := Option.bind_eq_some_iff.mp hrun
  obtain ⟨m'', hremoved, hrun⟩ := Option.bind_eq_some_iff.mp hrun
  cases hrun
  have hfree : ∀ f ∈ cloned m, Free m f := by
    intro f hf
    by_contra hnot
    obtain ⟨k, hk, hi⟩ := mem_cloned.mp hf
    obtain ⟨k, f, hk, hi, hnot, hearlier⟩ := exists_first ⟨k, f, hk, hi, hnot⟩
    rcases not_free hwf hk hi hnot hearlier hs with hnil | ⟨p, hp, hagain⟩
    · rw [foldlM_removeFunction_none hnil] at hremoved
      cases hremoved
    · exact hredirected.notAgain p hp hagain
  obtain ⟨cs, t, hdone, -, hunique⟩ := finished r hwf hfree
  have hsame := hunique fuel s hs
  subst hsame
  rw [hdone.removed hwf hfree] at hremoved
  cases hremoved
  exact ⟨hfree, hdone.counted hwf hredirected⟩

lemma redirected_of_redirectable (r : Renaming) (hwf : m.WellFormed)
    (horder : ∀ l, (order l).Perm l) (h : Redirectable m) :
    ∃ fuel m' clones, runOnModule r order fuel m = some (m', clones) ∧ Redirected m m' clones := by
  obtain ⟨hfree, hcounted⟩ := redirectable_iff.mp h
  obtain ⟨cs, s, hdone, ⟨fuel, hs⟩, -⟩ := finished r hwf hfree
  refine ⟨fuel, leftover s order, s.clones, ?_, hdone.redirected hwf hfree horder hcounted⟩
  have hs : visitFrom r fuel 0 ⟨m, initialBlacklist, [], []⟩ = some s := hs
  rw [runOnModule]
  simp only [Option.bind_eq_bind, hs, Option.bind_some, hdone.removed hwf hfree]

theorem calls_redirected_iff (r : Renaming) (order : List (ℕ × Inst) → List (ℕ × Inst))
    (horder : ∀ l, (order l).Perm l) (m : Module) (hwf : m.WellFormed) :
    (∃ fuel m' clones, runOnModule r order fuel m = some (m', clones) ∧ Redirected m m' clones) ↔
      Redirectable m := by
  constructor
  · rintro ⟨fuel, m', clones, hrun, hredirected⟩
    exact redirectable_of_redirected hwf hrun hredirected
  · exact redirected_of_redirectable r hwf horder

def callOf (arguments : List Operand) : Inst := ⟨0, .call (some 0), arguments, fun _ => none⟩

def callModule (varArg : Bool) (arguments : List Operand) : Module where
  globals := []
  functions := [⟨0, ['f'], [⟨['p'], .pointer 0⟩], varArg, some []⟩,
    ⟨1, mainName, [], false, some [callOf arguments]⟩]
  nextRef := 2
  next := 1

def nullPointer : Operand := ⟨.const 0, .pointer 0⟩

lemma wellFormed_callModule (varArg : Bool) (rest : List Operand)
    (h : varArg = false → rest = []) : (callModule varArg (nullPointer :: rest)).WellFormed where
  names := by
    have hsymbols : (callModule varArg (nullPointer :: rest)).symbols = [['f'], mainName] := rfl
    rw [hsymbols]
    decide
  refs := by
    have hrefs : (callModule varArg (nullPointer :: rest)).functions.map Function.ref = [0, 1] := rfl
    rw [hrefs]
    decide
  nextRef := by simp [callModule]
  values := by simp [callModule, Module.code, Function.code]
  next := by simp [callModule, Module.code, Function.code, callOf]
  typed := by
    intro i hi c hc
    have hi : i = callOf (nullPointer :: rest) := by
      simpa [callModule, Module.code, Function.code] using hi
    subst hi
    have hc : c = 0 := by
      injection hc with hc
      exact (Option.some.inj hc).symm
    subst hc
    refine ⟨_, List.mem_cons_self, rfl, ⟨rest.map Operand.type, rfl⟩, ?_⟩
    intro hvarArg
    rw [h hvarArg]
    rfl

theorem calls_redirected_fixed :
    ∃ fuel m' clones, runOnModule numbered id fuel (callModule false [nullPointer]) =
      some (m', clones) ∧ Redirected (callModule false [nullPointer]) m' clones := by
  have hwf := wellFormed_callModule false [] fun _ => rfl
  apply (calls_redirected_iff numbered id (fun _ => List.Perm.refl _) _ hwf).mpr
  rw [redirectable_iff]
  have hcloned : cloned (callModule false [nullPointer]) =
      [⟨0, ['f'], [⟨['p'], .pointer 0⟩], false, some []⟩] := rfl
  have hcode : (callModule false [nullPointer]).code = [callOf [nullPointer]] := rfl
  rw [Counted, hcloned, hcode]
  simp only [List.mem_singleton, forall_eq]
  exact ⟨⟨by decide, by decide⟩, fun _ => rfl⟩

theorem calls_not_redirected_varArg :
    ¬ ∃ fuel m' clones, runOnModule numbered id fuel (callModule true [nullPointer, nullPointer]) =
      some (m', clones) ∧ Redirected (callModule true [nullPointer, nullPointer]) m' clones := by
  rintro ⟨fuel, m', clones, hrun, hredirected⟩
  have hwf := wellFormed_callModule true [nullPointer] (by simp)
  have h := redirectable_of_redirected hwf hrun hredirected
  have hlength := (h 0 _ rfl (by decide)).2 (callOf [nullPointer, nullPointer])
    (by simp [callModule, Module.code, Function.code]) rfl
  exact absurd hlength (by decide)

end Embedwatch.Instrumentor
