import Embedwatch.Svf.FirstHits
import Embedwatch.Svf.IndirectUses

/-! The names that are attached to indirect uses, in terms of the graph and the functions: when the
function of the use has an argument of that name. -/

namespace Embedwatch.Svf.PAG

open Relation Library.PlainText Library.Worklist
open Ir (instrumentedSuffix endsWith)
open Visits (dominatorAt dominatorNext)

variable (pag : PAG) (svf : Graphs)

inductive StartsAt (v : Value) : PAGNode → Prop
  | edge {before after : List PAGEdge} {e : PAGEdge} :
    pag.inEdges (svf.node v) = before ++ e :: after → (∀ e' ∈ before, e'.value ≠ some v) →
    e.value = some v → StartsAt v e.src
  | node : (∀ e ∈ pag.inEdges (svf.node v), e.value ≠ some v) → StartsAt v (svf.node v)

def GoesThrough (instr : Value) (o : PAGNode) : Prop :=
  ∃ n, pag.StartsAt svf (pag.useTarget instr) n ∧ Meets (dominatorAt pag) (dominatorNext pag) n o

def FirstAliased (v : Value) (g : Fun) (a : Text × Value) : Prop :=
  ∃ before after, g.args = before ++ a :: after ∧ (∀ b ∈ before, pag.noAlias v b.2 = true) ∧
    pag.noAlias v a.2 = false

def StoresArgument (st : PAGEdge) (g : Fun) (a : Text × Value) : Prop :=
  st.value.bind pag.functionOf = some g ∧ endsWith g.name instrumentedSuffix = true ∧
    pag.FirstAliased st.src.value g a

def NamedIn (instr : Value) (f : Fun) : Prop :=
  ∃ o e before st after g a, pag.GoesThrough svf instr o ∧ e ∈ pag.addrEdges o ∧
    pag.storeEdges e.dst = before ++ st :: after ∧
    (∀ st' ∈ before, ∀ g' a', ¬ pag.StoresArgument st' g' a') ∧ pag.StoresArgument st g a ∧
    (∃ b ∈ f.args, b.1 = a.1) ∧ ∃ b ∈ f.args, b.1 = argumentId a.1

variable {pag svf} {instr v : Value} {n o pn : PAGNode} {st : PAGEdge} {a : Text × Value}

lemma startsAt_iff : pag.StartsAt svf v n ↔ pag.useStart svf v = n := by
  constructor
  · rintro (⟨hedges, hbefore, he⟩ | hnone)
    · have hfind : (pag.inEdges (svf.node v)).find? (fun e => e.value = some v) = some _ :=
        List.find?_eq_some_iff_append.mpr ⟨decide_eq_true he, _, _, hedges, by simpa using hbefore⟩
      rw [useStart, hfind]
    · have hfind : (pag.inEdges (svf.node v)).find? (fun e => e.value = some v) = none :=
        List.find?_eq_none.mpr (by simpa using hnone)
      rw [useStart, hfind]
  · rintro rfl
    rw [useStart]
    split
    · next e hfind =>
      obtain ⟨he, before, after, hedges, hbefore⟩ := List.find?_eq_some_iff_append.mp hfind
      exact StartsAt.edge hedges (by simpa using hbefore) (of_decide_eq_true he)
    · next hfind => exact StartsAt.node (by simpa using List.find?_eq_none.mp hfind)

lemma goesThrough_iff
    (h : pag.findFirstDominator (pag.useStart svf (pag.useTarget instr)) = some (some pn)) :
    pag.GoesThrough svf instr o ↔ o = pn := by
  rw [findFirstDominator, Visits.visitFirstDominator_eq, Visits.findFirstDominator,
    Option.map_eq_some_iff] at h
  obtain ⟨ret, hret, hhead⟩ := h
  rw [Visits.visitAndSelectPagNodes, Visits.selectFirstDominator_eq] at hret
  have hmeets : ∀ d, ret.head? = some d ↔ Meets (dominatorAt pag) (dominatorNext pag)
      (pag.useStart svf (pag.useTarget instr)) d := fun d =>
    run_first_meets_iff (Visits.finite_next fun n => List.filter_subset_self _) hret
  constructor
  · rintro ⟨n, hn, ho⟩
    rw [startsAt_iff] at hn
    rw [← hn, ← hmeets, hhead] at ho
    exact (Option.some.inj ho).symm
  · rintro rfl
    exact ⟨_, startsAt_iff.mpr rfl, (hmeets o).mp hhead⟩

lemma checkParameterAliasing_eq_some_iff {g : Fun} :
    pag.checkParameterAliasing v g = some a ↔ pag.FirstAliased v g a := by
  rw [checkParameterAliasing, List.find?_eq_some_iff_append, FirstAliased]
  simp only [Bool.not_eq_true', Bool.not_eq_false']
  constructor
  · rintro ⟨ha, before, after, hargs, hbefore⟩
    exact ⟨before, after, hargs, by simpa using hbefore, ha⟩
  · rintro ⟨before, after, hargs, hbefore, ha⟩
    exact ⟨ha, before, after, hargs, by simpa using hbefore⟩

lemma storeArgument_eq_some_iff :
    pag.storeArgument st = some a ↔ ∃ g, pag.StoresArgument st g a := by
  simp only [storeArgument, StoresArgument, Option.bind_eq_bind, ← Option.bind_assoc,
    Option.bind_eq_some_iff (x := st.value.bind _)]
  constructor
  · rintro ⟨g, hg, h⟩
    split at h
    · next hname => exact ⟨g, hg, hname, checkParameterAliasing_eq_some_iff.mp h⟩
    · cases h
  · rintro ⟨g, hg, hname, hfirst⟩
    refine ⟨g, hg, ?_⟩
    rw [if_pos hname]
    exact checkParameterAliasing_eq_some_iff.mpr hfirst

lemma findSome_storeArgument_eq_some_iff {es : List PAGEdge} :
    es.findSome? pag.storeArgument = some a ↔ ∃ before st after g, es = before ++ st :: after ∧
      (∀ st' ∈ before, ∀ g' a', ¬ pag.StoresArgument st' g' a') ∧ pag.StoresArgument st g a := by
  have hnone : ∀ st, pag.storeArgument st = none ↔ ∀ g a, ¬ pag.StoresArgument st g a := by
    intro st
    rw [Option.eq_none_iff_forall_ne_some]
    simp only [Ne, storeArgument_eq_some_iff, not_exists]
    exact forall_comm
  rw [List.findSome?_eq_some_iff]
  simp only [hnone, storeArgument_eq_some_iff]
  constructor
  · rintro ⟨before, st, after, hes, ⟨g, hg⟩, hbefore⟩
    exact ⟨before, st, after, g, hes, hbefore, hg⟩
  · rintro ⟨before, st, after, g, hes, hbefore, hg⟩
    exact ⟨before, st, after, hes, ⟨g, hg⟩, hbefore⟩

lemma argumentId_injective {t t' : Text} (h : argumentId t = argumentId t') : t = t' :=
  List.append_cancel_right h

lemma defRef_ne_none_iff {f : Fun} {g : Pass.Function Value} (hg : g.args = f.args)
    {value : Text} : Pass.Inst.defRef g value ≠ none ↔ ∃ b ∈ f.args, b.1 = value := by
  rw [Pass.Inst.defRef, hg, Ne, Option.map_eq_none_iff, List.find?_eq_none]
  simp only [decide_eq_true_eq, not_forall, not_not, exists_prop]

theorem ziuse_names_argument_iff {s s' : State} {ziuse : Ziuse}
    (h : pag.indirectUses svf s = some (s', ziuse)) {instr : Value} {value : Text}
    (hvalue : ziuse instr = some value) (f : Fun) {g : Pass.Function Value} (hg : g.args = f.args) :
    ((∃ a ∈ f.args, value = argumentId a.1) ∧ Pass.Inst.defRef g value ≠ none) ↔
      pag.NamedIn svf instr f := by
  obtain ⟨pn, e, arg, hpn, he, harg, rfl⟩ := indirectUses_attached h hvalue
  rw [defRef_ne_none_iff hg]
  constructor
  · rintro ⟨⟨a, ha, hname⟩, hid⟩
    obtain ⟨before, st, after, g', hstores, hbefore, hst⟩ :=
      findSome_storeArgument_eq_some_iff.mp harg
    have hmem : e ∈ pag.addrEdges pn := by
      rw [he]
      exact List.mem_singleton_self e
    exact ⟨pn, e, before, st, after, g', arg, (goesThrough_iff hpn).mpr rfl, hmem, hstores, hbefore,
      hst, ⟨a, ha, (argumentId_injective hname).symm⟩, hid⟩
  · rintro ⟨o, e', before, st, after, g', arg', ho, hmem, hstores, hbefore, hst, ⟨b, hb, hname⟩, hid⟩
    obtain rfl := (goesThrough_iff hpn).mp ho
    rw [he, List.mem_singleton] at hmem
    subst hmem
    have harg' := findSome_storeArgument_eq_some_iff.mpr
      ⟨before, st, after, g', hstores, hbefore, hst⟩
    obtain rfl := Option.some.inj (harg.symm.trans harg')
    exact ⟨⟨b, hb, by rw [hname]⟩, hid⟩

theorem ziuse_of_storing : ∃ s' ziuse,
    (loading storing).indirectUses loadingGraphs (useState storing.name) = some (s', ziuse) ∧
    ∃ value, ziuse ⟨4, .instruction⟩ = some value ∧
      (∃ a ∈ storing.args, value = argumentId a.1) ∧
      Pass.Inst.defRef ⟨storing.args, [], [], List.nodup_nil⟩ value ≠ none := by
  have hrun : ∃ s' ziuse, (loading storing).indirectUses loadingGraphs (useState storing.name) =
      some (s', ziuse) ∧ ziuse ⟨4, .instruction⟩ = some (argumentId ['q']) := ⟨_, _, rfl, rfl⟩
  obtain ⟨s', ziuse, hrun, hvalue⟩ := hrun
  refine ⟨s', ziuse, hrun, argumentId ['q'], hvalue, ?_⟩
  apply (ziuse_names_argument_iff hrun hvalue storing rfl).mpr
  have hstart : (loading storing).StartsAt loadingGraphs ⟨3, .instruction⟩ (nodeOf variable₀) :=
    startsAt_iff.mpr rfl
  have hmeets : Meets (dominatorAt (loading storing)) (dominatorNext (loading storing))
      (nodeOf variable₀) objectNode := ⟨_, ReflTransGen.refl, rfl⟩
  refine ⟨objectNode, ⟨.addr, objectNode, nodeOf variable₀, none⟩, [],
    ⟨.store, nodeOf ⟨2, .other⟩, nodeOf variable₀, some ⟨1, .instruction⟩⟩, [], storing,
    (['q'], ⟨2, .other⟩), ⟨_, hstart, hmeets⟩, List.mem_singleton_self _, rfl,
    fun _ hnil => absurd hnil List.not_mem_nil, ⟨rfl, rfl, ⟨[], _, rfl, by simp, rfl⟩⟩, ?_, ?_⟩
  · exact ⟨_, List.mem_cons_self, rfl⟩
  · exact ⟨_, List.mem_cons_of_mem _ List.mem_cons_self, rfl⟩

end Embedwatch.Svf.PAG
