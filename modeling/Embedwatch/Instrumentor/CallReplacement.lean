import Embedwatch.Instrumentor.FunctionInstrumentor
import Mathlib.Data.List.Nodup

/-! The second loop: every call that is redirected is replaced by the call created for it, and the uses
of its value are uses of that call, in whatever order the calls are replaced. -/

namespace Embedwatch.Instrumentor

open Library.PlainText Library.Replacement Ir

variable {m : Module} {instrumented : List (Text × ℕ)} {calls calls' : List (ℕ × Inst)} {i : Inst}

structure Collected (m : Module) (instrumented : List (Text × ℕ)) (calls : List (ℕ × Inst)) :
    Prop where
  olds : (calls.map Prod.fst).Nodup
  news : (calls.map fun c => c.2.value).Nodup
  bounds : ∀ c ∈ calls, c.1 < m.next ∧ m.next ≤ c.2.value
  created : ∀ c ∈ calls, ∃ i ∈ m.code, ∃ call, redirect m instrumented i = some call ∧
    i.value = c.1 ∧ c.2.op = .call (some call.1) ∧ c.2.operands = call.2
  found : ∀ i ∈ searched m instrumented, redirect m instrumented i ≠ none →
    i.value ∈ calls.map Prod.fst

lemma Collected.perm (h : Collected m instrumented calls) (hperm : calls'.Perm calls) :
    Collected m instrumented calls' where
  olds := (hperm.map _).nodup_iff.mpr h.olds
  news := (hperm.map _).nodup_iff.mpr h.news
  bounds c hc := h.bounds c (hperm.mem_iff.mp hc)
  created c hc := h.created c (hperm.mem_iff.mp hc)
  found i hi hcall := (hperm.map _).mem_iff.mpr (h.found i hi hcall)

lemma searched_sublist (m : Module) (instrumented : List (Text × ℕ)) :
    (searched m instrumented).Sublist m.code := by
  rw [searched, Module.code]
  generalize m.functions = functions
  induction functions with
  | nil => exact List.Sublist.refl _
  | cons f functions ih =>
    rw [List.filter_cons]
    split
    · rw [List.flatMap_cons, List.flatMap_cons]
      exact (List.Sublist.refl _).append ih
    · rw [List.flatMap_cons]
      exact ih.trans (List.sublist_append_right _ _)

lemma collected (h : m.WellFormed) : Collected m instrumented (funcalls m instrumented) := by
  have hsub := searched_sublist m instrumented
  generalize hfound : ((searched m instrumented).filterMap fun i =>
    (redirect m instrumented i).map fun call => (i.value, call)) = found
  have hcalls : funcalls m instrumented = (found.zipIdx m.next).map fun entry =>
      (entry.1.1, ⟨entry.2, .call (some entry.1.2.1), entry.1.2.2, fun _ => none⟩) := by
    rw [funcalls, hfound]
  have holds : (funcalls m instrumented).map Prod.fst = found.map Prod.fst := by
    rw [hcalls, List.map_map]
    have hzip := congrArg (List.map Prod.fst) (List.zipIdx_map_fst m.next found)
    rw [List.map_map] at hzip
    exact hzip
  have hnews : (funcalls m instrumented).map (fun c => c.2.value) =
      List.range' m.next found.length := by
    rw [hcalls, List.map_map]
    exact List.zipIdx_map_snd m.next found
  have hmem : ∀ old call, (old, call) ∈ found ↔
      ∃ i ∈ searched m instrumented, redirect m instrumented i = some call ∧ i.value = old := by
    intro old call
    rw [← hfound, List.mem_filterMap]
    apply exists_congr
    intro i
    apply and_congr_right
    intro _
    rw [Option.map_eq_some_iff]
    constructor
    · rintro ⟨call', hcall, heq⟩
      cases heq
      exact ⟨hcall, rfl⟩
    · rintro ⟨hcall, rfl⟩
      exact ⟨call, hcall, rfl⟩
  have hcreated : ∀ c ∈ funcalls m instrumented, ∃ i ∈ m.code, ∃ call,
      redirect m instrumented i = some call ∧ i.value = c.1 ∧ c.2.op = .call (some call.1) ∧
        c.2.operands = call.2 := by
    intro c hc
    rw [hcalls] at hc
    obtain ⟨entry, hentry, rfl⟩ := List.mem_map.mp hc
    have hentry : entry.1 ∈ found := by
      have hmap := List.mem_map_of_mem (f := Prod.fst) hentry
      rw [List.zipIdx_map_fst] at hmap
      exact hmap
    obtain ⟨i, hi, hcall, hvalue⟩ := (hmem entry.1.1 entry.1.2).mp hentry
    exact ⟨i, hsub.subset hi, entry.1.2, hcall, hvalue, rfl, rfl⟩
  refine ⟨?_, ?_, ?_, hcreated, ?_⟩
  · rw [holds]
    have hvalues : (found.map Prod.fst).Sublist ((searched m instrumented).map Inst.value) := by
      rw [← hfound, List.map_filterMap]
      generalize searched m instrumented = code
      induction code with
      | nil => exact List.Sublist.refl _
      | cons i code ih =>
        rw [List.filterMap_cons, List.map_cons]
        cases redirect m instrumented i with
        | none => exact ih.trans (List.sublist_cons_self _ _)
        | some call => exact ih.cons_cons _
    exact (h.values.sublist (hsub.map _)).sublist hvalues
  · rw [hnews]
    exact List.nodup_range'
  · intro c hc
    constructor
    · obtain ⟨i, hi, -, -, hvalue, -⟩ := hcreated c hc
      exact hvalue ▸ h.next i hi
    · have hvalue : c.2.value ∈ (funcalls m instrumented).map fun c => c.2.value :=
        List.mem_map_of_mem hc
      rw [hnews, List.mem_range'_1] at hvalue
      exact hvalue.1
  · intro i hi hcall
    obtain ⟨call, hcall⟩ := Option.ne_none_iff_exists'.mp hcall
    rw [holds]
    exact List.mem_map.mpr ⟨_, (hmem i.value call).mpr ⟨i, hi, hcall, rfl⟩, rfl⟩

def valuePairs (calls : List (ℕ × Inst)) : List (ℕ × ℕ) := calls.map fun c => (c.1, c.2.value)

def renamed (calls : List (ℕ × Inst)) : ℕ → ℕ := replacement (valuePairs calls)

def replaced (calls : List (ℕ × Inst)) (i : Inst) : Inst :=
  (placed (valuePairs calls) (calls.map Prod.snd) i).subst (renamed calls)

namespace Collected

lemma keys (calls : List (ℕ × Inst)) : (valuePairs calls).map Prod.fst = calls.map Prod.fst := by
  rw [valuePairs, List.map_map]
  rfl

lemma fresh (h : Collected m instrumented calls) :
    ∀ p ∈ valuePairs calls, p.2 ∉ (valuePairs calls).map Prod.fst := by
  intro p hp hmem
  obtain ⟨c, hc, rfl⟩ := List.mem_map.mp hp
  rw [keys] at hmem
  obtain ⟨c', hc', heq⟩ := List.mem_map.mp hmem
  have hlt := (h.bounds c' hc').1
  have hle := (h.bounds c hc).2
  have heq : c'.1 = c.2.value := heq
  omega

lemma replaceCalls_eq (h : Collected m instrumented calls) (f : Function) :
    replaceCalls calls f = { f with body := f.body.map fun code => code.map (replaced calls) } := by
  have hfloating : ∀ p ∈ valuePairs calls, ∃ n ∈ calls.map Prod.snd, Instruction.value n = p.2 := by
    intro p hp
    obtain ⟨c, hc, rfl⟩ := List.mem_map.mp hp
    exact ⟨c.2, List.mem_map_of_mem hc, rfl⟩
  rw [replaceCalls]
  congr 2
  funext code
  exact replaceInsts_eq h.fresh hfloating

lemma renamed_of_mem (h : Collected m instrumented calls) {c : ℕ × Inst} (hc : c ∈ calls) :
    renamed calls c.1 = c.2.value := by
  apply replacement_of_mem
  · rw [keys]
    exact h.olds
  · exact List.mem_map.mpr ⟨c, hc, rfl⟩

lemma renamed_of_notMem {v : ℕ} (hv : v ∉ calls.map Prod.fst) : renamed calls v = v := by
  apply replacement_of_notMem
  rw [keys]
  exact hv

lemma renamed_injOn (h : Collected m instrumented calls) :
    Set.InjOn (renamed calls) {v | v < m.next} := by
  intro v hv w hw heq
  have hv : v < m.next := hv
  have hw : w < m.next := hw
  by_cases hvmem : v ∈ calls.map Prod.fst
  · obtain ⟨c, hc, rfl⟩ := List.mem_map.mp hvmem
    rw [h.renamed_of_mem hc] at heq
    have hc' := h.bounds c hc
    by_cases hwmem : w ∈ calls.map Prod.fst
    · obtain ⟨d, hd, rfl⟩ := List.mem_map.mp hwmem
      rw [h.renamed_of_mem hd] at heq
      rw [List.inj_on_of_nodup_map h.news hc hd heq]
    · rw [renamed_of_notMem hwmem] at heq
      omega
  · rw [renamed_of_notMem hvmem] at heq
    by_cases hwmem : w ∈ calls.map Prod.fst
    · obtain ⟨d, hd, rfl⟩ := List.mem_map.mp hwmem
      rw [h.renamed_of_mem hd] at heq
      have hd' := h.bounds d hd
      omega
    · rw [renamed_of_notMem hwmem] at heq
      exact heq

lemma placed_of_mem (h : Collected m instrumented calls) {c : ℕ × Inst} (hc : c ∈ calls)
    (hvalue : i.value = c.1) : placed (valuePairs calls) (calls.map Prod.snd) i = c.2 := by
  have hpair : (valuePairs calls).find? (fun p => p.1 = i.value) = some (c.1, c.2.value) := by
    have hkeys := h.olds
    rw [← keys] at hkeys
    rw [hvalue]
    exact find?_of_mem hkeys (List.mem_map.mpr ⟨c, hc, rfl⟩)
  obtain ⟨n, hn⟩ : ∃ n, ((calls.map Prod.snd).find? fun n => n.value = c.2.value) = some n := by
    rw [← Option.isSome_iff_exists, List.find?_isSome]
    exact ⟨c.2, List.mem_map_of_mem hc, decide_eq_true rfl⟩
  obtain ⟨d, hd, rfl⟩ := List.mem_map.mp (List.mem_of_find?_eq_some hn)
  have hsame : d.2.value = c.2.value := by simpa using List.find?_some hn
  have hplaced : placed (valuePairs calls) (calls.map Prod.snd) i =
      (((calls.map Prod.snd).find? fun n => n.value = c.2.value)).getD i := by
    rw [placed]
    exact congrArg (fun p : Option (ℕ × ℕ) => (p.bind fun p =>
      (calls.map Prod.snd).find? fun n => n.value = p.2).getD i) hpair
  rw [hplaced, hn, List.inj_on_of_nodup_map h.news hd hc hsame]
  rfl

lemma placed_of_notMem (hvalue : i.value ∉ calls.map Prod.fst) :
    placed (valuePairs calls) (calls.map Prod.snd) i = i := by
  have hnone : ((valuePairs calls).find? fun p => p.1 = i.value) = none := by
    rw [List.find?_eq_none]
    intro p hp heq
    rw [← keys] at hvalue
    exact hvalue (List.mem_map.mpr ⟨p, hp, of_decide_eq_true heq⟩)
  rw [placed]
  exact congrArg (fun p : Option (ℕ × ℕ) => (p.bind fun p =>
    (calls.map Prod.snd).find? fun n => n.value = p.2).getD i) hnone

lemma replaced_call (h : Collected m instrumented calls) (hwf : m.WellFormed)
    (hi : i ∈ searched m instrumented) {call : ℕ × List Operand}
    (hcall : redirect m instrumented i = some call) :
    (replaced calls i).value = renamed calls i.value ∧
      (replaced calls i).op = .call (some call.1) ∧
        (replaced calls i).operands = call.2.map (·.subst (renamed calls)) := by
  have hsome : redirect m instrumented i ≠ none := by simp [hcall]
  obtain ⟨c, hc, hvalue⟩ := List.mem_map.mp (h.found i hi hsome)
  obtain ⟨j, hj, call', hcall', hjvalue, hop, hoperands⟩ := h.created c hc
  have hsame : j = i := List.inj_on_of_nodup_map hwf.values hj
    ((searched_sublist m instrumented).subset hi) (hjvalue.trans hvalue)
  subst hsame
  cases hcall.symm.trans hcall'
  rw [replaced, h.placed_of_mem hc hjvalue]
  refine ⟨?_, hop, ?_⟩
  · rw [hjvalue, h.renamed_of_mem hc]
    rfl
  · rw [← hoperands]
    rfl

lemma replaced_other (h : Collected m instrumented calls) (hwf : m.WellFormed) (hi : i ∈ m.code)
    (hnone : redirect m instrumented i = none) :
    (replaced calls i).value = renamed calls i.value ∧ (replaced calls i).op = i.op ∧
      (replaced calls i).operands = i.operands.map (·.subst (renamed calls)) := by
  have hvalue : i.value ∉ calls.map Prod.fst := by
    intro hmem
    obtain ⟨c, hc, hvalue⟩ := List.mem_map.mp hmem
    obtain ⟨j, hj, call, hcall, hjvalue, -⟩ := h.created c hc
    have hsame : j = i := List.inj_on_of_nodup_map hwf.values hj hi (hjvalue.trans hvalue)
    subst hsame
    cases hnone.symm.trans hcall
  rw [replaced, placed_of_notMem hvalue]
  refine ⟨?_, rfl, rfl⟩
  exact (renamed_of_notMem hvalue).symm

end Collected

end Embedwatch.Instrumentor
