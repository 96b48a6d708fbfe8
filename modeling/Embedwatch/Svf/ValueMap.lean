import Embedwatch.Library.LastWrite
import Embedwatch.Svf.Entities

/-! The metadata that `exportTrace` attaches to the values of the entities it has written. -/

namespace Embedwatch.Svf

open Library.PlainText Library.LastWrite

def Def.tagValue : Def → Value
  | .adef _ _ alloca _ _ => alloca
  | .gdef _ _ global _ _ => global
  | .ddef _ _ call _ => call
  | .sdef _ node _ _ _ _ => node.value

def getTagValue : TraceEntity → Option Value
  | .defn d => some d.tagValue
  | .use u => some u.instr
  | .input _ => none

structure Strings where
  def_ : Text
  store : Text
  lib : Text
  deriving DecidableEq

abbrev ValueMap := List (TraceEntity × Strings)

def appendId (te : TraceEntity) (string : Text) : Text :=
  if occurs (decimal te.id) string then string else string ++ ['_'] ++ decimal te.id

/-- One of the three branches of `updateValueMap`: `fresh` is the entry of an entity that is not in
the map, `append` changes the one that is. -/
def updateEntry (te : TraceEntity) (fresh : Strings) (append : Strings → Strings) (map : ValueMap) :
    ValueMap :=
  if map.any (·.1 = te) then map.map fun elem => if elem.1 = te then (te, append elem.2) else elem
  else map ++ [(te, fresh)]

def updateValueMap (map : ValueMap) (te : TraceEntity) : ValueMap :=
  match te with
  | .defn _ =>
    updateEntry te ⟨decimal te.id, [], []⟩ (fun s => { s with def_ := appendId te s.def_ }) map
  | .use u =>
    match u.kind with
    | .suse =>
      updateEntry te ⟨[], decimal te.id, []⟩ (fun s => { s with store := appendId te s.store }) map
    | .luse =>
      updateEntry te ⟨[], [], decimal te.id⟩ (fun s => { s with lib := appendId te s.lib }) map
  | .input _ => map

def valueMap (trace : List TraceEntity) : ValueMap :=
  (visits trace).foldl (fun map visit => updateValueMap map visit.te) []

structure Metadata where
  zdef : Value → Option Text
  zsuse : Value → Option Text
  zluse : Value → Option Text

def Metadata.empty : Metadata := ⟨fun _ => none, fun _ => none, fun _ => none⟩

def attach (md : Metadata) (elem : TraceEntity × Strings) : Metadata :=
  match getTagValue elem.1 with
  | none => md
  | some v =>
    let s := elem.2
    { zdef := if s.def_ ≠ [] ∧ (v.isInstruction || v.isGlobalVariable) then
        Function.update md.zdef v (some s.def_) else md.zdef
      zsuse := if s.store ≠ [] ∧ v.isInstruction then
        Function.update md.zsuse v (some s.store) else md.zsuse
      zluse := if s.lib ≠ [] ∧ v.isInstruction then
        Function.update md.zluse v (some s.lib) else md.zluse }

def exportMetadata (entries : ValueMap) : Metadata := entries.foldl attach .empty

def exportedDefs (trace : List TraceEntity) : List Def :=
  (visits trace).filterMap fun visit =>
    match visit.te with
    | .defn d => some d
    | _ => none

def stringsOf : TraceEntity → Option Strings
  | .defn d => some ⟨decimal d.id, [], []⟩
  | .use u =>
    match u.kind with
    | .suse => some ⟨[], decimal u.id, []⟩
    | .luse => some ⟨[], [], decimal u.id⟩
  | .input _ => none

lemma occurs_self (t : Text) : occurs t t = true := by
  cases t <;> simp [occurs]

lemma appendId_decimal (te : TraceEntity) : appendId te (decimal te.id) = decimal te.id := by
  rw [appendId, if_pos (occurs_self _)]

structure Entered (map : ValueMap) : Prop where
  strings : ∀ elem ∈ map, stringsOf elem.1 = some elem.2

lemma updateEntry_eq {map : ValueMap} (h : Entered map) {te : TraceEntity} {fresh : Strings}
    {append : Strings → Strings} (hfresh : stringsOf te = some fresh)
    (happend : append fresh = fresh) : updateEntry te fresh append map =
      if (te, fresh) ∈ map then map else map ++ [(te, fresh)] := by
  have hany : map.any (·.1 = te) = true ↔ (te, fresh) ∈ map := by
    rw [List.any_eq_true]
    constructor
    · rintro ⟨elem, helem, hte⟩
      obtain rfl : elem.1 = te := of_decide_eq_true hte
      obtain rfl : fresh = elem.2 := Option.some.inj (hfresh.symm.trans (h.strings elem helem))
      exact helem
    · intro helem
      exact ⟨(te, fresh), helem, decide_eq_true rfl⟩
  rw [updateEntry]
  by_cases hmem : (te, fresh) ∈ map
  · rw [if_pos (hany.mpr hmem), if_pos hmem]
    refine (List.map_congr_left ?_).trans (List.map_id map)
    intro elem helem
    rw [id_eq]
    split
    · rename_i hte
      obtain rfl := hte
      have hs : fresh = elem.2 := Option.some.inj (hfresh.symm.trans (h.strings elem helem))
      rw [← hs, happend, hs]
    · rfl
  · rw [if_neg fun hc => hmem (hany.mp hc), if_neg hmem]

lemma updateValueMap_eq {map : ValueMap} (h : Entered map) (te : TraceEntity) :
    updateValueMap map te =
      match stringsOf te with
      | some s => if (te, s) ∈ map then map else map ++ [(te, s)]
      | none => map := by
  cases te with
  | input i => rfl
  | defn d =>
    have hs : stringsOf (.defn d) = some ⟨decimal d.id, [], []⟩ := rfl
    simp only [updateValueMap, hs]
    apply updateEntry_eq h hs
    exact congrArg (fun t => Strings.mk t [] []) (appendId_decimal (.defn d))
  | use u =>
    cases hk : u.kind with
    | suse =>
      have hs : stringsOf (.use u) = some ⟨[], decimal u.id, []⟩ := by simp only [stringsOf, hk]
      simp only [updateValueMap, hk, hs]
      apply updateEntry_eq h hs
      exact congrArg (fun t => Strings.mk [] t []) (appendId_decimal (.use u))
    | luse =>
      have hs : stringsOf (.use u) = some ⟨[], [], decimal u.id⟩ := by simp only [stringsOf, hk]
      simp only [updateValueMap, hk, hs]
      apply updateEntry_eq h hs
      exact congrArg (fun t => Strings.mk [] [] t) (appendId_decimal (.use u))

lemma updateValueMap_entered {map : ValueMap} (h : Entered map) (te : TraceEntity) :
    Entered (updateValueMap map te) ∧ ∀ elem, elem ∈ updateValueMap map te ↔
      elem ∈ map ∨ elem.1 = te ∧ stringsOf te = some elem.2 := by
  have hmem : ∀ elem, elem ∈ updateValueMap map te ↔
      elem ∈ map ∨ elem.1 = te ∧ stringsOf te = some elem.2 := by
    intro elem
    rw [updateValueMap_eq h]
    cases hs : stringsOf te with
    | none => simp only [reduceCtorEq, and_false, or_false]
    | some s =>
      have heq : elem = (te, s) ↔ elem.1 = te ∧ some s = some elem.2 := by
        rw [Prod.ext_iff, Option.some.injEq, eq_comm (a := s)]
      by_cases hin : (te, s) ∈ map
      · simp only [hin, if_true, ← heq]
        constructor
        · exact Or.inl
        · rintro (he | rfl)
          · exact he
          · exact hin
      · simp only [hin, if_false, ← heq, List.mem_append, List.mem_singleton]
  refine ⟨⟨?_⟩, hmem⟩
  intro elem helem
  rcases (hmem elem).mp helem with he | ⟨rfl, hs⟩
  · exact h.strings elem he
  · exact hs

theorem mem_valueMap (trace : List TraceEntity) (elem : TraceEntity × Strings) :
    elem ∈ valueMap trace ↔
      (∃ visit ∈ visits trace, visit.te = elem.1) ∧ stringsOf elem.1 = some elem.2 := by
  have hrun : ∀ (vs : List Visit) (map : ValueMap), Entered map →
      (elem ∈ vs.foldl (fun map visit => updateValueMap map visit.te) map ↔
        elem ∈ map ∨ (∃ visit ∈ vs, visit.te = elem.1) ∧ stringsOf elem.1 = some elem.2) := by
    intro vs
    induction vs with
    | nil => simp
    | cons visit vs ih =>
      intro map hmap
      obtain ⟨hnext, hmem⟩ := updateValueMap_entered hmap visit.te
      rw [List.foldl_cons, ih _ hnext, hmem]
      constructor
      · rintro ((h | ⟨hte, hs⟩) | ⟨⟨w, hw, hte⟩, hs⟩)
        · exact Or.inl h
        · exact Or.inr ⟨⟨visit, List.mem_cons_self, hte.symm⟩, hte ▸ hs⟩
        · exact Or.inr ⟨⟨w, List.mem_cons_of_mem _ hw, hte⟩, hs⟩
      · rintro (h | ⟨⟨w, hw, hte⟩, hs⟩)
        · exact Or.inl (Or.inl h)
        · rcases List.mem_cons.mp hw with rfl | hw
          · exact Or.inl (Or.inr ⟨hte.symm, hte ▸ hs⟩)
          · exact Or.inr ⟨⟨w, hw, hte⟩, hs⟩
  have h := hrun (visits trace) [] ⟨fun _ he => (List.not_mem_nil he).elim⟩
  rw [valueMap, h]
  simp only [List.not_mem_nil, false_or]

def zdefKey (elem : TraceEntity × Strings) : Option Value :=
  (getTagValue elem.1).bind fun v =>
    if elem.2.def_ ≠ [] ∧ (v.isInstruction || v.isGlobalVariable) then some v else none

lemma zdef_eq_last (entries : ValueMap) (v : Value) :
    (exportMetadata entries).zdef v = (last zdefKey entries v).map fun elem => elem.2.def_ := by
  have hstep : ∀ (md : Metadata) elem v, (attach md elem).zdef v =
      if zdefKey elem = some v then some elem.2.def_ else md.zdef v := by
    intro md elem v
    cases htag : getTagValue elem.1 with
    | none => simp only [attach, zdefKey, htag, Option.bind_none, reduceCtorEq, if_false]
    | some w =>
      simp only [attach, zdefKey, htag, Option.bind_some]
      by_cases hc : elem.2.def_ ≠ [] ∧ (w.isInstruction || w.isGlobalVariable) = true
      · rw [if_pos hc, if_pos hc, Function.update_apply]
        simp only [Option.some.injEq, eq_comm]
      · rw [if_neg hc, if_neg hc]
        rfl
  rw [exportMetadata, foldl_eq_last hstep]
  exact Option.or_none

lemma splitOn_decimal (n : ℕ) : (decimal n).splitOn '_' = [decimal n] := by
  apply List.splitOn_eq_singleton
  rw [decimal_eq_zeroPadded]
  exact not_mem_zeroPadded (by decide) (by decide) (by decide) 0 n

lemma zdefKey_defn {d : Def} {s : Strings} (hs : stringsOf (.defn d) = some s) :
    zdefKey (.defn d, s) =
      if d.tagValue.isInstruction || d.tagValue.isGlobalVariable then some d.tagValue else none := by
  cases hs
  have hne := decimal_ne_nil d.id
  simp only [zdefKey, getTagValue, Option.bind_some, ne_eq, hne, not_false_iff, true_and]

lemma of_zdefKey {elem : TraceEntity × Strings} {v : Value} (hs : stringsOf elem.1 = some elem.2)
    (hk : zdefKey elem = some v) : ∃ d, elem.1 = .defn d ∧ elem.2.def_ = decimal d.id ∧
      d.tagValue = v ∧ (v.isInstruction || v.isGlobalVariable) = true := by
  obtain ⟨te, s⟩ := elem
  cases te with
  | input i => cases hs
  | defn d =>
    rw [zdefKey_defn hs] at hk
    split at hk
    · rename_i hc
      obtain rfl := Option.some.inj hk
      cases hs
      exact ⟨d, rfl, rfl, rfl, hc⟩
    · cases hk
  | use u =>
    have hdef : s.def_ = [] := by
      simp only [stringsOf] at hs
      split at hs <;> cases hs <;> rfl
    simp only [zdefKey, getTagValue, Option.bind_some, hdef, ne_eq, not_true_eq_false, false_and,
      if_false, reduceCtorEq] at hk

lemma mem_exportedDefs {trace : List TraceEntity} {d : Def} :
    d ∈ exportedDefs trace ↔ ∃ visit ∈ visits trace, visit.te = .defn d := by
  rw [exportedDefs, List.mem_filterMap]
  constructor
  · rintro ⟨visit, hv, hd⟩
    refine ⟨visit, hv, ?_⟩
    split at hd
    · rename_i d' hte
      rw [hte, Option.some.inj hd]
    · cases hd
  · rintro ⟨visit, hv, hte⟩
    exact ⟨visit, hv, by rw [hte]⟩

theorem zdef_iff {trace : List TraceEntity} {entries : ValueMap}
    (hperm : entries.Perm (valueMap trace)) :
    (∀ d ∈ exportedDefs trace, ∃ t, (exportMetadata entries).zdef d.tagValue = some t ∧
      decimal d.id ∈ t.splitOn '_') ↔
    (∀ d ∈ exportedDefs trace, (d.tagValue.isInstruction || d.tagValue.isGlobalVariable) = true) ∧
      ∀ d ∈ exportedDefs trace, ∀ d' ∈ exportedDefs trace, d.tagValue = d'.tagValue →
        d.id = d'.id := by
  have hentry : ∀ d, d ∈ exportedDefs trace ↔ (.defn d, ⟨decimal d.id, [], []⟩) ∈ entries := by
    intro d
    rw [mem_exportedDefs, hperm.mem_iff, mem_valueMap]
    exact (and_iff_left rfl).symm
  have hstrings : ∀ elem ∈ entries, stringsOf elem.1 = some elem.2 := fun elem he =>
    ((mem_valueMap trace elem).mp (hperm.mem_iff.mp he)).2
  have hlast : ∀ {v elem}, last zdefKey entries v = some elem →
      ∃ d ∈ exportedDefs trace, elem.2.def_ = decimal d.id ∧ d.tagValue = v ∧
        (v.isInstruction || v.isGlobalVariable) = true := by
    intro v elem h
    obtain ⟨he, hk⟩ := mem_of_last h
    obtain ⟨d, hd, hdef, hv, hc⟩ := of_zdefKey (hstrings elem he) hk
    refine ⟨d, (hentry d).mpr ?_, hdef, hv, hc⟩
    have hs := hstrings elem he
    rw [hd] at hs
    obtain ⟨te, s⟩ := elem
    obtain rfl := Option.some.inj hs
    obtain rfl : te = .defn d := hd
    exact he
  constructor
  · intro h
    have hwhich : ∀ d ∈ exportedDefs trace, ∃ elem, last zdefKey entries d.tagValue = some elem ∧
        elem.2.def_ = decimal d.id := by
      intro d hd
      obtain ⟨t, ht, hid⟩ := h d hd
      rw [zdef_eq_last] at ht
      obtain ⟨elem, he, rfl⟩ := Option.map_eq_some_iff.mp ht
      obtain ⟨d', -, hdef, -, -⟩ := hlast he
      rw [hdef, splitOn_decimal, List.mem_singleton] at hid
      exact ⟨elem, he, by rw [hdef, hid]⟩
    constructor
    · intro d hd
      obtain ⟨elem, he, -⟩ := hwhich d hd
      obtain ⟨-, -, -, -, hc⟩ := hlast he
      exact hc
    · intro d hd d' hd' heq
      obtain ⟨elem, he, hdef⟩ := hwhich d hd
      obtain ⟨elem', he', hdef'⟩ := hwhich d' hd'
      rw [heq, he'] at he
      obtain rfl := Option.some.inj he
      exact decimal_injective (hdef.symm.trans hdef')
  · rintro ⟨hvalue, hdistinct⟩ d hd
    have hkey : zdefKey (.defn d, ⟨decimal d.id, [], []⟩) = some d.tagValue := by
      rw [zdefKey_defn rfl, if_pos (hvalue d hd)]
    obtain ⟨elem, he⟩ := exists_last ((hentry d).mp hd) hkey
    obtain ⟨d', hd', hdef, heq, -⟩ := hlast he
    refine ⟨decimal d'.id, ?_, ?_⟩
    · rw [zdef_eq_last, he, Option.map_some, hdef]
    · rw [splitOn_decimal, List.mem_singleton, hdistinct d hd d' hd' heq.symm]

def argsAlloca : Value := ⟨0, .alloca⟩

def argsNode : PAGNode := ⟨692, ['a', 'r', 'g', 's'], argsAlloca, false⟩

def argsUse (targets : List Def) : List TraceEntity :=
  [.input ⟨0, ['i', 'n'], ⟨1, .call ['f', 'g', 'e', 't', 'c']⟩,
    [.use ⟨.suse, 149, ['s', 't', 'o', 'r', 'e'], ['f'], ⟨2, .instruction⟩, targets⟩]⟩]

theorem zdef_of_one_field :
    exportedDefs (argsUse [.sdef 4 argsNode 1 4 [0] 0]) = [.sdef 4 argsNode 1 4 [0] 0] ∧
    ∃ t, (exportMetadata (valueMap (argsUse [.sdef 4 argsNode 1 4 [0] 0]))).zdef argsAlloca =
      some t ∧ decimal 4 ∈ t.splitOn '_' := by
  refine ⟨rfl, (zdef_iff (List.Perm.refl _)).mpr ⟨?_, ?_⟩ (.sdef 4 argsNode 1 4 [0] 0) ?_⟩
  · decide
  · decide
  · decide

theorem zdef_of_two_fields :
    (exportedDefs (argsUse [.sdef 4 argsNode 1 4 [0] 0, .sdef 150 argsNode 1 4 [1] 4])).map
        (fun d => (d.id, d.tagValue)) = [(4, argsAlloca), (150, argsAlloca)] ∧
    (exportMetadata (valueMap
      (argsUse [.sdef 4 argsNode 1 4 [0] 0, .sdef 150 argsNode 1 4 [1] 4]))).zdef argsAlloca =
        some (decimal 150) ∧
    decimal 4 ∉ (decimal 150).splitOn '_' := by
  refine ⟨?_, ?_, ?_⟩
  · decide +kernel
  · decide +kernel
  · decide +kernel

end Embedwatch.Svf
