import Embedwatch.Verifier.Annotations

/-! Whether what the search for a number finds has the number in its metadata. The search takes the first
global variable or line in whose node the digits of the number occur, and for a line the first instruction
whose text occurs in it. -/

namespace Embedwatch.Verifier

open Library.PlainText Library.Lookup
open Svf (Value Metadata TraceEntity valueMap exportMetadata exportTrace)

structure Annotated where
  value : Value
  text : Text
  deriving DecidableEq

structure AnnotatedFunction where
  name : Text
  text : Text
  instructions : List Annotated

structure AnnotatedModule where
  globals : List Annotated
  functions : List AnnotatedFunction
  text : Text

def AnnotatedFunction.printed (f : AnnotatedFunction) : PrintedFunction :=
  ⟨f.name, f.text, f.instructions.map Annotated.text⟩

inductive FoundObject
  | globalVariable (v : Annotated)
  | instruction (v : Annotated) (function : Text)
  deriving DecidableEq

namespace FoundObject

def annotated : FoundObject → Annotated
  | .globalVariable v | .instruction v _ => v

def found : FoundObject → Found
  | .globalVariable v => .globalVariable v.text
  | .instruction v f => .instruction v.text f

end FoundObject

namespace AnnotatedModule

variable (M : AnnotatedModule) (id : ℤ)

def printed : PrintedModule :=
  ⟨M.globals.map Annotated.text, M.functions.map AnnotatedFunction.printed, M.text⟩

def values : List Annotated := M.globals ++ M.functions.flatMap AnnotatedFunction.instructions

def findGlobal : Option Annotated :=
  M.globals.find? fun i => metadataKinds.any fun name =>
    ((nodeName name i.text).map fun node => (lines M.text).any (isNodeOf id node)).getD false

def findInFunction (f : AnnotatedFunction) : Option Annotated :=
  (lines f.text).findSome? fun l => metadataKinds.findSome? fun name =>
    (nodeName name l).bind fun node => (lines M.text).findSome? fun x =>
      if isNodeOf id node x then f.instructions.find? fun i => occurs (instrText i.text) l else none

def findInstr : Option FoundObject :=
  match M.findGlobal id with
  | some i => some (.globalVariable i)
  | none => M.functions.findSome? fun f => (M.findInFunction id f).map fun i => .instruction i f.name

end AnnotatedModule

def Carries (md : Metadata) (id : ℤ) (v : Annotated) : Prop :=
  ∃ kind ∈ metadataKinds, metadataOf md kind v.value = some (signedDecimal id)

def FindsCarrier (md : Metadata) (M : AnnotatedModule) (id : ℤ) : Prop :=
  (∀ v, M.findInstr id = some v → Carries md id v.annotated) ∧
    (M.findInstr id = none → ∀ v ∈ M.values, ¬ Carries md id v)

def UnconfusedLines (md : Metadata) (M : AnnotatedModule) (id : ℤ) (f : AnnotatedFunction) : Prop :=
  Preceded (fun l => Tagged M.printed id l ∧ ∃ i ∈ f.instructions, occurs (instrText i.text) l)
    (fun l => Preceded (fun i => occurs (instrText i.text) l = true) (Carries md id) f.instructions)
    (lines f.text)

structure Unconfused (md : Metadata) (M : AnnotatedModule) (id : ℤ) : Prop where
  globals : Preceded (fun g => Tagged M.printed id g.text) (Carries md id) M.globals
  functions : ¬ InGlobal M.printed id →
    Preceded (fun f => InFunction M.printed id f.printed) (UnconfusedLines md M id) M.functions
  shown : ∀ v ∈ M.values, Carries md id v →
    InGlobal M.printed id ∨ ∃ f ∈ M.functions, InFunction M.printed id f.printed

namespace AnnotatedModule

variable {M : AnnotatedModule} {id : ℤ} {f : AnnotatedFunction} {md : Metadata}

lemma findGlobal_printed : M.printed.findGlobal id = (M.findGlobal id).map Annotated.text := by
  rw [PrintedModule.findGlobal, printed, List.find?_map]
  rfl

lemma findInFunction_printed :
    M.printed.findInFunction id f.printed = (M.findInFunction id f).map Annotated.text := by
  rw [findInFunction, PrintedModule.findInFunction, List.map_findSome?]
  apply congrArg (fun g => (lines f.text).findSome? g)
  funext l
  rw [Function.comp_apply, List.map_findSome?]
  apply congrArg (fun g => metadataKinds.findSome? g)
  funext name
  rw [Function.comp_apply, Option.map_bind]
  apply congrArg (nodeName name l).bind
  funext node
  rw [Function.comp_apply, List.map_findSome?]
  apply congrArg (fun g => (lines M.text).findSome? g)
  funext x
  rw [Function.comp_apply, AnnotatedFunction.printed, List.find?_map]
  split
  · rfl
  · rfl

theorem findInstr_printed : M.printed.findInstr id = (M.findInstr id).map FoundObject.found := by
  rw [findInstr, PrintedModule.findInstr, findGlobal_printed]
  cases M.findGlobal id with
  | some i => rfl
  | none =>
    rw [Option.map_none, List.map_findSome?, printed, List.findSome?_map]
    apply congrArg (fun g => M.functions.findSome? g)
    funext f
    rw [Function.comp_apply, Function.comp_apply, ← printed, findInFunction_printed, Option.map_map,
      Option.map_map]
    rfl

lemma findInstr_eq_none : M.findInstr id = none ↔
    ¬ (InGlobal M.printed id ∨ ∃ f ∈ M.functions, InFunction M.printed id f.printed) := by
  have hfunctions : (∃ f ∈ M.printed.functions, InFunction M.printed id f) ↔
      ∃ f ∈ M.functions, InFunction M.printed id f.printed := by
    constructor
    · rintro ⟨f', hf', hin⟩
      obtain ⟨f, hf, rfl⟩ := List.mem_map.mp hf'
      exact ⟨f, hf, hin⟩
    · rintro ⟨f, hf, hin⟩
      exact ⟨f.printed, List.mem_map_of_mem hf, hin⟩
  rw [← hfunctions, ← PrintedModule.findInstr_isSome, findInstr_printed, Option.isSome_map,
    Bool.not_eq_true, Option.isSome_eq_false_iff, Option.isNone_iff_eq_none]

lemma forall_findGlobal {q : Annotated → Prop} : (∀ v, M.findGlobal id = some v → q v) ↔
    Preceded (fun g => Tagged M.printed id g.text) q M.globals := by
  rw [findGlobal, forall_find?]
  apply preceded_congr_left
  intro g _
  exact PrintedModule.tagged_iff_any (m := M.printed)

lemma forall_findInFunction :
    (∀ v, M.findInFunction id f = some v → Carries md id v) ↔ UnconfusedLines md M id f := by
  have hline : ∀ l v, (metadataKinds.findSome? fun name => (nodeName name l).bind fun node =>
      (lines M.text).findSome? fun x =>
        if isNodeOf id node x then f.instructions.find? fun i => occurs (instrText i.text) l
        else none) = some v ↔
      Tagged M.printed id l ∧ (f.instructions.find? fun i => occurs (instrText i.text) l) = some v :=
    fun _ _ => PrintedModule.findSome?_tagged (m := M.printed)
  rw [findInFunction, forall_findSome?, UnconfusedLines]
  apply preceded_congr
  · intro l _
    simp only [Option.isSome_iff_exists, hline, exists_and_left]
    rw [← Option.isSome_iff_exists, List.find?_isSome]
  · intro l _ hl
    rw [Option.isSome_iff_exists] at hl
    obtain ⟨v, hv⟩ := hl
    have htag := ((hline l v).mp hv).1
    simp only [hline, htag, true_and]
    exact forall_find?

lemma findInFunction_isSome :
    (M.findInFunction id f).isSome ↔ InFunction M.printed id f.printed := by
  rw [← PrintedModule.findInFunction_isSome, findInFunction_printed, Option.isSome_map]

lemma forall_findInstr : (∀ v, M.findInstr id = some v → Carries md id v.annotated) ↔
    Preceded (fun g => Tagged M.printed id g.text) (Carries md id) M.globals ∧
      (¬ InGlobal M.printed id →
        Preceded (fun f => InFunction M.printed id f.printed) (UnconfusedLines md M id)
          M.functions) := by
  rw [← PrintedModule.findGlobal_isSome, findGlobal_printed, Option.isSome_map, findInstr,
    ← forall_findGlobal]
  cases M.findGlobal id with
  | some i => simp [FoundObject.annotated]
  | none =>
    simp only [Option.isSome_none, Bool.false_eq_true, not_false_eq_true, forall_const,
      reduceCtorEq, false_implies, implies_true, true_and]
    rw [forall_findSome?]
    apply preceded_congr
    · intro f _
      rw [Option.isSome_map]
      exact findInFunction_isSome
    · intro f _ _
      rw [← forall_findInFunction]
      simp [FoundObject.annotated]

end AnnotatedModule

theorem findsCarrier_iff (md : Metadata) (M : AnnotatedModule) (id : ℤ) :
    FindsCarrier md M id ↔ Unconfused md M id := by
  rw [FindsCarrier, AnnotatedModule.forall_findInstr, AnnotatedModule.findInstr_eq_none]
  constructor
  · rintro ⟨⟨hglobals, hfunctions⟩, hshown⟩
    refine ⟨hglobals, hfunctions, ?_⟩
    intro v hv hcarries
    by_contra hno
    exact hshown hno v hv hcarries
  · intro h
    refine ⟨⟨h.globals, h.functions⟩, ?_⟩
    intro hno v hv hcarries
    exact hno (h.shown v hv hcarries)

def hasKind (t : Text) : Bool := metadataKinds.any fun kind => occurs kind t

structure Prints (number : Text → ℕ) (md : Metadata) (M : AnnotatedModule) : Prop where
  globals : ∀ g ∈ M.globals, Shows number md g.value g.text
  instructions : ∀ f ∈ M.functions, ∀ i ∈ f.instructions, Shows number md i.value i.text
  lines : ∀ f ∈ M.functions,
    (lines f.text).filter hasKind = (f.instructions.map Annotated.text).filter hasKind
  node : ∀ v ∈ M.values, ∀ kind ∈ metadataKinds, ∀ s, metadataOf md kind v.value = some s →
    ∀ line, (line ∈ Verifier.lines M.text ∧
      occurs (nodeText (number s) ++ [' ', '=']) line = true ↔ line = nodeLine (number s) s)

def HasDigits (md : Metadata) (id : ℤ) (v : Annotated) : Prop :=
  ∃ kind ∈ metadataKinds, ∃ s, metadataOf md kind v.value = some s ∧
    occurs (signedDecimal id) s = true

def UnconfusedInstructions (md : Metadata) (id : ℤ) (f : AnnotatedFunction) : Prop :=
  Preceded (HasDigits md id)
    (fun v => Preceded (fun i => occurs (instrText i.text) v.text = true) (Carries md id)
      f.instructions) f.instructions

section Prints

variable {number : Text → ℕ} {md : Metadata} {M : AnnotatedModule} {id : ℤ} {f : AnnotatedFunction}

lemma AnnotatedModule.mem_values {value : Value} : value ∈ M.globals.map Annotated.value ++
    (M.functions.map fun f => f.instructions.map Annotated.value).flatten ↔
      ∃ v ∈ M.values, v.value = value := by
  rw [← List.mem_map, values, List.map_append, List.map_flatMap, List.flatMap_def]

lemma Carries.hasDigits {v : Annotated} (h : Carries md id v) : HasDigits md id v := by
  obtain ⟨kind, hkind, hs⟩ := h
  exact ⟨kind, hkind, _, hs, occurs_iff_isInfix.mpr List.infix_rfl⟩

lemma hasKind_of_nodeName {kind t : Text} (hkind : kind ∈ metadataKinds)
    (hne : nodeName kind t ≠ none) : hasKind t = true := by
  apply List.any_eq_true.mpr
  refine ⟨kind, hkind, ?_⟩
  by_contra hno
  exact hne (nodeName_eq_none (Bool.eq_false_of_not_eq_true hno))

lemma Tagged.hasKind {m : PrintedModule} {t : Text} (h : Tagged m id t) : hasKind t = true := by
  obtain ⟨kind, hkind, node, hnode, -⟩ := h
  apply hasKind_of_nodeName hkind
  rw [hnode]
  exact Option.some_ne_none node

namespace Prints

variable (h : Prints number md M)
  (hmd : ∀ kind value s, metadataOf md kind value = some s → '=' ∉ s)

include h

lemma hasKind_of_metadata (hf : f ∈ M.functions) {i : Annotated} (hi : i ∈ f.instructions)
    {kind : Text} (hkind : kind ∈ metadataKinds) (hne : metadataOf md kind i.value ≠ none) :
    hasKind i.text = true := by
  obtain ⟨s, hs⟩ := Option.ne_none_iff_exists'.mp hne
  have htag := h.instructions f hf i hi kind hkind
  rw [hs] at htag
  apply hasKind_of_nodeName hkind
  rw [nodeName_of_showsTag hkind htag]
  exact Option.some_ne_none _

lemma mem_lines (hf : f ∈ M.functions) {l : Text} (hl : hasKind l = true) :
    l ∈ Verifier.lines f.text ↔ ∃ i ∈ f.instructions, i.text = l := by
  have hmem := congrArg (fun ls => l ∈ ls) (h.lines f hf)
  simpa [hl] using hmem

lemma showsFunction (hf : f ∈ M.functions) :
    ShowsFunction number md (f.instructions.map Annotated.value) f.printed where
  instruction value hvalue := by
    rintro ⟨kind, hkind, hne⟩
    obtain ⟨i, hi, rfl⟩ := List.mem_map.mp hvalue
    have hl := h.hasKind_of_metadata hf hi hkind hne
    exact ⟨i.text, (h.mem_lines hf hl).mpr ⟨i, hi, rfl⟩, List.mem_map_of_mem hi,
      h.instructions f hf i hi⟩
  line l hl := by
    by_cases hkind : hasKind l = true
    · obtain ⟨i, hi, rfl⟩ := (h.mem_lines hf hkind).mp hl
      exact Or.inl ⟨i.value, List.mem_map_of_mem hi, h.instructions f hf i hi⟩
    · right
      intro kind hmem
      by_contra hoccurs
      apply hkind
      exact List.any_eq_true.mpr ⟨kind, hmem, Bool.eq_true_of_not_eq_false hoccurs⟩

lemma exists_occurs (hf : f ∈ M.functions) {l : Text} (hl : Tagged M.printed id l)
    (hmem : l ∈ Verifier.lines f.text) : ∃ i ∈ f.instructions, occurs (instrText i.text) l = true := by
  obtain ⟨i, hi, rfl⟩ := (h.mem_lines hf hl.hasKind).mp hmem
  exact ⟨i, hi, occurs_instrText (not_mem_of_mem_splitOn hmem)⟩

theorem showsModule : ShowsModule number md (M.globals.map Annotated.value)
    (M.functions.map fun f => f.instructions.map Annotated.value) M.printed where
  globalTexts := by
    rw [AnnotatedModule.printed, List.forall₂_map_left_iff, List.forall₂_map_right_iff,
      List.forall₂_same]
    exact h.globals
  functionTexts := by
    rw [AnnotatedModule.printed, List.forall₂_map_left_iff, List.forall₂_map_right_iff,
      List.forall₂_same]
    exact fun f hf => h.showsFunction hf
  node value hvalue := by
    obtain ⟨v, hv, rfl⟩ := AnnotatedModule.mem_values.mp hvalue
    exact h.node v hv

include hmd

lemma tagged_iff {v : Annotated} (hv : v ∈ M.values) (ht : Shows number md v.value v.text) :
    Tagged M.printed id v.text ↔ HasDigits md id v :=
  h.showsModule.tagged_iff hmd (AnnotatedModule.mem_values.mpr ⟨v, hv, rfl⟩) ht

lemma tagged_global {g : Annotated} (hg : g ∈ M.globals) :
    Tagged M.printed id g.text ↔ HasDigits md id g :=
  h.tagged_iff hmd (List.mem_append_left _ hg) (h.globals g hg)

lemma tagged_instruction (hf : f ∈ M.functions) {i : Annotated} (hi : i ∈ f.instructions) :
    Tagged M.printed id i.text ↔ HasDigits md id i :=
  h.tagged_iff hmd (List.mem_append_right _ (List.mem_flatMap.mpr ⟨f, hf, hi⟩))
    (h.instructions f hf i hi)

lemma inGlobal_iff : InGlobal M.printed id ↔ ∃ g ∈ M.globals, HasDigits md id g := by
  rw [h.showsModule.inGlobal_iff hmd]
  constructor
  · rintro ⟨value, hvalue, hdigits⟩
    obtain ⟨g, hg, rfl⟩ := List.mem_map.mp hvalue
    exact ⟨g, hg, hdigits⟩
  · rintro ⟨g, hg, hdigits⟩
    exact ⟨g.value, List.mem_map_of_mem hg, hdigits⟩

lemma inFunction_iff (hf : f ∈ M.functions) :
    InFunction M.printed id f.printed ↔ ∃ i ∈ f.instructions, HasDigits md id i := by
  constructor
  · rintro ⟨l, hl, htag, -⟩
    obtain ⟨i, hi, rfl⟩ := (h.mem_lines hf htag.hasKind).mp hl
    exact ⟨i, hi, (h.tagged_instruction hmd hf hi).mp htag⟩
  · rintro ⟨i, hi, hdigits⟩
    have htag := (h.tagged_instruction hmd hf hi).mpr hdigits
    have hl := (h.mem_lines hf htag.hasKind).mpr ⟨i, hi, rfl⟩
    obtain ⟨j, hj, hoccurs⟩ := h.exists_occurs hf htag hl
    exact ⟨i.text, hl, htag, j.text, List.mem_map_of_mem hj, hoccurs⟩

lemma unconfusedLines_iff (hf : f ∈ M.functions) :
    UnconfusedLines md M id f ↔ UnconfusedInstructions md id f := by
  rw [UnconfusedLines]
  calc Preceded (fun l => Tagged M.printed id l ∧ ∃ i ∈ f.instructions, occurs (instrText i.text) l)
        (fun l => Preceded (fun i => occurs (instrText i.text) l = true) (Carries md id)
          f.instructions) (Verifier.lines f.text)
      ↔ Preceded (Tagged M.printed id) (fun l => Preceded (fun i => occurs (instrText i.text) l = true)
          (Carries md id) f.instructions) (Verifier.lines f.text) := by
        apply preceded_congr_left
        intro l hl
        exact and_iff_left_of_imp fun htag => h.exists_occurs hf htag hl
    _ ↔ Preceded (Tagged M.printed id) (fun l => Preceded (fun i => occurs (instrText i.text) l = true)
          (Carries md id) f.instructions) (f.instructions.map Annotated.text) := by
        rw [← preceded_filter (r := hasKind) fun l _ hl => hl.hasKind, h.lines f hf,
          preceded_filter fun l _ hl => hl.hasKind]
    _ ↔ _ := by
        rw [preceded_map]
        apply preceded_congr_left
        intro i hi
        exact h.tagged_instruction hmd hf hi

theorem unconfused_iff : Unconfused md M id ↔
    Preceded (HasDigits md id) (Carries md id) M.globals ∧
      ((∀ g ∈ M.globals, ¬ HasDigits md id g) →
        Preceded (fun f => ∃ i ∈ f.instructions, HasDigits md id i) (UnconfusedInstructions md id)
          M.functions) := by
  have hglobals : Preceded (fun g => Tagged M.printed id g.text) (Carries md id) M.globals ↔
      Preceded (HasDigits md id) (Carries md id) M.globals := by
    apply preceded_congr_left
    intro g hg
    exact h.tagged_global hmd hg
  have hfunctions : Preceded (fun f => InFunction M.printed id f.printed) (UnconfusedLines md M id)
      M.functions ↔ Preceded (fun f => ∃ i ∈ f.instructions, HasDigits md id i)
        (UnconfusedInstructions md id) M.functions := by
    apply preceded_congr
    · intro f hf
      exact h.inFunction_iff hmd hf
    · intro f hf _
      exact h.unconfusedLines_iff hmd hf
  have hno : (∀ g ∈ M.globals, ¬ HasDigits md id g) ↔ ¬ InGlobal M.printed id := by
    rw [h.inGlobal_iff hmd]
    simp only [not_exists, not_and]
  rw [← hglobals, ← hfunctions, hno]
  constructor
  · intro hu
    exact ⟨hu.globals, hu.functions⟩
  · rintro ⟨hg, hf⟩
    refine ⟨hg, hf, ?_⟩
    intro v hv hcarries
    rcases List.mem_append.mp hv with hv | hv
    · exact Or.inl ((h.inGlobal_iff hmd).mpr ⟨v, hv, hcarries.hasDigits⟩)
    · obtain ⟨f, hf, hv⟩ := List.mem_flatMap.mp hv
      exact Or.inr ⟨f, hf, (h.inFunction_iff hmd hf).mpr ⟨v, hv, hcarries.hasDigits⟩⟩

theorem findsCarrier (hdigits : ∀ v ∈ M.values, HasDigits md id v → Carries md id v)
    (htexts : ∀ f ∈ M.functions, ∀ v ∈ f.instructions, Carries md id v →
      ∀ i ∈ f.instructions, occurs (instrText i.text) v.text = true → Carries md id i) :
    FindsCarrier md M id := by
  rw [findsCarrier_iff, h.unconfused_iff hmd]
  constructor
  · apply preceded_of_forall
    intro g hg
    exact hdigits g (List.mem_append_left _ hg)
  · intro _
    apply preceded_of_forall
    intro f hf _
    apply preceded_of_forall
    intro v hv hnumber
    apply preceded_of_forall
    have hmem := List.mem_append_right M.globals (List.mem_flatMap.mpr ⟨f, hf, hv⟩)
    exact htexts f hf v hv (hdigits v hmem hnumber)

end Prints

end Prints

theorem State.report_carries {v : State} {md : Metadata} {M : AnnotatedModule} {use defn : TraceLine}
    {defStr useStr function : Text} {source : Option Text} (h : Unconfused md M use.id)
    (hreport : v.report M.printed use defn = some (.violation defStr source useStr function)) :
    ∃ i, M.findInstr use.id = some (.instruction i function) ∧ Carries md use.id i ∧
      useStr = instrText i.text := by
  rw [report, AnnotatedModule.findInstr_printed] at hreport
  cases hfound : M.findInstr use.id with
  | none =>
    rw [hfound] at hreport
    cases hreport
  | some found =>
    have hcarries := ((findsCarrier_iff md M use.id).mpr h).1 found hfound
    rw [hfound, Option.map_some] at hreport
    cases hdef : v.findDef M.printed defn.info with
    | none =>
      rw [hdef] at hreport
      cases hreport
    | some d =>
      rw [hdef] at hreport
      cases found with
      | globalVariable g => cases hreport
      | instruction i f =>
        cases hreport
        exact ⟨i, rfl, hcarries, rfl⟩

def thirteenthObject : Svf.Def := .adef 13 ⟨7, ['a'], ⟨1, .alloca⟩, false⟩ ⟨1, .alloca⟩ 0 10

def sharedMetadata : Metadata := exportMetadata (valueMap (storeTrace thirteenthObject))

def sharedNumber (s : Text) : ℕ := if s = ['1', '3'] then 0 else 1

def thirteenth : Annotated := ⟨⟨1, .alloca⟩, objectLine allocaText⟩

def third : Annotated := ⟨⟨2, .instruction⟩, storeLine⟩

def sharedFunction : AnnotatedFunction :=
  ⟨['f'], (storeFunction allocaText).text, [thirteenth, third]⟩

def sharedModule : AnnotatedModule where
  globals := []
  functions := [sharedFunction]
  text := sharedFunction.text ++ ['\n'] ++ nodeLine 0 ['1', '3'] ++ ['\n'] ++ nodeLine 1 ['3']

lemma sharedMetadata_thirteenth : ∀ kind ∈ metadataKinds, metadataOf sharedMetadata kind
    thirteenth.value = if kind = zdef then some ['1', '3'] else none := by
  decide +kernel

lemma sharedMetadata_third : ∀ kind ∈ metadataKinds, metadataOf sharedMetadata kind third.value =
    if kind = zsuse then some ['3'] else none := by
  decide +kernel

lemma prints_shared : Prints sharedNumber sharedMetadata sharedModule := by
  have hthirteenth : Shows sharedNumber sharedMetadata thirteenth.value thirteenth.text :=
    shows_of_single (['%', 'p', ' ', '=', ' '] ++ allocaText) sharedMetadata_thirteenth (by decide)
      (by decide +kernel)
  have hthird : Shows sharedNumber sharedMetadata third.value third.text :=
    shows_of_single ['s', 't', 'o', 'r', 'e', ' ', '%', 'q'] sharedMetadata_third (by decide)
      (by decide +kernel)
  have hnode : ∀ s ∈ [['1', '3'], ['3']], (lines sharedModule.text).filter
      (occurs (nodeText (sharedNumber s) ++ [' ', '='])) = [nodeLine (sharedNumber s) s] := by
    decide +kernel
  refine ⟨?_, ?_, ?_, ?_⟩
  · intro g hg
    cases hg
  · intro f hf i hi
    obtain rfl := List.mem_singleton.mp hf
    rcases List.mem_pair.mp hi with rfl | rfl
    · exact hthirteenth
    · exact hthird
  · intro f hf
    obtain rfl := List.mem_singleton.mp hf
    decide +kernel
  · intro v hv kind hkind s hs line
    have hnumber : s ∈ [['1', '3'], ['3']] := by
      rcases List.mem_pair.mp hv with rfl | rfl
      · rw [sharedMetadata_thirteenth kind hkind] at hs
        split at hs
        · simp [← Option.some.inj hs]
        · cases hs
      · rw [sharedMetadata_third kind hkind] at hs
        split at hs
        · simp [← Option.some.inj hs]
        · cases hs
    rw [← List.mem_filter, hnode s hnumber, List.mem_singleton]

theorem thirteenth_found : Prints sharedNumber sharedMetadata sharedModule ∧
    Carries sharedMetadata 3 third ∧ ¬ Carries sharedMetadata 3 thirteenth ∧
    sharedModule.findInstr 3 = some (.instruction thirteenth ['f']) ∧
    ¬ FindsCarrier sharedMetadata sharedModule 3 := by
  have hcarries : Carries sharedMetadata 3 third :=
    ⟨zsuse, by decide, sharedMetadata_third zsuse (by decide)⟩
  have hno : ¬ Carries sharedMetadata 3 thirteenth := by
    rintro ⟨kind, hkind, h⟩
    rw [sharedMetadata_thirteenth kind hkind] at h
    split at h
    · exact absurd (Option.some.inj h) (by decide)
    · cases h
  have hfound : sharedModule.findInstr 3 = some (.instruction thirteenth ['f']) := by
    decide +kernel
  refine ⟨prints_shared, hcarries, hno, hfound, ?_⟩
  intro h
  exact hno (h.1 _ hfound)

end Embedwatch.Verifier
