import Embedwatch.Instrumentor.FunctionInstrumentor
import Embedwatch.Library.Lookup

/-! The pass `InputWrapper`: calls of `wrapper_scanf` and `wrapper_gets` are put in front of the calls
that read input. -/

namespace Embedwatch.Pass.InputWrapper

open Library.Lookup Library.PlainText
open Instrumentor (wrapperScanf wrapperGets)

def scanfText : Text := ['s', 'c', 'a', 'n', 'f']

def getsText : Text := ['g', 'e', 't', 's']

def fgetsText : Text := ['f', 'g', 'e', 't', 's']

def blacklist : List Text :=
  [['z', 'b', 'o', 'u', 'n', 'c', 'e', 'r', '_', 'i', 'n', 'i', 't'],
    ['z', 'b', 'o', 'u', 'n', 'c', 'e', 'r', '_', 'd', 'e', 's', 't', 'r', 'o', 'y'],
    ['z', 'b', 'o', 'u', 'n', 'c', 'e', 'r', '_', 'v', 'i', 'o', 'l', 'a', 't', 'i', 'o', 'n'],
    ['z', 'b', 'o', 'u', 'n', 'c', 'e', 'r', '_', 'e', 'n', 't', 'r', 'y'],
    ['z', 'b', 'o', 'u', 'n', 'c', 'e', 'r', '_', 'e', 'x', 'i', 't'],
    wrapperScanf, wrapperGets]

structure Arg where
  value : ℕ
  isInt8Ptr : Bool
deriving DecidableEq

/-- A function that `getCalledFunction` gives, or the names of those that a pointer may lead to. -/
inductive Callee
  | direct (name : Text)
  | indirect (targets : List Text)

/-- The conversions of a format: with `*`, `%%` nothing is assigned. -/
inductive Conversion
  | assigned
  | suppressed
deriving DecidableEq

structure Call where
  callee : Callee
  args : List Arg
  format : List Conversion

inductive Inst
  | call (c : Call)
  | other

structure Function where
  name : Text
  blocks : List (List Inst)

structure Module where
  declarations : List Text
  functions : List Function

inductive Wrapper
  | scanf (format buffer : Arg)
  | gets (buffer : Arg)
deriving DecidableEq

def Wrapper.name : Wrapper → Text
  | .scanf _ _ => wrapperScanf
  | .gets _ => wrapperGets

inductive OutInst
  | orig (i : Inst)
  | inserted (w : Wrapper)

structure OutFunction where
  name : Text
  blocks : List (List OutInst)

structure OutModule where
  declarations : List Text
  functions : List OutFunction

/-- `Args[0]` and `Args[1]`; LLVM takes no call whose arguments are not of the types of the function. -/
def createScanf : List Arg → Option Wrapper
  | format :: buffer :: _ =>
    if format.isInt8Ptr && buffer.isInt8Ptr then some (.scanf format buffer) else none
  | _ => none

def createGets : List Arg → Option Wrapper
  | buffer :: _ => if buffer.isInt8Ptr then some (.gets buffer) else none
  | [] => none

def scanfWrappers (name : Text) (args : List Arg) : Option (List Wrapper) :=
  if occurs scanfText name then (createScanf args).map fun w => [w] else some []

def getsWrappers (name : Text) (args : List Arg) : Option (List Wrapper) :=
  if occurs getsText name then
    if occurs fgetsText name then some [] else (createGets args).map fun w => [w]
  else some []

def wrappers : Inst → Option (List Wrapper)
  | .call ⟨.direct name, args, _⟩ => do
    let scanfs ← scanfWrappers name args
    let gets ← getsWrappers name args
    some (scanfs ++ gets)
  | .call ⟨.indirect _, _, _⟩ | .other => some []

def instrumentBlock : List Inst → Option (List OutInst)
  | [] => some []
  | i :: BB => do
    let ws ← wrappers i
    let out ← instrumentBlock BB
    some (ws.map .inserted ++ .orig i :: out)

def instrument (F : Function) : Option OutFunction :=
  if F.name ∈ blacklist then some ⟨F.name, F.blocks.map (List.map .orig)⟩
  else (F.blocks.mapM instrumentBlock).map fun blocks => ⟨F.name, blocks⟩

def insertedInto (F : OutFunction) : List Wrapper :=
  F.blocks.flatten.filterMap fun i => match i with
    | .inserted w => some w
    | .orig _ => none

/-- `getOrInsertFunction`. -/
def declare (defined : List Text) (declarations : List Text) (w : Wrapper) : List Text :=
  if w.name ∈ declarations ∨ w.name ∈ defined then declarations else declarations ++ [w.name]

def runOnModule (M : Module) : Option OutModule :=
  (M.functions.mapM instrument).map fun functions =>
    ⟨(functions.flatMap insertedInto).foldl (declare (M.functions.map Function.name))
      M.declarations, functions⟩

def scanfName : Text := scanfText

def isoc99Name : Text := ['_', '_', 'i', 's', 'o', 'c', '9', '9', '_', 's', 'c', 'a', 'n', 'f']

def sscanfName : Text := 's' :: scanfText

def fscanfName : Text := 'f' :: scanfText

def scanned (name : Text) (args : List Arg) : List Arg :=
  if name = scanfName ∨ name = isoc99Name then args.drop 1
  else if name = sscanfName ∨ name = fscanfName then args.drop 2
  else []

def Callee.targets : Callee → List Text
  | .direct name => [name]
  | .indirect names => names

def Call.written (c : Call) : List ℕ :=
  c.callee.targets.flatMap fun name =>
    ((scanned name c.args).take (c.format.count .assigned)).map Arg.value

def Call.gotten (c : Call) : List ℕ :=
  c.callee.targets.flatMap fun name =>
    if name = getsText then (c.args.take 1).map Arg.value else []

def ScanfsFor (c : Call) (ws : List Wrapper) : Prop :=
  ∀ v, v ∈ c.written ↔ ∃ format buffer, .scanf format buffer ∈ ws ∧ buffer.value = v

def GetsFor (c : Call) (ws : List Wrapper) : Prop :=
  ∀ v, v ∈ c.gotten ↔ ∃ buffer, .gets buffer ∈ ws ∧ buffer.value = v

def ExactlyFor : Inst → List Wrapper → Prop
  | .call c, ws => ScanfsFor c ws ∧ GetsFor c ws
  | .other, ws => ws = []

def Wraps : List Inst → List OutInst → Prop
  | [], out => out = []
  | i :: BB, out =>
    ∃ ws rest, out = ws.map .inserted ++ .orig i :: rest ∧ ExactlyFor i ws ∧ Wraps BB rest

def InputsWrapped (M : Module) : Prop :=
  ∃ M', runOnModule M = some M' ∧ List.Forall₂ (fun F F' => F.name ∉ blacklist →
    List.Forall₂ Wraps F.blocks F'.blocks) M.functions M'.functions

def Recognised : Inst → Prop
  | .call c =>
    match c.callee with
    | .direct name =>
      (occurs scanfText name = true → ∃ format buffer rest, c.args = format :: buffer :: rest ∧
        format.isInt8Ptr = true ∧ buffer.isInt8Ptr = true ∧ buffer.value ∈ c.written ∧
          ∀ v ∈ c.written, v = buffer.value) ∧
      (occurs getsText name = true → occurs fgetsText name = false →
        name = getsText ∧ ∃ buffer rest, c.args = buffer :: rest ∧ buffer.isInt8Ptr = true)
    | .indirect _ => c.written = [] ∧ c.gotten = []
  | .other => True

variable {c : Call} {name : Text} {args : List Arg}

lemma scanfsFor_nil : ScanfsFor c [] ↔ c.written = [] := by
  rw [ScanfsFor, List.eq_nil_iff_forall_not_mem]
  simp

lemma getsFor_nil : GetsFor c [] ↔ c.gotten = [] := by
  rw [GetsFor, List.eq_nil_iff_forall_not_mem]
  simp

lemma forall_mem_iff_eq {l : List ℕ} {w : ℕ} :
    (∀ v, v ∈ l ↔ w = v) ↔ w ∈ l ∧ ∀ v ∈ l, v = w := by
  constructor
  · intro h
    exact ⟨(h w).mpr rfl, fun v hv => ((h v).mp hv).symm⟩
  · rintro ⟨hw, hall⟩ v
    constructor
    · exact fun hv => (hall v hv).symm
    · rintro rfl
      exact hw

lemma scanfsFor_singleton {format buffer : Arg} : ScanfsFor c [.scanf format buffer] ↔
    buffer.value ∈ c.written ∧ ∀ v ∈ c.written, v = buffer.value := by
  rw [ScanfsFor, ← forall_mem_iff_eq]
  simp

lemma getsFor_singleton {buffer : Arg} : GetsFor c [.gets buffer] ↔
    buffer.value ∈ c.gotten ∧ ∀ v ∈ c.gotten, v = buffer.value := by
  rw [GetsFor, ← forall_mem_iff_eq]
  simp

lemma createScanf_eq_some {w : Wrapper} : createScanf args = some w ↔
    ∃ format buffer rest, args = format :: buffer :: rest ∧ format.isInt8Ptr = true ∧
      buffer.isInt8Ptr = true ∧ w = .scanf format buffer := by
  constructor
  · intro h
    cases args with
    | nil => cases h
    | cons format args =>
      cases args with
      | nil => cases h
      | cons buffer rest =>
        obtain ⟨htypes, hw⟩ := Option.ite_none_right_eq_some.mp h
        rw [Bool.and_eq_true] at htypes
        exact ⟨format, buffer, rest, rfl, htypes.1, htypes.2, (Option.some.inj hw).symm⟩
  · rintro ⟨format, buffer, rest, rfl, hformat, hbuffer, rfl⟩
    rw [createScanf, hformat, hbuffer]
    rfl

lemma createGets_eq_some {w : Wrapper} : createGets args = some w ↔
    ∃ buffer rest, args = buffer :: rest ∧ buffer.isInt8Ptr = true ∧ w = .gets buffer := by
  constructor
  · intro h
    cases args with
    | nil => cases h
    | cons buffer rest =>
      obtain ⟨htype, hw⟩ := Option.ite_none_right_eq_some.mp h
      exact ⟨buffer, rest, rfl, htype, (Option.some.inj hw).symm⟩
  · rintro ⟨buffer, rest, rfl, hbuffer, rfl⟩
    rw [createGets, if_pos hbuffer]

lemma written_direct (hc : c.callee = .direct name) :
    c.written = ((scanned name c.args).take (c.format.count .assigned)).map Arg.value := by
  rw [Call.written, hc, Callee.targets, List.flatMap_singleton]

lemma gotten_direct (hc : c.callee = .direct name) :
    c.gotten = if name = getsText then (c.args.take 1).map Arg.value else [] := by
  rw [Call.gotten, hc, Callee.targets, List.flatMap_singleton]

lemma written_of_not_occurs (hc : c.callee = .direct name) (h : occurs scanfText name = false) :
    c.written = [] := by
  have hne : ∀ n, occurs scanfText n = true → name ≠ n := by
    rintro n hn rfl
    rw [hn] at h
    cases h
  have hscanf : ¬ (name = scanfName ∨ name = isoc99Name) :=
    not_or.mpr ⟨hne _ (by decide), hne _ (by decide)⟩
  have hother : ¬ (name = sscanfName ∨ name = fscanfName) :=
    not_or.mpr ⟨hne _ (by decide), hne _ (by decide)⟩
  rw [written_direct hc, scanned, if_neg hscanf, if_neg hother, List.take_nil]
  rfl

lemma scanfs_iff (hc : c.callee = .direct name) :
    (∃ ws, scanfWrappers name c.args = some ws ∧ ScanfsFor c ws) ↔
      (occurs scanfText name = true → ∃ format buffer rest, c.args = format :: buffer :: rest ∧
        format.isInt8Ptr = true ∧ buffer.isInt8Ptr = true ∧ buffer.value ∈ c.written ∧
          ∀ v ∈ c.written, v = buffer.value) := by
  rw [scanfWrappers]
  cases h : occurs scanfText name with
  | false =>
    rw [if_neg Bool.false_ne_true]
    constructor
    · intro _ hocc
      cases hocc
    · intro _
      exact ⟨[], rfl, scanfsFor_nil.mpr (written_of_not_occurs hc h)⟩
  | true =>
    rw [if_pos rfl]
    constructor
    · rintro ⟨ws, hws, hfor⟩ -
      obtain ⟨w, hw, rfl⟩ := Option.map_eq_some_iff.mp hws
      obtain ⟨format, buffer, rest, hargs, hformat, hbuffer, rfl⟩ := createScanf_eq_some.mp hw
      exact ⟨format, buffer, rest, hargs, hformat, hbuffer, scanfsFor_singleton.mp hfor⟩
    · intro hall
      obtain ⟨format, buffer, rest, hargs, hformat, hbuffer, hfor⟩ := hall rfl
      have hcreate := createScanf_eq_some.mpr ⟨format, buffer, rest, hargs, hformat, hbuffer, rfl⟩
      exact ⟨_, Option.map_eq_some_iff.mpr ⟨_, hcreate, rfl⟩, scanfsFor_singleton.mpr hfor⟩

lemma gets_iff (hc : c.callee = .direct name) :
    (∃ ws, getsWrappers name c.args = some ws ∧ GetsFor c ws) ↔
      (occurs getsText name = true → occurs fgetsText name = false →
        name = getsText ∧ ∃ buffer rest, c.args = buffer :: rest ∧ buffer.isInt8Ptr = true) := by
  have hnone : name ≠ getsText → GetsFor c [] := by
    intro hne
    rw [getsFor_nil, gotten_direct hc, if_neg hne]
  rw [getsWrappers]
  cases h : occurs getsText name with
  | false =>
    rw [if_neg Bool.false_ne_true]
    have hne : name ≠ getsText := by
      rintro rfl
      exact absurd h (by decide)
    exact ⟨fun _ hocc => absurd hocc Bool.false_ne_true, fun _ => ⟨[], rfl, hnone hne⟩⟩
  | true =>
    rw [if_pos rfl]
    cases hf : occurs fgetsText name with
    | true =>
      rw [if_pos rfl]
      have hne : name ≠ getsText := by
        rintro rfl
        exact absurd hf (by decide)
      exact ⟨fun _ _ hocc => absurd hocc (by decide), fun _ => ⟨[], rfl, hnone hne⟩⟩
    | false =>
      rw [if_neg Bool.false_ne_true]
      constructor
      · rintro ⟨ws, hws, hfor⟩ - -
        obtain ⟨w, hw, rfl⟩ := Option.map_eq_some_iff.mp hws
        obtain ⟨buffer, rest, hargs, hbuffer, rfl⟩ := createGets_eq_some.mp hw
        refine ⟨?_, buffer, rest, hargs, hbuffer⟩
        by_contra hne
        have hmem := (getsFor_singleton.mp hfor).1
        rw [gotten_direct hc, if_neg hne] at hmem
        cases hmem
      · intro hall
        obtain ⟨hname, buffer, rest, hargs, hbuffer⟩ := hall rfl rfl
        have hcreate := createGets_eq_some.mpr ⟨buffer, rest, hargs, hbuffer, rfl⟩
        refine ⟨_, Option.map_eq_some_iff.mpr ⟨_, hcreate, rfl⟩, ?_⟩
        have hgotten : c.gotten = [buffer.value] := by
          rw [gotten_direct hc, if_pos hname, hargs]
          rfl
        rw [getsFor_singleton, hgotten]
        exact ⟨List.mem_cons_self, fun v hv => List.mem_singleton.mp hv⟩

lemma scanfWrappers_gets {ws : List Wrapper} (h : scanfWrappers name args = some ws) {buffer : Arg} :
    .gets buffer ∉ ws := by
  rw [scanfWrappers] at h
  split at h
  · obtain ⟨w, hw, rfl⟩ := Option.map_eq_some_iff.mp h
    obtain ⟨format, buffer', rest, -, -, -, rfl⟩ := createScanf_eq_some.mp hw
    simp
  · cases h
    exact List.not_mem_nil

lemma getsWrappers_scanf {ws : List Wrapper} (h : getsWrappers name args = some ws)
    {format buffer : Arg} : .scanf format buffer ∉ ws := by
  rw [getsWrappers] at h
  split at h
  · split at h
    · cases h
      exact List.not_mem_nil
    · obtain ⟨w, hw, rfl⟩ := Option.map_eq_some_iff.mp h
      obtain ⟨buffer', rest, -, -, rfl⟩ := createGets_eq_some.mp hw
      simp
  · cases h
    exact List.not_mem_nil

lemma exactlyFor_append {ws ws' : List Wrapper} (h : scanfWrappers name args = some ws)
    (h' : getsWrappers name args = some ws') :
    ExactlyFor (.call c) (ws ++ ws') ↔ ScanfsFor c ws ∧ GetsFor c ws' := by
  have hscanf : ∀ format buffer : Arg, .scanf format buffer ∈ ws ++ ws' ↔ .scanf format buffer ∈ ws := by
    intro format buffer
    rw [List.mem_append, or_iff_left (getsWrappers_scanf h')]
  have hgets : ∀ buffer : Arg, .gets buffer ∈ ws ++ ws' ↔ .gets buffer ∈ ws' := by
    intro buffer
    rw [List.mem_append, or_iff_right (scanfWrappers_gets h)]
  rw [ExactlyFor, ScanfsFor, GetsFor, ScanfsFor, GetsFor]
  simp only [hscanf, hgets]

lemma recognised_iff (i : Inst) :
    (∃ ws, wrappers i = some ws ∧ ExactlyFor i ws) ↔ Recognised i := by
  cases i with
  | other => exact ⟨fun _ => trivial, fun _ => ⟨[], rfl, rfl⟩⟩
  | call c =>
    obtain ⟨callee, args, format⟩ := c
    cases callee with
    | indirect targets =>
      rw [Recognised, ← scanfsFor_nil, ← getsFor_nil]
      constructor
      · rintro ⟨ws, hws, hfor⟩
        cases hws
        exact hfor
      · exact fun hfor => ⟨[], rfl, hfor⟩
    | direct name =>
      have hscanfs := scanfs_iff (c := ⟨.direct name, args, format⟩) rfl
      have hgets := gets_iff (c := ⟨.direct name, args, format⟩) rfl
      refine Iff.trans ?_ (and_congr hscanfs hgets)
      constructor
      · rintro ⟨ws, hws, hfor⟩
        obtain ⟨scanfs, hs, hws⟩ := Option.bind_eq_some_iff.mp hws
        obtain ⟨gets, hg, hws⟩ := Option.bind_eq_some_iff.mp hws
        cases hws
        obtain ⟨hfor, hfor'⟩ := (exactlyFor_append hs hg).mp hfor
        exact ⟨⟨scanfs, hs, hfor⟩, gets, hg, hfor'⟩
      · rintro ⟨⟨scanfs, hs, hfor⟩, gets, hg, hfor'⟩
        refine ⟨scanfs ++ gets, ?_, (exactlyFor_append hs hg).mpr ⟨hfor, hfor'⟩⟩
        exact Option.bind_eq_some_iff.mpr ⟨scanfs, hs, Option.bind_eq_some_iff.mpr ⟨gets, hg, rfl⟩⟩

lemma inserted_inj {ws ws' : List Wrapper} {i i' : Inst} {out out' : List OutInst}
    (h : ws.map OutInst.inserted ++ .orig i :: out = ws'.map OutInst.inserted ++ .orig i' :: out') :
    ws = ws' ∧ out = out' := by
  induction ws generalizing ws' with
  | nil =>
    cases ws' with
    | nil => exact ⟨rfl, (List.cons.inj h).2⟩
    | cons w ws' => cases h
  | cons w ws ih =>
    cases ws' with
    | nil => cases h
    | cons w' ws' =>
      obtain ⟨hw, hrest⟩ := List.cons.inj h
      obtain rfl := OutInst.inserted.inj hw
      obtain ⟨rfl, rfl⟩ := ih hrest
      exact ⟨rfl, rfl⟩

lemma instrumentBlock_cons {i : Inst} {BB : List Inst} {out : List OutInst} :
    instrumentBlock (i :: BB) = some out ↔ ∃ ws rest, wrappers i = some ws ∧
      instrumentBlock BB = some rest ∧ out = ws.map .inserted ++ .orig i :: rest := by
  rw [instrumentBlock]
  constructor
  · intro h
    obtain ⟨ws, hws, h⟩ := Option.bind_eq_some_iff.mp h
    obtain ⟨rest, hrest, h⟩ := Option.bind_eq_some_iff.mp h
    exact ⟨ws, rest, hws, hrest, (Option.some.inj h).symm⟩
  · rintro ⟨ws, rest, hws, hrest, rfl⟩
    exact Option.bind_eq_some_iff.mpr ⟨ws, hws, Option.bind_eq_some_iff.mpr ⟨rest, hrest, rfl⟩⟩

lemma instrumentBlock_iff (BB : List Inst) :
    (∃ out, instrumentBlock BB = some out ∧ Wraps BB out) ↔ ∀ i ∈ BB, Recognised i := by
  induction BB with
  | nil => exact ⟨fun _ i hi => absurd hi List.not_mem_nil, fun _ => ⟨[], rfl, rfl⟩⟩
  | cons i BB ih =>
    rw [List.forall_mem_cons, ← ih, ← recognised_iff]
    constructor
    · rintro ⟨out, h, ws', rest', heq, hfor, hwraps⟩
      obtain ⟨ws, rest, hws, hrest, rfl⟩ := instrumentBlock_cons.mp h
      obtain ⟨rfl, rfl⟩ := inserted_inj heq
      exact ⟨⟨ws, hws, hfor⟩, rest, hrest, hwraps⟩
    · rintro ⟨⟨ws, hws, hfor⟩, rest, hrest, hwraps⟩
      exact ⟨_, instrumentBlock_cons.mpr ⟨ws, rest, hws, hrest, rfl⟩, ws, rest, rfl, hfor, hwraps⟩

lemma instrument_iff (F : Function) :
    (∃ F', instrument F = some F' ∧
      (F.name ∉ blacklist → List.Forall₂ Wraps F.blocks F'.blocks)) ↔
      (F.name ∉ blacklist → ∀ BB ∈ F.blocks, ∀ i ∈ BB, Recognised i) := by
  have hblocks : (∃ blocks, F.blocks.mapM instrumentBlock = some blocks ∧
      List.Forall₂ Wraps F.blocks blocks) ↔ ∀ BB ∈ F.blocks, ∀ i ∈ BB, Recognised i := by
    rw [exists_mapM_forall₂]
    simp only [instrumentBlock_iff]
  by_cases hname : F.name ∈ blacklist
  · constructor
    · exact fun _ hnot => absurd hname hnot
    · exact fun _ => ⟨_, if_pos hname, fun hnot => absurd hname hnot⟩
  · rw [instrument, if_neg hname, forall_prop_of_true hname, ← hblocks]
    constructor
    · rintro ⟨F', hF', hwraps⟩
      obtain ⟨blocks, h, rfl⟩ := Option.map_eq_some_iff.mp hF'
      exact ⟨blocks, h, hwraps hname⟩
    · rintro ⟨blocks, h, hwraps⟩
      exact ⟨_, Option.map_eq_some_iff.mpr ⟨blocks, h, rfl⟩, fun _ => hwraps⟩

lemma inputsWrapped_iff_forall (M : Module) : InputsWrapped M ↔
    ∀ F ∈ M.functions, ∃ F', instrument F = some F' ∧
      (F.name ∉ blacklist → List.Forall₂ Wraps F.blocks F'.blocks) := by
  rw [← exists_mapM_forall₂]
  constructor
  · rintro ⟨M', hM', hwraps⟩
    obtain ⟨functions, h, rfl⟩ := Option.map_eq_some_iff.mp hM'
    exact ⟨functions, h, hwraps⟩
  · rintro ⟨functions, h, hwraps⟩
    exact ⟨_, Option.map_eq_some_iff.mpr ⟨functions, h, rfl⟩, hwraps⟩

theorem inputs_wrapped_iff (M : Module) : InputsWrapped M ↔
    ∀ F ∈ M.functions, F.name ∉ blacklist → ∀ BB ∈ F.blocks, ∀ i ∈ BB, Recognised i := by
  rw [inputsWrapped_iff_forall]
  apply forall₂_congr
  intro F _
  exact instrument_iff F

example : wrappers (.call ⟨.direct scanfName, [⟨0, true⟩, ⟨1, true⟩], [.assigned]⟩) =
    some [.scanf ⟨0, true⟩ ⟨1, true⟩] := by decide

def twoConversions : Module where
  declarations := [scanfName]
  functions := [⟨['f'], [[.call ⟨.direct scanfName, [⟨0, true⟩, ⟨1, true⟩, ⟨2, true⟩],
    [.assigned, .assigned]⟩]]⟩]

theorem second_pointer_not_wrapped : ¬ InputsWrapped twoConversions := by
  rw [inputsWrapped_iff_forall]
  intro h
  have hall := (instrument_iff _).mp (h _ List.mem_cons_self)
  obtain ⟨hscanf, -⟩ := hall (by decide) _ List.mem_cons_self _ List.mem_cons_self
  obtain ⟨format, buffer, rest, hargs, -, -, -, hwritten⟩ := hscanf (by decide)
  cases hargs
  exact absurd (hwritten 2 (by decide)) (by decide)

end Embedwatch.Pass.InputWrapper
