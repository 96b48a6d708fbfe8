import Embedwatch.Verifier.CheckedUses

/-! What the verifier prints about a violation. It finds the instructions again by searching the text of
the annotated module for the numbers in its metadata. -/

namespace Embedwatch.Verifier

open Library.PlainText

/-- A function of the module as it is printed: `text` is all of it, and `instructions` are the texts of
its instructions, one block after the other. -/
structure PrintedFunction where
  name : Text
  text : Text
  instructions : List Text

structure PrintedModule where
  globals : List Text
  functions : List PrintedFunction
  text : Text

def lines (t : Text) : List Text := t.splitOn '\n'

def zdef : Text := ['z', 'd', 'e', 'f']

def zsuse : Text := ['z', 's', 'u', 's', 'e']

def zluse : Text := ['z', 'l', 'u', 's', 'e']

def metadataKinds : List Text := [zdef, zsuse, zluse]

/-- `t[t.index(sub):]`. -/
def fromIndex (sub t : Text) : Option Text := t.tails.find? fun s => sub.isPrefixOf s

/-- `of`: the word behind the first occurrence of the name, without the comma. -/
def nodeName (name t : Text) : Option Text := do
  let word ← ((← fromIndex name t).splitOn ' ')[1]?
  some ((strip word).rdropWhile (· = ','))

def isNodeOf (id : ℤ) (node line : Text) : Bool :=
  occurs (node ++ [' ', '=']) line &&
    ((line.splitOn '=')[1]?.map (occurs (signedDecimal id))).getD false

/-- `,\s+!z[isld]` at the beginning of the text. -/
def tagBegins : Text → Bool
  | ',' :: t =>
    t.takeWhile isSpace ≠ [] &&
      match t.dropWhile isSpace with
      | '!' :: 'z' :: c :: _ => c = 'i' || c = 's' || c = 'l' || c = 'd'
      | _ => false
  | _ => false

/-- What `.*$` leaves of the text: it goes to the end of the line, which must be the last one. -/
def afterLastLine (t : Text) : Option Text :=
  match t.dropWhile (· ≠ '\n') with
  | [] => some []
  | ['\n'] => some ['\n']
  | _ => none

/-- `re.sub(",\s+!z[isld].*$", "", t)`. -/
def removeTags : Text → Text
  | [] => []
  | c :: t =>
    if tagBegins (c :: t) then
      match afterLastLine ((t.dropWhile isSpace).drop 3) with
      | some rest => rest
      | none => c :: removeTags t
    else c :: removeTags t

def instrText (t : Text) : Text := strip (removeTags t)

inductive Found
  | globalVariable (text : Text)
  | instruction (text function : Text)
  deriving DecidableEq

namespace Found

def text : Found → Text
  | .globalVariable t | .instruction t _ => t

def function : Found → Option Text
  | .globalVariable _ => none
  | .instruction _ f => some f

end Found

namespace PrintedModule

variable (m : PrintedModule) (id : ℤ)

def findGlobal : Option Text :=
  m.globals.find? fun i => metadataKinds.any fun name =>
    ((nodeName name i).map fun node => (lines m.text).any (isNodeOf id node)).getD false

/-- The loops over the lines of a function, the kinds and the lines of the module. The test of the
place of the instruction is always true. -/
def findInFunction (f : PrintedFunction) : Option Text :=
  (lines f.text).findSome? fun l => metadataKinds.findSome? fun name =>
    (nodeName name l).bind fun node => (lines m.text).findSome? fun x =>
      if isNodeOf id node x then f.instructions.find? fun i => occurs (instrText i) l else none

def findInstr : Option Found :=
  match m.findGlobal id with
  | some i => some (.globalVariable i)
  | none => m.functions.findSome? fun f => (m.findInFunction id f).map fun i => .instruction i f.name

end PrintedModule

inductive Report
  | violation (defStr : Text) (source : Option Text) (useStr function : Text)
  | cannotFind (useInfo defInfo : Text)
  deriving DecidableEq

namespace State

def defs (v : State) : List TraceLine :=
  (((v.nodes.filter fun t => occurs defType t.type).map TraceLine.id).eraseDups.flatMap
    v.defMap).filterMap fun p => v.nodes[p]?

def findDef (v : State) (m : PrintedModule) (info : Text) : Option Found :=
  v.defs.foldl (fun found d => if d.info = info then (m.findInstr d.id).or found else found) none

/-- What is printed for a use of `use_struct` and a definition `def_struct`; the name of the function of
a global variable cannot be printed. -/
def report (v : State) (m : PrintedModule) (useStruct defStruct : TraceLine) : Option Report :=
  match m.findInstr useStruct.id, v.findDef m defStruct.info with
  | some iUse, some iDef =>
    iUse.function.map fun f =>
      .violation (instrText iDef.text) iDef.function (instrText iUse.text) f
  | _, _ => some (.cannotFind useStruct.info defStruct.info)

def useStruct (v : State) : Entry → Option TraceLine
  | .use id _ => v.nodes.find? fun x => x.id = (getIdVar id).1
  | .iuse _ use _ => v.nodes.find? fun x => x.id = (getIdVar use).1
  | .defn _ _ | .ddefn _ _ _ | .other => none

def round (v : State) (m : PrintedModule) (e : Entry) : Option (State × Option Report) := do
  let (v', violation) ← v.verify e
  if violation = some true then
    let use ← v.useStruct e
    let defn ← v.target (← v.judge e)
    let report ← v.report m use defn
    some (v', some report)
  else some (v', none)

def rounds (v : State) (m : PrintedModule) : List Entry → Option (State × List (Option Report))
  | [] => some (v, [])
  | e :: es => do
    let (v', report) ← v.round m e
    let (v'', reports) ← v'.rounds m es
    some (v'', report :: reports)

end State

def Tagged (m : PrintedModule) (id : ℤ) (t : Text) : Prop :=
  ∃ name ∈ metadataKinds, ∃ node, nodeName name t = some node ∧
    ∃ line ∈ lines m.text, isNodeOf id node line

def InGlobal (m : PrintedModule) (id : ℤ) : Prop := ∃ i ∈ m.globals, Tagged m id i

def InFunction (m : PrintedModule) (id : ℤ) (f : PrintedFunction) : Prop :=
  ∃ l ∈ lines f.text, Tagged m id l ∧ ∃ i ∈ f.instructions, occurs (instrText i) l

namespace PrintedModule

variable {m : PrintedModule} {id : ℤ} {f : PrintedFunction}

lemma tagged_iff_any {t : Text} : (metadataKinds.any fun name =>
    ((nodeName name t).map fun node => (lines m.text).any (isNodeOf id node)).getD false) = true ↔
      Tagged m id t := by
  rw [List.any_eq_true, Tagged]
  apply exists_congr
  intro name
  apply and_congr_right
  intro _
  cases nodeName name t with
  | none => simp
  | some node => simp

lemma findGlobal_isSome : (m.findGlobal id).isSome ↔ InGlobal m id := by
  rw [findGlobal, List.find?_isSome]
  apply exists_congr
  intro i
  apply and_congr_right
  intro _
  exact tagged_iff_any

lemma findSome?_tagged {α : Type*} {t : Text} {found : Option α} {a : α} :
    (metadataKinds.findSome? fun name => (nodeName name t).bind fun node =>
      (lines m.text).findSome? fun x => if isNodeOf id node x then found else none) = some a ↔
        Tagged m id t ∧ found = some a := by
  have hsound : ∀ {b}, (metadataKinds.findSome? fun name => (nodeName name t).bind fun node =>
      (lines m.text).findSome? fun x => if isNodeOf id node x then found else none) = some b →
        Tagged m id t ∧ found = some b := by
    intro b h
    obtain ⟨name, hname, h⟩ := List.exists_of_findSome?_eq_some h
    obtain ⟨node, hnode, h⟩ := Option.bind_eq_some_iff.mp h
    obtain ⟨x, hx, h⟩ := List.exists_of_findSome?_eq_some h
    split at h
    · rename_i hline
      exact ⟨⟨name, hname, node, hnode, x, hx, hline⟩, h⟩
    · cases h
  constructor
  · exact hsound
  · rintro ⟨⟨name, hname, node, hnode, x, hx, hline⟩, rfl⟩
    have hsome : (metadataKinds.findSome? fun name => (nodeName name t).bind fun node =>
        (lines m.text).findSome? fun x => if isNodeOf id node x then some a else none).isSome := by
      rw [List.findSome?_isSome_iff]
      refine ⟨name, hname, ?_⟩
      rw [hnode, Option.bind_some, List.findSome?_isSome_iff]
      exact ⟨x, hx, by rw [if_pos hline]; rfl⟩
    obtain ⟨b, hb⟩ := Option.isSome_iff_exists.mp hsome
    rw [hb, (hsound hb).2]

lemma findInFunction_isSome : (m.findInFunction id f).isSome ↔ InFunction m id f := by
  rw [findInFunction, List.findSome?_isSome_iff]
  apply exists_congr
  intro l
  apply and_congr_right
  intro _
  rw [Option.isSome_iff_exists]
  simp only [findSome?_tagged, exists_and_left]
  rw [← Option.isSome_iff_exists, List.find?_isSome]

lemma findInstr_function {found : Found} (h : m.findInstr id = some found) :
    found.function.isSome ↔ ¬ InGlobal m id := by
  rw [← findGlobal_isSome]
  rw [findInstr] at h
  cases hglobal : m.findGlobal id with
  | some i =>
    rw [hglobal] at h
    cases h
    simp [Found.function]
  | none =>
    rw [hglobal] at h
    obtain ⟨f, -, hfound⟩ := List.exists_of_findSome?_eq_some h
    obtain ⟨i, -, rfl⟩ := Option.map_eq_some_iff.mp hfound
    simp [Found.function]

lemma findInstr_isSome :
    (m.findInstr id).isSome ↔ InGlobal m id ∨ ∃ f ∈ m.functions, InFunction m id f := by
  rw [← findGlobal_isSome, findInstr]
  cases m.findGlobal id with
  | some i => simp
  | none =>
    simp only [List.findSome?_isSome_iff, Option.isSome_map, findInFunction_isSome,
      Option.isSome_none, Bool.false_eq_true, false_or]

end PrintedModule

def UseFound (m : PrintedModule) (id : ℤ) : Prop :=
  ¬ InGlobal m id ∧ ∃ f ∈ m.functions, InFunction m id f

def DefFound (m : PrintedModule) (v : State) (info : Text) : Prop :=
  ∃ d ∈ v.nodes, occurs defType d.type ∧ d.info = info ∧
    (InGlobal m d.id ∨ ∃ f ∈ m.functions, InFunction m d.id f)

def Traceable (m : PrintedModule) (v : State) (e : Entry) : Prop :=
  ∃ use place t, v.useStruct e = some use ∧ v.judge e = some place ∧ v.target place = some t ∧
    UseFound m use.id ∧ DefFound m v t.info

lemma TraceLine.info_of_skeleton {t t' : TraceLine} (h : t'.skeleton = t.skeleton) :
    t'.info = t.info := by
  have hinfo := congrArg TraceLine.info h
  exact hinfo

def Report.isViolation : Report → Bool
  | .violation _ _ _ _ => true
  | .cannotFind _ _ => false

namespace SameSkeleton

variable {v v' : State} {m : PrintedModule}

lemma symm (h : SameSkeleton v v') : SameSkeleton v' v := ⟨h.nodes.symm, h.defMap.symm⟩

lemma indexed (h : SameSkeleton v v') (hv : Indexed v) : Indexed v' := by
  intro i p
  rw [h.defMap, hv]
  constructor
  · rintro ⟨t, ht, hdef, rfl⟩
    obtain ⟨t', ht', hskel⟩ := State.SameSkeleton.getElem? h ht
    obtain ⟨hid, htype, -, -⟩ := TraceLine.of_skeleton hskel
    exact ⟨t', ht', by rw [htype]; exact hdef, hid⟩
  · rintro ⟨t', ht', hdef, rfl⟩
    obtain ⟨t, ht, hskel⟩ := State.SameSkeleton.getElem? h.symm ht'
    obtain ⟨hid, htype, -, -⟩ := TraceLine.of_skeleton hskel
    exact ⟨t, ht, by rw [htype]; exact hdef, hid⟩

lemma find? (h : SameSkeleton v v') {id : ℤ} {use : TraceLine}
    (huse : v.nodes.find? (fun x => x.id = id) = some use) :
    ∃ use', v'.nodes.find? (fun x => x.id = id) = some use' ∧ use'.skeleton = use.skeleton := by
  have hfind := find?_skeleton v' id
  rw [h.nodes, find?_skeleton v id, huse, Option.map_some] at hfind
  exact Option.map_eq_some_iff.mp hfind.symm

lemma useStruct (h : SameSkeleton v v') {e : Entry} {use : TraceLine}
    (huse : v.useStruct e = some use) : ∃ use', v'.useStruct e = some use' ∧ use'.id = use.id := by
  cases e with
  | use id addr =>
    obtain ⟨use', huse', hs⟩ := h.find? huse
    exact ⟨use', huse', (TraceLine.of_skeleton hs).1⟩
  | iuse d id addr =>
    obtain ⟨use', huse', hs⟩ := h.find? huse
    exact ⟨use', huse', (TraceLine.of_skeleton hs).1⟩
  | defn => cases huse
  | ddefn => cases huse
  | other => cases huse

lemma target (h : SameSkeleton v v') {place : ℕ} {t : TraceLine} (ht : v.target place = some t) :
    ∃ t', v'.target place = some t' ∧ t'.info = t.info := by
  obtain ⟨s, hs, ht⟩ := Option.bind_eq_some_iff.mp ht
  obtain ⟨s', hs', hskel⟩ := State.SameSkeleton.getElem? h hs
  obtain ⟨-, htype, hchildren, -⟩ := TraceLine.of_skeleton hskel
  rw [State.deref] at ht
  by_cases hd : s.type = ddefType
  · rw [if_pos hd] at ht
    obtain ⟨q, hq, ht⟩ := Option.bind_eq_some_iff.mp ht
    obtain ⟨d, hnode, ht⟩ := Option.bind_eq_some_iff.mp ht
    cases ht
    obtain ⟨d', hd', hskel'⟩ := State.SameSkeleton.getElem? h hnode
    refine ⟨{ d' with address := s'.address }, ?_, TraceLine.info_of_skeleton hskel'⟩
    simp only [State.target, hs', Option.bind_eq_bind, Option.bind_some, State.deref, htype, hd,
      if_true, hchildren, hq, hd']
  · rw [if_neg hd] at ht
    cases ht
    refine ⟨s', ?_, TraceLine.info_of_skeleton hskel⟩
    simp only [State.target, hs', Option.bind_eq_bind, Option.bind_some, State.deref, htype, hd,
      if_false]

lemma defFound (h : SameSkeleton v v') {info : Text} (hd : DefFound m v info) :
    DefFound m v' info := by
  obtain ⟨d, hmem, hdef, rfl, hfound⟩ := hd
  obtain ⟨p, hp⟩ := List.getElem?_of_mem hmem
  obtain ⟨d', hd', hskel⟩ := State.SameSkeleton.getElem? h hp
  obtain ⟨hid, htype, -, -⟩ := TraceLine.of_skeleton hskel
  exact ⟨d', List.mem_of_getElem? hd', by rw [htype]; exact hdef, TraceLine.info_of_skeleton hskel,
    by rw [hid]; exact hfound⟩

lemma traceable (h : SameSkeleton v v') {e : Entry} (ht : Traceable m v e) : Traceable m v' e := by
  obtain ⟨use, place, t, huse, hplace, htarget, hu, hd⟩ := ht
  obtain ⟨use', huse', hid⟩ := h.useStruct huse
  obtain ⟨t', ht', hinfo⟩ := h.target htarget
  refine ⟨use', place, t', huse', (h.judge_eq e).trans hplace, ht', ?_, ?_⟩
  · rw [hid]
    exact hu
  · rw [hinfo]
    exact h.defFound hd

lemma traceable_iff (h : SameSkeleton v v') (e : Entry) : Traceable m v' e ↔ Traceable m v e :=
  ⟨h.symm.traceable, h.traceable⟩

end SameSkeleton

namespace State

variable {v v' : State} {m : PrintedModule}

lemma mem_defs (hv : Indexed v) {d : TraceLine} :
    d ∈ v.defs ↔ d ∈ v.nodes ∧ occurs defType d.type := by
  rw [defs, List.mem_filterMap]
  constructor
  · rintro ⟨p, hp, hd⟩
    obtain ⟨i, -, hp⟩ := List.mem_flatMap.mp hp
    obtain ⟨t, ht, hdef, -⟩ := (hv i p).mp hp
    cases ht.symm.trans hd
    exact ⟨List.mem_of_getElem? hd, hdef⟩
  · rintro ⟨hd, hdef⟩
    obtain ⟨p, hp⟩ := List.getElem?_of_mem hd
    refine ⟨p, List.mem_flatMap.mpr ⟨d.id, ?_, (hv d.id p).mpr ⟨d, hp, hdef, rfl⟩⟩, hp⟩
    rw [List.mem_eraseDups]
    exact List.mem_map.mpr ⟨d, List.mem_filter.mpr ⟨hd, hdef⟩, rfl⟩

lemma foldl_found (find : TraceLine → Option Found) (info : Text) (ds : List TraceLine)
    (found : Option Found) :
    (ds.foldl (fun found d => if d.info = info then (find d).or found else found) found).isSome ↔
      found.isSome ∨ ∃ d ∈ ds, d.info = info ∧ (find d).isSome := by
  induction ds generalizing found with
  | nil => simp
  | cons d ds ih =>
    rw [List.foldl_cons, ih, List.exists_mem_cons_iff, ← or_assoc]
    apply or_congr_left
    by_cases hd : d.info = info
    · simp [hd, or_comm]
    · simp [hd]

lemma findDef_isSome (hv : Indexed v) (info : Text) :
    (v.findDef m info).isSome ↔ DefFound m v info := by
  rw [findDef, foldl_found (fun d => m.findInstr d.id), DefFound]
  simp only [mem_defs hv, PrintedModule.findInstr_isSome, Option.isSome_none, Bool.false_eq_true,
    false_or, and_assoc]

lemma report_isViolation (hv : Indexed v) {use defn : TraceLine} :
    (∃ r, v.report m use defn = some r ∧ r.isViolation = true) ↔
      UseFound m use.id ∧ DefFound m v defn.info := by
  rw [report, ← findDef_isSome hv]
  cases huse : m.findInstr use.id with
  | none =>
    have hno : ¬ UseFound m use.id := by
      rintro ⟨-, hf⟩
      have hsome := PrintedModule.findInstr_isSome.mpr (Or.inr hf)
      rw [huse] at hsome
      cases hsome
    simp [hno, Report.isViolation]
  | some iUse =>
    have hsome := PrintedModule.findInstr_isSome.mp (Option.isSome_iff_exists.mpr ⟨iUse, huse⟩)
    have hfun := PrintedModule.findInstr_function huse
    have hfound : UseFound m use.id ↔ iUse.function.isSome := by
      rw [UseFound, hfun]
      exact ⟨fun h => h.1, fun h => ⟨h, hsome.resolve_left h⟩⟩
    rw [hfound]
    cases v.findDef m defn.info with
    | none => simp [Report.isViolation]
    | some iDef =>
      cases hf : iUse.function with
      | none => simp [hf]
      | some f => simp [hf, Report.isViolation]

lemma useStruct_of_verify {e : Entry} {c : Bool} (h : v.verify e = some (v', some c)) :
    v' = v ∧ ∃ use place t, v.useStruct e = some use ∧ v.judge e = some place ∧
      v.target place = some t := by
  have huse : e.isUse = true := by
    cases e with
    | use | iuse => rfl
    | defn =>
      obtain ⟨_, -, h⟩ := Option.bind_eq_some_iff.mp h
      cases h
    | ddefn =>
      obtain ⟨_, -, h⟩ := Option.bind_eq_some_iff.mp h
      cases h
    | other => cases h
  rw [verify_use huse] at h
  obtain ⟨c', h, heq⟩ := Option.map_eq_some_iff.mp h
  obtain ⟨t, h, -⟩ := Option.bind_eq_some_iff.mp h
  obtain ⟨place, hplace, ht⟩ := Option.bind_eq_some_iff.mp h
  refine ⟨(congrArg Prod.fst heq).symm, ?_⟩
  have hfound : ∃ use, v.useStruct e = some use := by
    cases e with
    | use id addr =>
      obtain ⟨use, huse, -⟩ := Option.bind_eq_some_iff.mp hplace
      exact ⟨use, huse⟩
    | iuse d id addr =>
      obtain ⟨use, huse, -⟩ := Option.bind_eq_some_iff.mp hplace
      exact ⟨use, huse⟩
    | defn => cases huse
    | ddefn => cases huse
    | other => cases huse
  obtain ⟨use, huse⟩ := hfound
  exact ⟨use, place, t, huse, hplace, ht⟩

lemma round_iff (hv : Indexed v) {e : Entry} {c : Option Bool} (h : v.verify e = some (v', c)) :
    (∃ report, v.round m e = some (v', report) ∧
      (c = some true → ∃ r, report = some r ∧ r.isViolation = true)) ↔
    (c = some true → Traceable m v e) := by
  rw [round, h, Option.bind_eq_bind, Option.bind_some]
  by_cases hc : c = some true
  · subst hc
    obtain ⟨rfl, use, place, t, huse, hplace, ht⟩ := useStruct_of_verify h
    have htrace : Traceable m v' e ↔ UseFound m use.id ∧ DefFound m v' t.info := by
      rw [Traceable]
      simp [huse, hplace, ht]
    simp only [if_true, huse, hplace, ht, Option.bind_eq_bind, Option.bind_some, htrace,
      ← report_isViolation hv, forall_const]
    cases v'.report m use t with
    | none => simp
    | some r => simp
  · simp [hc]

lemma round_state {e : Entry} {c : Option Bool} {u : State} {report : Option Report}
    (h : v.verify e = some (v', c)) (hround : v.round m e = some (u, report)) : u = v' := by
  simp only [round, h, Option.bind_eq_bind, Option.bind_some] at hround
  split at hround
  · obtain ⟨_, -, hround⟩ := Option.bind_eq_some_iff.mp hround
    obtain ⟨_, -, hround⟩ := Option.bind_eq_some_iff.mp hround
    obtain ⟨_, -, hround⟩ := Option.bind_eq_some_iff.mp hround
    obtain ⟨_, -, hround⟩ := Option.bind_eq_some_iff.mp hround
    cases hround
    rfl
  · cases hround
    rfl

lemma rounds_state {es : List Entry} {cs : List (Option Bool)} {u : State}
    {reports : List (Option Report)} (h : v.verifyAll es = some (v', cs))
    (hrun : v.rounds m es = some (u, reports)) : u = v' := by
  induction es generalizing v cs reports with
  | nil =>
    cases h
    cases hrun
    rfl
  | cons e es ih =>
    obtain ⟨v₁, c, cs', h₁, h₂, rfl⟩ := verifyAll_cons h
    simp only [rounds, Option.bind_eq_bind, Option.bind_eq_some_iff] at hrun
    obtain ⟨⟨u₁, report⟩, hu, ⟨u₂, reports'⟩, hu', heq⟩ := hrun
    cases heq
    obtain rfl := round_state h₁ hu
    exact ih h₂ hu'

theorem rounds_iff {v₀ : State} (hv₀ : Indexed v₀) (hskel : SameSkeleton v₀ v) {es : List Entry}
    {cs : List (Option Bool)} (h : v.verifyAll es = some (v', cs)) :
    (∃ reports, v.rounds m es = some (v', reports) ∧ ∀ k : ℕ, cs[k]? = some (some true) →
      ∃ r : Report, reports[k]? = some (some r) ∧ r.isViolation = true) ↔
    ∀ (k : ℕ) e, es[k]? = some e → cs[k]? = some (some true) → Traceable m v₀ e := by
  induction es generalizing v cs with
  | nil =>
    cases h
    simp [rounds]
  | cons e es ih =>
    obtain ⟨v₁, c, cs', h₁, h₂, rfl⟩ := verifyAll_cons h
    have hround := round_iff (m := m) (hskel.indexed hv₀) h₁
    have hrest := ih (hskel.trans (verify_skeleton h₁)) h₂
    rw [hskel.traceable_iff] at hround
    constructor
    · rintro ⟨reports, hrun, hall⟩ k e' he' hc'
      simp only [rounds, Option.bind_eq_bind, Option.bind_eq_some_iff] at hrun
      obtain ⟨⟨u, report⟩, hu, ⟨u', reports'⟩, hu', heq⟩ := hrun
      cases heq
      obtain rfl := round_state h₁ hu
      cases k with
      | zero =>
        cases he'
        apply hround.mp ⟨report, hu, ?_⟩ (Option.some.inj hc')
        intro hc
        obtain ⟨r, hr, hviolation⟩ := hall 0 hc'
        exact ⟨r, Option.some.inj hr, hviolation⟩
      | succ k =>
        apply hrest.mp ⟨reports', hu', ?_⟩ k e' he' hc'
        intro k hk
        exact hall (k + 1) hk
    · intro hall
      obtain ⟨report, hu, hreport⟩ := hround.mpr fun hc => hall 0 e rfl (congrArg some hc)
      obtain ⟨reports, hrun, hreports⟩ := hrest.mpr fun k e' => hall (k + 1) e'
      refine ⟨report :: reports, ?_, ?_⟩
      · simp only [rounds, hu, hrun, Option.bind_eq_bind, Option.bind_some]
      · intro k hk
        cases k with
        | zero =>
          obtain ⟨r, rfl, hviolation⟩ := hreport (Option.some.inj hk)
          exact ⟨r, rfl, hviolation⟩
        | succ k => exact hreports k hk

end State

end Embedwatch.Verifier
