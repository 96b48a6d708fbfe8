import Embedwatch.Verifier.VerifyInput

/-! Runs of the verifier. Records move definitions and resize dynamic ones; everything else about the
nodes stays as the static trace has it, so that a use is judged against the same node all along. -/

namespace Embedwatch.Verifier

open Library.PlainText

def TraceLine.skeleton (t : TraceLine) : TraceLine :=
  { t with address := fun _ => none, length := fun _ => none }

def State.skeleton (v : State) : State := ⟨v.nodes.map TraceLine.skeleton, v.defMap, []⟩

structure SameSkeleton (v v' : State) : Prop where
  nodes : v'.nodes.map TraceLine.skeleton = v.nodes.map TraceLine.skeleton
  defMap : v'.defMap = v.defMap

namespace SameSkeleton

variable {v v' v'' : State}

lemma refl (v : State) : SameSkeleton v v := ⟨rfl, rfl⟩

lemma trans (h : SameSkeleton v v') (h' : SameSkeleton v' v'') : SameSkeleton v v'' :=
  ⟨h'.nodes.trans h.nodes, h'.defMap.trans h.defMap⟩

end SameSkeleton

lemma modifyDefs_skeleton {v v' : State} {id : ℤ} {f : TraceLine → TraceLine}
    (hf : ∀ t, (f t).skeleton = t.skeleton) (h : v.modifyDefs id f = some v') :
    SameSkeleton v v' := by
  rw [State.modifyDefs] at h
  split at h
  · cases h
  · cases h
    refine ⟨?_, rfl⟩
    apply List.ext_getElem?
    intro p
    rw [List.getElem?_map, List.getElem?_map, List.getElem?_mapIdx]
    cases v.nodes[p]? with
    | none => rfl
    | some t =>
      simp only [Option.map_some, Option.some.injEq]
      split
      · exact hf t
      · rfl

lemma verifyRecord_skeleton {v v' : State} {r : Record} {c : Option Bool}
    (h : v.verifyRecord r = some (v', c)) : SameSkeleton v v' := by
  cases r with
  | defRec id addr =>
    simp only [State.verifyRecord, Option.bind_eq_bind, Option.bind_eq_some_iff] at h
    obtain ⟨v₁, h₁, h⟩ := h
    cases h
    refine modifyDefs_skeleton ?_ h₁
    intro t
    rfl
  | ddefRec id addr size =>
    simp only [State.verifyRecord, Option.bind_eq_bind, Option.bind_eq_some_iff] at h
    obtain ⟨v₁, h₁, h⟩ := h
    cases h
    refine modifyDefs_skeleton ?_ h₁
    intro t
    rfl
  | useRec id addr =>
    simp only [State.verifyRecord, Option.bind_eq_bind, Option.bind_eq_some_iff] at h
    obtain ⟨_, -, h⟩ := h
    cases h
    exact SameSkeleton.refl v
  | iuseRec use defn addr =>
    simp only [State.verifyRecord, Option.bind_eq_bind, Option.bind_eq_some_iff] at h
    obtain ⟨_, -, h⟩ := h
    cases h
    exact SameSkeleton.refl v

theorem verifyRecords_induction (inv : State → Prop) (ok : Record → Prop)
    (hstep : ∀ v r v' c, inv v → ok r → v.verifyRecord r = some (v', c) → inv v')
    {v v' : State} {rs : List Record} {cs : List (Option Bool)} (hv : inv v)
    (hok : ∀ r ∈ rs, ok r) (h : v.verifyRecords rs = some (v', cs)) : inv v' := by
  induction rs generalizing v cs with
  | nil =>
    cases h
    exact hv
  | cons r rs ih =>
    simp only [State.verifyRecords, Option.bind_eq_bind, Option.bind_eq_some_iff] at h
    obtain ⟨⟨v₁, c⟩, h₁, ⟨v₂, cs'⟩, h₂, h⟩ := h
    cases h
    exact ih (hstep v r v₁ c hv (hok r List.mem_cons_self) h₁)
      (fun r' hr' => hok r' (List.mem_cons_of_mem r hr')) h₂

lemma verifyRecords_append {v : State} {rs ts : List Record} :
    v.verifyRecords (rs ++ ts) = (v.verifyRecords rs).bind fun out =>
      (out.1.verifyRecords ts).map fun out' => (out'.1, out.2 ++ out'.2) := by
  induction rs generalizing v with
  | nil =>
    cases h : v.verifyRecords ts <;> simp [State.verifyRecords, h]
  | cons r rs ih =>
    simp only [List.cons_append, State.verifyRecords, ih]
    cases v.verifyRecord r with
    | none => rfl
    | some out =>
      cases h : out.1.verifyRecords rs with
      | none => simp [h]
      | some out' => cases h' : out'.1.verifyRecords ts <;> simp [h, h']

def State.place (v : State) : Record → Option ℕ
  | .useRec id _ => v.usePlace (getIdVar id.toNat).1
  | .iuseRec use defn _ => v.iusePlace (getIdVar use.toInt).1 (getIdVar defn.toInt).1
  | .defRec _ _ | .ddefRec _ _ _ => none

def frameOf : Record → ℤ
  | .useRec id _ => (getIdVar id.toNat).2
  | .iuseRec _ defn _ => (getIdVar defn.toInt).2
  | .defRec id _ | .ddefRec id _ _ => (getIdVar id.toNat).2

def addrOf : Record → Word
  | .defRec _ addr | .ddefRec _ addr _ | .useRec _ addr | .iuseRec _ _ addr => addr

lemma verifyRecord_use {v : State} {r : Record} (hu : r.isUse = true) :
    v.verifyRecord r = (((v.place r).bind v.target).bind fun t =>
      t.checkUse (addrOf r).toNat (frameOf r)).map fun c => (v, some c) := by
  cases r with
  | defRec => cases hu
  | ddefRec => cases hu
  | useRec id addr =>
    simp only [State.verifyRecord, State.onUse, State.place, frameOf, addrOf]
    cases h : v.usePlace (getIdVar id.toNat).1 with
    | none => rfl
    | some p =>
      cases h' : v.target p with
      | none => simp [h']
      | some t => cases h'' : t.checkUse addr.toNat (getIdVar id.toNat).2 <;> simp [h', h'']
  | iuseRec use defn addr =>
    simp only [State.verifyRecord, State.onIuse, State.place, frameOf, addrOf]
    cases h : v.iusePlace (getIdVar use.toInt).1 (getIdVar defn.toInt).1 with
    | none => rfl
    | some p =>
      cases h' : v.target p with
      | none => simp [h']
      | some t => cases h'' : t.checkUse addr.toNat (getIdVar defn.toInt).2 <;> simp [h', h'']

lemma eq_of_verifyRecord_use {v v' : State} {r : Record} {c : Option Bool} (hu : r.isUse = true)
    (h : v.verifyRecord r = some (v', c)) : v' = v := by
  rw [verifyRecord_use hu, Option.map_eq_some_iff] at h
  obtain ⟨b, -, h⟩ := h
  exact (congrArg Prod.fst h).symm

lemma find?_skeleton (v : State) (id : ℤ) :
    (v.nodes.map TraceLine.skeleton).find? (fun x => x.id = id) =
      (v.nodes.find? fun x => x.id = id).map TraceLine.skeleton := by
  rw [List.find?_map]
  rfl

lemma usePlace_skeleton (v : State) (id : ℤ) :
    v.skeleton.usePlace id = v.usePlace id := by
  have hcls : ∀ p : ℕ, ((v.nodes.map TraceLine.skeleton)[p]?.bind TraceLine.cls) =
      v.nodes[p]?.bind TraceLine.cls := by
    intro p
    rw [List.getElem?_map]
    cases v.nodes[p]? <;> rfl
  simp only [State.usePlace, State.skeleton, find?_skeleton, hcls]
  cases v.nodes.find? fun x => x.id = id <;> rfl

lemma iusePlace_skeleton (v : State) (id id' : ℤ) :
    v.skeleton.iusePlace id id' = v.iusePlace id id' := by
  simp only [State.iusePlace, State.skeleton, find?_skeleton]
  cases v.nodes.find? fun x => x.id = id <;> rfl

theorem SameSkeleton.place_eq {v v' : State} (h : SameSkeleton v v') (r : Record) :
    v'.place r = v.place r := by
  have hstate : v'.skeleton = v.skeleton := by rw [State.skeleton, h.nodes, h.defMap, State.skeleton]
  have huse : ∀ id, v'.usePlace id = v.usePlace id := by
    intro id
    rw [← usePlace_skeleton v', hstate, usePlace_skeleton]
  have hiuse : ∀ id id', v'.iusePlace id id' = v.iusePlace id id' := by
    intro id id'
    rw [← iusePlace_skeleton v', hstate, iusePlace_skeleton]
  cases r with
  | defRec => rfl
  | ddefRec => rfl
  | useRec => exact huse _
  | iuseRec => exact hiuse _ _

end Embedwatch.Verifier
