import Embedwatch.Verifier.StaticObjects

/-! The dictionaries of a definition in the course of a trace. Each entry of the trace that names the
definition writes to its addresses, and a `DDEF` to its lengths too, both in its frame and in frame
0; a dictionary then holds what was written last. -/

namespace Embedwatch.Verifier

open Library.PlainText

inductive Entry
  | defn (id addr : ℤ)
  | ddefn (id addr len : ℤ)
  | use (id endAddr : ℤ)
  | iuse (defn use endAddr : ℤ)
  | other
  deriving DecidableEq

def readEntry (entry : List Text) : Option Entry := do
  let kind ← entry[0]?
  if kind = defType then some (.defn (← number 10 entry 1) (← number 16 entry 2))
  else if kind = ddefType then
    some (.ddefn (← number 10 entry 1) (← number 16 entry 2) (← number 10 entry 3))
  else if kind = useType then some (.use (← number 10 entry 1) (← number 16 entry 2))
  else if kind = iuseType then
    some (.iuse (← number 10 entry 1) (← number 10 entry 2) (← number 16 entry 3))
  else if occurs useType kind then none
  else some .other

namespace State

def judge (v : State) : Entry → Option ℕ
  | .use id _ => v.usePlace (getIdVar id).1
  | .iuse defn use _ => v.iusePlace (getIdVar use).1 (getIdVar defn).1
  | .defn _ _ | .ddefn _ _ _ | .other => none

end State

namespace Entry

def isUse : Entry → Bool
  | .use _ _ | .iuse _ _ _ => true
  | .defn _ _ | .ddefn _ _ _ | .other => false

def frame : Entry → ℤ
  | .use id _ => (getIdVar id).2
  | .iuse d _ _ => (getIdVar d).2
  | .defn id _ | .ddefn id _ _ => (getIdVar id).2
  | .other => 0

def endAddr : Entry → ℤ
  | .use _ addr | .iuse _ _ addr => addr
  | .defn _ _ | .ddefn _ _ _ | .other => 0

def address (id f : ℤ) : Entry → Option ℤ
  | .defn w addr => if getIdVar w = (id, f) then some addr else none
  | .ddefn w addr _ => if (getIdVar w).1 = id ∧ ((getIdVar w).2 = f ∨ f = 0) then some addr else none
  | .use _ _ | .iuse _ _ _ | .other => none

def length (id f : ℤ) : Entry → Option ℤ
  | .ddefn w _ len => if (getIdVar w).1 = id ∧ ((getIdVar w).2 = f ∨ f = 0) then some len else none
  | .defn _ _ | .use _ _ | .iuse _ _ _ | .other => none

end Entry

lemma State.isUse_of_judge {v : State} {e : Entry} {place : ℕ} (h : v.judge e = some place) :
    e.isUse = true := by
  cases e with
  | use | iuse => rfl
  | defn | ddefn | other => cases h

def lastOf (given : Entry → Option ℤ) (es : List Entry) : Option ℤ := es.reverse.findSome? given

lemma lastOf_append (given : Entry → Option ℤ) (es es' : List Entry) :
    lastOf given (es ++ es') = (lastOf given es').or (lastOf given es) := by
  rw [lastOf, List.reverse_append, List.findSome?_append]
  rfl

lemma lastOf_cons (given : Entry → Option ℤ) (e : Entry) (es : List Entry) :
    lastOf given (e :: es) = (lastOf given es).or (given e) := by
  rw [← List.singleton_append, lastOf_append]
  congr 1
  cases h : given e <;> simp [lastOf, h]

lemma lastOf_eq_none {given : Entry → Option ℤ} {es : List Entry}
    (h : ∀ e ∈ es, given e = none) : lastOf given es = none := by
  rw [lastOf, List.findSome?_eq_none_iff]
  intro e he
  exact h e (List.mem_reverse.mp he)

namespace State

variable {v v' : State} {e : Entry} {c : Option Bool}

def verify (v : State) : Entry → Option (State × Option Bool)
  | .defn id addr => do some (← v.onDef (getIdVar id) addr, none)
  | .ddefn id addr len => do some (← v.onDdef (getIdVar id) addr len, none)
  | .use id addr => do some (v, some (← v.onUse (getIdVar id) addr))
  | .iuse defn use addr => do some (v, some (← v.onIuse (getIdVar use) (getIdVar defn) addr))
  | .other => some (v, none)

theorem verifyEntry_eq (v : State) (entry : List Text) :
    v.verifyEntry entry = (readEntry entry).bind v.verify := by
  have hd : ddefType ≠ defType := by decide
  have hu : useType ≠ defType ∧ useType ≠ ddefType := by decide
  have hi : iuseType ≠ defType ∧ iuseType ≠ ddefType ∧ iuseType ≠ useType := by decide
  rw [State.verifyEntry, readEntry]
  cases entry[0]? with
  | none => rfl
  | some kind =>
    simp only [Option.bind_eq_bind, Option.bind_some]
    generalize number 10 entry 1 = a
    generalize number 16 entry 2 = b
    by_cases h₁ : kind = defType
    · subst h₁
      cases a <;> cases b <;> simp [verify]
    · by_cases h₂ : kind = ddefType
      · subst h₂
        cases a <;> cases b <;> cases number 10 entry 3 <;> simp [verify, hd]
      · by_cases h₃ : kind = useType
        · subst h₃
          cases a <;> cases b <;> simp [verify, hu]
        · by_cases h₄ : kind = iuseType
          · subst h₄
            cases a <;> cases number 10 entry 2 <;> cases number 16 entry 3 <;> simp [verify, hi]
          · by_cases h₅ : occurs useType kind = true
            · simp [h₁, h₂, h₃, h₄, h₅]
            · simp [h₁, h₂, h₃, h₄, h₅, verify]

def entryOf : Record → Entry
  | .defRec id addr => .defn id.toNat addr.toNat
  | .ddefRec id addr size => .ddefn id.toNat addr.toNat size.toNat
  | .useRec id addr => .use id.toNat addr.toNat
  | .iuseRec use defn addr => .iuse defn.toInt use.toInt addr.toNat

theorem verifyRecord_eq (v : State) (r : Record) : v.verifyRecord r = v.verify (entryOf r) := by
  cases r <;> rfl

def verifyAll (v : State) : List Entry → Option (State × List (Option Bool))
  | [] => some (v, [])
  | e :: es => do
    let (v', violation) ← v.verify e
    let (v'', violations) ← v'.verifyAll es
    some (v'', violation :: violations)

theorem verifyEntries_eq (v : State) (entries : List (List Text)) :
    v.verifyEntries entries = (entries.mapM readEntry).bind v.verifyAll := by
  induction entries generalizing v with
  | nil => rfl
  | cons entry entries ih =>
    rw [verifyEntries, verifyEntry_eq, List.mapM_cons]
    cases readEntry entry with
    | none => rfl
    | some e =>
      simp only [Option.bind_some, Option.bind_eq_bind, ih]
      cases hes : entries.mapM readEntry with
      | none =>
        simp only [Option.bind_none, Option.bind_fun_none]
      | some es =>
        simp only [Option.bind_some, Option.pure_def, verifyAll, Option.bind_eq_bind]

lemma verifyRecords_eq (v : State) (rs : List Record) :
    v.verifyRecords rs = v.verifyAll (rs.map entryOf) := by
  induction rs generalizing v with
  | nil => rfl
  | cons r rs ih =>
    simp only [verifyRecords, List.map_cons, verifyAll, verifyRecord_eq, ih]

lemma verifyAll_cons {es : List Entry} {cs : List (Option Bool)}
    (h : v.verifyAll (e :: es) = some (v', cs)) : ∃ v₁ c cs', v.verify e = some (v₁, c) ∧
      v₁.verifyAll es = some (v', cs') ∧ cs = c :: cs' := by
  simp only [verifyAll, Option.bind_eq_bind, Option.bind_eq_some_iff] at h
  obtain ⟨⟨v₁, c⟩, h₁, ⟨v₂, cs'⟩, h₂, h⟩ := h
  cases h
  exact ⟨v₁, c, cs', h₁, h₂, rfl⟩

lemma verifyAll_append (es es' : List Entry) :
    v.verifyAll (es ++ es') = (v.verifyAll es).bind fun out =>
      (out.1.verifyAll es').map fun out' => (out'.1, out.2 ++ out'.2) := by
  induction es generalizing v with
  | nil => cases h : v.verifyAll es' <;> simp [verifyAll, h]
  | cons e es ih =>
    simp only [List.cons_append, verifyAll, ih]
    cases v.verify e with
    | none => rfl
    | some out =>
      cases h : out.1.verifyAll es with
      | none => simp [h]
      | some out' => cases h' : out'.1.verifyAll es' <;> simp [h, h']

end State

lemma TraceLine.of_skeleton {t t' : TraceLine} (h : t'.skeleton = t.skeleton) :
    t'.id = t.id ∧ t'.type = t.type ∧ t'.children = t.children ∧ t'.offset = t.offset := by
  have hid := congrArg TraceLine.id h
  have htype := congrArg TraceLine.type h
  have hchildren := congrArg TraceLine.children h
  have hoffset := congrArg TraceLine.offset h
  exact ⟨hid, htype, hchildren, hoffset⟩

structure After (t : TraceLine) (es : List Entry) (t' : TraceLine) : Prop where
  skeleton : t'.skeleton = t.skeleton
  address : ∀ f, t'.address f = (lastOf (Entry.address t.id f) es).or (t.address f)
  length : ∀ f, t'.length f = (lastOf (Entry.length t.id f) es).or (t.length f)

lemma After.refl (t : TraceLine) : After t [] t := ⟨rfl, fun _ => rfl, fun _ => rfl⟩

lemma After.id_eq {t t' : TraceLine} {es : List Entry} (h : After t es t') : t'.id = t.id :=
  (TraceLine.of_skeleton h.skeleton).1

lemma After.append {t t' t'' : TraceLine} {es es' : List Entry} (h : After t es t')
    (h' : After t' es' t'') : After t (es ++ es') t'' where
  skeleton := h'.skeleton.trans h.skeleton
  address f := by
    rw [h'.address, h.address, h.id_eq, lastOf_append, Option.or_assoc]
  length f := by
    rw [h'.length, h.length, h.id_eq, lastOf_append, Option.or_assoc]

def Mapped (v : State) : Prop :=
  ∀ i p t, v.nodes[p]? = some t → occurs defType t.type = true → (p ∈ v.defMap i ↔ t.id = i)

lemma Parsed.mapped {v : State} (hv : Parsed v) : Mapped v := by
  intro i p t ht hdef
  rw [hv.defMap]
  constructor
  · rintro ⟨t', ht', -, rfl⟩
    rw [Option.some.inj (ht.symm.trans ht')]
  · rintro rfl
    exact ⟨t, ht, hdef, rfl⟩

namespace State

variable {v v' : State} {e : Entry} {c : Option Bool}

lemma verify_skeleton (h : v.verify e = some (v', c)) : SameSkeleton v v' := by
  cases e with
  | defn id addr =>
    obtain ⟨v₁, h₁, h⟩ := Option.bind_eq_some_iff.mp h
    cases h
    refine modifyDefs_skeleton ?_ h₁
    intro t
    rfl
  | ddefn id addr len =>
    obtain ⟨v₁, h₁, h⟩ := Option.bind_eq_some_iff.mp h
    cases h
    refine modifyDefs_skeleton ?_ h₁
    intro t
    rfl
  | use =>
    obtain ⟨_, -, h⟩ := Option.bind_eq_some_iff.mp h
    cases h
    exact SameSkeleton.refl v
  | iuse =>
    obtain ⟨_, -, h⟩ := Option.bind_eq_some_iff.mp h
    cases h
    exact SameSkeleton.refl v
  | other =>
    cases h
    exact SameSkeleton.refl v

lemma SameSkeleton.getElem? (h : SameSkeleton v v') {p : ℕ} {t : TraceLine}
    (ht : v.nodes[p]? = some t) : ∃ t', v'.nodes[p]? = some t' ∧ t'.skeleton = t.skeleton := by
  have hp := congrArg (fun ts : List TraceLine => ts[p]?) h.nodes
  simp only [List.getElem?_map, ht, Option.map_some] at hp
  exact Option.map_eq_some_iff.mp hp

end State

lemma Mapped.congr {v v' : State} (hv : Mapped v) (h : SameSkeleton v v') : Mapped v' := by
  have hsymm : SameSkeleton v' v := ⟨h.nodes.symm, h.defMap.symm⟩
  intro i p t' ht' hdef
  obtain ⟨t, ht, hskel⟩ := State.SameSkeleton.getElem? hsymm ht'
  obtain ⟨hid, htype, -, -⟩ := TraceLine.of_skeleton hskel
  rw [h.defMap, ← hid]
  exact hv i p t ht (by rw [htype]; exact hdef)

namespace State

variable {v v' : State} {p : ℕ} {t : TraceLine}

lemma verify_after (hv : Mapped v) (ht : v.nodes[p]? = some t)
    (hdef : occurs defType t.type = true) {e : Entry} {c : Option Bool}
    (h : v.verify e = some (v', c)) : ∃ t', v'.nodes[p]? = some t' ∧ After t [e] t' := by
  have hmem : ∀ i, p ∈ v.defMap i ↔ t.id = i := fun i => hv i p t ht hdef
  have hone : ∀ given, lastOf given [e] = given e := fun given => by rw [lastOf_cons]; rfl
  cases e with
  | defn id addr =>
    obtain ⟨v₁, h₁, h⟩ := Option.bind_eq_some_iff.mp h
    cases h
    rw [getElem?_modifyDefs h₁ p, ht, Option.map_some]
    refine ⟨_, rfl, ?_, fun f => ?_, fun f => ?_⟩
    · split <;> rfl
    · rw [hone, Entry.address]
      by_cases hid : t.id = (getIdVar id).1
      · rw [if_pos ((hmem _).mpr hid)]
        by_cases hf : f = (getIdVar id).2
        · have hpair : getIdVar id = (t.id, f) := Prod.ext hid.symm hf.symm
          rw [if_pos hpair, hf]
          exact Function.update_self ..
        · have hpair : getIdVar id ≠ (t.id, f) := fun he => hf (congrArg Prod.snd he).symm
          rw [if_neg hpair]
          exact Function.update_of_ne hf ..
      · have hpair : getIdVar id ≠ (t.id, f) := fun he => hid (congrArg Prod.fst he).symm
        rw [if_neg (fun hm => hid ((hmem _).mp hm)), if_neg hpair]
        rfl
    · rw [hone]
      split <;> rfl
  | ddefn id addr len =>
    obtain ⟨v₁, h₁, h⟩ := Option.bind_eq_some_iff.mp h
    cases h
    rw [getElem?_modifyDefs h₁ p, ht, Option.map_some]
    have hupdate : ∀ (m : ℤ → Option ℤ) (x f : ℤ),
        Function.update (Function.update m (getIdVar id).2 (some x)) 0 (some x) f =
          if (getIdVar id).2 = f ∨ f = 0 then some x else m f := by
      intro m x f
      simp only [Function.update_apply]
      by_cases h₀ : f = 0
      · simp [h₀]
      · simp [h₀, eq_comm]
    by_cases hid : t.id = (getIdVar id).1
    · rw [if_pos ((hmem _).mpr hid)]
      refine ⟨_, rfl, rfl, fun f => ?_, fun f => ?_⟩
      · rw [hone, Entry.address]
        refine (hupdate _ _ f).trans ?_
        simp only [hid, true_and]
        split <;> rfl
      · rw [hone, Entry.length]
        refine (hupdate _ _ f).trans ?_
        simp only [hid, true_and]
        split <;> rfl
    · rw [if_neg (fun hm => hid ((hmem _).mp hm))]
      refine ⟨_, rfl, rfl, fun f => ?_, fun f => ?_⟩
      · rw [hone, Entry.address, if_neg (fun he => hid he.1.symm)]
        rfl
      · rw [hone, Entry.length, if_neg (fun he => hid he.1.symm)]
        rfl
  | use =>
    obtain ⟨_, -, h⟩ := Option.bind_eq_some_iff.mp h
    cases h
    exact ⟨t, ht, rfl, fun f => by rw [hone]; rfl, fun f => by rw [hone]; rfl⟩
  | iuse =>
    obtain ⟨_, -, h⟩ := Option.bind_eq_some_iff.mp h
    cases h
    exact ⟨t, ht, rfl, fun f => by rw [hone]; rfl, fun f => by rw [hone]; rfl⟩
  | other =>
    cases h
    exact ⟨t, ht, rfl, fun f => by rw [hone]; rfl, fun f => by rw [hone]; rfl⟩

lemma verifyAll_skeleton {es : List Entry} {cs : List (Option Bool)}
    (h : v.verifyAll es = some (v', cs)) : SameSkeleton v v' := by
  induction es generalizing v cs with
  | nil =>
    cases h
    exact SameSkeleton.refl v'
  | cons e es ih =>
    obtain ⟨v₁, c, cs', h₁, h₂, rfl⟩ := verifyAll_cons h
    exact (verify_skeleton h₁).trans (ih h₂)

theorem verifyAll_after (hv : Mapped v) (ht : v.nodes[p]? = some t)
    (hdef : occurs defType t.type = true) {es : List Entry} {cs : List (Option Bool)}
    (h : v.verifyAll es = some (v', cs)) : ∃ t', v'.nodes[p]? = some t' ∧ After t es t' := by
  induction es generalizing v t cs with
  | nil =>
    cases h
    exact ⟨t, ht, After.refl t⟩
  | cons e es ih =>
    obtain ⟨v₁, c, cs', h₁, h₂, rfl⟩ := verifyAll_cons h
    obtain ⟨t₁, ht₁, ha₁⟩ := verify_after hv ht hdef h₁
    have hdef₁ : occurs defType t₁.type = true := by
      rw [(TraceLine.of_skeleton ha₁.skeleton).2.1]
      exact hdef
    obtain ⟨t₂, ht₂, ha₂⟩ := ih (hv.congr (verify_skeleton h₁)) ht₁ hdef₁ h₂
    exact ⟨t₂, ht₂, ha₁.append ha₂⟩

end State

end Embedwatch.Verifier
