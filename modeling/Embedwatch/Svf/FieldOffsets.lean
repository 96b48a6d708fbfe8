import Embedwatch.Library.StructLayout
import Embedwatch.Svf.Growth

/-! The offsets that `analyzeGep` gives fields of structures, against the layout of the target. -/

namespace Embedwatch.Svf

open Library.StructLayout

structure DataLayout (svf : Graphs) where
  abiAlign : TypeRef → ℕ
  abiAlign_pos : ∀ t, 0 < abiAlign t
  allocSize_nonneg : ∀ t, 0 ≤ svf.allocSize t

def Def.offset : Def → Option ℤ
  | .sdef _ _ _ _ _ offset => some offset
  | .adef _ _ _ _ _ | .gdef _ _ _ _ _ | .ddef _ _ _ _ => none

abbrev Selection := List TypeRef × ℕ

namespace Graphs

variable (svf : Graphs)

def selections (t : TypeRef) : List ℕ → Option (List Selection)
  | [] => some []
  | k :: ks =>
    (svf.structElements t).bind fun es => es[k]?.bind fun u =>
      (selections u ks).map fun rest => (es, k) :: rest

def constants (ks : List ℕ) : List (Option ℤ) := ks.map fun k : ℕ => some (k : ℤ)

def PointsTo (p : PAGNode) (t : TypeRef) : Prop :=
  svf.structElements (svf.valueType p.value) = none ∧ svf.pointee (svf.valueType p.value) = some t

def StandsFor (u t : TypeRef) : Prop := ∀ es, svf.structElements t = some es → svf.elements u = some es

def added (x : Selection) : ℤ := ((x.1.take x.2).map svf.allocSize).sum

end Graphs

namespace DataLayout

variable {svf : Graphs} (dl : DataLayout svf)

def field (t : TypeRef) : Field := ⟨(svf.allocSize t).toNat, dl.abiAlign t, dl.abiAlign_pos t⟩

def fields (x : Selection) : List Field := x.1.map dl.field

def byteOffset (sel : List Selection) : ℕ := (sel.map fun x => fieldOffset 0 (dl.fields x) x.2).sum

end DataLayout

variable {svf : Graphs} (dl : DataLayout svf)

lemma standsFor_self (t : TypeRef) : svf.StandsFor t t := by
  intro es h
  rw [Graphs.elements, h]

lemma Graphs.PointsTo.standsFor {p : PAGNode} {t : TypeRef} (h : svf.PointsTo p t) :
    svf.StandsFor (svf.valueType p.value) t := by
  intro es hes
  rw [Graphs.elements, h.1, h.2]
  exact hes

lemma toInt_toInt_add (m n : ℤ) : toInt (toInt m + n) = toInt (m + n) := Int.bmod_add_bmod

lemma accessOperands_constants {a : Graphs.Access} {t : TypeRef} {ks rest : List ℕ}
    {sel : List Selection} {n : ℤ} (ht : svf.StandsFor a.type t)
    (hsel : svf.selections t (ks ++ rest) = some sel) (hn : a.size = toInt n) :
    ∃ a' t' sel₁ sel₂, svf.accessOperands a (Graphs.constants ks) = some a' ∧
      svf.StandsFor a'.type t' ∧ svf.selections t' rest = some sel₂ ∧ sel = sel₁ ++ sel₂ ∧
      a'.size = toInt (n + (sel₁.map svf.added).sum) := by
  induction ks generalizing a t sel n with
  | nil => exact ⟨a, t, [], sel, rfl, ht, hsel, rfl, by simpa using hn⟩
  | cons k ks ih =>
    obtain ⟨es, hes, hsel⟩ := Option.bind_eq_some_iff.mp hsel
    obtain ⟨u, hu, hsel⟩ := Option.bind_eq_some_iff.mp hsel
    obtain ⟨sel', hsel', rfl⟩ := Option.map_eq_some_iff.mp hsel
    let next : Graphs.Access := ⟨u, a.fields ++ [(k : ℤ)], toInt (a.size + svf.added (es, k))⟩
    have hn' : next.size = toInt (n + svf.added (es, k)) := by
      change toInt (a.size + svf.added (es, k)) = _
      rw [hn, toInt_toInt_add]
    have hstep : svf.accessOperands a (Graphs.constants (k :: ks)) =
        svf.accessOperands next (Graphs.constants ks) := by
      simp only [Graphs.constants, List.map_cons, Graphs.accessOperands, ht es hes,
        Int.natCast_nonneg, if_true, Int.toNat_natCast, hu, Option.bind_some, Graphs.added, next]
    obtain ⟨a', t', sel₁, sel₂, ha', ht', hsel₂, rfl, hsize⟩ := ih (standsFor_self u) hsel' hn'
    refine ⟨a', t', (es, k) :: sel₁, sel₂, hstep.trans ha', ht', hsel₂, rfl, ?_⟩
    rw [hsize, List.map_cons, List.sum_cons, add_assoc]

lemma accessPath_constants {a : Graphs.Access} {t : TypeRef} {geps : List (List ℕ)}
    {sel : List Selection} {n : ℤ} (ht : svf.StandsFor a.type t)
    (hsel : svf.selections t geps.flatten = some sel) (hn : a.size = toInt n) :
    ∃ a', svf.accessPath a (geps.map Graphs.constants) = some a' ∧
      a'.size = toInt (n + (sel.map svf.added).sum) := by
  induction geps generalizing a t sel n with
  | nil =>
    cases hsel
    exact ⟨a, rfl, by simpa using hn⟩
  | cons gep geps ih =>
    obtain ⟨a₁, t₁, sel₁, sel₂, ha₁, ht₁, hsel₂, rfl, hsize⟩ := accessOperands_constants ht hsel hn
    rw [List.map_cons, Graphs.accessPath, ha₁, Option.bind_some, List.map_append, List.sum_append,
      ← add_assoc]
    by_cases hmore : (svf.elements a₁.type).isSome
    · rw [if_pos hmore]
      exact ih ht₁ hsel₂ hsize
    · rw [if_neg hmore]
      -- the type is no structure any more: nothing is left to select
      have hnil : sel₂ = [] := by
        cases hflat : geps.flatten with
        | nil =>
          rw [hflat] at hsel₂
          cases hsel₂
          rfl
        | cons k ks =>
          rw [hflat] at hsel₂
          obtain ⟨es, hes, -⟩ := Option.bind_eq_some_iff.mp hsel₂
          rw [ht₁ es hes] at hmore
          exact absurd rfl hmore
      refine ⟨a₁, rfl, ?_⟩
      rw [hsize, hnil, List.map_nil, List.sum_nil, add_zero]

lemma added_eq (x : Selection) : svf.added x = sizesBefore (dl.fields x) x.2 := by
  rw [Graphs.added, sizesBefore, DataLayout.fields, ← List.map_take, List.map_map, Nat.cast_list_sum,
    List.map_map]
  congr 1
  apply List.map_congr_left
  intro t _
  exact (Int.toNat_of_nonneg (dl.allocSize_nonneg t)).symm

lemma index_lt_of_selections {t : TypeRef} {ks : List ℕ} {sel : List Selection}
    (h : svf.selections t ks = some sel) : ∀ x ∈ sel, x.2 < (dl.fields x).length := by
  induction ks generalizing t sel with
  | nil =>
    cases h
    simp
  | cons k ks ih =>
    obtain ⟨es, -, h⟩ := Option.bind_eq_some_iff.mp h
    obtain ⟨u, hu, h⟩ := Option.bind_eq_some_iff.mp h
    obtain ⟨rest, hrest, rfl⟩ := Option.map_eq_some_iff.mp h
    intro x hx
    rcases List.mem_cons.mp hx with rfl | hx
    · rw [DataLayout.fields, List.length_map]
      exact (List.getElem?_eq_some_iff.mp hu).1
    · exact ih hrest x hx

lemma added_sum {sel : List Selection} (h : ∀ x ∈ sel, x.2 < (dl.fields x).length) :
    0 ≤ (sel.map svf.added).sum ∧ (sel.map svf.added).sum ≤ dl.byteOffset sel ∧
      ((sel.map svf.added).sum = dl.byteOffset sel ↔ ∀ x ∈ sel, Unpadded 0 (dl.fields x) x.2) := by
  induction sel with
  | nil => simp [DataLayout.byteOffset]
  | cons x sel ih =>
    obtain ⟨hnonneg, hle, hiff⟩ := ih fun y hy => h y (List.mem_cons_of_mem x hy)
    have hx := h x List.mem_cons_self
    have hlex : 0 + sizesBefore (dl.fields x) x.2 ≤ fieldOffset 0 (dl.fields x) x.2 := le_fieldOffset hx
    have hbytes : dl.byteOffset (x :: sel) = fieldOffset 0 (dl.fields x) x.2 + dl.byteOffset sel := rfl
    rw [List.map_cons, List.sum_cons, added_eq dl, hbytes, List.forall_mem_cons, ← hiff,
      ← fieldOffset_eq_iff hx]
    omega

lemma toInt_eq_iff {m n : ℤ} (hm : 0 ≤ m) (h : m ≤ n) : toInt m = n ↔ m = n ∧ n < 2 ^ 31 := by
  rw [toInt, Int.bmod_def]
  split <;> omega

lemma fieldDefs_offset {l : List Def} {p : PAGNode} {a : Graphs.Access} {d : Def}
    (h : d ∈ Graphs.fieldDefs l p a) : d.offset = some a.size := by
  obtain ⟨-, hd⟩ := List.mem_filter.mp h
  cases d with
  | sdef id node type bytes fields offset =>
    obtain ⟨-, -, hoffset⟩ := of_decide_eq_true hd
    rw [Def.offset, hoffset]
  | _ => cases hd

lemma analyzePath_offset {s s' : State} {p : PAGNode} {path : GepPath} {ds : List Def}
    {a : Graphs.Access} (h : svf.analyzePath s p path = some (ds, s'))
    (ha : svf.accessPath ⟨svf.valueType p.value, [], 0⟩ path = some a) :
    ds ≠ [] ∧ ∀ d ∈ ds, d.offset = some a.size := by
  rw [Graphs.analyzePath, ha, Option.bind_some] at h
  by_cases hfound : Graphs.fieldDefs s.deflist p a = []
  · simp only [hfound, ne_eq, not_true_eq_false, if_false] at h
    obtain ⟨a', ha', h⟩ := Option.map_eq_some_iff.mp h
    have hsize : a'.size = a.size := by
      split at ha'
      · obtain ⟨tp, -, rfl⟩ := Option.map_eq_some_iff.mp ha'
        rfl
      · cases ha'
        rfl
    cases h
    refine ⟨List.cons_ne_nil _ _, ?_⟩
    intro d hd
    rw [List.mem_singleton.mp hd, Def.offset, hsize]
  · simp only [hfound, ne_eq, not_false_eq_true, if_true] at h
    cases h
    exact ⟨hfound, fun d hd => fieldDefs_offset hd⟩

theorem sdef_offset_iff {s s' : State} {p : PAGNode} {t : TypeRef} {geps : List (List ℕ)}
    {sel : List Selection} {ds : List Def} (hp : svf.PointsTo p t)
    (hsel : svf.selections t geps.flatten = some sel)
    (h : svf.analyzePath s p (geps.map Graphs.constants) = some (ds, s')) :
    (∀ d ∈ ds, d.offset = some (dl.byteOffset sel : ℤ)) ↔
      (∀ x ∈ sel, Unpadded 0 (dl.fields x) x.2) ∧ dl.byteOffset sel < 2 ^ 31 := by
  obtain ⟨hnonneg, hle, hiff⟩ := added_sum dl (index_lt_of_selections dl hsel)
  obtain ⟨a, ha, hsize⟩ := accessPath_constants (a := ⟨svf.valueType p.value, [], 0⟩) hp.standsFor hsel
    (n := 0) rfl
  have hoffset : (∀ d ∈ ds, d.offset = some (dl.byteOffset sel : ℤ)) ↔ a.size = dl.byteOffset sel := by
    obtain ⟨hne, hds⟩ := analyzePath_offset h ha
    constructor
    · intro hall
      obtain ⟨d, hd⟩ := List.exists_mem_of_ne_nil ds hne
      exact Option.some.inj ((hds d hd).symm.trans (hall d hd))
    · intro heq d hd
      rw [hds d hd, heq]
  rw [hoffset, hsize, zero_add, toInt_eq_iff hnonneg hle, hiff]
  exact and_congr_right fun _ => by norm_cast

/-! `struct s { char tag; int count; struct { int first; int second; } pair; }`, of which `p` points to
an object. -/

def pairGraphs : Graphs where
  valueType _ := 0
  allocatedType _ := 1
  globalType _ := 1
  structElements t := if t = 1 then some [2, 3, 4] else if t = 4 then some [3, 3] else none
  pointee t := if t = 0 then some 1 else none
  allocSize t := if t = 1 then 16 else if t = 2 then 1 else if t = 4 then 8 else 4
  node v := ⟨0, [], v, false⟩
  getDefNodes p := [p]
  outEdges _ := 0
  findTargetOfCall _ := none
  findFirstStore _ := none
  findDefNodesFromStore _ := []
  defOfParam _ := none
  storesFrom _ := []
  pathsToUse _ _ := some [[[some 1]]]
  stack := 1

def pairLayout : DataLayout pairGraphs where
  abiAlign t := if t = 2 then 1 else 4
  abiAlign_pos t := by split <;> decide
  allocSize_nonneg t := by
    simp only [pairGraphs]
    split <;> [decide; split <;> [decide; split <;> decide]]

def pairObject : PAGNode := ⟨0, [], ⟨0, .alloca⟩, false⟩

theorem tag_offset : ∃ d s', pairGraphs.analyzePath .init pairObject [Graphs.constants [0]] =
    some ([d], s') ∧ d.offset = some 0 := by
  have h : pairGraphs.analyzePath .init pairObject ([[0]].map Graphs.constants) =
      some ([.sdef 0 pairObject 2 1 [0] 0],
        { State.init with nextId := 1, deflist := [.sdef 0 pairObject 2 1 [0] 0] }) := rfl
  have hsel : pairGraphs.selections 1 [[0]].flatten = some [([2, 3, 4], 0)] := rfl
  refine ⟨_, _, h, ?_⟩
  refine (sdef_offset_iff pairLayout ⟨rfl, rfl⟩ hsel h).mpr ⟨?_, by decide⟩ _ List.mem_cons_self
  intro x hx j hj f hf
  obtain rfl := List.mem_singleton.mp hx
  obtain rfl : j = 0 := Nat.le_zero.mp hj
  cases hf
  exact Nat.one_dvd _

theorem count_offset : ∃ sel d s', pairGraphs.selections 1 [1] = some sel ∧
    pairLayout.byteOffset sel = 4 ∧
    pairGraphs.analyzePath .init pairObject [Graphs.constants [1]] = some ([d], s') ∧
    d.offset = some 1 :=
  ⟨[([2, 3, 4], 1)], .sdef 0 pairObject 3 4 [1] 1, _, rfl, rfl, rfl, rfl⟩

end Embedwatch.Svf
