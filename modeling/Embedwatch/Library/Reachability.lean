import Mathlib.Data.List.Chain
import Mathlib.Data.Fintype.Card
import Mathlib.Logic.Relation

/-! Reachability along a relation: paths that avoid a set strictly inside, contraction of a graph to
a set of its nodes, and the invariant of a search with visited nodes and pending work. -/

namespace Embedwatch.Library.Reachability

open Relation

section Paths

variable {α : Type*} {r : α → α → Prop} {K : Set α} {a b x y : α}

def Direct (r : α → α → Prop) (K : Set α) (a b : α) : Prop :=
  ∃ p, List.IsChain r (a :: (p ++ [b])) ∧ ∀ x ∈ p, x ∉ K

lemma Direct.single (h : r a b) : Direct r K a b := ⟨[], by simpa using h, by simp⟩

lemma Direct.head (h : r x y) (hy : y ∉ K) (hd : Direct r K y b) : Direct r K x b := by
  obtain ⟨p, hp, hK⟩ := hd
  refine ⟨y :: p, List.isChain_cons_cons.mpr ⟨h, hp⟩, ?_⟩
  intro z hz
  rcases List.mem_cons.mp hz with rfl | hz
  · exact hy
  · exact hK z hz

lemma Direct.anti {K' : Set α} (h : K' ⊆ K) (hd : Direct r K a b) : Direct r K' a b := by
  obtain ⟨p, hp, hK⟩ := hd
  exact ⟨p, hp, fun x hx hx' => hK x hx (h hx')⟩

theorem Direct.induction_on {motive : α → Prop} (hd : Direct r K a b)
    (single : ∀ x, r x b → motive x)
    (head : ∀ x y, r x y → y ∉ K → motive y → motive x) : motive a := by
  obtain ⟨p, hp, hK⟩ := hd
  induction p generalizing a with
  | nil => exact single a (by simpa using hp)
  | cons y p ih =>
    obtain ⟨hay, hp⟩ := List.isChain_cons_cons.mp hp
    exact head a y hay (hK y List.mem_cons_self)
      (ih hp fun x hx => hK x (List.mem_cons_of_mem y hx))

lemma Direct.reachable (hd : Direct r K a b) : ReflTransGen r a b := by
  apply hd.induction_on
  · exact fun x h => ReflTransGen.single h
  · exact fun x y h _ ih => ReflTransGen.head h ih

theorem reachable_avoiding_iff (hb : b ∉ K) :
    ReflTransGen (fun x y => r x y ∧ y ∉ K) a b ↔ a = b ∨ Direct r K a b := by
  constructor
  · intro h
    induction h using ReflTransGen.head_induction_on with
    | refl => exact Or.inl rfl
    | head h _ ih =>
      rcases ih with rfl | hd
      · exact Or.inr (Direct.single h.1)
      · exact Or.inr (hd.head h.1 h.2)
  · rintro (rfl | hd)
    · exact ReflTransGen.refl
    · apply hd.induction_on
      · exact fun x h => ReflTransGen.single ⟨h, hb⟩
      · exact fun x y h hy ih => ReflTransGen.head ⟨h, hy⟩ ih

end Paths

section Contraction

variable {α : Type*} {r c : α → α → Prop} {K : Set α} {a b : α}

def Contracts (r : α → α → Prop) (K : Set α) (c : α → α → Prop) : Prop :=
  ∀ a b, c a b ↔ a ∈ K ∧ b ∈ K ∧ (a = b ∨ Direct r (K \ {a, b}) a b)

lemma Contracts.edge (h : Contracts r K c) (ha : a ∈ K) (hb : b ∈ K) (hd : Direct r K a b) :
    c a b :=
  (h a b).mpr ⟨ha, hb, Or.inr (hd.anti Set.sdiff_subset)⟩

lemma Contracts.sound (h : Contracts r K c) (hab : ReflTransGen c a b) : ReflTransGen r a b := by
  induction hab with
  | refl => exact ReflTransGen.refl
  | tail _ hc ih =>
    obtain ⟨_, _, rfl | hd⟩ := (h _ _).mp hc
    · exact ih
    · exact ih.trans hd.reachable

lemma Contracts.first (h : Contracts r K c) (hb : b ∈ K) (hab : ReflTransGen r a b) :
    ∃ k ∈ K, (a = k ∨ a ∉ K ∧ Direct r K a k) ∧ ReflTransGen c k b := by
  induction hab using ReflTransGen.head_induction_on with
  | refl => exact ⟨b, hb, Or.inl rfl, ReflTransGen.refl⟩
  | @head x y hxy _ ih =>
    obtain ⟨k, hk, hyk, hkb⟩ := ih
    have hd : Direct r K x k := by
      rcases hyk with rfl | ⟨hy, hd⟩
      · exact Direct.single hxy
      · exact hd.head hxy hy
    by_cases hx : x ∈ K
    · exact ⟨x, hx, Or.inl rfl, ReflTransGen.head (h.edge hx hk hd) hkb⟩
    · exact ⟨k, hk, Or.inr ⟨hx, hd⟩, hkb⟩

theorem Contracts.reachable_iff (h : Contracts r K c) (ha : a ∈ K) (hb : b ∈ K) :
    ReflTransGen c a b ↔ ReflTransGen r a b := by
  refine ⟨h.sound, fun hab => ?_⟩
  obtain ⟨k, _, rfl | ⟨hna, _⟩, hkb⟩ := h.first hb hab
  · exact hkb
  · exact absurd ha hna

end Contraction

section Search

variable {α : Type*} {r : α → α → Prop} {start c x y : α} {visited work work' : List α}

structure Searched (r : α → α → Prop) (start : α) (visited work : List α) : Prop where
  start_mem : start ∈ visited ∨ start ∈ work
  reachable : ∀ x, x ∈ visited ∨ x ∈ work → ReflTransGen r start x
  closed : ∀ x ∈ visited, ∀ y, r x y → y ∈ visited ∨ y ∈ work

lemma Searched.init : Searched r start [] [start] where
  start_mem := by simp
  reachable x hx := by
    obtain rfl : x = start := by simpa using hx
    exact ReflTransGen.refl
  closed := by simp

lemma Searched.expand {visited' : List α} (h : Searched r start visited (c :: work))
    (hv : ∀ x, x ∈ visited' ↔ x = c ∨ x ∈ visited)
    (hsub : ∀ x ∈ work', x ∈ work ∨ r c x) (hwork : ∀ x ∈ work, x ∈ work')
    (hstep : ∀ y, r c y → y ∈ visited' ∨ y ∈ work') : Searched r start visited' work' where
  start_mem := by
    rcases h.start_mem with hs | hs
    · exact Or.inl ((hv _).mpr (Or.inr hs))
    · rcases List.mem_cons.mp hs with hs | hs
      · exact Or.inl ((hv _).mpr (Or.inl hs))
      · exact Or.inr (hwork _ hs)
  reachable x hx := by
    have hc : ReflTransGen r start c := h.reachable c (Or.inr List.mem_cons_self)
    rcases hx with hx | hx
    · rcases (hv x).mp hx with rfl | hx
      · exact hc
      · exact h.reachable x (Or.inl hx)
    · rcases hsub x hx with hx | hx
      · exact h.reachable x (Or.inr (List.mem_cons_of_mem c hx))
      · exact hc.tail hx
  closed x hx y hxy := by
    rcases (hv x).mp hx with rfl | hx
    · exact hstep y hxy
    · rcases h.closed x hx y hxy with hy | hy
      · exact Or.inl ((hv y).mpr (Or.inr hy))
      · rcases List.mem_cons.mp hy with rfl | hy
        · exact Or.inl ((hv y).mpr (Or.inl rfl))
        · exact Or.inr (hwork y hy)

lemma Searched.skip (h : Searched r start visited (c :: work)) (hc : c ∈ visited) :
    Searched r start visited work :=
  h.expand (fun x => ⟨Or.inr, by rintro (rfl | hx) <;> assumption⟩) (fun x hx => Or.inl hx)
    (fun x hx => hx) fun y hy => by
      rcases h.closed c hc y hy with hy | hy
      · exact Or.inl hy
      · rcases List.mem_cons.mp hy with rfl | hy
        · exact Or.inl hc
        · exact Or.inr hy

theorem Searched.done (h : Searched r start visited []) :
    ReflTransGen r start x ↔ x ∈ visited := by
  constructor
  · intro hx
    induction hx with
    | refl => simpa using h.start_mem
    | tail _ hs ih => simpa using h.closed _ ih _ hs
  · exact fun hx => h.reachable x (Or.inl hx)

variable [Fintype α] [DecidableEq α]

def unvisited (visited : List α) : ℕ := (Finset.univ.filter (· ∉ visited)).card

lemma unvisited_lt {visited' : List α} (hc : c ∉ visited)
    (hv : ∀ x, x ∈ visited' ↔ x = c ∨ x ∈ visited) : unvisited visited' < unvisited visited := by
  apply Finset.card_lt_card
  refine ⟨fun x hx => ?_, fun hsub => ?_⟩
  · have hx' : x ∉ visited' := (Finset.mem_filter.mp hx).2
    exact Finset.mem_filter.mpr ⟨Finset.mem_univ x, fun h => hx' ((hv x).mpr (Or.inr h))⟩
  · have hcm := hsub (Finset.mem_filter.mpr ⟨Finset.mem_univ c, hc⟩)
    exact (Finset.mem_filter.mp hcm).2 ((hv c).mpr (Or.inl rfl))

end Search

end Embedwatch.Library.Reachability
