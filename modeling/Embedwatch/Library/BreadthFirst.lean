import Mathlib.Data.Finset.Card
import Mathlib.Logic.Relation
import Mathlib.Tactic.Common

/-! Breadth-first traversals: a queue, the nodes that have been seen, and what the visits have made.
The successors of a node may depend on what the earlier visits have made. -/

namespace Embedwatch.Library.BreadthFirst

open Relation

variable {α β : Type*} [DecidableEq α]

structure Traversal (α β : Type*) where
  queue : List α
  seen : Finset α
  out : β

def run (round : α → Traversal α β → Traversal α β) : ℕ → Traversal α β → Option (Traversal α β)
  | _, ⟨[], seen, out⟩ => some ⟨[], seen, out⟩
  | 0, ⟨_ :: _, _, _⟩ => none
  | rounds + 1, ⟨current :: queue, seen, out⟩ => run round rounds (round current ⟨queue, seen, out⟩)

def pushUnseen : List α → Traversal α β → Traversal α β
  | [], s => s
  | x :: xs, s =>
    if x ∈ s.seen then pushUnseen xs s
    else pushUnseen xs ⟨s.queue ++ [x], insert x s.seen, s.out⟩

def visitRound (next : β → α → List α) (visit : α → β → β) (current : α) (s : Traversal α β) :
    Traversal α β :=
  let s := pushUnseen (next s.out current) { s with seen := insert current s.seen }
  { s with out := visit current s.out }

def pushRound (next : α → List α) (visit : α → β → β) (current : α) (s : Traversal α β) :
    Traversal α β :=
  pushUnseen (next current) { s with out := visit current s.out }

variable {round : α → Traversal α β → Traversal α β} {next : β → α → List α} {succ : α → List α}
  {visit : α → β → β} {s s' : Traversal α β} {rounds n : ℕ} {start c x : α} {out : β}
  {done queue new : List α}

omit [DecidableEq α] in
lemma run_nil (rounds : ℕ) (seen : Finset α) (out : β) :
    run round rounds ⟨[], seen, out⟩ = some ⟨[], seen, out⟩ := by
  cases rounds <;> rfl

omit [DecidableEq α] in
theorem run_invariant (I : Traversal α β → Prop)
    (step : ∀ c q v b, I ⟨c :: q, v, b⟩ → I (round c ⟨q, v, b⟩)) (hs : I s)
    (h : run round rounds s = some s') : I s' ∧ s'.queue = [] := by
  induction rounds generalizing s with
  | zero =>
    obtain ⟨queue, seen, b⟩ := s
    cases queue with
    | nil =>
      obtain rfl := Option.some.inj h
      exact ⟨hs, rfl⟩
    | cons c q => cases h
  | succ rounds ih =>
    obtain ⟨queue, seen, b⟩ := s
    cases queue with
    | nil =>
      obtain rfl := Option.some.inj h
      exact ⟨hs, rfl⟩
    | cons c q => exact ih (step c q seen b hs) h

omit [DecidableEq α] in
theorem run_ends (I : Traversal α β → Prop) (size : Traversal α β → ℕ)
    (step : ∀ c q v b, I ⟨c :: q, v, b⟩ → I (round c ⟨q, v, b⟩) ∧
      size (round c ⟨q, v, b⟩) < size ⟨c :: q, v, b⟩) (hs : I s) (hn : size s ≤ rounds) :
    ∃ s', run round rounds s = some s' := by
  induction rounds generalizing s with
  | zero =>
    obtain ⟨queue, seen, b⟩ := s
    cases queue with
    | nil => exact ⟨_, rfl⟩
    | cons c q =>
      have hsize := (step c q seen b hs).2
      omega
  | succ rounds ih =>
    obtain ⟨queue, seen, b⟩ := s
    cases queue with
    | nil => exact ⟨_, rfl⟩
    | cons c q =>
      obtain ⟨hI, hsize⟩ := step c q seen b hs
      exact ih hI (by omega)

structure Pushes (xs : List α) (seen : Finset α) (new : List α) : Prop where
  nodup : new.Nodup
  mem_iff : ∀ x, x ∈ new ↔ x ∈ xs ∧ x ∉ seen

lemma pushUnseen_spec (xs : List α) (s : Traversal α β) : ∃ new, Pushes xs s.seen new ∧
    pushUnseen xs s = ⟨s.queue ++ new, s.seen ∪ new.toFinset, s.out⟩ := by
  induction xs generalizing s with
  | nil =>
    refine ⟨[], ⟨List.nodup_nil, by simp⟩, ?_⟩
    simp [pushUnseen]
  | cons x xs ih =>
    rw [pushUnseen]
    by_cases hx : x ∈ s.seen
    · rw [if_pos hx]
      obtain ⟨new, ⟨hnodup, hnew⟩, heq⟩ := ih s
      refine ⟨new, ⟨hnodup, fun y => ?_⟩, heq⟩
      rw [hnew, List.mem_cons]
      constructor
      · exact fun h => ⟨Or.inr h.1, h.2⟩
      · rintro ⟨rfl | hy, hseen⟩
        · exact absurd hx hseen
        · exact ⟨hy, hseen⟩
    · rw [if_neg hx]
      obtain ⟨new, ⟨hnodup, hnew⟩, heq⟩ := ih ⟨s.queue ++ [x], insert x s.seen, s.out⟩
      have hxnew : x ∉ new := fun h => ((hnew x).mp h).2 (Finset.mem_insert_self x _)
      refine ⟨x :: new, ⟨List.nodup_cons.mpr ⟨hxnew, hnodup⟩, fun y => ?_⟩, ?_⟩
      · rw [List.mem_cons, hnew, List.mem_cons, Finset.mem_insert]
        by_cases hy : y = x
        · subst hy
          simp [hx]
        · simp [hy]
      · rw [heq, List.toFinset_cons, Finset.union_insert, Finset.insert_union, List.append_assoc]
        rfl

structure Visiting (done : List α) (s : Traversal α β) : Prop where
  nodup : (done ++ s.queue).Nodup
  met : ∀ x ∈ s.seen, x ∈ done ++ s.queue
  done : ∀ x ∈ done, x ∈ s.seen
  tail : ∀ x ∈ s.queue.tail, x ∈ s.seen

omit [DecidableEq α] in
lemma Visiting.init (start : α) (seen : Finset α) (hseen : ∀ x ∈ seen, x = start) (out : β) :
    Visiting [] (⟨[start], seen, out⟩ : Traversal α β) where
  nodup := List.nodup_singleton start
  met x hx := List.mem_singleton.mpr (hseen x hx)
  done _ hx := absurd hx List.not_mem_nil
  tail _ hx := absurd hx List.not_mem_nil

lemma Visiting.step {seen : Finset α} (h : Visiting done ⟨c :: queue, seen, out⟩) : ∃ new,
    Pushes (next out c) (done ++ c :: queue).toFinset new ∧
    visitRound next visit c ⟨queue, seen, out⟩ =
      ⟨queue ++ new, insert c seen ∪ new.toFinset, visit c out⟩ ∧
    Visiting (done ++ [c]) (visitRound next visit c ⟨queue, seen, out⟩) := by
  obtain ⟨new, hnew, heq⟩ := pushUnseen_spec (next out c) ⟨queue, insert c seen, out⟩
  have hseen : insert c seen = (done ++ c :: queue).toFinset := by
    ext x
    simp only [Finset.mem_insert, List.mem_toFinset, List.mem_append, List.mem_cons]
    constructor
    · rintro (rfl | hx)
      · exact Or.inr (Or.inl rfl)
      · simpa using h.met x hx
    · rintro (hx | rfl | hx)
      · exact Or.inr (h.done x hx)
      · exact Or.inl rfl
      · exact Or.inr (h.tail x hx)
  have hround : visitRound next visit c ⟨queue, seen, out⟩ =
      ⟨queue ++ new, insert c seen ∪ new.toFinset, visit c out⟩ := by
    rw [visitRound, heq]
  have hpush : Pushes (next out c) (done ++ c :: queue).toFinset new := by
    rw [← hseen]
    exact hnew
  have hmet : ∀ x, x ∈ insert c seen ∪ new.toFinset ↔ x ∈ done ++ [c] ++ (queue ++ new) := by
    intro x
    rw [hseen]
    simp only [Finset.mem_union, List.mem_toFinset, List.mem_append, List.mem_cons, List.not_mem_nil,
      or_false]
    tauto
  refine ⟨new, hpush, hround, ?_⟩
  rw [hround]
  refine ⟨?_, fun x hx => (hmet x).mp hx, fun x hx => (hmet x).mpr ?_, fun x hx => (hmet x).mpr ?_⟩
  · have hsplit : done ++ [c] ++ (queue ++ new) = (done ++ c :: queue) ++ new := by simp
    rw [hsplit]
    apply List.nodup_append.mpr
    refine ⟨h.nodup, hpush.nodup, ?_⟩
    rintro x hx y hy rfl
    exact ((hpush.mem_iff x).mp hy).2 (List.mem_toFinset.mpr hx)
  · exact List.mem_append_left _ hx
  · exact List.mem_append_right _ (List.mem_of_mem_tail hx)

def Keeps (next : β → α → List α) (visit : α → β → β) (I : List α → List α → β → Prop) : Prop :=
  ∀ done c queue out new, I done (c :: queue) out → (done ++ c :: queue).Nodup →
    Pushes (next out c) (done ++ c :: queue).toFinset new →
    I (done ++ [c]) (queue ++ new) (visit c out)

variable {I : List α → List α → β → Prop}

theorem visit_invariant (step : Keeps next visit I) (hs : Visiting done s) (hI : I done s.queue s.out)
    (h : run (visitRound next visit) rounds s = some s') :
    ∃ done, done.Nodup ∧ (∀ x, x ∈ s'.seen ↔ x ∈ done) ∧ I done [] s'.out := by
  have hstep : ∀ c q v b, (∃ done, Visiting done ⟨c :: q, v, b⟩ ∧ I done (c :: q) b) →
      ∃ done, Visiting done (visitRound next visit c ⟨q, v, b⟩) ∧
        I done (visitRound next visit c ⟨q, v, b⟩).queue (visitRound next visit c ⟨q, v, b⟩).out := by
    rintro c q v b ⟨done, hv, hI⟩
    obtain ⟨new, hpush, heq, hv'⟩ := hv.step
    refine ⟨done ++ [c], hv', ?_⟩
    rw [heq]
    exact step done c q b new hI hv.nodup hpush
  obtain ⟨⟨done, hv, hI⟩, hqueue⟩ :=
    run_invariant (fun s => ∃ done, Visiting done s ∧ I done s.queue s.out) hstep ⟨done, hs, hI⟩ h
  rw [hqueue] at hI
  have hnodup := hv.nodup
  have hmet := hv.met
  rw [hqueue, List.append_nil] at hnodup hmet
  exact ⟨done, hnodup, fun x => ⟨hmet x, hv.done x⟩, hI⟩

lemma card_sdiff_union {nodes seen : Finset α} (hnodup : new.Nodup) (hnodes : ∀ x ∈ new, x ∈ nodes)
    (hnew : ∀ x ∈ new, x ∉ seen) :
    (nodes \ (seen ∪ new.toFinset)).card + new.length = (nodes \ seen).card := by
  have hsub : new.toFinset ⊆ nodes \ seen := by
    intro x hx
    have hx := List.mem_toFinset.mp hx
    exact Finset.mem_sdiff.mpr ⟨hnodes x hx, hnew x hx⟩
  have hcard := Finset.card_sdiff_add_card_eq_card hsub
  rwa [sdiff_sdiff, List.toFinset_card_of_nodup hnodup] at hcard

theorem visit_ends (nodes : Finset α) (step : Keeps next visit I)
    (hnext : ∀ done c queue out, I done (c :: queue) out → ∀ x ∈ next out c, x ∈ nodes)
    (hs : Visiting done s) (hI : I done s.queue s.out) (hdone : ∀ x ∈ done ++ s.queue, x ∈ nodes)
    (hn : nodes.card ≤ rounds) : ∃ s', run (visitRound next visit) rounds s = some s' := by
  have hstart : (nodes \ (s.seen ∪ s.queue.toFinset)).card + s.queue.length ≤ nodes.card := by
    have hqueue : (nodes \ s.queue.toFinset).card + s.queue.length = nodes.card := by
      have hcard := @card_sdiff_union α _ s.queue nodes ∅ (List.nodup_append.mp hs.nodup).2.1
        (fun x hx => hdone x (List.mem_append_right _ hx)) (fun x _ => Finset.notMem_empty x)
      rwa [Finset.empty_union, Finset.sdiff_empty] at hcard
    have hless : (nodes \ (s.seen ∪ s.queue.toFinset)).card ≤ (nodes \ s.queue.toFinset).card :=
      Finset.card_le_card (Finset.sdiff_subset_sdiff subset_rfl Finset.subset_union_right)
    omega
  apply run_ends (fun s => ∃ done, Visiting done s ∧ I done s.queue s.out)
    (fun s => (nodes \ (s.seen ∪ s.queue.toFinset)).card + s.queue.length)
  · rintro c q v b ⟨done, hv, hI⟩
    obtain ⟨new, hpush, heq, hv'⟩ := hv.step
    refine ⟨⟨done ++ [c], hv', ?_⟩, ?_⟩
    · rw [heq]
      exact step done c q b new hI hv.nodup hpush
    · have hfresh : ∀ x ∈ new, x ∉ v ∪ (c :: q).toFinset := by
        intro x hx hmem
        apply ((hpush.mem_iff x).mp hx).2
        rw [List.mem_toFinset]
        rcases Finset.mem_union.mp hmem with hx | hx
        · exact hv.met x hx
        · exact List.mem_append_right _ (List.mem_toFinset.mp hx)
      have hcard := card_sdiff_union hpush.nodup
        (fun x hx => hnext done c q b hI x ((hpush.mem_iff x).mp hx).1) hfresh
      have hsame : insert c v ∪ new.toFinset ∪ (q ++ new).toFinset =
          v ∪ (c :: q).toFinset ∪ new.toFinset := by
        ext x
        simp only [Finset.mem_union, Finset.mem_insert, List.mem_toFinset, List.mem_append,
          List.mem_cons]
        tauto
      rw [heq]
      dsimp only
      rw [hsame, List.length_append, List.length_cons]
      omega
  · exact ⟨done, hs, hI⟩
  · exact hstart.trans hn

structure Follows (succ : α → List α) (visit : α → β → β) (start : α) (first : β)
    (done queue : List α) (out : β) : Prop where
  start_mem : start ∈ done ++ queue
  reachable : ∀ x ∈ done ++ queue, ReflTransGen (fun a b => b ∈ succ a) start x
  closed : ∀ x ∈ done, ∀ y ∈ succ x, y ∈ done ++ queue
  out : out = done.foldl (fun out c => visit c out) first

variable {first : β} {marked : Finset α}

lemma keeps_follows : Keeps (fun _ => succ) visit (Follows succ visit start first) := by
  intro done c queue out new h hnodup hpush
  have hmem : ∀ x, x ∈ done ++ [c] ++ (queue ++ new) ↔ x ∈ done ++ c :: queue ∨ x ∈ new := by
    intro x
    simp only [List.mem_append, List.mem_cons, List.not_mem_nil, or_false]
    tauto
  refine ⟨(hmem start).mpr (Or.inl h.start_mem), fun x hx => ?_, fun x hx y hy => ?_, ?_⟩
  · rcases (hmem x).mp hx with hx | hx
    · exact h.reachable x hx
    · have hc := h.reachable c (List.mem_append_right _ List.mem_cons_self)
      exact hc.tail ((hpush.mem_iff x).mp hx).1
  · rw [hmem]
    rcases List.mem_append.mp hx with hx | hx
    · exact Or.inl (h.closed x hx y hy)
    · obtain rfl := List.mem_singleton.mp hx
      by_cases hmet : y ∈ done ++ x :: queue
      · exact Or.inl hmet
      · exact Or.inr ((hpush.mem_iff y).mpr ⟨hy, fun h => hmet (List.mem_toFinset.mp h)⟩)
  · rw [List.foldl_append, ← h.out]
    rfl

omit [DecidableEq α] in
lemma follows_init : Follows succ visit start first [] [start] first where
  start_mem := List.mem_singleton_self start
  reachable x hx := by
    obtain rfl := List.mem_singleton.mp hx
    exact ReflTransGen.refl
  closed _ hx := absurd hx List.not_mem_nil
  out := rfl

theorem visit_order (hmarked : ∀ x ∈ marked, x = start)
    (h : run (visitRound (fun _ => succ) visit) rounds ⟨[start], marked, first⟩ = some s') :
    ∃ order : List α, order.Nodup ∧
      (∀ x, x ∈ order ↔ ReflTransGen (fun a b => b ∈ succ a) start x) ∧
      s'.out = order.foldl (fun out c => visit c out) first := by
  obtain ⟨done, hnodup, -, hI⟩ :=
    visit_invariant keeps_follows (Visiting.init start marked hmarked first) follows_init h
  have hmet := hI.start_mem
  have hclosed := hI.closed
  rw [List.append_nil] at hmet hclosed
  refine ⟨done, hnodup, fun x => ⟨fun hx => ?_, fun hx => ?_⟩, hI.out⟩
  · exact hI.reachable x (List.mem_append_left _ hx)
  · induction hx with
    | refl => exact hmet
    | tail _ hs ih => exact hclosed _ ih _ hs

theorem visit_order_ends (nodes : Finset α) (hstart : start ∈ nodes)
    (hsucc : ∀ x ∈ nodes, ∀ y ∈ succ x, y ∈ nodes) (hmarked : ∀ x ∈ marked, x = start)
    (hn : nodes.card ≤ rounds) :
    ∃ s', run (visitRound (fun _ => succ) visit) rounds ⟨[start], marked, first⟩ = some s' := by
  have hall : ∀ x, ReflTransGen (fun a b => b ∈ succ a) start x → x ∈ nodes := by
    intro x hx
    induction hx with
    | refl => exact hstart
    | tail _ hs ih => exact hsucc _ ih _ hs
  apply visit_ends nodes keeps_follows _ (Visiting.init start marked hmarked first) follows_init _ hn
  · intro done c queue out hI x hx
    exact hsucc c (hall c (hI.reachable c (List.mem_append_right _ List.mem_cons_self))) x hx
  · intro x hx
    obtain rfl := List.mem_singleton.mp hx
    exact hstart

lemma pushUnseen_out (xs : List α) (s : Traversal α β) (out : β) :
    pushUnseen xs { s with out := out } = { pushUnseen xs s with out := out } := by
  induction xs generalizing s with
  | nil => rfl
  | cons x xs ih =>
    rw [pushUnseen, pushUnseen]
    by_cases hx : x ∈ s.seen
    · rw [if_pos hx, if_pos hx]
      exact ih s
    · rw [if_neg hx, if_neg hx]
      exact ih ⟨s.queue ++ [x], insert x s.seen, s.out⟩

lemma pushRound_eq {seen : Finset α} (hc : c ∈ seen) (queue : List α) (out : β) :
    pushRound succ visit c ⟨queue, seen, out⟩ =
      visitRound (fun _ => succ) visit c ⟨queue, seen, out⟩ := by
  obtain ⟨new, -, heq⟩ := pushUnseen_spec (succ c) ⟨queue, seen, out⟩
  have hout := pushUnseen_out (succ c) ⟨queue, seen, out⟩ (visit c out)
  rw [pushRound, visitRound, Finset.insert_eq_of_mem hc, heq]
  dsimp only at hout ⊢
  rw [hout, heq]

theorem run_pushRound (h : ∀ x ∈ s.queue, x ∈ s.seen) :
    run (pushRound succ visit) rounds s = run (visitRound (fun _ => succ) visit) rounds s := by
  induction rounds generalizing s with
  | zero =>
    obtain ⟨queue, seen, out⟩ := s
    cases queue <;> rfl
  | succ rounds ih =>
    obtain ⟨queue, seen, out⟩ := s
    cases queue with
    | nil => rfl
    | cons c q =>
      have hc : c ∈ seen := h c List.mem_cons_self
      rw [run, run, ← pushRound_eq hc]
      apply ih
      obtain ⟨new, -, heq⟩ := pushUnseen_spec (succ c) ⟨q, seen, visit c out⟩
      rw [pushRound, heq]
      intro x hx
      rcases List.mem_append.mp hx with hx | hx
      · exact Finset.mem_union_left _ (h x (List.mem_cons_of_mem c hx))
      · exact Finset.mem_union_right _ (List.mem_toFinset.mpr hx)

structure Reached (succ : α → List α) (start : α) (s : Traversal α β) : Prop where
  sound : ∀ x ∈ s.seen, TransGen (fun a b => b ∈ succ a) start x
  queue : ∀ x ∈ s.queue, x = start ∨ x ∈ s.seen
  closed : ∀ x, x = start ∨ x ∈ s.seen → x ∈ s.queue ∨ ∀ y ∈ succ x, y ∈ s.seen

lemma Reached.step {seen : Finset α} (h : Reached succ start ⟨c :: queue, seen, out⟩) :
    Reached succ start (pushRound succ visit c ⟨queue, seen, out⟩) := by
  obtain ⟨new, hnew, heq⟩ := pushUnseen_spec (succ c) ⟨queue, seen, visit c out⟩
  have hc : c = start ∨ c ∈ seen := h.queue c List.mem_cons_self
  have hmark : ∀ y ∈ succ c, y ∈ seen ∪ new.toFinset := by
    intro y hy
    by_cases hys : y ∈ seen
    · exact Finset.mem_union_left _ hys
    · exact Finset.mem_union_right _ (List.mem_toFinset.mpr ((hnew.mem_iff y).mpr ⟨hy, hys⟩))
  rw [pushRound, heq]
  refine ⟨fun x hx => ?_, fun x hx => ?_, fun x hx => ?_⟩
  · rcases Finset.mem_union.mp hx with hx | hx
    · exact h.sound x hx
    · have hcx := ((hnew.mem_iff x).mp (List.mem_toFinset.mp hx)).1
      rcases hc with rfl | hc
      · exact TransGen.single hcx
      · exact (h.sound c hc).tail hcx
  · rcases List.mem_append.mp hx with hx | hx
    · exact (h.queue x (List.mem_cons_of_mem c hx)).imp_right fun h => Finset.mem_union_left _ h
    · exact Or.inr (Finset.mem_union_right _ (List.mem_toFinset.mpr hx))
  · by_cases hxc : x = c
    · subst hxc
      exact Or.inr hmark
    · have hx : (x = start ∨ x ∈ seen) ∨ x ∈ new := by
        rcases hx with hx | hx
        · exact Or.inl (Or.inl hx)
        · rcases Finset.mem_union.mp hx with hx | hx
          · exact Or.inl (Or.inr hx)
          · exact Or.inr (List.mem_toFinset.mp hx)
      rcases hx with hx | hx
      · rcases h.closed x hx with hx | hx
        · rcases List.mem_cons.mp hx with rfl | hx
          · exact absurd rfl hxc
          · exact Or.inl (List.mem_append_left _ hx)
        · exact Or.inr fun y hy => Finset.mem_union_left _ (hx y hy)
      · exact Or.inl (List.mem_append_right _ hx)

omit [DecidableEq α] in
lemma reached_init : Reached succ start (⟨[start], ∅, first⟩ : Traversal α β) where
  sound x hx := absurd hx (Finset.notMem_empty x)
  queue x hx := Or.inl (List.mem_singleton.mp hx)
  closed x hx := by
    rcases hx with rfl | hx
    · exact Or.inl (List.mem_singleton_self x)
    · exact absurd hx (Finset.notMem_empty x)

theorem push_reached (h : run (pushRound succ visit) rounds ⟨[start], ∅, first⟩ = some s') :
    x ∈ s'.seen ↔ TransGen (fun a b => b ∈ succ a) start x := by
  obtain ⟨hI, hqueue⟩ := run_invariant (Reached succ start) (fun c q v b => Reached.step)
    reached_init h
  have hclosed : ∀ x, x = start ∨ x ∈ s'.seen → ∀ y ∈ succ x, y ∈ s'.seen := by
    intro x hx
    rcases hI.closed x hx with hx | hx
    · rw [hqueue] at hx
      exact absurd hx List.not_mem_nil
    · exact hx
  constructor
  · exact hI.sound x
  · intro hx
    induction hx with
    | single hs => exact hclosed start (Or.inl rfl) _ hs
    | tail _ hs ih => exact hclosed _ (Or.inr ih) _ hs

theorem push_ends (nodes : Finset α) (hsucc : ∀ x y, y ∈ succ x → y ∈ nodes)
    (hn : nodes.card + 1 ≤ rounds) :
    ∃ s', run (pushRound succ visit) rounds ⟨[start], ∅, first⟩ = some s' := by
  apply run_ends (fun _ => True) (fun s => (nodes \ s.seen).card + s.queue.length) _ trivial
  · rw [Finset.sdiff_empty]
    exact hn
  · intro c q v b _
    obtain ⟨new, hnew, heq⟩ := pushUnseen_spec (succ c) ⟨q, v, visit c b⟩
    refine ⟨trivial, ?_⟩
    have hcard := card_sdiff_union hnew.nodup
      (fun x hx => hsucc c x ((hnew.mem_iff x).mp hx).1) (fun x hx => ((hnew.mem_iff x).mp hx).2)
    rw [pushRound, heq]
    dsimp only at hcard ⊢
    rw [List.length_append, List.length_cons]
    omega

end Embedwatch.Library.BreadthFirst
