import Embedwatch.Library.Runs

/-! Pushes and pops that name their element. A stack takes them, as long as each pop names the top,
exactly if they begin some nested sequence. -/

namespace Embedwatch.Library.Nesting

inductive Event (α : Type*)
  | push (a : α)
  | pop (a : α)
  deriving DecidableEq

variable {α : Type*} {st : List α} {es u v : List (Event α)}

inductive Nested : List (Event α) → Prop
  | nil : Nested []
  | nest {a : α} {u v : List (Event α)} : Nested u → Nested v →
      Nested (.push a :: (u ++ .pop a :: v))

lemma Nested.insert (h : Nested es) (a : α) (heq : es = u ++ v) :
    Nested (u ++ .push a :: .pop a :: v) := by
  induction h generalizing u v with
  | nil =>
    obtain ⟨rfl, rfl⟩ := List.append_eq_nil_iff.mp heq.symm
    exact .nest .nil .nil
  | @nest b x y hx hy ihx ihy =>
    cases u with
    | nil =>
      obtain rfl : _ = v := heq
      exact .nest .nil (.nest hx hy)
    | cons e u =>
      rw [List.cons_append, List.cons.injEq] at heq
      obtain ⟨rfl, heq⟩ := heq
      rcases List.append_eq_append_iff.mp heq with ⟨s, rfl, hs⟩ | ⟨s, rfl, rfl⟩
      · cases s with
        | nil =>
          obtain rfl : Event.pop b :: y = v := hs
          have hbetween := ihx (u := x) (v := []) (List.append_nil x).symm
          have hword : Event.push b :: (x ++ []) ++ .push a :: .pop a :: .pop b :: y =
              .push b :: ((x ++ [.push a, .pop a]) ++ .pop b :: y) := by simp
          rw [hword]
          exact .nest hbetween hy
        | cons e s =>
          rw [List.cons_append, List.cons.injEq] at hs
          obtain ⟨rfl, rfl⟩ := hs
          have hword : Event.push b :: (x ++ .pop b :: s) ++ .push a :: .pop a :: v =
              .push b :: (x ++ .pop b :: (s ++ .push a :: .pop a :: v)) := by simp
          rw [hword]
          exact .nest hx (ihy rfl)
      · have hword : Event.push b :: u ++ .push a :: .pop a :: (s ++ .pop b :: y) =
            .push b :: ((u ++ .push a :: .pop a :: s) ++ .pop b :: y) := by simp
        rw [hword]
        exact .nest (ihx rfl) hy

section Stack

variable [DecidableEq α]

def step : List α → Event α → Option (List α)
  | st, .push a => some (a :: st)
  | [], .pop _ => none
  | b :: st, .pop a => if a = b then some st else none

def run (st : List α) (es : List (Event α)) : Option (List α) := es.foldlM step st

@[simp] lemma run_nil (st : List α) : run st [] = some st := rfl

@[simp] lemma run_push (st : List α) (a : α) (es : List (Event α)) :
    run st (.push a :: es) = run (a :: st) es := rfl

@[simp] lemma run_pop (st : List α) (a : α) (es : List (Event α)) :
    run (a :: st) (.pop a :: es) = run st es := by
  rw [run, List.foldlM_cons, step, if_pos rfl]
  rfl

lemma run_append (st : List α) (u v : List (Event α)) :
    run st (u ++ v) = (run st u).bind fun st => run st v := List.foldlM_append

theorem Nested.run_eq (h : Nested es) (st : List α) : run st es = some st := by
  induction h generalizing st with
  | nil => rfl
  | nest _ _ ihu ihv => rw [run_push, run_append, ihu, Option.bind_some, run_pop, ihv]

theorem nested_of_run (h : run [] es = some st) : Nested (es ++ st.map .pop) := by
  induction es using List.reverseRecOn generalizing st with
  | nil =>
    cases h
    exact .nil
  | append_singleton es e ih =>
    rw [run_append] at h
    obtain ⟨old, hold, h⟩ := Option.bind_eq_some_iff.mp h
    have hnested := ih hold
    cases e with
    | push a =>
      cases h
      rw [List.map_cons, List.append_assoc]
      exact hnested.insert a rfl
    | pop a =>
      cases old with
      | nil => cases h
      | cons b old =>
        simp only [run, List.foldlM_cons, step] at h
        split at h
        · rename_i hab
          subst hab
          cases h
          rw [List.append_assoc]
          exact hnested
        · cases h

theorem run_isSome_iff : (run [] es).isSome ↔ ∃ rest, Nested (es ++ rest) := by
  constructor
  · intro h
    obtain ⟨st, hst⟩ := Option.isSome_iff_exists.mp h
    exact ⟨_, nested_of_run hst⟩
  · rintro ⟨rest, hnested⟩
    have hrun := hnested.run_eq []
    rw [run_append] at hrun
    obtain ⟨st, hst, -⟩ := Option.bind_eq_some_iff.mp hrun
    exact Option.isSome_iff_exists.mpr ⟨st, hst⟩

end Stack

end Embedwatch.Library.Nesting
