import Embedwatch.Host.CacheWindow

/-! The host library with the cache and without it, side by side. The definitions of a run have ids
that no use has, so that an entry is updated in place for definitions only. -/

namespace Embedwatch.Host

open Ta (Blank)

structure Allowed (defs : Set Word) (r : Record) : Prop where
  id_ne_zero : r.id ≠ 0
  use : r.isUse = true → r.id ∉ defs
  defn : r.isUse = false → r.id ∈ defs

lemma Allowed.hits_eq_false {defs : Set Word} {r : Record} (hr : Allowed defs r)
    (hu : r.isUse = true) {e : UseT} (he : e.defId = 0 ∨ e.defId ∈ defs) : hits r e = false := by
  have hne : e.defId ≠ r.id := by
    rintro h
    rcases he with h0 | hd
    · exact hr.id_ne_zero (h ▸ h0)
    · exact hr.use hu (h ▸ hd)
  cases r with
  | defRec => simp [Record.isUse] at hu
  | ddefRec => simp [Record.isUse] at hu
  | useRec => exact decide_eq_false hne
  | iuseRec use defn addr =>
    have hd : decide (e.defId = use) = false := decide_eq_false hne
    simp only [hits, hd, Bool.false_and]

lemma Allowed.putCache_defId {defs : Set Word} {r : Record} (hr : Allowed defs r) {e : UseT}
    (he : e.defId = 0 ∨ e.defId ∈ defs) :
    (putCache r e).defId = 0 ∨ (putCache r e).defId ∈ defs := by
  cases r with
  | defRec => exact Or.inr (hr.defn rfl)
  | ddefRec => exact Or.inr (hr.defn rfl)
  | useRec => exact he
  | iuseRec => exact he

lemma not_blank_putCache {r : Record} (hid : r.id ≠ 0) (e : UseT) : ¬ Blank (putCache r e) := by
  cases r with
  | defRec => exact fun h => hid h.1
  | ddefRec => exact fun h => hid h.1
  | useRec => exact fun h => hid h.2.2.1
  | iuseRec => exact fun h => hid h.2.2.2

lemma mem_clearedCache {es : List UseT} {e : UseT} (h : e ∈ clearedCache es) :
    e = .zero ∨ e ∈ es := by
  rcases List.mem_append.mp h with h | h
  · exact Or.inl (List.eq_of_mem_replicate h)
  · exact Or.inr (List.mem_of_mem_drop h)

structure Paired (defs : Set Word) (c u : State) (live rest : List UseT) : Prop where
  window : Window c live rest
  unbuffered : Unbuffered u
  defIds : ∀ e ∈ live ++ rest, e.defId = 0 ∨ e.defId ∈ defs
  nonblank : ∀ e ∈ live, ¬ Blank e

namespace Paired

variable {defs : Set Word} {c u c' u' : State} {live rest as bs : List UseT} {e : UseT} {r : Record}

lemma zinit (defs : Set Word) :
    Paired defs (Host.zinit 1) (Host.zinit 0) [] (List.replicate 128 .zero) := by
  refine ⟨window_zinit, unbuffered_zinit, ?_, by simp⟩
  intro e he
  exact Or.inl (by rw [List.eq_of_mem_replicate he]; rfl)

lemma isUse_of_hit (s : Paired defs c u live rest) (hr : Allowed defs r) (he : e ∈ live)
    (hit : hits r e = true) : r.isUse = false := by
  cases hu : r.isUse with
  | false => rfl
  | true =>
    have hh := hr.hits_eq_false hu (s.defIds e (List.mem_append_left _ he))
    simp [hit] at hh

lemma defIds_put (s : Paired defs c u (as ++ e :: bs) rest) (hr : Allowed defs r) :
    ∀ a ∈ as ++ putCache r e :: (bs ++ rest), a.defId = 0 ∨ a.defId ∈ defs := by
  intro a h
  simp only [List.mem_append, List.mem_cons] at h
  rcases h with h | rfl | h | h
  · exact s.defIds a (by simp [h])
  · exact hr.putCache_defId (s.defIds e (by simp))
  · exact s.defIds a (by simp [h])
  · exact s.defIds a (by simp [h])

lemma merge (s : Paired defs c u (as ++ e :: bs) rest) (hr : Allowed defs r)
    (w : Window c' (as ++ putCache r e :: bs) rest) (hu : Unbuffered u') :
    Paired defs c' u' (as ++ putCache r e :: bs) rest := by
  refine ⟨w, hu, by simpa using s.defIds_put hr, ?_⟩
  intro a h
  rcases List.mem_append.mp h with h | h
  · exact s.nonblank a (by simp [h])
  · rcases List.mem_cons.mp h with rfl | h
    · exact not_blank_putCache hr.id_ne_zero e
    · exact s.nonblank a (by simp [h])

lemma defIds_fresh (s : Paired defs c u live (e :: rest)) (hr : Allowed defs r) :
    ∀ a ∈ live ++ putCache r e :: rest, a.defId = 0 ∨ a.defId ∈ defs := by
  intro a h
  rcases List.mem_append.mp h with h | h
  · exact s.defIds a (by simp [h])
  · rcases List.mem_cons.mp h with rfl | h
    · exact hr.putCache_defId (s.defIds e (by simp))
    · exact s.defIds a (by simp [h])

lemma append (s : Paired defs c u live (e :: rest)) (hr : Allowed defs r)
    (w : Window c' (live ++ [putCache r e]) rest) (hu : Unbuffered u') :
    Paired defs c' u' (live ++ [putCache r e]) rest := by
  refine ⟨w, hu, by simpa using s.defIds_fresh hr, ?_⟩
  intro a h
  rcases List.mem_append.mp h with h | h
  · exact s.nonblank a h
  · exact List.mem_singleton.mp h ▸ not_blank_putCache hr.id_ne_zero e

lemma flush (s : Paired defs c u live (e :: rest)) (hr : Allowed defs r)
    (w : Window c' [] (clearedCache (live ++ putCache r e :: rest))) (hu : Unbuffered u') :
    Paired defs c' u' [] (clearedCache (live ++ putCache r e :: rest)) := by
  refine ⟨w, hu, ?_, by simp⟩
  intro a h
  rcases mem_clearedCache h with rfl | h
  · exact Or.inl rfl
  · exact s.defIds_fresh hr a h

end Paired

structure ValidCalls (evs : List Event) : Prop where
  id_ne_zero : ∀ ev ∈ evs, ∃ r, eventRecord ev = some r ∧ r.id ≠ 0
  disjoint : ∀ ev ∈ evs, ∀ ev' ∈ evs, ∀ r r', eventRecord ev = some r → eventRecord ev' = some r' →
    r.isUse = true → r'.isUse = false → r.id ≠ r'.id

def defIds (evs : List Event) : Set Word :=
  {d | ∃ ev ∈ evs, ∃ r, eventRecord ev = some r ∧ r.isUse = false ∧ r.id = d}

lemma ValidCalls.allowed {evs : List Event} (hv : ValidCalls evs) {ev : Event} (hev : ev ∈ evs) :
    ∃ r, eventRecord ev = some r ∧ Allowed (defIds evs) r := by
  obtain ⟨r, hr, hid⟩ := hv.id_ne_zero ev hev
  refine ⟨r, hr, hid, ?_, fun hd => ⟨ev, hev, r, hr, hd, rfl⟩⟩
  rintro hu ⟨ev', hev', r', hr', hd, heq⟩
  exact hv.disjoint ev hev ev' hev' r r' hr hr' hu hd heq.symm

def sampleMemory : Memory := ⟨fun _ => 0, 0, rfl⟩

end Embedwatch.Host
