import Embedwatch.Ta.Handlers

/-! What the commands store: a sequence of records each, for the flush those decoded from the
entries before the first blank one. -/

namespace Embedwatch.Ta

open Record

def State.storeAll (s : State) (rs : List Record) : State := rs.foldl State.store s

@[simp] lemma storeAll_nil (s : State) : s.storeAll [] = s := rfl

@[simp] lemma storeAll_cons (s : State) (r : Record) (rs : List Record) :
    s.storeAll (r :: rs) = (s.store r).storeAll rs := rfl

@[simp] lemma storeAll_append (s : State) (rs ts : List Record) :
    s.storeAll (rs ++ ts) = (s.storeAll rs).storeAll ts := List.foldl_append

@[simp] lemma store_history (s : State) (r : Record) : (s.store r).history = s.history ++ [r] := rfl

@[simp] lemma storeAll_history (s : State) (rs : List Record) :
    (s.storeAll rs).history = s.history ++ rs := by
  induction rs generalizing s with
  | nil => simp
  | cons r rs ih => simp [ih]

def Blank (e : UseT) : Prop := e.defId = 0 ∧ e.defSize = 0 ∧ e.useId = 0 ∧ e.iUseUse = 0

instance (e : UseT) : Decidable (Blank e) := by unfold Blank; infer_instance

lemma blank_zero : Blank .zero := by decide

lemma decodeEntry_eq_none {e : UseT} : decodeEntry e = none ↔ Blank e := by
  unfold decodeEntry Blank
  split <;> [skip; split <;> [skip; split <;> [skip; split]]] <;> simp_all

lemma exists_decodeEntry {e : UseT} (h : ¬ Blank e) : ∃ r, decodeEntry e = some r := by
  rw [← decodeEntry_eq_none] at h
  exact Option.ne_none_iff_exists'.mp h

def decodeEntries : List UseT → List Record
  | [] => []
  | e :: es =>
    match decodeEntry e with
    | some r => r :: decodeEntries es
    | none => []

lemma decodeEntries_cons_some {e : UseT} {r : Record} (h : decodeEntry e = some r) (es : List UseT) :
    decodeEntries (e :: es) = r :: decodeEntries es := by
  simp only [decodeEntries, h]

lemma decodeEntries_cons_blank {e : UseT} (h : Blank e) (es : List UseT) :
    decodeEntries (e :: es) = [] := by
  simp only [decodeEntries, decodeEntry_eq_none.mpr h]

lemma decodeEntries_append {es : List UseT} (h : ∀ e ∈ es, ¬ Blank e) (fs : List UseT) :
    decodeEntries (es ++ fs) = decodeEntries es ++ decodeEntries fs := by
  induction es with
  | nil => rfl
  | cons e es ih =>
    obtain ⟨r, hr⟩ := exists_decodeEntry (h e List.mem_cons_self)
    rw [List.cons_append, decodeEntries_cons_some hr, decodeEntries_cons_some hr,
      ih fun e' he' => h e' (List.mem_cons_of_mem e he'), List.cons_append]

lemma decodeEntries_blank (es : List UseT) {e : UseT} (h : Blank e) (fs : List UseT) :
    decodeEntries (es ++ e :: fs) = decodeEntries es := by
  induction es with
  | nil => exact decodeEntries_cons_blank h fs
  | cons e' es ih =>
    simp only [List.cons_append, decodeEntries]
    cases decodeEntry e' with
    | none => rfl
    | some r => simp only [ih]

lemma decodeEntries_length_le (es : List UseT) : (decodeEntries es).length ≤ es.length := by
  induction es with
  | nil => simp [decodeEntries]
  | cons e es ih =>
    simp only [decodeEntries]
    cases decodeEntry e with
    | none => simp
    | some r => simpa using ih

lemma flushLoop_of_blank {cache : ℕ → UseT} {es : List UseT} {i : ℕ} (fuel : ℕ) (s : State)
    (hes : ∀ j (h : j < es.length), cache (i + j) = es[j]) (hb : ∃ e ∈ es, Blank e)
    (hf : es.length ≤ fuel) :
    flushLoop cache fuel i s =
      some (s.storeAll (decodeEntries es), i + (decodeEntries es).length) := by
  induction es generalizing i fuel s with
  | nil => simp at hb
  | cons e es ih =>
    obtain ⟨fuel, rfl⟩ : ∃ f, fuel = f + 1 := ⟨fuel - 1, by simp at hf; omega⟩
    have he : cache i = e := hes 0 (Nat.succ_pos _)
    by_cases hblank : Blank e
    · rw [flushLoop, he, decodeEntry_eq_none.mpr hblank, decodeEntries_cons_blank hblank]
      simp
    · obtain ⟨r, hr⟩ := exists_decodeEntry hblank
      have hb' : ∃ e' ∈ es, Blank e' := by
        obtain ⟨e', he', hbe⟩ := hb
        rcases List.mem_cons.mp he' with rfl | hmem
        · exact absurd hbe hblank
        · exact ⟨e', hmem, hbe⟩
      have hes' : ∀ j (h : j < es.length), cache (i + 1 + j) = es[j] := by
        intro j h
        have hh := hes (j + 1) (by simpa using h)
        simpa [Nat.add_assoc, Nat.add_comm 1 j] using hh
      have hh := ih fuel (s.store r) hes' hb' (by simpa using hf)
      simp only [flushLoop, he, hr, hh, decodeEntries_cons_some hr, storeAll_cons, List.length_cons]
      congr 2
      omega

lemma flushLoop_some {cache : ℕ → UseT} {fuel i j : ℕ} {s s' : State}
    (h : flushLoop cache fuel i s = some (s', j)) :
    i ≤ j ∧ Blank (cache j) ∧ ∃ rs, s' = s.storeAll rs := by
  induction fuel generalizing i s with
  | zero => cases h
  | succ fuel ih =>
    simp only [flushLoop] at h
    cases hd : decodeEntry (cache i) with
    | none =>
      simp only [hd, Option.some.injEq, Prod.mk.injEq] at h
      obtain ⟨rfl, rfl⟩ := h
      exact ⟨le_rfl, decodeEntry_eq_none.mp hd, [], rfl⟩
    | some r =>
      simp only [hd] at h
      obtain ⟨hij, hblank, rs, hrs⟩ := ih h
      exact ⟨by omega, hblank, r :: rs, hrs⟩

end Embedwatch.Ta
