import Mathlib.Data.List.Basic

/-! Computations that change a state step by step and may crash. The states they have been in are kept,
with the label of the step that left each. -/

namespace Embedwatch.Library.Stateful

variable {σ ℓ α β : Type}

structure History (σ ℓ : Type) where
  now : σ
  past : List (σ × Option ℓ)

def History.states (h : History σ ℓ) : List σ := h.now :: h.past.map Prod.fst

abbrev Steps (σ ℓ α : Type) := EStateM Unit (History σ ℓ) α

def step (label : Option ℓ) (f : σ → σ) : Steps σ ℓ Unit :=
  fun h => .ok () ⟨f h.now, (h.now, label) :: h.past⟩

def current : Steps σ ℓ σ := fun h => .ok h.now h

def orCrash : Option α → Steps σ ℓ α
  | some a => pure a
  | none => throw ()

def reached : EStateM.Result Unit (History σ ℓ) α → History σ ℓ
  | .ok _ h => h
  | .error _ h => h

def Keeps (I : History σ ℓ → Prop) (m : Steps σ ℓ α) : Prop := ∀ h, I h → I (reached (m h))

namespace Keeps

variable {I : History σ ℓ → Prop}

lemma pure (a : α) : Keeps I (Pure.pure a : Steps σ ℓ α) := fun _ hI => hI

lemma current : Keeps I (Stateful.current : Steps σ ℓ σ) := fun _ hI => hI

lemma orCrash (o : Option α) : Keeps I (Stateful.orCrash o : Steps σ ℓ α) := by
  cases o <;> exact fun _ hI => hI

lemma bind {m : Steps σ ℓ α} {f : α → Steps σ ℓ β} (hm : Keeps I m) (hf : ∀ a, Keeps I (f a)) :
    Keeps I (m >>= f) := by
  intro h hI
  have hmh := hm h hI
  change I (reached (EStateM.bind m f h))
  rw [EStateM.bind]
  cases hres : m h with
  | ok a h' =>
    rw [hres] at hmh
    exact hf a h' hmh
  | error e h' =>
    rw [hres] at hmh
    exact hmh

lemma orCrash_bind {o : Option α} {f : α → Steps σ ℓ β} (hf : ∀ a, o = some a → Keeps I (f a)) :
    Keeps I (Stateful.orCrash o >>= f) := by
  cases o with
  | none => exact fun _ hI => hI
  | some a => exact hf a rfl

lemma forM {l : List α} {f : α → Steps σ ℓ PUnit} (hf : ∀ a ∈ l, Keeps I (f a)) :
    Keeps I (l.forM f) := by
  induction l with
  | nil => exact pure _
  | cons a l ih =>
    change Keeps I (f a >>= fun _ => l.forM f)
    exact bind (hf a List.mem_cons_self) fun _ => ih fun b hb => hf b (List.mem_cons_of_mem a hb)

end Keeps

def Gives (m : Steps σ ℓ α) (s : σ) (a : α) (s' : σ) : Prop :=
  ∀ past, ∃ past', m ⟨s, past⟩ = .ok a ⟨s', past'⟩

namespace Gives

variable {s s' s'' : σ} {a : α} {b : β}

lemma pure (s : σ) (a : α) : Gives (Pure.pure a : Steps σ ℓ α) s a s := fun past => ⟨past, rfl⟩

lemma current (s : σ) : Gives (Stateful.current : Steps σ ℓ σ) s s s := fun past => ⟨past, rfl⟩

lemma step (label : Option ℓ) (f : σ → σ) (s : σ) : Gives (Stateful.step label f) s () (f s) :=
  fun _ => ⟨_, rfl⟩

lemma orCrash {o : Option α} (h : o = some a) (s : σ) :
    Gives (Stateful.orCrash o : Steps σ ℓ α) s a s := by
  subst h
  exact pure s a

lemma bind {m : Steps σ ℓ α} {f : α → Steps σ ℓ β} (hm : Gives m s a s') (hf : Gives (f a) s' b s'') :
    Gives (m >>= f) s b s'' := by
  intro past
  obtain ⟨past', hpast'⟩ := hm past
  obtain ⟨past'', hpast''⟩ := hf past'
  refine ⟨past'', ?_⟩
  change EStateM.bind m f ⟨s, past⟩ = _
  rw [EStateM.bind, hpast']
  exact hpast''

lemma forM_nil (f : α → Steps σ ℓ PUnit) (s : σ) : Gives (([] : List α).forM f) s () s := pure s ()

lemma forM_cons {f : α → Steps σ ℓ PUnit} {l : List α} (ha : Gives (f a) s () s')
    (hl : Gives (l.forM f) s' () s'') : Gives ((a :: l).forM f) s () s'' := bind ha hl

end Gives

end Embedwatch.Library.Stateful
