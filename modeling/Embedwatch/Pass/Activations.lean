import Embedwatch.Library.Runs
import Embedwatch.Pass.Instrument

/-! The activations of instrumented functions. At each entry and return `zbouncer_recursion_counter`
is changed by one; a definition, a use and an id that is passed on are packed with its value. -/

namespace Embedwatch.Pass

open Library.Runs

def trackEntry (gv : BitVec 16) : BitVec 16 := (gv.signExtend 32 + 1).setWidth 16

def trackExit (gv : BitVec 16) : BitVec 16 := (gv.signExtend 32 + -1).setWidth 16

lemma setWidth_signExtend_add (gv : BitVec 16) (d : Word) :
    (gv.signExtend 32 + d).setWidth 16 = gv + d.setWidth 16 := by
  have hgv : (gv.signExtend 32).setWidth 16 = gv := by
    apply BitVec.eq_of_getLsbD_eq
    intro i hi
    have hi' : i < 32 := by omega
    rw [BitVec.getLsbD_setWidth, BitVec.getLsbD_signExtend]
    simp [hi, hi']
  rw [BitVec.setWidth_add _ _ (by decide), hgv]

lemma trackEntry_toNat {gv : BitVec 16} (h : gv.toNat + 1 < 65536) :
    (trackEntry gv).toNat = gv.toNat + 1 := by
  rw [trackEntry, setWidth_signExtend_add, BitVec.toNat_add]
  exact Nat.mod_eq_of_lt h

lemma trackExit_toNat {gv : BitVec 16} {n : ℕ} (h : gv.toNat = n + 1) :
    (trackExit gv).toNat = n := by
  have hlt := gv.isLt
  have hones : ((-1 : Word).setWidth 16).toNat = 65535 := by decide
  rw [trackExit, setWidth_signExtend_add, BitVec.toNat_add, hones, h]
  omega

lemma useParam_eq_append (use recCounter : BitVec 16) :
    useParam use recCounter = use ++ recCounter := by
  apply BitVec.eq_of_getLsbD_eq
  intro i hi
  have hmask : BitVec.getLsbD (0x0000ffff : Word) i = decide (i < 16) := by
    have he : (0x0000ffff : Word) = (BitVec.allOnes 16).setWidth 32 := by decide
    rw [he, BitVec.getLsbD_setWidth, BitVec.getLsbD_allOnes]
    simp only [hi, decide_true, Bool.true_and]
  rw [useParam, BitVec.getLsbD_append, BitVec.getLsbD_or, BitVec.getLsbD_shiftLeft,
    BitVec.getLsbD_and, BitVec.getLsbD_setWidth, BitVec.getLsbD_signExtend, hmask]
  by_cases h : i < 16
  · simp [h, hi]
  · have h' : i - 16 < 32 := by omega
    simp [h, hi, h']

/-- What a program does that the passes have instrumented. A static id is the number that its
metadata has; `iuse` has the packed id that the function was given. -/
inductive Action
  | enter
  | leave
  | collectAlloca (defn : ℕ) (addr : Word)
  | collectAllocaDyn (defn : ℕ) (addr size : Word)
  | collectGlobal (defn : ℕ) (addr : Word)
  | propagate (defn : ℕ)
  | zuse (use : ℕ) (addr : Word)
  | ziuse (use : ℕ) (defRef addr : Word)

structure Emission where
  activation : Option ℕ
  site : ℕ
  record : Record

/-- An activation is known by the number it gets when it is entered. The live ones are on the
stack; `propagated` has the packed ids that calls were given. -/
structure Machine where
  stack : List ℕ
  counter : BitVec 16
  entered : ℕ
  log : List Emission
  propagated : List (ℕ × ℕ × Word)

namespace Machine

def start : Machine := ⟨[], 0, 0, [], []⟩

/-- A static id packed with the counter; the pass reads it as an `uint16_t`. -/
def pack (s : Machine) (id : ℕ) : Word := useParam (BitVec.ofNat 16 id) s.counter

def emit (s : Machine) (activation : Option ℕ) (site : ℕ) (r : Record) : Machine :=
  { s with log := s.log ++ [⟨activation, site, r⟩] }

def step (s : Machine) : Action → Machine
  | .enter =>
    { s with
      stack := s.entered :: s.stack
      counter := trackEntry s.counter
      entered := s.entered + 1 }
  | .leave => { s with stack := s.stack.tail, counter := trackExit s.counter }
  | .collectAlloca defn addr => s.emit s.stack.head? defn (.defRec (s.pack defn) addr)
  | .collectAllocaDyn defn addr size => s.emit s.stack.head? defn (.ddefRec (s.pack defn) addr size)
  | .collectGlobal defn addr =>
    s.emit none defn (.defRec ((BitVec.ofNat 16 defn).setWidth 32 <<< 16) addr)
  | .propagate defn =>
    { s with propagated := s.propagated ++ s.stack.head?.toList.map fun a => (a, defn, s.pack defn) }
  | .zuse use addr => s.emit s.stack.head? use (.useRec (s.pack use) addr)
  | .ziuse use defRef addr => s.emit s.stack.head? use (.iuseRec (s.pack use) defRef addr)

def Nested (s : Machine) : Action → Prop
  | .enter => s.stack.length + 1 < 65536
  | .leave => s.stack ≠ []
  | _ => True

def Live (s : Machine) (a d : ℕ) : Prop :=
  ∃ above below, s.stack = above ++ a :: below ∧ d = below.length + 1

lemma exists_live {s : Machine} {a : ℕ} (h : a ∈ s.stack) : ∃ d, s.Live a d := by
  obtain ⟨above, below, hstack⟩ := List.append_of_mem h
  exact ⟨below.length + 1, above, below, hstack, rfl⟩

end Machine

def Emission.gives (sites : ℕ → Bool) (a : ℕ) (e : Emission) : Option Word :=
  if e.activation = some a ∧ sites e.site = true then
    match e.record with
    | .defRec _ addr | .ddefRec _ addr _ => some addr
    | .useRec _ _ | .iuseRec _ _ _ => none
  else none

def Machine.latest (s : Machine) (sites : ℕ → Bool) (a : ℕ) : Option Word :=
  s.log.reverse.findSome? (Emission.gives sites a)

namespace Machine

variable {s : Machine} {sites : ℕ → Bool} {a d : ℕ}

lemma latest_emit (activation : Option ℕ) (site : ℕ) (r : Record) :
    (s.emit activation site r).latest sites a =
      (Emission.gives sites a ⟨activation, site, r⟩).or (s.latest sites a) := by
  rw [latest, emit, List.reverse_append]
  cases h : Emission.gives sites a ⟨activation, site, r⟩ <;> simp [h, latest]

lemma latest_ne_none_mono {sites' : ℕ → Bool} (hsites : ∀ k, sites k = true → sites' k = true)
    (h : s.latest sites a ≠ none) : s.latest sites' a ≠ none := by
  intro hnone
  apply h
  rw [latest, List.findSome?_eq_none_iff] at hnone ⊢
  intro e he
  have hgives := hnone e he
  rw [Emission.gives] at hgives ⊢
  split
  · next hmatch =>
    rw [if_pos ⟨hmatch.1, hsites _ hmatch.2⟩] at hgives
    exact hgives
  · rfl

structure Tracked (s : Machine) : Prop where
  counter : s.counter.toNat = s.stack.length
  nodup : s.stack.Nodup
  fresh : ∀ a ∈ s.stack, a < s.entered
  emitted : ∀ e ∈ s.log, ∀ a, e.activation = some a → a < s.entered
  propagated : ∀ p ∈ s.propagated, p.1 < s.entered

lemma start_tracked : start.Tracked where
  counter := rfl
  nodup := List.nodup_nil
  fresh _ h := absurd h List.not_mem_nil
  emitted _ h := absurd h List.not_mem_nil
  propagated _ h := absurd h List.not_mem_nil

lemma Tracked.emit (h : s.Tracked) {activation : Option ℕ}
    (ha : ∀ a, activation = some a → a ∈ s.stack) (site : ℕ) (r : Record) :
    (s.emit activation site r).Tracked where
  counter := h.counter
  nodup := h.nodup
  fresh := h.fresh
  emitted e he a hea := by
    rcases List.mem_append.mp he with he | he
    · exact h.emitted e he a hea
    · obtain rfl := List.mem_singleton.mp he
      exact h.fresh a (ha a hea)
  propagated := h.propagated

lemma Tracked.step (h : s.Tracked) {act : Action} (hn : s.Nested act) : (s.step act).Tracked := by
  cases act with
  | enter =>
    have hn : s.stack.length + 1 < 65536 := hn
    refine ⟨?_, ?_, ?_, ?_, ?_⟩
    · have hlt : s.counter.toNat + 1 < 65536 := by
        rw [h.counter]
        exact hn
      exact (trackEntry_toNat hlt).trans (congrArg (· + 1) h.counter)
    · exact List.nodup_cons.mpr ⟨fun hm => (h.fresh _ hm).ne rfl, h.nodup⟩
    · intro a ha
      rcases List.mem_cons.mp ha with rfl | ha
      · exact Nat.lt_succ_self _
      · exact (h.fresh a ha).trans (Nat.lt_succ_self _)
    · intro e he a ha
      exact (h.emitted e he a ha).trans (Nat.lt_succ_self _)
    · intro p hp
      exact (h.propagated p hp).trans (Nat.lt_succ_self _)
  | leave =>
    obtain ⟨top, rest, hstack⟩ := List.exists_cons_of_ne_nil hn
    have hcounter := h.counter
    have hnodup := h.nodup
    have hfresh := h.fresh
    simp only [hstack] at hcounter hnodup hfresh
    refine ⟨?_, ?_, ?_, fun e he => h.emitted e he, fun p hp => h.propagated p hp⟩
    · change (trackExit s.counter).toNat = s.stack.tail.length
      simp only [hstack, List.tail_cons]
      exact trackExit_toNat hcounter
    · change s.stack.tail.Nodup
      simp only [hstack, List.tail_cons]
      exact hnodup.of_cons
    · change ∀ a ∈ s.stack.tail, a < s.entered
      simp only [hstack, List.tail_cons]
      exact fun a ha => hfresh a (List.mem_cons_of_mem top ha)
  | propagate defn =>
    refine ⟨h.counter, h.nodup, h.fresh, h.emitted, ?_⟩
    intro p hp
    rcases List.mem_append.mp hp with hp | hp
    · exact h.propagated p hp
    · obtain ⟨a, ha, rfl⟩ := List.mem_map.mp hp
      exact h.fresh a (List.mem_of_head? (Option.mem_toList.mp ha))
  | collectGlobal => exact h.emit (fun _ ha => by cases ha) _ _
  | _ => exact h.emit (fun _ ha => List.mem_of_head? ha) _ _

lemma Live.mem (h : s.Live a d) : a ∈ s.stack := by
  obtain ⟨above, below, hstack, -⟩ := h
  rw [hstack]
  exact List.mem_append_right above List.mem_cons_self

lemma Live.le (h : s.Live a d) : 0 < d ∧ d ≤ s.stack.length := by
  obtain ⟨above, below, hstack, rfl⟩ := h
  rw [hstack, List.length_append, List.length_cons]
  omega

lemma Tracked.head_iff (hs : s.Tracked) (h : s.Live a d) :
    s.stack.head? = some a ↔ d = s.counter.toNat := by
  obtain ⟨above, below, hstack, rfl⟩ := h
  have hnodup := hs.nodup
  rw [hs.counter, hstack, List.length_append, List.length_cons]
  rw [hstack] at hnodup
  cases above with
  | nil => simp
  | cons top above =>
    have hne : top ≠ a := by
      rintro rfl
      exact (List.nodup_cons.mp hnodup).1 (List.mem_append_right above List.mem_cons_self)
    simp only [List.cons_append, List.head?_cons, Option.some.injEq, hne, List.length_cons,
      false_iff]
    omega

lemma live_of_step {act : Action} (hn : s.Nested act) (h : (s.step act).Live a d) :
    s.Live a d ∨ act = .enter ∧ a = s.entered ∧ d = s.stack.length + 1 := by
  cases act with
  | enter =>
    obtain ⟨above, below, hstack, rfl⟩ := h
    change s.entered :: s.stack = _ at hstack
    cases above with
    | nil =>
      obtain ⟨rfl, rfl⟩ := List.cons.inj hstack
      exact Or.inr ⟨rfl, rfl, rfl⟩
    | cons top above =>
      obtain ⟨-, hstack⟩ := List.cons.inj hstack
      exact Or.inl ⟨above, below, hstack, rfl⟩
  | leave =>
    obtain ⟨top, rest, hrest⟩ := List.exists_cons_of_ne_nil hn
    obtain ⟨above, below, hstack, rfl⟩ := h
    change s.stack.tail = _ at hstack
    rw [hrest, List.tail_cons] at hstack
    exact Or.inl ⟨top :: above, below, by rw [hrest, hstack]; rfl, rfl⟩
  | _ => exact Or.inl h

structure Packed (s : Machine) : Prop where
  tracked : s.Tracked
  ids : ∀ a d k w, s.Live a d → (a, k, w) ∈ s.propagated →
    w = useParam (BitVec.ofNat 16 k) (BitVec.ofNat 16 d)

lemma Packed.step (h : s.Packed) {act : Action} (hn : s.Nested act) : (s.step act).Packed := by
  refine ⟨h.tracked.step hn, ?_⟩
  intro a d k w hlive hmem
  have hold : s.Live a d → (a, k, w) ∈ s.propagated →
      w = useParam (BitVec.ofNat 16 k) (BitVec.ofNat 16 d) := h.ids a d k w
  rcases live_of_step hn hlive with hl | ⟨rfl, rfl, -⟩
  · cases act with
    | propagate defn =>
      rcases List.mem_append.mp hmem with hm | hm
      · exact hold hl hm
      · obtain ⟨a', ha', heq⟩ := List.mem_map.mp hm
        obtain ⟨rfl, rfl, rfl⟩ : a' = a ∧ defn = k ∧ s.pack defn = w := by simpa using heq
        have hd := (h.tracked.head_iff hl).mp (Option.mem_toList.mp ha')
        simp only [hd, BitVec.ofNat_toNat, BitVec.setWidth_eq, pack]
    | _ => exact hold hl hmem
  · have hlt := h.tracked.propagated (s.entered, k, w) hmem
    exact absurd hlt (lt_irrefl _)

end Machine

end Embedwatch.Pass
