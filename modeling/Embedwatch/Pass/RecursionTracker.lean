import Mathlib.Logic.Relation
import Embedwatch.Pass.Activations

/-! The pass `RecursionTracker`, and the runs of a module that it has instrumented. The calls of a
run are well nested; a function that is only declared may call back. -/

namespace Embedwatch.Pass.RecursionTracker

open Relation

/-- An instruction, as far as calls and the counter depend on it. `none` is a call through a
pointer. -/
inductive Inst
  | call (callee : Option ℕ)
  | ret
  | br (targets : List ℕ)
  | other
deriving DecidableEq

/-- No function has an empty entry block or a branch to it. -/
structure Function where
  blocks : List (List Inst)
  entry_ne_nil : ∀ b ∈ blocks.head?, b ≠ []
  entry_not_target : ∀ b ∈ blocks, ∀ targets, Inst.br targets ∈ b → 0 ∉ targets

def Function.isDeclaration (F : Function) : Bool := F.blocks.isEmpty

inductive Track
  | load
  | sext
  | add (k : Word)
  | trunc
  | store
deriving DecidableEq

inductive TInst
  | orig (i : Inst)
  | inserted (t : Track)
deriving DecidableEq

def update (k : Word) : List Track := [.load, .sext, .add k, .trunc, .store]

/-- One block in the first loop, with `first_bb` and `firts_i`. -/
def entryBlock : Bool × Bool → List TInst → List TInst × (Bool × Bool)
  | flags, [] => ([], flags)
  | flags, i :: BB =>
    if flags.1 && flags.2 then
      ((update 1).map .inserted ++ i :: (entryBlock (false, false) BB).1,
        (entryBlock (false, false) BB).2)
    else (i :: (entryBlock flags BB).1, (entryBlock flags BB).2)

def entryLoop : Bool × Bool → List (List TInst) → List (List TInst)
  | _, [] => []
  | flags, BB :: BBs => (entryBlock flags BB).1 :: entryLoop (entryBlock flags BB).2 BBs

def exitBlock (BB : List TInst) : List TInst :=
  BB.flatMap fun i =>
    if i = .orig .ret then (update (-1)).map .inserted ++ [i] else [i]

def trackRecursion (F : Function) : List (List TInst) :=
  (entryLoop (true, true) (F.blocks.map (List.map .orig))).map exitBlock

abbrev Code := List (List (List TInst))

def runOnModule (M : List Function) : Code :=
  M.map fun F => if F.isDeclaration then [] else trackRecursion F

lemma entryBlock_done (BB : List TInst) :
    entryBlock (false, false) BB = (BB, (false, false)) := by
  induction BB with
  | nil => rfl
  | cons i BB ih => simp [entryBlock, ih]

lemma entryLoop_done (BBs : List (List TInst)) : entryLoop (false, false) BBs = BBs := by
  induction BBs with
  | nil => rfl
  | cons BB BBs ih => rw [entryLoop, entryBlock_done, ih]

lemma exitBlock_append (BB BB' : List TInst) :
    exitBlock (BB ++ BB') = exitBlock BB ++ exitBlock BB' :=
  List.flatMap_append

lemma exitBlock_inserted (ts : List Track) :
    exitBlock (ts.map .inserted) = ts.map .inserted := by
  induction ts with
  | nil => rfl
  | cons t ts ih =>
    rw [List.map_cons]
    change [TInst.inserted t] ++ exitBlock (ts.map .inserted) = _
    rw [ih]
    rfl

def exits (is : List Inst) : List TInst := exitBlock (is.map .orig)

lemma exits_of_ne {i : Inst} (hi : i ≠ .ret) (is : List Inst) :
    exits (i :: is) = .orig i :: exits is := by
  have hne : TInst.orig i ≠ .orig .ret := by
    intro heq
    exact hi (TInst.orig.inj heq)
  change (if TInst.orig i = .orig .ret then _ else [TInst.orig i]) ++ exits is = _
  rw [if_neg hne]
  rfl

lemma exits_eq_orig {is : List Inst} {i : Inst} {r : List TInst} (h : exits is = .orig i :: r) :
    i ≠ .ret ∧ ∃ is', is = i :: is' ∧ r = exits is' := by
  cases is with
  | nil => cases h
  | cons j is' =>
    by_cases hj : j = .ret
    · subst hj
      cases h
    · rw [exits_of_ne hj] at h
      obtain ⟨heq, rfl⟩ := List.cons.inj h
      obtain rfl := TInst.orig.inj heq
      exact ⟨hj, is', rfl, rfl⟩

lemma exits_eq_inserted {is : List Inst} {t : Track} {r : List TInst}
    (h : exits is = .inserted t :: r) : ∃ is', is = .ret :: is' := by
  cases is with
  | nil => cases h
  | cons j is' =>
    by_cases hj : j = .ret
    · exact ⟨is', by rw [hj]⟩
    · rw [exits_of_ne hj] at h
      cases h

lemma trackRecursion_eq {F : Function} {b : List Inst} {bs : List (List Inst)}
    (h : F.blocks = b :: bs) :
    trackRecursion F = ((update 1).map .inserted ++ exits b) :: bs.map exits := by
  have hb : b ≠ [] := F.entry_ne_nil b (by rw [h]; rfl)
  obtain ⟨i, is, rfl⟩ := List.exists_cons_of_ne_nil hb
  have hfirst : entryBlock (true, true) ((i :: is).map .orig) =
      ((update 1).map .inserted ++ (i :: is).map .orig, (false, false)) := by
    rw [List.map_cons, entryBlock, entryBlock_done]
    rfl
  rw [trackRecursion, h, List.map_cons, entryLoop, hfirst, entryLoop_done, List.map_cons,
    exitBlock_append, exitBlock_inserted, List.map_map]
  rfl

lemma trackRecursion_succ (F : Function) (k : ℕ) :
    (trackRecursion F)[k + 1]? = F.blocks[k + 1]?.map exits := by
  cases h : F.blocks with
  | nil =>
    rw [trackRecursion, h]
    rfl
  | cons b bs =>
    rw [trackRecursion_eq h, List.getElem?_cons_succ, List.getElem?_cons_succ, List.getElem?_map]

lemma runOnModule_get (M : List Function) (k : ℕ) :
    (runOnModule M)[k]? = M[k]?.map trackRecursion := by
  rw [runOnModule, List.getElem?_map]
  congr 1
  funext F
  by_cases hF : F.isDeclaration = true
  · have hblocks : F.blocks = [] := List.isEmpty_iff.mp hF
    rw [if_pos hF, trackRecursion, hblocks]
    rfl
  · rw [if_neg hF]

structure Regs where
  half : BitVec 16
  wide : Word
  gv : BitVec 16

def Track.exec : Track → Regs → Regs
  | .load, r => { r with half := r.gv }
  | .sext, r => { r with wide := r.half.signExtend 32 }
  | .add k, r => { r with wide := r.wide + k }
  | .trunc, r => { r with half := r.wide.setWidth 16 }
  | .store, r => { r with gv := r.half }

def counterAfter (ts : List Track) (r : Regs) : BitVec 16 :=
  (ts.foldl (fun r t => t.exec r) r).gv

lemma trackEntry_ofNat (n : ℕ) : trackEntry (BitVec.ofNat 16 n) = BitVec.ofNat 16 (n + 1) := by
  have hone : ((1 : Word).setWidth 16) = BitVec.ofNat 16 1 := by decide
  rw [trackEntry, setWidth_signExtend_add, hone, BitVec.ofNat_add]

lemma trackExit_ofNat (n : ℕ) : trackExit (BitVec.ofNat 16 (n + 1)) = BitVec.ofNat 16 n := by
  have hones : ((-1 : Word).setWidth 16) = BitVec.ofNat 16 65535 := by decide
  rw [trackExit, setWidth_signExtend_add, hones, ← BitVec.ofNat_add]
  apply BitVec.eq_of_toNat_eq
  rw [BitVec.toNat_ofNat, BitVec.toNat_ofNat]
  omega

lemma trackExit_injective : Function.Injective trackExit := by
  intro gv gv' h
  rw [trackExit, trackExit, setWidth_signExtend_add, setWidth_signExtend_add] at h
  exact (BitVec.add_left_inj _).mp h

lemma counterAfter_entry (half : BitVec 16) (wide : Word) (n : ℕ) :
    counterAfter (update 1) ⟨half, wide, BitVec.ofNat 16 n⟩ = BitVec.ofNat 16 (n + 1) :=
  trackEntry_ofNat n

lemma counterAfter_exit (half : BitVec 16) (wide : Word) (n : ℕ) :
    counterAfter (update (-1)) ⟨half, wide, BitVec.ofNat 16 (n + 1)⟩ = BitVec.ofNat 16 n :=
  trackExit_ofNat n

structure Frame where
  id : ℕ
  fn : ℕ
  rest : List TInst
  half : BitVec 16
  wide : Word

inductive Level
  | ext
  | act (f : Frame)

structure Config where
  stack : List Level
  counter : BitVec 16
  entered : ℕ

def start : Config := ⟨[.ext], 0, 0⟩

def Frame.track (f : Frame) (t : Track) (rest : List TInst) (gv : BitVec 16) : Frame :=
  { f with
    rest := rest
    half := (t.exec ⟨f.half, f.wide, gv⟩).half
    wide := (t.exec ⟨f.half, f.wide, gv⟩).wide }

def Calls (callee : Option ℕ) (k : ℕ) : Prop := ∀ j, callee = some j → j = k

inductive Step (code : Code) : Config → Config → Prop
  | track {f t r below gv n} : f.rest = .inserted t :: r →
    Step code ⟨.act f :: below, gv, n⟩
      ⟨.act (f.track t r gv) :: below, (t.exec ⟨f.half, f.wide, gv⟩).gv, n⟩
  | other {f r below gv n} : f.rest = .orig .other :: r →
    Step code ⟨.act f :: below, gv, n⟩ ⟨.act { f with rest := r } :: below, gv, n⟩
  | br {f targets r k body b below gv n} : f.rest = .orig (.br targets) :: r → k ∈ targets →
    code[f.fn]? = some body → body[k]? = some b →
    Step code ⟨.act f :: below, gv, n⟩ ⟨.act { f with rest := b } :: below, gv, n⟩
  | call {f callee r k b bs below gv n} : f.rest = .orig (.call callee) :: r → Calls callee k →
    code[k]? = some (b :: bs) →
    Step code ⟨.act f :: below, gv, n⟩
      ⟨.act ⟨n, k, b, 0, 0⟩ :: .act { f with rest := r } :: below, gv, n + 1⟩
  | callExternal {f callee r k below gv n} : f.rest = .orig (.call callee) :: r →
    Calls callee k → code[k]? = some [] →
    Step code ⟨.act f :: below, gv, n⟩ ⟨.ext :: .act { f with rest := r } :: below, gv, n⟩
  | ret {f r below gv n} : f.rest = .orig .ret :: r →
    Step code ⟨.act f :: below, gv, n⟩ ⟨below, gv, n⟩
  | externalCalls {k b bs below gv n} : code[k]? = some (b :: bs) →
    Step code ⟨.ext :: below, gv, n⟩ ⟨.act ⟨n, k, b, 0, 0⟩ :: .ext :: below, gv, n + 1⟩
  | externalReturns {below gv n} : Step code ⟨.ext :: below, gv, n⟩ ⟨below, gv, n⟩

def Reachable (M : List Function) : Config → Prop := ReflTransGen (Step (runOnModule M)) start

def Frame.inSequence (f : Frame) : Bool :=
  match f.rest with
  | .inserted _ :: _ => true
  | _ => false

def Frame.atRet (f : Frame) : Bool :=
  match f.rest with
  | .orig .ret :: _ => true
  | _ => false

def Frame.resume (f : Frame) : Option Frame :=
  match f.rest with
  | .orig (.call _) :: r => some { f with rest := r }
  | _ => none

def Level.live : Level → Bool
  | .ext => false
  | .act f => !f.atRet

namespace Config

def live (c : Config) : ℕ := c.stack.countP Level.live

def outside (c : Config) : Bool :=
  match c.stack with
  | .act f :: _ => !f.inSequence
  | _ => true

def atRet (c : Config) : Bool :=
  match c.stack with
  | .act f :: _ => f.atRet
  | _ => false

def activation (c : Config) : Option ℕ :=
  match c.stack with
  | .act f :: _ => if f.atRet then none else some f.id
  | _ => none

def resume (c : Config) : Option (List Level) :=
  match c.stack with
  | .act f :: below => f.resume.map fun g => .act g :: below
  | .ext :: below => some (.ext :: below)
  | [] => none

def tag (c : Config) : Word := c.counter.signExtend 32 &&& 0x0000ffff

end Config

variable {M : List Function}

def Within (M : List Function) (k : ℕ) (is : List Inst) : Prop :=
  ∃ F, M[k]? = some F ∧ ∃ b ∈ F.blocks, is <:+ b

def Waits (M : List Function) (stack : List Level) : Prop :=
  ∀ f, Level.act f ∈ stack → ∃ is, Within M f.fn is ∧ f.rest = exits is

def Level.isAct : Level → Bool
  | .ext => false
  | .act _ => true

def activations (stack : List Level) : ℕ := stack.countP Level.isAct

@[simp] lemma activations_act (f : Frame) (below : List Level) :
    activations (.act f :: below) = activations below + 1 :=
  List.countP_cons_of_pos rfl

@[simp] lemma activations_ext (below : List Level) :
    activations (.ext :: below) = activations below :=
  List.countP_cons_of_neg (by decide)

inductive Counts (M : List Function) (f : Frame) (gv : BitVec 16) (n : ℕ) : Prop
  | running (ts : List Track) (is : List Inst) : Within M f.fn is →
    f.rest = ts.map .inserted ++ exits is →
    counterAfter ts ⟨f.half, f.wide, gv⟩ = BitVec.ofNat 16 (n + 1) → Counts M f gv n
  | leaving (ts : List Track) (r : List TInst) :
    f.rest = ts.map .inserted ++ .orig .ret :: r →
    counterAfter ts ⟨f.half, f.wide, gv⟩ = BitVec.ofNat 16 n → Counts M f gv n

def Tracked (M : List Function) : Config → Prop
  | ⟨.act f :: below, gv, _⟩ => Waits M below ∧ Counts M f gv (activations below)
  | ⟨stack, gv, _⟩ => Waits M stack ∧ gv = BitVec.ofNat 16 (activations stack)

lemma Waits.cons_ext {stack : List Level} (h : Waits M stack) : Waits M (.ext :: stack) := by
  intro f hf
  rcases List.mem_cons.mp hf with heq | hf
  · cases heq
  · exact h f hf

lemma Waits.cons_act {stack : List Level} (h : Waits M stack) {f : Frame} {is : List Inst}
    (hw : Within M f.fn is) (hrest : f.rest = exits is) : Waits M (.act f :: stack) := by
  intro g hg
  rcases List.mem_cons.mp hg with heq | hg
  · cases heq
    exact ⟨is, hw, hrest⟩
  · exact h g hg

lemma Waits.tail {l : Level} {stack : List Level} (h : Waits M (l :: stack)) : Waits M stack :=
  fun f hf => h f (List.mem_cons_of_mem l hf)

lemma Waits.tracked {stack : List Level} (h : Waits M stack) (n : ℕ) :
    Tracked M ⟨stack, BitVec.ofNat 16 (activations stack), n⟩ := by
  cases stack with
  | nil => exact ⟨h, rfl⟩
  | cons l below =>
    cases l with
    | ext => exact ⟨h, rfl⟩
    | act f =>
      obtain ⟨is, hw, hrest⟩ := h f List.mem_cons_self
      refine ⟨h.tail, .running [] is hw hrest ?_⟩
      rw [activations_act]
      rfl

lemma Within.tail {k : ℕ} {i : Inst} {is : List Inst} (h : Within M k (i :: is)) :
    Within M k is := by
  obtain ⟨F, hF, b, hb, hsuffix⟩ := h
  exact ⟨F, hF, b, hb, (List.suffix_cons i is).trans hsuffix⟩

lemma within_of_mem {k : ℕ} {F : Function} {b : List Inst} (hF : M[k]? = some F)
    (hb : b ∈ F.blocks) : Within M k b :=
  ⟨F, hF, b, hb, List.suffix_rfl⟩

namespace Counts

variable {f : Frame} {gv : BitVec 16} {n : ℕ}

lemma track_leaving {t : Track} {r : List TInst} (hrest : f.rest = .inserted t :: r)
    {ts : List Track} {r' : List TInst} (heq : f.rest = ts.map .inserted ++ .orig .ret :: r')
    (hc : counterAfter ts ⟨f.half, f.wide, gv⟩ = BitVec.ofNat 16 n) :
    Counts M (f.track t r gv) (t.exec ⟨f.half, f.wide, gv⟩).gv n := by
  rw [hrest] at heq
  cases ts with
  | nil => cases heq
  | cons u ts =>
    obtain ⟨hu, hr⟩ := List.cons.inj heq
    obtain rfl := TInst.inserted.inj hu
    exact .leaving ts r' hr hc

lemma track (h : Counts M f gv n) {t : Track} {r : List TInst} (hrest : f.rest = .inserted t :: r) :
    Counts M (f.track t r gv) (t.exec ⟨f.half, f.wide, gv⟩).gv n := by
  cases h with
  | leaving ts r' heq hc => exact track_leaving hrest heq hc
  | running ts is hw heq hc =>
    cases ts with
    | nil =>
      -- the exit sequence begins
      have hgv : gv = BitVec.ofNat 16 (n + 1) := hc
      obtain ⟨is', rfl⟩ := exits_eq_inserted (heq.symm.trans hrest)
      have hexit : f.rest = (update (-1)).map .inserted ++ .orig .ret :: exits is' := heq
      apply track_leaving hrest hexit
      rw [hgv]
      exact counterAfter_exit f.half f.wide n
    | cons u ts =>
      rw [hrest] at heq
      obtain ⟨hu, hr⟩ := List.cons.inj heq
      obtain rfl := TInst.inserted.inj hu
      exact .running ts is hw hr hc

lemma outside (h : Counts M f gv n) (hout : f.inSequence = false) :
    (gv = BitVec.ofNat 16 (n + 1) ∧ ∃ is, Within M f.fn is ∧ f.rest = exits is) ∨
      gv = BitVec.ofNat 16 n ∧ ∃ r, f.rest = .orig .ret :: r := by
  cases h with
  | running ts is hw heq hc =>
    cases ts with
    | nil => exact Or.inl ⟨hc, is, hw, heq⟩
    | cons t ts =>
      rw [Frame.inSequence, heq] at hout
      cases hout
  | leaving ts r heq hc =>
    cases ts with
    | nil => exact Or.inr ⟨hc, r, heq⟩
    | cons t ts =>
      rw [Frame.inSequence, heq] at hout
      cases hout

lemma at_orig (h : Counts M f gv n) {i : Inst} (hi : i ≠ .ret) {r : List TInst}
    (hrest : f.rest = .orig i :: r) :
    gv = BitVec.ofNat 16 (n + 1) ∧ ∃ is, Within M f.fn (i :: is) ∧ r = exits is := by
  have hout : f.inSequence = false := by rw [Frame.inSequence, hrest]
  rcases h.outside hout with ⟨hgv, is, hw, heq⟩ | ⟨-, r', heq⟩
  · obtain ⟨-, is', rfl, hr⟩ := exits_eq_orig (heq.symm.trans hrest)
    exact ⟨hgv, is', hw, hr⟩
  · obtain ⟨hret, -⟩ := List.cons.inj (hrest.symm.trans heq)
    exact absurd (TInst.orig.inj hret) hi

lemma at_ret (h : Counts M f gv n) {r : List TInst} (hrest : f.rest = .orig .ret :: r) :
    gv = BitVec.ofNat 16 n := by
  have hout : f.inSequence = false := by rw [Frame.inSequence, hrest]
  rcases h.outside hout with ⟨-, is, -, heq⟩ | ⟨hgv, -⟩
  · exact absurd rfl (exits_eq_orig (heq.symm.trans hrest)).1
  · exact hgv

lemma before_ret {ts : List Track} (h : Counts M f gv n) {r : List TInst}
    (hrest : f.rest = ts.map .inserted ++ .orig .ret :: r) :
    counterAfter ts ⟨f.half, f.wide, gv⟩ = BitVec.ofNat 16 n := by
  induction ts generalizing f gv with
  | nil => exact h.at_ret hrest
  | cons t ts ih => exact ih (h.track hrest) rfl

lemma at_exits (h : Counts M f gv n) {is : List Inst} (hrest : f.rest = exits is) :
    gv = BitVec.ofNat 16 (n + 1) := by
  cases is with
  | nil =>
    have hout : f.inSequence = false := by
      rw [Frame.inSequence, hrest]
      rfl
    rcases h.outside hout with ⟨hgv, -⟩ | ⟨-, r, heq⟩
    · exact hgv
    · cases hrest.symm.trans heq
  | cons i is =>
    by_cases hi : i = .ret
    · subst hi
      have hexit : counterAfter (update (-1)) ⟨f.half, f.wide, gv⟩ = BitVec.ofNat 16 n :=
        h.before_ret hrest
      exact trackExit_injective (hexit.trans (trackExit_ofNat n).symm)
    · rw [exits_of_ne hi] at hrest
      exact (h.at_orig hi hrest).1

lemma of_exits {is : List Inst} (hw : Within M f.fn is) (hrest : f.rest = exits is) :
    Counts M f (BitVec.ofNat 16 (n + 1)) n :=
  .running [] is hw hrest rfl

end Counts

lemma counts_of_entered {k : ℕ} {b : List TInst} {bs : List (List TInst)}
    (hcode : (runOnModule M)[k]? = some (b :: bs)) (id n : ℕ) :
    Counts M ⟨id, k, b, 0, 0⟩ (BitVec.ofNat 16 n) n := by
  rw [runOnModule_get] at hcode
  obtain ⟨F, hF, htrack⟩ := Option.map_eq_some_iff.mp hcode
  cases hblocks : F.blocks with
  | nil =>
    rw [trackRecursion, hblocks] at htrack
    cases htrack
  | cons b' bs' =>
    rw [trackRecursion_eq hblocks] at htrack
    obtain ⟨rfl, -⟩ := List.cons.inj htrack
    have hmem : b' ∈ F.blocks := by
      rw [hblocks]
      exact List.mem_cons_self
    exact .running (update 1) b' (within_of_mem hF hmem) rfl (counterAfter_entry 0 0 n)

lemma exits_of_target {k : ℕ} {targets : List ℕ} {is : List Inst} {j : ℕ}
    {body : List (List TInst)} {b : List TInst} (hw : Within M k (.br targets :: is))
    (hj : j ∈ targets) (hcode : (runOnModule M)[k]? = some body) (hb : body[j]? = some b) :
    ∃ is', Within M k is' ∧ b = exits is' := by
  obtain ⟨F, hF, b', hb', hsuffix⟩ := hw
  rw [runOnModule_get, hF] at hcode
  obtain rfl := Option.some.inj hcode
  have hmem : Inst.br targets ∈ b' := hsuffix.subset List.mem_cons_self
  cases j with
  | zero => exact absurd hj (F.entry_not_target b' hb' targets hmem)
  | succ j =>
    rw [trackRecursion_succ] at hb
    obtain ⟨is', his', rfl⟩ := Option.map_eq_some_iff.mp hb
    exact ⟨is', within_of_mem hF (List.mem_of_getElem? his'), rfl⟩

lemma Tracked.step {c c' : Config} (h : Tracked M c) (hs : Step (runOnModule M) c c') :
    Tracked M c' := by
  cases hs with
  | track hrest => exact ⟨h.1, h.2.track hrest⟩
  | other hrest =>
    obtain ⟨rfl, is, hw, rfl⟩ := h.2.at_orig (by decide) hrest
    exact ⟨h.1, .of_exits hw.tail rfl⟩
  | br hrest hk hcode hb =>
    obtain ⟨rfl, is, hw, rfl⟩ := h.2.at_orig (fun heq => by cases heq) hrest
    obtain ⟨is', hw', rfl⟩ := exits_of_target hw hk hcode hb
    exact ⟨h.1, .of_exits hw' rfl⟩
  | call hrest hk hcode =>
    obtain ⟨rfl, is, hw, rfl⟩ := h.2.at_orig (fun heq => by cases heq) hrest
    refine ⟨h.1.cons_act hw.tail rfl, ?_⟩
    rw [activations_act]
    exact counts_of_entered hcode _ _
  | @callExternal f callee r k below gv n hrest hk hcode =>
    obtain ⟨rfl, is, hw, rfl⟩ := h.2.at_orig (fun heq => by cases heq) hrest
    refine ⟨(h.1.cons_act (f := { f with rest := exits is }) hw.tail rfl).cons_ext, ?_⟩
    rw [activations_ext, activations_act]
  | ret hrest =>
    rw [h.2.at_ret hrest]
    exact h.1.tracked _
  | externalCalls hcode =>
    refine ⟨h.1, ?_⟩
    rw [h.2]
    exact counts_of_entered hcode _ _
  | externalReturns =>
    rw [h.2, activations_ext]
    exact h.1.tail.tracked _

theorem tracked_of_reachable {c : Config} (h : Reachable M c) : Tracked M c := by
  induction h with
  | refl =>
    have hwaits : Waits M [.ext] := Waits.cons_ext fun f hf => absurd hf List.not_mem_nil
    exact ⟨hwaits, rfl⟩
  | tail _ hs ih => exact ih.step hs

lemma Frame.atRet_of_exits {f : Frame} {is : List Inst} (hrest : f.rest = exits is) :
    f.atRet = false := by
  rw [Frame.atRet, hrest]
  split
  · next heq => exact absurd rfl (exits_eq_orig heq).1
  · rfl

lemma Waits.live {stack : List Level} (h : Waits M stack) :
    stack.countP Level.live = activations stack := by
  apply List.countP_congr
  intro l hl
  cases l with
  | ext => exact Iff.rfl
  | act f =>
    obtain ⟨is, -, hrest⟩ := h f hl
    simp [Level.live, Level.isAct, Frame.atRet_of_exits hrest]

lemma Tracked.live_eq {c : Config} (h : Tracked M c) (hat : c.atRet = false) :
    c.live = activations c.stack := by
  obtain ⟨stack, gv, n⟩ := c
  cases stack with
  | nil => rfl
  | cons l below =>
    cases l with
    | ext => exact h.1.live
    | act f =>
      have hat : f.atRet = false := hat
      rw [Config.live, List.countP_cons, h.1.live, activations_act]
      simp [Level.live, hat]

lemma Tracked.counter_eq {c : Config} (h : Tracked M c) (hout : c.outside = true) :
    c.counter = BitVec.ofNat 16 c.live := by
  obtain ⟨stack, gv, n⟩ := c
  cases stack with
  | nil => exact h.2
  | cons l below =>
    cases l with
    | ext =>
      have hlive : (Level.ext :: below).countP Level.live = activations (.ext :: below) := h.1.live
      rw [Config.live, hlive]
      exact h.2
    | act f =>
      have hseq : f.inSequence = false := by simpa [Config.outside] using hout
      have hlive : Config.live ⟨.act f :: below, gv, n⟩ =
          activations below + if !f.atRet then 1 else 0 := by
        rw [Config.live, List.countP_cons, h.1.live]
        rfl
      rw [hlive]
      rcases h.2.outside hseq with ⟨hgv, is, -, hrest⟩ | ⟨hgv, r, hrest⟩
      · rw [Frame.atRet_of_exits hrest]
        exact hgv
      · have hat : f.atRet = true := by rw [Frame.atRet, hrest]
        rw [hat]
        exact hgv

lemma Tracked.counter_of_waits {c : Config} (h : Tracked M c) (hwaits : Waits M c.stack) :
    c.counter = BitVec.ofNat 16 (activations c.stack) := by
  obtain ⟨stack, gv, n⟩ := c
  cases stack with
  | nil => exact h.2
  | cons l below =>
    cases l with
    | ext => exact h.2
    | act f =>
      obtain ⟨is, hw, hrest⟩ := hwaits f List.mem_cons_self
      rw [activations_act]
      exact h.2.at_exits hrest

lemma Frame.resume_eq {f g : Frame} (h : f.resume = some g) :
    ∃ callee r, f.rest = .orig (.call callee) :: r ∧ g = { f with rest := r } := by
  rw [Frame.resume] at h
  split at h
  · next callee r hrest => exact ⟨callee, r, hrest, (Option.some.inj h).symm⟩
  · cases h

lemma Tracked.resume_eq {c : Config} (h : Tracked M c) {stack : List Level}
    (hresume : c.resume = some stack) :
    Waits M stack ∧ c.counter = BitVec.ofNat 16 (activations stack) := by
  obtain ⟨levels, gv, n⟩ := c
  cases levels with
  | nil => cases hresume
  | cons l below =>
    cases l with
    | ext =>
      obtain rfl := Option.some.inj hresume
      exact h
    | act f =>
      obtain ⟨g, hg, rfl⟩ := Option.map_eq_some_iff.mp hresume
      obtain ⟨callee, r, hrest, rfl⟩ := Frame.resume_eq hg
      obtain ⟨hgv, is, hw, rfl⟩ := h.2.at_orig (fun heq => by cases heq) hrest
      refine ⟨h.1.cons_act hw.tail rfl, ?_⟩
      rw [activations_act]
      exact hgv

def Level.id? : Level → Option ℕ
  | .ext => none
  | .act f => some f.id

def Config.ids (c : Config) : List (Option ℕ) := c.stack.map Level.id?

lemma activations_eq (stack : List Level) :
    activations stack = (stack.map Level.id?).countP Option.isSome := by
  rw [List.countP_map]
  apply List.countP_congr
  intro l _
  cases l <;> rfl

inductive IdStep : List (Option ℕ) × ℕ → List (Option ℕ) × ℕ → Prop
  | stay {ids n} : IdStep (ids, n) (ids, n)
  | enter {ids n} : IdStep (ids, n) (some n :: ids, n + 1)
  | callExternal {ids n} : IdStep (ids, n) (none :: ids, n)
  | leave {l ids n} : IdStep (l :: ids, n) (ids, n)

lemma Step.ids {code : Code} {c c' : Config} (h : Step code c c') :
    IdStep (c.ids, c.entered) (c'.ids, c'.entered) := by
  cases h with
  | call => exact .enter
  | callExternal => exact .callExternal
  | ret => exact .leave
  | externalCalls => exact .enter
  | externalReturns => exact .leave
  | _ => exact .stay

def Based (base : ℕ → List (Option ℕ)) (p : List (Option ℕ) × ℕ) : Prop :=
  ∀ above a below, p.1 = above ++ some a :: below → a < p.2 ∧ base a = below

lemma Based.step {base : ℕ → List (Option ℕ)} {p p' : List (Option ℕ) × ℕ} (h : Based base p)
    (hs : IdStep p p') : ∃ base', Based base' p' ∧ p.2 ≤ p'.2 ∧ ∀ a < p.2, base' a = base a := by
  cases hs with
  | stay => exact ⟨base, h, le_rfl, fun _ _ => rfl⟩
  | leave =>
    refine ⟨base, ?_, le_rfl, fun _ _ => rfl⟩
    intro above a below heq
    exact h (_ :: above) a below (congrArg (_ :: ·) heq)
  | callExternal =>
    refine ⟨base, ?_, le_rfl, fun _ _ => rfl⟩
    intro above a below heq
    cases above with
    | nil => cases heq
    | cons l above => exact h above a below (List.cons.inj heq).2
  | @enter ids n =>
    refine ⟨Function.update base n ids, ?_, Nat.le_succ n, ?_⟩
    · intro above a below heq
      cases above with
      | nil =>
        cases heq
        exact ⟨Nat.lt_succ_self n, Function.update_self n ids base⟩
      | cons l above =>
        obtain ⟨hlt, hbase⟩ := h above a below (List.cons.inj heq).2
        refine ⟨hlt.trans (Nat.lt_succ_self n), ?_⟩
        rw [Function.update_of_ne hlt.ne]
        exact hbase
    · intro a ha
      exact Function.update_of_ne ha.ne ids base

lemma Based.steps {code : Code} {base : ℕ → List (Option ℕ)} {c c' : Config}
    (h : Based base (c.ids, c.entered)) (hs : ReflTransGen (Step code) c c') :
    ∃ base', Based base' (c'.ids, c'.entered) ∧ c.entered ≤ c'.entered ∧
      ∀ a < c.entered, base' a = base a := by
  induction hs with
  | refl => exact ⟨base, h, le_rfl, fun _ _ => rfl⟩
  | tail _ hstep ih =>
    obtain ⟨base₁, h₁, hle₁, hold₁⟩ := ih
    obtain ⟨base₂, h₂, hle₂, hold₂⟩ := h₁.step hstep.ids
    refine ⟨base₂, h₂, hle₁.trans hle₂, ?_⟩
    intro a ha
    exact (hold₂ a (ha.trans_le hle₁)).trans (hold₁ a ha)

lemma based_start : Based (fun _ => []) (start.ids, start.entered) := by
  intro above a below heq
  have hmem : some a ∈ start.ids := by
    rw [show start.ids = _ from heq]
    exact List.mem_append_right above List.mem_cons_self
  cases List.mem_singleton.mp hmem

lemma Config.ids_of_activation {c : Config} {a : ℕ} (h : c.activation = some a) :
    c.atRet = false ∧ ∃ below, c.ids = some a :: below := by
  obtain ⟨stack, gv, n⟩ := c
  cases stack with
  | nil => cases h
  | cons l below =>
    cases l with
    | ext => cases h
    | act f =>
      change (if f.atRet then none else some f.id) = some a at h
      cases hat : f.atRet with
      | true =>
        rw [hat] at h
        cases h
      | false =>
        rw [hat] at h
        obtain rfl := Option.some.inj h
        exact ⟨hat, below.map Level.id?, rfl⟩

lemma live_eq_of_activation {c c' : Config} (h : Reachable M c)
    (hs : ReflTransGen (Step (runOnModule M)) c c') {a : ℕ} (ha : c.activation = some a)
    (ha' : c'.activation = some a) : c'.live = c.live := by
  obtain ⟨hat, below, hids⟩ := Config.ids_of_activation ha
  obtain ⟨hat', below', hids'⟩ := Config.ids_of_activation ha'
  obtain ⟨base, hbase, -, -⟩ := based_start.steps h
  obtain ⟨base', hbase', -, hold⟩ := hbase.steps hs
  obtain ⟨hlt, hbelow⟩ := hbase [] a below hids
  obtain ⟨-, hbelow'⟩ := hbase' [] a below' hids'
  have hsame : c'.ids = c.ids := by rw [hids, hids', ← hbelow, ← hbelow', hold a hlt]
  rw [(tracked_of_reachable h).live_eq hat, (tracked_of_reachable (h.trans hs)).live_eq hat',
    activations_eq, activations_eq]
  exact congrArg (List.countP Option.isSome) hsame

lemma tag_toNat (c : Config) : c.tag.toNat = c.counter.toNat := by
  have hzero : c.tag = useParam 0 c.counter := by
    rw [Config.tag, useParam]
    simp
  rw [hzero, useParam_eq_append, BitVec.toNat_append]
  simp

lemma counter_toNat {c : Config} (h : Reachable M c) (hout : c.outside = true) :
    c.counter.toNat = c.live % 65536 := by
  rw [(tracked_of_reachable h).counter_eq hout, BitVec.toNat_ofNat]

theorem counter_eq_depth (M : List Function) :
    (∀ c, Reachable M c → c.outside = true → c.counter.toNat = c.live % 65536) ∧
    (∀ c, Reachable M c → c.atRet = false → c.live = activations c.stack) ∧
    (∀ c c' stack, Reachable M c → c.resume = some stack →
      ReflTransGen (Step (runOnModule M)) c c' → c'.stack = stack → c'.counter = c.counter) ∧
    ∀ c c' a, Reachable M c → ReflTransGen (Step (runOnModule M)) c c' →
      c.outside = true → c'.outside = true → c.activation = some a → c'.activation = some a →
      c'.tag = c.tag ∧ c.tag.toNat = c.live % 65536 := by
  refine ⟨fun c h hout => counter_toNat h hout, fun c h hat => (tracked_of_reachable h).live_eq hat,
    ?_, ?_⟩
  · rintro c c' stack h hresume hs rfl
    have hbefore := ((tracked_of_reachable h).resume_eq hresume).2
    obtain ⟨hwaits, -⟩ := (tracked_of_reachable h).resume_eq hresume
    have hafter := (tracked_of_reachable (h.trans hs)).counter_of_waits hwaits
    exact hafter.trans hbefore.symm
  · intro c c' a h hs hout hout' ha ha'
    have htag : c.tag.toNat = c.live % 65536 := by rw [tag_toNat, counter_toNat h hout]
    have htag' : c'.tag.toNat = c'.live % 65536 := by
      rw [tag_toNat, counter_toNat (h.trans hs) hout']
    refine ⟨BitVec.eq_of_toNat_eq ?_, htag⟩
    rw [htag, htag', live_eq_of_activation h hs ha ha']

def recursive : Function where
  blocks := [[.call (some 0), .ret]]
  entry_ne_nil := by decide
  entry_not_target := by
    intro b hb targets hbr
    obtain rfl := List.mem_singleton.mp hb
    cases hbr with
    | tail _ hbr => cases List.mem_singleton.mp hbr

def called (below : List Level) (gv : BitVec 16) (n : ℕ) : Config :=
  ⟨.act ⟨n, 0, (update 1).map .inserted ++ exits [.call (some 0), .ret], 0, 0⟩ :: below, gv, n + 1⟩

lemma reachable_entered {below : List Level} {gv : BitVec 16} {n : ℕ}
    (h : Reachable [recursive] (called below gv n)) :
    ∃ f gv', Reachable [recursive] ⟨.act f :: below, gv', n + 1⟩ ∧
      f.rest = exits [.call (some 0), .ret] :=
  ⟨_, _, ((((h.tail (.track rfl)).tail (.track rfl)).tail (.track rfl)).tail (.track rfl)).tail
    (.track rfl), rfl⟩

lemma reachable_called (n : ℕ) :
    ∃ below gv, Reachable [recursive] (called below gv n) ∧ activations below = n := by
  induction n with
  | zero =>
    have hstep : Step (runOnModule [recursive]) start (called [.ext] 0 0) := .externalCalls rfl
    exact ⟨[.ext], 0, .single hstep, rfl⟩
  | succ n ih =>
    obtain ⟨below, gv, hcalled, hbelow⟩ := ih
    obtain ⟨f, gv', hentered, hrest⟩ := reachable_entered hcalled
    have hcalls : Calls (some 0) 0 := fun j hj => (Option.some.inj hj).symm
    refine ⟨_, gv', hentered.tail (.call hrest hcalls rfl), ?_⟩
    rw [activations_act, hbelow]

theorem exists_depth (n : ℕ) :
    ∃ c, Reachable [recursive] c ∧ c.outside = true ∧ c.live = n + 1 := by
  obtain ⟨below, gv, hcalled, hbelow⟩ := reachable_called n
  obtain ⟨f, gv', hentered, hrest⟩ := reachable_entered hcalled
  obtain ⟨hwaits, -⟩ := tracked_of_reachable hentered
  refine ⟨_, hentered, ?_, ?_⟩
  · simp only [Config.outside, Frame.inSequence, hrest]
    rfl
  · have hat : f.atRet = false := by
      rw [Frame.atRet, hrest]
      rfl
    rw [Config.live, List.countP_cons, hwaits.live, hbelow]
    simp [Level.live, hat]

theorem deep_counter : ∃ c, Reachable [recursive] c ∧ c.outside = true ∧ c.live = 40000 ∧
    c.counter.toNat = 40000 ∧ (c.atRet = false → activations c.stack = 40000) := by
  obtain ⟨hcounter, hdepth, -, -⟩ := counter_eq_depth [recursive]
  obtain ⟨c, hc, hout, hlive⟩ := exists_depth 39999
  refine ⟨c, hc, hout, hlive, ?_, ?_⟩
  · rw [hcounter c hc hout, hlive]
  · intro hat
    rw [← hdepth c hc hat, hlive]

end Embedwatch.Pass.RecursionTracker
