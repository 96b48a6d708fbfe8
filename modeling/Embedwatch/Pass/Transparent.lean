import Embedwatch.Library.Stuttering
import Embedwatch.Pass.EntryPoint
import Embedwatch.Pass.RecursionTracker

/-! What the inserted code leaves as it is: with the counter and with the calls of the library, a
module runs as it does without them, and inserted code is passed in finitely many steps. -/

namespace Embedwatch.Pass

open Library.Lookup Library.Stuttering Relation

namespace RecursionTracker

def TInst.isOrig : TInst → Bool
  | .orig _ => true
  | .inserted _ => false

def plainCode (M : List Function) : Code := M.map fun F => F.blocks.map (List.map .orig)

lemma filter_update (k : Word) (is : List TInst) :
    ((update k).map TInst.inserted ++ is).filter TInst.isOrig = is.filter TInst.isOrig := by
  rw [List.filter_append]
  rfl

lemma filter_entryBlock (flags : Bool × Bool) (BB : List TInst) :
    (entryBlock flags BB).1.filter TInst.isOrig = BB.filter TInst.isOrig := by
  induction BB generalizing flags with
  | nil => rfl
  | cons i BB ih =>
    rw [entryBlock]
    split
    · rw [filter_update, List.filter_cons, List.filter_cons, ih]
    · rw [List.filter_cons, List.filter_cons, ih]

lemma filter_entryLoop (flags : Bool × Bool) (BBs : List (List TInst)) :
    (entryLoop flags BBs).map (List.filter TInst.isOrig) = BBs.map (List.filter TInst.isOrig) := by
  induction BBs generalizing flags with
  | nil => rfl
  | cons BB BBs ih => rw [entryLoop, List.map_cons, List.map_cons, filter_entryBlock, ih]

lemma filter_exitBlock (BB : List TInst) :
    (exitBlock BB).filter TInst.isOrig = BB.filter TInst.isOrig := by
  induction BB with
  | nil => rfl
  | cons i BB ih =>
    change ((if i = .orig .ret then (update (-1)).map .inserted ++ [i] else [i]) ++
      exitBlock BB).filter TInst.isOrig = _
    rw [List.filter_append, ih, List.filter_cons]
    split <;> simp only [filter_update, List.filter_cons, List.filter_nil] <;> split <;> rfl

lemma filter_orig (is : List Inst) :
    (is.map TInst.orig).filter TInst.isOrig = is.map TInst.orig := by
  apply List.filter_eq_self.mpr
  intro t ht
  obtain ⟨i, -, rfl⟩ := List.mem_map.mp ht
  rfl

lemma filter_trackRecursion (F : Function) :
    (trackRecursion F).map (List.filter TInst.isOrig) = F.blocks.map (List.map .orig) := by
  have hexit : List.filter TInst.isOrig ∘ exitBlock = List.filter TInst.isOrig :=
    funext filter_exitBlock
  have horig : List.filter TInst.isOrig ∘ List.map TInst.orig = List.map TInst.orig :=
    funext filter_orig
  rw [trackRecursion, List.map_map, hexit, filter_entryLoop, List.map_map, horig]

lemma plainCode_get (M : List Function) (k : ℕ) :
    (plainCode M)[k]? = (runOnModule M)[k]?.map (List.map (List.filter TInst.isOrig)) := by
  rw [runOnModule_get, plainCode, List.getElem?_map, Option.map_map]
  congr 1
  funext F
  exact (filter_trackRecursion F).symm

def Frame.erase (f : Frame) : Frame :=
  { f with
    rest := f.rest.filter TInst.isOrig
    half := 0
    wide := 0 }

def Level.erase : Level → Level
  | .ext => .ext
  | .act f => .act f.erase

def Config.erase (c : Config) : Config := ⟨c.stack.map Level.erase, 0, c.entered⟩

def Config.waiting (c : Config) : ℕ :=
  match c.stack with
  | .act f :: _ => insertedBefore TInst.isOrig f.rest
  | _ => 0

lemma waiting_act (f : Frame) (below : List Level) (gv : BitVec 16) (n : ℕ) :
    Config.waiting ⟨.act f :: below, gv, n⟩ = insertedBefore TInst.isOrig f.rest :=
  rfl

variable {M : List Function} {c c' d : Config}

lemma exists_act {f : Frame} {below : List Level} {gv : BitVec 16} {n : ℕ}
    (h : c.erase = ⟨.act f :: below, gv, n⟩) : ∃ (f' : Frame) (below' : List Level),
      c = ⟨.act f' :: below', c.counter, n⟩ ∧ f = f'.erase ∧ below = below'.map Level.erase ∧
        gv = 0 := by
  obtain ⟨stack, counter, entered⟩ := c
  obtain ⟨hstack, hgv, rfl⟩ := Config.mk.inj h
  obtain ⟨l, below', rfl, hl, rfl⟩ := List.map_eq_cons_iff.mp hstack
  cases l with
  | ext => cases hl
  | act f' => exact ⟨f', below', rfl, (Level.act.inj hl).symm, rfl, hgv.symm⟩

lemma exists_ext {below : List Level} {gv : BitVec 16} {n : ℕ} (h : c.erase = ⟨.ext :: below, gv, n⟩) :
    ∃ below' : List Level, c = ⟨.ext :: below', c.counter, n⟩ ∧ below = below'.map Level.erase ∧
      gv = 0 := by
  obtain ⟨stack, counter, entered⟩ := c
  obtain ⟨hstack, hgv, rfl⟩ := Config.mk.inj h
  obtain ⟨l, below', rfl, hl, rfl⟩ := List.map_eq_cons_iff.mp hstack
  cases l with
  | ext => exact ⟨below', rfl, rfl, hgv.symm⟩
  | act f' => cases hl

lemma exists_orig {f : Frame} {below : List Level} {gv : BitVec 16} {n : ℕ} {i : TInst}
    {r : List TInst} (hc : c = ⟨.act f :: below, gv, n⟩) (h : f.erase.rest = i :: r)
    (h0 : c.waiting = 0) : ∃ r', f.rest = i :: r' ∧ r'.filter TInst.isOrig = r := by
  subst hc
  exact eq_cons_of_filter h h0

lemma exists_body {k : ℕ} {body : List (List TInst)} (h : (plainCode M)[k]? = some body) :
    ∃ body', (runOnModule M)[k]? = some body' ∧ body'.map (List.filter TInst.isOrig) = body := by
  rw [plainCode_get] at h
  exact Option.map_eq_some_iff.mp h

lemma body_of_tracked {k : ℕ} {body : List (List TInst)} (h : (runOnModule M)[k]? = some body) :
    (plainCode M)[k]? = some (body.map (List.filter TInst.isOrig)) := by
  rw [plainCode_get, h]
  rfl

lemma step_waiting (h : Step (runOnModule M) c c') (hwait : c.waiting ≠ 0) :
    c'.erase = c.erase ∧ c'.waiting < c.waiting := by
  cases h with
  | track hrest =>
    simp only [Config.erase, Config.waiting, Frame.track, List.map_cons, Level.erase, Frame.erase,
      hrest]
    rw [List.filter_cons_of_neg (by simp [TInst.isOrig]), insertedBefore_cons_of_neg rfl]
    exact ⟨rfl, Nat.lt_succ_self _⟩
  | other hrest | br hrest | call hrest | callExternal hrest | ret hrest =>
    rw [waiting_act, hrest] at hwait
    exact absurd (insertedBefore_cons_of_pos rfl) hwait
  | externalCalls _ | externalReturns => exact absurd rfl hwait

lemma step_of_waiting (hwait : c.waiting ≠ 0) : ∃ c', Step (runOnModule M) c c' := by
  obtain ⟨stack, gv, n⟩ := c
  cases stack with
  | nil => exact absurd rfl hwait
  | cons l below =>
    cases l with
    | ext => exact absurd rfl hwait
    | act f =>
      obtain ⟨i, r, hrest, hi⟩ := exists_inserted hwait
      cases i with
      | orig i => cases hi
      | inserted t => exact ⟨_, .track hrest⟩

lemma step_erase (h : Step (runOnModule M) c c') (h0 : c.waiting = 0) :
    Step (plainCode M) c.erase c'.erase := by
  have herase : ∀ {f : Frame} {i : Inst} {r : List TInst}, f.rest = .orig i :: r →
      f.erase.rest = .orig i :: r.filter TInst.isOrig := by
    intro f i r hrest
    rw [Frame.erase, hrest]
    rfl
  cases h with
  | track hrest =>
    rw [waiting_act, hrest, insertedBefore_cons_of_neg rfl] at h0
    exact absurd h0 (Nat.succ_ne_zero _)
  | other hrest => exact .other (herase hrest)
  | br hrest hk hbody hb =>
    refine .br (herase hrest) hk (body_of_tracked hbody) ?_
    rw [List.getElem?_map, hb]
    rfl
  | call hrest hcalls hbody => exact .call (herase hrest) hcalls (body_of_tracked hbody)
  | callExternal hrest hcalls hbody =>
    exact .callExternal (herase hrest) hcalls (body_of_tracked hbody)
  | ret hrest => exact .ret (herase hrest)
  | externalCalls hbody => exact .externalCalls (body_of_tracked hbody)
  | externalReturns => exact .externalReturns

lemma step_back (h : Step (plainCode M) c.erase d) (h0 : c.waiting = 0) :
    ∃ c', Step (runOnModule M) c c' ∧ c'.erase = d := by
  generalize hc : c.erase = e at h
  cases h with
  | @track f t r below gv n hrest =>
    obtain ⟨f', below', hc', rfl, rfl, rfl⟩ := exists_act hc
    have hmem : TInst.inserted t ∈ f'.erase.rest := by
      rw [hrest]
      exact List.mem_cons_self
    exact absurd (List.mem_filter.mp hmem).2 Bool.false_ne_true
  | other hrest =>
    obtain ⟨f', below', hc', rfl, rfl, rfl⟩ := exists_act hc
    obtain ⟨r', hrest', rfl⟩ := exists_orig hc' hrest h0
    rw [hc']
    exact ⟨_, .other hrest', rfl⟩
  | br hrest hk hbody hb =>
    obtain ⟨f', below', hc', rfl, rfl, rfl⟩ := exists_act hc
    obtain ⟨r', hrest', rfl⟩ := exists_orig hc' hrest h0
    obtain ⟨body', hbody', rfl⟩ := exists_body hbody
    rw [List.getElem?_map] at hb
    obtain ⟨b', hb', rfl⟩ := Option.map_eq_some_iff.mp hb
    rw [hc']
    exact ⟨_, .br hrest' hk hbody' hb', rfl⟩
  | call hrest hcalls hbody =>
    obtain ⟨f', below', hc', rfl, rfl, rfl⟩ := exists_act hc
    obtain ⟨r', hrest', rfl⟩ := exists_orig hc' hrest h0
    obtain ⟨body', hbody', heq⟩ := exists_body hbody
    obtain ⟨b', bs', rfl, rfl, rfl⟩ := List.map_eq_cons_iff.mp heq
    rw [hc']
    exact ⟨_, .call hrest' hcalls hbody', rfl⟩
  | callExternal hrest hcalls hbody =>
    obtain ⟨f', below', hc', rfl, rfl, rfl⟩ := exists_act hc
    obtain ⟨r', hrest', rfl⟩ := exists_orig hc' hrest h0
    obtain ⟨body', hbody', heq⟩ := exists_body hbody
    obtain rfl := List.map_eq_nil_iff.mp heq
    rw [hc']
    exact ⟨_, .callExternal hrest' hcalls hbody', rfl⟩
  | ret hrest =>
    obtain ⟨f', below', hc', rfl, rfl, rfl⟩ := exists_act hc
    obtain ⟨r', hrest', rfl⟩ := exists_orig hc' hrest h0
    rw [hc']
    exact ⟨_, .ret hrest', rfl⟩
  | externalCalls hbody =>
    obtain ⟨below', hc', rfl, rfl⟩ := exists_ext hc
    obtain ⟨body', hbody', heq⟩ := exists_body hbody
    obtain ⟨b', bs', rfl, rfl, rfl⟩ := List.map_eq_cons_iff.mp heq
    rw [hc']
    exact ⟨_, .externalCalls hbody', rfl⟩
  | externalReturns =>
    obtain ⟨below', hc', rfl, rfl⟩ := exists_ext hc
    rw [hc']
    exact ⟨_, .externalReturns, rfl⟩

lemma erases (M : List Function) :
    Erases (Step (plainCode M)) (Step (runOnModule M)) Config.erase Config.waiting where
  silent _ _ := step_waiting
  enabled _ := step_of_waiting
  forth _ _ := step_erase
  back _ _ := step_back

theorem tracked_transparent (M : List Function) (c : Config) :
    (∀ d, ReflTransGen (Step (plainCode M)) c.erase d ↔
      ∃ c', ReflTransGen (Step (runOnModule M)) c c' ∧ c'.erase = d) ∧
    (∀ ds, Shows (Step (runOnModule M)) Config.erase Config.waiting c ds ↔
      List.IsChain (Step (plainCode M)) (c.erase :: ds)) ∧
    (Acc (fun d' d => Step (plainCode M) d d') c.erase ↔
      Acc (fun c' c => Step (runOnModule M) c c') c) :=
  ⟨(erases M).reachable_iff c, (erases M).shows_iff c, (erases M).acc_iff c⟩

end RecursionTracker

namespace EntryPoint

variable {V : Type}

def MainCode.isOrig : MainCode V → Bool
  | .code (.inst _) => true
  | .code (.report _) | .zinit | .galloca _ _ | .zexit => false

def Module.plainCode (M : Module V) : List (List (List (MainCode V))) :=
  M.functions.map fun F => F.body.blocks.map fun b => b.map fun i => .code (.inst i)

def isInst : Code V → Bool
  | .inst _ => true
  | .report _ => false

lemma filter_reports (rs : List (Inserted V)) (cs : List (Code V)) :
    (rs.map Code.report ++ cs).filter isInst = cs.filter isInst := by
  induction rs with
  | nil => rfl
  | cons r rs ih => exact ih

lemma filter_insertAfter {calls : Inst V → Option (List (Inserted V))} {cs out : List (Code V)}
    (h : insertAfter calls cs = some out) : out.filter isInst = cs.filter isInst := by
  induction cs generalizing out with
  | nil =>
    cases h
    rfl
  | cons c cs ih =>
    cases c with
    | inst i =>
      obtain ⟨rs, -, h⟩ := Option.bind_eq_some_iff.mp h
      obtain ⟨out', hout', h⟩ := Option.bind_eq_some_iff.mp h
      cases h
      change (.inst i :: ((rs.map Code.report ++ out').filter isInst)) = _
      rw [filter_reports, ih hout']
      rfl
    | report r =>
      obtain ⟨out', hout', h⟩ := Option.bind_eq_some_iff.mp h
      cases h
      change out'.filter isInst = cs.filter isInst
      exact ih hout'

lemma filter_mapM {calls : Inst V → Option (List (Inserted V))} {blocks out : List (List (Code V))}
    (h : blocks.mapM (insertAfter calls) = some out) :
    out.map (List.filter isInst) = blocks.map (List.filter isInst) := by
  induction blocks generalizing out with
  | nil =>
    cases h
    rfl
  | cons b blocks ih =>
    obtain ⟨b', out', hb', hout', rfl⟩ := mapM_cons_eq_some.mp h
    rw [List.map_cons, List.map_cons, filter_insertAfter hb', ih hout']

lemma filter_visitBlock {f : Function V} {blocks out : List (List (Code V))} {b : ℕ}
    (h : f.visitBlock blocks b = some out) :
    out.map (List.filter isInst) = blocks.map (List.filter isInst) := by
  rw [Function.visitBlock] at h
  split at h
  · cases h
    rfl
  · next code hcode =>
    obtain ⟨code', hcode', h⟩ := Option.bind_eq_some_iff.mp h
    cases h
    obtain ⟨hlt, rfl⟩ := List.getElem?_eq_some_iff.mp hcode
    rw [List.map_set, filter_insertAfter hcode', ← List.map_set, List.set_getElem_self]

lemma filter_foldlM {β : Type} {step : List (List (Code V)) → β → Option (List (List (Code V)))}
    (hstep : ∀ blocks b out, step blocks b = some out →
      out.map (List.filter isInst) = blocks.map (List.filter isInst))
    {bs : List β} {blocks out : List (List (Code V))} (h : bs.foldlM step blocks = some out) :
    out.map (List.filter isInst) = blocks.map (List.filter isInst) := by
  induction bs generalizing blocks with
  | nil =>
    cases h
    rfl
  | cons b bs ih =>
    rw [List.foldlM_cons] at h
    obtain ⟨blocks', hblocks', h⟩ := Option.bind_eq_some_iff.mp h
    rw [ih h, hstep _ _ _ hblocks']

lemma filter_instrument {f : Function V} {out : List (List (Code V))} (h : f.instrument = some out) :
    out.map (List.filter isInst) = f.blocks.map fun b => b.map .inst := by
  obtain ⟨looped, hlooped, h⟩ := Option.bind_eq_some_iff.mp h
  obtain ⟨defs, hdefs, h⟩ := Option.bind_eq_some_iff.mp h
  obtain ⟨stores, hstores, h⟩ := Option.bind_eq_some_iff.mp h
  rw [filter_mapM h, filter_mapM hstores, filter_mapM hdefs]
  have hloops : ∀ (blocks : List (List (Code V))) (loop : List ℕ) (out : List (List (Code V))),
      loop.foldlM f.visitBlock blocks = some out →
        out.map (List.filter isInst) = blocks.map (List.filter isInst) :=
    fun _ _ _ => filter_foldlM fun _ _ _ => filter_visitBlock
  rw [filter_foldlM hloops hlooped, List.map_map]
  congr 1
  funext b
  apply List.filter_eq_self.mpr
  intro c hc
  obtain ⟨i, -, rfl⟩ := List.mem_map.mp hc
  rfl

lemma filter_code (cs : List (Code V)) :
    (cs.map MainCode.code).filter MainCode.isOrig = (cs.filter isInst).map .code := by
  induction cs with
  | nil => rfl
  | cons c cs ih =>
    cases c with
    | inst i => exact congrArg (_ :: ·) ih
    | report r => exact ih

lemma filter_zexitBlock (M : Module V) (cs : List (Code V)) :
    (M.zexitBlock cs).filter MainCode.isOrig = (cs.filter isInst).map .code := by
  induction cs with
  | nil => rfl
  | cons c cs ih =>
    cases c with
    | inst i =>
      rw [Module.zexitBlock]
      split <;> exact congrArg (_ :: ·) ih
    | report r => exact ih

lemma filter_prologue (defs : List (BitVec 16 × V)) (cs : List (MainCode V)) :
    (Module.prologue defs ++ cs).filter MainCode.isOrig = cs.filter MainCode.isOrig := by
  rw [List.filter_append, List.append_left_eq_self]
  apply List.filter_eq_nil_iff.mpr
  intro c hc
  rcases List.mem_cons.mp hc with rfl | hc
  · exact Bool.false_ne_true
  · obtain ⟨d, -, rfl⟩ := List.mem_map.mp hc
    exact Bool.false_ne_true

lemma filter_runOnFunction {M : Module V} {F : Named V} {body : List (List (MainCode V))}
    (h : M.runOnFunction F = some body) : body.map (List.filter MainCode.isOrig) =
      F.body.blocks.map fun b => b.map fun i => .code (.inst i) := by
  obtain ⟨blocks, hblocks, h⟩ := Option.bind_eq_some_iff.mp h
  have hinst : F.body.blocks.map (fun b => b.map fun i => MainCode.code (.inst i)) =
      (blocks.map (List.filter isInst)).map (List.map .code) := by
    rw [filter_instrument hblocks, List.map_map]
    congr 1
    funext b
    exact (List.map_map ..).symm
  rw [hinst, List.map_map]
  split at h
  · cases blocks with
    | nil =>
      cases h
      rfl
    | cons entry blocks =>
      obtain ⟨defs, -, h⟩ := Option.bind_eq_some_iff.mp h
      obtain rfl := Option.some.inj h
      rw [List.map_cons, List.map_cons, filter_prologue, filter_zexitBlock, List.map_map]
      congr 2
      funext b
      exact filter_zexitBlock M b
  · obtain rfl := Option.some.inj h
    rw [List.map_map]
    congr 1
    funext b
    exact filter_code b

lemma plainCode_eq {M : Module V} {code : List (List (List (MainCode V)))}
    (h : M.runOnModule = some code) :
    M.plainCode = code.map (List.map (List.filter MainCode.isOrig)) := by
  rw [Module.plainCode]
  rw [Module.runOnModule] at h
  generalize M.functions = functions at h ⊢
  induction functions generalizing code with
  | nil =>
    cases h
    rfl
  | cons F functions ih =>
    obtain ⟨body, code', hbody, hcode', rfl⟩ := mapM_cons_eq_some.mp h
    rw [List.map_cons, List.map_cons, filter_runOnFunction hbody, ih hcode']

def Frame.erase (f : Frame V) : Frame V := { f with rest := f.rest.filter MainCode.isOrig }

def Config.erase (c : Config V) : Config V := ⟨c.stack.map Frame.erase, []⟩

def Config.waiting (c : Config V) : ℕ :=
  match c.stack with
  | f :: _ => insertedBefore MainCode.isOrig f.rest
  | [] => 0

lemma waiting_cons (f : Frame V) (below : List (Frame V)) (t : List LibCall) :
    Config.waiting ⟨f :: below, t⟩ = insertedBefore MainCode.isOrig f.rest :=
  rfl

variable {M : Module V} {code : List (List (List (MainCode V)))} {addr : V → Word} {c c' d : Config V}

lemma exists_frame {k : ℕ} {r : List (MainCode V)} {below : List (Frame V)} {t : List LibCall}
    (h : c.erase = ⟨⟨k, r⟩ :: below, t⟩) : ∃ (r' : List (MainCode V)) (below' : List (Frame V)),
      c = ⟨⟨k, r'⟩ :: below', c.trace⟩ ∧ r = r'.filter MainCode.isOrig ∧
        below = below'.map Frame.erase ∧ t = [] := by
  obtain ⟨stack, trace⟩ := c
  obtain ⟨hstack, ht⟩ := Config.mk.inj h
  obtain ⟨f, below', rfl, hf, rfl⟩ := List.map_eq_cons_iff.mp hstack
  obtain ⟨rfl, hr⟩ := Frame.mk.inj hf
  exact ⟨f.rest, below', rfl, hr.symm, rfl, ht.symm⟩

lemma step_waiting (h : Step M code addr c c') (hwait : c.waiting ≠ 0) :
    c'.erase = c.erase ∧ c'.waiting < c.waiting := by
  have hsilent : ∀ {k : ℕ} {i : MainCode V} {r : List (MainCode V)} {below : List (Frame V)}
      {t t' : List LibCall}, i.isOrig = false →
      (⟨⟨k, r⟩ :: below, t'⟩ : Config V).erase = (⟨⟨k, i :: r⟩ :: below, t⟩ : Config V).erase ∧
        (⟨⟨k, r⟩ :: below, t'⟩ : Config V).waiting < (⟨⟨k, i :: r⟩ :: below, t⟩ : Config V).waiting := by
    intro k i r below t t' hi
    rw [waiting_cons, waiting_cons, insertedBefore_cons_of_neg hi]
    refine ⟨?_, Nat.lt_succ_self _⟩
    simp only [Config.erase, Frame.erase, List.map_cons, List.filter_cons, hi, Bool.false_eq_true,
      if_false]
  cases h with
  | zinit | galloca | zexit | report => exact hsilent rfl
  | other | ret | call | callBack | callExternal =>
    rw [waiting_cons, insertedBefore_cons_of_pos rfl] at hwait
    exact absurd rfl hwait
  | br => exact absurd rfl hwait

lemma step_of_waiting (hwait : c.waiting ≠ 0) : ∃ c', Step M code addr c c' := by
  obtain ⟨stack, t⟩ := c
  cases stack with
  | nil => exact absurd rfl hwait
  | cons f below =>
    obtain ⟨k, rest⟩ := f
    obtain ⟨i, r, rfl, hi⟩ := exists_inserted hwait
    cases i with
    | code x =>
      cases x with
      | inst i => cases hi
      | report x => exact ⟨_, .report Host.sampleMemory (fun _ => 0) 0⟩
    | zinit => exact ⟨_, .zinit⟩
    | galloca d gv => exact ⟨_, .galloca Host.sampleMemory⟩
    | zexit => exact ⟨_, .zexit⟩

lemma plain_get (hout : M.runOnModule = some code) (k : ℕ) :
    M.plainCode[k]? = code[k]?.map (List.map (List.filter MainCode.isOrig)) := by
  rw [plainCode_eq hout, List.getElem?_map]

lemma plain_body (hout : M.runOnModule = some code) {k : ℕ} {body : List (List (MainCode V))}
    (h : code[k]? = some body) :
    M.plainCode[k]? = some (body.map (List.filter MainCode.isOrig)) := by
  rw [plain_get hout, h]
  rfl

lemma exists_body (hout : M.runOnModule = some code) {k : ℕ} {b : List (MainCode V)}
    {bs : List (List (MainCode V))} (h : M.plainCode[k]? = some (b :: bs)) :
    ∃ b' bs', code[k]? = some (b' :: bs') ∧ b'.filter MainCode.isOrig = b ∧
      bs'.map (List.filter MainCode.isOrig) = bs := by
  rw [plain_get hout] at h
  obtain ⟨body, hbody, heq⟩ := Option.map_eq_some_iff.mp h
  obtain ⟨b', bs', rfl, hb, hbs⟩ := List.map_eq_cons_iff.mp heq
  exact ⟨b', bs', hbody, hb, hbs⟩

lemma step_erase (hout : M.runOnModule = some code) (h : Step M code addr c c') (h0 : c.waiting = 0) :
    Step M M.plainCode addr c.erase c'.erase := by
  have hwait : ∀ {k : ℕ} {i : MainCode V} {r : List (MainCode V)} {below : List (Frame V)}
      {t : List LibCall}, i.isOrig = false → (⟨⟨k, i :: r⟩ :: below, t⟩ : Config V).waiting ≠ 0 := by
    intro k i r below t hi
    rw [waiting_cons, insertedBefore_cons_of_neg hi]
    exact Nat.succ_ne_zero _
  cases h with
  | zinit | galloca | zexit | report => exact absurd h0 (hwait rfl)
  | other hret hcall => exact .other hret hcall
  | ret hret => exact .ret hret
  | call hop hj hbody => exact .call hop hj (plain_body hout hbody)
  | callBack hop hleaves hbody => exact .callBack hop hleaves (plain_body hout hbody)
  | callExternal hop hleaves => exact .callExternal hop hleaves
  | br hbody hblock => exact .br (plain_body hout hbody) (List.mem_map_of_mem hblock)

lemma not_inserted {i : MainCode V} {r l : List (MainCode V)} (h : i :: r = l.filter MainCode.isOrig) :
    i.isOrig = true := by
  have hmem : i ∈ l.filter MainCode.isOrig := by
    rw [← h]
    exact List.mem_cons_self
  exact (List.mem_filter.mp hmem).2

lemma exists_orig {k : ℕ} {i : MainCode V} {r l : List (MainCode V)} {below : List (Frame V)}
    {t : List LibCall} (hc : c = ⟨⟨k, l⟩ :: below, t⟩) (h : i :: r = l.filter MainCode.isOrig)
    (h0 : c.waiting = 0) : ∃ r', l = i :: r' ∧ r'.filter MainCode.isOrig = r := by
  subst hc
  exact eq_cons_of_filter h.symm h0

lemma step_back (hout : M.runOnModule = some code) (h : Step M M.plainCode addr c.erase d)
    (h0 : c.waiting = 0) : ∃ c', Step M code addr c c' ∧ c'.erase = d := by
  generalize hc : c.erase = e at h
  cases h with
  | zinit | galloca | zexit | report =>
    obtain ⟨l, below', hc', hl, rfl, -⟩ := exists_frame hc
    cases not_inserted hl
  | other hret hcall =>
    obtain ⟨l, below', hc', hl, rfl, rfl⟩ := exists_frame hc
    obtain ⟨r', rfl, rfl⟩ := exists_orig hc' hl h0
    rw [hc']
    exact ⟨_, .other hret hcall, rfl⟩
  | ret hret =>
    obtain ⟨l, below', hc', hl, rfl, rfl⟩ := exists_frame hc
    obtain ⟨r', rfl, rfl⟩ := exists_orig hc' hl h0
    rw [hc']
    exact ⟨_, .ret hret, rfl⟩
  | call hop hj hbody =>
    obtain ⟨l, below', hc', hl, rfl, rfl⟩ := exists_frame hc
    obtain ⟨r', rfl, rfl⟩ := exists_orig hc' hl h0
    obtain ⟨b', bs', hbody', rfl, rfl⟩ := exists_body hout hbody
    rw [hc']
    exact ⟨_, .call hop hj hbody', rfl⟩
  | callBack hop hleaves hbody =>
    obtain ⟨l, below', hc', hl, rfl, rfl⟩ := exists_frame hc
    obtain ⟨r', rfl, rfl⟩ := exists_orig hc' hl h0
    obtain ⟨b', bs', hbody', rfl, rfl⟩ := exists_body hout hbody
    rw [hc']
    exact ⟨_, .callBack hop hleaves hbody', rfl⟩
  | callExternal hop hleaves =>
    obtain ⟨l, below', hc', hl, rfl, rfl⟩ := exists_frame hc
    obtain ⟨r', rfl, rfl⟩ := exists_orig hc' hl h0
    rw [hc']
    exact ⟨_, .callExternal hop hleaves, rfl⟩
  | br hbody hblock =>
    obtain ⟨l, below', hc', hl, rfl, rfl⟩ := exists_frame hc
    obtain ⟨b', bs', hbody', rfl, rfl⟩ := exists_body hout hbody
    obtain ⟨block', hblock', rfl⟩ := List.mem_map.mp hblock
    have hnil : l = [] := by
      rw [hc'] at h0
      exact eq_nil_of_filter hl.symm h0
    rw [hc', hnil]
    exact ⟨_, .br hbody' hblock', rfl⟩

lemma erases (hout : M.runOnModule = some code) (addr : V → Word) :
    Erases (Step M M.plainCode addr) (Step M code addr) Config.erase Config.waiting where
  silent _ _ := step_waiting
  enabled _ := step_of_waiting
  forth _ _ := step_erase hout
  back _ _ := step_back hout

theorem instrumented_transparent (hout : M.runOnModule = some code) (addr : V → Word) (c : Config V) :
    (∀ d, ReflTransGen (Step M M.plainCode addr) c.erase d ↔
      ∃ c', ReflTransGen (Step M code addr) c c' ∧ c'.erase = d) ∧
    (∀ ds, Shows (Step M code addr) Config.erase Config.waiting c ds ↔
      List.IsChain (Step M M.plainCode addr) (c.erase :: ds)) ∧
    (Acc (fun d' d => Step M M.plainCode addr d d') c.erase ↔
      Acc (fun c' c => Step M code addr c c') c) :=
  ⟨(erases hout addr).reachable_iff c, (erases hout addr).shows_iff c, (erases hout addr).acc_iff c⟩

theorem oneGlobal_transparent : ∃ code b c', oneGlobal.runOnModule = some code ∧ code[0]? = some [b] ∧
    ReflTransGen (Step oneGlobal code fun _ => 0x1000) ⟨[⟨0, b⟩], []⟩ c' ∧ c'.erase = ⟨[], []⟩ := by
  have hrun : ∃ code, oneGlobal.runOnModule = some code := ⟨_, rfl⟩
  obtain ⟨code, hcode⟩ := hrun
  have hbody : ∃ b, code[0]? = some [b] ∧
      b.filter MainCode.isOrig = [.code (.inst ⟨0, .other, none, none, none, none⟩)] := by
    cases Option.some.inj hcode
    exact ⟨_, rfl, rfl⟩
  obtain ⟨b, hb, hfilter⟩ := hbody
  have hplain : Step oneGlobal oneGlobal.plainCode (fun _ => 0x1000)
      (⟨[⟨0, b⟩], []⟩ : Config ℕ).erase ⟨[], []⟩ := by
    rw [Config.erase, List.map_singleton, Frame.erase, hfilter]
    exact .ret rfl
  obtain ⟨c', hsteps, he⟩ := ((instrumented_transparent hcode (fun _ => 0x1000)
    ⟨[⟨0, b⟩], []⟩).1 _).mp (.single hplain)
  exact ⟨code, b, c', hcode, hb, hsteps, he⟩

end EntryPoint

end Embedwatch.Pass
