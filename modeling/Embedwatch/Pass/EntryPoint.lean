import Embedwatch.Host.BothModes
import Embedwatch.Library.Lookup
import Embedwatch.Library.Runs
import Embedwatch.Pass.Phases

/-! The calls of the library around `main`: the pass makes it start the library and report the global
variables before anything else, and end the library before it returns. -/

namespace Embedwatch.Pass.EntryPoint

open Library.PlainText Library.Lookup Library.Runs Relation
open Host (Memory Call Event)

variable {V : Type}

structure Global (V : Type) where
  value : V
  zdef : Option Text

structure Named (V : Type) where
  name : Text
  body : Function V

def mainName : Text := ['m', 'a', 'i', 'n']

structure Module (V : Type) where
  globals : List (Global V)
  functions : List (Named V)
  isRet : Inst V → Bool
  nodup : (functions.map Named.name).Nodup
  isRet_op : ∀ i, isRet i = true → i.isCall = false

inductive MainCode (V : Type)
  | code (c : Code V)
  | zinit
  | galloca (defn : BitVec 16) (gv : V)
  | zexit

namespace Module

def globalDefs (M : Module V) : Option (List (BitVec 16 × V)) := do
  let defs ← M.globals.mapM fun g =>
    match g.zdef with
    | none => some []
    | some metadata => (defIds metadata).map fun ids => ids.map fun d => (d, g.value)
  some defs.flatten

def zexitBlock (M : Module V) : List (Code V) → List (MainCode V)
  | [] => []
  | .inst i :: cs =>
    if M.isRet i then .zexit :: .code (.inst i) :: M.zexitBlock cs
    else .code (.inst i) :: M.zexitBlock cs
  | .report r :: cs => .code (.report r) :: M.zexitBlock cs

def prologue (defs : List (BitVec 16 × V)) : List (MainCode V) :=
  .zinit :: defs.map fun d => .galloca d.1 d.2

/-- The first insertion point of the entry block is its first instruction, as no branch leads to the
block. -/
def runOnFunction (M : Module V) (F : Named V) : Option (List (List (MainCode V))) := do
  let blocks ← F.body.instrument
  if F.name = mainName then
    match blocks with
    | [] => some []
    | entry :: blocks => do
      some ((prologue (← M.globalDefs) ++ M.zexitBlock entry) :: blocks.map M.zexitBlock)
  else some (blocks.map fun block => block.map .code)

def runOnModule (M : Module V) : Option (List (List (List (MainCode V)))) :=
  M.functions.mapM M.runOnFunction

def Defines (M : Module V) (name : Text) : Prop :=
  ∃ F ∈ M.functions, F.name = name ∧ F.body.blocks ≠ []

def Leaves (M : Module V) (callee : Option Text) : Prop := ∀ name, callee = some name → ¬ M.Defines name

def Enters (M : Module V) (callee : Option Text) (k : ℕ) : Prop :=
  ∀ name, callee = some name → ∃ F, M.functions[k]? = some F ∧ F.name = name

end Module

structure Frame (V : Type) where
  fn : ℕ
  rest : List (MainCode V)

inductive LibCall
  | zinit
  | call (ev : Event)
  | zexit

def LibCall.isZinit : LibCall → Bool
  | .zinit => true
  | .call _ | .zexit => false

structure Config (V : Type) where
  stack : List (Frame V)
  trace : List LibCall

/-- A global definition is packed without the recursion counter. -/
def globalCall (addr : V → Word) (d : BitVec 16 × V) : Call :=
  .collectAlloca (d.1.setWidth 32 <<< 16) (addr d.2)

inductive Step (M : Module V) (code : List (List (List (MainCode V)))) (addr : V → Word) :
    Config V → Config V → Prop
  | zinit {k r below t} : Step M code addr ⟨⟨k, .zinit :: r⟩ :: below, t⟩
      ⟨⟨k, r⟩ :: below, t ++ [.zinit]⟩
  | galloca {k d gv r below t} (mem : Memory) : Step M code addr
      ⟨⟨k, .galloca d gv :: r⟩ :: below, t⟩
      ⟨⟨k, r⟩ :: below, t ++ [.call (mem, globalCall addr (d, gv))]⟩
  | zexit {k r below t} : Step M code addr ⟨⟨k, .zexit :: r⟩ :: below, t⟩
      ⟨⟨k, r⟩ :: below, t ++ [.zexit]⟩
  | report {k x r below t} (mem : Memory) (env : V → Word) (recCounter : BitVec 16) : Step M code addr
      ⟨⟨k, .code (.report x) :: r⟩ :: below, t⟩
      ⟨⟨k, r⟩ :: below, t ++ [.call (mem, x.eval env recCounter)]⟩
  | other {k i r below t} : M.isRet i = false → i.isCall = false → Step M code addr
      ⟨⟨k, .code (.inst i) :: r⟩ :: below, t⟩ ⟨⟨k, r⟩ :: below, t⟩
  | ret {k i r below t} : M.isRet i = true → Step M code addr
      ⟨⟨k, .code (.inst i) :: r⟩ :: below, t⟩ ⟨below, t⟩
  | call {k i callee args r j b bs below t} : i.op = .call callee args → M.Enters callee j →
      code[j]? = some (b :: bs) → Step M code addr
      ⟨⟨k, .code (.inst i) :: r⟩ :: below, t⟩ ⟨⟨j, b⟩ :: ⟨k, r⟩ :: below, t⟩
  | callBack {k i callee args r j b bs below t} : i.op = .call callee args → M.Leaves callee →
      code[j]? = some (b :: bs) → Step M code addr
      ⟨⟨k, .code (.inst i) :: r⟩ :: below, t⟩ ⟨⟨j, b⟩ :: ⟨k, .code (.inst i) :: r⟩ :: below, t⟩
  | callExternal {k i callee args r below t} : i.op = .call callee args → M.Leaves callee →
      Step M code addr ⟨⟨k, .code (.inst i) :: r⟩ :: below, t⟩ ⟨⟨k, r⟩ :: below, t⟩
  | br {k b block below t} {bs : List (List (MainCode V))} : code[k]? = some (b :: bs) → block ∈ bs →
      Step M code addr ⟨⟨k, []⟩ :: below, t⟩ ⟨⟨k, block⟩ :: below, t⟩

def Reachable (M : Module V) (code : List (List (List (MainCode V)))) (addr : V → Word)
    (c : Config V) : Prop :=
  ∃ m F b bs, M.functions[m]? = some F ∧ F.name = mainName ∧ code[m]? = some (b :: bs) ∧
    ReflTransGen (Step M code addr) ⟨[⟨m, b⟩], []⟩ c

def Config.Once (c : Config V) : Prop := c.trace.countP LibCall.isZinit ≤ 1

def Config.leaving (M : Module V) (c : Config V) : Bool :=
  match c.stack with
  | [] => true
  | [⟨_, .code (.inst i) :: _⟩] => M.isRet i
  | _ => false

def serveCall (cacheEnabled : ℤ) (s : Option Host.State) : LibCall → Option Host.State
  | .zinit => some (Host.zinit cacheEnabled)
  | .call ev => s.map fun s => s.call ev
  | .zexit => s.map Host.State.zexit

def serve (cacheEnabled : ℤ) (t : List LibCall) : Option Host.State :=
  t.foldl (serveCall cacheEnabled) none

variable {M : Module V} {code : List (List (List (MainCode V)))} {addr : V → Word} {c c' : Config V}
  {defs : List (BitVec 16 × V)} {m : ℕ}

def Plain (m : ℕ) (f : Frame V) : Prop := f.fn ≠ m ∧ ∃ cs : List (Code V), f.rest = cs.map .code

def AtStart (M : Module V) (defs : List (BitVec 16 × V)) (m : ℕ) (f : Frame V) : Prop :=
  f.fn = m ∧ ∃ cs, f.rest = Module.prologue defs ++ M.zexitBlock cs

def begun (evs : List Event) : List LibCall := .zinit :: evs.map .call

inductive Bracketed (M : Module V) (addr : V → Word) (defs : List (BitVec 16 × V)) (m : ℕ) :
    Config V → Prop
  | before (cs : List (Code V)) :
    Bracketed M addr defs m ⟨[⟨m, Module.prologue defs ++ M.zexitBlock cs⟩], []⟩
  | starting (evs : List Event) (done rest : List (BitVec 16 × V)) (cs : List (Code V)) :
    defs = done ++ rest → evs.map Prod.snd = done.map (globalCall addr) →
    Bracketed M addr defs m
      ⟨[⟨m, (rest.map fun d => .galloca d.1 d.2) ++ M.zexitBlock cs⟩], begun evs⟩
  | running (evs : List Event) (fs : List (Frame V)) (cs : List (Code V)) :
    defs.map (globalCall addr) <+: evs.map Prod.snd → (∀ f ∈ fs, Plain m f) →
    Bracketed M addr defs m ⟨fs ++ [⟨m, M.zexitBlock cs⟩], begun evs⟩
  | again (evs : List Event) (f : Frame V) (fs : List (Frame V)) (cs : List (Code V)) :
    defs.map (globalCall addr) <+: evs.map Prod.snd → AtStart M defs m f →
    Bracketed M addr defs m ⟨f :: (fs ++ [⟨m, M.zexitBlock cs⟩]), begun evs⟩
  | leaving (evs : List Event) (i : Inst V) (cs : List (Code V)) :
    defs.map (globalCall addr) <+: evs.map Prod.snd → M.isRet i = true →
    Bracketed M addr defs m
      ⟨[⟨m, .code (.inst i) :: M.zexitBlock cs⟩], begun evs ++ [.zexit]⟩
  | left (evs : List Event) : defs.map (globalCall addr) <+: evs.map Prod.snd →
    Bracketed M addr defs m ⟨[], begun evs ++ [.zexit]⟩
  | twice (c : Config V) : ¬ c.Once → Bracketed M addr defs m c

structure Assembled (M : Module V) (code : List (List (List (MainCode V))))
    (defs : List (BitVec 16 × V)) (m : ℕ) : Prop where
  entry : ∀ b bs, code[m]? = some (b :: bs) → ∃ cs, b = Module.prologue defs ++ M.zexitBlock cs
  blocks : ∀ b bs, code[m]? = some (b :: bs) → ∀ block ∈ bs, ∃ cs, block = M.zexitBlock cs
  plain : ∀ k, k ≠ m → ∀ body, code[k]? = some body → ∀ block ∈ body,
    ∃ cs : List (Code V), block = cs.map .code

lemma runOnFunction_main {F : Named V} {b : List (MainCode V)} {bs : List (List (MainCode V))}
    (h : M.runOnFunction F = some (b :: bs)) (hF : F.name = mainName) :
    ∃ defs, M.globalDefs = some defs ∧ (∃ cs, b = Module.prologue defs ++ M.zexitBlock cs) ∧
      ∀ block ∈ bs, ∃ cs, block = M.zexitBlock cs := by
  obtain ⟨blocks, hblocks, h⟩ := Option.bind_eq_some_iff.mp h
  rw [if_pos hF] at h
  cases blocks with
  | nil => cases h
  | cons entry blocks =>
    obtain ⟨defs, hdefs, h⟩ := Option.bind_eq_some_iff.mp h
    obtain ⟨rfl, rfl⟩ := List.cons.inj (Option.some.inj h)
    refine ⟨defs, hdefs, ⟨entry, rfl⟩, fun block hblock => ?_⟩
    obtain ⟨cs, -, rfl⟩ := List.mem_map.mp hblock
    exact ⟨cs, rfl⟩

lemma runOnFunction_plain {F : Named V} {body : List (List (MainCode V))}
    (h : M.runOnFunction F = some body) (hF : F.name ≠ mainName) :
    ∀ block ∈ body, ∃ cs : List (Code V), block = cs.map .code := by
  obtain ⟨blocks, hblocks, h⟩ := Option.bind_eq_some_iff.mp h
  rw [if_neg hF] at h
  obtain rfl := Option.some.inj h
  intro block hblock
  obtain ⟨cs, -, rfl⟩ := List.mem_map.mp hblock
  exact ⟨cs, rfl⟩

lemma runOnModule_getElem? (hout : M.runOnModule = some code) (k : ℕ) :
    (M.functions[k]?).bind M.runOnFunction = code[k]? := by
  rw [Module.runOnModule] at hout
  generalize M.functions = Fs at hout
  induction Fs generalizing code k with
  | nil =>
    cases hout
    rfl
  | cons F Fs ih =>
    obtain ⟨b, bs, hb, hbs, rfl⟩ := mapM_cons_eq_some.mp hout
    cases k with
    | zero => exact hb
    | succ k => exact ih k hbs

theorem assembled (hout : M.runOnModule = some code) {F : Named V} {b : List (MainCode V)}
    {bs : List (List (MainCode V))} (hm : M.functions[m]? = some F) (hF : F.name = mainName)
    (hcode : code[m]? = some (b :: bs)) :
    ∃ defs, M.globalDefs = some defs ∧ Assembled M code defs m := by
  have hfn : M.runOnFunction F = some (b :: bs) := by
    have h := runOnModule_getElem? hout m
    rwa [hm, hcode] at h
  obtain ⟨defs, hdefs, hentry, hblocks⟩ := runOnFunction_main hfn hF
  refine ⟨defs, hdefs, ?_, ?_, fun k hk body hbody => ?_⟩
  · intro b' bs' h
    obtain ⟨rfl, rfl⟩ := List.cons.inj (Option.some.inj (hcode.symm.trans h))
    exact hentry
  · intro b' bs' h
    obtain ⟨rfl, rfl⟩ := List.cons.inj (Option.some.inj (hcode.symm.trans h))
    exact hblocks
  · have h := runOnModule_getElem? hout k
    rw [hbody] at h
    obtain ⟨G, hG, hbody⟩ := Option.bind_eq_some_iff.mp h
    apply runOnFunction_plain hbody
    -- no two functions have the name
    intro hname
    have hget : (M.functions.map Named.name)[k]? = (M.functions.map Named.name)[m]? := by
      rw [List.getElem?_map, List.getElem?_map, hG, hm, Option.map_some, Option.map_some, hname, hF]
    have hlt : k < (M.functions.map Named.name).length := by
      rw [List.length_map]
      exact (List.getElem?_eq_some_iff.mp hG).1
    exact hk ((List.getElem?_inj hlt M.nodup).mp hget)

lemma begun_append (evs : List Event) (ev : Event) : begun evs ++ [.call ev] = begun (evs ++ [ev]) := by
  simp [begun]

lemma countP_begun (evs : List Event) : (begun evs).countP LibCall.isZinit = 1 := by
  rw [begun, List.countP_cons_of_pos rfl, List.countP_eq_zero.mpr]
  intro a ha
  obtain ⟨ev, -, rfl⟩ := List.mem_map.mp ha
  exact Bool.false_ne_true

lemma Step.trace_prefix (h : Step M code addr c c') : c.trace <+: c'.trace := by
  cases h with
  | zinit | galloca mem | zexit | report mem env recCounter => exact List.prefix_append _ _
  | other | ret | call | callBack | callExternal | br => exact List.prefix_rfl

lemma Step.twice (h : Step M code addr c c') (hc : ¬ c.Once) : ¬ c'.Once := by
  have hle := h.trace_prefix.sublist.countP_le (p := LibCall.isZinit)
  rw [Config.Once] at hc ⊢
  omega

lemma running_append {evs : List Event} {fs : List (Frame V)} {cs : List (Code V)} (ev : Event)
    (hdefs : defs.map (globalCall addr) <+: evs.map Prod.snd) (hfs : ∀ f ∈ fs, Plain m f) :
    Bracketed M addr defs m ⟨fs ++ [⟨m, M.zexitBlock cs⟩], begun evs ++ [.call ev]⟩ := by
  rw [begun_append]
  apply Bracketed.running _ _ _ _ hfs
  rw [List.map_append]
  exact hdefs.trans (List.prefix_append _ _)

lemma entered (hcode : Assembled M code defs m) {j : ℕ} {b : List (MainCode V)}
    {bs : List (List (MainCode V))} (hj : code[j]? = some (b :: bs)) :
    AtStart M defs m ⟨j, b⟩ ∨ Plain m ⟨j, b⟩ := by
  by_cases hjm : j = m
  · subst hjm
    exact Or.inl ⟨rfl, hcode.entry b bs hj⟩
  · exact Or.inr ⟨hjm, hcode.plain j hjm _ hj b List.mem_cons_self⟩

lemma bracketed_entered {evs : List Event} {fs : List (Frame V)} {cs : List (Code V)} {f : Frame V}
    (hdefs : defs.map (globalCall addr) <+: evs.map Prod.snd) (hfs : ∀ f ∈ fs, Plain m f)
    (hf : AtStart M defs m f ∨ Plain m f) :
    Bracketed M addr defs m ⟨f :: (fs ++ [⟨m, M.zexitBlock cs⟩]), begun evs⟩ := by
  rcases hf with hf | hf
  · exact Bracketed.again evs f fs cs hdefs hf
  · exact Bracketed.running evs (f :: fs) cs hdefs (List.forall_mem_cons.mpr ⟨hf, hfs⟩)

lemma Step.inst {k : ℕ} {i : Inst V} {r : List (MainCode V)} {below : List (Frame V)}
    {t : List LibCall} (h : Step M code addr ⟨⟨k, .code (.inst i) :: r⟩ :: below, t⟩ c') :
    (M.isRet i = true ∧ c' = ⟨below, t⟩) ∨
      M.isRet i = false ∧ (c' = ⟨⟨k, r⟩ :: below, t⟩ ∨
        ∃ j b bs, code[j]? = some (b :: bs) ∧ (c' = ⟨⟨j, b⟩ :: ⟨k, r⟩ :: below, t⟩ ∨
          c' = ⟨⟨j, b⟩ :: ⟨k, .code (.inst i) :: r⟩ :: below, t⟩)) := by
  have hcall : ∀ {callee args}, i.op = .call callee args → M.isRet i = false := by
    intro callee args hop
    cases hret : M.isRet i with
    | false => rfl
    | true =>
      have hno := M.isRet_op i hret
      simp [Inst.isCall, hop] at hno
  cases h with
  | other hret hop => exact Or.inr ⟨hret, Or.inl rfl⟩
  | ret hret => exact Or.inl ⟨hret, rfl⟩
  | call hop henters hj => exact Or.inr ⟨hcall hop, Or.inr ⟨_, _, _, hj, Or.inl rfl⟩⟩
  | callBack hop hleaves hj => exact Or.inr ⟨hcall hop, Or.inr ⟨_, _, _, hj, Or.inr rfl⟩⟩
  | callExternal hop hleaves => exact Or.inr ⟨hcall hop, Or.inl rfl⟩

lemma step_main (hcode : Assembled M code defs m) {evs : List Event} {cs : List (Code V)}
    (hdefs : defs.map (globalCall addr) <+: evs.map Prod.snd)
    (h : Step M code addr ⟨[⟨m, M.zexitBlock cs⟩], begun evs⟩ c') : Bracketed M addr defs m c' := by
  have hnone : ∀ f ∈ ([] : List (Frame V)), Plain m f := fun f hf => absurd hf List.not_mem_nil
  cases cs with
  | nil =>
    cases h with
    | br hm hblock =>
      obtain ⟨cs, rfl⟩ := hcode.blocks _ _ hm _ hblock
      exact Bracketed.running evs [] cs hdefs hnone
  | cons c cs =>
    cases c with
    | report x =>
      cases h with
      | report mem env recCounter => exact @running_append _ M addr defs m evs [] cs _ hdefs hnone
    | inst i =>
      rw [Module.zexitBlock] at h
      by_cases hret : M.isRet i = true
      · rw [if_pos hret] at h
        cases h with
        | zexit => exact Bracketed.leaving evs i cs hdefs hret
      · rw [if_neg hret] at h
        rcases h.inst with ⟨hret', -⟩ | ⟨-, rfl | ⟨j, b, bs, hj, rfl | rfl⟩⟩
        · exact absurd hret' hret
        · exact Bracketed.running evs [] cs hdefs hnone
        · exact @bracketed_entered _ M addr defs m evs [] cs _ hdefs hnone (entered hcode hj)
        · have hsame : M.zexitBlock (.inst i :: cs) = .code (.inst i) :: M.zexitBlock cs := by
            rw [Module.zexitBlock, if_neg hret]
          rw [← hsame]
          exact @bracketed_entered _ M addr defs m evs [] (.inst i :: cs) _ hdefs hnone
            (entered hcode hj)

lemma step_plain (hcode : Assembled M code defs m) {evs : List Event} {f : Frame V}
    {fs : List (Frame V)} {cs : List (Code V)}
    (hdefs : defs.map (globalCall addr) <+: evs.map Prod.snd) (hf : Plain m f)
    (hfs : ∀ f ∈ fs, Plain m f)
    (h : Step M code addr ⟨f :: (fs ++ [⟨m, M.zexitBlock cs⟩]), begun evs⟩ c') :
    Bracketed M addr defs m c' := by
  obtain ⟨k, rest⟩ := f
  obtain ⟨hk, ds, hds⟩ := hf
  obtain rfl : rest = ds.map .code := hds
  have hnext : ∀ ds : List (Code V), ∀ f ∈ (⟨k, ds.map .code⟩ : Frame V) :: fs, Plain m f :=
    fun ds => List.forall_mem_cons.mpr ⟨⟨hk, ds, rfl⟩, hfs⟩
  cases ds with
  | nil =>
    cases h with
    | br hb hblock =>
      obtain ⟨ds, rfl⟩ := hcode.plain k hk _ hb _ (List.mem_cons_of_mem _ hblock)
      exact Bracketed.running evs (⟨k, ds.map .code⟩ :: fs) cs hdefs (hnext ds)
  | cons d ds =>
    cases d with
    | report x =>
      cases h with
      | report mem env recCounter =>
        exact @running_append _ M addr defs m evs (⟨k, ds.map .code⟩ :: fs) cs _ hdefs (hnext ds)
    | inst i =>
      rcases Step.inst h with ⟨-, rfl⟩ | ⟨-, rfl | ⟨j, b, bs, hj, rfl | rfl⟩⟩
      · exact Bracketed.running evs fs cs hdefs hfs
      · exact Bracketed.running evs (⟨k, ds.map .code⟩ :: fs) cs hdefs (hnext ds)
      · exact @bracketed_entered _ M addr defs m evs (⟨k, ds.map .code⟩ :: fs) cs _ hdefs (hnext ds)
          (entered hcode hj)
      · exact @bracketed_entered _ M addr defs m evs (⟨k, (.inst i :: ds).map .code⟩ :: fs) cs _ hdefs
          (hnext (.inst i :: ds)) (entered hcode hj)

theorem step_bracketed (hcode : Assembled M code defs m) (hb : Bracketed M addr defs m c)
    (h : Step M code addr c c') : Bracketed M addr defs m c' := by
  cases hb with
  | before cs =>
    cases h with
    | zinit => exact Bracketed.starting [] [] defs cs rfl rfl
  | starting evs done rest cs hsplit hevs =>
    cases rest with
    | nil =>
      apply step_main hcode _ h
      rw [hevs, hsplit, List.append_nil]
    | cons d rest =>
      cases h with
      | galloca mem =>
        rw [begun_append]
        apply Bracketed.starting _ (done ++ [d]) rest cs
        · rw [hsplit, List.append_assoc, List.singleton_append]
        · rw [List.map_append, hevs, List.map_append]
          rfl
  | running evs fs cs hdefs hfs =>
    cases fs with
    | nil => exact step_main hcode hdefs h
    | cons f fs =>
      obtain ⟨hf, hfs⟩ := List.forall_mem_cons.mp hfs
      exact step_plain hcode hdefs hf hfs h
  | again evs f fs cs hdefs hf =>
    obtain ⟨k, rest⟩ := f
    obtain ⟨-, ds, hds⟩ := hf
    obtain rfl : rest = Module.prologue defs ++ M.zexitBlock ds := hds
    cases h with
    | zinit =>
      apply Bracketed.twice
      rw [Config.Once, List.countP_append, countP_begun]
      decide
  | leaving evs i cs hdefs hret =>
    rcases h.inst with ⟨-, rfl⟩ | ⟨hret', -⟩
    · exact Bracketed.left evs hdefs
    · rw [hret] at hret'
      cases hret'
  | left evs hdefs => cases h
  | twice _ hc => exact Bracketed.twice _ (h.twice hc)

lemma bracketed_of_reachable (hout : M.runOnModule = some code) (h : Reachable M code addr c) :
    ∃ m defs, M.globalDefs = some defs ∧ Bracketed M addr defs m c := by
  obtain ⟨m, F, b, bs, hm, hF, hcode, hrun⟩ := h
  obtain ⟨defs, hdefs, hall⟩ := assembled hout hm hF hcode
  refine ⟨m, defs, hdefs, ?_⟩
  induction hrun with
  | refl =>
    obtain ⟨cs, rfl⟩ := hall.entry b bs hcode
    exact Bracketed.before cs
  | tail _ hstep ih => exact step_bracketed hall ih hstep

lemma foldl_call (cacheEnabled : ℤ) (s : Host.State) (evs : List Event) :
    (evs.map LibCall.call).foldl (serveCall cacheEnabled) (some s) =
      some (run Host.State.call s evs) := by
  induction evs generalizing s with
  | nil => rfl
  | cons ev evs ih => exact ih (s.call ev)

lemma serve_begun (cacheEnabled : ℤ) (evs : List Event) : serve cacheEnabled (begun evs) =
    some (run Host.State.call (Host.zinit cacheEnabled) evs) :=
  foldl_call cacheEnabled (Host.zinit cacheEnabled) evs

lemma serve_zexit (cacheEnabled : ℤ) (evs : List Event) :
    serve cacheEnabled (begun evs ++ [.zexit]) =
      some (run Host.State.call (Host.zinit cacheEnabled) evs).zexit := by
  have hbegun := serve_begun cacheEnabled evs
  rw [serve] at hbegun ⊢
  rw [List.foldl_append, hbegun]
  rfl

lemma not_leaving_zexitBlock (cs : List (Code V)) (t : List LibCall) :
    (⟨[⟨m, M.zexitBlock cs⟩], t⟩ : Config V).leaving M = false := by
  cases cs with
  | nil => rfl
  | cons c cs =>
    cases c with
    | report x => rfl
    | inst i =>
      rw [Module.zexitBlock]
      cases hret : M.isRet i with
      | true => rfl
      | false =>
        simp only [Bool.false_eq_true, if_false, Config.leaving]
        exact hret

lemma not_leaving_below (f g : Frame V) (fs : List (Frame V)) (t : List LibCall) :
    (⟨f :: g :: fs, t⟩ : Config V).leaving M = false := by
  simp [Config.leaving]

lemma not_leaving_append (fs : List (Frame V)) (cs : List (Code V)) (t : List LibCall) :
    (⟨fs ++ [⟨m, M.zexitBlock cs⟩], t⟩ : Config V).leaving M = false := by
  cases fs with
  | nil => exact not_leaving_zexitBlock cs t
  | cons f fs =>
    cases fs with
    | nil => exact not_leaving_below f _ [] t
    | cons g fs => exact not_leaving_below f g _ t

def oneGlobal : Module ℕ where
  globals := [⟨7, some ['4', '_', '5']⟩]
  functions := [⟨mainName, ⟨[], [[⟨0, .other, none, none, none, none⟩]], [], List.nodup_nil⟩⟩]
  isRet i := i.value = 0 && !i.isCall
  nodup := List.nodup_singleton _
  isRet_op i hi := by simpa using (Bool.and_eq_true_iff.mp hi).2

lemma oneGlobal_run (addr : ℕ → Word) (mem : Memory) : ∃ code,
    oneGlobal.runOnModule = some code ∧ Reachable oneGlobal code addr ⟨[], .zinit ::
      [.call (mem, globalCall addr (4, 7)), .call (mem, globalCall addr (5, 7)), .zexit]⟩ := by
  have hrun : ∃ code, oneGlobal.runOnModule = some code := ⟨_, rfl⟩
  obtain ⟨code, hcode⟩ := hrun
  cases Option.some.inj hcode
  refine ⟨_, rfl, 0, _, _, _, rfl, rfl, rfl, ?_⟩
  apply ReflTransGen.head Step.zinit
  apply ReflTransGen.head (Step.galloca mem)
  apply ReflTransGen.head (Step.galloca mem)
  apply ReflTransGen.head Step.zexit
  exact ReflTransGen.single (Step.ret rfl)

end Embedwatch.Pass.EntryPoint
