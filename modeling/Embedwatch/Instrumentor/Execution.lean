import Embedwatch.Instrumentor.Erasure
import Embedwatch.Library.Simulation

/-! What modules do when they run, and that the pass keeps it: the module that it leaves runs in lock-step
with the one it was given. -/

namespace Embedwatch.Instrumentor

open Library.PlainText Library.Lookup Library.Simulation Ir

variable {Val Mem : Type}

inductive Outcome (Val Mem : Type)
  | next (value : Option Val) (mem : Mem)
  | jump (position : ℕ) (mem : Mem)
  | ret (value : Option Val) (mem : Mem)

structure Machine (Val Mem : Type) where
  const : ℤ → Ty → Val
  packed : BitVec 16 → Val
  perform : ℕ → List (Option Val) → Mem → Outcome Val Mem → Prop
  external : ℕ → List (Option Val) → Mem → Option Val → Mem → Prop
  target : List (Option Val) → Option (ℕ × List (Option Val))

structure Frame (Val : Type) where
  function : Function
  position : ℕ
  args : List (Option Val)
  values : ℕ → Option Val

inductive State (Val Mem : Type)
  | running (frame : Frame Val) (below : List (Frame Val)) (mem : Mem)
  | returned (value : Option Val) (mem : Mem)

def State.observed : State Val Mem → Mem × Option (Option Val)
  | running _ _ mem => (mem, none)
  | returned value mem => (mem, some value)

inductive Act (Val : Type)
  | perform (n : ℕ) (operands : List (Option Val))
  | call (pointer : Bool) (callee : ℕ) (args : List (Option Val))

def Frame.begin (f : Function) (args : List (Option Val)) : Frame Val := ⟨f, 0, args, fun _ => none⟩

def Frame.inst (fr : Frame Val) : Option Inst := fr.function.code[fr.position]?

def Frame.give (fr : Frame Val) (value : Option Val) : Frame Val :=
  match fr.inst with
  | some i => { fr with
      position := fr.position + 1
      values := Function.update fr.values i.value value }
  | none => fr

def giveBack (value : Option Val) (mem : Mem) : List (Frame Val) → State Val Mem
  | [] => .returned value mem
  | fr :: frs => .running (fr.give value) frs mem

namespace Machine

variable (M : Machine Val Mem)

def value (fr : Frame Val) (o : Operand) : Option Val :=
  match o.source with
  | .inst v => fr.values v
  | .arg k => fr.args[k]?.join
  | .const c => some (M.const c o.type)
  | .packed id => some (M.packed id)

def act (fr : Frame Val) : Option (Act Val) :=
  fr.inst.bind fun i =>
    let operands := i.operands.map (M.value fr)
    match i.op with
    | .call (some callee) => some (.call false callee operands)
    | .call none => (M.target operands).map fun call => .call true call.1 call.2
    | .other n => some (.perform n operands)

inductive Step (m : Module) : State Val Mem → State Val Mem → Prop
  | next {fr frs mem n operands value mem'} (hact : M.act fr = some (.perform n operands))
      (h : M.perform n operands mem (.next value mem')) :
      Step m (.running fr frs mem) (.running (fr.give value) frs mem')
  | jump {fr frs mem n operands position mem'} (hact : M.act fr = some (.perform n operands))
      (h : M.perform n operands mem (.jump position mem')) :
      Step m (.running fr frs mem) (.running { fr with position := position } frs mem')
  | ret {fr frs mem n operands value mem'} (hact : M.act fr = some (.perform n operands))
      (h : M.perform n operands mem (.ret value mem')) :
      Step m (.running fr frs mem) (giveBack value mem' frs)
  | enter {fr frs mem pointer callee args f} (hact : M.act fr = some (.call pointer callee args))
      (hf : f ∈ m.functions) (href : f.ref = callee) (hbody : f.body ≠ none) :
      Step m (.running fr frs mem) (.running (.begin f args) (fr :: frs) mem)
  | external {fr frs mem pointer callee args f value mem'}
      (hact : M.act fr = some (.call pointer callee args)) (hf : f ∈ m.functions) (href : f.ref = callee)
      (hbody : f.body = none) (h : M.external callee args mem value mem') :
      Step m (.running fr frs mem) (.running (fr.give value) frs mem')

end Machine

def InScope (f : Function) (o : Operand) : Prop :=
  match o.source with
  | .inst v => v ∈ f.code.map Inst.value
  | .arg k => k < f.params.length
  | .const _ | .packed _ => True

def Scoped (m : Module) : Prop :=
  ∀ f ∈ m.functions, ∀ i ∈ f.code, ∀ o ∈ i.operands, InScope f o

structure Linked (m m' : Module) (clones : List (ℕ × ℕ)) : Prop where
  refs : (m'.functions.map Function.ref).Nodup
  kept : ∀ f ∈ m.functions, (∀ c, (f.ref, c) ∉ clones) →
    ∃ g ∈ m'.functions, g.ref = f.ref ∧ Version m m' clones f g
  cloned : ∀ f ∈ m.functions, ∀ c ∈ m'.functions, (f.ref, c.ref) ∈ clones →
    f.body ≠ none ∧ Version m m' clones f c
  counted : ∀ f ∈ m.functions, ∀ c, (f.ref, c) ∈ clones → ∀ i ∈ m.code, i.op = .call (some f.ref) →
    i.operands.length = f.params.length

variable {r : Renaming} {order : List (ℕ × Inst) → List (ℕ × Inst)} {m m' : Module} {s : Run}
  {f g c : Function} {cs : List Function} {clones : List (ℕ × ℕ)}

lemma Done.mem_cloned_iff (h : Done m cs s) (hwf : m.WellFormed) (hf : f ∈ m.functions) :
    f ∈ cloned m ↔ ∃ c, (f.ref, c) ∈ s.clones := by
  constructor
  · intro hcloned
    obtain ⟨c, hmem⟩ := h.exists_clone hcloned
    exact ⟨c.ref, h.mem_clones.mpr ⟨f, c, hmem, rfl⟩⟩
  · rintro ⟨c, hc⟩
    obtain ⟨f', c', hmem, heq⟩ := h.mem_clones.mp hc
    obtain ⟨hf', hfm', -, -⟩ := h.mem_of_mem_zip hmem
    rwa [ref_inj hwf hfm' hf (congrArg Prod.fst heq)]

lemma Done.linked (h : Done m cs s) (hwf : m.WellFormed) (hfree : ∀ g ∈ cloned m, Free m g)
    (horder : ∀ l, (order l).Perm l) (hcounted : Counted m) :
    Linked m (leftover s order) s.clones := by
  have hrefs : ((s.module.functions.map (replaceCalls (replacedCalls s order))).map Function.ref) =
      s.module.functions.map Function.ref := by
    rw [List.map_map]
    rfl
  refine ⟨?_, ?_, ?_, ?_⟩
  · have hsub : ((leftover s order).functions.map Function.ref).Sublist
        (s.module.functions.map Function.ref) := by
      rw [← hrefs]
      exact List.filter_sublist.map Function.ref
    exact List.Nodup.sublist hsub h.wellFormed.refs
  · intro f hf hkept
    have hname : f.name ∉ s.instrumented.map Prod.fst := by
      rw [h.keys, mem_names hwf hfree hf, h.mem_cloned_iff hwf hf]
      exact fun hc => hkept hc.choose hc.choose_spec
    have hfs : f ∈ s.module.functions := h.functions ▸ List.mem_append_left _ hf
    exact ⟨_, mem_leftover.mpr ⟨f, hfs, hname, rfl⟩, rfl,
      h.version hwf hfree horder hcounted hf hfs hname (map_shift_zero _).symm (Or.inl rfl)⟩
  · intro f hf g hg hclone
    obtain ⟨c, hc, hname, rfl⟩ := mem_leftover.mp hg
    obtain ⟨f', c', hmem, heq⟩ := h.mem_clones.mp hclone
    obtain ⟨hf', hfm', -, hc'⟩ := h.mem_of_mem_zip hmem
    obtain rfl := ref_inj hwf hfm' hf (congrArg Prod.fst heq)
    obtain rfl := ref_inj h.wellFormed hc' hc (congrArg Prod.snd heq)
    obtain ⟨d, hbody⟩ := (h.isClone_of_mem hmem).body
    obtain ⟨k, -, hi⟩ := mem_cloned.mp hf'
    exact ⟨hi.1, h.version hwf hfree horder hcounted hf hc hname hbody (Or.inr hclone)⟩
  · intro f hf c hclone
    exact hcounted f ((h.mem_cloned_iff hwf hf).mpr ⟨c, hclone⟩)

structure Matching (m m' : Module) (clones : List (ℕ × ℕ)) (fr fr' : Frame Val) : Prop where
  original : fr.function ∈ m.functions
  position : fr'.position = fr.position
  args : ∃ ids, fr'.args = fr.args ++ ids ∧ (ids = [] ∨ fr.function.params.length ≤ fr.args.length)
  code : ∃ σ, Set.InjOn σ {v | v ∈ fr.function.code.map Inst.value} ∧
    Option.Rel (List.Forall₂ (CallRedirected m m' clones σ)) fr.function.body fr'.function.body ∧
    ∀ v ∈ fr.function.code.map Inst.value, fr'.values (σ v) = fr.values v

inductive Corresponds (m m' : Module) (clones : List (ℕ × ℕ)) : State Val Mem → State Val Mem → Prop
  | running {fr fr' frs frs' mem} (h : Matching m m' clones fr fr')
      (hbelow : List.Forall₂ (Matching m m' clones) frs frs') :
      Corresponds m m' clones (.running fr frs mem) (.running fr' frs' mem)
  | returned (value : Option Val) (mem : Mem) :
      Corresponds m m' clones (.returned value mem) (.returned value mem)

lemma Corresponds.observed {t t' : State Val Mem} (h : Corresponds m m' clones t t') :
    t.observed = t'.observed := by
  cases h <;> rfl

lemma getElem?_code {R : Inst → Inst → Prop} (h : Option.Rel (List.Forall₂ R) f.body g.body) (k : ℕ) :
    Option.Rel R f.code[k]? g.code[k]? := by
  rw [Function.code, Function.code]
  generalize f.body = body at h
  generalize g.body = body' at h
  cases h with
  | none => simp
  | @some code code' hcode =>
    rw [Option.getD_some, Option.getD_some]
    induction hcode generalizing k with
    | nil => simp
    | cons hab _ ih =>
      cases k with
      | zero => exact Option.Rel.some hab
      | succ k => exact ih k

lemma code_cases {R : Inst → Inst → Prop} (h : Option.Rel (List.Forall₂ R) f.body g.body) (k : ℕ) :
    (f.code[k]? = none ∧ g.code[k]? = none) ∨
    ∃ i j, f.code[k]? = some i ∧ g.code[k]? = some j ∧ R i j := by
  have hinst := getElem?_code h k
  generalize f.code[k]? = i? at hinst
  generalize g.code[k]? = j? at hinst
  cases hinst with
  | none => exact Or.inl ⟨rfl, rfl⟩
  | @some i j hij => exact Or.inr ⟨i, j, rfl, rfl, hij⟩

variable {M : Machine Val Mem} {fr fr' : Frame Val} {frs frs' : List (Frame Val)}

lemma matching_begin (hf : f ∈ m.functions) (hversion : Version m m' clones f g)
    {args ids : List (Option Val)} (hids : ids = [] ∨ f.params.length ≤ args.length) :
    Matching m m' clones (.begin f args) (.begin g (args ++ ids)) := by
  obtain ⟨-, σ, hσ, hcode⟩ := hversion
  exact ⟨hf, rfl, ⟨ids, rfl, hids⟩, σ, hσ, hcode, fun v _ => rfl⟩

lemma Matching.jump (h : Matching m m' clones fr fr') (position : ℕ) :
    Matching m m' clones { fr with position := position } { fr' with position := position } :=
  ⟨h.original, rfl, h.args, h.code⟩

lemma Matching.give (h : Matching m m' clones fr fr') (value : Option Val) :
    Matching m m' clones (fr.give value) (fr'.give value) := by
  obtain ⟨σ, hσ, hcode, hvalues⟩ := h.code
  rw [Frame.give, Frame.give, Frame.inst, Frame.inst, h.position]
  rcases code_cases hcode fr.position with ⟨hi, hj⟩ | ⟨i, j, hi, hj, hij⟩
  · rw [hi, hj]
    exact h
  · rw [hi, hj]
    refine ⟨h.original, rfl, h.args, σ, hσ, hcode, fun v hv => ?_⟩
    have hmem : i.value ∈ fr.function.code.map Inst.value :=
      List.mem_map_of_mem (List.mem_of_getElem? hi)
    dsimp only
    rw [hij.1]
    by_cases hvi : v = i.value
    · rw [hvi, Function.update_self, Function.update_self]
    · have hne : σ v ≠ σ i.value := fun heq => hvi (hσ hv hmem heq)
      rw [Function.update_of_ne hvi, Function.update_of_ne hne]
      exact hvalues v hv

lemma value_subst {σ : ℕ → ℕ} {o : Operand} (hscope : InScope fr.function o)
    (hargs : ∃ ids, fr'.args = fr.args ++ ids ∧
      (ids = [] ∨ fr.function.params.length ≤ fr.args.length))
    (hvalues : ∀ v ∈ fr.function.code.map Inst.value, fr'.values (σ v) = fr.values v) :
    M.value fr' (o.subst σ) = M.value fr o := by
  obtain ⟨source, type⟩ := o
  cases source with
  | inst v => exact hvalues v hscope
  | arg k =>
    have hk : k < fr.function.params.length := hscope
    obtain ⟨ids, heq, hids⟩ := hargs
    have hget : fr'.args[k]? = fr.args[k]? := by
      rcases hids with rfl | hlength
      · rw [heq, List.append_nil]
      · rw [heq, List.getElem?_append_left (by omega)]
    exact congrArg Option.join hget
  | const | packed => rfl

def GoesToKept (m : Module) (clones : List (ℕ × ℕ)) (callee : ℕ) : Prop :=
  ∃ f ∈ m.functions, f.ref = callee ∧ ∀ c, (f.ref, c) ∉ clones

inductive SameAct (m m' : Module) (clones : List (ℕ × ℕ)) :
    Option (Act Val) → Option (Act Val) → Prop
  | none : SameAct m m' clones none none
  | perform (n operands) : SameAct m m' clones (some (.perform n operands)) (some (.perform n operands))
  | call (pointer callee args) (h : pointer = false → GoesToKept m clones callee) :
      SameAct m m' clones (some (.call pointer callee args)) (some (.call pointer callee args))
  | redirected (callee clone args ids) (h : ∃ f ∈ m.functions, ∃ c ∈ m'.functions, f.ref = callee ∧
      c.ref = clone ∧ (f.ref, c.ref) ∈ clones ∧ f.params.length ≤ args.length) :
      SameAct m m' clones (some (.call false callee args)) (some (.call false clone (args ++ ids)))

lemma Matching.act (h : Matching m m' clones fr fr') (hwf : m.WellFormed) (hscoped : Scoped m)
    (hlinked : Linked m m' clones) : SameAct m m' clones (M.act fr) (M.act fr') := by
  obtain ⟨σ, -, hcode, hvalues⟩ := h.code
  rw [Machine.act, Machine.act, Frame.inst, Frame.inst, h.position]
  rcases code_cases hcode fr.position with ⟨hi, hj⟩ | ⟨i, j, hi, hj, hij⟩
  · rw [hi, hj]
    exact SameAct.none
  · rw [hi, hj]
    have himem := List.mem_of_getElem? hi
    have hicode : i ∈ m.code := mem_code_of_mem h.original himem
    have hoperands : (i.operands.map (·.subst σ)).map (M.value fr') = i.operands.map (M.value fr) := by
      rw [List.map_map]
      apply List.map_congr_left
      intro o ho
      exact value_subst (hscoped _ h.original i himem o ho) h.args hvalues
    rw [Option.bind_some, Option.bind_some]
    dsimp only
    rcases hij.2 with ⟨f, hf, c, hc, hop, hclone, hop', hops, -⟩ | ⟨hother, hop, hops⟩
    · rw [hop, hop', hops, List.map_append, hoperands]
      refine SameAct.redirected f.ref c.ref _ _ ⟨f, hf, c, hc, rfl, rfl, hclone, ?_⟩
      rw [List.length_map, hlinked.counted f hf c.ref hclone i hicode hop]
    · rw [hop, hops, hoperands]
      cases hcall : i.op with
      | other n => exact SameAct.perform n _
      | call callee =>
        cases callee with
        | none =>
          cases M.target (i.operands.map (M.value fr)) with
          | none => exact SameAct.none
          | some call => exact SameAct.call true _ _ fun h => absurd h (by decide)
        | some callee =>
          refine SameAct.call false callee _ fun _ => ?_
          obtain ⟨f, hf, href, -⟩ := hwf.typed i hicode callee hcall
          refine ⟨f, hf, href, fun c => ?_⟩
          rw [href]
          exact hother callee c hcall

lemma GoesToKept.version {callee : ℕ} (h : GoesToKept m clones callee) (hlinked : Linked m m' clones) :
    ∃ f ∈ m.functions, ∃ g ∈ m'.functions, f.ref = callee ∧ g.ref = callee ∧
      Version m m' clones f g := by
  obtain ⟨f, hf, rfl, hkept⟩ := h
  obtain ⟨g, hg, href, hversion⟩ := hlinked.kept f hf hkept
  exact ⟨f, hf, g, hg, rfl, href, hversion⟩

lemma Version.body_eq_none (h : Version m m' clones f g) : f.body = none ↔ g.body = none := by
  obtain ⟨-, σ, -, hcode⟩ := h
  generalize f.body = body at hcode
  generalize g.body = body' at hcode
  cases hcode with
  | none => exact Iff.rfl
  | some _ => simp

def Machine.CallsPointer (M : Machine Val Mem) : State Val Mem → ℕ → Prop
  | .running fr _ _, callee => ∃ args, M.act fr = some (.call true callee args)
  | .returned _ _, _ => False

section Steps

variable {t t' u u' : State Val Mem}

lemma goesToKept_of_act {pointer : Bool} {callee : ℕ} {args : List (Option Val)} {mem : Mem}
    (hact : M.act fr = some (.call pointer callee args))
    (hkept : pointer = false → GoesToKept m clones callee)
    (hpointer : ∀ callee, M.CallsPointer (.running fr frs mem) callee → GoesToKept m clones callee) :
    GoesToKept m clones callee := by
  cases pointer with
  | false => exact hkept rfl
  | true => exact hpointer callee ⟨args, hact⟩

lemma matching_begin_kept (hf : f ∈ m.functions) (hversion : Version m m' clones f g)
    (args : List (Option Val)) : Matching m m' clones (.begin f args) (.begin g args) := by
  have h : Matching m m' clones (.begin f args) (.begin g (args ++ [])) :=
    matching_begin hf hversion (Or.inl rfl)
  rwa [List.append_nil] at h

lemma corresponds_giveBack (hbelow : List.Forall₂ (Matching m m' clones) frs frs') (value : Option Val)
    (mem : Mem) : Corresponds m m' clones (giveBack value mem frs) (giveBack value mem frs') := by
  cases hbelow with
  | nil => exact Corresponds.returned value mem
  | cons h hbelow => exact Corresponds.running (h.give value) hbelow

variable (hwf : m.WellFormed) (hscoped : Scoped m) (hlinked : Linked m m' clones)

include hwf hscoped hlinked

lemma Corresponds.forth (h : Corresponds m m' clones t t')
    (hpointer : ∀ callee, M.CallsPointer t callee → GoesToKept m clones callee)
    (hstep : M.Step m t u) : ∃ u', M.Step m' t' u' ∧ Corresponds m m' clones u u' := by
  cases h with
  | returned => cases hstep
  | @running fr fr' frs frs' mem h hbelow =>
    have hsame := h.act (M := M) hwf hscoped hlinked
    generalize hact' : M.act fr' = act' at hsame
    cases hstep with
    | next hact hperform =>
      rw [hact] at hsame
      cases hsame
      exact ⟨_, .next hact' hperform, .running (h.give _) hbelow⟩
    | jump hact hperform =>
      rw [hact] at hsame
      cases hsame
      exact ⟨_, .jump hact' hperform, .running (h.jump _) hbelow⟩
    | ret hact hperform =>
      rw [hact] at hsame
      cases hsame
      exact ⟨_, .ret hact' hperform, corresponds_giveBack hbelow _ _⟩
    | @enter _ _ _ pointer callee args f hact hf href hbody =>
      rw [hact] at hsame
      cases hsame with
      | call _ _ _ hkept =>
        obtain ⟨f', hf', g, hg, href', hgref, hversion⟩ :=
          (goesToKept_of_act hact hkept hpointer).version hlinked
        obtain rfl := ref_inj hwf hf hf' (href'.trans href.symm)
        exact ⟨_, .enter hact' hg hgref (fun hnone => hbody (hversion.body_eq_none.mpr hnone)),
          .running (matching_begin_kept hf hversion args) (.cons h hbelow)⟩
      | redirected _ clone _ ids hclone =>
        obtain ⟨f', hf', c, hc, href', rfl, hmem, hlength⟩ := hclone
        obtain rfl := ref_inj hwf hf hf' (href'.trans href.symm)
        obtain ⟨-, hversion⟩ := hlinked.cloned f' hf' c hc hmem
        exact ⟨_, .enter hact' hc rfl (fun hnone => hbody (hversion.body_eq_none.mpr hnone)),
          .running (matching_begin hf' hversion (Or.inr hlength)) (.cons h hbelow)⟩
    | @external _ _ _ pointer callee args f value mem' hact hf href hbody hexternal =>
      rw [hact] at hsame
      cases hsame with
      | call _ _ _ hkept =>
        obtain ⟨f', hf', g, hg, href', hgref, hversion⟩ :=
          (goesToKept_of_act hact hkept hpointer).version hlinked
        obtain rfl := ref_inj hwf hf hf' (href'.trans href.symm)
        exact ⟨_, .external hact' hg hgref (hversion.body_eq_none.mp hbody) hexternal,
          .running (h.give _) hbelow⟩
      | redirected _ clone _ ids hclone =>
        obtain ⟨f', hf', c, hc, href', rfl, hmem, -⟩ := hclone
        obtain rfl := ref_inj hwf hf hf' (href'.trans href.symm)
        exact absurd hbody (hlinked.cloned f' hf' c hc hmem).1

lemma Corresponds.back (h : Corresponds m m' clones t t')
    (hpointer : ∀ callee, M.CallsPointer t callee → GoesToKept m clones callee)
    (hstep : M.Step m' t' u') : ∃ u, M.Step m t u ∧ Corresponds m m' clones u u' := by
  cases h with
  | returned => cases hstep
  | @running fr fr' frs frs' mem h hbelow =>
    have hsame := h.act (M := M) hwf hscoped hlinked
    generalize hact : M.act fr = act at hsame
    have href_inj : ∀ g ∈ m'.functions, ∀ g' ∈ m'.functions, g.ref = g'.ref → g = g' :=
      fun g hg g' hg' href => List.inj_on_of_nodup_map hlinked.refs hg hg' href
    cases hstep with
    | next hact' hperform =>
      rw [hact'] at hsame
      cases hsame
      exact ⟨_, .next hact hperform, .running (h.give _) hbelow⟩
    | jump hact' hperform =>
      rw [hact'] at hsame
      cases hsame
      exact ⟨_, .jump hact hperform, .running (h.jump _) hbelow⟩
    | ret hact' hperform =>
      rw [hact'] at hsame
      cases hsame
      exact ⟨_, .ret hact hperform, corresponds_giveBack hbelow _ _⟩
    | @enter _ _ _ pointer callee args g hact' hg hgref hbody =>
      rw [hact'] at hsame
      cases hsame with
      | call _ _ _ hkept =>
        obtain ⟨f, hf, g', hg', href, hgref', hversion⟩ :=
          (goesToKept_of_act hact hkept hpointer).version hlinked
        obtain rfl := href_inj g hg g' hg' (hgref.trans hgref'.symm)
        exact ⟨_, .enter hact hf href (fun hnone => hbody (hversion.body_eq_none.mp hnone)),
          .running (matching_begin_kept hf hversion args) (.cons h hbelow)⟩
      | redirected callee _ args ids hclone =>
        obtain ⟨f, hf, c, hc, rfl, hcref, hmem, hlength⟩ := hclone
        obtain rfl := href_inj g hg c hc (hgref.trans hcref.symm)
        obtain ⟨hfbody, hversion⟩ := hlinked.cloned f hf g hg hmem
        exact ⟨_, .enter hact hf rfl hfbody,
          .running (matching_begin hf hversion (Or.inr hlength)) (.cons h hbelow)⟩
    | @external _ _ _ pointer callee args g value mem' hact' hg hgref hbody hexternal =>
      rw [hact'] at hsame
      cases hsame with
      | call _ _ _ hkept =>
        obtain ⟨f, hf, g', hg', href, hgref', hversion⟩ :=
          (goesToKept_of_act hact hkept hpointer).version hlinked
        obtain rfl := href_inj g hg g' hg' (hgref.trans hgref'.symm)
        exact ⟨_, .external hact hf href (hversion.body_eq_none.mpr hbody) hexternal,
          .running (h.give _) hbelow⟩
      | redirected callee _ args ids hclone =>
        obtain ⟨f, hf, c, hc, rfl, hcref, hmem, -⟩ := hclone
        obtain rfl := href_inj g hg c hc (hgref.trans hcref.symm)
        obtain ⟨hfbody, hversion⟩ := hlinked.cloned f hf g hg hmem
        exact absurd (hversion.body_eq_none.mpr hbody) hfbody

end Steps

def State.start (f : Function) (args : List (Option Val)) (mem : Mem) : State Val Mem :=
  .running (.begin f args) [] mem

def echo : Function :=
  ⟨0, ['f'], [⟨['p'], .pointer 0⟩], false,
    some [⟨1, .other 0, [⟨.arg 0, .pointer 0⟩], fun _ => none⟩]⟩

def echoMain : Function :=
  ⟨1, mainName, [], false,
    some [⟨0, .call (some 0), [⟨.const 5, .pointer 0⟩], fun _ => none⟩,
      ⟨2, .other 0, [⟨.inst 0, .pointer 0⟩], fun _ => none⟩]⟩

def echoModule : Module := ⟨[], [echo, echoMain], 2, 3⟩

def echoMachine : Machine ℤ Unit where
  const c _ := c
  packed _ := 0
  perform _ operands mem out := out = .ret operands.head?.join mem
  external _ _ _ _ _ := False
  target _ := none

lemma wellFormed_echoModule : echoModule.WellFormed where
  names := by decide
  refs := by decide
  nextRef := by decide
  values := by decide
  next := by decide
  typed := by
    intro i hi c hc
    have hcode : echoModule.code = echo.code ++ echoMain.code := rfl
    rw [hcode] at hi
    simp only [echo, echoMain, Function.code, Option.getD_some, List.singleton_append, List.mem_cons,
      List.not_mem_nil, or_false] at hi
    rcases hi with rfl | rfl | rfl
    · cases hc
    · cases hc
      exact ⟨echo, List.mem_cons_self, rfl, List.prefix_rfl, fun _ => rfl⟩
    · cases hc

lemma scoped_echoModule : Scoped echoModule := by
  have hcode : ∀ f ∈ echoModule.functions, ∀ i ∈ f.code, ∀ o ∈ i.operands,
      (o.source = .arg 0 ∧ f = echo) ∨ o.source = .const 5 ∨ (o.source = .inst 0 ∧ f = echoMain) := by
    simp [echoModule, echo, echoMain, Function.code]
  intro f hf i hi o ho
  rcases hcode f hf i hi o ho with ⟨hsource, rfl⟩ | hsource | ⟨hsource, rfl⟩ <;>
    simp [InScope, hsource, echo, echoMain, Function.code]

lemma redirectable_echoModule : Redirectable echoModule := by
  rw [redirectable_iff]
  have hcloned : cloned echoModule = [echo] := rfl
  rw [Counted, hcloned]
  refine ⟨fun f hf => ?_, fun f hf i hi hop => ?_⟩
  · obtain rfl := List.mem_singleton.mp hf
    exact ⟨by decide, by decide⟩
  · obtain rfl := List.mem_singleton.mp hf
    have hcode : echoModule.code = echo.code ++ echoMain.code := rfl
    rw [hcode] at hi
    simp only [echo, echoMain, Function.code, Option.getD_some, List.singleton_append, List.mem_cons,
      List.not_mem_nil, or_false] at hi
    rcases hi with rfl | rfl | rfl
    · cases hop
    · rfl
    · cases hop

lemma nothingDangles_echoModule : NothingDangles noConstants numbered id echoModule := by
  have hcloned : cloned echoModule = [echo] := rfl
  obtain ⟨hfree, -⟩ := redirectable_iff.mp redirectable_echoModule
  have horder : ∀ l : List (ℕ × Inst), (id l).Perm l := fun _ => List.Perm.refl _
  rw [nothingDangles_iff_detached wellFormed_echoModule horder hfree]
  intro f hf
  refine ⟨List.not_mem_nil, ?_, fun g hg hlt => ?_⟩
  · rintro i - ⟨⟨source, type⟩, -, ho⟩
    cases source <;> cases ho
  · rw [hcloned, List.mem_singleton] at hf hg
    rw [hf, hg] at hlt
    exact absurd hlt (lt_irrefl _)

end Embedwatch.Instrumentor
