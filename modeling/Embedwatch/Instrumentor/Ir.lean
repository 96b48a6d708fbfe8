import Embedwatch.Library.PlainText
import Embedwatch.Library.Replacement

/-! Modules of the intermediate language, as far as functions and calls go. -/

namespace Embedwatch.Ir

open Library.PlainText Library.Replacement

inductive Ty
  | int32
  | pointer (pointee : ℕ)
  | other (n : ℕ)
  deriving DecidableEq

def Ty.isPointerTy : Ty → Bool
  | .pointer _ => true
  | .int32 | .other _ => false

def instrumentedSuffix : Text :=
  ['_', 'i', 'n', 's', 't', 'r', 'u', 'm', 'e', 'n', 't', 'e', 'd']

def endsWith (str suffix : Text) : Bool := suffix.isSuffixOf str

inductive Source
  | inst (value : ℕ)
  | arg (k : ℕ)
  | const (c : ℤ)
  | packed (id : BitVec 16)
  deriving DecidableEq

structure Operand where
  source : Source
  type : Ty
  deriving DecidableEq

/-- A call has the function that `getCalledFunction` gives. -/
inductive Op
  | call (callee : Option ℕ)
  | other (n : ℕ)
  deriving DecidableEq

/-- An instruction. `metadata` is by kind; the operands of a call are its arguments, and if
`getCalledFunction` gives none, also what is called. -/
structure Inst where
  value : ℕ
  op : Op
  operands : List Operand
  metadata : Text → Option Text

structure Param where
  name : Text
  type : Ty
  deriving DecidableEq

structure Function where
  ref : ℕ
  name : Text
  params : List Param
  varArg : Bool
  body : Option (List Inst)

structure Module where
  globals : List Text
  functions : List Function
  nextRef : ℕ
  next : ℕ

lemma index_unique {α : Type*} {name : α → Text} {l : List α}
    (h : ((l.map name).filter (· ≠ [])).Nodup) {j k : ℕ} {a b : α} (ha : l[j]? = some a)
    (hb : l[k]? = some b) (hname : name a = name b) (hne : name b ≠ []) : j = k := by
  rw [List.Nodup, List.pairwise_filter, List.pairwise_map, List.pairwise_iff_getElem] at h
  obtain ⟨hj, rfl⟩ := List.getElem?_eq_some_iff.mp ha
  obtain ⟨hk, rfl⟩ := List.getElem?_eq_some_iff.mp hb
  rcases lt_trichotomy j k with hlt | heq | hlt
  · exact absurd hname (h j k hj hk hlt (by simpa [hname] using hne) (by simpa using hne))
  · exact heq
  · exact absurd hname.symm (h k j hk hj hlt (by simpa using hne) (by simpa [hname] using hne))

def Operand.subst (σ : ℕ → ℕ) (o : Operand) : Operand :=
  match o.source with
  | .inst v => { o with source := .inst (σ v) }
  | .arg _ | .const _ | .packed _ => o

@[simp] lemma Operand.subst_type (σ : ℕ → ℕ) (o : Operand) : (o.subst σ).type = o.type := by
  rw [subst]
  split <;> rfl

lemma Operand.subst_subst (σ τ : ℕ → ℕ) (o : Operand) :
    (o.subst τ).subst σ = o.subst (σ ∘ τ) := by
  obtain ⟨source, type⟩ := o
  cases source <;> rfl

lemma Operand.subst_id (o : Operand) : o.subst id = o := by
  obtain ⟨source, type⟩ := o
  cases source <;> rfl

def Inst.subst (σ : ℕ → ℕ) (i : Inst) : Inst := { i with operands := i.operands.map (·.subst σ) }

instance : Instruction ℕ Inst where
  value := Inst.value
  subst := Inst.subst
  value_subst _ _ := rfl
  subst_id i := by
    have h : (fun o : Operand => o.subst id) = id := funext Operand.subst_id
    rw [Inst.subst, h, List.map_id]
  subst_subst σ τ i := by
    simp only [Inst.subst, List.map_map]
    congr 2
    funext o
    exact Operand.subst_subst σ τ o

def Inst.shift (d : ℕ) (i : Inst) : Inst := { i.subst (· + d) with value := i.value + d }

def Function.pointerParams (f : Function) : List Param := f.params.filter (·.type.isPointerTy)

def Function.types (f : Function) : List Ty := f.params.map Param.type

def Function.code (f : Function) : List Inst := f.body.getD []

namespace Module

def symbols (m : Module) : List Text := m.globals ++ m.functions.map Function.name

/-- `Module::getFunction`; a function without a name is not in the symbol table. -/
def getFunction (m : Module) (name : Text) : Option Function :=
  if name = [] then none else m.functions.find? fun f => f.name = name

def code (m : Module) : List Inst := m.functions.flatMap Function.code

/-- What holds of every module that LLVM accepts. -/
structure WellFormed (m : Module) : Prop where
  names : (m.symbols.filter (· ≠ [])).Nodup
  refs : (m.functions.map Function.ref).Nodup
  nextRef : ∀ f ∈ m.functions, f.ref < m.nextRef
  values : (m.code.map Inst.value).Nodup
  next : ∀ i ∈ m.code, i.value < m.next
  typed : ∀ i ∈ m.code, ∀ c, i.op = .call (some c) → ∃ f ∈ m.functions, f.ref = c ∧
    f.types <+: i.operands.map Operand.type ∧ (f.varArg = false → i.operands.length = f.params.length)

end Module

end Embedwatch.Ir
