import Embedwatch.Instrumentor.Ir
import Mathlib.Data.List.Nodup
import Mathlib.Data.List.Perm.Subperm

/-! The pass `FunctionInstrumentor`: every function with pointer parameters is cloned with an id for
each of them, calls are redirected to the clones, and the originals are removed. -/

namespace Embedwatch.Instrumentor

open Library.PlainText Library.Replacement Ir

/-- The names that a symbol table gives in place of names that are taken: with a dot and a number for
functions, with a number for parameters. -/
structure Renaming where
  symbol : List Text → Text → Text
  symbol_fresh : ∀ taken base, symbol taken base ∉ taken
  symbol_eq : ∀ taken base, ∃ n, symbol taken base = base ++ '.' :: decimal n
  argument : List Text → Text → Text
  argument_fresh : ∀ taken base, argument taken base ∉ taken
  argument_eq : ∀ taken base, ∃ n, argument taken base = base ++ decimal n

def firstFree (taken : List Text) (name : ℕ → Text) : Text :=
  (((List.range (taken.length + 1)).map fun n => name (n + 1)).find? (· ∉ taken)).getD []

lemma firstFree_spec {name : ℕ → Text} (hinj : Function.Injective name) (taken : List Text) :
    firstFree taken name ∉ taken ∧ ∃ n, firstFree taken name = name n := by
  have hfound : ∃ t, ((List.range (taken.length + 1)).map fun n => name (n + 1)).find?
      (· ∉ taken) = some t := by
    rw [← Option.isSome_iff_exists, List.find?_isSome]
    by_contra hall
    push Not at hall
    have hinj' : Function.Injective fun n => name (n + 1) := fun a b hab =>
      Nat.succ_injective (hinj hab)
    have hnodup : ((List.range (taken.length + 1)).map fun n => name (n + 1)).Nodup :=
      List.nodup_range.map hinj'
    have hsub : ((List.range (taken.length + 1)).map fun n => name (n + 1)) ⊆ taken := by
      intro t ht
      simpa using hall t ht
    have hlength := (List.Nodup.subperm hnodup hsub).length_le
    rw [List.length_map, List.length_range] at hlength
    omega
  obtain ⟨t, ht⟩ := hfound
  have heq : firstFree taken name = t := by
    rw [firstFree, ht, Option.getD_some]
  rw [heq]
  refine ⟨by simpa using List.find?_some ht, ?_⟩
  obtain ⟨n, -, hn⟩ := List.mem_map.mp (List.mem_of_find?_eq_some ht)
  exact ⟨n + 1, hn.symm⟩

lemma dotted_injective (base : Text) : Function.Injective fun n => base ++ '.' :: decimal n :=
  fun _ _ h => decimal_injective (List.cons_injective (List.append_cancel_left h))

lemma numbered_injective (base : Text) : Function.Injective fun n => base ++ decimal n :=
  fun _ _ h => decimal_injective (List.append_cancel_left h)

def numbered : Renaming where
  symbol taken base := firstFree taken fun n => base ++ '.' :: decimal n
  symbol_fresh taken base := (firstFree_spec (dotted_injective base) taken).1
  symbol_eq taken base := (firstFree_spec (dotted_injective base) taken).2
  argument taken base := firstFree taken fun n => base ++ decimal n
  argument_fresh taken base := (firstFree_spec (numbered_injective base) taken).1
  argument_eq taken base := (firstFree_spec (numbered_injective base) taken).2

def mainName : Text := ['m', 'a', 'i', 'n']

def wrapperScanf : Text := ['w', 'r', 'a', 'p', 'p', 'e', 'r', '_', 's', 'c', 'a', 'n', 'f']

def wrapperGets : Text := ['w', 'r', 'a', 'p', 'p', 'e', 'r', '_', 'g', 'e', 't', 's']

def initialBlacklist : List Text := [mainName, wrapperScanf, wrapperGets]

def idSuffix : Text := ['_', 'i', 'd']

/-- The state of the pass: `blacklist`, `instrumentedFunctions`, and the pairs of an original and its
clone. -/
structure Run where
  module : Module
  blacklist : List Text
  instrumented : List (Text × ℕ)
  clones : List (ℕ × ℕ)

section Cloning

variable (r : Renaming)

/-- The name of a new function; `setName` renames it if the name is taken. -/
def functionName (m : Module) (name : Text) : Text :=
  if name ∈ m.symbols then r.symbol m.symbols name else name

def idParams (taken : List Text) : List Param → List Param
  | [] => []
  | p :: ps =>
    let name := p.name ++ idSuffix
    let name := if name ∈ taken then r.argument taken name else name
    ⟨name, .int32⟩ :: idParams (name :: taken) ps

def cloneParams (f : Function) : List Param :=
  f.params ++ idParams r (f.params.map Param.name) f.pointerParams

def cloneOf (m : Module) (f : Function) : Function where
  ref := m.nextRef
  name := functionName r m (f.name ++ instrumentedSuffix)
  params := cloneParams r f
  varArg := false
  body := f.body.map fun code => code.map (Inst.shift m.next)

def addClone (m : Module) (f : Function) : Module :=
  { m with
    functions := m.functions ++ [cloneOf r m f]
    nextRef := m.nextRef + 1
    next := m.next + m.next }

/-- `std::map::insert` keeps an entry that exists. -/
def insertEntry (entries : List (Text × ℕ)) (name : Text) (n : ℕ) : List (Text × ℕ) :=
  if name ∈ entries.map Prod.fst then entries else entries ++ [(name, n)]

/-- `instrumentFunction`; the function needs no instrumentation if it is `none`. -/
def instrumentFunction (s : Run) (f : Function) : Option Run :=
  if f.pointerParams = [] ∨ f.name ∈ s.blacklist then none
  else
    some
      { s with
        module := addClone r s.module f
        instrumented := insertEntry s.instrumented f.name f.pointerParams.length
        clones := s.clones ++ [(f.ref, (cloneOf r s.module f).ref)] }

def visit (s : Run) (f : Function) : Run :=
  if f.body = none then s
  else match instrumentFunction r s f with
    | some s' => { s' with blacklist := s'.blacklist ++ [f.name ++ instrumentedSuffix] }
    | none => { s with blacklist := s.blacklist ++ [f.name] }

/-- The loop from the function at `k` on; the functions that it adds are visited too. -/
def visitFrom : ℕ → ℕ → Run → Option Run
  | 0, k, s => if s.module.functions.length ≤ k then some s else none
  | fuel + 1, k, s =>
    match s.module.functions[k]? with
    | none => some s
    | some f => visitFrom fuel (k + 1) (visit r s f)

end Cloning

section Calls

variable (m : Module) (instrumented : List (Text × ℕ))

def zero : Operand := ⟨.const 0, .int32⟩

def redirect (i : Inst) : Option (ℕ × List Operand) :=
  match i.op with
  | .call (some callee) => do
    let f ← m.functions.find? fun f => f.ref = callee
    let entry ← instrumented.find? fun entry => entry.1 = f.name
    let clone ← m.getFunction (f.name ++ instrumentedSuffix)
    some (clone.ref, i.operands ++ List.replicate entry.2 zero)
  | .call none | .other _ => none

def searched : List Inst :=
  (m.functions.filter fun f => f.name ∉ instrumented.map Prod.fst).flatMap Function.code

/-- `funcalls`: the calls to be replaced, each with the call that has been created for it. -/
def funcalls : List (ℕ × Inst) :=
  (((searched m instrumented).filterMap fun i =>
    (redirect m instrumented i).map fun call => (i.value, call)).zipIdx m.next).map fun entry =>
      (entry.1.1, ⟨entry.2, .call (some entry.1.2.1), entry.1.2.2, fun _ => none⟩)

def replaceCalls (calls : List (ℕ × Inst)) (f : Function) : Function :=
  { f with body := f.body.map fun code =>
      ((calls.map fun c => (c.1, c.2.value)).foldl replaceInst (code, calls.map Prod.snd)).1 }

/-- `instrumentCalls`; `order` is the order of the pointers to the calls. -/
def instrumentCalls (order : List (ℕ × Inst) → List (ℕ × Inst)) : Module :=
  let calls := order (funcalls m instrumented)
  { m with functions := m.functions.map (replaceCalls calls), next := m.next + calls.length }

/-- `eraseFromParent` of the function with the name; without such a function the pass crashes. -/
def removeFunction (m : Module) (name : Text) : Option Module :=
  (m.getFunction name).map fun f =>
    { m with functions := m.functions.filter fun g => g.ref ≠ f.ref }

end Calls

/-- The pass with so many rounds of its first loop: the module it leaves, and the clones. -/
def runOnModule (r : Renaming) (order : List (ℕ × Inst) → List (ℕ × Inst)) (fuel : ℕ) (m : Module) :
    Option (Module × List (ℕ × ℕ)) := do
  let s ← visitFrom r fuel 0 ⟨m, initialBlacklist, [], []⟩
  let m' ← (s.instrumented.map Prod.fst).foldlM removeFunction
    (instrumentCalls s.module s.instrumented order)
  some (m', s.clones)

end Embedwatch.Instrumentor
