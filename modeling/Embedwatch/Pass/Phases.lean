import Embedwatch.Library.PlainText
import Embedwatch.Pass.Instrument

/-! The phases of the pass over a function: first the blocks of its loops, then all blocks for the
definitions, the stores and the library calls. Each phase inserts its calls directly after an
annotated instruction. Where the pass aborts or reads what it has not set, a phase gives `none`. -/

namespace Embedwatch.Pass

open Library.PlainText
open Host (Memory EntryType Call)

inductive Operand (V : Type)
  | value (v : V)
  | const (w : Word)
  | endOf (ptr : V) (storeSize : ℕ)
  | mul (a b : V)

inductive Inserted (V : Type)
  | collectAlloca (defn : BitVec 16) (addr : Operand V)
  | collectAllocaDyn (defn : BitVec 16) (addr size : Operand V)
  | zuse (use : BitVec 16) (addr : Operand V)
  | ziuse (use : BitVec 16) (defRef addr : Operand V)
  | zluse (use : BitVec 16) (addr sizeOfWrite : Operand V)
  | ziluse (use : BitVec 16) (defRef addr sizeOfWrite : Operand V)
  | collectEntry (type : EntryType) (id : BitVec 16) (addr defId defSize sizeOfWrite : Operand V)

inductive Op (V : Type)
  | alloca
  | store (ptr : V) (storeSize : ℕ)
  | call (callee : Option Text) (args : List V)
  | other

structure Inst (V : Type) where
  value : V
  op : Op V
  zdef : Option Text
  zsuse : Option Text
  zluse : Option Text
  ziuse : Option Text

/-- A function. `loops` has the blocks of each top-level loop, those of its nested loops among them;
no block is in two of these lists. -/
structure Function (V : Type) where
  args : List (Text × V)
  blocks : List (List (Inst V))
  loops : List (List ℕ)
  loops_nodup : loops.flatten.Nodup

def entryType : ℕ → EntryType
  | 0 => .defT
  | 1 => .useT
  | 2 => .libuseT
  | 3 => .iuseT
  | 4 => .ilibuseT
  | 5 => .dallocaT
  | _ => .novalueT

def isDigit (c : Char) : Bool := 48 ≤ c.toNat && c.toNat ≤ 57

/-- `std::stoi`: white space, a sign and digits, whatever follows. -/
def stoi (t : Text) : Option ℤ :=
  let t' := t.dropWhile fun c => c.toNat = 32 || (9 ≤ c.toNat && c.toNat ≤ 13)
  let n := match t' with
    | '-' :: cs => (readNat 10 (cs.takeWhile isDigit)).map fun n => -(n : ℤ)
    | '+' :: cs => (readNat 10 (cs.takeWhile isDigit)).map fun n => (n : ℤ)
    | cs => (readNat 10 (cs.takeWhile isDigit)).map fun n => (n : ℤ)
  n.filter fun n => -2 ^ 31 ≤ n && n < 2 ^ 31

def idOf (metadata : Text) : Option (BitVec 16) := (stoi metadata).map (BitVec.ofInt 16)

def defIds (metadata : Text) : Option (List (BitVec 16)) := (metadata.splitOn '_').mapM idOf

def mallocName : Text := ['m', 'a', 'l', 'l', 'o', 'c']

def callocName : Text := ['c', 'a', 'l', 'l', 'o', 'c']

def libFunctionName : LibFunction → Text
  | .scanf => ['s', 'c', 'a', 'n', 'f']
  | .isoc99Scanf => ['_', '_', 'i', 's', 'o', 'c', '9', '9', '_', 's', 'c', 'a', 'n', 'f']
  | .memcpy => ['m', 'e', 'm', 'c', 'p', 'y']
  | .strcpy => ['s', 't', 'r', 'c', 'p', 'y']

variable {V : Type}

namespace Inst

def isCall (i : Inst V) : Bool :=
  match i.op with
  | .call _ _ => true
  | .alloca | .store _ _ | .other => false

/-- The calls for `zdef`, with `alloca` for a stack object and `dyn` for an allocation of a size. A
call of another function is passed over. -/
def zdefCalls (alloca : BitVec 16 → Inserted V) (dyn : BitVec 16 → Operand V → Inserted V)
    (i : Inst V) : Option (List (Inserted V)) :=
  match i.zdef with
  | none => some []
  | some metadata =>
    match i.op with
    | .call callee args => do
      let called ← callee
      if called = mallocName then
        let size ← args[0]?
        some ((← defIds metadata).map fun d => dyn d (.value size))
      else if called = callocName then
        let a ← args[0]?
        let b ← args[1]?
        some ((← defIds metadata).map fun d => dyn d (.mul a b))
      else some []
    | .alloca | .store _ _ | .other => do some ((← defIds metadata).map alloca)

def loopZdef (i : Inst V) : Option (List (Inserted V)) :=
  i.zdefCalls
    (fun d => .collectEntry (entryType 5) d (.value i.value) (.const 0) (.const 0) (.const 0))
    (fun d size => .collectEntry (entryType 5) d (.value i.value) (.const 0) size (.const 0))

def plainZdef (i : Inst V) : Option (List (Inserted V)) :=
  i.zdefCalls (fun d => .collectAlloca d (.value i.value))
    (fun d size => .collectAllocaDyn d (.value i.value) size)

def defRef (f : Function V) (iuse : Text) : Option (Operand V) :=
  (f.args.find? fun a => a.1 = iuse).map fun a => .value a.2

def zsuseCalls (iuse : BitVec 16 → Operand V → Operand V → Inserted V)
    (use : BitVec 16 → Operand V → Inserted V) (f : Function V) (i : Inst V) :
    Option (List (Inserted V)) :=
  match i.zsuse with
  | none => some []
  | some metadata => do
    let id ← idOf metadata
    match i.op with
    | .store ptr storeSize =>
      match i.ziuse with
      | some name => some [iuse id (← defRef f name) (.endOf ptr storeSize)]
      | none => some [use id (.endOf ptr storeSize)]
    | .alloca | .call _ _ | .other => none

def loopZsuse (f : Function V) (i : Inst V) : Option (List (Inserted V)) :=
  i.zsuseCalls (fun id ref e => .collectEntry (entryType 3) id e ref (.const 0) (.const 0))
    (fun id e => .collectEntry (entryType 3) id e (.const 0) (.const 0) (.const 0)) f

def plainZsuse (f : Function V) (i : Inst V) : Option (List (Inserted V)) :=
  i.zsuseCalls (fun id ref e => .ziuse id ref e) (fun id e => .zuse id e) f

def written (called : Text) (args : List V) : Option (Operand V × Operand V) :=
  if called = libFunctionName .memcpy then do
    some (.value (← args[1]?), .value (← args[2]?))
  else if called = libFunctionName .scanf then do some (.value (← args[1]?), .const 0xdeadbeef)
  else if called = libFunctionName .isoc99Scanf then do
    some (.value (← args[1]?), .const 0xdeadbeef)
  else if called = libFunctionName .strcpy then do some (.value (← args[0]?), .const 0xdeadbeef)
  else none

def zluseCalls (iluse : BitVec 16 → Operand V → Operand V → Operand V → Inserted V)
    (luse : BitVec 16 → Operand V → Operand V → Inserted V) (f : Function V) (i : Inst V) :
    Option (List (Inserted V)) :=
  match i.zluse with
  | none => some []
  | some metadata => do
    let id ← idOf metadata
    match i.op with
    | .call callee args =>
      let (addr, size) ← written (← callee) args
      match i.ziuse with
      | some name => some [iluse id (← defRef f name) addr size]
      | none => some [luse id addr size]
    | .alloca | .store _ _ | .other => none

def loopZluse (f : Function V) (i : Inst V) : Option (List (Inserted V)) :=
  i.zluseCalls (fun id ref addr size => .collectEntry (entryType 4) id addr ref (.const 0) size)
    (fun id addr size => .collectEntry (entryType 2) id addr (.const 0) (.const 0) size) f

def plainZluse (f : Function V) (i : Inst V) : Option (List (Inserted V)) :=
  i.zluseCalls (fun id ref addr size => .ziluse id ref addr size)
    (fun id addr size => .zluse id addr size) f

/-- What one visit of the loop phase inserts after `i`, the last inserted first. The branch for a
call with `zdef` ends with `continue`. -/
def loopCalls (f : Function V) (i : Inst V) : Option (List (Inserted V)) := do
  let defs ← i.loopZdef
  if i.zdef.isSome ∧ i.isCall then some defs
  else some ((← i.loopZluse f) ++ (← i.loopZsuse f) ++ defs)

end Inst

inductive Code (V : Type)
  | inst (i : Inst V)
  | report (r : Inserted V)

/-- A phase over a block. The inserted calls carry no metadata, so that the phase passes over those
that it and earlier phases have inserted. -/
def insertAfter (calls : Inst V → Option (List (Inserted V))) :
    List (Code V) → Option (List (Code V))
  | [] => some []
  | .inst i :: code => do
    let rs ← calls i
    some (.inst i :: rs.map .report ++ (← insertAfter calls code))
  | .report r :: code => do some (.report r :: (← insertAfter calls code))

namespace Function

def visitBlock (f : Function V) (blocks : List (List (Code V))) (b : ℕ) :
    Option (List (List (Code V))) :=
  match blocks[b]? with
  | none => some blocks
  | some code => do some (blocks.set b (← insertAfter (Inst.loopCalls f) code))

def loopPhase (f : Function V) (blocks : List (List (Code V))) : Option (List (List (Code V))) :=
  f.loops.foldlM (fun blocks loop => loop.foldlM f.visitBlock blocks) blocks

/-- The function after the pass. What the pass inserts at the entry and before the returns of `main`
is left out. -/
def instrument (f : Function V) : Option (List (List (Code V))) := do
  let blocks ← f.loopPhase (f.blocks.map (·.map .inst))
  let blocks ← blocks.mapM (insertAfter Inst.plainZdef)
  let blocks ← blocks.mapM (insertAfter (Inst.plainZsuse f))
  blocks.mapM (insertAfter (Inst.plainZluse f))

end Function

def Operand.eval (env : V → Word) : Operand V → Word
  | .value v => env v
  | .const w => w
  | .endOf ptr storeSize => env ptr + BitVec.ofNat 32 storeSize
  | .mul a b => env a * env b

def Inserted.eval (env : V → Word) (recCounter : BitVec 16) : Inserted V → Call
  | .collectAlloca defn addr => .collectAlloca (useParam defn recCounter) (addr.eval env)
  | .collectAllocaDyn defn addr size =>
    .collectAllocaDyn (useParam defn recCounter) (addr.eval env) (size.eval env)
  | .zuse use addr => .zuse (useParam use recCounter) (addr.eval env)
  | .ziuse use ref addr => .ziuse (useParam use recCounter) (ref.eval env) (addr.eval env)
  | .zluse use addr size => .zluse (useParam use recCounter) (addr.eval env) (size.eval env)
  | .ziluse use ref addr size =>
    .ziluse (useParam use recCounter) (ref.eval env) (addr.eval env) (size.eval env)
  | .collectEntry type id addr defId defSize size =>
    .collectEntry type (useParam id recCounter) (addr.eval env) (defId.eval env)
      (defSize.eval env) (size.eval env)

end Embedwatch.Pass
