import Embedwatch.Records
import Mathlib.Logic.Function.Basic

/-! The trusted application: its ring of records and the command handlers behind
`TA_InvokeCommandEntryPoint`. -/

namespace Embedwatch.Ta

def dynamicTraceSize : ℕ := 2048

/-- The globals of the trusted application. `dynamicTrace` is indexed by what `trace_id % 2048`
evaluates to, which is negative for a negative `trace_id`. `history` is a history variable, the
records stored so far: no handler reads it. -/
structure State where
  dynamicTrace : ℤ → UseT
  traceId : Word
  funcCtr : List Word
  globalStart : Word
  globalEnd : Word
  enableTimeTracing : Bool
  history : List Record

def boot : State := ⟨fun _ => .zero, 0, List.replicate 15 0, 0, 0, false, []⟩

/-- `trace_id % DYNAMIC_TRACE_SIZE`, with C's remainder. -/
def State.slot (s : State) : ℤ := s.traceId.toInt.tmod dynamicTraceSize

def put : Record → UseT → UseT
  | .defRec id addr, e => { e with defId := id, defAddr := addr, defSize := -1 }
  | .ddefRec id addr size, e => { e with defId := id, defAddr := addr, defSize := size }
  | .useRec id addr, e => { e with useId := id, useAddr := addr }
  | .iuseRec use defn addr, e => { e with iUseUse := use, iUseDef := defn, iUseAddr := addr }

def State.store (s : State) (r : Record) : State :=
  { s with
    dynamicTrace := Function.update s.dynamicTrace s.slot (put r (s.dynamicTrace s.slot))
    traceId := s.traceId + 1
    history := s.history ++ [r] }

/-- A shared buffer: `size` is the byte length the normal world declares, `words` the memory from
the start of the buffer on, also beyond its end. -/
structure Memref where
  size : Word
  words : ℕ → Word

/-- `params[0]`, of which a handler reads the member that its type check grants. -/
structure Params where
  valueA : Word
  valueB : Word
  memref : Memref

inductive TeeResult
  | success
  | badParameters
  deriving DecidableEq

/-- What a command returns to, with the indices of the buffer's words it has read or written. -/
structure Reply where
  result : TeeResult
  ta : State
  params : Params
  accesses : List ℕ

def valueInout : Word := 0x3

def memrefInout : Word := 0x7

def expecting (expParamTypes paramTypes : Word) (params : Params) (s : State) (body : Reply) : Reply :=
  if paramTypes ≠ expParamTypes then ⟨.badParameters, s, params, []⟩ else body

def zbouncerDef (paramTypes : Word) (params : Params) (s : State) : Reply :=
  expecting valueInout paramTypes params s
    ⟨.success, s.store (.defRec params.valueA params.valueB), params, []⟩

def zbouncerDdef (paramTypes : Word) (params : Params) (s : State) : Reply :=
  let data := params.memref.words
  expecting memrefInout paramTypes params s
    ⟨.success, s.store (.ddefRec (data 0) (data 1) (data 2)), params, [0, 1, 2]⟩

def zbouncerUse (paramTypes : Word) (params : Params) (s : State) : Reply :=
  expecting valueInout paramTypes params s
    ⟨.success, s.store (.useRec params.valueA params.valueB), params, []⟩

def zbouncerIuse (paramTypes : Word) (params : Params) (s : State) : Reply :=
  let data := params.memref.words
  expecting memrefInout paramTypes params s
    ⟨.success, s.store (.iuseRec (data 0) (data 1) (data 2)), params, [0, 1, 2]⟩

/-- The first 1024 slots of the ring, as `TEE_MemMove` lays them over the buffer. -/
def copiedWords (s : State) (words : ℕ → Word) (k : ℕ) : Word :=
  if k < 1024 * 8 then UseT.toMemory (fun i => s.dynamicTrace i) k else words k

def copyTrace (paramTypes : Word) (params : Params) (s : State) : Reply :=
  expecting memrefInout paramTypes params s
    ⟨.success, s,
      { params with memref := { params.memref with words := copiedWords s params.memref.words } },
      List.range (1024 * 8)⟩

def zbouncerTimeGlobal (now paramTypes : Word) (params : Params) (s : State) : Reply :=
  expecting valueInout paramTypes params s
    ⟨.success, { s with globalEnd := now },
      { params with valueA := s.globalStart, valueB := now }, []⟩

def State.ctr (s : State) (cmd : ℕ) : Word := s.funcCtr.getD cmd 0

def zbouncerFuncCtr (paramTypes : Word) (params : Params) (s : State) : Reply :=
  expecting valueInout paramTypes params s
    ⟨.success, s,
      { params with
        valueA := (s.ctr 5 <<< 16) ||| (s.ctr 4 &&& 0x0000ffff)
        valueB := (s.ctr 7 <<< 16) ||| (s.ctr 8 &&& 0x0000ffff) }, []⟩

def decodeEntry (e : UseT) : Option Record :=
  if e.defId ≠ 0 ∧ e.defSize = 0 then some (.defRec e.defId e.defAddr)
  else if e.useId ≠ 0 then some (.useRec e.useId e.useAddr)
  else if e.iUseUse ≠ 0 then some (.iuseRec e.iUseUse e.iUseDef e.iUseAddr)
  else if e.defSize ≠ 0 then some (.ddefRec e.defId e.defAddr e.defSize)
  else none

/-- The loop without a bound of `zbouncer_flush_cache`, from index `i` on. It gives the index it
breaks at, or `none` if it has not broken after `fuel` entries. -/
def flushLoop (cache : ℕ → UseT) : ℕ → ℕ → State → Option (State × ℕ)
  | 0, _, _ => none
  | fuel + 1, i, s =>
    match decodeEntry (cache i) with
    | some r => flushLoop cache fuel (i + 1) (s.store r)
    | none => some (s, i)

/-- The indices that the `int` counting the loop's rounds has. -/
def intIndices : ℕ := 2 ^ 31

/-- The first loop reads the entries 0 to 128 to log them, the second decodes entries. -/
def zbouncerFlushCache (paramTypes : Word) (params : Params) (s : State) : Option Reply :=
  if paramTypes ≠ memrefInout then some ⟨.badParameters, s, params, []⟩
  else
    match flushLoop (UseT.ofMemory params.memref.words) intIndices 0 s with
    | some (s', i) =>
      some ⟨.success, s', params, List.range (129 * 8) ++ List.range ((i + 1) * 8)⟩
    | none => none

def Reply.countFlush (reply : Reply) : Reply :=
  { reply with ta := { reply.ta with funcCtr := reply.ta.funcCtr.set 4 (reply.ta.ctr 4 + 1) } }

/-- `TA_InvokeCommandEntryPoint`; `now` is the system time in milliseconds. -/
def invokeCommand (now cmdId paramTypes : Word) (params : Params) (s : State) : Option Reply :=
  match cmdId.toNat with
  | 4 => some (zbouncerDef paramTypes params s)
  | 5 => some (zbouncerUse paramTypes params s)
  | 6 => some (copyTrace paramTypes params s)
  | 7 => some (zbouncerIuse paramTypes params s)
  | 8 => some (zbouncerDdef paramTypes params s)
  | 9 => some (zbouncerFuncCtr paramTypes params s)
  | 10 => some (zbouncerTimeGlobal now paramTypes params s)
  | 11 => (zbouncerFlushCache paramTypes params s).map Reply.countFlush
  | _ => some ⟨.badParameters, s, params, []⟩

/-- `TA_OpenSessionEntryPoint`. -/
def openSession (now paramTypes : Word) (params : Params) (s : State) : TeeResult × State :=
  let s := { s with globalStart := now }
  if paramTypes ≠ valueInout then (.badParameters, s)
  else (.success,
    { s with
      enableTimeTracing := s.enableTimeTracing || params.valueA == 0x00ff00ff
      traceId := 0 })

end Embedwatch.Ta
