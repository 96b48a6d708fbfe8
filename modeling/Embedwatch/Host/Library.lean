import Embedwatch.Ta.Flush

/-! The host library: the event-reporting functions the instrumentation calls, the cache they fill
when `cache_enabled` is 1, and the commands they invoke on the trusted application. -/

namespace Embedwatch.Host

open Ta (memrefInout valueInout invokeCommand)

abbrev Byte := BitVec 8

/-- The memory of the instrumented program. Somewhere in it there is a zero byte: without one
`getEndOfObject` never returns. -/
structure Memory where
  byte : Word → Byte
  zero_byte : ∃ a, byte a = 0

def scan (byte : Word → Byte) : ℕ → Word → Word
  | 0, ptr => ptr
  | fuel + 1, ptr => if byte ptr = 0 then ptr else scan byte fuel (ptr + 1)

def getEndOfObject (mem : Memory) (ptr : Word) : Word := scan mem.byte (2 ^ 32) ptr

inductive EntryType
  | defT | useT | libuseT | iuseT | ilibuseT | dallocaT | novalueT
  deriving DecidableEq

structure State where
  cacheEnabled : ℤ
  cache : List UseT
  cacheLastIndex : ℤ
  ta : Ta.State

/-- `zinit`: `calloc(sizeof(use_t), 128)` and a session with a fresh instance. -/
def zinit (cacheEnabled : ℤ) : State :=
  ⟨cacheEnabled, List.replicate 128 .zero, -1,
    (Ta.openSession 0 valueInout ⟨0, 0, ⟨0, fun _ => 0⟩⟩ Ta.boot).2⟩

/-- `TEEC_InvokeCommand`. A command that does not return leaves nothing to go on with; the host
never meets one, see `flushCommand_returns`. -/
def State.invoke (h : State) (cmdId paramTypes : Word) (params : Ta.Params) : State :=
  { h with ta := ((invokeCommand 0 cmdId paramTypes params h.ta).map Ta.Reply.ta).getD h.ta }

def valueParams (a b : Word) : Ta.Params := ⟨a, b, ⟨0, fun _ => 0⟩⟩

def dataParams (data : List Word) : Ta.Params := ⟨0, 0, ⟨12, fun k => data.getD k 0⟩⟩

def cacheParams (cache : List UseT) : Ta.Params :=
  ⟨0, 0, ⟨4096, UseT.toMemory fun i => cache.getD i .zero⟩⟩

def State.sendAlloca (h : State) (defn addr : Word) : State :=
  h.invoke 4 valueInout (valueParams defn addr)

def State.sendAllocaDyn (h : State) (defn addr size : Word) : State :=
  h.invoke 8 memrefInout (dataParams [defn, addr, size])

def State.sendUse (h : State) (use addr : Word) : State :=
  h.invoke 5 valueInout (valueParams use addr)

def State.sendIuse (h : State) (use defn addr : Word) : State :=
  h.invoke 7 memrefInout (dataParams [use, defn, addr])

/-- The end address of a library write: that of the terminator of the string at `addr` where the
size is the sentinel `0xdeadbeef`. -/
def endOfWrite (mem : Memory) (addr sizeOfWrite : Word) : Word :=
  if sizeOfWrite = 0xdeadbeef then getEndOfObject mem addr else addr + sizeOfWrite

def updateEntry (mem : Memory) (type : EntryType) (id addr defId defSize sizeOfWrite : Word)
    (e : UseT) : UseT :=
  match type with
  | .defT => { e with defId := id, defAddr := addr }
  | .useT => { e with useId := id, useAddr := addr }
  | .libuseT => { e with useId := id, useAddr := endOfWrite mem addr sizeOfWrite }
  | .iuseT => { e with iUseUse := id, iUseDef := defId, iUseAddr := addr }
  | .ilibuseT =>
    { e with iUseUse := id, iUseDef := defId, iUseAddr := endOfWrite mem addr sizeOfWrite }
  | .dallocaT => { e with defId := id, defAddr := addr, defSize := defSize }
  | .novalueT => e

/-- One round of the loop of `zbouncer_flush_cache` without the cache. -/
def State.sendEntry (h : State) (e : UseT) : State :=
  if e.defId ≠ 0 ∧ e.defSize = 0 then h.sendAlloca e.defId e.defAddr
  else if e.useId ≠ 0 then h.sendUse e.useId e.useAddr
  else if e.iUseUse ≠ 0 then h.sendIuse e.iUseUse e.iUseDef e.iUseAddr
  else if e.defSize ≠ 0 then h.sendAllocaDyn e.defId e.defAddr e.defSize
  else h

/-- `memset(cache, 0, 128 * sizeof(use))`: `use` is the enumeration constant, of four bytes, so
that 512 bytes are cleared, the first 16 entries. -/
def clearedCache (cache : List UseT) : List UseT := List.replicate 16 .zero ++ cache.drop 16

def State.flushCache (h : State) : State :=
  let h' :=
    if h.cacheEnabled = 1 then h.invoke 11 memrefInout (cacheParams h.cache)
    else (h.cache.take (h.cacheLastIndex + 1).toNat).foldl State.sendEntry h
  { h' with cache := clearedCache h.cache, cacheLastIndex := -1 }

def sameEntry (type : EntryType) (id defId : Word) (e : UseT) : Bool :=
  e.defId = id && (!(type = .iuseT || type = .ilibuseT) || e.defId = defId)

def State.collectEntry (h : State) (mem : Memory) (type : EntryType)
    (id addr defId defSize sizeOfWrite : Word) : State :=
  if h.cacheEnabled = 1 then
    let update := updateEntry mem type id addr defId defSize sizeOfWrite
    match (h.cache.take (h.cacheLastIndex + 1).toNat).findIdx? (sameEntry type id defId) with
    | some i => { h with cache := h.cache.modify i update }
    | none =>
      let last := h.cacheLastIndex + 1
      let h' := { h with cache := h.cache.modify last.toNat update, cacheLastIndex := last }
      if last > 120 then h'.flushCache else h'
  else
    match type with
    | .useT => h.sendUse id addr
    | .libuseT => h.sendUse id (endOfWrite mem addr sizeOfWrite)
    | .iuseT => h.sendIuse id defId addr
    | .ilibuseT => h.sendIuse id defId (endOfWrite mem addr sizeOfWrite)
    | .dallocaT => h.sendAllocaDyn id addr defSize
    | .defT => h.sendAlloca id addr
    | .novalueT => h

def State.collectAlloca (h : State) (mem : Memory) (defn addr : Word) : State :=
  if h.cacheEnabled = 1 then h.collectEntry mem .defT defn addr 0 0 0 else h.sendAlloca defn addr

def State.collectAllocaDyn (h : State) (mem : Memory) (defn addr size : Word) : State :=
  if h.cacheEnabled = 1 then h.collectEntry mem .dallocaT defn addr 0 size 0
  else h.sendAllocaDyn defn addr size

def State.use (h : State) (mem : Memory) (use addr : Word) : State :=
  if h.cacheEnabled = 1 then h.collectEntry mem .useT use addr 0 0 0 else h.sendUse use addr

def State.iuse (h : State) (mem : Memory) (use defn addr : Word) : State :=
  if h.cacheEnabled = 1 then h.collectEntry mem .iuseT use addr defn 0 0
  else h.sendIuse use defn addr

def State.luse (h : State) (mem : Memory) (use addr sizeOfWrite : Word) : State :=
  h.use mem use (endOfWrite mem addr sizeOfWrite)

def State.iluse (h : State) (mem : Memory) (use defn addr sizeOfWrite : Word) : State :=
  h.iuse mem use defn (endOfWrite mem addr sizeOfWrite)

/-- `zexit`: the last flush, and two commands that report times and counters. -/
def State.zexit (h : State) : State :=
  (h.flushCache.invoke 10 valueInout (valueParams 0 0)).invoke 9 valueInout (valueParams 0 0)

end Embedwatch.Host
