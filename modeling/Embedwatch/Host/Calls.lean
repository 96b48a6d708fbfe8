import Embedwatch.Host.Library

/-! The instrumentation calls as records. Without the cache a call stores its record at once; with
the cache it enters the record into the cache, by the same three steps for every kind of call. -/

namespace Embedwatch.Host

open Ta (memrefInout valueInout)

inductive Call
  | collectAlloca (defn addr : Word)
  | collectAllocaDyn (defn addr size : Word)
  | zuse (use addr : Word)
  | ziuse (use defn addr : Word)
  | zluse (use addr sizeOfWrite : Word)
  | ziluse (use defn addr sizeOfWrite : Word)
  | collectEntry (type : EntryType) (id addr defId defSize sizeOfWrite : Word)

abbrev Event := Memory × Call

def State.call (h : State) : Event → State
  | (mem, .collectAlloca defn addr) => h.collectAlloca mem defn addr
  | (mem, .collectAllocaDyn defn addr size) => h.collectAllocaDyn mem defn addr size
  | (mem, .zuse use addr) => h.use mem use addr
  | (mem, .ziuse use defn addr) => h.iuse mem use defn addr
  | (mem, .zluse use addr sizeOfWrite) => h.luse mem use addr sizeOfWrite
  | (mem, .ziluse use defn addr sizeOfWrite) => h.iluse mem use defn addr sizeOfWrite
  | (mem, .collectEntry type id addr defId defSize sizeOfWrite) =>
    h.collectEntry mem type id addr defId defSize sizeOfWrite

def entryRecord (mem : Memory) (id addr defId defSize sizeOfWrite : Word) :
    EntryType → Option Record
  | .defT => some (.defRec id addr)
  | .useT => some (.useRec id addr)
  | .libuseT => some (.useRec id (endOfWrite mem addr sizeOfWrite))
  | .iuseT => some (.iuseRec id defId addr)
  | .ilibuseT => some (.iuseRec id defId (endOfWrite mem addr sizeOfWrite))
  | .dallocaT => some (.ddefRec id addr defSize)
  | .novalueT => none

def eventRecord : Event → Option Record
  | (_, .collectAlloca defn addr) => some (.defRec defn addr)
  | (_, .collectAllocaDyn defn addr size) => some (.ddefRec defn addr size)
  | (_, .zuse use addr) => some (.useRec use addr)
  | (_, .ziuse use defn addr) => some (.iuseRec use defn addr)
  | (mem, .zluse use addr sizeOfWrite) => some (.useRec use (endOfWrite mem addr sizeOfWrite))
  | (mem, .ziluse use defn addr sizeOfWrite) =>
    some (.iuseRec use defn (endOfWrite mem addr sizeOfWrite))
  | (mem, .collectEntry type id addr defId defSize sizeOfWrite) =>
    entryRecord mem id addr defId defSize sizeOfWrite type

lemma sendAlloca_eq (h : State) (defn addr : Word) :
    h.sendAlloca defn addr = { h with ta := h.ta.store (.defRec defn addr) } := rfl

lemma sendAllocaDyn_eq (h : State) (defn addr size : Word) :
    h.sendAllocaDyn defn addr size = { h with ta := h.ta.store (.ddefRec defn addr size) } := rfl

lemma sendUse_eq (h : State) (use addr : Word) :
    h.sendUse use addr = { h with ta := h.ta.store (.useRec use addr) } := rfl

lemma sendIuse_eq (h : State) (use defn addr : Word) :
    h.sendIuse use defn addr = { h with ta := h.ta.store (.iuseRec use defn addr) } := rfl

lemma call_uncached {h : State} (hoff : h.cacheEnabled ≠ 1) {ev : Event} {r : Record}
    (hr : eventRecord ev = some r) : h.call ev = { h with ta := h.ta.store r } := by
  obtain ⟨mem, c⟩ := ev
  cases c with
  | collectEntry type id addr defId defSize sizeOfWrite =>
    cases type <;> simp only [eventRecord, entryRecord, Option.some.injEq, reduceCtorEq] at hr <;>
      subst hr <;> simp only [State.call, State.collectEntry, hoff, if_false, sendAlloca_eq,
        sendAllocaDyn_eq, sendUse_eq, sendIuse_eq]
  | _ =>
    simp only [eventRecord, Option.some.injEq] at hr
    subst hr
    simp only [State.call, State.collectAlloca, State.collectAllocaDyn, State.use, State.iuse,
      State.luse, State.iluse, hoff, if_false, sendAlloca_eq, sendAllocaDyn_eq, sendUse_eq,
      sendIuse_eq]

def putCache : Record → UseT → UseT
  | .defRec id addr, e => { e with defId := id, defAddr := addr }
  | .ddefRec id addr size, e => { e with defId := id, defAddr := addr, defSize := size }
  | .useRec id addr, e => { e with useId := id, useAddr := addr }
  | .iuseRec use defn addr, e => { e with iUseUse := use, iUseDef := defn, iUseAddr := addr }

def hits : Record → UseT → Bool
  | .defRec id _, e | .ddefRec id _ _, e | .useRec id _, e => e.defId = id
  | .iuseRec use defn _, e => e.defId = use && e.defId = defn

def State.used (h : State) : ℕ := (h.cacheLastIndex + 1).toNat

def State.insert (h : State) (r : Record) : State :=
  match (h.cache.take h.used).findIdx? (hits r) with
  | some i => { h with cache := h.cache.modify i (putCache r) }
  | none =>
    let h' := { h with
      cache := h.cache.modify h.used (putCache r)
      cacheLastIndex := h.cacheLastIndex + 1 }
    if h.cacheLastIndex + 1 > 120 then h'.flushCache else h'

lemma collectEntry_cached {h : State} (hon : h.cacheEnabled = 1) {mem : Memory} {type : EntryType}
    {id addr defId defSize sizeOfWrite : Word} {r : Record}
    (hr : entryRecord mem id addr defId defSize sizeOfWrite type = some r) :
    h.collectEntry mem type id addr defId defSize sizeOfWrite = h.insert r := by
  have hput : updateEntry mem type id addr defId defSize sizeOfWrite = putCache r := by
    funext e
    cases type <;> cases hr <;> rfl
  have hhits : sameEntry type id defId = hits r := by
    funext e
    cases type <;> cases hr <;> simp [sameEntry, hits]
  unfold State.collectEntry State.insert
  rw [if_pos hon]
  simp only [hput, hhits]
  rfl

lemma call_cached {h : State} (hon : h.cacheEnabled = 1) {ev : Event} {r : Record}
    (hr : eventRecord ev = some r) : h.call ev = h.insert r := by
  obtain ⟨mem, c⟩ := ev
  cases c with
  | collectEntry type id addr defId defSize sizeOfWrite => exact collectEntry_cached hon hr
  | _ =>
    simp only [State.call, State.collectAlloca, State.collectAllocaDyn, State.use, State.iuse,
      State.luse, State.iluse, hon, if_true]
    exact collectEntry_cached hon hr

def flushed (s : Ta.State) (rs : List Record) : Ta.State :=
  { s.storeAll rs with funcCtr := (s.storeAll rs).funcCtr.set 4 ((s.storeAll rs).ctr 4 + 1) }

@[simp] lemma flushed_history (s : Ta.State) (rs : List Record) :
    (flushed s rs).history = s.history ++ rs := by simp [flushed]

lemma flushCommand_returns {cache : List UseT} (hlen : cache.length = 128)
    (hblank : ∃ e ∈ cache, Ta.Blank e) (s : Ta.State) :
    (Ta.invokeCommand 0 11 memrefInout (cacheParams cache) s).map Ta.Reply.ta =
      some (flushed s (Ta.decodeEntries cache)) := by
  have hes : ∀ j (h : j < cache.length),
      UseT.ofMemory (cacheParams cache).memref.words (0 + j) = cache[j] := by
    intro j hj
    simp [cacheParams, hj]
  have hloop := Ta.flushLoop_of_blank Ta.intIndices s hes hblank
    (by simp [hlen, Ta.intIndices])
  simp only [Ta.invokeCommand, Ta.zbouncerFlushCache, ne_eq, not_true_eq_false, if_false, hloop]
  rfl

lemma flushCache_cached {h : State} (hon : h.cacheEnabled = 1) (hlen : h.cache.length = 128)
    (hblank : ∃ e ∈ h.cache, Ta.Blank e) :
    h.flushCache = { h with
      ta := flushed h.ta (Ta.decodeEntries h.cache)
      cache := clearedCache h.cache
      cacheLastIndex := -1 } := by
  simp only [State.flushCache, hon, if_true, State.invoke, flushCommand_returns hlen hblank,
    Option.getD_some]

lemma flushCache_uncached {h : State} (hoff : h.cacheEnabled ≠ 1) (hlast : h.cacheLastIndex = -1) :
    h.flushCache = { h with cache := clearedCache h.cache } := by
  simp [State.flushCache, hoff, hlast]

@[simp] lemma zexit_history (h : State) : h.zexit.ta.history = h.flushCache.ta.history := rfl

end Embedwatch.Host
