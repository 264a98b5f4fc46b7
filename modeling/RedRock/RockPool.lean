import RedRock.Keyspace
import RedRock.Lib.TopPool

/-!
The pools of candidates: `rockPoolPopulate` of `rock_hotkey.c` and `evictionPoolPopulate` of
`evict.c`. A slot owns one buffer for short keys, and a long key is a string of its own. The pool
stands for a list of candidates sorted by idle time, of which it keeps the best.
-/

namespace RedRock
open Lib

def RKPOOL_SIZE : Nat := 16
def RKPOOL_CACHED_SDS_SIZE : Nat := 255
def EVPOOL_SIZE : Nat := 16
def EVPOOL_CACHED_SDS_SIZE : Nat := 255

abbrev SdsPtr : Type := Nat

abbrev SdsHeap : Type := Dict SdsPtr Sds

/-- `zmalloc` returns an address that is not in use. -/
structure Zmalloc where
  alloc : SdsHeap → SdsPtr
  fresh : ∀ h, alloc h ∉ h

/-- `struct rockPoolEntry` and `struct evictionPoolEntry`. -/
structure PoolEntry where
  idle : Nat
  key : Option SdsPtr
  cached : SdsPtr
  dbid : Nat
  deriving DecidableEq

structure Pool where
  entries : List PoolEntry
  heap : SdsHeap

structure Candidate where
  key : Sds
  dbid : Nat
  idle : Nat
  deriving DecidableEq

/-- `notAllocated` is a string freed twice or written after it was freed, `noEntry` a sampled key
without an entry in the dictionary, where `rockPoolPopulate` calls `exit`. -/
inductive PoolFault where
  | outOfBounds
  | memcpy
  | notAllocated
  | noEntry
  | unknownPolicy
  deriving DecidableEq

def memmove {α : Type} (xs : List α) (dst src n : Nat) : List α :=
  xs.take dst ++ (xs.drop src).take n ++ xs.drop (dst + n)

def sdsfree (h : SdsHeap) (s : SdsPtr) : Except PoolFault SdsHeap :=
  if s ∈ h then .ok (h.erase s) else .error .notAllocated

/-- `if (pool[k].key != pool[k].cached) sdsfree(pool[k].key)`. -/
def PoolEntry.release (e : PoolEntry) (h : SdsHeap) : Except PoolFault SdsHeap :=
  match e.key with
  | none => .ok h
  | some s => if s = e.cached then .ok h else sdsfree h s

/-- `rockPoolAlloc` and `evictionPoolAlloc`. -/
def poolAlloc (z : Zmalloc) (cachedSize : Nat) : Nat → SdsHeap → Pool
  | 0, h => ⟨[],h⟩
  | j+1, h =>
    let cached := z.alloc h
    let rest := poolAlloc z cachedSize j (h.insert cached (List.replicate cachedSize 0))
    ⟨⟨0,none,cached,0⟩ :: rest.entries,rest.heap⟩

/-- `while (k < SIZE && pool[k].key && pool[k].idle < idle) k++`. -/
def poolFind (idle : Nat) : List PoolEntry → Nat
  | [] => 0
  | e :: es => if e.key.isSome ∧ e.idle < idle then poolFind idle es + 1 else 0

namespace Pool

def slot (p : Pool) (k : Nat) : Except PoolFault PoolEntry :=
  match p.entries[k]? with
  | some e => .ok e
  | none => .error .outOfBounds

def isEmptyAt (p : Pool) (k : Nat) : Bool := p.entries[k]?.any fun e => e.key.isNone

def setCached (es : List PoolEntry) (k : Nat) (cached : SdsPtr) : List PoolEntry :=
  es.modify k fun e => { e with cached := cached }

def shiftRight (size : Nat) (p : Pool) (k : Nat) : Except PoolFault Pool := do
  let last ← p.slot (size - 1)
  return { p with entries := setCached (memmove p.entries (k + 1) k (size - k - 1)) k last.cached }

def shiftLeft (p : Pool) (k : Nat) : Except PoolFault Pool := do
  let first ← p.slot 0
  let heap ← first.release p.heap
  return ⟨setCached (memmove p.entries 0 1 k) k first.cached,heap⟩

/-- The slot for a new candidate, after the others have been shifted. A candidate that is worse
than a full pool gets none. -/
def room (size : Nat) (p : Pool) (idle : Nat) : Except PoolFault (Option (Nat × Pool)) := do
  let last ← p.slot (size - 1)
  let k := poolFind idle p.entries
  if k = 0 ∧ last.key.isSome then .ok none
  else if p.isEmptyAt k then .ok (some (k,p))
  else if last.key.isNone then (p.shiftRight size k).map fun q => some (k,q)
  else (p.shiftLeft (k - 1)).map fun q => some (k - 1,q)

end Pool

/-- The length of the key goes through an `int`. When that is negative, `memcpy` gets a length of
nearly `2^64`. -/
def storeKey (z : Zmalloc) (cachedSize : Nat) (cached : SdsPtr) (key : Sds) (h : SdsHeap) :
    Except PoolFault (SdsPtr × SdsHeap) :=
  let klen := (BitVec.ofNat 32 key.length).toInt
  if (cachedSize : Int) < klen then .ok (z.alloc h,h.insert (z.alloc h) key)
  else if klen < 0 then .error .memcpy
  else if cached ∈ h then .ok (cached,h.insert cached (key.take klen.toNat))
  else .error .notAllocated

namespace Pool

def put (z : Zmalloc) (cachedSize : Nat) (p : Pool) (k : Nat) (c : Candidate) :
    Except PoolFault Pool := do
  let e ← p.slot k
  let (s,heap) ← storeKey z cachedSize e.cached c.key p.heap
  return ⟨p.entries.set k ⟨c.idle,some s,e.cached,c.dbid⟩,heap⟩

def insert (z : Zmalloc) (size cachedSize : Nat) (p : Pool) (c : Candidate) :
    Except PoolFault Pool := do
  match ← p.room size c.idle with
  | none => return p
  | some (k,q) => q.put z cachedSize k c

/-- One turn of the loop that goes backward from the best candidate: the slot it finds is emptied.
The string is read for `dictFind` before it is freed. -/
def removeBelow (p : Pool) : Nat → Except PoolFault (Option (Sds × Nat) × Pool)
  | 0 => .ok (none,p)
  | k+1 => do
    let e ← p.slot k
    match e.key with
    | none => p.removeBelow k
    | some s =>
      match p.heap.lookup s with
      | none => .error .notAllocated
      | some key => do
        let heap ← e.release p.heap
        return (some (key,e.dbid),⟨p.entries.set k { e with key := none, idle := 0 },heap⟩)

def removeRight (size : Nat) (p : Pool) : Except PoolFault (Option (Sds × Nat) × Pool) :=
  p.removeBelow size

end Pool

inductive MaxmemoryPolicy where
  | volatileLru
  | volatileLfu
  | volatileTtl
  | volatileRandom
  | allkeysLru
  | allkeysLfu
  | allkeysRandom
  | noEviction
  deriving DecidableEq

def MaxmemoryPolicy.flagLru : MaxmemoryPolicy → Bool
  | .volatileLru | .allkeysLru => true
  | _ => false

def MaxmemoryPolicy.flagLfu : MaxmemoryPolicy → Bool
  | .volatileLfu | .allkeysLfu => true
  | _ => false

/-- What the scores depend on besides the objects: `LRU_CLOCK`, `LFUGetTimeInMinutes`,
`server.lfu_decay_time`, the `lru` field of `shared.valueInRock`, and where the objects are. -/
structure IdleClock where
  lruclock : Nat
  minutes : Nat
  lfuDecayTime : Nat
  valueInRockLru : BitVec 24
  address : Sds → Nat

namespace IdleClock
variable (t : IdleClock)

def LRU_CLOCK_MAX : Nat := 2 ^ 24 - 1
def LRU_CLOCK_RESOLUTION : Nat := 1000

def estimateObjectIdleTime (lru : BitVec 24) : Nat :=
  if lru.toNat ≤ t.lruclock then (t.lruclock - lru.toNat) * LRU_CLOCK_RESOLUTION
  else (t.lruclock + (LRU_CLOCK_MAX - lru.toNat)) * LRU_CLOCK_RESOLUTION

def lfuTimeElapsed (ldt : Nat) : Nat :=
  if ldt ≤ t.minutes then t.minutes - ldt else 65535 - ldt + t.minutes

def lfuDecrAndReturn (lru : BitVec 24) : Nat :=
  let ldt := lru.toNat / 256
  let counter := lru.toNat % 256
  let numPeriods := if t.lfuDecayTime = 0 then 0 else t.lfuTimeElapsed ldt / t.lfuDecayTime
  counter - numPeriods

def lru : DbVal → BitVec 24
  | .valueInRock => t.valueInRockLru
  | .mem o => o.lru

def rockIdle (policy : MaxmemoryPolicy) (keydict : Dict Sds DbVal) (key : Sds) :
    Except PoolFault Nat :=
  match keydict.lookup key with
  | none => .error .noEntry
  | some o =>
    if policy.flagLfu then .ok (255 - t.lfuDecrAndReturn (t.lru o))
    else if policy.flagLru then .ok (t.estimateObjectIdleTime (t.lru o))
    else .ok (2 ^ 64 - 1 - t.address key)

def lruIdle : DbVal → Nat
  | .valueInRock => 2 ^ 64 - 1
  | .mem o => t.estimateObjectIdleTime o.lru

def lfuIdle : DbVal → Nat
  | .valueInRock => 255
  | .mem o => 255 - t.lfuDecrAndReturn o.lru

/-- The expire is a `long` that is taken from an unsigned number. -/
def evictionIdle (policy : MaxmemoryPolicy) (keydict : Dict Sds DbVal) (expires : Dict Sds Int)
    (key : Sds) : Except PoolFault Nat :=
  if policy = .volatileTtl then
    match expires.lookup key with
    | none => .error .noEntry
    | some expire => .ok ((2 ^ 64 - 1 - expire) % 2 ^ 64).toNat
  else
    match keydict.lookup key with
    | none => .error .noEntry
    | some o =>
      if policy.flagLru then .ok (t.lruIdle o)
      else if policy.flagLfu then .ok (t.lfuIdle o)
      else .error .unknownPolicy

end IdleClock

def poolPopulate (z : Zmalloc) (size cachedSize : Nat) (idle : Sds → Except PoolFault Nat)
    (dbid : Nat) : List Sds → Pool → Except PoolFault Pool
  | [], p => .ok p
  | key :: samples, p => do
    let i ← idle key
    let p ← p.insert z size cachedSize ⟨key,dbid,i⟩
    poolPopulate z size cachedSize idle dbid samples p

def rockPoolPopulate (z : Zmalloc) (t : IdleClock) (policy : MaxmemoryPolicy)
    (keydict : Dict Sds DbVal) (dbid : Nat) (samples : List Sds) (p : Pool) :
    Except PoolFault Pool :=
  poolPopulate z RKPOOL_SIZE RKPOOL_CACHED_SDS_SIZE (t.rockIdle policy keydict) dbid samples p

def evictionPoolPopulate (z : Zmalloc) (t : IdleClock) (policy : MaxmemoryPolicy)
    (keydict : Dict Sds DbVal) (expires : Dict Sds Int) (dbid : Nat) (samples : List Sds)
    (p : Pool) : Except PoolFault Pool :=
  poolPopulate z EVPOOL_SIZE EVPOOL_CACHED_SDS_SIZE (t.evictionIdle policy keydict expires) dbid
    samples p

end RedRock
