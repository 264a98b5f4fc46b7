import RedRock.Lib.Queues
import RedRock.Basic

/-!
`blocked.c`: clients that wait for an element of a list or sorted set. `blocking_keys` has the
queue of each key, a key whose value may serve somebody is put on `ready_keys` by the functions
that add it to the keyspace, and `handleClientsBlockedOnKeys` serves the queues after a command.
-/

namespace RedRock
open Lib Queues Function

/-- `LIST_HEAD` and `LIST_TAIL`, for sorted sets `ZSET_MIN` and `ZSET_MAX`. -/
inductive ListEnd where
  | head
  | tail
  deriving DecidableEq

namespace ListEnd

def push : ListEnd → List Sds → Sds → List Sds
  | .head, xs, x => x :: xs
  | .tail, xs, x => xs ++ [x]

def pop : ListEnd → List Sds → Option (Sds × List Sds)
  | _, [] => none
  | .head, x :: xs => some (x,xs)
  | .tail, x :: xs => some ((x :: xs).getLast (List.cons_ne_nil x xs),(x :: xs).dropLast)

end ListEnd

/-- `BLOCKED_LIST` and `BLOCKED_ZSET`, and the types of the values they wait for. -/
inductive BlockType where
  | list
  | zset
  deriving DecidableEq

/-- A list from its head to its tail or a sorted set from its lowest score up, such a value
when it has been dumped and the key holds the placeholder, or a value of another type. -/
inductive BlockVal where
  | coll (t : BlockType) (xs : List Sds)
  | dumped (t : BlockType) (xs : List Sds)
  | other
  deriving DecidableEq

abbrev DbKey (n : Nat) : Type := Fin (n+1) × Sds

/-- `c->bpop` of a blocked client with its database and the end its command takes from. -/
structure Bpop (n : Nat) where
  db : Fin (n+1)
  btype : BlockType
  keys : List Sds
  target : Option Sds
  side : ListEnd
  deriving DecidableEq

def Bpop.dbKeys {n : Nat} (b : Bpop n) : List (DbKey n) := b.keys.map fun key => (b.db,key)

inductive PopEvent (n : Nat) where
  | push (k : DbKey n) (side : ListEnd) (vals : List Sds)
  | pop (c : ClientId) (k : DbKey n) (side : ListEnd) (x : Sds)
  | wait (c : ClientId) (ks : List (DbKey n)) (side : ListEnd)
  | serve (c : ClientId) (k : DbKey n) (x : Sds)
  deriving DecidableEq

/-- `bpop` is defined for the clients that are `CLIENT_BLOCKED`, `dbReadyKeys` is
`db->ready_keys` of all databases, and `log` records what happens. -/
structure BlockServer (n : Nat) where
  dict : DbKey n → Option BlockVal
  blockingKeys : Queues (DbKey n) ClientId
  bpop : ClientId → Option (Bpop n)
  readyKeys : List (DbKey n)
  dbReadyKeys : DbKey n → Bool
  blockedClients : Nat
  log : List (PopEvent n)

/-- Where the server stops: the panic in `unblockClient`, the two assertions in
`unblockClientWaitingData`, and reading the first client of an empty queue. -/
inductive BlockFault where
  | unknownBtype
  | noKeys
  | notInQueue
  | emptyQueue
  deriving DecidableEq

/-- `put` leaves `xs` in place of a list or sorted set and creates it if it was missing: ZADD,
ZINCRBY, ZREM, LPUSHX, LSET, LTRIM and so on. `set` writes a string, `make` stands for the
commands that create another type. `store` is SORT with STORE and GEORADIUS with STORE,
`zstore` ZUNIONSTORE and ZINTERSTORE. -/
inductive BlockCommand (n : Nat) where
  | push (key : Sds) (vals : List Sds) (side : ListEnd)
  | pop (key : Sds) (side : ListEnd)
  | rpoplpush (src dst : Sds)
  | bpop (t : BlockType) (keys : List Sds) (side : ListEnd)
  | brpoplpush (src dst : Sds)
  | put (t : BlockType) (key : Sds) (xs : List Sds)
  | set (key : Sds)
  | make (key : Sds)
  | store (t : BlockType) (key : Sds) (xs : List Sds)
  | zstore (key : Sds) (xs : List Sds)
  | del (keys : List Sds)
  | rename (src dst : Sds) (nx : Bool)
  | move (key : Sds) (dst : Fin (n+1))
  | swapdb (i j : Fin (n+1))
  | flushdb
  | flushall

/-- `exec` runs the commands of a transaction, each in the database selected then. `unblock` is
a timeout, CLIENT UNBLOCK or the end of the connection. -/
inductive BlockAct (n : Nat) where
  | call (c : ClientId) (d : Fin (n+1)) (q : BlockCommand n)
  | exec (c : ClientId) (qs : List (Fin (n+1) × BlockCommand n))
  | unblock (c : ClientId)
  | dump (k : DbKey n)
  | restore (k : DbKey n)

/-- The first of the keys from which a blocking pop can take. -/
inductive PopSearch where
  | found (key : Sds)
  | wrongType
  | nothing
  deriving DecidableEq

namespace BlockServer
variable {n : Nat} (s : BlockServer n)

def signalKeyAsReady (k : DbKey n) : BlockServer n :=
  if k ∉ s.blockingKeys then s
  else if s.dbReadyKeys k then s
  else { s with
    readyKeys := s.readyKeys ++ [k]
    dbReadyKeys := update s.dbReadyKeys k true }

def setVal (k : DbKey n) (v : Option BlockVal) : BlockServer n :=
  { s with dict := update s.dict k v }

/-- The key is signalled by the type of the object, which for a dumped value is a string. -/
def dbAdd (k : DbKey n) (v : BlockVal) : BlockServer n :=
  match v with
  | .coll _ _ => (s.setVal k (some v)).signalKeyAsReady k
  | _ => s.setVal k (some v)

def dbOverwrite (k : DbKey n) (v : BlockVal) : BlockServer n := s.setVal k (some v)

def dbDelete (k : DbKey n) : BlockServer n := s.setVal k none

def setKey (k : DbKey n) (v : BlockVal) : BlockServer n :=
  match s.dict k with
  | none => s.dbAdd k v
  | some _ => s.dbOverwrite k v

def note (e : PopEvent n) : BlockServer n := { s with log := s.log ++ [e] }

def popVal (t : BlockType) (k : DbKey n) (side : ListEnd) : Option (Sds × BlockServer n) :=
  match s.dict k with
  | some (.coll t' xs) =>
    if t' = t then (side.pop xs).map fun r => (r.1,s.setVal k (some (.coll t r.2))) else none
  | _ => none

def deleteIfEmpty (k : DbKey n) : BlockServer n :=
  match s.dict k with
  | some (.coll _ []) => s.dbDelete k
  | _ => s

def listTypePush (k : DbKey n) (side : ListEnd) (x : Sds) : BlockServer n :=
  match s.dict k with
  | some (.coll .list xs) => s.setVal k (some (.coll .list (side.push xs x)))
  | _ => s

def blockForKey (c : ClientId) (d : Fin (n+1)) (x : List Sds × Queues (DbKey n) ClientId)
    (key : Sds) : List Sds × Queues (DbKey n) ClientId :=
  if key ∈ x.1 then x else (x.1 ++ [key],enter c x.2 (d,key))

def blockForKeys (c : ClientId) (d : Fin (n+1)) (t : BlockType) (keys : List Sds)
    (target : Option Sds) (side : ListEnd) : BlockServer n :=
  let x := keys.foldl (blockForKey c d) ([],s.blockingKeys)
  let b : Bpop n := ⟨d,t,x.1,target,side⟩
  { s with
    bpop := update s.bpop c (some b)
    blockingKeys := x.2
    blockedClients := s.blockedClients + 1
    log := s.log ++ [.wait c b.dbKeys side] }

def unblockClient (c : ClientId) : Except BlockFault (BlockServer n) :=
  match s.bpop c with
  | none => .error .unknownBtype
  | some b =>
    if b.keys = [] then .error .noKeys
    else
      match b.dbKeys.foldlM (leave c) s.blockingKeys with
      | none => .error .notInQueue
      | some q => .ok { s with
          blockingKeys := q
          bpop := update s.bpop c none
          blockedClients := s.blockedClients - 1 }

def rpoplpushHandlePush (k : DbKey n) (x : Sds) : BlockServer n :=
  match s.dict k with
  | none => s.dbAdd k (.coll .list [x])
  | some _ => s.listTypePush k .head x

/-- `target` is the destination of BRPOPLPUSH. The second result is `C_OK`. -/
def serveClientBlockedOnList (c : ClientId) (k : DbKey n) (target : Option (DbKey n))
    (x : Sds) : BlockServer n × Bool :=
  match target with
  | none => (s.note (.serve c k x),true)
  | some dst =>
    match s.dict dst with
    | none | some (.coll .list _) => ((s.rpoplpushHandlePush dst x).note (.serve c k x),true)
    | some _ => (s,false)

def rotate (k : DbKey n) (c : ClientId) (cs : List ClientId) : BlockServer n :=
  { s with blockingKeys := put s.blockingKeys k (cs ++ [c]) }

/-- The loop of `serveClientsBlockedOnListKey` over `numclients`. -/
def serveList (k : DbKey n) : Nat → BlockServer n → Except BlockFault (BlockServer n)
  | 0, s => .ok s
  | m+1, s =>
    match queue s.blockingKeys k with
    | [] => .error .emptyQueue
    | c :: cs =>
      match (s.bpop c).filter (·.btype = .list) with
      | none => serveList k m (s.rotate k c cs)
      | some b =>
        match s.popVal .list k b.side with
        | none => .ok s
        | some (x,s) => do
          let s ← s.unblockClient c
          match s.serveClientBlockedOnList c k (b.target.map fun dst => (b.db,dst)) x with
          | (s,true) => serveList k m s
          | (s,false) => serveList k m (s.listTypePush k b.side x)

def serveClientsBlockedOnListKey (k : DbKey n) : Except BlockFault (BlockServer n) := do
  let s ← serveList k (queue s.blockingKeys k).length s
  return s.deleteIfEmpty k

def genericZpopCommand (c : ClientId) (k : DbKey n) (side : ListEnd) : BlockServer n :=
  match s.popVal .zset k side with
  | none => s
  | some (x,s) => (s.deleteIfEmpty k).note (.serve c k x)

/-- The loop of `serveClientsBlockedOnSortedSetKey` over `numclients` and `zcard`. -/
def serveZset (k : DbKey n) : Nat → Nat → BlockServer n → Except BlockFault (BlockServer n)
  | 0, _, s => .ok s
  | _+1, 0, s => .ok s
  | m+1, z+1, s =>
    match queue s.blockingKeys k with
    | [] => .error .emptyQueue
    | c :: cs =>
      match (s.bpop c).filter (·.btype = .zset) with
      | none => serveZset k m (z+1) (s.rotate k c cs)
      | some b => do
        let s ← s.unblockClient c
        serveZset k m z (s.genericZpopCommand c (b.db,k.2) b.side)

def handleKey (k : DbKey n) : Except BlockFault (BlockServer n) :=
  let s := { s with dbReadyKeys := update s.dbReadyKeys k false }
  match s.dict k with
  | some (.coll .list _) => s.serveClientsBlockedOnListKey k
  | some (.coll .zset xs) => serveZset k (queue s.blockingKeys k).length xs.length s
  | _ => .ok s

/-- The loop of `handleClientsBlockedOnKeys`: each round takes the keys that are ready. -/
def handleRounds : Nat → BlockServer n → Except BlockFault (BlockServer n)
  | 0, s => .ok s
  | m+1, s =>
    if s.readyKeys = [] then .ok s
    else do
      let s ← s.readyKeys.foldlM handleKey { s with readyKeys := [] }
      handleRounds m s

/-- A round that makes more keys ready has unblocked a client, which bounds the rounds. -/
def handleClientsBlockedOnKeys : Except BlockFault (BlockServer n) :=
  handleRounds (s.blockedClients + 1) s

def popSearch (t : BlockType) (d : Fin (n+1)) : List Sds → PopSearch
  | [] => .nothing
  | key :: keys =>
    match s.dict (d,key) with
    | none => popSearch t d keys
    | some (.coll t' xs) =>
      if t' ≠ t then .wrongType
      else if xs = [] then popSearch t d keys
      else .found key
    | some _ => .wrongType

/-- `blockingPopGenericCommand` and `blockingGenericZpopCommand`. -/
def blockingPopGenericCommand (c : ClientId) (d : Fin (n+1)) (multi : Bool) (t : BlockType)
    (keys : List Sds) (side : ListEnd) : BlockServer n :=
  match s.popSearch t d keys with
  | .wrongType => s
  | .found key =>
    match s.popVal t (d,key) side with
    | none => s
    | some (x,s) => (s.deleteIfEmpty (d,key)).note (.pop c (d,key) side x)
  | .nothing => if multi || keys.isEmpty then s else s.blockForKeys c d t keys none side

def rpoplpushCommand (c : ClientId) (d : Fin (n+1)) (src dst : Sds) : BlockServer n :=
  match s.dict (d,dst) with
  | none | some (.coll .list _) =>
    match s.popVal .list (d,src) .tail with
    | none => s
    | some (x,s) =>
      ((s.rpoplpushHandlePush (d,dst) x).deleteIfEmpty (d,src)).note (.pop c (d,src) .tail x)
  | some _ => s

def brpoplpushCommand (c : ClientId) (d : Fin (n+1)) (multi : Bool) (src dst : Sds) :
    BlockServer n :=
  match s.dict (d,src) with
  | none => if multi then s else s.blockForKeys c d .list [src] (some dst) .tail
  | some (.coll .list _) => s.rpoplpushCommand c d src dst
  | some _ => s

def pushGenericCommand (k : DbKey n) (vals : List Sds) (side : ListEnd) : BlockServer n :=
  if vals = [] then s
  else
    match s.dict k with
    | none => (s.dbAdd k (.coll .list (vals.foldl side.push []))).note (.push k side vals)
    | some (.coll .list xs) =>
      (s.setVal k (some (.coll .list (vals.foldl side.push xs)))).note (.push k side vals)
    | some _ => s

def renameGenericCommand (d : Fin (n+1)) (src dst : Sds) (nx : Bool) : BlockServer n :=
  match s.dict (d,src) with
  | none => s
  | some o =>
    if src = dst then s
    else if (s.dict (d,dst)).isSome && nx then s
    else ((s.dbDelete (d,dst)).dbAdd (d,dst) o).dbDelete (d,src)

def moveCommand (key : Sds) (src dst : Fin (n+1)) : BlockServer n :=
  match s.dict (src,key) with
  | none => s
  | some o =>
    if src = dst then s
    else if (s.dict (dst,key)).isSome then s
    else (s.dbAdd (dst,key) o).dbDelete (src,key)

def scanKey (s : BlockServer n) (k : DbKey n) : BlockServer n :=
  match s.dict k with
  | some (.coll _ _) => s.signalKeyAsReady k
  | _ => s

def scanDatabaseForReadyLists (d : Fin (n+1)) : BlockServer n :=
  (s.blockingKeys.keys.filter fun k => k.1 = d).foldl scanKey s

def exchanged (i j : Fin (n+1)) (k : DbKey n) : Option BlockVal :=
  if k.1 = i then s.dict (j,k.2) else if k.1 = j then s.dict (i,k.2) else s.dict k

def dbSwapDatabases (i j : Fin (n+1)) : BlockServer n :=
  if i = j then s
  else
    let s := { s with dict := s.exchanged i j }
    (s.scanDatabaseForReadyLists i).scanDatabaseForReadyLists j

def putCommand (t : BlockType) (k : DbKey n) (xs : List Sds) : BlockServer n :=
  match s.dict k with
  | none => if xs = [] then s else s.dbAdd k (.coll t xs)
  | some (.coll t' _) =>
    if t' ≠ t then s
    else if xs = [] then s.dbDelete k
    else s.setVal k (some (.coll t xs))
  | some _ => s

def proc (c : ClientId) (d : Fin (n+1)) (multi : Bool) : BlockCommand n → BlockServer n
  | .push key vals side => s.pushGenericCommand (d,key) vals side
  | .pop key side =>
    match s.popVal .list (d,key) side with
    | none => s
    | some (x,s) => (s.deleteIfEmpty (d,key)).note (.pop c (d,key) side x)
  | .rpoplpush src dst => s.rpoplpushCommand c d src dst
  | .bpop t keys side => s.blockingPopGenericCommand c d multi t keys side
  | .brpoplpush src dst => s.brpoplpushCommand c d multi src dst
  | .put t key xs => s.putCommand t (d,key) xs
  | .set key => s.setKey (d,key) .other
  | .make key => if (s.dict (d,key)).isNone then s.dbAdd (d,key) .other else s
  | .store t key xs => if xs = [] then s.dbDelete (d,key) else s.setKey (d,key) (.coll t xs)
  | .zstore key xs =>
    if xs = [] then s.dbDelete (d,key) else (s.dbDelete (d,key)).dbAdd (d,key) (.coll .zset xs)
  | .del keys => keys.foldl (fun s key => s.dbDelete (d,key)) s
  | .rename src dst nx => s.renameGenericCommand d src dst nx
  | .move key dst => s.moveCommand key d dst
  | .swapdb i j => s.dbSwapDatabases i j
  | .flushdb => { s with dict := fun k => if k.1 = d then none else s.dict k }
  | .flushall => { s with dict := fun _ => none }

def step : BlockAct n → Option (Except BlockFault (BlockServer n))
  | .call c d q =>
    if (s.bpop c).isSome then none else some (s.proc c d false q).handleClientsBlockedOnKeys
  | .exec c qs =>
    if (s.bpop c).isSome then none
    else some (qs.foldl (fun s x => s.proc c x.1 true x.2) s).handleClientsBlockedOnKeys
  | .unblock c => if (s.bpop c).isSome then some (s.unblockClient c) else none
  | .dump k =>
    match s.dict k with
    | some (.coll t xs) => some (.ok (s.setVal k (some (.dumped t xs))))
    | _ => none
  | .restore k =>
    match s.dict k with
    | some (.dumped t xs) => some (.ok (s.setVal k (some (.coll t xs))))
    | _ => none

end BlockServer

def blockServer (n : Nat) : Machine (BlockServer n) (BlockAct n) BlockFault where
  init := ⟨fun _ => none,∅,fun _ => none,[],fun _ => false,0,[]⟩
  step := BlockServer.step

end RedRock
