import RedRock.StreamLog

/-!
Consumer groups of one stream. The record of a pending entry, the NACK, is shared by the pending
entries list (PEL) of its group and that of one consumer. Records and consumers are read and
written through their addresses; to use an address after it has been freed is a fault.
-/

namespace RedRock
open Lib Function StreamID

inductive StreamFault where
  | useAfterFree
  | nullConsumer
  | nackNotFound
  | nackHalfCreated
  deriving DecidableEq

structure StreamNACK where
  deliveryTime : Int
  deliveryCount : Nat
  consumer : Option Nat

structure StreamConsumer where
  name : Sds
  pel : Rax StreamID Nat

/-- A group, with the memory that its records and consumers are in. An address that was freed is
not used again here, so that what still refers to it is noticed. -/
structure StreamCG where
  lastId : StreamID
  pel : Rax StreamID Nat
  consumers : Rax Sds Nat
  nackAt : Nat → Option StreamNACK
  consumerAt : Nat → Option StreamConsumer
  next : Nat

namespace StreamCG
variable (g : StreamCG)

def streamCreateCG (id : StreamID) : StreamCG := ⟨id,∅,∅,fun _ => none,fun _ => none,0⟩

def readNACK (p : Nat) : Except StreamFault StreamNACK :=
  match g.nackAt p with
  | some n => .ok n
  | none => .error .useAfterFree

def readConsumer (c : Nat) : Except StreamFault StreamConsumer :=
  match g.consumerAt c with
  | some k => .ok k
  | none => .error .useAfterFree

def writeNACK (p : Nat) (n : StreamNACK) : StreamCG :=
  { g with nackAt := update g.nackAt p (some n) }

def writeConsumer (c : Nat) (k : StreamConsumer) : StreamCG :=
  { g with consumerAt := update g.consumerAt c (some k) }

def streamFreeNACK (p : Nat) : Except StreamFault StreamCG :=
  match g.nackAt p with
  | some _ => .ok { g with nackAt := update g.nackAt p none }
  | none => .error .useAfterFree

/-- `raxInsert` and `raxRemove` on the PEL of a consumer. -/
def consumerInsert (c : Nat) (id : StreamID) (p : Nat) : Except StreamFault StreamCG := do
  let k ← g.readConsumer c
  return g.writeConsumer c { k with pel := k.pel.insert id p }

def consumerRemove (c : Nat) (id : StreamID) : Except StreamFault StreamCG := do
  let k ← g.readConsumer c
  return g.writeConsumer c { k with pel := k.pel.remove id }

def groupInsert (id : StreamID) (p : Nat) : StreamCG := { g with pel := g.pel.insert id p }

def groupRemove (id : StreamID) : StreamCG := { g with pel := g.pel.remove id }

def streamCreateNACK (now : Int) (consumer : Option Nat) : Nat × StreamCG :=
  (g.next,{ g with
    nackAt := update g.nackAt g.next (some ⟨now,1,consumer⟩)
    next := g.next + 1 })

/-- The consumer is created when it does not exist. -/
def streamLookupConsumer (name : Sds) : Nat × StreamCG :=
  match g.consumers.find name with
  | some c => (c,g)
  | none => (g.next,{ g with
      consumers := g.consumers.insert name g.next
      consumerAt := update g.consumerAt g.next (some ⟨name,∅⟩)
      next := g.next + 1 })

def freePending : List (StreamID × Nat) → StreamCG → Except StreamFault StreamCG
  | [], g => .ok g
  | (id,p) :: es, g => do
    let g ← (g.groupRemove id).streamFreeNACK p
    freePending es g

/-- The number of entries that were pending for the consumer is the answer. -/
def streamDelConsumer (name : Sds) : Except StreamFault (Nat × StreamCG) :=
  match g.consumers.find name with
  | none => .ok (0,g)
  | some c => do
    let k ← g.readConsumer c
    let g ← freePending k.pel.entries g
    return (k.pel.entries.length,{ g with
      consumers := g.consumers.remove name
      consumerAt := update g.consumerAt c none })

def reassign (now : Int) (c : Nat) (id : StreamID) (p : Nat) : Except StreamFault StreamCG := do
  let n ← g.readNACK p
  match n.consumer with
  | none => throw .nullConsumer
  | some old => do
    let g ← g.consumerRemove old id
    (g.writeNACK p ⟨now,1,some c⟩).consumerInsert c id p

/-- The part of `streamReplyWithRange` that makes the NACK of an entry. Its address is the
answer. -/
def deliver (now : Int) (c : Nat) (id : StreamID) : Except StreamFault (Nat × StreamCG) := do
  let (p,g) := g.streamCreateNACK now (some c)
  let groupInserted := (g.pel.find id).isNone
  let g := if groupInserted then g.groupInsert id p else g
  let k ← g.readConsumer c
  let consumerInserted := (k.pel.find id).isNone
  let g := if consumerInserted then g.writeConsumer c { k with pel := k.pel.insert id p } else g
  if groupInserted = false then do
    let g ← g.streamFreeNACK p
    match g.pel.find id with
    | none => throw .nackNotFound
    | some p => do
      let g ← g.reassign now c id p
      return (p,g)
  else if consumerInserted = false then throw .nackHalfCreated
  else return (p,g)

end StreamCG

/-- The options of `XCLAIM`: `none` is an option that is not given. -/
inductive XclaimTime where
  | idle (ms : Int)
  | time (ms : Int)

structure XclaimOptions where
  deliverytime : Option XclaimTime
  retrycount : Int
  force : Bool
  justid : Bool
  lastid : StreamID

/-- `MAXLEN`. How much an approximate trim leaves depends on the nodes of the stream, and is at
least what is asked for. -/
inductive StreamTrim where
  | exact (maxlen : Nat)
  | approx (maxlen left : Nat)

/-- The commands on the stream, after their arguments have been parsed. An identifier that is
`none` is `*` for `XADD` and `$` for `XGROUP`; for `XACK` it is one that is not valid. The
identifier `>` of `XREADGROUP` is the greatest one. -/
inductive StreamCommand where
  | xadd (id : Option StreamID) (fields : StreamFields) (maxlen : Option StreamTrim)
  | xdel (ids : List StreamID)
  | xtrim (maxlen : StreamTrim)
  | xgroupCreate (group : Sds) (id : Option StreamID) (mkstream : Bool)
  | xgroupSetid (group : Sds) (id : Option StreamID)
  | xgroupDestroy (group : Sds)
  | xgroupDelconsumer (group consumer : Sds)
  | xreadgroup (group consumer : Sds) (id : StreamID) (count : Nat) (noack : Bool)
  | xclaim (group consumer : Sds) (minidle : Int) (ids : List StreamID) (opts : XclaimOptions)
  | xack (group : Sds) (ids : List (Option StreamID))

inductive StreamError where
  | wrongArguments
  | zeroId
  | exhausted
  | smallerId
  | noKey
  | noGroup
  | busyGroup
  | invalidId
  deriving DecidableEq

inductive StreamReply where
  | ok
  | null
  | num (n : Nat)
  | id (id : StreamID)
  | ids (ids : List StreamID)
  | entries (es : List (StreamID × Option StreamFields))
  | error (e : StreamError)
  deriving DecidableEq

namespace StreamCG
variable (g : StreamCG) (log : StreamLog)

def streamPropagateXCLAIM (group : Sds) (id : StreamID) (p : Nat) :
    Except StreamFault StreamCommand := do
  let n ← g.readNACK p
  match n.consumer with
  | none => throw .nullConsumer
  | some c => do
    let k ← g.readConsumer c
    return .xclaim group k.name 0 [id]
      ⟨some (.time n.deliveryTime),n.deliveryCount,true,true,g.lastId⟩

def streamPropagateGroupID (group : Sds) : StreamCommand := .xgroupSetid group (some g.lastId)

def raiseLastId (id : StreamID) : StreamCG :=
  if g.lastId < id then { g with lastId := id } else g

/-- The loop of `streamReplyWithRange` over the entries for a group. Once the last identifier has
been raised it is propagated with every entry. -/
def replyLoop (group : Sds) (now : Int) (c : Nat) (noack : Bool) :
    List (StreamID × StreamFields) → Bool → StreamCG →
      Except StreamFault (StreamCG × List StreamCommand)
  | [], _, g => .ok (g,[])
  | (id,_) :: es, propagateLastId, g => do
    let propagateLastId := propagateLastId || decide (g.lastId < id)
    let g := g.raiseLastId id
    if noack then do
      let (g',cmds) ← replyLoop group now c noack es propagateLastId g
      return (g',if propagateLastId then g.streamPropagateGroupID group :: cmds else cmds)
    else do
      let (p,g) ← g.deliver now c id
      let cmd ← g.streamPropagateXCLAIM group id p
      let (g,cmds) ← replyLoop group now c noack es propagateLastId g
      return (g,cmd :: cmds)

/-- What is delivered again counts, if it is still in the stream. -/
def redeliver (now : Int) (id : StreamID) (p : Nat) : Except StreamFault StreamCG :=
  if log.has id then do
    let n ← g.readNACK p
    return g.writeNACK p { n with deliveryTime := now, deliveryCount := n.deliveryCount + 1 }
  else .ok g

def historyLoop (now : Int) : List (StreamID × Nat) → StreamCG → Except StreamFault StreamCG
  | [], g => .ok g
  | (id,p) :: es, g => do
    let g ← g.redeliver log now id p
    historyLoop now es g

def takeCount {α : Type} (count : Nat) (l : List α) : List α := if count = 0 then l else l.take count

def xreadgroup (group consumer : Sds) (now : Int) (id : StreamID) (count : Nat) (noack : Bool) :
    Except StreamFault (StreamReply × StreamCG × List StreamCommand) :=
  if id ≠ max then do
    let (c,g) := g.streamLookupConsumer consumer
    let k ← g.readConsumer c
    let es := takeCount count (k.pel.entries.filter (id.streamIncrID ≤ ·.1))
    let g ← historyLoop log now es g
    return (.entries (es.map fun e =>
      (e.1,(log.entries.find? (·.1 = e.1)).map Prod.snd)),g,[])
  else if log.entries ≠ [] ∧ g.lastId < log.lastId then do
    let (c,g) := g.streamLookupConsumer consumer
    let es := takeCount count (log.entries.filter (g.lastId.streamIncrID ≤ ·.1))
    let (g,cmds) ← replyLoop group now c noack es false g
    return (.entries (es.map fun e => (e.1,some e.2)),g,cmds)
  else return (.null,g,[])

def tooFresh (now minidle : Int) (n : StreamNACK) : Bool :=
  n.consumer.isSome && minidle ≠ 0 && now - n.deliveryTime < minidle

def leaveConsumer (old : Option Nat) (id : StreamID) : Except StreamFault StreamCG :=
  match old with
  | some old => g.consumerRemove old id
  | none => .ok g

def claimNACK (c : Nat) (deliverytime : Int) (opts : XclaimOptions) (id : StreamID) (p : Nat)
    (n : StreamNACK) : Except StreamFault StreamCG := do
  let g ← g.leaveConsumer n.consumer id
  let count := if opts.retrycount ≥ 0 then opts.retrycount.toNat
    else if opts.justid then n.deliveryCount else n.deliveryCount + 1
  (g.writeNACK p ⟨deliverytime,count,some c⟩).consumerInsert c id p

def claimLookup (now : Int) (force : Bool) (id : StreamID) : Option Nat × StreamCG :=
  match g.pel.find id with
  | some p => (some p,g)
  | none =>
    if force && log.has id then
      let (p,g) := g.streamCreateNACK now none
      (some p,g.groupInsert id p)
    else (none,g)

def claimLoop (group : Sds) (now : Int) (c : Nat) (minidle deliverytime : Int)
    (opts : XclaimOptions) : List StreamID → StreamCG →
      Except StreamFault (StreamCG × List StreamID × List StreamCommand)
  | [], g => .ok (g,[],[])
  | id :: ids, g =>
    match g.claimLookup log now opts.force id with
    | (none,g) => claimLoop group now c minidle deliverytime opts ids g
    | (some p,g) => do
      let n ← g.readNACK p
      if tooFresh now minidle n then claimLoop group now c minidle deliverytime opts ids g
      else do
        let g ← g.claimNACK c deliverytime opts id p n
        let cmd ← g.streamPropagateXCLAIM group id p
        let (g,claimed,cmds) ← claimLoop group now c minidle deliverytime opts ids g
        return (g,id :: claimed,cmd :: cmds)

def claimTime (now : Int) (opts : XclaimOptions) : Int :=
  let deliverytime := match opts.deliverytime with
    | none => -1
    | some (.idle ms) => now - ms
    | some (.time ms) => ms
  if deliverytime ≠ -1 then
    if deliverytime < 0 ∨ deliverytime > now then now else deliverytime
  else now

def xclaim (group consumer : Sds) (now minidle : Int) (ids : List StreamID)
    (opts : XclaimOptions) : Except StreamFault (StreamReply × StreamCG × List StreamCommand) := do
  let minidle := if minidle < 0 then 0 else minidle
  let propagateLastId := decide (g.lastId < opts.lastid)
  let g := g.raiseLastId opts.lastid
  let (c,g) := g.streamLookupConsumer consumer
  let (g,claimed,cmds) ← claimLoop log group now c minidle (claimTime now opts) opts ids g
  let reply := if opts.justid then .ids claimed
    else .entries (claimed.map fun id => (id,(log.entries.find? (·.1 = id)).map Prod.snd))
  -- a claim that is propagated has the last identifier with it
  return (reply,g,if propagateLastId ∧ cmds = [] then [g.streamPropagateGroupID group] else cmds)

/-- Acknowledges until an identifier is not valid: the flag tells that this happened. -/
def ackLoop : List (Option StreamID) → Nat → StreamCG → Except StreamFault (Bool × Nat × StreamCG)
  | [], acknowledged, g => .ok (false,acknowledged,g)
  | none :: _, acknowledged, g => .ok (true,acknowledged,g)
  | some id :: ids, acknowledged, g =>
    match g.pel.find id with
    | none => ackLoop ids acknowledged g
    | some p => do
      let n ← g.readNACK p
      match n.consumer with
      | none => throw .nullConsumer
      | some c => do
        let g ← (g.groupRemove id).consumerRemove c id
        let g ← g.streamFreeNACK p
        ackLoop ids (acknowledged + 1) g

end StreamCG

structure StreamKey where
  log : StreamLog
  cgroups : Rax Sds StreamCG

namespace StreamKey
variable (s : StreamKey)

def streamNew : StreamKey := ⟨StreamLog.empty,∅⟩

def setGroup (name : Sds) (g : StreamCG) : StreamKey := { s with cgroups := s.cgroups.insert name g }

def setLog (log : StreamLog) : StreamKey := { s with log := log }

end StreamKey

def StreamTrim.left : StreamTrim → Nat
  | .exact maxlen => maxlen
  | .approx maxlen left => max maxlen left

/-- `streamRewriteApproxMaxlen`: what is propagated is the length that came out. -/
def StreamTrim.rewrite (len : Nat) : StreamTrim → StreamTrim
  | .exact maxlen => .exact maxlen
  | .approx _ _ => .exact len

abbrev StreamState := Option StreamKey

namespace StreamState

abbrev Result := Except StreamFault (StreamReply × StreamState × List StreamCommand)

def fails (s : StreamState) (e : StreamError) : Result := .ok (.error e,s,[])

def xadd (now : Int) (id : Option StreamID) (fields : StreamFields) (maxlen : Option StreamTrim)
    (s : StreamState) : Result :=
  if fields = [] then s.fails .wrongArguments
  else if id = some zero then s.fails .zeroId
  else
    let k := s.getD StreamKey.streamNew
    if k.log.lastId = max then fails (some k) .exhausted
    else
      let id := id.getD (streamNextID (BitVec.ofInt 64 now) k.log.lastId)
      if streamCompareID id k.log.lastId ≤ 0 then fails (some k) .smallerId
      else
        let log := k.log.append id fields
        let log := match maxlen with
          | none => log
          | some m => log.trim m.left
        .ok (.id id,some (k.setLog log),
          [.xadd (some id) fields (maxlen.map fun m => m.rewrite log.entries.length)])

def deleteLoop : List StreamID → Nat → StreamLog → Nat × StreamLog
  | [], deleted, log => (deleted,log)
  | id :: ids, deleted, log =>
    deleteLoop ids (if log.has id then deleted + 1 else deleted) (log.delete id)

def xdel (ids : List StreamID) (s : StreamState) : Result :=
  match s with
  | none => .ok (.num 0,s,[])
  | some k =>
    let (deleted,log) := deleteLoop ids 0 k.log
    .ok (.num deleted,some (k.setLog log),if deleted = 0 then [] else [.xdel ids])

def xtrim (maxlen : StreamTrim) (s : StreamState) : Result :=
  match s with
  | none => .ok (.num 0,s,[])
  | some k =>
    let log := k.log.trim maxlen.left
    let deleted := k.log.entries.length - log.entries.length
    .ok (.num deleted,some (k.setLog log),
      if deleted = 0 then [] else [.xtrim (maxlen.rewrite log.entries.length)])

def xgroupCreate (group : Sds) (id : Option StreamID) (mkstream : Bool) (s : StreamState) : Result :=
  if s.isNone ∧ ¬mkstream then s.fails .noKey
  else
    let k := s.getD StreamKey.streamNew
    if (k.cgroups.find group).isSome then fails (some k) .busyGroup
    else
      .ok (.ok,some (k.setGroup group (.streamCreateCG (id.getD k.log.lastId))),
        [.xgroupCreate group id mkstream])

def withGroup (s : StreamState) (group : Sds) (f : StreamKey → StreamCG → Result) : Result :=
  match s with
  | none => s.fails .noKey
  | some k =>
    match k.cgroups.find group with
    | none => s.fails .noGroup
    | some g => f k g

def xgroupSetid (group : Sds) (id : Option StreamID) (s : StreamState) : Result :=
  s.withGroup group fun k g =>
    .ok (.ok,some (k.setGroup group { g with lastId := id.getD k.log.lastId }),
      [.xgroupSetid group id])

def xgroupDestroy (group : Sds) (s : StreamState) : Result :=
  match s with
  | none => s.fails .noKey
  | some k =>
    match k.cgroups.find group with
    | none => .ok (.num 0,s,[])
    | some _ =>
      .ok (.num 1,some { k with cgroups := k.cgroups.remove group },[.xgroupDestroy group])

def xgroupDelconsumer (group consumer : Sds) (s : StreamState) : Result :=
  s.withGroup group fun k g => do
    let (pending,g) ← g.streamDelConsumer consumer
    return (.num pending,some (k.setGroup group g),[.xgroupDelconsumer group consumer])

def xreadgroup (now : Int) (group consumer : Sds) (id : StreamID) (count : Nat) (noack : Bool)
    (s : StreamState) : Result :=
  match s with
  | none => s.fails .noGroup
  | some _ => s.withGroup group fun k g => do
    let (reply,g,cmds) ← g.xreadgroup k.log group consumer now id count noack
    return (reply,some (k.setGroup group g),cmds)

def xclaim (now : Int) (group consumer : Sds) (minidle : Int) (ids : List StreamID)
    (opts : XclaimOptions) (s : StreamState) : Result :=
  match s with
  | none => s.fails .noGroup
  | some _ => s.withGroup group fun k g => do
    let (reply,g,cmds) ← g.xclaim k.log group consumer now minidle ids opts
    return (reply,some (k.setGroup group g),cmds)

def xack (group : Sds) (ids : List (Option StreamID)) (s : StreamState) : Result :=
  match s with
  | none => .ok (.num 0,s,[])
  | some k =>
    match k.cgroups.find group with
    | none => .ok (.num 0,s,[])
    | some g => do
      let (invalid,acknowledged,g) ← g.ackLoop ids 0
      return (if invalid then .error .invalidId else .num acknowledged,some (k.setGroup group g),
        if acknowledged = 0 then [] else [.xack group ids])

def exec (now : Int) (s : StreamState) : StreamCommand → Result
  | .xadd id fields maxlen => s.xadd now id fields maxlen
  | .xdel ids => s.xdel ids
  | .xtrim maxlen => s.xtrim maxlen
  | .xgroupCreate group id mkstream => s.xgroupCreate group id mkstream
  | .xgroupSetid group id => s.xgroupSetid group id
  | .xgroupDestroy group => s.xgroupDestroy group
  | .xgroupDelconsumer group consumer => s.xgroupDelconsumer group consumer
  | .xreadgroup group consumer id count noack => s.xreadgroup now group consumer id count noack
  | .xclaim group consumer minidle ids opts => s.xclaim now group consumer minidle ids opts
  | .xack group ids => s.xack group ids

end StreamState

def streamMachine : Machine StreamState (Int × StreamCommand) StreamFault where
  init := none
  step s a := some (do
    let (_,s,_) ← s.exec a.1 a.2
    return s)

end RedRock
