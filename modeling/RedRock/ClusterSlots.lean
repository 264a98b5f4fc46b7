import RedRock.Quicklist
import RedRock.Protocol

/-!
Which node of the cluster serves which slot. One node keeps it three times: the table
`slots` of the cluster, a bitmap of slots in every node it knows, and the number of bits of
each bitmap.
-/

namespace RedRock
open Lib Function

/-- `m` is `CLUSTER_SLOTS`, and `N` are the nodes that are known. -/
structure ClusterNode (m : Nat) (N : Type) where
  master : Bool
  slaveof : Option N
  slots : Fin m → Bool
  numslots : Int
  configEpoch : Nat

/-- `keys` is `countKeysInSlot`, and `noRedirection` the flag that a module can set. -/
structure ClusterState (m : Nat) (N : Type) where
  nodes : N → ClusterNode m N
  slots : Fin m → Option N
  migratingSlotsTo : Fin m → Option N
  importingSlotsFrom : Fin m → Option N
  currentEpoch : Nat
  keys : Fin m → Nat
  noRedirection : Bool
  reply : Option String

/-- The assertions, and a master that is `NULL` where it is followed. -/
inductive ClusterFault where
  | clusterDelSlot
  | addDelSlots
  | setMasterMyself
  | setMasterNumslots
  | nullMaster
  deriving DecidableEq

/-- What one node knows that does not change: itself, the others and their names. -/
structure ClusterView (N : Type) where
  myself : N
  known : List N
  lookup : Sds → Option N

namespace ClusterState
variable {m : Nat} {N : Type} [DecidableEq N] (v : ClusterView N) (s : ClusterState m N)

def setNode (n : N) (f : ClusterNode m N → ClusterNode m N) : ClusterState m N :=
  { s with nodes := update s.nodes n (f (s.nodes n)) }

def nodeIsMaster (n : N) : Bool := (s.nodes n).master

def clusterNodeSetSlotBit (n : N) (j : Fin m) : ClusterState m N :=
  s.setNode n fun x =>
    { x with
      slots := update x.slots j true
      numslots := if x.slots j then x.numslots else x.numslots + 1 }

/-- The old bit is the answer. -/
def clusterNodeClearSlotBit (n : N) (j : Fin m) : Bool × ClusterState m N :=
  ((s.nodes n).slots j,s.setNode n fun x =>
    { x with
      slots := update x.slots j false
      numslots := if x.slots j then x.numslots - 1 else x.numslots })

/-- The flag is `C_OK`. -/
def clusterAddSlot (n : N) (j : Fin m) : Bool × ClusterState m N :=
  if (s.slots j).isSome then (false,s)
  else
    let s := s.clusterNodeSetSlotBit n j
    (true,{ s with slots := update s.slots j (some n) })

def clusterDelSlot (j : Fin m) : Except ClusterFault (Bool × ClusterState m N) :=
  match s.slots j with
  | none => .ok (false,s)
  | some n =>
    let (old,s) := s.clusterNodeClearSlotBit n j
    if old then .ok (true,{ s with slots := update s.slots j none })
    else .error .clusterDelSlot

/-- Both results are ignored where a slot goes from one node to another. -/
def clusterMoveSlot (n : N) (j : Fin m) : Except ClusterFault (ClusterState m N) := do
  let r ← s.clusterDelSlot j
  return (r.2.clusterAddSlot n j).2

def delNodeSlotsLoop (n : N) : List (Fin m) → ClusterState m N → Except ClusterFault (ClusterState m N)
  | [], s => .ok s
  | j :: js, s =>
    if (s.nodes n).slots j then do
      let r ← s.clusterDelSlot j
      delNodeSlotsLoop n js r.2
    else delNodeSlotsLoop n js s

def clusterDelNodeSlots (n : N) : Except ClusterFault (ClusterState m N) :=
  delNodeSlotsLoop n (List.finRange m) s

def clusterCloseAllSlots : ClusterState m N :=
  { s with migratingSlotsTo := fun _ => none, importingSlotsFrom := fun _ => none }

def clusterSetNodeAsMaster (n : N) : ClusterState m N :=
  if s.nodeIsMaster n then s else s.setNode n fun x => { x with master := true, slaveof := none }

def clusterSetMaster (n : N) : Except ClusterFault (ClusterState m N) :=
  if n = v.myself then .error .setMasterMyself
  else if (s.nodes v.myself).numslots ≠ 0 then .error .setMasterNumslots
  else
    let s := if s.nodeIsMaster v.myself then s.clusterCloseAllSlots else s
    .ok (s.setNode v.myself fun x => { x with master := false, slaveof := some n })

/-- What the loop over the slots has found: whether `newmaster` is set, and the slots that
were lost while they held keys. -/
structure SlotsUpdate (m : Nat) where
  newmaster : Bool
  dirtySlots : List (Fin m)

def updateSlotsLoop (sender : N) (senderConfigEpoch : Nat) (slots : Fin m → Bool)
    (curmaster : Option N) : List (Fin m) → SlotsUpdate m → ClusterState m N →
    Except ClusterFault (SlotsUpdate m × ClusterState m N)
  | [], u, s => .ok (u,s)
  | j :: js, u, s =>
    if slots j ∧ s.slots j ≠ some sender ∧ s.importingSlotsFrom j = none ∧
        (s.slots j).all (fun n => (s.nodes n).configEpoch < senderConfigEpoch) then do
      let dirty := s.slots j = some v.myself ∧ s.keys j ≠ 0
      let u : SlotsUpdate m :=
        ⟨u.newmaster || decide (s.slots j = curmaster),
          if dirty then u.dirtySlots ++ [j] else u.dirtySlots⟩
      let s ← s.clusterMoveSlot sender j
      updateSlotsLoop sender senderConfigEpoch slots curmaster js u s
    else updateSlotsLoop sender senderConfigEpoch slots curmaster js u s

def delKeysInSlots (dirty : List (Fin m)) : ClusterState m N :=
  { s with keys := fun j => if j ∈ dirty then 0 else s.keys j }

def clusterUpdateSlotsConfigWith (sender : N) (senderConfigEpoch : Nat) (slots : Fin m → Bool) :
    Except ClusterFault (ClusterState m N) :=
  let curmaster := if s.nodeIsMaster v.myself then some v.myself else (s.nodes v.myself).slaveof
  if sender = v.myself then .ok s
  else do
    let (u,s) ← updateSlotsLoop v sender senderConfigEpoch slots curmaster (List.finRange m)
      ⟨false,[]⟩ s
    if s.noRedirection then return s
    else if u.newmaster then
      match curmaster with
      | none => throw .nullMaster
      | some c =>
        if (s.nodes c).numslots = 0 then s.clusterSetMaster v sender
        else return s.delKeysInSlots u.dirtySlots
    else return s.delKeysInSlots u.dirtySlots

def clusterGetMaxEpoch : Nat :=
  (v.known.map fun n => (s.nodes n).configEpoch).foldl max s.currentEpoch

def clusterBumpConfigEpochWithoutConsensus : ClusterState m N :=
  let myEpoch := (s.nodes v.myself).configEpoch
  if myEpoch = 0 ∨ myEpoch ≠ s.clusterGetMaxEpoch v then
    { s with currentEpoch := s.currentEpoch + 1 }.setNode v.myself fun x =>
      { x with configEpoch := s.currentEpoch + 1 }
  else s

def failoverLoop (oldmaster : N) : List (Fin m) → ClusterState m N → Except ClusterFault (ClusterState m N)
  | [], s => .ok s
  | j :: js, s =>
    if (s.nodes oldmaster).slots j then do
      let s ← s.clusterMoveSlot v.myself j
      failoverLoop oldmaster js s
    else failoverLoop oldmaster js s

def clusterFailoverReplaceYourMaster : Except ClusterFault (ClusterState m N) :=
  if s.nodeIsMaster v.myself then .ok s
  else
    match (s.nodes v.myself).slaveof with
    | none => .ok s
    | some oldmaster =>
      failoverLoop v oldmaster (List.finRange m) (s.clusterSetNodeAsMaster v.myself)

end ClusterState

/-- A `PING` or `PONG` of another node. `slaveof` is `none` when it says that it is a master,
and otherwise the master that it names, if that is known. -/
structure ClusterMsg (m : Nat) (N : Type) where
  sender : N
  currentEpoch : Nat
  configEpoch : Nat
  slaveof : Option (Option N)
  myslots : Fin m → Bool

namespace ClusterState
variable {m : Nat} {N : Type} [DecidableEq N] (v : ClusterView N) (s : ClusterState m N)

def processHeader (hdr : ClusterMsg m N) : ClusterState m N :=
  { s with currentEpoch := max s.currentEpoch hdr.currentEpoch }.setNode hdr.sender fun x =>
    { x with configEpoch := max x.configEpoch hdr.configEpoch }

def turnIntoSlave (sender : N) : Except ClusterFault (ClusterState m N) :=
  if s.nodeIsMaster sender then do
    let s ← s.clusterDelNodeSlots sender
    return s.setNode sender fun x => { x with master := false }
  else return s

def processRole (hdr : ClusterMsg m N) : Except ClusterFault (ClusterState m N) :=
  match hdr.slaveof with
  | none => .ok (s.clusterSetNodeAsMaster hdr.sender)
  | some master => do
    let s ← s.turnIntoSlave hdr.sender
    match master with
    | none => return s
    | some n => return s.setNode hdr.sender fun x => { x with slaveof := some n }

def clusterProcessPing (hdr : ClusterMsg m N) : Except ClusterFault (ClusterState m N) := do
  let s ← (s.processHeader hdr).processRole hdr
  if s.nodeIsMaster hdr.sender ∧ ∃ j, (s.nodes hdr.sender).slots j ≠ hdr.myslots j then
    s.clusterUpdateSlotsConfigWith v hdr.sender hdr.configEpoch hdr.myslots
  else return s

/-- An `UPDATE` packet about the node `n`, which may be this one. -/
def clusterProcessUpdate (n : N) (reportedConfigEpoch : Nat) (slots : Fin m → Bool) :
    Except ClusterFault (ClusterState m N) :=
  if (s.nodes n).configEpoch ≥ reportedConfigEpoch then .ok s
  else
    let s := (s.clusterSetNodeAsMaster n).setNode n fun x =>
      { x with configEpoch := reportedConfigEpoch }
    s.clusterUpdateSlotsConfigWith v n reportedConfigEpoch slots

def addReply (r : String) : ClusterState m N := { s with reply := some r }

def addReplyError (msg : String) : ClusterState m N := s.addReply ("-ERR " ++ msg)

def addReplyOk : ClusterState m N := s.addReply "+OK"

def getSlotOrReply (o : Sds) : Option (Fin m) :=
  match string2ll o with
  | none => none
  | some i => if h : 0 ≤ i ∧ i.toNat < m then some ⟨i.toNat,toNat_lt_of_slot h⟩ else none

def dbIsEmpty : Bool := (List.finRange m).all fun j => s.keys j = 0

def checkSlots (del : Bool) : List Sds → List (Fin m) → Except String (List (Fin m))
  | [], seen => .ok seen
  | arg :: args, seen =>
    match getSlotOrReply arg with
    | none => .error "Invalid or out of range slot"
    | some slot =>
      if del ∧ s.slots slot = none then
        .error ("Slot " ++ toString slot.val ++ " is already unassigned")
      else if ¬del ∧ s.slots slot ≠ none then
        .error ("Slot " ++ toString slot.val ++ " is already busy")
      else if slot ∈ seen then .error ("Slot " ++ toString slot.val ++ " specified multiple times")
      else checkSlots del args (slot :: seen)

def addDelSlotsLoop (del : Bool) :
    List (Fin m) → ClusterState m N → Except ClusterFault (ClusterState m N)
  | [], s => .ok s
  | j :: js, s => do
    let s := { s with importingSlotsFrom := update s.importingSlotsFrom j none }
    let (retval,s) ← if del then s.clusterDelSlot j else .ok (s.clusterAddSlot v.myself j)
    if retval then addDelSlotsLoop del js s else throw .addDelSlots

def addDelSlots (del : Bool) (args : List Sds) : Except ClusterFault (ClusterState m N) :=
  match s.checkSlots del args [] with
  | .error msg => .ok (s.addReplyError msg)
  | .ok slots => do
    let s ← addDelSlotsLoop v del ((List.finRange m).filter (· ∈ slots)) s
    return s.addReplyOk

def flushSlots : Except ClusterFault (ClusterState m N) :=
  if ¬s.dbIsEmpty then .ok (s.addReplyError "DB must be empty to perform CLUSTER FLUSHSLOTS.")
  else do
    let s ← s.clusterDelNodeSlots v.myself
    return s.addReplyOk

inductive SetSlot where
  | migrating (node : Sds)
  | importing (node : Sds)
  | stable
  | node (node : Sds)
  | invalid
  deriving DecidableEq

def parseSetSlot : List Sds → SetSlot
  | [action,node] =>
    if strcasecmp action [109,105,103,114,97,116,105,110,103] then .migrating node
    else if strcasecmp action [105,109,112,111,114,116,105,110,103] then .importing node
    else if strcasecmp action [110,111,100,101] then .node node
    else .invalid
  | [action] => if strcasecmp action [115,116,97,98,108,101] then .stable else .invalid
  | _ => .invalid

def nodeText (node : Sds) : String := String.ofList (node.map fun b => Char.ofNat b.toNat)

def setSlotNode (slot : Fin m) (n : N) : Except ClusterFault (ClusterState m N) :=
  if s.slots slot = some v.myself ∧ n ≠ v.myself ∧ s.keys slot ≠ 0 then
    .ok (s.addReplyError ("Can't assign hashslot " ++ toString slot.val ++
      " to a different node while I still hold keys for this hash slot."))
  else do
    let s : ClusterState m N :=
      if s.keys slot = 0 then
        { s with migratingSlotsTo := update s.migratingSlotsTo slot none }
      else s
    let s : ClusterState m N :=
      if n = v.myself ∧ s.importingSlotsFrom slot ≠ none then
        let s := s.clusterBumpConfigEpochWithoutConsensus v
        { s with importingSlotsFrom := update s.importingSlotsFrom slot none }
      else s
    let s ← s.clusterMoveSlot n slot
    return s.addReplyOk

def setSlot (slot : Sds) (args : List Sds) : Except ClusterFault (ClusterState m N) :=
  if ¬s.nodeIsMaster v.myself then
    .ok (s.addReplyError "Please use SETSLOT only with masters.")
  else
    match getSlotOrReply slot with
    | none => .ok (s.addReplyError "Invalid or out of range slot")
    | some slot =>
      match parseSetSlot args with
      | .migrating node =>
        if s.slots slot ≠ some v.myself then
          .ok (s.addReplyError ("I'm not the owner of hash slot " ++ toString slot.val))
        else
          match v.lookup node with
          | none => .ok (s.addReplyError ("I don't know about node " ++ nodeText node))
          | some n =>
            .ok { s with migratingSlotsTo := update s.migratingSlotsTo slot (some n) }.addReplyOk
      | .importing node =>
        if s.slots slot = some v.myself then
          .ok (s.addReplyError ("I'm already the owner of hash slot " ++ toString slot.val))
        else
          match v.lookup node with
          | none => .ok (s.addReplyError ("I don't know about node " ++ nodeText node))
          | some n =>
            .ok { s with
              importingSlotsFrom := update s.importingSlotsFrom slot (some n) }.addReplyOk
      | .stable =>
        .ok { s with
          importingSlotsFrom := update s.importingSlotsFrom slot none
          migratingSlotsTo := update s.migratingSlotsTo slot none }.addReplyOk
      | .node node =>
        match v.lookup node with
        | none => .ok (s.addReplyError ("Unknown node " ++ nodeText node))
        | some n => s.setSlotNode v slot n
      | .invalid =>
        .ok (s.addReplyError
          "Invalid CLUSTER SETSLOT action or number of arguments. Try CLUSTER HELP")

def replicate (node : Sds) : Except ClusterFault (ClusterState m N) :=
  match v.lookup node with
  | none => .ok (s.addReplyError ("Unknown node " ++ nodeText node))
  | some n =>
    if n = v.myself then .ok (s.addReplyError "Can't replicate myself")
    else if ¬s.nodeIsMaster n then
      .ok (s.addReplyError "I can only replicate a master, not a replica.")
    else if s.nodeIsMaster v.myself ∧ ((s.nodes v.myself).numslots ≠ 0 ∨ ¬s.dbIsEmpty) then
      .ok (s.addReplyError "To set a master the node must be empty and without assigned slots.")
    else do
      let s ← s.clusterSetMaster v n
      return s.addReplyOk

end ClusterState

/-- `configEpoch` and `keys` stand for what else changes these: elections, collisions of
epochs and `BUMPEPOCH`, and commands that write keys. -/
inductive ClusterAct (m : Nat) (N : Type) where
  | addslots (args : List Sds)
  | delslots (args : List Sds)
  | flushslots
  | setslot (slot : Sds) (args : List Sds)
  | replicate (node : Sds)
  | ping (hdr : ClusterMsg m N)
  | update (n : N) (reportedConfigEpoch : Nat) (slots : Fin m → Bool)
  | failover
  | takeover
  | migrateTo (target : N)
  | configEpoch (n : N) (epoch : Nat)
  | keys (j : Fin m) (count : Nat)
  | noRedirection (flag : Bool)

namespace ClusterState
variable {m : Nat} {N : Type} [DecidableEq N] (v : ClusterView N)

/-- Packets come from other nodes, and a replica migrates to another one. -/
def step (s : ClusterState m N) : ClusterAct m N → Option (Except ClusterFault (ClusterState m N))
  | .addslots args => some (s.addDelSlots v false args)
  | .delslots args => some (s.addDelSlots v true args)
  | .flushslots => some (s.flushSlots v)
  | .setslot slot args => some (s.setSlot v slot args)
  | .replicate node => some (s.replicate v node)
  | .ping hdr => if hdr.sender = v.myself then none else some (s.clusterProcessPing v hdr)
  | .update n epoch slots => some (s.clusterProcessUpdate v n epoch slots)
  | .failover => some (s.clusterFailoverReplaceYourMaster v)
  | .takeover =>
    if s.nodeIsMaster v.myself then none
    else some ((s.clusterBumpConfigEpochWithoutConsensus v).clusterFailoverReplaceYourMaster v)
  | .migrateTo target =>
    if s.nodeIsMaster v.myself ∨ target = v.myself then none else some (s.clusterSetMaster v target)
  | .configEpoch n epoch => some (.ok (s.setNode n fun x => { x with configEpoch := epoch }))
  | .keys j count => some (.ok { s with keys := update s.keys j count })
  | .noRedirection flag => some (.ok { s with noRedirection := flag })

end ClusterState

/-- A node that has just started knows the others as masters without slots. -/
def clusterNodeMachine {N : Type} [DecidableEq N] (m : Nat) (v : ClusterView N) :
    Machine (ClusterState m N) (ClusterAct m N) ClusterFault where
  init :=
    { nodes := fun _ => ⟨true,none,fun _ => false,0,0⟩
      slots := fun _ => none
      migratingSlotsTo := fun _ => none
      importingSlotsFrom := fun _ => none
      currentEpoch := 0
      keys := fun _ => 0
      noRedirection := false
      reply := none }
  step := ClusterState.step v

end RedRock
