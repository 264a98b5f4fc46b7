import RedRock.Lib.Ballots
import RedRock.ClusterSlots

/-!
Replicas of a failing master ask the masters for their votes. The nodes send each other packets,
which may be delayed, lost, or overtaken by others. The masters that vote are a fixed set that
all nodes know.
-/

namespace RedRock
open Lib

inductive ClusterMsgType where
  | failoverAuthRequest (forceAck : Bool)
  | failoverAuthAck
  /-- Any other packet: its header matters here. -/
  | other
  deriving DecidableEq

structure ClusterPacket (m : Nat) (N : Type) where
  dst : N
  type : ClusterMsgType
  hdr : ClusterMsg m N

structure FailoverConf where
  clusterNodeTimeout : Int
  clusterSlaveNoFailover : Bool
  clusterSlaveValidityFactor : Int
  replPingSlavePeriod : Int

/-- What one call of `clusterHandleSlaveFailover` reads: the clock, the time since the master
was last heard of, the rank among the replicas and a random number. -/
structure FailoverInput where
  mstime : Int
  dataAge : Int
  rank : Int
  random : Nat

inductive FailoverOutcome where
  | idle
  | scheduled
  | asked
  | won
  deriving DecidableEq

/-- `mfEnd` is `mf_end != 0`, and `failed` the flag `FAIL` of the nodes that are known. -/
structure ElectionNode (m : Nat) (N : Type) where
  cluster : ClusterState m N
  failed : N → Bool
  votedTime : N → Int
  lastVoteEpoch : Nat
  failoverAuthTime : Int
  failoverAuthCount : Nat
  failoverAuthSent : Bool
  failoverAuthRank : Int
  failoverAuthEpoch : Nat
  mfEnd : Bool
  mfCanStart : Bool

namespace ElectionNode
variable {m : Nat} {N : Type}

/-- `clusterInit`, with what is loaded from the configuration file. -/
def boot (cluster : ClusterState m N) (failed : N → Bool) (lastVoteEpoch : Nat) :
    ElectionNode m N where
  cluster := cluster
  failed := failed
  votedTime _ := 0
  lastVoteEpoch := lastVoteEpoch
  failoverAuthTime := 0
  failoverAuthCount := 0
  failoverAuthSent := false
  failoverAuthRank := 0
  failoverAuthEpoch := 0
  mfEnd := false
  mfCanStart := false

variable [DecidableEq N] (voters : Finset N) (conf : FailoverConf) (myself : N)
  (s : ElectionNode m N)

/-- A replica speaks of the slots of its master. -/
def clusterBuildMessageHdr : ClusterMsg m N :=
  let me := s.cluster.nodes myself
  let master := s.cluster.nodes (if me.master then myself else me.slaveof.getD myself)
  { sender := myself
    currentEpoch := s.cluster.currentEpoch
    configEpoch := master.configEpoch
    slaveof := if me.master then none else some me.slaveof
    myslots := master.slots }

def claimOutdated (hdr : ClusterMsg m N) : Bool :=
  (List.finRange m).any fun j =>
    hdr.myslots j && !((s.cluster.slots j).all fun n =>
      (s.cluster.nodes n).configEpoch ≤ hdr.configEpoch)

/-- The flag tells that the vote is granted. -/
def clusterSendFailoverAuthIfNeeded (mstime : Int) (hdr : ClusterMsg m N) (forceAck : Bool) :
    Bool × ElectionNode m N :=
  if myself ∉ voters then (false,s)
  else if hdr.currentEpoch < s.cluster.currentEpoch then (false,s)
  else if s.lastVoteEpoch = s.cluster.currentEpoch then (false,s)
  else if s.cluster.nodeIsMaster hdr.sender then (false,s)
  else
    match (s.cluster.nodes hdr.sender).slaveof with
    | none => (false,s)
    | some master =>
      if !s.failed master && !forceAck then (false,s)
      else if mstime - s.votedTime master < conf.clusterNodeTimeout * 2 then (false,s)
      else if s.claimOutdated hdr then (false,s)
      else (true,{ s with
        lastVoteEpoch := s.cluster.currentEpoch
        votedTime := Function.update s.votedTime master mstime })

/-- The vote is counted, but not who it is from. -/
def countsAck (hdr : ClusterMsg m N) : Bool :=
  hdr.sender ∈ voters ∧ hdr.currentEpoch ≥ s.failoverAuthEpoch

def processAck (hdr : ClusterMsg m N) : ElectionNode m N :=
  if s.countsAck voters hdr then { s with failoverAuthCount := s.failoverAuthCount + 1 } else s

def manualFailover : Bool := s.mfEnd && s.mfCanStart

def neededQuorum : Nat := voters.card / 2 + 1

def authTimeout : Int := max (conf.clusterNodeTimeout * 2) 2000

def noFailover : Bool :=
  s.cluster.nodeIsMaster myself ||
    match (s.cluster.nodes myself).slaveof with
    | none => true
    | some master =>
      (!s.failed master && !s.manualFailover) ||
        (conf.clusterSlaveNoFailover && !s.manualFailover) || master ∉ voters

def dataTooOld (dataAge : Int) : Bool :=
  let dataAge := if dataAge > conf.clusterNodeTimeout then dataAge - conf.clusterNodeTimeout
    else dataAge
  conf.clusterSlaveValidityFactor ≠ 0 && dataAge > conf.replPingSlavePeriod * 1000 +
      conf.clusterNodeTimeout * conf.clusterSlaveValidityFactor

/-- The votes are forgotten here, and the epoch is still that of the last election. -/
def scheduleElection (i : FailoverInput) : ElectionNode m N :=
  { s with
    failoverAuthTime := if s.mfEnd then i.mstime
      else i.mstime + 500 + (i.random % 500 : Nat) + i.rank * 1000
    failoverAuthCount := 0
    failoverAuthSent := false
    failoverAuthRank := if s.mfEnd then 0 else i.rank }

def updateRank (i : FailoverInput) : ElectionNode m N :=
  if s.failoverAuthSent = false ∧ s.mfEnd = false ∧ i.rank > s.failoverAuthRank then
    { s with
      failoverAuthTime := s.failoverAuthTime + (i.rank - s.failoverAuthRank) * 1000
      failoverAuthRank := i.rank }
  else s

/-- The epoch is an unsigned long long. -/
def startElection : ElectionNode m N :=
  let epoch := (s.cluster.currentEpoch + 1) % 2 ^ 64
  { s with
    cluster := { s.cluster with currentEpoch := epoch }
    failoverAuthEpoch := epoch
    failoverAuthSent := true }

def setElectedEpoch : ElectionNode m N :=
  { s with
    cluster := s.cluster.setNode myself fun x =>
      { x with configEpoch := max x.configEpoch s.failoverAuthEpoch } }

def clusterHandleSlaveFailover (i : FailoverInput) : FailoverOutcome × ElectionNode m N :=
  let authAge := i.mstime - s.failoverAuthTime
  if s.noFailover voters conf myself then (.idle,s)
  else if dataTooOld conf i.dataAge && !s.manualFailover then (.idle,s)
  else if authAge > authTimeout conf * 2 then (.scheduled,s.scheduleElection i)
  else
    let s := s.updateRank i
    if i.mstime < s.failoverAuthTime then (.idle,s)
    else if authAge > authTimeout conf then (.idle,s)
    else if s.failoverAuthSent = false then (.asked,s.startElection)
    else if s.failoverAuthCount ≥ neededQuorum voters then (.won,s.setElectedEpoch myself)
    else (.idle,s)

def takeOver : Except ClusterFault (ElectionNode m N) := do
  let cluster ← s.cluster.clusterFailoverReplaceYourMaster ⟨myself,[],fun _ => none⟩
  return { s with cluster := cluster, mfEnd := false, mfCanStart := false }

/-- `CLUSTER_BROADCAST_LOCAL_SLAVES`. -/
def isLocalSlave (n : N) : Bool :=
  !s.cluster.nodeIsMaster n && match (s.cluster.nodes n).slaveof with
    | none => false
    | some master => master = myself ∨ (s.cluster.nodes myself).slaveof = some master

end ElectionNode

/-- The cluster. The votes that were granted and the elections that were won are kept for what is
said about them. -/
structure ElectionState (m : Nat) (N : Type) where
  nodes : N → ElectionNode m N
  net : List (ClusterPacket m N)
  votes : List (Ballot N Nat N)
  wins : List (N × Nat)

/-- `learn` is what else a node gets to know, or does, about the cluster and about a manual
failover; an epoch is never taken back by it. -/
inductive ElectionAct (m : Nat) (N : Type) where
  | failoverTick (n : N) (i : FailoverInput)
  | deliver (k : Nat) (mstime : Int)
  | lose (k : Nat)
  | send (n dst : N)
  | learn (n : N) (cluster : ClusterState m N) (failed : N → Bool) (mfEnd mfCanStart : Bool)

namespace ElectionState
variable {m : Nat} {N : Type} [DecidableEq N] (peers : List N) (voters : Finset N)
  (conf : FailoverConf) (s : ElectionState m N)

def setNode (n : N) (x : ElectionNode m N) : ElectionState m N :=
  { s with nodes := Function.update s.nodes n x }

/-- The header is built from what the sender is now. -/
def sendPacket (n : N) (type : ClusterMsgType) (dst : N) : ElectionState m N :=
  { s with net := s.net ++ [⟨dst,type,(s.nodes n).clusterBuildMessageHdr n⟩] }

def broadcast (n : N) (type : ClusterMsgType) (dsts : List N) : ElectionState m N :=
  { s with
    net := s.net ++ (dsts.filter (· ≠ n)).map fun dst =>
      ⟨dst,type,(s.nodes n).clusterBuildMessageHdr n⟩ }

def recordVote (b : Ballot N Nat N) : ElectionState m N := { s with votes := s.votes ++ [b] }

def recordWin (n : N) (epoch : Nat) : ElectionState m N := { s with wins := s.wins ++ [(n,epoch)] }

def failoverTick (n : N) (i : FailoverInput) : Except ClusterFault (ElectionState m N) :=
  match (s.nodes n).clusterHandleSlaveFailover voters conf n i with
  | (.idle,x) => .ok (s.setNode n x)
  | (.scheduled,x) =>
    .ok ((s.setNode n x).broadcast n .other (peers.filter fun p => x.isLocalSlave n p))
  | (.asked,x) => .ok ((s.setNode n x).broadcast n (.failoverAuthRequest x.mfEnd) peers)
  | (.won,x) => do
    let y ← x.takeOver n
    return ((s.setNode n y).recordWin n x.failoverAuthEpoch).broadcast n .other peers

def processPacket (p : ClusterPacket m N) (mstime : Int) : ElectionState m N :=
  let x := s.nodes p.dst
  let x := { x with cluster := x.cluster.processHeader p.hdr }
  match p.type with
  | .other => s.setNode p.dst x
  | .failoverAuthAck => s.setNode p.dst (x.processAck voters p.hdr)
  | .failoverAuthRequest forceAck =>
    match x.clusterSendFailoverAuthIfNeeded voters conf p.dst mstime p.hdr forceAck with
    | (false,x) => s.setNode p.dst x
    | (true,x) =>
      ((s.setNode p.dst x).recordVote ⟨p.dst,x.cluster.currentEpoch,p.hdr.sender⟩).sendPacket
        p.dst .failoverAuthAck p.hdr.sender

def step : ElectionAct m N → Option (Except ClusterFault (ElectionState m N))
  | .failoverTick n i => some (s.failoverTick peers voters conf n i)
  | .deliver k mstime =>
    match s.net[k]? with
    | none => none
    | some p =>
      some (.ok ({ s with net := s.net.eraseIdx k }.processPacket voters conf p mstime))
  | .lose k => some (.ok { s with net := s.net.eraseIdx k })
  | .send n dst => some (.ok (s.sendPacket n .other dst))
  | .learn n cluster failed mfEnd mfCanStart =>
    let x := s.nodes n
    if x.cluster.currentEpoch ≤ cluster.currentEpoch ∧ cluster.currentEpoch < 2 ^ 64 then
      some (.ok (s.setNode n { x with
        cluster := cluster, failed := failed, mfEnd := mfEnd, mfCanStart := mfCanStart }))
    else none

end ElectionState

/-- The nodes are started with any view of the cluster. -/
def electionMachine {m : Nat} {N : Type} [DecidableEq N] (peers : List N) (voters : Finset N)
    (conf : FailoverConf) (views : N → ClusterState m N) (failed : N → N → Bool)
    (lastVoteEpoch : N → Nat) : Machine (ElectionState m N) (ElectionAct m N) ClusterFault where
  init := ⟨fun n => .boot (views n) (failed n) (lastVoteEpoch n),[],[],[]⟩
  step s a := s.step peers voters conf a

end RedRock
