import RedRock.StreamReplay

/-!
Runs of stream commands: the PELs of every group stay consistent, and a replica that executes what
is propagated comes to the same entries, last identifiers and owners.
-/

namespace RedRock
open Lib List StreamState

namespace StreamCG
variable {g : StreamCG} {name name' : Sds} {id : StreamID} {p p' : Nat}

def consumerPel (g : StreamCG) (name : Sds) (id : StreamID) : Option Nat :=
  (g.consumers.find name).bind fun c => (g.consumerAt c).bind fun k => k.pel.find id

lemma consumerPel_some : g.consumerPel name id = some p ↔
    ∃ c, g.consumers.find name = some c ∧ g.pelAt c id = some p :=
  Option.bind_eq_some_iff

/-- The PEL of a group is the disjoint union of those of its consumers, with the same records, and
each record names the consumer that has it. -/
structure PelsAgree (g : StreamCG) : Prop where
  union : ∀ id p, g.pel.find id = some p ↔ ∃ name, g.consumerPel name id = some p
  disjoint : ∀ name name' id p p', g.consumerPel name id = some p →
    g.consumerPel name' id = some p' → name = name'
  record : ∀ name id p, g.consumerPel name id = some p →
    ∃ n c, g.nackAt p = some n ∧ n.consumer = some c ∧ g.consumers.find name = some c

lemma PelInv.agree (h : g.PelInv) : g.PelsAgree := by
  refine ⟨fun id p => ?_,fun name name' id p p' hp hp' => ?_,fun name id p hp => ?_⟩
  · rw [h.union]
    simp only [consumerPel_some]
    constructor
    · rintro ⟨c,hc⟩
      obtain ⟨k,hk⟩ := pelAt_some hc
      exact ⟨k.name,c,(h.named k.name c).mpr ⟨k,hk,rfl⟩,hc⟩
    rintro ⟨name,c,_,hc⟩
    exact ⟨c,hc⟩
  · obtain ⟨c,hc,hcp⟩ := consumerPel_some.mp hp
    obtain ⟨c',hc',hcp'⟩ := consumerPel_some.mp hp'
    obtain rfl := h.disjoint hcp hcp'
    obtain ⟨k,hk,rfl⟩ := (h.named name c).mp hc
    obtain ⟨k',hk',rfl⟩ := (h.named name' c).mp hc'
    rw [hk] at hk'
    cases hk'
    rfl
  · obtain ⟨c,hc,hcp⟩ := consumerPel_some.mp hp
    obtain ⟨n,hn,hno⟩ := h.owner c id p hcp
    exact ⟨n,c,hn,hno,hc⟩

end StreamCG

namespace StreamState

lemma empty_consistent : Consistent none := by
  intro k hk
  cases hk

lemma step_consistent {s : StreamState} (h : Consistent s) (a : Int × StreamCommand) :
    ∃ t, streamMachine.step s a = some (.ok t) ∧ Consistent t := by
  obtain ⟨reply,t,cmds,hr,ht,_⟩ := exec_propagates h a.1 a.2
  refine ⟨t,?_,ht⟩
  simp only [streamMachine,hr]
  rfl

/-- No sequence of commands comes to a fault (the panic on a NACK that is half created is one, and
so is the use of a record that has been freed), and in the state that it comes to the PELs of every
group agree. -/
theorem pels_agree (as : List (Int × StreamCommand)) : ∃ s, streamMachine.run as = some (.ok s) ∧
      ∀ k group g, s = some k → k.cgroups.find group = some g → g.PelsAgree := by
  obtain ⟨s,hs,hc⟩ := streamMachine.exists_guarded_run (C := fun _ _ => True)
    (fun s a h _ => step_consistent h a) as empty_consistent (streamMachine.guarded_trivial _ as)
  exact ⟨s,hs,fun k group g hk hg => (hc k hk group g hg).agree⟩

/-- Two entries are read by one consumer; the first is acknowledged and the second is claimed by
another one. -/
def Sample.consumers : List StreamCommand :=
  [.xadd (some ⟨1,0⟩) [([102],[97])] none,.xadd (some ⟨2,0⟩) [([102],[98])] none,
    .xgroupCreate [103] (some StreamID.zero) false,.xreadgroup [103] [97] StreamID.max 0 false,
    .xack [103] [some ⟨1,0⟩],
    .xclaim [103] [98] 0 [⟨2,0⟩] ⟨none,-1,false,false,StreamID.zero⟩]

def Sample.pending (s : StreamState) : Option (List StreamID × Bool × Bool) :=
  s.bind fun k => (k.cgroups.find [103]).map fun g =>
    (g.pel.entries.map (·.1),(g.consumerPel [97] ⟨2,0⟩).isSome,(g.consumerPel [98] ⟨2,0⟩).isSome)

theorem pels_agree_claimed :
    ∃ s, streamMachine.run (Sample.consumers.map fun cmd => (0,cmd)) = some (.ok s) ∧
      Sample.pending s = some ([⟨2,0⟩],false,true) ∧
      ∀ k group g, s = some k → k.cgroups.find group = some g → g.PelsAgree := by
  refine Machine.exists_run_and _ (by decide) fun s hs _ => ?_
  obtain ⟨t,ht,hagree⟩ := pels_agree (Sample.consumers.map fun cmd => (0,cmd))
  rw [hs] at ht
  cases ht
  exact hagree

end StreamState

structure ReplicatedStream where
  master : StreamState
  sent : List StreamCommand
  replica : StreamState

inductive ReplicatedAct where
  | client (now : Int) (cmd : StreamCommand)
  | apply (now : Int)

namespace ReplicatedStream

def client (s : ReplicatedStream) (now : Int) (cmd : StreamCommand) :
    Except StreamFault ReplicatedStream := do
  let (_,master,cmds) ← s.master.exec now cmd
  return { s with master := master, sent := s.sent ++ cmds }

def apply (s : ReplicatedStream) (now : Int) : Except StreamFault ReplicatedStream :=
  match s.sent with
  | [] => .ok s
  | cmd :: sent => do
    let (_,replica,_) ← s.replica.exec now cmd
    return { s with sent := sent, replica := replica }

end ReplicatedStream

def replicatedStream : Machine ReplicatedStream ReplicatedAct StreamFault where
  init := ⟨none,[],none⟩
  step s a := some (match a with
    | .client now cmd => s.client now cmd
    | .apply now => s.apply now)

namespace ReplicatedStream
variable {s : ReplicatedStream}

structure InStep (s : ReplicatedStream) : Prop where
  master : Consistent s.master
  replica : Consistent s.replica
  sent : ∀ cmd ∈ s.sent, StreamView.Replayable cmd
  view : StreamState.view s.master = s.sent.foldl StreamView.replay (StreamState.view s.replica)

lemma InStep.client (h : InStep s) (now : Int) (cmd : StreamCommand) :
    ∃ t, s.client now cmd = .ok t ∧ InStep t := by
  obtain ⟨reply,master,cmds,hr,hm,hcmds,hv⟩ := exec_propagates h.master now cmd
  refine ⟨{ s with master := master, sent := s.sent ++ cmds },?_,hm,h.replica,?_,?_⟩
  · simp only [ReplicatedStream.client,hr]
    rfl
  · intro cmd' hm'
    rcases mem_append.mp hm' with hm' | hm'
    · exact h.sent cmd' hm'
    · exact hcmds cmd' hm'
  rw [foldl_append,← h.view]
  exact hv

lemma InStep.apply (h : InStep s) (now : Int) :
    ∃ t, s.apply now = .ok t ∧ InStep t ∧ t.master = s.master ∧ t.sent = s.sent.tail := by
  unfold ReplicatedStream.apply
  cases hs : s.sent with
  | nil => exact ⟨s,rfl,h,rfl,hs⟩
  | cons cmd sent =>
    have hcmds := h.sent
    have hview := h.view
    rw [hs] at hcmds hview
    obtain ⟨reply,replica,cmds,hr,hc,hv⟩ :=
      exec_replays h.replica now (hcmds cmd mem_cons_self)
    refine ⟨{ s with sent := sent, replica := replica },?_,⟨h.master,hc,?_,?_⟩,rfl,rfl⟩
    · simp only [hr]
      rfl
    · intro cmd' hm
      exact hcmds cmd' (mem_cons_of_mem _ hm)
    rw [hv]
    exact hview

lemma InStep.step (h : InStep s) (a : ReplicatedAct) :
    ∃ t, replicatedStream.step s a = some (.ok t) ∧ InStep t := by
  cases a with
  | client now cmd =>
    obtain ⟨t,ht,hi⟩ := h.client now cmd
    exact ⟨t,congrArg some ht,hi⟩
  | apply now =>
    obtain ⟨t,ht,hi,_⟩ := h.apply now
    exact ⟨t,congrArg some ht,hi⟩

lemma InStep.drain (h : InStep s) (times : List Int) (hlen : times.length = s.sent.length) :
    ∃ t, replicatedStream.runFrom s (times.map .apply) = some (.ok t) ∧ InStep t ∧
      t.master = s.master ∧ t.sent = [] := by
  induction times generalizing s with
  | nil => exact ⟨s,rfl,h,rfl,length_eq_zero_iff.mp hlen.symm⟩
  | cons now times ih =>
    obtain ⟨t,ht,hi,hm,hs⟩ := h.apply now
    have hlen' : times.length = t.sent.length := by
      rw [hs,length_tail,← hlen]
      rfl
    obtain ⟨u,hu,hiu,hmu,hsu⟩ := ih hi hlen'
    have hstep : replicatedStream.step s (.apply now) = some (.ok t) := congrArg some ht
    refine ⟨u,?_,hiu,hmu.trans hm,hsu⟩
    rw [map_cons]
    exact (replicatedStream.runFrom_cons_ok hstep).mpr hu

lemma InStep.init : InStep replicatedStream.init :=
  ⟨empty_consistent,empty_consistent,fun _ hm => absurd hm not_mem_nil,rfl⟩

def liveEntries (s : StreamState) : List (StreamID × StreamFields) :=
  s.elim [] fun k => k.log.entries

def groupView (s : StreamState) (group : Sds) : Option GroupView :=
  s.bind fun k => (k.cgroups.find group).map StreamCG.view

lemma same_of_view {s t : StreamState} (h : StreamState.view s = StreamState.view t) :
    liveEntries s = liveEntries t ∧ ∀ group, groupView s group = groupView t group := by
  have he : ∀ s, liveEntries s = (StreamState.view s).elim [] fun v => v.log.entries := by
    intro s
    cases s <;> rfl
  have hg : ∀ s group, groupView s group = (StreamState.view s).bind fun v => v.groups group := by
    intro s group
    cases s <;> rfl
  exact ⟨by rw [he,he,h],fun group => by rw [hg,hg,h]⟩

/-- Whatever the master executes, and however far the replica is behind, the replica comes to the
entries and the groups of the master when it executes what has been propagated. -/
theorem groups_replicate (as : List ReplicatedAct) :
    ∃ s, replicatedStream.run as = some (.ok s) ∧ ∀ times : List Int,times.length = s.sent.length →
      ∃ t, replicatedStream.runFrom s (times.map .apply) = some (.ok t) ∧ t.sent = [] ∧
        t.master = s.master ∧ liveEntries t.replica = liveEntries s.master ∧
        ∀ group, groupView t.replica group = groupView s.master group := by
  obtain ⟨s,hs,hi⟩ := replicatedStream.exists_guarded_run (C := fun _ _ => True)
    (fun s a h _ => h.step a) as InStep.init (replicatedStream.guarded_trivial _ as)
  refine ⟨s,hs,fun times hlen => ?_⟩
  obtain ⟨t,ht,hit,hm,hsent⟩ := hi.drain times hlen
  have hview := hit.view
  rw [hsent,hm] at hview
  obtain ⟨he,hg⟩ := same_of_view hview.symm
  exact ⟨t,ht,hsent,hm,he,hg⟩

theorem groups_replicate_claimed :
    ∃ s t, replicatedStream.run (StreamState.Sample.consumers.map (.client 0)) = some (.ok s) ∧
      s.sent.length = 7 ∧ (groupView s.master [103]).map (·.owner ⟨2,0⟩) = some (some [98]) ∧
      replicatedStream.runFrom s ((List.replicate 7 5).map .apply) = some (.ok t) ∧
      groupView t.replica [103] = groupView s.master [103] := by
  obtain ⟨s,hs,hlen,howner⟩ := replicatedStream.exists_run
    (StreamState.Sample.consumers.map (.client 0)) (fun s => s.sent.length = 7 ∧
      (groupView s.master [103]).map (·.owner ⟨2,0⟩) = some (some [98])) (by decide)
  obtain ⟨s',hs',hdrain⟩ := groups_replicate (StreamState.Sample.consumers.map (.client 0))
  rw [hs] at hs'
  cases hs'
  obtain ⟨t,ht,_,_,_,hgroup⟩ := hdrain (List.replicate 7 5) (length_replicate.trans hlen.symm)
  exact ⟨s,t,hs,hlen,howner,ht,hgroup [103]⟩

end ReplicatedStream
end RedRock
