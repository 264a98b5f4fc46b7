import RedRock.Election

/-!
One winner in each epoch, as long as no vote comes in between the scheduling of an election and
its start.
-/

namespace RedRock
open Lib List Option ElectionNode ClusterState Nat

section Takeover
variable {m : Nat} {N : Type} [DecidableEq N]

lemma clusterMoveSlot_epoch {s t : ClusterState m N} {n : N} {j : Fin m}
    (h : s.clusterMoveSlot n j = .ok t) : t.currentEpoch = s.currentEpoch := by
  obtain ⟨r,hr,ht⟩ := bind_ok.mp h
  have hdel : r.2.currentEpoch = s.currentEpoch := by
    unfold clusterDelSlot at hr
    split at hr
    · cases hr
      rfl
    simp only at hr
    split at hr
    · cases hr
      rfl
    · cases hr
  cases ht
  unfold clusterAddSlot
  split <;> exact hdel

lemma failoverLoop_epoch (v : ClusterView N) (oldmaster : N) (js : List (Fin m))
    {s t : ClusterState m N} (h : failoverLoop v oldmaster js s = .ok t) :
    t.currentEpoch = s.currentEpoch := by
  induction js generalizing s with
  | nil =>
    cases h
    rfl
  | cons j js ih =>
    rw [failoverLoop] at h
    split at h
    · obtain ⟨u,hu,h⟩ := bind_ok.mp h
      exact (ih h).trans (clusterMoveSlot_epoch hu)
    · exact ih h

lemma replaceYourMaster_epoch {v : ClusterView N} {s t : ClusterState m N}
    (h : s.clusterFailoverReplaceYourMaster v = .ok t) : t.currentEpoch = s.currentEpoch := by
  unfold clusterFailoverReplaceYourMaster at h
  split at h
  · cases h
    rfl
  split at h
  · cases h
    rfl
  refine (failoverLoop_epoch v _ _ h).trans ?_
  unfold clusterSetNodeAsMaster
  split <;> rfl

end Takeover

namespace ElectionNode
variable {m : Nat} {N : Type}

structure Quiet (x y : ElectionNode m N) : Prop where
  lastVoteEpoch : y.lastVoteEpoch = x.lastVoteEpoch
  authEpoch : y.failoverAuthEpoch = x.failoverAuthEpoch
  count : y.failoverAuthCount = x.failoverAuthCount
  sent : y.failoverAuthSent = x.failoverAuthSent
  epoch : x.cluster.currentEpoch ≤ y.cluster.currentEpoch

def counting (x : ElectionNode m N) (e : Nat) : Nat :=
  if x.failoverAuthSent = true ∧ x.failoverAuthEpoch = e then x.failoverAuthCount else 0

lemma Quiet.counting {x y : ElectionNode m N} (h : x.Quiet y) (e : Nat) :
    y.counting e = x.counting e := by
  rw [ElectionNode.counting,ElectionNode.counting,h.sent,h.authEpoch,h.count]

lemma quiet_updateRank (x : ElectionNode m N) (i : FailoverInput) : x.Quiet (x.updateRank i) := by
  unfold updateRank
  split <;> exact ⟨rfl,rfl,rfl,rfl,le_refl _⟩

lemma updateRank_epoch (x : ElectionNode m N) (i : FailoverInput) :
    (x.updateRank i).cluster.currentEpoch = x.cluster.currentEpoch := by
  unfold updateRank
  split <;> rfl

variable [DecidableEq N] {voters : Finset N} {conf : FailoverConf} {myself : N}
  {x y : ElectionNode m N} {i : FailoverInput}

lemma quiet_processHeader (x : ElectionNode m N) (hdr : ClusterMsg m N) :
    x.Quiet { x with cluster := x.cluster.processHeader hdr } :=
  ⟨rfl,rfl,rfl,rfl,le_max_left _ _⟩

lemma quiet_takeOver (h : x.takeOver myself = .ok y) : x.Quiet y := by
  obtain ⟨c,hc,h⟩ := bind_ok.mp h
  cases h
  exact ⟨rfl,rfl,rfl,rfl,le_of_eq (replaceYourMaster_epoch hc).symm⟩

def HandlesTo (voters : Finset N) (x : ElectionNode m N) : FailoverOutcome → ElectionNode m N → Prop
  | .idle, y => x.Quiet y
  | .scheduled, y => ∃ i, y = x.scheduleElection i
  | .asked, y => ∃ z, x.Quiet z ∧ z.failoverAuthSent = false ∧
      z.cluster.currentEpoch = x.cluster.currentEpoch ∧ y = z.startElection
  | .won, y => x.Quiet y ∧ y.failoverAuthSent = true ∧ neededQuorum voters ≤ y.failoverAuthCount

lemma handleSlaveFailover_spec {o : FailoverOutcome}
    (h : x.clusterHandleSlaveFailover voters conf myself i = (o,y)) : HandlesTo voters x o y := by
  have hrefl : x.Quiet x := ⟨rfl,rfl,rfl,rfl,le_refl _⟩
  have hrank := x.quiet_updateRank i
  have hepoch := x.updateRank_epoch i
  unfold clusterHandleSlaveFailover at h
  simp only at h
  split at h
  · cases h
    exact hrefl
  split at h
  · cases h
    exact hrefl
  split at h
  · cases h
    exact ⟨i,rfl⟩
  generalize x.updateRank i = z at h hrank hepoch
  split at h
  · cases h
    exact hrank
  split at h
  · cases h
    exact hrank
  split at h
  · rename_i hs
    cases h
    exact ⟨z,hrank,hs,hepoch,rfl⟩
  split at h
  · rename_i hs hq
    cases h
    have hsent : z.failoverAuthSent = true := by simpa using hs
    exact ⟨⟨hrank.lastVoteEpoch,hrank.authEpoch,hrank.count,hrank.sent,hrank.epoch⟩,hsent,hq⟩
  cases h
  exact hrank

lemma sendFailoverAuth_spec {mstime : Int} {hdr : ClusterMsg m N} {forceAck b : Bool}
    (h : x.clusterSendFailoverAuthIfNeeded voters conf myself mstime hdr forceAck = (b,y)) :
    (b = false ∧ y = x) ∨ (b = true ∧ myself ∈ voters ∧ x.cluster.currentEpoch ≤ hdr.currentEpoch ∧
        x.lastVoteEpoch ≠ x.cluster.currentEpoch ∧
        ∃ f, y = { x with lastVoteEpoch := x.cluster.currentEpoch, votedTime := f }) := by
  unfold clusterSendFailoverAuthIfNeeded at h
  repeat' split at h
  all_goals cases h
  any_goals exact .inl ⟨rfl,rfl⟩
  rename_i hvoter hepoch hlast _ _ _ _ _ _ _
  exact .inr ⟨rfl,not_not.mp hvoter,Nat.le_of_not_lt hepoch,hlast,_,rfl⟩

end ElectionNode

section Counting
variable {m : Nat} {N : Type} [DecidableEq N] {net net' : List (ClusterPacket m N)} {r : N}
  {e : Nat}

def acksPending (net : List (ClusterPacket m N)) (r : N) (e : Nat) : Nat :=
  net.countP fun p => p.type = .failoverAuthAck ∧ p.dst = r ∧ p.hdr.currentEpoch = e

lemma acksPending_append : acksPending (net ++ net') r e =
    acksPending net r e + acksPending net' r e := countP_append

lemma acksPending_eq_zero (h : ∀ p ∈ net, p.type ≠ .failoverAuthAck) :
    acksPending net r e = 0 := by
  apply countP_eq_zero.mpr
  intro p hp
  simp [h p hp]

lemma acksPending_eraseIdx {k : Nat} {p : ClusterPacket m N} (h : net[k]? = some p) :
    acksPending net r e = acksPending (net.eraseIdx k) r e +
      if p.type = .failoverAuthAck ∧ p.dst = r ∧ p.hdr.currentEpoch = e then 1 else 0 := by
  obtain ⟨hk,rfl⟩ := List.getElem?_eq_some_iff.mp h
  have hperm := getElem_cons_eraseIdx_perm hk
  rw [acksPending,← hperm.countP_eq,countP_cons]
  simp only [decide_eq_true_eq,acksPending]

lemma acksPending_eraseIdx_le (k : Nat) :
    acksPending (net.eraseIdx k) r e ≤ acksPending net r e :=
  (eraseIdx_sublist net k).countP_le

end Counting

structure NodeInv {m : Nat} {N : Type} [DecidableEq N] (votes : List (Ballot N Nat N))
    (net : List (ClusterPacket m N)) (n : N) (x : ElectionNode m N) : Prop where
  voted : ∀ b ∈ votes, b.voter = n →
    b.epoch ≤ x.lastVoteEpoch ∧ x.lastVoteEpoch ≤ x.cluster.currentEpoch
  asked : ∀ b ∈ votes, b.candidate = n → b.epoch ≤ x.failoverAuthEpoch
  epoch : x.failoverAuthEpoch ≤ x.cluster.currentEpoch
  request : ∀ p ∈ net, p.hdr.sender = n → ∀ f, p.type = .failoverAuthRequest f →
    p.hdr.currentEpoch ≤ x.failoverAuthEpoch
  counted : ∀ e, acksPending net n e + x.counting e ≤ tally votes e n
  idle : x.failoverAuthSent = false → x.failoverAuthCount = 0

namespace NodeInv
variable {m : Nat} {N : Type} [DecidableEq N] {votes : List (Ballot N Nat N)}
  {net net' : List (ClusterPacket m N)} {n : N} {x y : ElectionNode m N}
variable {ps : List (ClusterPacket m N)} {p : ClusterPacket m N}

section
variable (h : NodeInv votes net n x)
include h

lemma quiet (hq : x.Quiet y) : NodeInv votes net n y where
  voted b hb hn := by
    rw [hq.lastVoteEpoch]
    exact ⟨(h.voted b hb hn).1,le_trans (h.voted b hb hn).2 hq.epoch⟩
  asked b hb hn := by
    rw [hq.authEpoch]
    exact h.asked b hb hn
  epoch := by
    rw [hq.authEpoch]
    exact le_trans h.epoch hq.epoch
  request p hp hn f hf := by
    rw [hq.authEpoch]
    exact h.request p hp hn f hf
  counted e := by
    rw [hq.counting]
    exact h.counted e
  idle hs := by
    rw [hq.sent] at hs
    rw [hq.count]
    exact h.idle hs

lemma reroute (hreq : ∀ p ∈ net', p ∈ net ∨ ∀ f, p.type ≠ .failoverAuthRequest f)
    (hack : ∀ e, acksPending net' n e ≤ acksPending net n e) : NodeInv votes net' n x where
  voted := h.voted
  asked := h.asked
  epoch := h.epoch
  request p hp hn f hf := by
    rcases hreq p hp with hp | hp
    · exact h.request p hp hn f hf
    · exact absurd hf (hp f)
  counted e := le_trans (Nat.add_le_add_right (hack e) _) (h.counted e)
  idle := h.idle

lemma eraseIdx (k : Nat) : NodeInv votes (net.eraseIdx k) n x :=
  h.reroute (fun _ hp => .inl (mem_of_mem_eraseIdx hp)) fun _ => acksPending_eraseIdx_le k

lemma other (hps : ∀ p ∈ ps, p.type = .other) : NodeInv votes (net ++ ps) n x := by
  refine h.reroute (fun p hp => ?_) fun e => ?_
  · rcases mem_append.mp hp with hp | hp
    · exact .inl hp
    refine .inr fun f hf => ?_
    rw [hps p hp] at hf
    cases hf
  have hzero : acksPending ps n e = 0 := acksPending_eq_zero fun p hp => by simp [hps p hp]
  rw [acksPending_append,hzero]
  omega

lemma setLastVote (f : N → Int) :
    NodeInv votes net n { x with lastVoteEpoch := x.cluster.currentEpoch, votedTime := f } where
  voted b hb hn := by
    obtain ⟨h₁,h₂⟩ := h.voted b hb hn
    exact ⟨le_trans h₁ h₂,le_refl _⟩
  asked := h.asked
  epoch := h.epoch
  request := h.request
  counted := h.counted
  idle := h.idle

lemma vote {b : Ballot N Nat N}
    (hp : p.type = .failoverAuthAck ∧ p.dst = b.candidate ∧ p.hdr.currentEpoch = b.epoch)
    (hv : b.voter = n → b.epoch ≤ x.lastVoteEpoch ∧ x.lastVoteEpoch ≤ x.cluster.currentEpoch)
    (hc : b.candidate = n → b.epoch ≤ x.failoverAuthEpoch) :
    NodeInv (votes ++ [b]) (net ++ [p]) n x where
  voted b' hb hn := by
    rcases mem_append.mp hb with hb | hb
    · exact h.voted b' hb hn
    cases mem_singleton.mp hb
    exact hv hn
  asked b' hb hn := by
    rcases mem_append.mp hb with hb | hb
    · exact h.asked b' hb hn
    cases mem_singleton.mp hb
    exact hc hn
  epoch := h.epoch
  request q hq hn f hf := by
    rcases mem_append.mp hq with hq | hq
    · exact h.request q hq hn f hf
    cases mem_singleton.mp hq
    rw [hp.1] at hf
    cases hf
  counted e := by
    have hone : acksPending [p] n e = if b.epoch = e ∧ b.candidate = n then 1 else 0 := by
      simp only [acksPending,countP_singleton,hp.1,hp.2.1,hp.2.2,true_and,
        decide_eq_true_eq,and_comm]
    rw [acksPending_append,tally_concat,hone]
    have := h.counted e
    omega
  idle := h.idle

lemma count {k : Nat} (hp : net[k]? = some p) (ht : p.type = .failoverAuthAck) (hd : p.dst = n)
    (he : x.failoverAuthEpoch ≤ p.hdr.currentEpoch) (hs : x.failoverAuthSent = true) :
    NodeInv votes (net.eraseIdx k) n { x with failoverAuthCount := x.failoverAuthCount + 1 } := by
  have hpend : ∀ e, acksPending net n e =
      acksPending (net.eraseIdx k) n e + if p.hdr.currentEpoch = e then 1 else 0 := by
    intro e
    rw [acksPending_eraseIdx hp]
    simp only [ht,hd,true_and]
  have hepoch : p.hdr.currentEpoch = x.failoverAuthEpoch := by
    have hpos : 0 < tally votes p.hdr.currentEpoch n := by
      have h₁ := hpend p.hdr.currentEpoch
      have h₂ := h.counted p.hdr.currentEpoch
      rw [if_pos rfl] at h₁
      omega
    obtain ⟨b,hb,hbe,hbc⟩ := exists_ballot_of_tally hpos
    have := h.asked b hb hbc
    omega
  have herase := h.eraseIdx k
  refine ⟨herase.voted,herase.asked,herase.epoch,herase.request,fun e => ?_,fun hf => ?_⟩
  · have h₁ := hpend e
    have h₂ := h.counted e
    simp only [counting,hs,true_and] at h₂ ⊢
    rw [hepoch] at h₁
    split at h₂
    · rename_i hxe
      rw [if_pos hxe] at h₁ ⊢
      omega
    rename_i hxe
    rw [if_neg hxe] at h₁ ⊢
    omega
  · rw [hs] at hf
    cases hf

lemma schedule (i : FailoverInput) : NodeInv votes net n (x.scheduleElection i) where
  voted := h.voted
  asked := h.asked
  epoch := h.epoch
  request := h.request
  counted e := by
    have := h.counted e
    have hzero : (x.scheduleElection i).counting e = 0 := by
      simp [counting,scheduleElection]
    omega
  idle _ := rfl

lemma start (hs : x.failoverAuthSent = false) (hw : x.cluster.currentEpoch + 1 < 2 ^ 64)
    (hps : ∀ p ∈ ps, ∃ f, p.type = .failoverAuthRequest f ∧ p.hdr.currentEpoch = x.startElection.cluster.currentEpoch)
    : NodeInv votes (net ++ ps) n x.startElection := by
  have hepoch : x.startElection.cluster.currentEpoch = x.cluster.currentEpoch + 1 :=
    mod_eq_of_lt hw
  have hauth : x.startElection.failoverAuthEpoch = x.cluster.currentEpoch + 1 := mod_eq_of_lt hw
  refine ⟨fun b hb hn => ?_,fun b hb hn => ?_,?_,fun p hp hn f hf => ?_,fun e => ?_,fun hf => ?_⟩
  · obtain ⟨h₁,h₂⟩ := h.voted b hb hn
    rw [hepoch]
    exact ⟨h₁,le_succ_of_le h₂⟩
  · have h₁ := h.asked b hb hn
    have h₂ := h.epoch
    omega
  · rw [hepoch,hauth]
  · rcases mem_append.mp hp with hp | hp
    · have h₁ := h.request p hp hn f hf
      have h₂ := h.epoch
      omega
    obtain ⟨_,_,he⟩ := hps p hp
    rw [he,hepoch,hauth]
  · have hzero : acksPending ps n e = 0 := by
      apply acksPending_eq_zero
      intro p hp ha
      obtain ⟨f,hf,_⟩ := hps p hp
      rw [hf] at ha
      cases ha
    have hnone : x.startElection.counting e = 0 := by
      have hcount : x.startElection.failoverAuthCount = 0 := h.idle hs
      simp [counting,hcount]
    have := h.counted e
    rw [acksPending_append,hzero,hnone]
    omega
  · cases hf

end

end NodeInv

structure ElectionInv {m : Nat} {N : Type} [DecidableEq N] (voters : Finset N)
    (s : ElectionState m N) : Prop where
  single : SingleVotes s.votes
  voter : ∀ b ∈ s.votes, b.voter ∈ voters
  node : ∀ n, NodeInv s.votes s.net n (s.nodes n)
  won : ∀ w ∈ s.wins, neededQuorum voters ≤ tally s.votes w.2 w.1

namespace ElectionState
variable {m : Nat} {N : Type} [DecidableEq N] {peers : List N} {voters : Finset N}
  {conf : FailoverConf} {s t : ElectionState m N}

@[simp] lemma setNode_self (n : N) (x : ElectionNode m N) : (s.setNode n x).nodes n = x := by
  simp [setNode]

lemma setNode_of_ne {n k : N} (h : k ≠ n) (x : ElectionNode m N) :
    (s.setNode n x).nodes k = s.nodes k := by
  simp [setNode,h]

lemma forall_setNode {P : N → ElectionNode m N → Prop} {n : N} {x : ElectionNode m N}
    (h : ∀ k, k ≠ n → P k (s.nodes k)) (hx : P n x) (k : N) : P k ((s.setNode n x).nodes k) := by
  by_cases hk : k = n
  · subst hk
    rw [setNode_self]
    exact hx
  rw [setNode_of_ne hk]
  exact h k hk

section
variable (h : ElectionInv voters s)
include h

variable {x : ElectionNode m N}

lemma setNode_inv {n : N} (hx : NodeInv s.votes s.net n x) : ElectionInv voters (s.setNode n x) :=
  ⟨h.single,h.voter,forall_setNode (fun k _ => h.node k) hx,h.won⟩

lemma other_inv {ps : List (ClusterPacket m N)}
    (hps : ∀ p ∈ ps, p.type = .other) : ElectionInv voters { s with net := s.net ++ ps } :=
  ⟨h.single,h.voter,fun n => (h.node n).other hps,h.won⟩

lemma broadcast_inv (n : N) (dsts : List N) : ElectionInv voters (s.broadcast n .other dsts) := by
  apply other_inv h
  intro p hp
  obtain ⟨d,_,rfl⟩ := List.mem_map.mp hp
  rfl

lemma eraseIdx_inv (k : Nat) : ElectionInv voters { s with net := s.net.eraseIdx k } :=
  ⟨h.single,h.voter,fun n => (h.node n).eraseIdx k,h.won⟩

lemma asked_inv {n : N} (hx : NodeInv s.votes s.net n x) (hs : x.failoverAuthSent = false)
    (hw : x.cluster.currentEpoch + 1 < 2 ^ 64) (f : Bool) (dsts : List N) :
    ElectionInv voters
      ((s.setNode n x.startElection).broadcast n (.failoverAuthRequest f) dsts) := by
  let ps : List (ClusterPacket m N) := (dsts.filter (· ≠ n)).map fun dst =>
    ⟨dst,.failoverAuthRequest f,x.startElection.clusterBuildMessageHdr n⟩
  have hps : ∀ p ∈ ps, p.type = .failoverAuthRequest f ∧ p.hdr.sender = n ∧
      p.hdr.currentEpoch = x.startElection.cluster.currentEpoch := by
    intro p hp
    obtain ⟨d,_,rfl⟩ := List.mem_map.mp hp
    exact ⟨rfl,rfl,rfl⟩
  have hother : ∀ k, k ≠ n → NodeInv s.votes (s.net ++ ps) k (s.nodes k) := by
    intro k hk
    have hzero : ∀ e, acksPending ps k e = 0 := fun e => acksPending_eq_zero fun p hp => by
      simp [(hps p hp).1]
    have hnode := h.node k
    refine ⟨hnode.voted,hnode.asked,hnode.epoch,fun p hp hn g hg => ?_,fun e => ?_,hnode.idle⟩
    · rcases mem_append.mp hp with hp | hp
      · exact hnode.request p hp hn g hg
      · exact absurd (hn.symm.trans (hps p hp).2.1) hk
    rw [acksPending_append,hzero]
    exact hnode.counted e
  have hnet : ((s.setNode n x.startElection).broadcast n (.failoverAuthRequest f) dsts).net =
      s.net ++ ps := by
    simp only [broadcast,setNode_self]
    rfl
  refine ⟨h.single,h.voter,?_,h.won⟩
  rw [hnet]
  exact forall_setNode hother (hx.start hs hw fun p hp => ⟨f,(hps p hp).1,(hps p hp).2.2⟩)

lemma win_inv {n : N} {e : Nat} (hq : neededQuorum voters ≤ tally s.votes e n) :
    ElectionInv voters (s.recordWin n e) := by
  refine ⟨h.single,h.voter,h.node,fun w hw => ?_⟩
  rcases mem_append.mp hw with hw | hw
  · exact h.won w hw
  cases mem_singleton.mp hw
  exact hq

end

def votesInTime (voters : Finset N) (s : ElectionState m N) : ElectionAct m N → Bool
  | .failoverTick n _ => (s.nodes n).cluster.currentEpoch + 1 < 2 ^ 64
  | .deliver k _ =>
    (s.net[k]?).all fun p =>
      p.type ≠ .failoverAuthAck ∨ (s.nodes p.dst).countsAck voters p.hdr = false ∨
        (s.nodes p.dst).failoverAuthSent = true
  | _ => true

section
variable (h : ElectionInv voters s)
include h

lemma failoverTick_inv {n : N} {i : FailoverInput}
    (hg : s.votesInTime voters (.failoverTick n i) = true)
    (ht : s.failoverTick peers voters conf n i = .ok t) : ElectionInv voters t := by
  unfold failoverTick at ht
  have hnode := h.node n
  have hw := of_decide_eq_true hg
  generalize hr : (s.nodes n).clusterHandleSlaveFailover voters conf n i = r at ht
  obtain ⟨o,x⟩ := r
  have hspec := handleSlaveFailover_spec hr
  cases o with
  | idle =>
    cases ht
    exact setNode_inv h (hnode.quiet hspec)
  | scheduled =>
    cases ht
    obtain ⟨i,rfl⟩ := hspec
    exact broadcast_inv (setNode_inv h (hnode.schedule i)) n _
  | asked =>
    cases ht
    obtain ⟨z,hquiet,hsent,hepoch,rfl⟩ := hspec
    rw [← hepoch] at hw
    exact asked_inv h (hnode.quiet hquiet) hsent hw _ peers
  | won =>
    obtain ⟨hquiet,hsent,hcount⟩ := hspec
    obtain ⟨y,hy,ht⟩ := bind_ok.mp ht
    cases ht
    have hx := hnode.quiet hquiet
    have hset := setNode_inv h (hx.quiet (quiet_takeOver hy))
    apply broadcast_inv
    apply win_inv hset
    have hc := hx.counted x.failoverAuthEpoch
    rw [counting,if_pos ⟨hsent,rfl⟩] at hc
    exact le_trans hcount (le_trans (le_add_left _ _) hc)

lemma vote_inv {n r : N} {x : ElectionNode m N} {f : N → Int}
    (hx : NodeInv s.votes s.net n x) (hn : n ∈ voters)
    (hlast : x.lastVoteEpoch ≠ x.cluster.currentEpoch)
    (hr : x.cluster.currentEpoch ≤ (s.nodes r).failoverAuthEpoch)
    (hself : x.failoverAuthEpoch = (s.nodes n).failoverAuthEpoch) :
    ElectionInv voters (((s.setNode n
        { x with lastVoteEpoch := x.cluster.currentEpoch, votedTime := f }).recordVote
          ⟨n,x.cluster.currentEpoch,r⟩).sendPacket n .failoverAuthAck r) := by
  let y : ElectionNode m N := { x with lastVoteEpoch := x.cluster.currentEpoch, votedTime := f }
  let b : Ballot N Nat N := ⟨n,x.cluster.currentEpoch,r⟩
  let p : ClusterPacket m N := ⟨r,.failoverAuthAck,y.clusterBuildMessageHdr n⟩
  have hp : p.type = .failoverAuthAck ∧ p.dst = b.candidate ∧ p.hdr.currentEpoch = b.epoch :=
    ⟨rfl,rfl,rfl⟩
  have hy := hx.setLastVote f
  have hnet : (((s.setNode n y).recordVote b).sendPacket n .failoverAuthAck r).net =
      s.net ++ [p] := by
    simp only [sendPacket,recordVote,setNode_self]
    rfl
  refine ⟨?_,?_,?_,?_⟩
  · apply h.single.concat
    intro b' hb' hv he
    obtain ⟨h₁,h₂⟩ := hx.voted b' hb' hv
    change b'.epoch = x.cluster.currentEpoch at he
    omega
  · intro b' hb'
    rcases mem_append.mp hb' with hb' | hb'
    · exact h.voter b' hb'
    cases mem_singleton.mp hb'
    exact hn
  · rw [hnet]
    apply forall_setNode (P := NodeInv (s.votes ++ [b]) (s.net ++ [p]))
    · intro k hk
      refine (h.node k).vote hp (fun hv => absurd hv.symm hk) fun hc => ?_
      have hkr : r = k := hc
      subst hkr
      exact hr
    refine hy.vote hp (fun _ => ⟨le_refl _,le_refl _⟩) fun hc => ?_
    have hkr : r = n := hc
    subst hkr
    exact le_trans hr (le_of_eq hself.symm)
  · intro w hw
    exact le_trans (h.won w hw) (tally_le_concat b)

lemma deliver_inv {k : Nat} {mstime : Int} {p : ClusterPacket m N} (hp : s.net[k]? = some p)
    (hg : s.votesInTime voters (.deliver k mstime) = true) :
    ElectionInv voters ({ s with net := s.net.eraseIdx k }.processPacket voters conf p mstime) := by
  have he := eraseIdx_inv h k
  have hquiet := (s.nodes p.dst).quiet_processHeader p.hdr
  have hx := (he.node p.dst).quiet hquiet
  simp only [votesInTime,hp,all_some,decide_eq_true_eq] at hg
  unfold processPacket
  simp only
  split
  · exact setNode_inv he hx
  · rename_i ht
    apply setNode_inv he
    unfold processAck
    split
    · rename_i hc
      rcases hg with hg | hg | hg
      · exact absurd ht hg
      · rw [countsAck] at hc hg
        rw [hg] at hc
        cases hc
      rw [countsAck,decide_eq_true_eq] at hc
      exact ((h.node p.dst).quiet hquiet).count hp ht rfl hc.2 hg
    · exact hx
  rename_i forceAck ht
  split
  · rename_i y hy
    rcases sendFailoverAuth_spec hy with ⟨_,rfl⟩ | ⟨hb,_⟩
    · exact setNode_inv he hx
    · cases hb
  rename_i y hy
  rcases sendFailoverAuth_spec hy with ⟨hb,_⟩ | ⟨_,hvoter,hepoch,hlast,f,rfl⟩
  · cases hb
  have hreq := (h.node p.hdr.sender).request p (mem_of_getElem? hp) rfl forceAck ht
  exact vote_inv he hx hvoter hlast (le_trans hepoch hreq) rfl

lemma step_inv {a : ElectionAct m N} (hg : s.votesInTime voters a = true)
    (ht : s.step peers voters conf a = some (.ok t)) : ElectionInv voters t := by
  cases a with
  | failoverTick n i =>
    rw [step,some.injEq] at ht
    exact failoverTick_inv h hg ht
  | deliver k mstime =>
    rw [step] at ht
    split at ht
    · cases ht
    rename_i p hp
    cases ht
    exact deliver_inv h hp hg
  | lose k =>
    cases ht
    exact eraseIdx_inv h k
  | send n dst =>
    cases ht
    apply other_inv h
    intro p hp
    cases mem_singleton.mp hp
    rfl
  | learn n cluster failed mfEnd mfCanStart =>
    simp only [step] at ht
    split at ht
    · rename_i hle
      cases ht
      exact setNode_inv h ((h.node n).quiet ⟨rfl,rfl,rfl,rfl,hle.1⟩)
    · cases ht

end

lemma init_inv (views : N → ClusterState m N) (failed : N → N → Bool) (lastVoteEpoch : N → Nat) :
    ElectionInv voters (electionMachine peers voters conf views failed lastVoteEpoch).init where
  single := nodup_nil
  voter b hb := absurd hb not_mem_nil
  won w hw := absurd hw not_mem_nil
  node n :=
    { voted := fun b hb => absurd hb not_mem_nil
      asked := fun b hb => absurd hb not_mem_nil
      epoch := zero_le _
      request := fun p hp => absurd hp not_mem_nil
      counted := fun e => by
        simp [electionMachine,acksPending,counting,boot]
      idle := fun _ => rfl }

/-- A master votes once in an epoch, and one replica wins in it. -/
theorem one_winner_per_epoch (peers : List N) (voters : Finset N) (conf : FailoverConf)
    (views : N → ClusterState m N) (failed : N → N → Bool) (lastVoteEpoch : N → Nat)
    (as : List (ElectionAct m N)) (s : ElectionState m N)
    (hg : (electionMachine peers voters conf views failed lastVoteEpoch).Guarded
      (fun s a => s.votesInTime voters a = true)
      (electionMachine peers voters conf views failed lastVoteEpoch).init as)
    (hr : (electionMachine peers voters conf views failed lastVoteEpoch).run as = some (.ok s)) :
    SingleVotes s.votes ∧ ∀ n n' epoch, (n,epoch) ∈ s.wins → (n',epoch) ∈ s.wins → n = n' := by
  have h : ElectionInv voters s := Machine.guarded_invariant _
    (init_inv views failed lastVoteEpoch) (fun _ _ _ hi hc ht => step_inv hi hc ht) hg hr
  exact ⟨h.single,fun n n' epoch hn hn' =>
    h.single.majority_unique h.voter (h.won (n,epoch) hn) (h.won (n',epoch) hn')⟩

/-- Three masters with a slot each, and two replicas of the first one, which has failed. -/
def Sample.failingCluster : ClusterState 3 (Fin 5) where
  nodes n := if n < 3 then ⟨true,none,fun j => j.val = n.val,1,0⟩
    else ⟨false,some 0,fun _ => false,0,0⟩
  slots j := some ⟨j.val,lt_trans j.isLt (by decide)⟩
  migratingSlotsTo _ := none
  importingSlotsFrom _ := none
  currentEpoch := 0
  keys _ := 0
  noRedirection := false
  reply := none

def Sample.election : Machine (ElectionState 3 (Fin 5)) (ElectionAct 3 (Fin 5)) ClusterFault :=
  electionMachine [0,1,2,3,4] {0,1,2} ⟨15000,false,10,10⟩ (fun _ => Sample.failingCluster)
    (fun _ n => n = 0) (fun _ => 0)

/-- The first replica schedules an election and asks for votes, the two masters that are up
vote, and the second replica sees the request too. -/
def Sample.firstElection : List (ElectionAct 3 (Fin 5)) :=
  [.failoverTick 3 ⟨1000000,20000,0,0⟩,.failoverTick 3 ⟨1000500,20000,0,0⟩,.lose 0,.lose 0,
    .deliver 0 1000600,.deliver 0 1000600,.deliver 0 1000600]

/-- The second replica wins the next epoch after the first one has won its own. -/
def Sample.twoElections : List (ElectionAct 3 (Fin 5)) :=
  Sample.firstElection ++ [.deliver 0 1000700,.deliver 0 1000700,
    .failoverTick 3 ⟨1000700,20000,0,0⟩,.lose 0,.lose 0,.lose 0,.lose 0,
    .failoverTick 4 ⟨1060501,20000,0,0⟩,.lose 0,.failoverTick 4 ⟨1061001,20000,0,0⟩,.lose 0,
    .deliver 0 1061001,.deliver 0 1061001,.deliver 1 1061002,.deliver 1 1061002,
    .failoverTick 4 ⟨1061002,20000,0,0⟩]

theorem one_winner_per_epoch_twice :
    ∃ s, Sample.election.run Sample.twoElections = some (.ok s) ∧ s.wins = [(3,1),(4,2)] ∧
      SingleVotes s.votes ∧ ∀ n n' epoch, (n,epoch) ∈ s.wins → (n',epoch) ∈ s.wins → n = n' := by
  refine Machine.exists_run_and _ (by decide) fun s hs _ => ?_
  exact one_winner_per_epoch _ _ _ _ _ _ Sample.twoElections s
    (Machine.guarded_check _ _ _ _ (by decide)) hs

/-- The votes of the first election come in after the replica has scheduled another one and
before that one has started: they are counted in it, and it is won in an epoch in which the
masters have voted for the other replica. -/
theorem late_votes_two_winners : ∃ s, Sample.election.run (Sample.firstElection ++
        [.failoverTick 3 ⟨1060501,20000,0,0⟩,.deliver 0 1060502,.deliver 0 1060502,.lose 0,
          .failoverTick 4 ⟨1060501,20000,0,0⟩,.lose 0,.failoverTick 4 ⟨1061001,20000,0,0⟩,.lose 0,
          .deliver 0 1061001,.deliver 0 1061001,
          .failoverTick 3 ⟨1061001,20000,0,0⟩,.failoverTick 3 ⟨1061002,20000,0,0⟩,
          .deliver 1 1061002,.deliver 1 1061002,.failoverTick 4 ⟨1061003,20000,0,0⟩]) =
            some (.ok s) ∧ s.wins = [(3,2),(4,2)] := by
  apply Sample.election.observed _ (·.wins)
  decide

end ElectionState
end RedRock
