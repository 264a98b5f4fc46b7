import RedRock.ClusterSlots

namespace RedRock
open Lib List Option Function Finset

def ownedIn {m : Nat} {N : Type} [DecidableEq N] (slots : Fin m → Option N) (n : N) :
    Finset (Fin m) :=
  univ.filter fun j => slots j = some n

section Table
variable {m : Nat} {N : Type} [DecidableEq N]

lemma card_ownedIn_update (slots : Fin m → Option N) (j : Fin m) (o : Option N) (n : N) :
    (ownedIn (update slots j o) n).card + (if slots j = some n then 1 else 0) =
      (ownedIn slots n).card + if o = some n then 1 else 0 := by
  have hcard : ∀ slots : Fin m → Option N, ((ownedIn slots n).erase j).card +
      (if slots j = some n then 1 else 0) = (ownedIn slots n).card := by
    intro slots
    split
    · exact card_erase_add_one (by simpa [ownedIn])
    · rw [erase_eq_of_notMem (by simpa [ownedIn]),add_zero]
  have hsame : (ownedIn (update slots j o) n).erase j = (ownedIn slots n).erase j := by
    ext j'
    by_cases hj : j' = j <;> simp [ownedIn,hj]
  have hnew := hcard (update slots j o)
  rw [hsame,update_self] at hnew
  have hold := hcard slots
  omega

end Table

namespace ClusterState
variable {m : Nat} {N : Type} {s t u : ClusterState m N}
variable {hdr : ClusterMsg m N} {args : List Sds} {del : Bool}

structure SameRoles (s t : ClusterState m N) : Prop where
  master : ∀ n, (t.nodes n).master = (s.nodes n).master
  slaveof : ∀ n, (t.nodes n).slaveof = (s.nodes n).slaveof

lemma SameRoles.refl (s : ClusterState m N) : SameRoles s s := ⟨fun _ => rfl,fun _ => rfl⟩

lemma SameRoles.trans (h : SameRoles s t) (h' : SameRoles t u) : SameRoles s u :=
  ⟨fun n => (h'.master n).trans (h.master n),fun n => (h'.slaveof n).trans (h.slaveof n)⟩

variable [DecidableEq N] {v : ClusterView N} {n : N} {j : Fin m}

structure Booked (s : ClusterState m N) : Prop where
  table : ∀ n j, (s.nodes n).slots j = true ↔ s.slots j = some n
  count : ∀ n, (s.nodes n).numslots = (ownedIn s.slots n).card

lemma setNode_nodes (f : ClusterNode m N → ClusterNode m N) (n' : N) :
    (s.setNode n f).nodes n' = if n' = n then f (s.nodes n) else s.nodes n' := by
  simp [setNode,update_apply]

@[simp] lemma setNode_slots (f : ClusterNode m N → ClusterNode m N) :
    (s.setNode n f).slots = s.slots := rfl

lemma Booked.setNode (hs : Booked s) (f : ClusterNode m N → ClusterNode m N)
    (hbits : (f (s.nodes n)).slots = (s.nodes n).slots)
    (hnum : (f (s.nodes n)).numslots = (s.nodes n).numslots) : Booked (s.setNode n f) := by
  constructor
  · intro n' j
    rw [setNode_nodes]
    split
    · rename_i hn
      rw [hbits,← hn]
      exact hs.table n' j
    · exact hs.table n' j
  intro n'
  rw [setNode_nodes]
  split
  · rename_i hn
    rw [hnum,← hn]
    exact hs.count n'
  · exact hs.count n'

lemma Booked.assign (hs : Booked s) (o : Option N) (hslots : t.slots = update s.slots j o)
    (hbits : ∀ n j', (t.nodes n).slots j' =
      if j' = j then decide (o = some n) else (s.nodes n).slots j')
    (hnum : ∀ n, (t.nodes n).numslots + (if s.slots j = some n then 1 else 0) =
      (s.nodes n).numslots + if o = some n then 1 else 0) : Booked t where
  table n j' := by
    rw [hbits,hslots,update_apply]
    split
    · simp
    · exact hs.table n j'
  count n := by
    have hcard := card_ownedIn_update s.slots j o n
    rw [← hslots] at hcard
    have hcount := hs.count n
    have hn := hnum n
    split_ifs at hcard hn <;> omega

lemma Booked.bit (hs : Booked s) (n : N) (j : Fin m) :
    (s.nodes n).slots j = decide (s.slots j = some n) :=
  Bool.eq_iff_iff.mpr ((hs.table n j).trans (by simp))

lemma clusterDelSlot_ok (hs : Booked s) (j : Fin m) :
    ∃ t, s.clusterDelSlot j = .ok ((s.slots j).isSome,t) ∧ Booked t ∧ SameRoles s t ∧
      t.slots = update s.slots j none := by
  unfold clusterDelSlot
  cases hj : s.slots j with
  | none =>
    refine ⟨s,rfl,hs,.refl s,?_⟩
    rw [← hj,update_eq_self]
  | some n =>
    simp only [clusterNodeClearSlotBit,hs.bit,hj,decide_true,if_true,isSome_some]
    refine ⟨_,rfl,hs.assign none rfl (fun n' j' => ?_) fun n' => ?_,⟨fun n' => ?_,fun n' => ?_⟩,rfl⟩
    all_goals
      simp only [setNode_nodes]
      split <;> grind [update_apply,hs.bit]

lemma clusterAddSlot_ok (hs : Booked s) (hfree : s.slots j = none) (n : N) :
    ∃ t, s.clusterAddSlot n j = (true,t) ∧ Booked t ∧ SameRoles s t ∧
      t.slots = update s.slots j (some n) := by
  simp only [clusterAddSlot,hfree,isSome_none,Bool.false_eq_true,if_false]
  refine ⟨_,rfl,hs.assign (some n) rfl (fun n' j' => ?_) fun n' => ?_,
    ⟨fun n' => ?_,fun n' => ?_⟩,rfl⟩
  all_goals
    simp only [clusterNodeSetSlotBit,setNode_nodes]
    split <;> grind [update_apply,hs.bit]

lemma clusterMoveSlot_ok (hs : Booked s) (n : N) (j : Fin m) :
    ∃ t, s.clusterMoveSlot n j = .ok t ∧ Booked t ∧ SameRoles s t ∧
      t.slots = update s.slots j (some n) := by
  obtain ⟨u,hdel,hu,hroles,hslots⟩ := clusterDelSlot_ok hs j
  obtain ⟨t,hadd,ht,hroles',hslots'⟩ := clusterAddSlot_ok hu (by rw [hslots,update_self]) n
  refine ⟨t,?_,ht,hroles.trans hroles',?_⟩
  · rw [clusterMoveSlot,hdel]
    simp only [bind,Except.bind,hadd]
    rfl
  · rw [hslots',hslots,update_idem]

lemma delNodeSlotsLoop_ok (n : N) (js : List (Fin m)) (hs : Booked s) :
    ∃ t, delNodeSlotsLoop n js s = .ok t ∧ Booked t ∧ SameRoles s t ∧
      ∀ j x, t.slots j = some x → s.slots j = some x := by
  induction js generalizing s with
  | nil => exact ⟨s,rfl,hs,.refl s,fun _ _ h => h⟩
  | cons j js ih =>
    rw [delNodeSlotsLoop]
    split
    · obtain ⟨u,hdel,hu,hroles,hslots⟩ := clusterDelSlot_ok hs j
      obtain ⟨t,hloop,ht,hroles',hsub⟩ := ih hu
      refine ⟨t,?_,ht,hroles.trans hroles',fun j' x h => ?_⟩
      · rw [hdel]
        exact hloop
      have hx := hsub j' x h
      rw [hslots,update_apply] at hx
      split at hx
      · cases hx
      · exact hx
    · exact ih hs

lemma updateSlotsLoop_ok {sender : N} (epoch : Nat) (slots : Fin m → Bool) (curmaster : Option N)
    (js : List (Fin m)) (w : SlotsUpdate m) (hs : Booked s) :
    ∃ w' t, updateSlotsLoop v sender epoch slots curmaster js w s = .ok (w',t) ∧ Booked t ∧
      SameRoles s t ∧ ∀ j x, x ≠ sender → t.slots j = some x → s.slots j = some x := by
  induction js generalizing s w with
  | nil => exact ⟨w,s,rfl,hs,.refl s,fun _ _ _ h => h⟩
  | cons j js ih =>
    rw [updateSlotsLoop]
    split
    · obtain ⟨u,hmove,hu,hroles,hslots⟩ := clusterMoveSlot_ok hs sender j
      simp only [hmove,bind,Except.bind]
      obtain ⟨w',t,hloop,ht,hroles',hsub⟩ := ih _ hu
      refine ⟨w',t,hloop,ht,hroles.trans hroles',fun j' x hx h => ?_⟩
      have hx' := hsub j' x hx h
      rw [hslots,update_apply] at hx'
      split at hx'
      · cases hx'
        exact absurd rfl hx
      · exact hx'
    · exact ih w hs

lemma failoverLoop_ok (oldmaster : N) (js : List (Fin m)) (hs : Booked s) :
    ∃ t, failoverLoop v oldmaster js s = .ok t ∧ Booked t ∧ SameRoles s t := by
  induction js generalizing s with
  | nil => exact ⟨s,rfl,hs,.refl s⟩
  | cons j js ih =>
    rw [failoverLoop]
    split
    · obtain ⟨u,hmove,hu,hroles,_⟩ := clusterMoveSlot_ok hs v.myself j
      obtain ⟨t,hloop,ht,hroles'⟩ := ih hu
      refine ⟨t,?_,ht,hroles.trans hroles'⟩
      rw [hmove]
      exact hloop
    · exact ih hs

/-- The invariant: a replica serves no slot and has a master. -/
structure Owns (v : ClusterView N) (s : ClusterState m N) : Prop where
  booked : Booked s
  replica : s.nodeIsMaster v.myself = false → ∀ j, s.slots j ≠ some v.myself
  follows : s.nodeIsMaster v.myself = false → (s.nodes v.myself).slaveof ≠ none

lemma Owns.of_master (ht : Booked t) (hm : t.nodeIsMaster v.myself = true) : Owns v t := by
  refine ⟨ht,fun h => ?_,fun h => ?_⟩
  all_goals
    rw [hm] at h
    cases h

lemma Booked.numslots_eq_zero (hs : Booked s) :
    (s.nodes n).numslots = 0 ↔ ∀ j, s.slots j ≠ some n := by
  rw [hs.count,Int.natCast_eq_zero,card_eq_zero,ownedIn,filter_eq_empty_iff]
  simp

lemma clusterBump_master (s : ClusterState m N) :
    (s.clusterBumpConfigEpochWithoutConsensus v).nodeIsMaster v.myself = s.nodeIsMaster v.myself := by
  unfold clusterBumpConfigEpochWithoutConsensus
  simp only
  split
  · simp [nodeIsMaster,setNode_nodes]
  · rfl

section
variable (hs : Owns v s)
include hs

lemma Owns.keep (ht : Booked t) (hmaster : (t.nodes v.myself).master = (s.nodes v.myself).master)
    (hslave : (t.nodes v.myself).slaveof = (s.nodes v.myself).slaveof)
    (hsub : ∀ j, t.slots j = some v.myself → s.slots j = some v.myself) : Owns v t := by
  refine ⟨ht,fun h j hj => ?_,fun h => ?_⟩
  · exact hs.replica (hmaster.symm.trans h) j (hsub j hj)
  rw [hslave]
  exact hs.follows (hmaster.symm.trans h)

lemma Owns.congr (hn : t.nodes = s.nodes) (hslots : t.slots = s.slots) : Owns v t := by
  refine hs.keep ⟨?_,?_⟩ (by rw [hn]) (by rw [hn]) (by simp [hslots])
  · rw [hn,hslots]
    exact hs.booked.table
  rw [hn,hslots]
  exact hs.booked.count

lemma clusterSetMaster_ok (hn : n ≠ v.myself)
    (hzero : s.nodeIsMaster v.myself = true → (s.nodes v.myself).numslots = 0) :
    ∃ t, s.clusterSetMaster v n = .ok t ∧ Owns v t := by
  have hnum : (s.nodes v.myself).numslots = 0 := by
    cases hm : s.nodeIsMaster v.myself with
    | true => exact hzero hm
    | false => exact hs.booked.numslots_eq_zero.mpr (hs.replica hm)
  rw [clusterSetMaster,if_neg hn,if_neg (by simpa using hnum)]
  refine ⟨_,rfl,?_⟩
  generalize hu : (if s.nodeIsMaster v.myself = true then s.clusterCloseAllSlots else s) = u
  have hnodes : u.nodes = s.nodes := by
    rw [← hu]
    split <;> rfl
  have hslots : u.slots = s.slots := by
    rw [← hu]
    split <;> rfl
  have hb : Booked u := (hs.congr hnodes hslots).booked
  refine ⟨hb.setNode _ rfl rfl,fun _ j => ?_,fun _ => ?_⟩
  · rw [setNode_slots,hslots]
    exact hs.booked.numslots_eq_zero.mp hnum j
  · simp [setNode_nodes]

lemma slotsConfig_ok (sender : N) (epoch : Nat)
    (slots : Fin m → Bool) : ∃ t, s.clusterUpdateSlotsConfigWith v sender epoch slots = .ok t ∧
      Owns v t := by
  unfold clusterUpdateSlotsConfigWith
  simp only
  split
  · exact ⟨s,rfl,hs⟩
  rename_i hsender
  generalize hcur : (if s.nodeIsMaster v.myself = true then some v.myself
    else (s.nodes v.myself).slaveof) = curmaster
  obtain ⟨w,t,hloop,ht,hroles,hsub⟩ := updateSlotsLoop_ok (s := s) (v := v) epoch slots curmaster
    (List.finRange m) ⟨false,[]⟩ hs.booked
  have hown : Owns v t := hs.keep ht (hroles.master _) (hroles.slaveof _)
    fun j hj => hsub j _ (Ne.symm hsender) hj
  simp only [hloop,bind,Except.bind]
  split
  · exact ⟨t,rfl,hown⟩
  split
  · cases hc : curmaster with
    | none =>
      -- a replica has a master
      rw [hc] at hcur
      split at hcur
      · cases hcur
      rename_i hm
      exact absurd hcur (hs.follows (by simpa using hm))
    | some c =>
      simp only
      split
      · rename_i hnum
        refine clusterSetMaster_ok hown hsender fun hm => ?_
        have hsm : s.nodeIsMaster v.myself = true := (hroles.master v.myself).symm.trans hm
        rw [if_pos hsm,hc,some.injEq] at hcur
        exact hcur ▸ hnum
      · exact ⟨_,rfl,hown.congr rfl rfl⟩
  · exact ⟨_,rfl,hown.congr rfl rfl⟩

lemma asMaster_owns (n : N) : Owns v (s.clusterSetNodeAsMaster n) := by
  unfold clusterSetNodeAsMaster
  split
  · exact hs
  have hb : Booked (s.setNode n fun x => { x with master := true, slaveof := none }) :=
    hs.booked.setNode _ rfl rfl
  by_cases hn : v.myself = n
  · refine .of_master hb ?_
    simp [nodeIsMaster,setNode_nodes,hn]
  exact hs.keep hb (by rw [setNode_nodes,if_neg hn]) (by rw [setNode_nodes,if_neg hn])
    fun _ hj => hj

lemma setNode_owns {f : ClusterNode m N → ClusterNode m N} (hn : n ≠ v.myself)
    (hbits : (f (s.nodes n)).slots = (s.nodes n).slots)
    (hnum : (f (s.nodes n)).numslots = (s.nodes n).numslots) : Owns v (s.setNode n f) :=
  hs.keep (hs.booked.setNode f hbits hnum) (by rw [setNode_nodes,if_neg (Ne.symm hn)])
    (by rw [setNode_nodes,if_neg (Ne.symm hn)]) fun _ hj => hj

lemma setConfigEpoch_owns (n : N) (epoch : ClusterNode m N → Nat) :
    Owns v (s.setNode n fun x => { x with configEpoch := epoch x }) := by
  refine hs.keep (hs.booked.setNode _ rfl rfl) ?_ ?_ fun _ hj => hj
  all_goals
    rw [setNode_nodes]
    split
    · rename_i hn
      rw [hn]
    · rfl

lemma clusterDelNodeSlots_ok (n : N) : ∃ t, s.clusterDelNodeSlots n = .ok t ∧ Owns v t := by
  obtain ⟨t,hloop,ht,hroles,hsub⟩ := delNodeSlotsLoop_ok n (List.finRange m) hs.booked
  exact ⟨t,hloop,hs.keep ht (hroles.master _) (hroles.slaveof _) fun j => hsub j v.myself⟩

lemma turnIntoSlave_ok (hn : n ≠ v.myself) : ∃ t, s.turnIntoSlave n = .ok t ∧ Owns v t := by
  unfold turnIntoSlave
  split
  · obtain ⟨u,hdel,hu⟩ := clusterDelNodeSlots_ok hs n
    rw [hdel]
    exact ⟨_,rfl,setNode_owns hu hn rfl rfl⟩
  · exact ⟨s,rfl,hs⟩

lemma processRole_ok (hsender : hdr.sender ≠ v.myself) :
    ∃ t, s.processRole hdr = .ok t ∧ Owns v t := by
  unfold processRole
  cases hdr.slaveof with
  | none => exact ⟨_,rfl,asMaster_owns hs hdr.sender⟩
  | some master =>
    obtain ⟨u,hturn,hu⟩ := turnIntoSlave_ok hs hsender
    simp only [hturn,bind,Except.bind]
    cases master with
    | none => exact ⟨u,rfl,hu⟩
    | some n => exact ⟨_,rfl,setNode_owns hu hsender rfl rfl⟩

lemma clusterProcessPing_ok (hsender : hdr.sender ≠ v.myself) :
    ∃ t, s.clusterProcessPing v hdr = .ok t ∧ Owns v t := by
  have hhead : Owns v (s.processHeader hdr) :=
    setConfigEpoch_owns (s := { s with currentEpoch := max s.currentEpoch hdr.currentEpoch })
      (hs.congr rfl rfl) hdr.sender fun x => max x.configEpoch hdr.configEpoch
  obtain ⟨u,hrole,hu⟩ := processRole_ok hhead hsender
  rw [clusterProcessPing,hrole]
  simp only [bind,Except.bind]
  split
  · exact slotsConfig_ok hu hdr.sender hdr.configEpoch hdr.myslots
  · exact ⟨u,rfl,hu⟩

lemma clusterProcessUpdate_ok (n : N) (epoch : Nat) (slots : Fin m → Bool) :
    ∃ t, s.clusterProcessUpdate v n epoch slots = .ok t ∧ Owns v t := by
  unfold clusterProcessUpdate
  split
  · exact ⟨s,rfl,hs⟩
  exact slotsConfig_ok (setConfigEpoch_owns (asMaster_owns hs n) n fun _ => epoch) n epoch slots

lemma clusterBump_owns : Owns v (s.clusterBumpConfigEpochWithoutConsensus v) := by
  unfold clusterBumpConfigEpochWithoutConsensus
  simp only
  split
  · exact setConfigEpoch_owns (s := { s with currentEpoch := s.currentEpoch + 1 })
      (hs.congr rfl rfl) v.myself fun _ => s.currentEpoch + 1
  · exact hs

lemma failover_ok : ∃ t, s.clusterFailoverReplaceYourMaster v = .ok t ∧ Owns v t := by
  unfold clusterFailoverReplaceYourMaster
  split
  · exact ⟨s,rfl,hs⟩
  rename_i hm
  split
  · exact ⟨s,rfl,hs⟩
  rename_i oldmaster _
  have hmaster : (s.clusterSetNodeAsMaster v.myself).nodeIsMaster v.myself = true := by
    rw [clusterSetNodeAsMaster,if_neg hm]
    simp [nodeIsMaster,setNode_nodes]
  obtain ⟨t,hloop,ht,hroles⟩ := failoverLoop_ok (v := v) oldmaster (List.finRange m)
    (asMaster_owns hs v.myself).booked
  exact ⟨t,hloop,.of_master ht ((hroles.master _).trans hmaster)⟩

end

omit [DecidableEq N] in
lemma checkSlots_ok {seen slots : List (Fin m)} (h : s.checkSlots del args seen = .ok slots)
    (hseen : ∀ j ∈ seen, (s.slots j).isSome = del) : ∀ j ∈ slots, (s.slots j).isSome = del := by
  induction args generalizing seen with
  | nil =>
    cases h
    exact hseen
  | cons arg args ih =>
    rw [checkSlots] at h
    split at h
    · cases h
    rename_i slot _
    split at h
    · cases h
    rename_i hdel
    split at h
    · cases h
    rename_i hadd
    split at h
    · cases h
    refine ih h fun j hj => ?_
    rcases mem_cons.mp hj with rfl | hj
    · cases del with
      | true => simpa [isSome_iff_ne_none] using hdel
      | false => simpa using hadd
    · exact hseen j hj

lemma addDelSlotsLoop_ok (del : Bool) (js : List (Fin m)) (hs : Booked s) (hnd : js.Nodup)
    (hslots : ∀ j ∈ js, (s.slots j).isSome = del) :
    ∃ t, addDelSlotsLoop v del js s = .ok t ∧ Booked t ∧ SameRoles s t ∧
      ∀ j x, t.slots j = some x → s.slots j = some x ∨ del = false := by
  induction js generalizing s with
  | nil => exact ⟨s,rfl,hs,.refl s,fun _ _ h => .inl h⟩
  | cons j js ih =>
    obtain ⟨hj,hjs⟩ := nodup_cons.mp hnd
    rw [addDelSlotsLoop]
    generalize hu : ({ s with
      importingSlotsFrom := update s.importingSlotsFrom j none } : ClusterState m N) = u
    have hb : Booked u := by
      subst hu
      exact ⟨hs.table,hs.count⟩
    have hroles : SameRoles s u := by
      subst hu
      exact ⟨fun _ => rfl,fun _ => rfl⟩
    have hus : u.slots = s.slots := by
      subst hu
      rfl
    have hlast : ∀ o w, Booked w → SameRoles u w → w.slots = update u.slots j o →
        (∀ x, o = some x → del = false) →
        ∃ t, addDelSlotsLoop v del js w = .ok t ∧ Booked t ∧ SameRoles s t ∧
          ∀ j x, t.slots j = some x → s.slots j = some x ∨ del = false := by
      intro o w hw hroles' hslots' ho
      have hothers : ∀ j' ∈ js, (w.slots j').isSome = del := by
        intro j' hj'
        have hne : j' ≠ j := by
          rintro rfl
          exact hj hj'
        rw [hslots',hus,update_of_ne hne]
        exact hslots j' (mem_cons_of_mem j hj')
      obtain ⟨t,hloop,ht,hroles'',hsub⟩ := ih hw hjs hothers
      refine ⟨t,hloop,ht,(hroles.trans hroles').trans hroles'',fun j' x h => ?_⟩
      rcases hsub j' x h with hx | hx
      · rw [hslots',hus,update_apply] at hx
        split at hx
        · exact .inr (ho x hx)
        · exact .inl hx
      · exact .inr hx
    have hfirst := hslots j mem_cons_self
    rw [← hus] at hfirst
    cases del with
    | true =>
      obtain ⟨w,hdel,hw,hroles',hslots'⟩ := clusterDelSlot_ok hb j
      rw [hfirst] at hdel
      simp only [if_true,hdel,bind,Except.bind]
      exact hlast none w hw hroles' hslots' (by simp)
    | false =>
      rw [isSome_eq_false_iff,isNone_iff_eq_none] at hfirst
      obtain ⟨w,hadd,hw,hroles',hslots'⟩ := clusterAddSlot_ok hb hfirst v.myself
      rw [if_neg Bool.false_ne_true,hadd]
      exact hlast _ w hw hroles' hslots' (by simp)

def addsAsMaster (v : ClusterView N) (s : ClusterState m N) : ClusterAct m N → Bool
  | .addslots args =>
    match s.checkSlots false args [] with
    | .error _ => true
    | .ok _ => s.nodeIsMaster v.myself
  | _ => true

section
variable (hs : Owns v s)
include hs

lemma addDelSlots_ok
    (hadd : ∀ slots, del = false → s.checkSlots del args [] = .ok slots → s.nodeIsMaster v.myself = true)
    : ∃ t, s.addDelSlots v del args = .ok t ∧ Owns v t := by
  unfold addDelSlots
  split
  · exact ⟨_,rfl,hs.congr rfl rfl⟩
  rename_i slots hcheck
  have hslots := checkSlots_ok hcheck (by simp)
  have hmem : ∀ j ∈ (List.finRange m).filter (· ∈ slots), (s.slots j).isSome = del := by
    intro j hj
    rw [mem_filter,decide_eq_true_eq] at hj
    exact hslots j hj.2
  obtain ⟨t,hloop,ht,hroles,hsub⟩ := addDelSlotsLoop_ok (v := v) del _ hs.booked
    ((nodup_finRange m).filter _) hmem
  rw [hloop]
  refine ⟨t.addReplyOk,rfl,Owns.congr (s := t) ?_ rfl rfl⟩
  cases del with
  | true =>
    refine hs.keep ht (hroles.master _) (hroles.slaveof _) fun j hj => ?_
    exact (hsub j v.myself hj).resolve_right (by simp)
  | false => exact .of_master ht ((hroles.master _).trans (hadd slots rfl hcheck))

lemma setSlotNode_ok (hm : s.nodeIsMaster v.myself = true) (slot : Fin m) (n : N) :
    ∃ t, s.setSlotNode v slot n = .ok t ∧ Owns v t := by
  unfold setSlotNode
  split
  · exact ⟨_,rfl,hs.congr rfl rfl⟩
  simp only
  generalize hu₁ : (if s.keys slot = 0 then
      { s with migratingSlotsTo := update s.migratingSlotsTo slot none }
    else s : ClusterState m N) = u₁
  have h₁ : Owns v u₁ ∧ u₁.nodeIsMaster v.myself = true := by
    subst hu₁
    split
    · exact ⟨hs.congr rfl rfl,hm⟩
    · exact ⟨hs,hm⟩
  generalize hu₂ : (if n = v.myself ∧ u₁.importingSlotsFrom slot ≠ none then
      { u₁.clusterBumpConfigEpochWithoutConsensus v with
        importingSlotsFrom := update
          (u₁.clusterBumpConfigEpochWithoutConsensus v).importingSlotsFrom slot none }
    else u₁ : ClusterState m N) = u₂
  have h₂ : Owns v u₂ ∧ u₂.nodeIsMaster v.myself = true := by
    subst hu₂
    split
    · refine ⟨(clusterBump_owns h₁.1).congr rfl rfl,?_⟩
      exact (clusterBump_master u₁).trans h₁.2
    · exact h₁
  obtain ⟨t,hmove,ht,hroles,_⟩ := clusterMoveSlot_ok h₂.1.booked n slot
  rw [hmove]
  refine ⟨t.addReplyOk,rfl,Owns.congr (s := t) ?_ rfl rfl⟩
  exact .of_master ht ((hroles.master _).trans h₂.2)

lemma setSlot_ok (slot : Sds) (args : List Sds) :
    ∃ t, s.setSlot v slot args = .ok t ∧ Owns v t := by
  unfold setSlot
  split
  · exact ⟨_,rfl,hs.congr rfl rfl⟩
  rename_i hm
  rw [not_not] at hm
  split
  · exact ⟨_,rfl,hs.congr rfl rfl⟩
  split
  · split
    · exact ⟨_,rfl,hs.congr rfl rfl⟩
    split <;> exact ⟨_,rfl,hs.congr rfl rfl⟩
  · split
    · exact ⟨_,rfl,hs.congr rfl rfl⟩
    split <;> exact ⟨_,rfl,hs.congr rfl rfl⟩
  · exact ⟨_,rfl,hs.congr rfl rfl⟩
  · split
    · exact ⟨_,rfl,hs.congr rfl rfl⟩
    · exact setSlotNode_ok hs hm _ _
  · exact ⟨_,rfl,hs.congr rfl rfl⟩

lemma replicate_ok (node : Sds) : ∃ t, s.replicate v node = .ok t ∧ Owns v t := by
  unfold replicate
  split
  · exact ⟨_,rfl,hs.congr rfl rfl⟩
  split
  · exact ⟨_,rfl,hs.congr rfl rfl⟩
  rename_i hn
  split
  · exact ⟨_,rfl,hs.congr rfl rfl⟩
  split
  · exact ⟨_,rfl,hs.congr rfl rfl⟩
  rename_i hempty
  obtain ⟨t,hset,ht⟩ := clusterSetMaster_ok hs hn fun hm => by
    by_contra hnum
    exact hempty ⟨hm,.inl hnum⟩
  rw [hset]
  exact ⟨_,rfl,ht.congr rfl rfl⟩

lemma flushSlots_ok : ∃ t, s.flushSlots v = .ok t ∧ Owns v t := by
  unfold flushSlots
  split
  · exact ⟨_,rfl,hs.congr rfl rfl⟩
  obtain ⟨t,hdel,ht⟩ := clusterDelNodeSlots_ok hs v.myself
  rw [hdel]
  exact ⟨_,rfl,ht.congr rfl rfl⟩

lemma step_owns {a : ClusterAct m N} {r : Except ClusterFault (ClusterState m N)}
    (ha : addsAsMaster v s a = true) (h : s.step v a = some r) : ∃ t, r = .ok t ∧ Owns v t := by
  cases a with
  | addslots args =>
    cases h
    refine addDelSlots_ok hs fun slots _ hslots => ?_
    simpa [addsAsMaster,hslots] using ha
  | delslots args =>
    cases h
    exact addDelSlots_ok hs (by simp)
  | flushslots =>
    cases h
    exact flushSlots_ok hs
  | setslot slot args =>
    cases h
    exact setSlot_ok hs slot args
  | replicate node =>
    cases h
    exact replicate_ok hs node
  | ping hdr =>
    rw [step,ite_none_left_eq_some] at h
    obtain ⟨hsender,h⟩ := h
    cases h
    exact clusterProcessPing_ok hs hsender
  | update n epoch slots =>
    cases h
    exact clusterProcessUpdate_ok hs n epoch slots
  | failover =>
    cases h
    exact failover_ok hs
  | takeover =>
    rw [step,ite_none_left_eq_some] at h
    cases h.2
    exact failover_ok (clusterBump_owns hs)
  | migrateTo target =>
    rw [step,ite_none_left_eq_some,not_or] at h
    obtain ⟨⟨hm,htarget⟩,h⟩ := h
    cases h
    exact clusterSetMaster_ok hs htarget fun hm' => absurd hm' hm
  | configEpoch n epoch =>
    cases h
    exact ⟨_,rfl,setConfigEpoch_owns hs n fun _ => epoch⟩
  | keys j count | noRedirection flag =>
    cases h
    exact ⟨_,rfl,hs.congr rfl rfl⟩

end

lemma init_owns : Owns v (clusterNodeMachine m v).init := by
  refine .of_master ⟨fun n j => ?_,fun n => ?_⟩ rfl
  · simp [clusterNodeMachine]
  · simp [clusterNodeMachine,ownedIn]

/-- As long as `ADDSLOTS` goes to masters only, no assertion fails, and the table, the bitmaps
and the counters agree in every state reached, where a replica serves no slot. -/
theorem slot_bookkeeping (m : Nat) (v : ClusterView N) (as : List (ClusterAct m N))
    {r : Except ClusterFault (ClusterState m N)}
    (hg : (clusterNodeMachine m v).Guarded (fun s a => addsAsMaster v s a = true)
      (clusterNodeMachine m v).init as) (h : (clusterNodeMachine m v).run as = some r) :
    ∃ s, r = .ok s ∧ (∀ j n, s.slots j = some n ↔ (s.nodes n).slots j = true) ∧
      (∀ n, (s.nodes n).numslots = (univ.filter fun j => (s.nodes n).slots j = true).card) ∧
      (s.nodeIsMaster v.myself = false → ∀ j, (s.nodes v.myself).slots j = false) := by
  obtain ⟨s,rfl,hs⟩ := (clusterNodeMachine m v).guarded_run_ok
    (fun s a r hs ha h => step_owns hs ha h) as init_owns hg h
  refine ⟨s,rfl,fun j n => (hs.booked.table n j).symm,fun n => ?_,fun hm j => ?_⟩
  · simp [hs.booked.count,ownedIn,hs.booked.table]
  rw [← Bool.not_eq_true,hs.booked.table]
  exact hs.replica hm j

namespace Sample

def twoNodes : ClusterView Bool where
  myself := true
  known := [true,false]
  lookup
    | [97] => some true
    | [98] => some false
    | _ => none

end Sample
open Sample

namespace Sample

/-- The node after its first `REPLICATE`, and after `ADDSLOTS 0`. -/
def asReplica (m : Nat) : ClusterState m Bool :=
  ((clusterNodeMachine m twoNodes).init.clusterCloseAllSlots.setNode true
    fun x => { x with master := false, slaveof := some false }).addReplyOk

def withSlot (m : Nat) : ClusterState (m+1) Bool :=
  ({ asReplica (m+1) with
    importingSlotsFrom := update (fun _ => none) 0 none }.clusterAddSlot true 0).2.addReplyOk

lemma replicate_first (m : Nat) :
    (clusterNodeMachine m twoNodes).init.replicate twoNodes [98] = .ok (asReplica m) := by
  have hempty : (clusterNodeMachine m twoNodes).init.dbIsEmpty = true := by
    simp [dbIsEmpty,clusterNodeMachine]
  have hmaster : ∀ n, (clusterNodeMachine m twoNodes).init.nodeIsMaster n = true := fun _ => rfl
  have hnum : ((clusterNodeMachine m twoNodes).init.nodes true).numslots = 0 := rfl
  have hlookup : twoNodes.lookup [98] = some false := rfl
  have hmyself : twoNodes.myself = true := rfl
  simp [replicate,hlookup,hmyself,hmaster,hnum,hempty,clusterSetMaster,asReplica]

lemma filter_finRange_zero (m : Nat) :
    (List.finRange (m+1)).filter (· ∈ [(0 : Fin (m+1))]) = [0] := by
  simp [finRange_succ]

lemma addslots_second (m : Nat) :
    (asReplica (m+1)).addDelSlots twoNodes false [[48]] = .ok (withSlot m) := by
  have hslot : (getSlotOrReply [48] : Option (Fin (m+1))) = some 0 := by
    simp [getSlotOrReply,string2ll]
  have hfree : (asReplica (m+1)).slots 0 = none := rfl
  have hcheck : (asReplica (m+1)).checkSlots false [[48]] [] = .ok [0] := by
    simp [checkSlots,hslot,hfree]
  rw [addDelSlots,hcheck]
  simp only [filter_finRange_zero]
  rfl

end Sample

/-- A replica accepts `ADDSLOTS`, and the next `REPLICATE` fails the assertion on its slots. -/
theorem replica_owns_slot : ∃ s : ClusterState 16384 Bool,
      (clusterNodeMachine 16384 Sample.twoNodes).run [.replicate [98],.addslots [[48]]] = some (.ok s) ∧
      s.nodeIsMaster true = false ∧ s.slots 0 = some true ∧ (s.nodes true).numslots = 1 ∧
      s.step Sample.twoNodes (.replicate [98]) = some (.error .setMasterNumslots) := by
  refine ⟨withSlot 16383,?_,?_,?_,?_,?_⟩
  · have hfirst := replicate_first 16384
    have hsecond := addslots_second 16383
    rw [Machine.run,Machine.runFrom_cons_ok (t := asReplica 16384),
      Machine.runFrom_cons_ok (t := withSlot 16383)]
    · rfl
    · exact congrArg some hsecond
    · exact congrArg some hfirst
  all_goals rfl

/-- A slot is taken, lost to a node with a greater epoch, which makes this one its replica, and
won back by a failover. -/
theorem slot_bookkeeping_failover :
    ∃ s : ClusterState 2 Bool, (clusterNodeMachine 2 Sample.twoNodes).run
        [.addslots [[49]],.ping ⟨false,3,3,none,fun _ => true⟩,.failover] = some (.ok s) ∧
      s.nodeIsMaster true = true ∧ s.slots 1 = some true ∧
      ∀ j n, s.slots j = some n ↔ (s.nodes n).slots j = true := by
  obtain ⟨s,hs,hm,hslot⟩ := (clusterNodeMachine 2 twoNodes).exists_run
    [.addslots [[49]],.ping ⟨false,3,3,none,fun _ => true⟩,.failover]
    (fun s => s.nodeIsMaster true = true ∧ s.slots 1 = some true) (by decide)
  obtain ⟨t,ht,htable,_⟩ :=
    slot_bookkeeping 2 twoNodes _ (Machine.guarded_check _ _ _ _ (by decide)) hs
  cases ht
  exact ⟨s,hs,hm,hslot,htable⟩

end ClusterState
end RedRock
