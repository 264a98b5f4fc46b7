import RedRock.StreamPel

/-!
What a consumer group is for: the last entry that was delivered, and who has which entry. The
commands on the PELs keep them consistent, and do to this view of the group what they should.
-/

namespace RedRock
open Lib List Option Function StreamCG

@[ext] structure GroupView where
  lastId : StreamID
  owner : StreamID → Option Sds

namespace GroupView

def raise (v : GroupView) (id : StreamID) : GroupView :=
  if v.lastId < id then { v with lastId := id } else v

def give (v : GroupView) (id : StreamID) (name : Sds) : GroupView :=
  { v with owner := Function.update v.owner id (some name) }

def drop (v : GroupView) (id : StreamID) : GroupView :=
  { v with owner := Function.update v.owner id none }

def dismiss (v : GroupView) (name : Sds) : GroupView :=
  { v with owner := fun id => if v.owner id = some name then none else v.owner id }

lemma raise_raise (v : GroupView) (id : StreamID) : v.raise (v.raise id).lastId = v.raise id := by
  unfold raise
  by_cases h : v.lastId < id
  · simp [h]
  · simp [h]

def claim (log : StreamLog) (force : Bool) (name : Sds) (v : GroupView) (id : StreamID) :
    GroupView :=
  if (v.owner id).isSome || force && log.has id then v.give id name else v

end GroupView

namespace StreamCG
variable {g g' : StreamCG} {log : StreamLog} {c p : Nat} {id : StreamID} {name : Sds}

def view (g : StreamCG) : GroupView where
  lastId := g.lastId
  owner id := (g.pel.find id).bind fun p => (g.nackAt p).bind fun n =>
    n.consumer.bind fun c => (g.consumerAt c).map (·.name)

lemma PelInv.owner_eq_some (h : g.PelInv) : g.view.owner id = some name ↔
      ∃ c p k, g.pelAt c id = some p ∧ g.consumerAt c = some k ∧ k.name = name := by
  constructor
  · intro ho
    obtain ⟨p,hp,ho⟩ := bind_eq_some_iff.mp ho
    obtain ⟨n,hn,ho⟩ := bind_eq_some_iff.mp ho
    obtain ⟨c,hc,ho⟩ := bind_eq_some_iff.mp ho
    obtain ⟨k,hk,hkn⟩ := map_eq_some_iff.mp ho
    obtain ⟨c',hc'⟩ := (h.union id p).mp hp
    obtain ⟨n',hn',hno⟩ := h.owner c' id p hc'
    rw [hn] at hn'
    cases hn'
    rw [hc] at hno
    cases hno
    exact ⟨c,p,k,hc',hk,hkn⟩
  · rintro ⟨c,p,k,hp,hk,hkn⟩
    obtain ⟨n,hn,hno⟩ := h.owner c id p hp
    simp only [view,(h.union id p).mpr ⟨c,hp⟩,hn,hno,hk,hkn,bind_some,map_some]

lemma PelInv.owner_isSome (h : g.PelInv) : (g.view.owner id).isSome = (g.pel.find id).isSome := by
  cases hp : g.pel.find id with
  | none => simp [view,hp]
  | some p =>
    obtain ⟨c,hc⟩ := (h.union id p).mp hp
    obtain ⟨k,hk⟩ := pelAt_some hc
    have ho : g.view.owner id = some k.name := h.owner_eq_some.mpr ⟨c,p,k,hc,hk,rfl⟩
    rw [ho]
    rfl

lemma view_ext (h : g.PelInv) {v : GroupView} (hl : g.lastId = v.lastId)
    (ho : ∀ id name, (∃ c p k, g.pelAt c id = some p ∧ g.consumerAt c = some k ∧ k.name = name) ↔
      v.owner id = some name) : g.view = v := by
  apply GroupView.ext hl
  funext id
  apply Option.ext
  intro name
  rw [h.owner_eq_some,ho]

lemma name_of_names (hn : SameNames g g') :
    (∃ k, g'.consumerAt c = some k ∧ k.name = name) ↔
      ∃ k, g.consumerAt c = some k ∧ k.name = name := by
  have h := hn c
  constructor
  · rintro ⟨k,hk,rfl⟩
    rw [hk] at h
    exact map_eq_some_iff.mp h.symm
  rintro ⟨k,hk,rfl⟩
  rw [hk] at h
  exact map_eq_some_iff.mp h

lemma AssignedTo.named (ha : AssignedTo g g' id p c)
    (hc : ∃ k, g.consumerAt c = some k ∧ k.name = name) :
    ∃ k, g'.consumerAt c = some k ∧ k.name = name := (name_of_names ha.names).mpr hc

section
variable (h : g.PelInv)
include h

lemma PelInv.owner_of_names
    (hn : SameNames g g') :
    g.view.owner id = some name ↔
      ∃ c p k, g.pelAt c id = some p ∧ g'.consumerAt c = some k ∧ k.name = name := by
  rw [h.owner_eq_some]
  simp only [exists_and_left,name_of_names hn]

lemma AssignedTo.view (ha : AssignedTo g g' id p c)
    (hp : g.pel.find id = some p ∨ g.nackAt p = none)
    (hc : ∃ k, g.consumerAt c = some k ∧ k.name = name) : g'.view = g.view.give id name := by
  apply view_ext (ha.inv h hp) ha.lastId
  intro id' name'
  simp only [ha.pelAt,← and_assoc,GroupView.give]
  by_cases hid : id' = id
  · subst hid
    simp only [if_true,update_self,some.injEq]
    constructor
    · rintro ⟨c',q,k,⟨hq,hk⟩,hkn⟩
      split at hq
      · rename_i hcc
        subst hcc
        obtain ⟨k₁,hk₁,hn₁⟩ := hc
        obtain ⟨k₂,hk₂,hn₂⟩ := (name_of_names ha.names).mp ⟨k,hk,hkn⟩
        rw [hk₁] at hk₂
        cases hk₂
        exact hn₁.symm.trans hn₂
      · cases hq
    · rintro rfl
      obtain ⟨k,hk,hkn⟩ := ha.named hc
      exact ⟨c,p,k,⟨by rw [if_pos rfl],hk⟩,hkn⟩
  simp only [hid,if_false,update_of_ne hid,h.owner_of_names ha.names,and_assoc]

lemma Released.view (hr : Released g g' id p) (hp : g.pel.find id = some p) :
    g'.view = g.view.drop id := by
  apply view_ext (hr.inv h hp) hr.lastId
  intro id' name'
  simp only [hr.pelAt,GroupView.drop]
  by_cases hid : id' = id
  · subst hid
    simp
  simp only [hid,if_false,update_of_ne hid,h.owner_of_names hr.names]

lemma Dismissed.view (hc : g.consumers.find name = some c)
    (hd : Dismissed g g' name c) : g'.view = g.view.dismiss name := by
  obtain ⟨k₀,hk₀,hkn₀⟩ := (h.named name c).mp hc
  apply view_ext (hd.inv h hc) hd.lastId
  intro id name'
  have hpa : ∀ c', c' ≠ c → g'.pelAt c' id = g.pelAt c' id := by
    intro c' hne
    apply pelAt_congr
    rw [hd.consumerAt,if_neg hne]
  simp only [GroupView.dismiss]
  constructor
  · rintro ⟨c',q,k,hq,hk,hkn⟩
    rw [hd.consumerAt] at hk
    split at hk
    · cases hk
    rename_i hcc
    rw [hpa c' hcc] at hq
    have ho : g.view.owner id = some name' := h.owner_eq_some.mpr ⟨c',q,k,hq,hk,hkn⟩
    rw [ho,if_neg]
    intro he
    injection he with he
    have := (h.named name c').mpr ⟨k,hk,hkn.trans he⟩
    rw [hc] at this
    exact hcc (some.inj this).symm
  intro ho
  split at ho
  · cases ho
  rename_i hne
  obtain ⟨c',q,k,hq,hk,hkn⟩ := h.owner_eq_some.mp ho
  have hcc : c' ≠ c := by
    rintro rfl
    rw [hk₀] at hk
    cases hk
    exact hne (ho.trans (congrArg some (hkn.symm.trans hkn₀)))
  refine ⟨c',q,k,?_,?_,hkn⟩
  · rw [hpa c' hcc]
    exact hq
  rw [hd.consumerAt,if_neg hcc]
  exact hk

lemma Recounted.view (hr : Recounted g g') : g'.view = g.view := by
  apply view_ext (hr.inv h) hr.lastId
  intro id name
  rw [h.owner_eq_some,hr.consumerAt]
  simp only [pelAt_congr (congrFun hr.consumerAt _)]

lemma PelInv.dismiss_eq (hc : g.consumers.find name = none) : g.view.dismiss name = g.view := by
  apply GroupView.ext
  · rfl
  funext id
  simp only [GroupView.dismiss]
  split
  · rename_i ho
    obtain ⟨c,p,k,_,hk,hkn⟩ := h.owner_eq_some.mp ho
    rw [(h.named name c).mpr ⟨k,hk,hkn⟩] at hc
    cases hc
  · rfl

lemma delConsumer_view (name : Sds) :
    ∃ pending g', g.streamDelConsumer name = .ok (pending,g') ∧ g'.PelInv ∧
      g'.view = g.view.dismiss name := by
  cases hc : g.consumers.find name with
  | none =>
    refine ⟨0,g,?_,h,(h.dismiss_eq hc).symm⟩
    rw [streamDelConsumer,hc]
  | some c =>
    obtain ⟨pending,g',hg',hd⟩ := delConsumer_spec h hc
    exact ⟨pending,g',hg',hd.inv h hc,hd.view h hc⟩

lemma lookupConsumer_spec (name : Sds) :
    ∃ c g', g.streamLookupConsumer name = (c,g') ∧ g'.PelInv ∧ g'.view = g.view ∧
      ∃ k, g'.consumerAt c = some k ∧ k.name = name := by
  unfold streamLookupConsumer
  cases hf : g.consumers.find name with
  | some c => exact ⟨c,g,rfl,h,rfl,(h.named name c).mp hf⟩
  | none =>
    let g' : StreamCG := { g with
      consumers := g.consumers.insert name g.next
      consumerAt := Function.update g.consumerAt g.next (some ⟨name,∅⟩)
      next := g.next + 1 }
    have hnone := h.fresh g.next (le_refl _)
    have hat : ∀ c', c' ≠ g.next → g'.consumerAt c' = g.consumerAt c' := fun c' hne =>
      update_of_ne hne _ _
    have hself : g'.consumerAt g.next = some ⟨name,∅⟩ := update_self _ _ _
    have hpa : ∀ c' id, g'.pelAt c' id = g.pelAt c' id := by
      intro c' id
      by_cases hc : c' = g.next
      · subst hc
        rw [pelAt,hself,pelAt,hnone.2]
        rfl
      · exact pelAt_congr (hat c' hc) id
    have hinv : g'.PelInv := by
      refine ⟨fun q hq => ⟨(h.fresh q (Nat.le_of_succ_le hq)).1,?_⟩,fun name' c' => ?_,
        fun id q => ?_,fun c' id q hq => ?_,h.single⟩
      · rw [hat q (Nat.ne_of_gt hq)]
        exact (h.fresh q (Nat.le_of_succ_le hq)).2
      · change (g.consumers.insert name g.next).find name' = some c' ↔ _
        rw [Rax.find_insert]
        by_cases hn : name' = name
        · simp only [hn,if_true,some.injEq]
          constructor
          · rintro rfl
            exact ⟨_,hself,rfl⟩
          rintro ⟨k,hk,hkn⟩
          by_contra hne
          rw [hat c' (Ne.symm hne)] at hk
          rw [(h.named name c').mpr ⟨k,hk,hkn⟩] at hf
          cases hf
        simp only [hn,if_false]
        rw [h.named]
        by_cases hc : c' = g.next
        · subst hc
          rw [hself,hnone.2]
          simp [Ne.symm hn]
        · rw [hat c' hc]
      · change g.pel.find id = some q ↔ _
        simp only [hpa]
        exact h.union id q
      · rw [hpa] at hq
        exact h.owner c' id q hq
    refine ⟨g.next,g',rfl,hinv,?_,⟨_,hself,rfl⟩⟩
    apply view_ext hinv (v := g.view) rfl
    intro id name'
    rw [h.owner_eq_some]
    simp only [hpa]
    constructor
    · rintro ⟨c',q,k,hq,hk,hkn⟩
      refine ⟨c',q,k,hq,?_,hkn⟩
      rw [← hat c']
      · exact hk
      rintro rfl
      rw [pelAt,hnone.2] at hq
      cases hq
    rintro ⟨c',q,k,hq,hk,hkn⟩
    refine ⟨c',q,k,hq,?_,hkn⟩
    rw [hat c']
    · exact hk
    rintro rfl
    rw [hnone.2] at hk
    cases hk

lemma PelInv.setLastId (id : StreamID) : PelInv { g with lastId := id } :=
  ⟨h.fresh,h.named,h.union,h.owner,h.single⟩

lemma PelInv.raiseLastId (id : StreamID) : (g.raiseLastId id).PelInv := by
  unfold StreamCG.raiseLastId
  split
  · exact h.setLastId id
  · exact h

end

lemma view_raiseLastId (g : StreamCG) (id : StreamID) :
    (g.raiseLastId id).view = g.view.raise id := by
  unfold raiseLastId GroupView.raise
  by_cases h : g.lastId < id
  · rw [if_pos h,if_pos (show g.view.lastId < id from h)]
    rfl
  · rw [if_neg h,if_neg (show ¬g.view.lastId < id from h)]

lemma consumerAt_raiseLastId (g : StreamCG) (id : StreamID) :
    (g.raiseLastId id).consumerAt = g.consumerAt := by
  unfold raiseLastId
  split <;> rfl

end StreamCG

def forcedClaim (group name : Sds) (id : StreamID) (time count : Int) (lastId : StreamID) :
    StreamCommand :=
  .xclaim group name 0 [id] ⟨some (.time time),count,true,true,lastId⟩

def GroupView.command (log : StreamLog) (v : GroupView) : StreamCommand → GroupView
  | .xclaim _ name _ ids opts => ids.foldl (GroupView.claim log opts.force name) (v.raise opts.lastid)
  | .xgroupSetid _ (some id) => { v with lastId := id }
  | _ => v

inductive PropagatedFor (group : Sds) : StreamCommand → Prop where
  | claim (name : Sds) (id : StreamID) (time count : Int) (lastId : StreamID) :
    PropagatedFor group (forcedClaim group name id time count lastId)
  | setid (id : StreamID) : PropagatedFor group (.xgroupSetid group (some id))

namespace GroupView

lemma raise_self (v : GroupView) : v.raise v.lastId = v := by
  unfold raise
  rw [if_neg (lt_irrefl _)]

lemma setLastId_raise (v : GroupView) (id : StreamID) :
    { v with lastId := (v.raise id).lastId } = v.raise id := by
  unfold raise
  split
  · rfl
  · rfl

lemma command_forcedClaim {log : StreamLog} {v w : GroupView} {group name : Sds} {id : StreamID}
    {time count : Int} {lastId : StreamID} (hr : v.raise lastId = w)
    (hid : (w.owner id).isSome = true ∨ log.has id = true) :
    v.command log (forcedClaim group name id time count lastId) = w.give id name := by
  simp only [command,forcedClaim,foldl_cons,foldl_nil,hr,claim,Bool.true_and]
  rw [if_pos]
  rw [Bool.or_eq_true]
  exact hid

end GroupView

namespace StreamCG
variable {g g' : StreamCG} {log : StreamLog} {c p : Nat} {id : StreamID} {name : Sds}

lemma AssignedTo.propagate (ha : AssignedTo g g' id p c)
    (hc : ∃ k, g.consumerAt c = some k ∧ k.name = name) (group : Sds) :
    ∃ time count, g'.streamPropagateXCLAIM group id p =
      .ok (forcedClaim group name id time count g.lastId) := by
  obtain ⟨n,hn,hno⟩ := ha.record
  obtain ⟨k,hk,rfl⟩ := ha.named hc
  refine ⟨n.deliveryTime,n.deliveryCount,?_⟩
  simp only [streamPropagateXCLAIM,readNACK_ok hn,bind,Except.bind,hno,readConsumer_ok hk,ha.lastId]
  rfl

lemma deliver_view (h : g.PelInv) (hc : ∃ k, g.consumerAt c = some k ∧ k.name = name)
    (group : Sds) (now : Int) (id : StreamID) :
    ∃ p g' time count, g.deliver now c id = .ok (p,g') ∧ g'.PelInv ∧
      (∃ k, g'.consumerAt c = some k ∧ k.name = name) ∧ g'.view = g.view.give id name ∧
      g'.streamPropagateXCLAIM group id p = .ok (forcedClaim group name id time count g.lastId) := by
  obtain ⟨p,g',hg',ha,hp⟩ := deliver_spec h (hc.imp fun _ hk => hk.1) now id
  obtain ⟨time,count,hcmd⟩ := ha.propagate hc group
  exact ⟨p,g',time,count,hg',ha.inv h hp,ha.named hc,ha.view h hp hc,hcmd⟩

lemma replyLoop_spec (log : StreamLog) (group : Sds) (now : Int) (noack : Bool)
    (es : List (StreamID × StreamFields)) (hes : ∀ e ∈ es, log.has e.1 = true) (b : Bool)
    (h : g.PelInv) (hc : ∃ k, g.consumerAt c = some k ∧ k.name = name) :
    ∃ g' cmds, replyLoop group now c noack es b g = .ok (g',cmds) ∧ g'.PelInv ∧
      (∀ cmd ∈ cmds, PropagatedFor group cmd) ∧ g'.view = cmds.foldl (GroupView.command log) g.view := by
  induction es generalizing g b with
  | nil => exact ⟨g,[],rfl,h,fun _ hm => absurd hm not_mem_nil,rfl⟩
  | cons e es ih =>
    obtain ⟨id,fields⟩ := e
    have hes' : ∀ e ∈ es, log.has e.1 = true := fun e he => hes e (mem_cons_of_mem _ he)
    have h₁ := h.raiseLastId id
    have hv₁ := view_raiseLastId g id
    have hc₁ : ∃ k, (g.raiseLastId id).consumerAt c = some k ∧ k.name = name := by
      rw [consumerAt_raiseLastId]
      exact hc
    rw [replyLoop]
    cases noack with
    | true =>
      obtain ⟨g',cmds,hg',hinv,hprop,hview⟩ := ih hes' (b || decide (g.lastId < id)) h₁ hc₁
      simp only [if_true,hg',bind,Except.bind]
      refine ⟨g',_,rfl,hinv,?_,?_⟩
      · split
        · intro cmd hcmd
          rcases mem_cons.mp hcmd with rfl | hcmd
          · exact .setid _
          · exact hprop cmd hcmd
        · exact hprop
      rw [hview,hv₁]
      split
      · rw [foldl_cons]
        congr 1
        change _ = { g.view with lastId := (g.raiseLastId id).lastId }
        have hl : (g.raiseLastId id).lastId = (g.view.raise id).lastId := by rw [← hv₁]; rfl
        rw [hl,GroupView.setLastId_raise]
      rename_i hb
      have hlt : ¬g.view.lastId < id := by
        intro hlt
        exact hb (by simp [show g.lastId < id from hlt])
      rw [GroupView.raise,if_neg hlt]
    | false =>
      obtain ⟨p,g₂,time,count,hg₂,h₂,hc₂,hv₂,hcmd⟩ := deliver_view h₁ hc₁ group now id
      obtain ⟨g',cmds,hg',hinv,hprop,hview⟩ := ih hes' (b || decide (g.lastId < id)) h₂ hc₂
      simp only [Bool.false_eq_true,if_false,hg₂,hcmd,hg',bind,Except.bind]
      refine ⟨g',_,rfl,hinv,?_,?_⟩
      · intro cmd hcmd
        rcases mem_cons.mp hcmd with rfl | hcmd
        · exact .claim name id time count _
        · exact hprop cmd hcmd
      rw [hview,foldl_cons,hv₂,hv₁]
      congr 1
      have hl : (g.raiseLastId id).lastId = (g.view.raise id).lastId := by rw [← hv₁]; rfl
      rw [hl]
      exact (GroupView.command_forcedClaim (g.view.raise_raise id)
        (.inr (hes (id,fields) mem_cons_self))).symm

lemma claimLookup_isSome (h : g.PelInv) (log : StreamLog) (now : Int) (force : Bool)
    (id : StreamID) :
    (g.claimLookup log now force id).1.isSome = ((g.view.owner id).isSome || force && log.has id) := by
  rw [h.owner_isSome,claimLookup]
  cases g.pel.find id with
  | some p => rfl
  | none =>
    cases force && log.has id with
    | true | false => rfl

lemma claimLookup_none {now : Int} {force : Bool} {g₁ : StreamCG}
    (hl : g.claimLookup log now force id = (none,g₁)) : g₁ = g := by
  unfold claimLookup at hl
  split at hl
  · cases hl
  split at hl
  · cases hl
  cases hl
  rfl

lemma claimLoop_spec (log : StreamLog) (group : Sds) (now minidle deliverytime : Int)
    (opts : XclaimOptions) (ids : List StreamID) (h : g.PelInv) (hc : ∃ k, g.consumerAt c = some k ∧ k.name = name) :
    ∃ g' claimed cmds, claimLoop log group now c minidle deliverytime opts ids g =
        .ok (g',claimed,cmds) ∧ g'.PelInv ∧ g'.lastId = g.lastId ∧
      (∀ cmd ∈ cmds, ∃ id time count, cmd = forcedClaim group name id time count g.lastId) ∧
      g'.view = cmds.foldl (GroupView.command log) g.view ∧
      (minidle = 0 → g'.view = ids.foldl (GroupView.claim log opts.force name) g.view) := by
  induction ids generalizing g with
  | nil => exact ⟨g,[],[],rfl,h,rfl,fun _ hm => absurd hm not_mem_nil,rfl,fun _ => rfl⟩
  | cons id ids ih =>
    rw [claimLoop]
    generalize hl : g.claimLookup log now opts.force id = r
    obtain ⟨q,g₁⟩ := r
    cases q with
    | none =>
      have hnot := claimLookup_isSome h log now opts.force id
      rw [hl] at hnot
      obtain rfl := claimLookup_none hl
      obtain ⟨g',claimed,cmds,hg',hinv,hlast,hcmds,hview,hzero⟩ := ih h hc
      refine ⟨g',claimed,cmds,hg',hinv,hlast,hcmds,hview,fun hm => ?_⟩
      have hstay : GroupView.claim log opts.force name g₁.view id = g₁.view := by
        rw [GroupView.claim,← hnot]
        rfl
      rw [hzero hm,foldl_cons,hstay]
    | some p =>
      obtain ⟨k,hk,hkn⟩ := hc
      obtain ⟨⟨n,hn,hwhy,g₂,hg₂,ha⟩,hp⟩ := claim_spec h ⟨k,hk⟩ deliverytime hl
      have hp' : g.pel.find id = some p ∨ g.nackAt p = none := hp.imp_right And.right
      have hsome := claimLookup_isSome h log now opts.force id
      rw [hl] at hsome
      have hin : (g.view.owner id).isSome = true ∨ log.has id = true := by
        rcases Bool.or_eq_true _ _ ▸ hsome.symm with ho | ho
        · exact .inl ho
        · exact .inr (Bool.and_eq_true _ _ ▸ ho).2
      simp only [readNACK_ok hn,bind,Except.bind]
      split
      · -- the entry is with its consumer, and stays there
        rename_i hfresh
        simp only [tooFresh,Bool.and_eq_true,decide_eq_true_eq] at hfresh
        rcases hwhy with ⟨rfl,_⟩ | ⟨_,hnone⟩
        · obtain ⟨g',claimed,cmds,hg',hinv,hlast,hcmds,hview,_⟩ := ih h ⟨k,hk,hkn⟩
          exact ⟨g',claimed,cmds,hg',hinv,hlast,hcmds,hview,fun hm => absurd hm hfresh.1.2⟩
        rw [hnone] at hfresh
        cases hfresh.1.1
      obtain ⟨time,count,hcmd⟩ := ha.propagate ⟨k,hk,hkn⟩ group
      have hv₂ := ha.view h hp' ⟨k,hk,hkn⟩
      obtain ⟨g',claimed,cmds,hg',hinv,hlast,hcmds,hview,hzero⟩ :=
        ih (ha.inv h hp') (ha.named ⟨k,hk,hkn⟩)
      simp only [hg₂,hcmd,hg']
      refine ⟨g',_,_,rfl,hinv,hlast.trans ha.lastId,?_,?_,fun hm => ?_⟩
      · intro cmd hm
        rcases mem_cons.mp hm with rfl | hm
        · exact ⟨id,time,count,rfl⟩
        rw [← ha.lastId]
        exact hcmds cmd hm
      · rw [hview,foldl_cons,hv₂]
        congr 1
        exact (GroupView.command_forcedClaim g.view.raise_self hin).symm
      rw [hzero hm,foldl_cons,hv₂,GroupView.claim,← hsome]
      rfl

lemma takeCount_subset {α : Type} {count : Nat} {l : List α} {a : α} (h : a ∈ takeCount count l) :
    a ∈ l := by
  unfold takeCount at h
  split at h
  · exact h
  · exact mem_of_mem_take h

lemma xreadgroup_spec (h : g.PelInv) (log : StreamLog) (group consumer : Sds) (now : Int)
    (id : StreamID) (count : Nat) (noack : Bool) :
    ∃ reply g' cmds, g.xreadgroup log group consumer now id count noack = .ok (reply,g',cmds) ∧
      g'.PelInv ∧ (∀ cmd ∈ cmds, PropagatedFor group cmd) ∧
      g'.view = cmds.foldl (GroupView.command log) g.view := by
  have hnone : ∀ cmd ∈ ([] : List StreamCommand), PropagatedFor group cmd :=
    fun _ hm => absurd hm not_mem_nil
  obtain ⟨c,g₁,hl,h₁,hv₁,k,hk,hkn⟩ := lookupConsumer_spec h consumer
  unfold xreadgroup
  split
  · -- the history of the consumer
    obtain ⟨g',hg',hr⟩ := historyLoop_spec log now
      (takeCount count (k.pel.entries.filter (id.streamIncrID ≤ ·.1))) g₁ (by
        intro e he
        obtain ⟨hp,_⟩ := h₁.mem_pel hk (mem_filter.mp (takeCount_subset he)).1
        obtain ⟨n,hn,_⟩ := h₁.owner c e.1 e.2 hp
        exact ⟨n,hn⟩)
    simp only [hl,readConsumer_ok hk,hg',bind,Except.bind]
    exact ⟨_,g',[],rfl,hr.inv h₁,hnone,(hr.view h₁).trans hv₁⟩
  split
  · -- new entries
    obtain ⟨g',cmds,hg',hinv,hprop,hview⟩ := replyLoop_spec log group now noack
      (takeCount count (log.entries.filter (g₁.lastId.streamIncrID ≤ ·.1))) (by
        intro e he
        refine List.any_eq_true.mpr ⟨e,(mem_filter.mp (takeCount_subset he)).1,?_⟩
        exact decide_eq_true rfl) false h₁ ⟨k,hk,hkn⟩
    simp only [hl,hg',bind,Except.bind]
    exact ⟨_,g',cmds,rfl,hinv,hprop,by rw [hview,hv₁]⟩
  · exact ⟨_,g,[],rfl,h,hnone,rfl⟩

lemma xclaim_spec (h : g.PelInv) (log : StreamLog) (group consumer : Sds) (now minidle : Int)
    (ids : List StreamID) (opts : XclaimOptions) :
    ∃ reply g' cmds, g.xclaim log group consumer now minidle ids opts = .ok (reply,g',cmds) ∧
      g'.PelInv ∧ (∀ cmd ∈ cmds, PropagatedFor group cmd) ∧
      g'.view = cmds.foldl (GroupView.command log) g.view ∧
      (minidle = 0 → g'.view = g.view.command log (.xclaim group consumer minidle ids opts)) := by
  obtain ⟨c,g₁,hl,h₁,hv₁,hc₁⟩ := lookupConsumer_spec (h.raiseLastId opts.lastid) consumer
  rw [view_raiseLastId] at hv₁
  obtain ⟨g',claimed,cmds,hg',hinv,hlast,hcmds,hview,hzero⟩ := claimLoop_spec log group now
    (if minidle < 0 then 0 else minidle) (claimTime now opts) opts ids h₁ hc₁
  have hl₁ : g₁.lastId = (g.view.raise opts.lastid).lastId := by
    rw [← hv₁]
    rfl
  simp only [xclaim,hl,hg',bind,Except.bind]
  refine ⟨_,g',_,rfl,hinv,?_,?_,fun hm => ?_⟩
  · split
    · intro cmd hm
      cases mem_singleton.mp hm
      exact .setid _
    intro cmd hm
    obtain ⟨id,time,count,rfl⟩ := hcmds cmd hm
    exact .claim _ _ _ _ _
  · rw [hview,hv₁]
    cases cmds with
    | nil =>
      by_cases hraise : g.lastId < opts.lastid
      · rw [if_pos ⟨decide_eq_true hraise,rfl⟩]
        change g.view.raise opts.lastid = { g.view with lastId := g'.lastId }
        rw [hlast,hl₁,GroupView.setLastId_raise]
      rw [if_neg fun hr => hraise (of_decide_eq_true hr.1),GroupView.raise,
        if_neg (show ¬g.view.lastId < opts.lastid from hraise)]
    | cons cmd cmds =>
      -- the first claim raises the last identifier as the command did
      obtain ⟨id,time,count,rfl⟩ := hcmds cmd mem_cons_self
      rw [if_neg fun hr => cons_ne_nil _ _ hr.2,foldl_cons,foldl_cons]
      congr 1
      simp only [GroupView.command,forcedClaim,hl₁,GroupView.raise_raise,GroupView.raise_self]
  · subst hm
    rw [hzero rfl,hv₁]
    rfl

lemma PelInv.drop_eq (h : g.PelInv) (hp : g.pel.find id = none) : g.view.drop id = g.view := by
  have ho : g.view.owner id = none := by
    rw [← isNone_iff_eq_none,← not_isSome,h.owner_isSome,hp]
    rfl
  apply GroupView.ext
  · rfl
  · exact update_eq_self_iff.mpr ho.symm

end StreamCG

def GroupView.ack : List (Option StreamID) → GroupView → GroupView
  | [], v => v
  | none :: _, v => v
  | some id :: ids, v => GroupView.ack ids (v.drop id)

namespace StreamCG
variable {g : StreamCG}

lemma ackLoop_spec (ids : List (Option StreamID)) (acknowledged : Nat) (h : g.PelInv) :
    ∃ invalid n g', ackLoop ids acknowledged g = .ok (invalid,n,g') ∧ g'.PelInv ∧
      g'.view = g.view.ack ids ∧ acknowledged ≤ n ∧ (n = acknowledged → g' = g) := by
  induction ids generalizing g acknowledged with
  | nil => exact ⟨false,acknowledged,g,rfl,h,rfl,le_refl _,fun _ => rfl⟩
  | cons i ids ih =>
    cases i with
    | none => exact ⟨true,acknowledged,g,rfl,h,rfl,le_refl _,fun _ => rfl⟩
    | some id =>
      rw [ackLoop]
      cases hf : g.pel.find id with
      | none =>
        obtain ⟨invalid,n,g',hg',hinv,hview,hle,hsame⟩ := ih acknowledged h
        refine ⟨invalid,n,g',hg',hinv,?_,hle,hsame⟩
        rw [hview,GroupView.ack,h.drop_eq hf]
      | some p =>
        obtain ⟨n,c,g₁,g₂,hn,hnc,hg₁,hg₂,hr⟩ := ack_spec h hf
        obtain ⟨invalid,m,g',hg',hinv,hview,hle,_⟩ := ih (acknowledged + 1) (hr.inv h hf)
        refine ⟨invalid,m,g',?_,hinv,?_,by omega,fun hm => by omega⟩
        · simp only [readNACK_ok hn,bind,Except.bind,hnc,hg₁,hg₂,hg']
        rw [hview,hr.view h hf]
        rfl

end StreamCG
end RedRock
