import RedRock.StreamGroups

/-!
The pending entries lists of a group and of its consumers say the same in every state.
-/

namespace RedRock
open Lib List Option Function StreamCG Rax

namespace StreamCG
variable {g g' : StreamCG} {log : StreamLog} {c p : Nat} {id : StreamID}
variable {n : StreamNACK} {k : StreamConsumer} {g₁ : StreamCG} {c' : Nat} {name : Sds}

def pelAt (g : StreamCG) (c : Nat) (id : StreamID) : Option Nat :=
  (g.consumerAt c).bind fun k => k.pel.find id

/-- The PELs agree: the list of the group is the union of those of the consumers, each entry is
with one consumer, and its record says which one. Nothing refers to what has been freed. -/
structure PelInv (g : StreamCG) : Prop where
  fresh : ∀ q, g.next ≤ q → g.nackAt q = none ∧ g.consumerAt q = none
  named : ∀ name c, g.consumers.find name = some c ↔ ∃ k, g.consumerAt c = some k ∧ k.name = name
  union : ∀ id p, g.pel.find id = some p ↔ ∃ c, g.pelAt c id = some p
  owner : ∀ c id p, g.pelAt c id = some p → ∃ n, g.nackAt p = some n ∧ n.consumer = some c
  single : ∀ id id' p, g.pel.find id = some p → g.pel.find id' = some p → id = id'

@[simp] lemma pelAt_writeConsumer (c' : Nat) (k : StreamConsumer) : (g.writeConsumer c k).pelAt c' id =
    if c' = c then k.pel.find id else g.pelAt c' id := by
  unfold pelAt writeConsumer
  by_cases h : c' = c
  · subst h
    simp
  · simp [h]

@[simp] lemma pelAt_writeNACK (c' : Nat) (n : StreamNACK) :
    (g.writeNACK p n).pelAt c' id = g.pelAt c' id := rfl

lemma pelAt_of_consumer (hk : g.consumerAt c = some k) (id : StreamID) :
    g.pelAt c id = k.pel.find id := by
  rw [pelAt,hk,bind_some]

lemma pelAt_some {q : Nat} (h : g.pelAt c id = some q) : ∃ k, g.consumerAt c = some k := by
  obtain ⟨k,hk,_⟩ := bind_eq_some_iff.mp h
  exact ⟨k,hk⟩

lemma PelInv.disjoint (h : g.PelInv) {c' q q' : Nat} (hc : g.pelAt c id = some q)
    (hc' : g.pelAt c' id = some q') : c = c' := by
  have hq := (h.union id q).mpr ⟨c,hc⟩
  have hq' := (h.union id q').mpr ⟨c',hc'⟩
  rw [hq] at hq'
  cases hq'
  obtain ⟨n,hn,ho⟩ := h.owner c id q hc
  obtain ⟨n',hn',ho'⟩ := h.owner c' id q hc'
  rw [hn] at hn'
  cases hn'
  rw [ho] at ho'
  exact some.inj ho'

abbrev SameNames (g g' : StreamCG) : Prop :=
  ∀ c, (g'.consumerAt c).map (·.name) = (g.consumerAt c).map (·.name)

structure AssignedTo (g g' : StreamCG) (id : StreamID) (p c : Nat) : Prop where
  lastId : g'.lastId = g.lastId
  consumers : g'.consumers = g.consumers
  names : SameNames g g'
  pel : ∀ id', g'.pel.find id' = if id' = id then some p else g.pel.find id'
  pelAt : ∀ c' id', g'.pelAt c' id' =
    if id' = id then (if c' = c then some p else none) else g.pelAt c' id'
  record : ∃ n, g'.nackAt p = some n ∧ n.consumer = some c
  others : ∀ q, q ≠ p → g'.nackAt q = g.nackAt q
  next : g.next ≤ g'.next
  fresh : ∀ q, g'.next ≤ q → g'.nackAt q = none

lemma consumerAt_isSome_of_names
    (hn : SameNames g g')
    (hk : g'.consumerAt c' = some k) : ∃ k', g.consumerAt c' = some k' ∧ k'.name = k.name := by
  have h := hn c'
  rw [hk,map_some] at h
  exact map_eq_some_iff.mp h.symm

lemma PelInv.names (h : g.PelInv) (hc : g'.consumers = g.consumers)
    (hn : SameNames g g') (name : Sds)
    (c' : Nat) : g'.consumers.find name = some c' ↔ ∃ k, g'.consumerAt c' = some k ∧ k.name = name := by
  rw [hc,h.named]
  constructor
  · rintro ⟨k,hk,hkn⟩
    obtain ⟨k',hk',hn'⟩ := consumerAt_isSome_of_names (fun c' => (hn c').symm) hk
    exact ⟨k',hk',hn'.trans hkn⟩
  rintro ⟨k,hk,hkn⟩
  obtain ⟨k',hk',hn'⟩ := consumerAt_isSome_of_names hn hk
  exact ⟨k',hk',hn'.trans hkn⟩

lemma PelInv.freshConsumer (h : g.PelInv) (hx : g.next ≤ g'.next)
    (hn : SameNames g g') {q : Nat}
    (hq : g'.next ≤ q) : g'.consumerAt q = none := by
  have hnone := (h.fresh q (le_trans hx hq)).2
  have hq' := hn q
  rw [hnone,map_none] at hq'
  exact map_eq_none_iff.mp hq'

lemma AssignedTo.inv (h : g.PelInv) (ha : AssignedTo g g' id p c)
    (hp : g.pel.find id = some p ∨ g.nackAt p = none) : g'.PelInv := by
  have hne : ∀ id', id' ≠ id → g.pel.find id' ≠ some p := by
    intro id' hid hf
    rcases hp with hp | hp
    · exact hid (h.single id' id p hf hp)
    obtain ⟨c',hc'⟩ := (h.union id' p).mp hf
    obtain ⟨n,hn,_⟩ := h.owner c' id' p hc'
    rw [hp] at hn
    cases hn
  refine ⟨fun q hq => ⟨ha.fresh q hq,h.freshConsumer ha.next ha.names hq⟩,
    h.names ha.consumers ha.names,fun id' q => ?_,fun c' id' q hq => ?_,fun id₁ id₂ q h₁ h₂ => ?_⟩
  · rw [ha.pel]
    split
    · rename_i hid
      constructor
      · intro hq
        refine ⟨c,?_⟩
        rw [ha.pelAt,if_pos hid,if_pos rfl]
        exact hq
      rintro ⟨c',hc'⟩
      rw [ha.pelAt,if_pos hid] at hc'
      split at hc'
      · exact hc'
      · cases hc'
    rename_i hid
    rw [h.union]
    simp only [ha.pelAt,if_neg hid]
  · rw [ha.pelAt] at hq
    split at hq
    · split at hq
      · rename_i hcc
        cases hq
        rw [hcc]
        exact ha.record
      · cases hq
    rename_i hid
    have hqp : q ≠ p := by
      rintro rfl
      exact hne id' hid ((h.union id' q).mpr ⟨c',hq⟩)
    rw [ha.others q hqp]
    exact h.owner c' id' q hq
  · rw [ha.pel] at h₁ h₂
    split at h₁
    · rename_i hid₁
      split at h₂
      · rename_i hid₂
        rw [hid₁,hid₂]
      rename_i hid₂
      cases h₁
      exact absurd h₂ (hne id₂ hid₂)
    rename_i hid₁
    split at h₂
    · cases h₂
      exact absurd h₁ (hne id₁ hid₁)
    · exact h.single id₁ id₂ q h₁ h₂

structure PelEdit (g g' : StreamCG) (c : Nat) (id : StreamID) (r : Option Nat) : Prop where
  lastId : g'.lastId = g.lastId
  pel : g'.pel = g.pel
  consumers : g'.consumers = g.consumers
  nackAt : g'.nackAt = g.nackAt
  next : g'.next = g.next
  names : SameNames g g'
  pelAt : ∀ c' id', g'.pelAt c' id' = if c' = c ∧ id' = id then r else g.pelAt c' id'

lemma readConsumer_ok (h : g.consumerAt c = some k) : g.readConsumer c = .ok k := by
  rw [readConsumer,h]

lemma readNACK_ok (h : g.nackAt p = some n) : g.readNACK p = .ok n := by
  rw [readNACK,h]

lemma streamFreeNACK_ok (h : g.nackAt p = some n) :
    g.streamFreeNACK p = .ok { g with nackAt := update g.nackAt p none } := by
  rw [streamFreeNACK,h]

lemma writeConsumer_edit {r : Option Nat} (hk : g.consumerAt c = some k) {pel : Rax StreamID Nat}
    (hpel : ∀ id', pel.find id' = if id' = id then r else k.pel.find id') :
    PelEdit g (g.writeConsumer c { k with pel := pel }) c id r := by
  refine ⟨rfl,rfl,rfl,rfl,rfl,fun c' => ?_,fun c' id' => ?_⟩
  · unfold writeConsumer
    by_cases h : c' = c
    · subst h
      simp [hk]
    · simp [h]
  rw [pelAt_writeConsumer]
  by_cases h : c' = c
  · subst h
    simp only [if_true,true_and,hpel,pelAt_of_consumer hk]
  · simp only [h,if_false,false_and]

lemma consumerInsert_edit (hc : ∃ k, g.consumerAt c = some k) (id : StreamID) (p : Nat) :
    ∃ g', g.consumerInsert c id p = .ok g' ∧ PelEdit g g' c id (some p) := by
  obtain ⟨k,hk⟩ := hc
  refine ⟨_,?_,writeConsumer_edit hk fun id' => find_insert k.pel id id' p⟩
  rw [consumerInsert,readConsumer_ok hk]
  rfl

lemma consumerRemove_edit (hc : ∃ k, g.consumerAt c = some k) (id : StreamID) :
    ∃ g', g.consumerRemove c id = .ok g' ∧ PelEdit g g' c id none := by
  obtain ⟨k,hk⟩ := hc
  refine ⟨_,?_,writeConsumer_edit hk fun id' => find_remove k.pel id id'⟩
  rw [consumerRemove,readConsumer_ok hk]
  rfl

lemma consumer_exists_of_names
    (hn : SameNames g g')
    (h : ∃ k, g.consumerAt c' = some k) : ∃ k, g'.consumerAt c' = some k := by
  obtain ⟨k,hk⟩ := h
  obtain ⟨k',hk',_⟩ := consumerAt_isSome_of_names (fun c' => (hn c').symm) hk
  exact ⟨k',hk'⟩

def move (g : StreamCG) (id : StreamID) (p c : Nat) (old : Option Nat) (n : StreamNACK) :
    Except StreamFault StreamCG := do
  let g ← g.leaveConsumer old id
  (g.writeNACK p n).consumerInsert c id p

structure Moved (g g' : StreamCG) (id : StreamID) (p c : Nat) (old : Option Nat) (n : StreamNACK) :
    Prop where
  lastId : g'.lastId = g.lastId
  pel : g'.pel = g.pel
  consumers : g'.consumers = g.consumers
  nackAt : g'.nackAt = update g.nackAt p (some n)
  next : g'.next = g.next
  names : SameNames g g'
  pelAt : ∀ c' id', g'.pelAt c' id' =
    if id' = id then (if c' = c then some p else if old = some c' then none else g.pelAt c' id)
    else g.pelAt c' id'

lemma move_spec (hc : ∃ k, g.consumerAt c = some k) {old : Option Nat}
    (hold : ∀ o, old = some o → ∃ k, g.consumerAt o = some k) (id : StreamID) (p : Nat)
    (n : StreamNACK) : ∃ g', g.move id p c old n = .ok g' ∧ Moved g g' id p c old n := by
  have hleave : ∃ g₁, g.leaveConsumer old id = .ok g₁ ∧
      g₁.lastId = g.lastId ∧ g₁.pel = g.pel ∧ g₁.consumers = g.consumers ∧
      g₁.nackAt = g.nackAt ∧ g₁.next = g.next ∧
      SameNames g g₁ ∧
      ∀ c' id', g₁.pelAt c' id' = if old = some c' ∧ id' = id then none else g.pelAt c' id' := by
    cases old with
    | none => exact ⟨g,rfl,rfl,rfl,rfl,rfl,rfl,fun _ => rfl,fun _ _ => by simp⟩
    | some o =>
      obtain ⟨g₁,hg₁,he⟩ := consumerRemove_edit (hold o rfl) id
      refine ⟨g₁,hg₁,he.lastId,he.pel,he.consumers,he.nackAt,he.next,he.names,fun c' id' => ?_⟩
      rw [he.pelAt]
      simp only [some.injEq,eq_comm]
  obtain ⟨g₁,hg₁,hl,hp,hcs,hna,hnx,hnm,hpa⟩ := hleave
  have hc₁ : ∃ k, (g₁.writeNACK p n).consumerAt c = some k := consumer_exists_of_names hnm hc
  obtain ⟨g',hg',he⟩ := consumerInsert_edit hc₁ id p
  refine ⟨g',?_,he.lastId.trans hl,he.pel.trans hp,he.consumers.trans hcs,?_,he.next.trans hnx,
    fun c' => (he.names c').trans (hnm c'),fun c' id' => ?_⟩
  · unfold move
    rw [hg₁]
    exact hg'
  · rw [he.nackAt,← hna]
    rfl
  · rw [he.pelAt,pelAt_writeNACK,hpa]
    by_cases hid : id' = id
    · subst hid
      by_cases hcc : c' = c
      · simp [hcc]
      · simp [hcc]
    · simp [hid]

lemma reassign_eq {o : Nat} (hn : g.nackAt p = some n) (ho : n.consumer = some o) (now : Int)
    (c : Nat) (id : StreamID) : g.reassign now c id p = g.move id p c (some o) ⟨now,1,some c⟩ := by
  rw [reassign,readNACK_ok hn]
  simp only [bind,Except.bind,ho,move,leaveConsumer]

structure SameBut (g g₁ : StreamCG) (c : Nat) (id : StreamID) : Prop where
  lastId : g₁.lastId = g.lastId
  pel : g₁.pel = g.pel
  consumers : g₁.consumers = g.consumers
  nackAt : g₁.nackAt = g.nackAt
  next : g.next ≤ g₁.next
  names : SameNames g g₁
  pelAt : ∀ c' id', ¬(c' = c ∧ id' = id) → g₁.pelAt c' id' = g.pelAt c' id'

lemma Moved.assigned (h : g.PelInv) (hs : SameBut g g₁ c id) {o : Nat}
    (hm : Moved g₁ g' id p c (some o) n) (hn : n.consumer = some c) (ho : g.pelAt o id = some p) :
    AssignedTo g g' id p c := by
  have hfind := (h.union id p).mpr ⟨o,ho⟩
  obtain ⟨r,hr,_⟩ := h.owner o id p ho
  refine ⟨hm.lastId.trans hs.lastId,hm.consumers.trans hs.consumers,
    fun c' => (hm.names c').trans (hs.names c'),fun id' => ?_,fun c' id' => ?_,⟨n,?_,hn⟩,
    fun q hq => ?_,?_,fun q hq => ?_⟩
  · rw [hm.pel,hs.pel]
    split
    · rename_i hid
      rw [hid,hfind]
    · rfl
  · rw [hm.pelAt]
    split
    · split
      · rfl
      rename_i hcc
      rw [hs.pelAt c' id fun he => hcc he.1]
      split
      · rfl
      rename_i hoc
      cases hd : g.pelAt c' id with
      | none => rfl
      | some q => exact absurd (congrArg some (h.disjoint ho hd)) hoc
    rename_i hid
    exact hs.pelAt c' id' fun he => hid he.2
  · rw [hm.nackAt,update_self]
  · rw [hm.nackAt,update_of_ne hq,hs.nackAt]
  · rw [hm.next]
    exact hs.next
  · rw [hm.next] at hq
    have hnone := (h.fresh q (le_trans hs.next hq)).1
    have hqp : q ≠ p := by
      rintro rfl
      rw [hnone] at hr
      cases hr
    rw [hm.nackAt,update_of_ne hqp,hs.nackAt]
    exact hnone

lemma Moved.created (h : g.PelInv) (hm : Moved g₁ g' id g.next c none n)
    (hn : n.consumer = some c) (hfind : g.pel.find id = none) (hl : g₁.lastId = g.lastId)
    (hc : g₁.consumers = g.consumers) (hca : g₁.consumerAt = g.consumerAt)
    (hpel : g₁.pel = g.pel.insert id g.next) (hna : ∀ q, q ≠ g.next → g₁.nackAt q = g.nackAt q)
    (hnx : g₁.next = g.next + 1) : AssignedTo g g' id g.next c := by
  have hpa : ∀ c' id', g₁.pelAt c' id' = g.pelAt c' id' := by
    intro c' id'
    rw [StreamCG.pelAt,hca]
    rfl
  refine ⟨hm.lastId.trans hl,hm.consumers.trans hc,fun c' => ?_,fun id' => ?_,fun c' id' => ?_,
    ⟨n,?_,hn⟩,fun q hq => ?_,?_,fun q hq => ?_⟩
  · rw [hm.names,hca]
  · rw [hm.pel,hpel,find_insert]
  · rw [hm.pelAt,hpa,hpa]
    split
    · split
      · rfl
      simp only [reduceCtorEq,if_false]
      cases hd : g.pelAt c' id with
      | none => rfl
      | some q =>
        rw [(h.union id q).mpr ⟨c',hd⟩] at hfind
        cases hfind
    · rfl
  · rw [hm.nackAt,update_self]
  · rw [hm.nackAt,update_of_ne hq,hna q hq]
  · rw [hm.next,hnx]
    omega
  · rw [hm.next,hnx] at hq
    have hqn : q ≠ g.next := by omega
    rw [hm.nackAt,update_of_ne hqn,hna q hqn]
    exact (h.fresh q (by omega)).1

lemma deliver_spec (h : g.PelInv) (hc : ∃ k, g.consumerAt c = some k) (now : Int)
    (id : StreamID) : ∃ p g', g.deliver now c id = .ok (p,g') ∧ AssignedTo g g' id p c ∧
      (g.pel.find id = some p ∨ g.nackAt p = none) := by
  obtain ⟨k,hk⟩ := hc
  cases hf : g.pel.find id with
  | none =>
    -- a new record, for the group and for the consumer
    have hkf : k.pel.find id = none := by
      cases hd : k.pel.find id with
      | none => rfl
      | some q =>
        rw [(h.union id q).mpr ⟨c,(pelAt_of_consumer hk id).trans hd⟩] at hf
        cases hf
    let g₁ : StreamCG := (g.streamCreateNACK now (some c)).2.groupInsert id g.next
    have hk₁ : g₁.consumerAt c = some k := hk
    have hm : Moved g₁ (g₁.writeConsumer c { k with pel := k.pel.insert id g.next }) id g.next c
        none ⟨now,1,some c⟩ := by
      have he := writeConsumer_edit hk₁ fun id' => find_insert k.pel id id' g.next
      refine ⟨he.lastId,he.pel,he.consumers,?_,he.next,he.names,fun c' id' => ?_⟩
      · rw [he.nackAt]
        exact (update_idem _ _ _).symm
      rw [he.pelAt]
      by_cases hid : id' = id
      · subst hid
        simp
      · simp [hid]
    refine ⟨g.next,_,?_,hm.created h rfl hf rfl rfl rfl rfl
      (fun q hq => update_of_ne hq _ _) rfl,.inr (h.fresh g.next (le_refl _)).1⟩
    have hr : g₁.readConsumer c = .ok k := readConsumer_ok hk₁
    unfold deliver
    simp only [streamCreateNACK,hf,isNone_none,if_true]
    change (g₁.readConsumer c >>= _) = _
    rw [hr]
    simp only [bind,Except.bind,hkf,isNone_none,if_true,Bool.true_eq_false,if_false]
    rfl
  | some p =>
    -- the record of the entry; the new one is freed again
    obtain ⟨o,ho⟩ := (h.union id p).mp hf
    obtain ⟨n,hn,hno⟩ := h.owner o id p ho
    let g₁ : StreamCG := (g.streamCreateNACK now (some c)).2
    let g₂ : StreamCG := if (k.pel.find id).isNone then
      g₁.writeConsumer c { k with pel := k.pel.insert id g.next } else g₁
    let g₃ : StreamCG := { g₂ with nackAt := g.nackAt }
    have hg₂ : g₂.nackAt = g₁.nackAt ∧ SameBut g g₃ c id := by
      simp only [g₃,g₂]
      split
      · have he := writeConsumer_edit (g := g₁) hk fun id' => find_insert k.pel id id' g.next
        refine ⟨rfl,rfl,rfl,rfl,rfl,Nat.le_succ _,he.names,fun c' id' hne => ?_⟩
        exact (he.pelAt c' id').trans (if_neg hne)
      · exact ⟨rfl,rfl,rfl,rfl,rfl,Nat.le_succ _,fun _ => rfl,fun _ _ _ => rfl⟩
    have hfree : g₂.streamFreeNACK g.next = .ok g₃ := by
      have hnext : g₂.nackAt g.next = some ⟨now,1,some c⟩ := by
        rw [hg₂.1]
        exact update_self _ _ _
      have hback : update g₂.nackAt g.next none = g.nackAt := by
        rw [hg₂.1]
        funext q
        by_cases hq : q = g.next
        · rw [hq,update_self,(h.fresh _ (le_refl _)).1]
        rw [update_of_ne hq]
        exact update_of_ne hq _ _
      rw [streamFreeNACK_ok hnext,hback]
    have hs := hg₂.2
    have hold : ∀ o', some o = some o' → ∃ k, g₃.consumerAt o' = some k := by
      intro o' ho'
      cases ho'
      exact consumer_exists_of_names hs.names (pelAt_some ho)
    obtain ⟨g',hg',hm⟩ := move_spec (consumer_exists_of_names hs.names ⟨k,hk⟩) hold id p
      ⟨now,1,some c⟩
    refine ⟨p,g',?_,hm.assigned h hs rfl ho,.inl rfl⟩
    have hr : g₁.readConsumer c = .ok k := readConsumer_ok hk
    have hn₃ : g₃.nackAt p = some n := hn
    have hpel₃ : g₃.pel.find id = some p := by rw [hs.pel,hf]
    unfold deliver
    simp only [streamCreateNACK,hf,isNone_some,Bool.false_eq_true,if_false]
    change (g₁.readConsumer c >>= _) = _
    rw [hr]
    change (g₂.streamFreeNACK g.next >>= _) = _
    rw [hfree]
    simp only [bind,Except.bind,hpel₃]
    rw [reassign_eq hn₃ hno,hg']
    rfl

lemma SameBut.refl (g : StreamCG) (c : Nat) (id : StreamID) : SameBut g g c id :=
  ⟨rfl,rfl,rfl,rfl,le_refl _,fun _ => rfl,fun _ _ _ => rfl⟩

lemma claim_spec (h : g.PelInv) (hc : ∃ k, g.consumerAt c = some k) (deliverytime : Int)
    {now : Int} {opts : XclaimOptions} (hl : g.claimLookup log now opts.force id = (some p,g₁)) :
    (∃ n, g₁.nackAt p = some n ∧
      (g₁ = g ∧ n.consumer.isSome ∨ log.has id = true ∧ n.consumer = none) ∧
      ∃ g', g₁.claimNACK c deliverytime opts id p n = .ok g' ∧ AssignedTo g g' id p c) ∧
      (g.pel.find id = some p ∨ g.pel.find id = none ∧ g.nackAt p = none) := by
  unfold claimLookup at hl
  cases hf : g.pel.find id with
  | some q =>
    rw [hf] at hl
    cases hl
    obtain ⟨o,ho⟩ := (h.union id p).mp hf
    obtain ⟨n,hn,hno⟩ := h.owner o id p ho
    have hold : ∀ o', some o = some o' → ∃ k, g.consumerAt o' = some k := by
      intro o' ho'
      cases ho'
      exact pelAt_some ho
    obtain ⟨g',hg',hm⟩ := move_spec hc hold id p ⟨deliverytime,
      if opts.retrycount ≥ 0 then opts.retrycount.toNat
      else if opts.justid then n.deliveryCount else n.deliveryCount + 1,some c⟩
    refine ⟨⟨n,hn,.inl ⟨rfl,?_⟩,g',?_,hm.assigned h (.refl g c id) rfl ho⟩,.inl rfl⟩
    · rw [hno]
      rfl
    rw [claimNACK,hno]
    exact hg'
  | none =>
    rw [hf] at hl
    simp only at hl
    split at hl
    · rename_i hforce
      cases hl
      let g₁ : StreamCG := (g.streamCreateNACK now none).2.groupInsert id g.next
      have hn : g₁.nackAt g.next = some ⟨now,1,none⟩ := update_self _ _ _
      have hold : ∀ o, (none : Option Nat) = some o → ∃ k, g₁.consumerAt o = some k := by
        intro o ho
        cases ho
      obtain ⟨g',hg',hm⟩ := move_spec (g := g₁) hc hold id g.next
        ⟨deliverytime,if opts.retrycount ≥ 0 then opts.retrycount.toNat
          else if opts.justid then 1 else 1 + 1,some c⟩
      rw [Bool.and_eq_true] at hforce
      exact ⟨⟨_,hn,.inr ⟨hforce.2,rfl⟩,g',hg',hm.created h rfl hf rfl rfl rfl rfl
        (fun q hq => update_of_ne hq _ _) rfl⟩,
        .inr ⟨rfl,(h.fresh g.next (le_refl _)).1⟩⟩
    · cases hl

structure Released (g g' : StreamCG) (id : StreamID) (p : Nat) : Prop where
  lastId : g'.lastId = g.lastId
  consumers : g'.consumers = g.consumers
  names : SameNames g g'
  pel : ∀ id', g'.pel.find id' = if id' = id then none else g.pel.find id'
  pelAt : ∀ c' id', g'.pelAt c' id' = if id' = id then none else g.pelAt c' id'
  nackAt : g'.nackAt = update g.nackAt p none
  next : g'.next = g.next

/-- The entries in `P` are given up, and of the other records only the owner matters. -/
lemma PelInv.drop (h : g.PelInv) (P : StreamID → Prop) [DecidablePred P]
    (hfresh : ∀ q, g'.next ≤ q → g'.nackAt q = none ∧ g'.consumerAt q = none)
    (hnamed : ∀ name c, g'.consumers.find name = some c ↔
      ∃ k, g'.consumerAt c = some k ∧ k.name = name)
    (hpel : ∀ id, g'.pel.find id = if P id then none else g.pel.find id)
    (hpa : ∀ c id, g'.pelAt c id = if P id then none else g.pelAt c id)
    (hna : ∀ id p, g.pel.find id = some p → ¬ P id →
      (g'.nackAt p).map (·.consumer) = (g.nackAt p).map (·.consumer)) : g'.PelInv := by
  refine ⟨hfresh,hnamed,fun id q => ?_,fun c id q hq => ?_,fun id₁ id₂ q h₁ h₂ => ?_⟩
  · rw [hpel]
    simp only [hpa]
    split
    · simp
    · exact h.union id q
  · rw [hpa] at hq
    split at hq
    · cases hq
    rename_i hid
    obtain ⟨n,hn,ho⟩ := h.owner c id q hq
    have hm := hna id q ((h.union id q).mpr ⟨c,hq⟩) hid
    rw [hn,map_some,ho] at hm
    exact map_eq_some_iff.mp hm
  · rw [hpel] at h₁ h₂
    split at h₁
    · cases h₁
    split at h₂
    · cases h₂
    · exact h.single id₁ id₂ q h₁ h₂

lemma Released.inv (h : g.PelInv) (hr : Released g g' id p) (hp : g.pel.find id = some p) :
    g'.PelInv := by
  refine h.drop (· = id) (fun q hq => ⟨?_,?_⟩) (h.names hr.consumers hr.names) hr.pel hr.pelAt
    fun id' q hq hid => ?_
  · rw [hr.next] at hq
    rw [hr.nackAt,update_apply]
    split
    · rfl
    · exact (h.fresh q hq).1
  · exact h.freshConsumer (le_of_eq hr.next.symm) hr.names hq
  · have hqp : q ≠ p := by
      rintro rfl
      exact hid (h.single id' id q hq hp)
    rw [hr.nackAt,update_of_ne hqp]

lemma ack_spec (h : g.PelInv) (hp : g.pel.find id = some p) :
    ∃ n c g₁ g', g.nackAt p = some n ∧ n.consumer = some c ∧
      (g.groupRemove id).consumerRemove c id = .ok g₁ ∧ g₁.streamFreeNACK p = .ok g' ∧
      Released g g' id p := by
  obtain ⟨o,ho⟩ := (h.union id p).mp hp
  obtain ⟨n,hn,hno⟩ := h.owner o id p ho
  have hc : ∃ k, (g.groupRemove id).consumerAt o = some k := pelAt_some ho
  obtain ⟨g₁,hg₁,he⟩ := consumerRemove_edit hc id
  have hn₁ : g₁.nackAt p = some n := by
    rw [he.nackAt]
    exact hn
  refine ⟨n,o,g₁,_,hn,hno,hg₁,streamFreeNACK_ok hn₁,he.lastId,he.consumers,he.names,?_,?_,?_,
    he.next⟩
  · intro id'
    have hpel : g₁.pel = g.pel.remove id := he.pel
    simp only [hpel,find_remove]
  · intro c' id'
    have hpa : g₁.pelAt c' id' = _ := he.pelAt c' id'
    change g₁.pelAt c' id' = _
    rw [hpa]
    by_cases hid : id' = id
    · subst hid
      rw [if_pos rfl]
      split
      · rfl
      rename_i hne
      change g.pelAt c' id' = none
      cases hd : g.pelAt c' id' with
      | none => rfl
      | some q => exact absurd ⟨h.disjoint hd ho,rfl⟩ hne
    rw [if_neg hid,if_neg fun he => hid he.2]
    rfl
  · exact congrArg (fun f => update f p none) he.nackAt

lemma freePending_spec (es : List (StreamID × Nat)) (g : StreamCG)
    (hal : ∀ e ∈ es, ∃ n, g.nackAt e.2 = some n) (hnd : (es.map (·.2)).Nodup) :
    ∃ g', freePending es g = .ok g' ∧ g'.lastId = g.lastId ∧ g'.consumers = g.consumers ∧
      g'.consumerAt = g.consumerAt ∧ g'.next = g.next ∧
      (∀ id, g'.pel.find id = if id ∈ es.map (·.1) then none else g.pel.find id) ∧
      ∀ q, g'.nackAt q = if q ∈ es.map (·.2) then none else g.nackAt q := by
  induction es generalizing g with
  | nil => exact ⟨g,rfl,rfl,rfl,rfl,rfl,fun _ => by simp,fun _ => by simp⟩
  | cons e es ih =>
    obtain ⟨id,p⟩ := e
    obtain ⟨n,hn⟩ := hal (id,p) mem_cons_self
    rw [map_cons,nodup_cons] at hnd
    let g₁ : StreamCG := { g.groupRemove id with nackAt := update g.nackAt p none }
    have hfree : (g.groupRemove id).streamFreeNACK p = .ok g₁ :=
      streamFreeNACK_ok (g := g.groupRemove id) hn
    have hal₁ : ∀ e ∈ es, ∃ n, g₁.nackAt e.2 = some n := by
      intro e he
      obtain ⟨n',hn'⟩ := hal e (mem_cons_of_mem _ he)
      refine ⟨n',?_⟩
      have hep : e.2 ≠ p := by
        rintro rfl
        exact hnd.1 (List.mem_map.mpr ⟨e,he,rfl⟩)
      exact (update_of_ne hep _ _).trans hn'
    obtain ⟨g',hg',hl,hc,hca,hnx,hpel,hna⟩ := ih g₁ hal₁ hnd.2
    refine ⟨g',?_,hl,hc,hca,hnx,fun id' => ?_,fun q => ?_⟩
    · rw [freePending,hfree]
      exact hg'
    · rw [hpel,show g₁.pel = g.pel.remove id from rfl,find_remove]
      simp only [map_cons,mem_cons]
      by_cases hid : id' = id
      · simp only [hid,true_or,if_true,ite_self]
      · simp only [hid,false_or,if_false]
    rw [hna,show g₁.nackAt = update g.nackAt p none from rfl]
    simp only [map_cons,mem_cons]
    by_cases hq : q = p
    · simp only [hq,true_or,if_true,update_self,ite_self]
    · simp only [hq,false_or,update_of_ne hq]

lemma PelInv.mem_pel (h : g.PelInv) (hk : g.consumerAt c = some k) {e : StreamID × Nat}
    (he : e ∈ k.pel.entries) : g.pelAt c e.1 = some e.2 ∧ g.pel.find e.1 = some e.2 := by
  have hpa : g.pelAt c e.1 = some e.2 := (pelAt_of_consumer hk e.1).trans (find_some_iff.mpr he)
  exact ⟨hpa,(h.union _ _).mpr ⟨c,hpa⟩⟩

lemma PelInv.nodup_records (h : g.PelInv) (hk : g.consumerAt c = some k) :
    (k.pel.entries.map (·.2)).Nodup := by
  apply List.Nodup.map_on
  · intro a ha b hb hab
    have h₁ := (h.mem_pel hk ha).2
    have h₂ := (h.mem_pel hk hb).2
    rw [← hab] at h₂
    exact Prod.ext (h.single _ _ _ h₁ h₂) hab
  exact k.pel.sorted.imp fun {a b} hlt => by
    rintro rfl
    exact lt_irrefl _ hlt

structure Dismissed (g g' : StreamCG) (name : Sds) (c : Nat) : Prop where
  lastId : g'.lastId = g.lastId
  next : g'.next = g.next
  consumers : g'.consumers = g.consumers.remove name
  consumerAt : ∀ c', g'.consumerAt c' = if c' = c then none else g.consumerAt c'
  pel : ∀ id, g'.pel.find id = if (g.pelAt c id).isSome then none else g.pel.find id
  kept : ∀ q, (∀ id, g.pelAt c id ≠ some q) → g'.nackAt q = g.nackAt q
  fresh : ∀ q, g.nackAt q = none → g'.nackAt q = none

lemma delConsumer_spec (h : g.PelInv) (hc : g.consumers.find name = some c) :
    ∃ pending g', g.streamDelConsumer name = .ok (pending,g') ∧ Dismissed g g' name c := by
  obtain ⟨k,hk,hkn⟩ := (h.named name c).mp hc
  have hal : ∀ e ∈ k.pel.entries, ∃ n, g.nackAt e.2 = some n := by
    intro e he
    obtain ⟨n,hn,_⟩ := h.owner c e.1 e.2 (h.mem_pel hk he).1
    exact ⟨n,hn⟩
  obtain ⟨g',hg',hl,hcs,hca,hnx,hpel,hna⟩ := freePending_spec k.pel.entries g hal (h.nodup_records hk)
  refine ⟨k.pel.entries.length,{ g' with
    consumers := g'.consumers.remove name
    consumerAt := update g'.consumerAt c none },?_,hl,hnx,?_,fun c' => ?_,fun id => ?_,
      fun q hq => ?_,fun q hq => ?_⟩
  · rw [streamDelConsumer,hc]
    simp only [readConsumer_ok hk,bind,Except.bind,hg']
    rfl
  · rw [hcs]
  · simp only [hca,update_apply]
  · have hmem : id ∈ k.pel.entries.map (·.1) ↔ (g.pelAt c id).isSome = true := by
      rw [pelAt_of_consumer hk,isSome_iff_exists,List.mem_map]
      constructor
      · rintro ⟨e,he,rfl⟩
        exact ⟨e.2,find_some_iff.mpr he⟩
      rintro ⟨p,hp⟩
      exact ⟨(id,p),find_some_iff.mp hp,rfl⟩
    simp only [hpel,hmem]
  · have hmem : q ∉ k.pel.entries.map (·.2) := by
      intro hmem
      obtain ⟨e,he,rfl⟩ := List.mem_map.mp hmem
      exact hq e.1 (h.mem_pel hk he).1
    simp only [hna,hmem,if_false]
  · simp only [hna,hq,ite_self]

lemma pelAt_congr (h : g'.consumerAt c' = g.consumerAt c') (id : StreamID) :
    g'.pelAt c' id = g.pelAt c' id := by
  rw [pelAt,h]
  rfl

lemma Dismissed.inv (h : g.PelInv) (hc : g.consumers.find name = some c)
    (hd : Dismissed g g' name c) : g'.PelInv := by
  obtain ⟨k,hk,hkn⟩ := (h.named name c).mp hc
  refine h.drop (fun id => (g.pelAt c id).isSome) (fun q hq => ?_) (fun name' c' => ?_) hd.pel
    (fun c' id => ?_) fun id q hq hid => ?_
  · rw [hd.next] at hq
    rw [hd.consumerAt,(h.fresh q hq).2,ite_self]
    exact ⟨hd.fresh q (h.fresh q hq).1,rfl⟩
  · rw [hd.consumers,find_remove,hd.consumerAt]
    by_cases hn : name' = name
    · simp only [hn,if_true,reduceCtorEq,false_iff]
      rintro ⟨k',hk',hkn'⟩
      split at hk'
      · cases hk'
      rename_i hcc
      have := (h.named name c').mpr ⟨k',hk',hkn'⟩
      rw [hc] at this
      exact hcc (some.inj this).symm
    simp only [hn,if_false]
    rw [h.named]
    constructor
    · rintro ⟨k',hk',hkn'⟩
      refine ⟨k',?_,hkn'⟩
      rw [if_neg]
      · exact hk'
      rintro rfl
      rw [hk] at hk'
      cases hk'
      exact hn (hkn'.symm.trans hkn)
    rintro ⟨k',hk',hkn'⟩
    split at hk'
    · cases hk'
    · exact ⟨k',hk',hkn'⟩
  · by_cases hcc : c' = c
    · rw [hcc,pelAt,hd.consumerAt,if_pos rfl]
      cases g.pelAt c id <;> rfl
    rw [pelAt_congr ((hd.consumerAt c').trans (if_neg hcc))]
    split
    · rename_i hs
      obtain ⟨p,hp⟩ := isSome_iff_exists.mp hs
      rw [eq_none_iff_forall_ne_some]
      exact fun q hq => hcc (h.disjoint hq hp)
    · rfl
  · rw [hd.kept q fun id' hid' => hid ?_]
    rw [h.single id id' q hq ((h.union id' q).mpr ⟨c,hid'⟩),hid']
    rfl

structure Recounted (g g' : StreamCG) : Prop where
  lastId : g'.lastId = g.lastId
  pel : g'.pel = g.pel
  consumers : g'.consumers = g.consumers
  consumerAt : g'.consumerAt = g.consumerAt
  next : g'.next = g.next
  nackAt : ∀ q, (g'.nackAt q).map (·.consumer) = (g.nackAt q).map (·.consumer)

lemma Recounted.refl (g : StreamCG) : Recounted g g := ⟨rfl,rfl,rfl,rfl,rfl,fun _ => rfl⟩

lemma Recounted.trans {g'' : StreamCG} (h : Recounted g g') (h' : Recounted g' g'') :
    Recounted g g'' :=
  ⟨h'.lastId.trans h.lastId,h'.pel.trans h.pel,h'.consumers.trans h.consumers,
    h'.consumerAt.trans h.consumerAt,h'.next.trans h.next,fun q => (h'.nackAt q).trans (h.nackAt q)⟩

lemma Recounted.inv (h : g.PelInv) (hr : Recounted g g') : g'.PelInv := by
  refine h.drop (fun _ => False) (fun q hq => ?_) ?_ (fun _ => by rw [hr.pel,if_neg id])
    (fun c' id' => ?_) fun _ q _ _ => hr.nackAt q
  · rw [hr.next] at hq
    have hn := hr.nackAt q
    rw [(h.fresh q hq).1,map_none] at hn
    rw [hr.consumerAt]
    exact ⟨map_eq_none_iff.mp hn,(h.fresh q hq).2⟩
  · rw [hr.consumers,hr.consumerAt]
    exact h.named
  · rw [if_neg id]
    exact pelAt_congr (congrFun hr.consumerAt c') id'

lemma redeliver_spec (log : StreamLog) (now : Int) (id : StreamID) (hn : g.nackAt p = some n) :
    ∃ g', g.redeliver log now id p = .ok g' ∧ Recounted g g' := by
  unfold redeliver
  split
  · refine ⟨g.writeNACK p { n with deliveryTime := now, deliveryCount := n.deliveryCount + 1 },?_,
      rfl,rfl,rfl,rfl,rfl,fun q => ?_⟩
    · rw [readNACK_ok hn]
      rfl
    · unfold writeNACK
      by_cases hq : q = p
      · subst hq
        simp [hn]
      · simp [hq]
  · exact ⟨g,rfl,.refl g⟩

lemma historyLoop_spec (log : StreamLog) (now : Int) (es : List (StreamID × Nat)) (g : StreamCG)
    (hal : ∀ e ∈ es, ∃ n, g.nackAt e.2 = some n) :
    ∃ g', historyLoop log now es g = .ok g' ∧ Recounted g g' := by
  induction es generalizing g with
  | nil => exact ⟨g,rfl,.refl g⟩
  | cons e es ih =>
    obtain ⟨id,p⟩ := e
    obtain ⟨n,hn⟩ := hal (id,p) mem_cons_self
    obtain ⟨g₁,hg₁,hr⟩ := redeliver_spec log now id hn
    have hal₁ : ∀ e ∈ es, ∃ n, g₁.nackAt e.2 = some n := by
      intro e he
      obtain ⟨n',hn'⟩ := hal e (mem_cons_of_mem _ he)
      have hm := hr.nackAt e.2
      rw [hn',map_some] at hm
      obtain ⟨n₁,hn₁,_⟩ := map_eq_some_iff.mp hm
      exact ⟨n₁,hn₁⟩
    obtain ⟨g',hg',hr'⟩ := ih g₁ hal₁
    refine ⟨g',?_,hr.trans hr'⟩
    rw [historyLoop]
    exact bind_ok.mpr ⟨g₁,hg₁,hg'⟩

end StreamCG
end RedRock
