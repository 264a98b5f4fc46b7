import RedRock.JobMoves
import RedRock.Faults

/-!
The job slot is a one-place mailbox between the main thread and the rock thread.
The invariant says who may touch it when: the byte in the pipe, the rock thread's
position and the two keys of the slot account for each other, and outside the
handler a waiting client implies an active job.
-/

namespace RedRock
open Lib List Option

def Fault.slot : Fault → Bool
  | .isZeroRockJobState | .noMoreRockJob | .createNewJob | .getRockWork | .haveRockJob
  | .rockPipeReadHandler => true
  | _ => false

namespace Server
variable {n : Nat} {s t : Server n}
variable {key : Sds} {j : RockJob n} {d : Fin (n+1)} {pick : Sds} {a : Act n} {f : Fault}

def ThreadOnJob (s : Server n) : Prop :=
  ∀ d key, (s.rockThread = .took d key ∨ ∃ val, s.rockThread = .loaded d key val) →
    s.rockJob.dbid = some d ∧ s.rockJob.workKey = some key

structure SlotInv (s : Server n) : Prop where
  wellFormed : s.rockJob.WellFormed
  thread : s.ThreadOnJob
  pipe : s.rockPipe + (if s.rockThread = .completed then 1 else 0) =
    (if s.rockJob.returnKey = none then 0 else 1) + (if s.handler = .drain then 1 else 0)
  clearing : s.handler.clearing = true → s.rockPipe = 1 ∧ s.rockJob.returnKey ≠ none
  value : s.rockJob.returnKey ≠ none → s.rockJob.valInRock ≠ none
  active : s.handler.clearing = false → ∀ d key, key ∈ (s.db d).rockKeys → s.rockJob.dbid ≠ none
  waited : s.handler.clearing = false → ∀ d key, s.rockJob.isFor d key →
    key ∈ (s.db d).rockKeys ∨ s.rockJob.alreadyFinishedByScript = true

lemma RockJob.WellFormed.workKey_none (h : j.WellFormed) (hr : j.returnKey ≠ none) :
    j.workKey = none := by
  have hd : j.dbid ≠ none := by
    intro hd
    exact hr (h.zero.mp hd).2
  exact (h.one hd).mpr hr

lemma RockJob.key_of_workKey (h : j.workKey = some key) : j.key = some key := by
  simp [RockJob.key,h]

lemma RockJob.wellFormed_armed (j : RockJob n) (d : Fin (n+1)) (key : Sds) :
    ({ j with workKey := some key, dbid := some d, returnKey := none } : RockJob n).WellFormed := by
  constructor
  · simp
  · simp

lemma RockJob.isFor_armed (j : RockJob n) (d : Fin (n+1)) (key : Sds) (d' : Fin (n+1))
    (key' : Sds) :
    ({ j with workKey := some key, dbid := some d, returnKey := none } : RockJob n).isFor d' key' ↔
      d = d' ∧ key = key' := by
  simp [RockJob.isFor,RockJob.key]

namespace SlotInv

lemma init (cfg : Config) : SlotInv (initServer n cfg) where
  wellFormed := ⟨by simp [initServer],by simp [initServer]⟩
  thread := by simp [ThreadOnJob,initServer]
  pipe := by simp [initServer]
  clearing := by simp [initServer,Handler.clearing]
  value := by simp [initServer]
  active := by
    intro _ d key hk
    simp [initServer,RedisDb.empty] at hk
  waited := by simp [initServer,RockJob.isFor]

lemma arm (hw : s.rockJob.workKey = none) (ht : s.ThreadOnJob)
    (hp : s.rockPipe + (if s.rockThread = .completed then 1 else 0) = if s.handler = .drain then 1 else 0)
    (hc : s.handler.clearing = false) (hk : key ∈ (s.db d).rockKeys) : SlotInv (s.arm d key) where
  wellFormed := RockJob.wellFormed_armed _ d key
  thread := by
    intro d' key' hth
    have := (ht d' key' hth).2
    rw [hw] at this
    cases this
  pipe := by
    simp only [Server.arm,if_true,zero_add]
    exact hp
  clearing := by
    intro hcl
    have h : s.handler.clearing = true := hcl
    rw [hc] at h
    cases h
  value := by simp [Server.arm]
  active := by simp [Server.arm]
  waited := by
    intro _ d' key' hfor
    obtain ⟨rfl,rfl⟩ := (RockJob.isFor_armed _ d key d' key').mp hfor
    exact .inl hk

section
variable (h : SlotInv s)
include h

section
variable (hj : t.rockJob = s.rockJob) (ht : t.rockThread = s.rockThread)
  (hp : t.rockPipe = s.rockPipe)
include hj ht hp

lemma transfer (hc : t.handler.clearing = s.handler.clearing)
    (hd : t.handler = .drain ↔ s.handler = .drain)
    (ha : s.handler.clearing = false → ∀ d key, key ∈ (t.db d).rockKeys → s.rockJob.dbid ≠ none)
    (hk : ∀ d key, key ∈ (s.db d).rockKeys → key ∈ (t.db d).rockKeys) : SlotInv t where
  wellFormed := hj ▸ h.wellFormed
  thread := by
    intro d key hth
    rw [ht] at hth
    rw [hj]
    exact h.thread d key hth
  pipe := by
    rw [hj,ht,hp]
    simp only [hd]
    exact h.pipe
  clearing := by
    rw [hc,hp,hj]
    exact h.clearing
  value := by
    rw [hj]
    exact h.value
  active := by
    rw [hc,hj]
    exact ha
  waited := by
    intro hcl d key hfor
    rw [hj] at hfor ⊢
    rcases h.waited (hc ▸ hcl) d key hfor with hm | hf
    · exact .inl (hk d key hm)
    · exact .inr hf

lemma congr (hc : t.handler.clearing = s.handler.clearing)
    (hd : t.handler = .drain ↔ s.handler = .drain)
    (hk : ∀ d key, key ∈ (t.db d).rockKeys ↔ key ∈ (s.db d).rockKeys) : SlotInv t :=
  h.transfer hj ht hp hc hd (fun hcl d key hkey => h.active hcl d key ((hk d key).mp hkey))
    fun d key => (hk d key).mpr

lemma more_keys (hh : t.handler = s.handler) (ha : s.rockJob.dbid ≠ none)
    (hk : ∀ d key, key ∈ (s.db d).rockKeys → key ∈ (t.db d).rockKeys) : SlotInv t :=
  h.transfer hj ht hp (by rw [hh]) (by rw [hh]) (fun _ _ _ _ => ha) hk

end

lemma of_quiet (hq : Quiet s t) : SlotInv t :=
  h.congr hq.rockJob hq.rockThread hq.rockPipe (by rw [hq.handler]) (by rw [hq.handler])
    fun d key => by rw [hq.rockKeys]

lemma checkThenCall {c : ClientId} (hc : s.checkThenCall c pick = .ok t) : SlotInv t := by
  obtain ⟨cl,q,keys,errs,_,_,_,_,hr⟩ := checkCall_ok hc
  rcases hr with ⟨_,rfl⟩ | ⟨_,hs⟩
  · exact h.congr rfl rfl rfl rfl Iff.rfl fun _ _ => Iff.rfl
  have hmem := registerWaiter_mem s c cl keys errs
  rcases startJob_ok hs with ⟨hd,rfl⟩ | ⟨hd,hw,hret,d,key,hk,rfl⟩
  · exact h.more_keys rfl rfl rfl rfl hd fun d key hk => (hmem d key).mpr (.inr hk)
  have hcl : s.handler.clearing = false := by
    by_contra hcl
    exact (h.clearing (by simpa using hcl)).2 hret
  have hp := h.pipe
  rw [show s.rockJob.returnKey = none from hret,if_pos rfl,zero_add] at hp
  exact arm hw h.thread hp hcl hk

lemma of_freeClient (c : ClientId) : SlotInv (s.freeClient c) :=
  h.congr rfl rfl rfl rfl Iff.rfl fun d key => by
    rw [freeClient_rockKeys,Dict.mem_mapVal]

lemma rockComplete {val : Robj} (hth : s.rockThread = .loaded d key val)
    (hw : s.rockJob.workKey = some key) (hd : s.rockJob.dbid = some d)
    (hr : s.rockJob.returnKey = none) : SlotInv { s with
      rockJob := { s.rockJob with workKey := none, returnKey := some key, valInRock := some val }
      rockThread := .completed } := by
  have hncl : s.handler.clearing = false := by
    by_contra hcl
    exact (h.clearing (by simpa using hcl)).2 hr
  have hkey : ∀ d' key', RockJob.isFor
      { s.rockJob with workKey := none, returnKey := some key, valInRock := some val } d' key' →
      s.rockJob.isFor d' key' := by
    intro d' key' hfor
    simpa [RockJob.isFor,RockJob.key,hw] using hfor
  exact {
    wellFormed := ⟨by simp [hd],by simp⟩
    thread := by simp [ThreadOnJob]
    pipe := by
      have hp := h.pipe
      rw [hr,hth,if_pos rfl,if_neg (by simp)] at hp
      simp only [if_true,if_neg (some_ne_none key)]
      omega
    clearing := by
      intro hcl
      have hcl' : s.handler.clearing = true := hcl
      rw [hncl] at hcl'
      cases hcl'
    value := by simp
    active := fun _ d' key' hk => h.active hncl d' key' hk
    waited := fun _ d' key' hfor => h.waited hncl d' key' (hkey d' key' hfor) }

lemma pipeReadable (hidle : s.handler = .idle) (hpos : s.rockPipe > 0)
    (hc : s.rockPipeReadHandler = .ok t) : SlotInv t := by
  obtain ⟨d,key,val,_,_,hr,_,hcase⟩ := pipeHandler_ok hc
  have hpipe : s.rockPipe = 1 ∧ s.rockThread ≠ .completed := by
    have hp := h.pipe
    rw [hr,hidle] at hp
    simp only [if_neg (some_ne_none key),if_neg (show Handler.idle ≠ .drain by simp)] at hp
    by_cases hth : s.rockThread = .completed
    · rw [if_pos hth] at hp
      omega
    rw [if_neg hth] at hp
    exact ⟨by omega,hth⟩
  have hmain : ∀ u : Server n, u.rockJob = s.rockJob → u.rockThread = s.rockThread →
      u.rockPipe = s.rockPipe → u.handler.clearing = true → SlotInv u := by
    intro u hj hth hp hcl
    have hnd : u.handler ≠ .drain := by
      intro hd
      rw [hd] at hcl
      cases hcl
    exact {
      wellFormed := hj ▸ h.wellFormed
      thread := by
        intro d' key' h'
        rw [hth] at h'
        rw [hj]
        exact h.thread d' key' h'
      pipe := by
        rw [hj,hth,hp,hpipe.1,hr,if_neg hpipe.2,if_neg hnd]
        simp
      clearing := fun _ => ⟨hp.trans hpipe.1,by simp [hj,hr]⟩
      value := by
        rw [hj]
        exact h.value
      active := by simp [hcl]
      waited := by simp [hcl] }
  rcases hcase with ⟨_,rfl⟩ | ⟨_,hcf⟩
  · exact hmain _ rfl rfl rfl rfl
  obtain ⟨u,clients,zs,v,hu,_,hv,rfl⟩ := clearFinishKey_ok hcf
  obtain ⟨rfl,_⟩ := decr_ok hv
  obtain ⟨db,b,rfl,_⟩ := finished_keyspace hu
  exact hmain _ rfl rfl rfl rfl

lemma handlerMoreJob (hh : s.handler = .moreJob)
    (hc : s.handlerMoreJob pick = .ok t) : SlotInv t := by
  obtain ⟨hp1,hr⟩ := h.clearing (by rw [hh]; rfl)
  have hnc : s.rockThread ≠ .completed := by
    intro hth
    have hp := h.pipe
    rw [hp1,hth,hh,if_pos rfl,if_neg hr,if_neg (by simp)] at hp
    omega
  have hw := RockJob.WellFormed.workKey_none h.wellFormed hr
  have hno : ∀ d key, ¬ (s.rockThread = .took d key ∨ ∃ val, s.rockThread = .loaded d key val) := by
    intro d key hth
    have := (h.thread d key hth).2
    rw [hw] at this
    cases this
  rcases moreJob_ok hc with ⟨d,key,hk,_,rfl⟩ | ⟨hempty,rfl⟩
  · have harm : SlotInv (({ s with handler := .drain }).arm d key) := by
      refine arm hw (fun d' key' hth => absurd hth (hno d' key')) ?_ rfl hk
      simp only [hp1,if_neg hnc,if_true]
    exact harm
  exact {
    wellFormed := ⟨by simp [initZeroRockJob],by simp [initZeroRockJob]⟩
    thread := fun d' key' hth => absurd hth (hno d' key')
    pipe := by
      simp only [initZeroRockJob,hp1,if_neg hnc,if_true]
    clearing := by simp [Handler.clearing]
    value := by simp [initZeroRockJob]
    active := by
      intro _ d key hk
      have hk' : key ∈ (s.db d).rockKeys := hk
      rw [hempty d] at hk'
      simp at hk'
    waited := by simp [initZeroRockJob,RockJob.isFor] }

lemma finishKeyFromScript {m : ScriptMaybeKey n} {zs : List ClientId}
    (hc : s.finishKeyFromScript m = .ok (t,zs)) : SlotInv t := by
  -- the only key that leaves `rockKeys` is the one the slot is marked for
  have hmem := mem_finishKeyFromScript hc
  rcases scriptKey_ok hc with ⟨_,rfl,_⟩ | ⟨clients,u,v,_,hu,hv,rfl⟩
  · exact h
  obtain ⟨rfl,_⟩ := decr_ok hu
  rcases markFinished_ok hv with ⟨hfor,_,rfl⟩ | ⟨hfor,rfl⟩
  · exact {
      wellFormed := ⟨h.wellFormed.zero,h.wellFormed.one⟩
      thread := h.thread
      pipe := h.pipe
      clearing := h.clearing
      value := h.value
      active := fun hcl d key hk => h.active hcl d key ((hmem d key).mp hk).1
      waited := fun _ _ _ _ => .inr rfl }
  exact {
    wellFormed := h.wellFormed
    thread := h.thread
    pipe := h.pipe
    clearing := h.clearing
    value := h.value
    active := fun hcl d key hk => h.active hcl d key ((hmem d key).mp hk).1
    waited := by
      intro hcl d key hf
      rcases h.waited hcl d key hf with hm | hflag
      · refine .inl ((hmem d key).mpr ⟨hm,?_⟩)
        rintro ⟨rfl,rfl⟩
        exact hfor hf
      · exact .inr hflag }

lemma step (hst : s.step a = some (.ok t)) : SlotInv t := by
  cases hq : a.quiet with
  | true => exact h.of_quiet (quiet_of_step hq hst)
  | false =>
  cases transition_of hst with
  | rockTakeNone => exact h
  | rockTake hidle hd hw =>
    refine ⟨h.wellFormed,?_,?_,h.clearing,h.value,h.active,h.waited⟩
    · intro d' key' hth
      rcases hth with hth | ⟨val,hth⟩
      · cases hth
        exact ⟨hd,hw⟩
      · cases hth
    have hp := h.pipe
    rw [hidle] at hp
    simpa using hp
  | rockRead hth =>
    refine ⟨h.wellFormed,?_,?_,h.clearing,h.value,h.active,h.waited⟩
    · intro d' key' hth'
      rcases hth' with hth' | ⟨val',hth'⟩
      · cases hth'
      cases hth'
      exact h.thread _ _ (.inl hth)
    have hp := h.pipe
    rw [hth] at hp
    simpa using hp
  | rockComplete hth hw hd hr => exact h.rockComplete hth hw hd hr
  | rockSignal hth =>
    have hp := h.pipe
    rw [hth,if_pos rfl] at hp
    refine ⟨h.wellFormed,by simp [ThreadOnJob,rockSignal],?_,?_,h.value,h.active,h.waited⟩
    · simp only [rockSignal]
      exact hp
    intro hcl
    have h1 := (h.clearing hcl).1
    have h2 : (if s.handler = .drain then 1 else 0) = 0 := by
      rw [if_neg]
      intro hd
      have hcl' : s.handler.clearing = true := hcl
      rw [hd] at hcl'
      cases hcl'
    rw [h1,h2] at hp
    split at hp <;> omega
  | freeClient | killClient => exact h.of_freeClient _
  | pipeReadable _ hidle hpos hs => exact h.pipeReadable hidle hpos hs
  | handlerResumed _ hh =>
    exact h.congr rfl rfl rfl (by rw [hh]; rfl) (by simp [hh]) fun _ _ => Iff.rfl
  | @handlerResume _ _ c cs _ hh hs =>
    have h' : SlotInv { s with handler := .clearFinish cs } :=
      h.congr rfl rfl rfl (by rw [hh]; rfl) (by simp [hh]) fun _ _ => Iff.rfl
    exact h'.checkThenCall hs
  | handlerMoreJob _ hh hs => exact h.handlerMoreJob hh hs
  | handlerRead _ hh hpos =>
    have hcl : s.handler.clearing = false := by
      rw [hh]
      rfl
    refine ⟨h.wellFormed,h.thread,?_,by simp [Handler.clearing],h.value,
      fun _ => h.active hcl,fun _ => h.waited hcl⟩
    have hp := h.pipe
    rw [hh,if_pos rfl] at hp
    simp only [if_neg (show Handler.idle ≠ .drain by simp)]
    omega
  | checked _ _ _ _ _ hs | scriptResume _ hs =>
    refine checkThenCall ?_ hs
    exact h.congr rfl rfl rfl rfl Iff.rfl fun _ _ => Iff.rfl
  | finishKey _ hu =>
    exact (h.finishKeyFromScript hu).congr rfl rfl rfl rfl Iff.rfl fun _ _ => Iff.rfl
  | accept | readQuery | inputEnd | refused | queued | breakInput | keysFinished
  | scriptResumed => exact h.congr rfl rfl rfl rfl Iff.rfl fun _ _ => Iff.rfl
  | _ => cases hq

end

end SlotInv

lemma SlotInv.waited_of_unmarked (h : SlotInv s) (hcl : s.handler.clearing = false)
    (hflag : s.rockJob.alreadyFinishedByScript = false) (hfor : s.rockJob.isFor d key) :
    key ∈ (s.db d).rockKeys := by
  rcases h.waited hcl d key hfor with hm | hf
  · exact hm
  rw [hflag] at hf
  cases hf

open Sample

end Server
end RedRock
