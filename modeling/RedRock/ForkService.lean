import RedRock.Lib.Errors

/-!
`redisFork`: before the fork the main thread makes the parameters of the service thread, starts
that thread behind a locked mutex and takes the snapshots it will read from.
-/

namespace RedRock
open Lib List

/-- The assertions of `redisFork` and of what it calls. -/
inductive ForkFault where
  | rockRdbParams
  | isRdbServiceThreadRunning
  | snapshotExists
  deriving DecidableEq

structure RockInstance where
  db : Bool
  snapshot : Bool
  deriving DecidableEq

/-- `heap` are the addresses of the parameters in use; `threads` are the parameters that each
service thread was started with. -/
structure Forker where
  rockRdbParams : Option Nat
  isRdbServiceThreadRunning : Bool
  instances : List RockInstance
  heap : List Nat
  threads : List Nat
  deriving DecidableEq

/-- The configuration and what each call to the system gives; `fork` is `none` for -1. -/
structure ForkEnv where
  rockFeature : Bool
  pipes : Bool
  mutexInit : Bool
  mutexLock : Bool
  pthreadCreate : Bool
  fork : Option Nat

def ForkEnv.startsService (e : ForkEnv) : Bool :=
  e.rockFeature && e.pipes && e.mutexInit && e.mutexLock && e.pthreadCreate

namespace Forker

def unused (s : Forker) : Nat := s.heap.sum + 1

def zmallocParams (s : Forker) : Forker :=
  { s with rockRdbParams := some s.unused, heap := s.unused :: s.heap }

def zfreeParams (s : Forker) : Forker :=
  { s with rockRdbParams := none, heap := s.heap.filter (some · ≠ s.rockRdbParams) }

def rocksdbapiCreateSnapshots : List RockInstance → Except ForkFault (List RockInstance)
  | [] => .ok []
  | i :: is =>
    if i.snapshot then .error .snapshotExists
    else do
      let is ← rocksdbapiCreateSnapshots is
      return ⟨i.db,i.db⟩ :: is

/-- The result is 1 or -1. -/
def initRockSerivceForRdbInMainThread (e : ForkEnv) (s : Forker) :
    Except ForkFault (Forker × Int) :=
  if !e.pipes then .ok (s,-1)
  else if !e.mutexInit then .ok (s,-1)
  else if !e.mutexLock then .ok (s,-1)
  else if !e.pthreadCreate then .ok (s,-1)
  else
    let s := { s with threads := s.rockRdbParams.toList ++ s.threads }
    if s.isRdbServiceThreadRunning then .error .isRdbServiceThreadRunning
    else do
      let is ← rocksdbapiCreateSnapshots s.instances
      return ({ s with isRdbServiceThreadRunning := true, instances := is },1)

/-- `fork` and what the parent does after it. -/
def forkInParent (e : ForkEnv) (s : Forker) : Forker × Option Nat :=
  match e.fork with
  | none => (if e.rockFeature then s.zfreeParams else s,none)
  | some pid => (s,some pid)

def redisFork (e : ForkEnv) (s : Forker) : Except ForkFault (Forker × Option Nat) :=
  if e.rockFeature then
    if s.rockRdbParams.isSome then .error .rockRdbParams
    else do
      let (t,r) ← initRockSerivceForRdbInMainThread e s.zmallocParams
      return if r ≠ 1 then (t.zfreeParams,none) else forkInParent e t
  else .ok (forkInParent e s)

/-- The result says whether it is `C_OK`. -/
def rdbSaveBackground (e : ForkEnv) (hasActiveChildProcess : Bool) (s : Forker) :
    Except ForkFault (Forker × Bool) :=
  if hasActiveChildProcess then .ok (s,false)
  else if s.isRdbServiceThreadRunning then .ok (s,false)
  else (redisFork e s).map fun (t,pid) => (t,pid.isSome)

/-- No part of the service is there. -/
structure Undone (s : Forker) : Prop where
  params : s.rockRdbParams = none
  running : s.isRdbServiceThreadRunning = false
  snapshots : ∀ i ∈ s.instances, i.snapshot = false
  threads : ∀ p ∈ s.threads, p ∈ s.heap

variable {e : ForkEnv} {s t : Forker}

lemma rocksdbapiCreateSnapshots_ok {is : List RockInstance} (h : ∀ i ∈ is, i.snapshot = false) :
    rocksdbapiCreateSnapshots is = .ok (is.map fun i => ⟨i.db,i.db⟩) := by
  induction is with
  | nil => rfl
  | cons i is ih =>
    simp only [mem_cons,forall_eq_or_imp] at h
    rw [rocksdbapiCreateSnapshots,h.1,ih h.2]
    rfl

lemma Undone.redisFork_ok (h : s.Undone) (e : ForkEnv) : ∃ r, redisFork e s = .ok r := by
  have hinit : ∃ r, initRockSerivceForRdbInMainThread e s.zmallocParams = .ok r := by
    rw [initRockSerivceForRdbInMainThread]
    simp only [zmallocParams,h.running,rocksdbapiCreateSnapshots_ok h.snapshots]
    repeat (split; exact ⟨_,rfl⟩)
    exact ⟨_,rfl⟩
  obtain ⟨⟨t,r⟩,hinit⟩ := hinit
  simp only [redisFork,h.params,hinit]
  split <;> exact ⟨_,rfl⟩

lemma initRockSerivce_fails (h : e.startsService = false) (hrock : e.rockFeature = true) :
    initRockSerivceForRdbInMainThread e s = .ok (s,-1) := by
  simp only [ForkEnv.startsService,hrock,Bool.true_and,Bool.and_eq_false_iff] at h
  rw [initRockSerivceForRdbInMainThread]
  rcases h with ((h | h) | h) | h <;> simp [h]

lemma initRockSerivce_starts (h : e.startsService = true) {r : Int}
    (hi : initRockSerivceForRdbInMainThread e s = .ok (t,r)) :
    r = 1 ∧ t.isRdbServiceThreadRunning = true := by
  simp only [ForkEnv.startsService,Bool.and_eq_true] at h
  obtain ⟨⟨⟨⟨-,hpipes⟩,hinit⟩,hlock⟩,hcreate⟩ := h
  simp only [initRockSerivceForRdbInMainThread,hpipes,hinit,hlock,hcreate,Bool.not_true,
    Bool.false_eq_true,if_false] at hi
  split at hi
  · cases hi
  obtain ⟨is,-,his⟩ := (bind_ok ..).mp hi
  cases his
  exact ⟨rfl,rfl⟩

lemma zfreeParams_zmallocParams (hs : s.rockRdbParams = none) :
    s.zmallocParams.zfreeParams = s := by
  have hheap : s.heap.filter (some · ≠ some s.unused) = s.heap := by
    refine filter_eq_self.mpr fun p hp => ?_
    have hle : p ≤ s.heap.sum := single_le_sum (fun _ _ => Nat.zero_le _) p hp
    simp only [unused,ne_eq,Option.some.injEq,decide_not]
    simpa using fun hp : p = s.heap.sum + 1 => by omega
  rw [zfreeParams,zmallocParams,filter_cons_of_neg (by simp),hheap,← hs]

/-- A failed fork leaves nothing of the service, and no assertion of a later one fails, only when
the service was not started. -/
theorem redisFork_undone_iff (h : redisFork e s = .ok (t,none)) :
    (t.Undone ∧ ∀ e', ∃ r, redisFork e' t = .ok r) ↔ s.Undone ∧ e.startsService = false := by
  rw [and_iff_left_of_imp Undone.redisFork_ok]
  rw [redisFork] at h
  split at h
  · rename_i hrock
    split at h
    · cases h
    rename_i hs
    have hs : s.rockRdbParams = none := by simpa using hs
    cases hstart : e.startsService with
    | false =>
      rw [initRockSerivce_fails hstart hrock] at h
      have ht : .ok (s.zmallocParams.zfreeParams,none) = Except.ok (ε := ForkFault) (t,none) := h
      cases ht
      rw [zfreeParams_zmallocParams hs,and_iff_left rfl]
    | true =>
      obtain ⟨⟨u,r⟩,hu,hr⟩ := (bind_ok ..).mp h
      obtain ⟨rfl,hrun⟩ := initRockSerivce_starts hstart hu
      have ht : t.isRdbServiceThreadRunning = true := by
        rw [← hrun]
        have hfork : forkInParent e u = (t,none) := ((pure_ok (ε := ForkFault)).mp hr).symm
        rw [forkInParent] at hfork
        split at hfork <;> cases hfork
        split <;> rfl
      simp only [Bool.true_eq_false,and_false,iff_false]
      exact fun hundone => by simp [hundone.running] at ht
  rename_i hrock
  have hts : t = s := by
    simp only [forkInParent] at h
    split at h <;> simp_all
  subst hts
  simp [ForkEnv.startsService,hrock]

end Forker

namespace Sample

def forker : Forker := ⟨none,false,[⟨true,false⟩,⟨false,false⟩],[],[]⟩

def forkEnv (fork : Option Nat) : ForkEnv := ⟨true,true,true,true,true,fork⟩

end Sample

open Sample

/-- After one failed fork no snapshot can be saved again, and the next fork of a module or of the
script debugger ends the server. -/
theorem redisFork_fail_not_undone :
    forker.Undone ∧ ∃ t, Forker.redisFork (forkEnv none) forker = .ok (t,none) ∧
      t.isRdbServiceThreadRunning = true ∧ ⟨true,true⟩ ∈ t.instances ∧ 1 ∈ t.threads ∧ 1 ∉ t.heap ∧
      (∀ e active, Forker.rdbSaveBackground e active t = .ok (t,false)) ∧
      Forker.redisFork (forkEnv (some 7)) t = .error .isRdbServiceThreadRunning := by
  refine ⟨⟨rfl,rfl,by decide,by decide⟩,_,rfl,rfl,by decide,by decide,by decide,?_,rfl⟩
  intro e active
  cases active <;> rfl

theorem redisFork_undone_pipes_fail :
    ∃ t, Forker.redisFork ⟨true,false,true,true,true,none⟩ forker = .ok (t,none) ∧
      t.Undone :=
  ⟨_,rfl,((Forker.redisFork_undone_iff (e := ⟨true,false,true,true,true,none⟩)
    (s := forker) rfl).mpr
    ⟨⟨rfl,rfl,by decide,by decide⟩,rfl⟩).1⟩

end RedRock
