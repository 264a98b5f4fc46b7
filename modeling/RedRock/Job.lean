import RedRock.Keyspace

/-!
`rock.c`: the job slot, the rock thread's steps, the registration of waiting
clients and the handler that finishes a job.
-/

namespace RedRock
open Lib List Option

/-- The first key a dictionary iterator yields. The iteration order is not part
of the model, so any key can be the first one. -/
def dictFirst {α : Type} (pick : Sds) (d : Dict Sds α) : Option Sds :=
  if pick ∈ d then some pick else d.keys.head?

def RockJob.key {n : Nat} (j : RockJob n) : Option Sds := j.workKey <|> j.returnKey

def RockJob.isFor {n : Nat} (j : RockJob n) (d : Fin (n+1)) (key : Sds) : Prop :=
  j.dbid = some d ∧ j.key = some key

instance {n : Nat} (j : RockJob n) (d : Fin (n+1)) (key : Sds) : Decidable (j.isFor d key) :=
  inferInstanceAs (Decidable (_ ∧ _))

def addRockKey (c : ClientId) (rockKeys : Dict Sds (List ClientId)) (key : Sds) :
    Dict Sds (List ClientId) :=
  rockKeys.insert key (((rockKeys.lookup key).getD []) ++ [c])

namespace Server
variable {n : Nat} (s : Server n)

def hasMoreRockJob (pick : Sds) : Option (Fin (n+1) × Sds) :=
  (List.finRange (n+1)).findSome? fun d => (dictFirst pick (s.db d).rockKeys).map (Prod.mk d)

def initZeroRockJob : Server n :=
  { s with rockJob := ⟨none,none,none,none,false⟩, jobKeyRemoved := false }

def isZeroRockJobState (s : Server n) : Except Fault Bool :=
  match s.rockJob.dbid with
  | none => do
    serverAssert (s.rockJob.returnKey = none ∧ s.rockJob.workKey = none) .isZeroRockJobState
    return true
  | some _ => do
    if s.rockJob.workKey = none then serverAssert (s.rockJob.returnKey ≠ none) .isZeroRockJobState
    else serverAssert (s.rockJob.returnKey = none) .isZeroRockJobState
    return false

section
variable (d : Fin (n+1))

/-- The slot with a new job; `valInRock` and `alreadyFinishedByScript` keep what
the last job left. -/
def arm (key : Sds) : Server n :=
  { s with
    rockJob := { s.rockJob with workKey := some key, dbid := some d, returnKey := none }
    jobKeyRemoved := false }

def createNewJob (s : Server n) (d : Fin (n+1)) (key : Sds) : Except Fault (Server n) := do
  serverAssert (s.rockJob.workKey = none) .createNewJob
  return s.arm d key

def getRockWork (s : Server n) : Except Fault (Option (Fin (n+1)) × Option Sds) := do
  serverAssert (¬ (s.rockJob.workKey ≠ none ∧ s.rockJob.returnKey ≠ none)) .getRockWork
  if s.rockJob.returnKey ≠ none then
    serverAssert (s.rockJob.workKey = none) .getRockWork
    return (none,none)
  else return (s.rockJob.dbid,s.rockJob.workKey)

def restoreObjFromRocksdb (s : Server n) (d : Fin (n+1)) (key : Sds) : Except Fault Robj := do
  serverAssert (key ≠ []) .rocksdbKeyLen
  match (s.rocksdb d).lookup key with
  | none => .error .restoreObjFromRocksdb
  | some buf => desObject s.config buf

/-- The first step of `_haveRockJobThenDoJobInRockThread`. -/
def rockTake : Except Fault (Server n) := do
  let (dbid,key) ← s.getRockWork
  match key with
  | none => return s
  | some key =>
    match dbid with
    | none => .error .haveRockJob
    | some d => return { s with rockThread := .took d key }

def rockRead (key : Sds) : Except Fault (Server n) := do
  let val ← s.restoreObjFromRocksdb d key
  return { s with rockThread := .loaded d key val }

def rockComplete (key : Sds) (val : Robj) : Except Fault (Server n) := do
  serverAssert (s.rockJob.workKey = some key ∧ s.rockJob.dbid = some d ∧
    s.rockJob.returnKey = none) .haveRockJob
  return { s with
    rockJob := { s.rockJob with workKey := none, returnKey := some key, valInRock := some val }
    rockThread := .completed }

def rockSignal : Server n :=
  { s with rockPipe := s.rockPipe + 1, rockThread := .idle }

def startJob (pick : Sds) : Except Fault (Server n) := do
  if ← s.isZeroRockJobState then
    match s.hasMoreRockJob pick with
    | none => .error .noMoreRockJob
    | some (d,key) => s.createNewJob d key
  else return s

/-- `c` waits for `keys` of its database, once for each time a key is listed. -/
def registerWaiter (c : ClientId) (cl : Client n) (keys : List Sds)
    (errs : List String) : Server n :=
  (s.setClient c (some { cl with rockKeyNumber := keys.length, reply := cl.reply ++ errs })).updDb
    cl.db fun db => { db with rockKeys := keys.foldl (addRockKey c) db.rockKeys }

def currentCmd (cl : Client n) : Except Fault Command :=
  match cl.current with
  | some q => .ok q
  | none => .error .nullCommand

def checkCallValueInRock (c : ClientId) (pick : Sds) : Except Fault (Server n) := do
  let cl ← s.getClient c
  serverAssert (cl.rockKeyNumber = 0) .rockKeyNumberZero
  let q ← currentCmd cl
  let (keys,errs) ← checkRock (s.db cl.db) cl q
  let s := s.registerWaiter c cl keys errs
  if keys = [] then return s else s.startJob pick

/-- `checkCallValueInRock`, and `call` with the input buffer to follow when no
key is on disk. -/
def checkThenCall (c : ClientId) (pick : Sds) : Except Fault (Server n) := do
  let s ← s.checkCallValueInRock c pick
  let cl ← s.getClient c
  if cl.rockKeyNumber = 0 then
    let q ← currentCmd cl
    return { s with stack := .call ⟨c,q,s.dirty,[],false⟩ .proc :: .input c :: s.stack }
  else return s

def checkThenResumeRockClient (c : ClientId) (pick : Sds) : Except Fault (Server n) := do
  let cl ← s.getClient c
  serverAssert (cl.rockKeyNumber = 0) .rockKeyNumberZero
  s.checkThenCall c pick

def releaseRockKeyWhenFreeClient (c : ClientId) : Server n :=
  { s with db := fun d =>
      { s.db d with rockKeys := Dict.mapVal (fun l => l.filter (· ≠ c)) (s.db d).rockKeys } }

def freeClient (c : ClientId) : Server n :=
  (s.releaseRockKeyWhenFreeClient c).setClient c none

/-- The loop over the clients waiting for a finished key. It returns the clients
that wait for no further key, in order. -/
def decrRockKeyNumbers (s : Server n) : List ClientId → Except Fault (Server n × List ClientId)
  | [] => .ok (s,[])
  | c :: cs => do
    let cl ← s.getClient c
    serverAssert (cl.rockKeyNumber > 0) .rockKeyNumberPositive
    let s := s.setClient c (some { cl with rockKeyNumber := cl.rockKeyNumber - 1 })
    let (s,zs) ← s.decrRockKeyNumbers cs
    return (s,if cl.rockKeyNumber = 1 then c :: zs else zs)

def deleteRockKey (key : Sds) : Server n :=
  s.updDb d fun db => { db with rockKeys := db.rockKeys.erase key }

/-- Put the value back unless the key was deleted, updated or flushed. -/
def restoreFinished (key : Sds) (val : Robj) : Except Fault (Server n) :=
  if (s.db d).dict.lookup key = some .valueInRock then do
    serverAssert (key ∉ (s.db d).hotKeys) .clearFinishHotKey
    return s.updDb d fun db =>
      { db with dict := db.dict.insert key (.mem val), hotKeys := insert key db.hotKeys }
  else .ok s

/-- `_clearFinishKey` up to the loop that resumes the clients. -/
def clearFinishKey (key : Sds) (val : Robj) : Except Fault (Server n) := do
  let s ← s.restoreFinished d key val
  match (s.db d).rockKeys.lookup key with
  | none => .error .clearFinishClients
  | some clients =>
    let (s,zeroClients) ← s.decrRockKeyNumbers clients
    return { s.deleteRockKey d key with handler := .clearFinish zeroClients }

end

/-- `_rockPipeReadHandler` up to the loop that resumes the clients. -/
def rockPipeReadHandler (s : Server n) : Except Fault (Server n) :=
  match s.rockJob.dbid, s.rockJob.workKey, s.rockJob.returnKey, s.rockJob.valInRock with
  | some d, none, some key, some val =>
    if s.rockJob.alreadyFinishedByScript then .ok { s with handler := .moreJob }
    else s.clearFinishKey d key val
  | _, _, _, _ => .error .rockPipeReadHandler

def handlerMoreJob (pick : Sds) : Except Fault (Server n) := do
  match s.hasMoreRockJob pick with
  | some (d,key) =>
    let s ← s.createNewJob d key
    return { s with handler := .drain }
  | none => return { s.initZeroRockJob with handler := .drain }

end Server

lemma dictFirst_mem {α : Type} {pick k : Sds} {d : Dict Sds α}
    (h : dictFirst pick d = some k) : k ∈ d := by
  unfold dictFirst at h
  split at h
  · rename_i hp
    cases h
    exact hp
  · exact mem_of_head? h

lemma dictFirst_eq_none_iff {α : Type} (pick : Sds) (d : Dict Sds α) :
    dictFirst pick d = none ↔ d = ∅ := by
  constructor
  · intro h
    apply Dict.eq_empty_of_forall_notMem
    intro k hk
    unfold dictFirst at h
    split at h
    · cases h
    have hn : d.keys = [] := head?_eq_none_iff.mp h
    rw [AList.mem_keys,hn] at hk
    cases hk
  · intro h
    rw [h]
    rfl

lemma mem_foldl_addRockKey (c : ClientId) (keys : List Sds) (rk : Dict Sds (List ClientId))
    (k : Sds) : k ∈ keys.foldl (addRockKey c) rk ↔ k ∈ keys ∨ k ∈ rk := by
  induction keys generalizing rk with
  | nil => simp
  | cons key keys ih =>
    rw [foldl_cons,ih]
    simp only [addRockKey,AList.mem_insert,mem_cons]
    tauto

/-- A slot with `dbid == -1` has no key, any other slot has one of the two. -/
structure RockJob.WellFormed {n : Nat} (j : RockJob n) : Prop where
  zero : j.dbid = none ↔ j.workKey = none ∧ j.returnKey = none
  one : j.dbid ≠ none → (j.workKey = none ↔ j.returnKey ≠ none)

namespace Server
variable {n : Nat} {s t : Server n} {c : ClientId} {d : Fin (n+1)} {key pick : Sds}
variable {cs zs : List ClientId} {val : Robj}

lemma hasMoreRockJob_some (h : s.hasMoreRockJob pick = some (d,key)) :
    key ∈ (s.db d).rockKeys := by
  obtain ⟨e,_,he⟩ := exists_of_findSome?_eq_some h
  obtain ⟨k,hk,hp⟩ := map_eq_some_iff.mp he
  cases hp
  exact dictFirst_mem hk

lemma hasMoreRockJob_none_iff : s.hasMoreRockJob pick = none ↔ ∀ d, (s.db d).rockKeys = ∅ := by
  simp [hasMoreRockJob,findSome?_eq_none_iff,dictFirst_eq_none_iff]

lemma createNewJob_ok :
    s.createNewJob d key = .ok t ↔ s.rockJob.workKey = none ∧ t = s.arm d key := by
  simp only [createNewJob,assert_ok,pure_ok]

lemma zeroJobs_ok {b : Bool} (h : s.isZeroRockJobState = .ok b) :
    s.rockJob.WellFormed ∧ b = s.rockJob.dbid.isNone := by
  unfold isZeroRockJobState at h
  split at h
  · rename_i hd
    simp only [assert_ok,pure_ok] at h
    exact ⟨⟨by simp [hd,h.1],by simp [hd]⟩,by simp [hd,h.2]⟩
  rename_i d hd
  split at h
  · rename_i hw
    simp only [assert_ok,pure_ok] at h
    exact ⟨⟨by simp [hd,h.1],by simp [hw,h.1]⟩,by simp [hd,h.2]⟩
  rename_i hw
  simp only [assert_ok,pure_ok] at h
  exact ⟨⟨by simp [hd,hw],by simp [hw,h.1]⟩,by simp [hd,h.2]⟩

lemma zeroJobs_of_wellFormed (h : s.rockJob.WellFormed) :
    s.isZeroRockJobState = .ok s.rockJob.dbid.isNone := by
  unfold isZeroRockJobState
  split
  · rename_i hd
    have hz := h.zero.mp hd
    simp [hd,hz,serverAssert]
  rename_i d hd
  have ho := h.one (by simp [hd])
  split
  · rename_i hw
    simp [hd,ho.mp hw,serverAssert]
  rename_i hw
  have hr : s.rockJob.returnKey = none := by
    by_contra hr
    exact hw (ho.mpr hr)
  simp [hd,hr,serverAssert]

lemma startJob_ok (h : s.startJob pick = .ok t) : (s.rockJob.dbid ≠ none ∧ t = s) ∨
    (s.rockJob.dbid = none ∧ s.rockJob.workKey = none ∧ s.rockJob.returnKey = none ∧
      ∃ d key, key ∈ (s.db d).rockKeys ∧ t = s.arm d key) := by
  obtain ⟨b,hb,ht⟩ := bind_ok.mp h
  obtain ⟨hw,rfl⟩ := zeroJobs_ok hb
  cases hd : s.rockJob.dbid with
  | some d =>
    simp only [hd,isNone_some,Bool.false_eq_true,if_false,pure_ok] at ht
    exact .inl ⟨by simp,ht⟩
  | none =>
    simp only [hd,isNone_none,if_true] at ht
    split at ht
    · cases ht
    rename_i d key hm
    obtain ⟨hwk,rfl⟩ := createNewJob_ok.mp ht
    exact .inr ⟨rfl,hwk,(hw.zero.mp hd).2,d,key,hasMoreRockJob_some hm,rfl⟩

lemma currentCmd_ok {cl : Client n} {q : Command} :
    currentCmd cl = .ok q ↔ cl.current = some q := by
  unfold currentCmd
  split <;> simp_all

lemma registerWaiter_nil (s : Server n) (c : ClientId) (cl : Client n) (errs : List String) :
    s.registerWaiter c cl [] errs =
      s.setClient c (some { cl with rockKeyNumber := 0, reply := cl.reply ++ errs }) := by
  simp [registerWaiter,updDb]

lemma startJob_clients (h : s.startJob pick = .ok t) : t.clients = s.clients := by
  rcases startJob_ok h with ⟨_,rfl⟩ | ⟨_,_,_,d,key,_,rfl⟩
  · rfl
  · rfl

lemma registerWaiter_mem (s : Server n) (c : ClientId) (cl : Client n) (keys : List Sds)
    (errs : List String) (d : Fin (n+1)) (key : Sds) :
    key ∈ ((s.registerWaiter c cl keys errs).db d).rockKeys ↔
      (d = cl.db ∧ key ∈ keys) ∨ key ∈ (s.db d).rockKeys := by
  rw [registerWaiter,updDb_db]
  by_cases hd : d = cl.db
  · subst hd
    simp [mem_foldl_addRockKey,setClient]
  · simp [hd,setClient]

lemma checkCall_ok (h : s.checkThenCall c pick = .ok t) :
    ∃ cl q keys errs, s.clients c = some cl ∧ cl.rockKeyNumber = 0 ∧ cl.current = some q ∧
      checkRock (s.db cl.db) cl q = .ok (keys,errs) ∧
      ((keys = [] ∧ t =
          { s.setClient c (some { cl with rockKeyNumber := 0, reply := cl.reply ++ errs }) with
            stack := .call ⟨c,q,s.dirty,[],false⟩ .proc :: .input c :: s.stack }) ∨
        (keys ≠ [] ∧ (s.registerWaiter c cl keys errs).startJob pick = .ok t)) := by
  obtain ⟨u,hu,ht⟩ := bind_ok.mp h
  obtain ⟨cl,hcl,hu⟩ := bind_ok.mp hu
  rw [assert_ok] at hu
  obtain ⟨hz,hu⟩ := hu
  obtain ⟨q,hq,hu⟩ := bind_ok.mp hu
  obtain ⟨⟨keys,errs⟩,hc,hu⟩ := bind_ok.mp hu
  rw [getClient_ok] at hcl
  rw [currentCmd_ok] at hq
  obtain ⟨cl',hcl',ht⟩ := bind_ok.mp ht
  rw [getClient_ok] at hcl'
  refine ⟨cl,q,keys,errs,hcl,hz,hq,hc,?_⟩
  simp only at hu
  split at hu
  · rename_i hk
    subst hk
    rw [registerWaiter_nil,pure_ok] at hu
    subst hu
    simp only [set_clients,if_true,some.injEq] at hcl'
    subst hcl'
    simp only [if_true] at ht
    obtain ⟨q',hq',ht⟩ := bind_ok.mp ht
    rw [currentCmd_ok] at hq'
    rw [pure_ok] at ht
    have : q' = q := by
      rw [hq] at hq'
      exact (some.inj hq').symm
    subst this
    exact .inl ⟨rfl,ht⟩
  rename_i hk
  rw [startJob_clients hu] at hcl'
  simp only [registerWaiter,updDb,set_clients,if_true,some.injEq] at hcl'
  subst hcl'
  have hl : keys.length ≠ 0 := by
    intro h0
    exact hk (length_eq_zero_iff.mp h0)
  simp only [hl,if_false,pure_ok] at ht
  subst ht
  exact .inr ⟨hk,hu⟩

lemma resumeClient_ok (h : s.checkThenResumeRockClient c pick = .ok t) :
    s.checkThenCall c pick = .ok t := by
  obtain ⟨_,_,ht⟩ := bind_ok.mp h
  rw [assert_ok] at ht
  exact ht.2

lemma decr_cons (h : s.decrRockKeyNumbers (c :: cs) = .ok (t,zs)) :
    ∃ cl ws, s.clients c = some cl ∧ 0 < cl.rockKeyNumber ∧
      (s.setClient c (some { cl with rockKeyNumber := cl.rockKeyNumber - 1 })).decrRockKeyNumbers
        cs = .ok (t,ws) ∧
      zs = if cl.rockKeyNumber = 1 then c :: ws else ws := by
  obtain ⟨cl,hcl,h⟩ := bind_ok.mp h
  rw [getClient_ok] at hcl
  rw [assert_ok] at h
  obtain ⟨hpos,h⟩ := h
  obtain ⟨⟨u,ws⟩,hu,h⟩ := bind_ok.mp h
  rw [pure_ok,Prod.mk.injEq] at h
  obtain ⟨rfl,rfl⟩ := h
  exact ⟨cl,ws,hcl,hpos,hu,rfl⟩

section
variable (h : s.decrRockKeyNumbers cs = .ok (t,zs))
include h

lemma decr_state : t = { s with clients := fun c => (s.clients c).map fun cl =>
      { cl with rockKeyNumber := cl.rockKeyNumber - cs.count c } } := by
  induction cs generalizing s zs with
  | nil =>
    cases h
    simp
  | cons c cs ih =>
    obtain ⟨cl,ws,hcl,_,hu,_⟩ := decr_cons h
    rw [ih hu]
    simp only [setClient,Server.mk.injEq,true_and,and_true]
    funext x
    rw [Function.update_apply]
    by_cases hxc : x = c
    · subst hxc
      simp only [if_true,map_some,hcl,count_cons_self]
      congr 2
      omega
    · simp only [hxc,if_false,count_cons_of_ne (Ne.symm hxc)]

lemma decr_le : ∀ c ∈ cs, ∃ cl, s.clients c = some cl ∧ cs.count c ≤ cl.rockKeyNumber := by
  induction cs generalizing s zs with
  | nil => simp
  | cons c cs ih =>
    obtain ⟨cl,ws,hcl,hpos,hu,_⟩ := decr_cons h
    have hle := ih hu
    intro x hx
    by_cases hxc : x = c
    · subst hxc
      refine ⟨cl,hcl,?_⟩
      rw [count_cons_self]
      by_cases hm : x ∈ cs
      · obtain ⟨cl',hcl',hle'⟩ := hle x hm
        rw [set_clients,if_pos rfl] at hcl'
        cases hcl'
        simp only at hle'
        omega
      rw [count_eq_zero_of_not_mem hm]
      omega
    have hm : x ∈ cs := (mem_cons.mp hx).resolve_left hxc
    obtain ⟨cl',hcl',hle'⟩ := hle x hm
    rw [set_clients,if_neg hxc] at hcl'
    refine ⟨cl',hcl',?_⟩
    rw [count_cons_of_ne (Ne.symm hxc)]
    exact hle'

lemma decr_mem (x : ClientId) :
    x ∈ zs ↔ x ∈ cs ∧ ∃ cl, s.clients x = some cl ∧ cl.rockKeyNumber = cs.count x := by
  induction cs generalizing s zs with
  | nil =>
    cases h
    simp
  | cons c cs ih =>
    obtain ⟨cl,ws,hcl,hpos,hu,rfl⟩ := decr_cons h
    have hws := ih hu
    rw [set_clients] at hws
    by_cases hxc : x = c
    · subst hxc
      have hx : x ∈ ws ↔ x ∈ cs ∧ cl.rockKeyNumber - 1 = cs.count x := by simpa using hws
      have hr : (x ∈ x :: cs ∧ ∃ cl', s.clients x = some cl' ∧
          cl'.rockKeyNumber = (x :: cs).count x) ↔ cl.rockKeyNumber = cs.count x + 1 := by
        simp [hcl]
      rw [hr]
      split
      · rename_i h1
        have hz : cs.count x = 0 := by
          by_contra hz
          obtain ⟨cl',hcl',hle'⟩ := decr_le hu x (count_pos_iff.mp (Nat.pos_of_ne_zero hz))
          rw [set_clients,if_pos rfl] at hcl'
          cases hcl'
          simp only at hle'
          omega
        simp [h1,hz]
      rw [hx]
      constructor
      · rintro ⟨_,he⟩
        omega
      intro he
      exact ⟨count_pos_iff.mp (by omega),by omega⟩
    have hw : x ∈ (if cl.rockKeyNumber = 1 then c :: ws else ws) ↔ x ∈ ws := by
      split
      · simp [hxc]
      · rfl
    rw [if_neg hxc] at hws
    rw [hw,hws,count_cons_of_ne (Ne.symm hxc)]
    simp [hxc]

lemma decr_nodup : zs.Nodup := by
  induction cs generalizing s zs with
  | nil =>
    cases h
    exact nodup_nil
  | cons c cs ih =>
    obtain ⟨cl,ws,_,_,hu,rfl⟩ := decr_cons h
    split
    · refine nodup_cons.mpr ⟨?_,ih hu⟩
      intro hc
      obtain ⟨hc,cl',hcl',he⟩ := (decr_mem hu c).mp hc
      rw [set_clients,if_pos rfl] at hcl'
      cases hcl'
      have hcount := count_pos_iff.mpr hc
      simp only at he
      omega
    · exact ih hu

lemma decr_ok : t = { s with clients := fun c => (s.clients c).map fun cl =>
      { cl with rockKeyNumber := cl.rockKeyNumber - cs.count c } } ∧
    (∀ c ∈ cs, ∃ cl, s.clients c = some cl ∧ cs.count c ≤ cl.rockKeyNumber) ∧
    zs.Nodup ∧
    ∀ c, c ∈ zs ↔ c ∈ cs ∧ ∃ cl, s.clients c = some cl ∧ cl.rockKeyNumber = cs.count c :=
  ⟨decr_state h,decr_le h,decr_nodup h,decr_mem h⟩

end

lemma decr_succeeds (h : ∀ c ∈ cs, ∃ cl, s.clients c = some cl ∧ cs.count c ≤ cl.rockKeyNumber) :
    ∃ r, s.decrRockKeyNumbers cs = .ok r := by
  induction cs generalizing s with
  | nil => exact ⟨_,rfl⟩
  | cons c cs ih =>
    obtain ⟨cl,hcl,hle⟩ := h c (by simp)
    rw [count_cons_self] at hle
    have hs : ∀ x ∈ cs, ∃ cl', (s.setClient c
        (some { cl with rockKeyNumber := cl.rockKeyNumber - 1 })).clients x = some cl' ∧
        cs.count x ≤ cl'.rockKeyNumber := by
      intro x hx
      rw [set_clients]
      by_cases hxc : x = c
      · subst hxc
        refine ⟨_,if_pos rfl,?_⟩
        simp only
        omega
      obtain ⟨cl',hcl',hle'⟩ := h x (by simp [hx])
      rw [count_cons_of_ne (Ne.symm hxc)] at hle'
      exact ⟨cl',by rw [if_neg hxc,hcl'],hle'⟩
    obtain ⟨⟨u,ws⟩,hu⟩ := ih hs
    refine ⟨(u,if cl.rockKeyNumber = 1 then c :: ws else ws),bind_ok.mpr ⟨cl,?_,?_⟩⟩
    · exact getClient_ok.mpr hcl
    rw [assert_ok]
    exact ⟨by omega,bind_ok.mpr ⟨_,hu,rfl⟩⟩

lemma finished_ok (h : s.restoreFinished d key val = .ok t) :
    ((s.db d).dict.lookup key = some .valueInRock ∧ key ∉ (s.db d).hotKeys ∧ t = s.updDb d fun db =>
        { db with dict := db.dict.insert key (.mem val), hotKeys := insert key db.hotKeys }) ∨
    ((s.db d).dict.lookup key ≠ some .valueInRock ∧ t = s) := by
  unfold restoreFinished at h
  split at h
  · rename_i hv
    rw [assert_ok,pure_ok] at h
    exact .inl ⟨hv,h.1,h.2⟩
  rename_i hv
  cases h
  exact .inr ⟨hv,rfl⟩

lemma finished_keyspace (h : s.restoreFinished d key val = .ok t) : KeyspaceOnly s t := by
  rcases finished_ok h with ⟨_,_,rfl⟩ | ⟨_,rfl⟩
  · exact .updDb s d fun _ => rfl
  · exact .refl _

lemma deleteRockKey_rockKeys (s : Server n) (d e : Fin (n+1)) (key : Sds) :
    ((s.deleteRockKey d key).db e).rockKeys =
      if e = d then (s.db d).rockKeys.erase key else (s.db e).rockKeys := by
  rw [deleteRockKey,updDb_db]
  by_cases h : e = d
  · subst h
    simp
  · simp [h]

lemma mem_deleteRockKey (s : Server n) (d e : Fin (n+1)) (key k : Sds) :
    k ∈ ((s.deleteRockKey d key).db e).rockKeys ↔ k ∈ (s.db e).rockKeys ∧ ¬ (e = d ∧ k = key) := by
  rw [deleteRockKey_rockKeys]
  by_cases h : e = d
  · subst h
    simp [and_comm]
  · simp [h]

lemma clearFinishKey_ok (h : s.clearFinishKey d key val = .ok t) :
    ∃ u clients zs v, s.restoreFinished d key val = .ok u ∧
      (s.db d).rockKeys.lookup key = some clients ∧
      u.decrRockKeyNumbers clients = .ok (v,zs) ∧
      t = { v.deleteRockKey d key with handler := .clearFinish zs } := by
  obtain ⟨u,hu,h⟩ := bind_ok.mp h
  have hk : (u.db d).rockKeys = (s.db d).rockKeys := by
    obtain ⟨db,b,rfl,hk⟩ := finished_keyspace hu
    exact hk d
  rw [hk] at h
  split at h
  · cases h
  rename_i clients hc
  obtain ⟨⟨v,zs⟩,hv,h⟩ := bind_ok.mp h
  rw [pure_ok] at h
  exact ⟨u,clients,zs,v,hu,hc,hv,h⟩

lemma mem_clearFinishKey (h : s.clearFinishKey d key val = .ok t) (e : Fin (n+1)) (k : Sds) :
    k ∈ (t.db e).rockKeys ↔ k ∈ (s.db e).rockKeys ∧ ¬ (e = d ∧ k = key) := by
  obtain ⟨u,clients,zs,v,hu,_,hv,rfl⟩ := clearFinishKey_ok h
  obtain ⟨rfl,_⟩ := decr_ok hv
  obtain ⟨db,b,rfl,hk⟩ := finished_keyspace hu
  have hm := mem_deleteRockKey { s with db := db, alreadyInitHotKeys := b } d e key k
  rw [hk] at hm
  exact hm

lemma pipeHandler_ok (h : s.rockPipeReadHandler = .ok t) :
    ∃ d key val, s.rockJob.dbid = some d ∧ s.rockJob.workKey = none ∧
      s.rockJob.returnKey = some key ∧ s.rockJob.valInRock = some val ∧
      ((s.rockJob.alreadyFinishedByScript = true ∧ t = { s with handler := .moreJob }) ∨
       (s.rockJob.alreadyFinishedByScript = false ∧ s.clearFinishKey d key val = .ok t)) := by
  unfold rockPipeReadHandler at h
  split at h
  · rename_i d key val hd hw hr hv
    refine ⟨d,key,val,hd,hw,hr,hv,?_⟩
    split at h
    · rename_i hf
      cases h
      exact .inl ⟨hf,rfl⟩
    rename_i hf
    exact .inr ⟨by simpa using hf,h⟩
  · cases h

lemma moreJob_ok (h : s.handlerMoreJob pick = .ok t) :
    (∃ d key, key ∈ (s.db d).rockKeys ∧ s.rockJob.workKey = none ∧
      t = { s.arm d key with handler := .drain }) ∨
    ((∀ d, (s.db d).rockKeys = ∅) ∧ t = { s.initZeroRockJob with handler := .drain }) := by
  unfold handlerMoreJob at h
  split at h
  · rename_i d key hm
    obtain ⟨u,hu,h⟩ := bind_ok.mp h
    obtain ⟨hw,rfl⟩ := createNewJob_ok.mp hu
    rw [pure_ok] at h
    exact .inl ⟨d,key,hasMoreRockJob_some hm,hw,h⟩
  rename_i hm
  rw [pure_ok] at h
  exact .inr ⟨hasMoreRockJob_none_iff.mp hm,h⟩

lemma rockTake_ok (h : s.rockTake = .ok t) :
    t = s ∨ ∃ d key, s.rockJob.dbid = some d ∧ s.rockJob.workKey = some key ∧
      s.rockJob.returnKey = none ∧ t = { s with rockThread := .took d key } := by
  obtain ⟨⟨dbid,k⟩,hg,h⟩ := bind_ok.mp h
  unfold getRockWork at hg
  rw [assert_ok] at hg
  obtain ⟨_,hg⟩ := hg
  split at hg
  · rw [assert_ok,pure_ok,Prod.mk.injEq] at hg
    obtain ⟨_,rfl,rfl⟩ := hg
    exact .inl (pure_ok.mp h)
  rename_i hr
  rw [pure_ok,Prod.mk.injEq] at hg
  obtain ⟨rfl,rfl⟩ := hg
  simp only at h
  split at h
  · exact .inl (pure_ok.mp h)
  rename_i key hw
  split at h
  · cases h
  rename_i d hd
  exact .inr ⟨d,key,hd,hw,not_not.mp hr,pure_ok.mp h⟩

lemma rockComplete_ok (h : s.rockComplete d key val = .ok t) :
    s.rockJob.workKey = some key ∧ s.rockJob.dbid = some d ∧ s.rockJob.returnKey = none ∧
      t = { s with
        rockJob := { s.rockJob with workKey := none, returnKey := some key, valInRock := some val }
        rockThread := .completed } := by
  simp only [rockComplete,assert_ok,pure_ok] at h
  exact ⟨h.1.1,h.1.2.1,h.1.2.2,h.2⟩

lemma freeClient_rockKeys (s : Server n) (c : ClientId) (d : Fin (n+1)) :
    ((s.freeClient c).db d).rockKeys = Dict.mapVal (fun l => l.filter (· ≠ c)) (s.db d).rockKeys :=
  rfl

end Server
end RedRock
