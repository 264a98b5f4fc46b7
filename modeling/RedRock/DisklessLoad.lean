import RedRock.Backup
import RedRock.HotIndex

/-!
A replica with `repl-diskless-load swapdb` keeps its dictionaries aside, loads the
dataset of the master from the socket, and puts the old ones back when that fails. The
index of hot keys, the waiting clients and the RocksDB instances are not kept aside:
the old dataset and the one being loaded share them.
-/

namespace RedRock
open Lib List Option Server AList
variable {expire : Option Int}

def CHECK_MEM_FOR_ROCK_MAX_TIMES : Nat := 30

structure DbBackup where
  dict : Dict Sds DbVal
  expires : Dict Sds Int

/-- `db` and `rdbLoadKeyCount` are variables of `rdbLoadRio`, and `freeing` is its call of
`dumpValueToRockIfNeeded`; `before` is history, the server when the load began. -/
structure Load (n : Nat) where
  backup : Fin (n+1) → DbBackup
  db : Fin (n+1)
  rdbLoadKeyCount : Nat
  freeing : Bool
  before : Server n

structure DisklessLoad (n : Nat) where
  server : Server n
  load : Option (Load n)

/-- `main` is a fault of the server's own functions; with a database id that is too large
`rdbLoadRio` ends the process. -/
inductive LoadFault where
  | main (f : Fault)
  | dbid
  deriving DecidableEq

/-- `selectDb` and `key` are the items of the stream; `fail` and `finish` are the two ways
in which `rdbLoadRio` returns. -/
inductive LoadAct (n : Nat) where
  | main (a : Act n)
  | makeBackups
  | selectDb (dbid : Nat)
  | key (key : Sds) (val : Robj) (expire : Option Int)
  | initHotKeys
  | sampleHotKey (d : Fin (n+1)) (key : Sds)
  | dump (d : Fin (n+1)) (key : Sds)
  | freed
  | fail
  | finish

namespace Server
variable {n : Nat} (s : Server n)

def disklessLoadMakeBackups : (Fin (n+1) → DbBackup) × Server n :=
  (fun d => ⟨(s.db d).dict,(s.db d).expires⟩,
    { s with db := fun d => { s.db d with dict := ∅, expires := ∅ } })

def disklessLoadRestoreBackups (backup : Fin (n+1) → DbBackup) : Except Fault (Server n) := do
  let s ← s.emptyDb none
  return { s with db := fun d =>
    { s.db d with dict := (backup d).dict, expires := (backup d).expires } }

/-- The deletion of the backups empties the index, which they share with the server. -/
def disklessLoadFreeBackups (s : Server n) : List (Fin (n+1)) → Except Fault (Server n)
  | [] => .ok s
  | d :: ds => do
    let s ← s.clearHotKeysWhenEmptyDb d
    s.disklessLoadFreeBackups ds

def rdbLoadKey (d : Fin (n+1)) (key : Sds) (val : Robj) (expire : Option Int) :
    Except Fault (Server n) := do
  let s ← s.dbAdd d key (.mem val)
  return s.setExpire d key expire

end Server

def Load.countKey {n : Nat} (l : Load n) : Load n :=
  if l.rdbLoadKeyCount + 1 ≥ CHECK_MEM_FOR_ROCK_MAX_TIMES then
    { l with rdbLoadKeyCount := 0, freeing := true }
  else { l with rdbLoadKeyCount := l.rdbLoadKeyCount + 1 }

namespace DisklessLoad
variable {n : Nat} (r : DisklessLoad n)

/-- Events are processed between two reads of the stream; while memory is freed only the
rock thread goes on. -/
def permits (a : Act n) : Bool :=
  match r.load with
  | some l => !l.freeing || a.inRockThread
  | none => true

def reading : Option (Load n) := r.load.filter fun l => !l.freeing && r.server.atLoop

def freeing : Option (Load n) := r.load.filter fun l => l.freeing

def lift (load : Option (Load n)) (x : Except Fault (Server n)) : Except LoadFault (DisklessLoad n) :=
  (x.mapError .main).map fun s => ⟨s,load⟩

def makeBackups : DisklessLoad n :=
  let (backup,s) := r.server.disklessLoadMakeBackups
  ⟨s,some ⟨backup,0,0,false,r.server⟩⟩

def selectDb (l : Load n) (dbid : Nat) : Except LoadFault (DisklessLoad n) :=
  if h : dbid < n+1 then .ok { r with load := some { l with db := ⟨dbid,h⟩ } } else .error .dbid

def dump (l : Load n) (d : Fin (n+1)) (key : Sds) : Option (Except LoadFault (DisklessLoad n)) :=
  match (r.server.db d).dict.lookup key with
  | some val =>
    if r.server.alreadyInitHotKeys ∧ isValueSuitForDumpRock val ∧
        key ∉ (r.server.db d).rockKeys then
      some (lift (some l) (r.server.dumpValToRock d key))
    else none
  | none => none

def step : LoadAct n → Option (Except LoadFault (DisklessLoad n))
  | .main a => if r.permits a then (r.server.step a).map (lift r.load) else none
  | .makeBackups =>
    if r.load.isNone ∧ r.server.atLoop then some (.ok r.makeBackups) else none
  | .selectDb dbid => r.reading.map fun l => r.selectDb l dbid
  | .key key val expire => r.reading.map fun l =>
      lift (some l.countKey) (r.server.rdbLoadKey l.db key val expire)
  | .initHotKeys => r.freeing.bind fun l =>
      if r.server.alreadyInitHotKeys then none else some (lift (some l) r.server.initHotKeys)
  | .sampleHotKey d key => r.freeing.bind fun l =>
      if r.server.alreadyInitHotKeys ∧ key ∈ (r.server.db d).hotKeys then
        some (lift (some l)
          (if key ∈ (r.server.db d).dict then .ok r.server else .error .rockPoolPopulate))
      else none
  | .dump d key => r.freeing.bind fun l => r.dump l d key
  | .freed => r.freeing.map fun l => .ok { r with load := some { l with freeing := false } }
  | .fail => r.reading.map fun l => lift none (r.server.disklessLoadRestoreBackups l.backup)
  | .finish => r.reading.map fun _ =>
      lift none (r.server.disklessLoadFreeBackups (List.finRange (n+1)))

end DisklessLoad

def disklessLoad (n : Nat) (cfg : Config) : Machine (DisklessLoad n) (LoadAct n) LoadFault where
  init := ⟨initServer n cfg,none⟩
  step := DisklessLoad.step

namespace Server
variable {n : Nat} {s t u : Server n} {a : Act n} {d : Fin (n+1)} {key : Sds} {c : Content}
  {backup : Fin (n+1) → DbBackup} {before : Server n}

lemma rockContent_of_keyspace (h : KeyspaceOnly s t) : t.rockContent = s.rockContent := by
  obtain ⟨db,b,rfl,_⟩ := h
  rfl

lemma OnDisk.rockContent (h : s.OnDisk d key c) : s.rockContent key d = .ok c := by
  obtain ⟨val,hv,hc⟩ := h.restore
  rw [Server.rockContent,hv,← hc]
  rfl

lemma rockContent_congr (hd : s.Dumped)
    (hl : (t.rocksdb d).lookup key = (s.rocksdb d).lookup key) :
    t.rockContent key d = s.rockContent key d := by
  by_cases hk : key = []
  · subst hk
    rfl
  cases hb : (s.rocksdb d).lookup key with
  | none =>
    rw [hb] at hl
    simp [rockContent,restoreObjFromRocksdb,hl,hb]
  | some buf =>
    obtain ⟨o,ho⟩ := hd d key buf hb
    have hs : s.OnDisk d key o.content := ⟨hk,o,buf,hb,ho,rfl⟩
    have ht : t.OnDisk d key o.content := ⟨hk,o,buf,hl.trans hb,ho,rfl⟩
    rw [hs.rockContent,ht.rockContent]

lemma DataMove.of_dump (hi : s.alreadyInitHotKeys = true) (hk : key ∉ (s.db d).rockKeys)
    (hu : s.dumpValToRock d key = .ok u) : DataMove s u (.dump d key) := by
  refine .dump d key u hi hk hu (.refl u) ?_ rfl
  obtain ⟨o,buf,_,_,_,_,_,rfl⟩ := dumpVal_ok.mp hu
  rfl

lemma makeBackups_keyspace (s : Server n) : KeyspaceOnly s s.disklessLoadMakeBackups.2 :=
  ⟨_,s.alreadyInitHotKeys,rfl,fun _ => rfl⟩

lemma restoreBackups_ok :
    s.disklessLoadRestoreBackups backup = .ok t ↔ ∃ u, s.emptyDb none = .ok u ∧
      t = { u with db := fun d =>
        { u.db d with dict := (backup d).dict, expires := (backup d).expires } } := by
  unfold disklessLoadRestoreBackups
  rw [bind_ok]
  simp only [pure_ok]

lemma restoreBackups_keyspace
    (h : s.disklessLoadRestoreBackups backup = .ok t) : KeyspaceOnly s t := by
  obtain ⟨u,hu,rfl⟩ := restoreBackups_ok.mp h
  exact (emptyDbs_keyspace hu).trans ⟨_,u.alreadyInitHotKeys,rfl,fun _ => rfl⟩

lemma HotLazy.disklessLoadRestoreBackups (h : s.HotLazy) (backup : Fin (n+1) → DbBackup) :
    ∃ t, s.disklessLoadRestoreBackups backup = .ok t ∧
      (∀ d key, t.logical d key = ((backup d).dict.lookup key).map (s.denote key d)) ∧
      ∀ d, (t.db d).expires = (backup d).expires := by
  cases hu : s.emptyDb none with
  | error f => exact (h.emptyDb_errors (P := fun _ => False) none f hu).elim
  | ok u =>
    refine ⟨_,restoreBackups_ok.mpr ⟨u,hu,rfl⟩,fun d key => ?_,fun _ => rfl⟩
    obtain ⟨db,b,rfl,_⟩ := emptyDbs_keyspace hu
    rfl

lemma freeBackups_keyspace {ds : List (Fin (n+1))}
    (h : s.disklessLoadFreeBackups ds = .ok t) : KeyspaceOnly s t := by
  induction ds generalizing s with
  | nil =>
    cases h
    exact .refl _
  | cons d ds ih =>
    obtain ⟨u,hu,ht⟩ := bind_ok.mp h
    exact (clearHotKeys_keyspace hu).trans (ih ht)

lemma rdbLoadKey_ok {val : Robj} : s.rdbLoadKey d key val expire = .ok t ↔
      ∃ u, s.dbAdd d key (.mem val) = .ok u ∧ t = u.setExpire d key expire := by
  unfold rdbLoadKey
  rw [bind_ok]
  simp only [pure_ok]

lemma rdbLoadKey_keyspace {val : Robj} (h : s.rdbLoadKey d key val expire = .ok t) :
    KeyspaceOnly s t := by
  obtain ⟨u,hu,rfl⟩ := rdbLoadKey_ok.mp h
  exact (dbAdd_keyspace hu).trans (setExpire_keyspace _ _ _ _)

lemma initHotKeys_keyspace (h : s.initHotKeys = .ok t) : KeyspaceOnly s t := by
  rw [(initHotKeys_ok.mp h).2.2]
  exact ⟨_,true,rfl,fun _ => addHotKeys_rockKeys _ _⟩

def keepsBackup (s : Server n) (backup : Fin (n+1) → DbBackup) (d : Fin (n+1)) (key : Sds) : Bool :=
  match (backup d).dict.lookup key, s.look d key with
  | some .valueInRock, some (.mem o) => decide (s.rockContent key d = .ok o.content)
  | _, _ => true

structure LoadInv (backup : Fin (n+1) → DbBackup) (before s : Server n) : Prop where
  dict : ∀ d, (backup d).dict = (before.db d).dict
  expires : ∀ d, (backup d).expires = (before.db d).expires
  rock : ∀ d key, (backup d).dict.lookup key = some .valueInRock →
    s.rockContent key d = before.rockContent key d
  hot : s.HotSound
  lazy : s.HotLazy

namespace LoadInv

lemma init (hk : ∀ d, (s.db d).hotKeys = ∅) :
    LoadInv s.disklessLoadMakeBackups.1 s s.disklessLoadMakeBackups.2 where
  dict _ := rfl
  expires _ := rfl
  rock _ _ _ := rfl
  hot _ d := by
    unfold RedisDb.HotSound
    rw [show (s.disklessLoadMakeBackups.2.db d).hotKeys = ∅ from hk d]
    exact Indexes.empty _ _
  lazy _ := hk

section
variable (h : LoadInv backup before s)
include h

lemma of_keyspace (hk : KeyspaceOnly s t) (hot : t.HotSound)
    (lazy : t.HotLazy) : LoadInv backup before t where
  dict := h.dict
  expires := h.expires
  rock d key hl := by
    rw [rockContent_of_keyspace hk]
    exact h.rock d key hl
  hot := hot
  lazy := lazy

lemma rdbLoadKey {val : Robj}
    (ht : s.rdbLoadKey d key val expire = .ok t) : LoadInv backup before t := by
  refine h.of_keyspace (rdbLoadKey_keyspace ht) ?_ ?_
  · obtain ⟨u,hu,rfl⟩ := rdbLoadKey_ok.mp ht
    have hk := WhenHot.keptByOps (n := n) hotSound_keptByHooks
    exact hk.setExpire _ _ _ (hk.dbAdd h.hot hu)
  obtain ⟨u,hu,rfl⟩ := rdbLoadKey_ok.mp ht
  exact HotLazy.keptByOps.setExpire _ _ _ (HotLazy.keptByOps.dbAdd h.lazy hu)

lemma initHotKeys (ht : s.initHotKeys = .ok t) : LoadInv backup before t := by
  refine h.of_keyspace (initHotKeys_keyspace ht) (HotSound.initHotKeys ht) fun hi => ?_
  rw [(initHotKeys_ok.mp ht).2.2] at hi
  cases hi

lemma rock_of_move (hd : s.Dumped) (hm : DataMove s t a)
    (hkeep : ∀ e k, a = .dump e k → s.keepsBackup backup e k = true)
    (hl : (backup d).dict.lookup key = some .valueInRock) :
    t.rockContent key d = before.rockContent key d := by
  rw [← h.rock d key hl]
  rcases hm.rocksdb with hr | ⟨e,k,u,ha,_,hu,hr⟩
  · exact rockContent_congr hd (by rw [hr])
  obtain ⟨o,buf,ho,hs,hne,_,hlook⟩ := dumpVal_lookup hu
  rw [← hr] at hlook
  by_cases hek : d = e ∧ key = k
  · obtain ⟨rfl,rfl⟩ := hek
    have hk := hkeep d key ha
    simp only [keepsBackup,hl,ho,decide_eq_true_eq] at hk
    have hdisk : t.OnDisk d key o.content := ⟨hne,o,buf,by simp [hlook],hs,rfl⟩
    rw [hk,hdisk.rockContent]
  · exact rockContent_congr hd (by rw [hlook,if_neg hek])

lemma move (hn : s.NoStream) (hm : DataMove s t a)
    (hsafe : s.hotSafe a = true) (hkeep : ∀ e k, a = .dump e k → s.keepsBackup backup e k = true)
    (lazy : t.HotLazy) : LoadInv backup before t where
  dict := h.dict
  expires := h.expires
  rock _ _ hl := h.rock_of_move hn.dumped hm hkeep hl
  hot := HotInv.hot_step ⟨hn,h.hot⟩ hsafe hm
  lazy := lazy

lemma dump (hn : s.NoStream) (hi : s.alreadyInitHotKeys = true)
    (hk : key ∉ (s.db d).rockKeys) (hkeep : s.keepsBackup backup d key = true)
    (ht : s.dumpValToRock d key = .ok t) : LoadInv backup before t := by
  refine h.move hn (DataMove.of_dump hi hk ht) rfl ?_ (.dumpValToRock hi ht)
  rintro e k ha
  cases ha
  exact hkeep

lemma restored : ∃ t, s.disklessLoadRestoreBackups backup = .ok t ∧ t.logical = before.logical ∧
      ∀ d, (t.db d).expires = (before.db d).expires := by
  obtain ⟨t,ht,hlogical,hexpires⟩ := h.lazy.disklessLoadRestoreBackups backup
  refine ⟨t,ht,?_,fun d => (hexpires d).trans (h.expires d)⟩
  funext d key
  rw [hlogical,logical_eq,look,← h.dict]
  cases hb : (backup d).dict.lookup key with
  | none => rfl
  | some val =>
    cases val with
    | mem o => rfl
    | valueInRock =>
      simp only [map_some,denote]
      rw [h.rock d key hb]

lemma mem_of_hot (hk : key ∈ (s.db d).hotKeys) : key ∈ (s.db d).dict := by
  cases hi : s.alreadyInitHotKeys with
  | true => exact Indexes.mem (h.hot hi d) hk
  | false =>
    rw [h.lazy hi d] at hk
    exact absurd hk (Finset.notMem_empty _)

end

end LoadInv
end Server

namespace DisklessLoad
variable {n : Nat} {r t : DisklessLoad n} {a : LoadAct n} {l : Load n}
variable {load : Option (Load n)} {buf : Bytes}

lemma lift_ok {x : Except Fault (Server n)} :
    lift load x = .ok t ↔ ∃ s, x = .ok s ∧ t = ⟨s,load⟩ := by
  cases x <;> simp [lift,Except.mapError,Except.map,eq_comm]

lemma reading_some : r.reading = some l ↔
    r.load = some l ∧ l.freeing = false ∧ r.server.atLoop = true := by
  simp [reading,filter_eq_some_iff]

lemma freeing_some : r.freeing = some l ↔ r.load = some l ∧ l.freeing = true := by
  simp [freeing,filter_eq_some_iff]

/-- When the load begins the index is empty, a dump keeps what the backup stands for, and
the events of the load are safe for the index. -/
def undoSafe (r : DisklessLoad n) (a : LoadAct n) : Bool :=
  match r.load, a with
  | none, .makeBackups => decide (∀ d, (r.server.db d).hotKeys = ∅)
  | some l, .main a => r.server.hotSafe a && r.server.lazySafe a && match a with
      | .dump d key => r.server.keepsBackup l.backup d key
      | _ => true
  | some l, .dump d key => r.server.keepsBackup l.backup d key
  | _, _ => true

structure Undoable (r : DisklessLoad n) : Prop where
  disk : r.server.NoStream
  load : ∀ l, r.load = some l → LoadInv l.backup l.before r.server

namespace Undoable

lemma init (cfg : Config) : Undoable (disklessLoad n cfg).init := ⟨.init cfg,by simp [disklessLoad]⟩

section
variable (h : Undoable r)
include h

variable {s : Server n}

lemma of_keyspace (hk : KeyspaceOnly r.server s)
    (hl : ∀ l, load = some l → LoadInv l.backup l.before s) : Undoable ⟨s,load⟩ :=
  ⟨h.disk.of_keyspace hk,hl⟩

lemma main {a : Act n} (hsafe : r.undoSafe (.main a) = true)
    (hs : r.server.step a = some (.ok s)) : Undoable ⟨s,r.load⟩ := by
  refine ⟨h.disk.step hs,fun l hl => ?_⟩
  have hload : r.load = some l := hl
  have hinv := h.load l hload
  simp only [undoSafe,hload,Bool.and_eq_true] at hsafe
  obtain ⟨⟨hhot,hlazy⟩,hkeep⟩ := hsafe
  refine hinv.move h.disk (dataMove_of_step hs) hhot ?_ (hinv.lazy.step hlazy hs)
  rintro e k rfl
  exact hkeep

lemma selectDb {dbid : Nat} (hl : r.load = some l)
    (hst : r.selectDb l dbid = .ok t) : Undoable t := by
  unfold DisklessLoad.selectDb at hst
  split at hst
  · cases hst
    refine ⟨h.disk,fun l' hl' => ?_⟩
    cases hl'
    exact h.load l hl
  · cases hst

lemma key {key : Sds} {val : Robj} (hl : r.load = some l)
    (hs : r.server.rdbLoadKey l.db key val expire = .ok s) : Undoable ⟨s,some l.countKey⟩ := by
  refine h.of_keyspace (rdbLoadKey_keyspace hs) fun l' hl' => ?_
  cases hl'
  have hinv := (h.load l hl).rdbLoadKey hs
  unfold Load.countKey
  split <;> exact hinv

lemma dump {d : Fin (n+1)} {key : Sds} (hl : r.load = some l)
    (hsafe : r.undoSafe (.dump d key) = true) (hst : r.dump l d key = some (.ok t)) :
    Undoable t := by
  simp only [undoSafe,hl] at hsafe
  unfold DisklessLoad.dump at hst
  split at hst
  · rw [enabled_iff] at hst
    obtain ⟨⟨hi,_,hk⟩,hst⟩ := hst
    obtain ⟨s,hs,rfl⟩ := lift_ok.mp hst
    refine ⟨⟨h.disk.dumped.step (DataMove.of_dump hi hk hs),?_,?_⟩,fun l' hl' => ?_⟩
    · obtain ⟨o,buf,_,_,_,_,_,rfl⟩ := dumpVal_ok.mp hs
      exact h.disk.loaded
    · obtain ⟨o,buf,_,_,_,_,_,rfl⟩ := dumpVal_ok.mp hs
      exact h.disk.returned
    cases hl'
    exact (h.load l hl).dump h.disk hi hk hsafe hs
  · cases hst

lemma step (hsafe : r.undoSafe a = true) (hst : r.step a = some (.ok t)) : Undoable t := by
  cases a with
  | main a =>
    rw [DisklessLoad.step,ite_none_right_eq_some] at hst
    obtain ⟨_,hst⟩ := hst
    obtain ⟨x,hx,hst⟩ := map_eq_some_iff.mp hst
    obtain ⟨s,rfl,rfl⟩ := lift_ok.mp hst
    exact h.main hsafe hx
  | makeBackups =>
    rw [DisklessLoad.step,ite_none_right_eq_some,isNone_iff_eq_none] at hst
    obtain ⟨⟨hl,_⟩,hst⟩ := hst
    cases hst
    simp only [undoSafe,hl] at hsafe
    refine h.of_keyspace (makeBackups_keyspace _) fun l hl => ?_
    cases hl
    exact LoadInv.init (of_decide_eq_true hsafe)
  | selectDb dbid =>
    obtain ⟨l,hl,hst⟩ := map_eq_some_iff.mp hst
    exact h.selectDb (reading_some.mp hl).1 hst
  | key key val expire =>
    obtain ⟨l,hl,hst⟩ := map_eq_some_iff.mp hst
    obtain ⟨s,hs,rfl⟩ := lift_ok.mp hst
    exact h.key (reading_some.mp hl).1 hs
  | initHotKeys =>
    obtain ⟨l,hl,hst⟩ := bind_eq_some_iff.mp hst
    rw [ite_none_left_eq_some,some.injEq] at hst
    obtain ⟨s,hs,rfl⟩ := lift_ok.mp hst.2
    refine h.of_keyspace (initHotKeys_keyspace hs) fun l' hl' => ?_
    cases hl'
    exact (h.load l (freeing_some.mp hl).1).initHotKeys hs
  | sampleHotKey d key =>
    obtain ⟨l,hl,hst⟩ := bind_eq_some_iff.mp hst
    rw [enabled_iff] at hst
    obtain ⟨s,hs,rfl⟩ := lift_ok.mp hst.2
    split at hs
    · cases hs
      rw [← (freeing_some.mp hl).1]
      exact h
    · cases hs
  | dump d key =>
    obtain ⟨l,hl,hst⟩ := bind_eq_some_iff.mp hst
    exact h.dump (freeing_some.mp hl).1 hsafe hst
  | freed =>
    obtain ⟨l,hl,hst⟩ := map_eq_some_iff.mp hst
    cases hst
    refine ⟨h.disk,fun l' hl' => ?_⟩
    cases hl'
    exact h.load l (freeing_some.mp hl).1
  | fail =>
    obtain ⟨l,hl,hst⟩ := map_eq_some_iff.mp hst
    obtain ⟨s,hs,rfl⟩ := lift_ok.mp hst
    exact h.of_keyspace (restoreBackups_keyspace hs) (by simp)
  | finish =>
    obtain ⟨l,hl,hst⟩ := map_eq_some_iff.mp hst
    obtain ⟨s,hs,rfl⟩ := lift_ok.mp hst
    exact h.of_keyspace (freeBackups_keyspace hs) (by simp)

end

end Undoable

/-- In a run whose steps are all safe for the backup, a load that fails at any point is
undone: the backups are put back, and every key has the value and the expire it had
before. During the load every key that can be sampled is one of the dataset being
loaded. -/
theorem failed_load_undone {cfg : Config} {as : List (LoadAct n)}
    (hg : (disklessLoad n cfg).Guarded (fun r a => r.undoSafe a = true) (disklessLoad n cfg).init as)
    (hr : (disklessLoad n cfg).run as = some (.ok r)) (hl : r.load = some l) :
    (∃ s, r.server.disklessLoadRestoreBackups l.backup = .ok s ∧
      s.logical = l.before.logical ∧ ∀ d, (s.db d).expires = (l.before.db d).expires) ∧
    (∀ d, ∀ key ∈ (r.server.db d).hotKeys, key ∈ (r.server.db d).dict) ∧
    ∀ d key, r.step (.sampleHotKey d key) ≠ some (.error (.main .rockPoolPopulate)) := by
  have hi : Undoable r := (disklessLoad n cfg).guarded_invariant (Undoable.init cfg)
    (fun _ _ _ hi hc hst => hi.step hc hst) hg hr
  have hinv := hi.load l hl
  refine ⟨hinv.restored,fun _ _ hk => hinv.mem_of_hot hk,fun d key hst => ?_⟩
  obtain ⟨l',_,hst⟩ := bind_eq_some_iff.mp hst
  rw [enabled_iff] at hst
  obtain ⟨⟨_,hk⟩,hst⟩ := hst
  rw [if_pos (hinv.mem_of_hot hk)] at hst
  cases hst

/-! A stream of other keys leaves a key alone, until memory is freed. -/

structure Apart (d : Fin (n+1)) (k : Sds) (s t : Server n) : Prop where
  keyspace : KeyspaceOnly s t
  init : t.alreadyInitHotKeys = s.alreadyInitHotKeys
  look : (t.db d).dict.lookup k = (s.db d).dict.lookup k
  hot : k ∈ (t.db d).hotKeys ↔ k ∈ (s.db d).hotKeys

lemma Apart.trans {d : Fin (n+1)} {k : Sds} {s t u : Server n} (h : Apart d k s t)
    (h' : Apart d k t u) : Apart d k s u :=
  ⟨h.keyspace.trans h'.keyspace,h'.init.trans h.init,h'.look.trans h.look,h'.hot.trans h.hot⟩

section
variable {s t : Server n} {d : Fin (n+1)} {key : Sds} {val : Robj}

section
variable (hs : s.rdbLoadKey d key val none = .ok t)
include hs

lemma rdbLoadKey_updDb :
    t = s.updDb d fun db => addHotKeyIfNeed s.alreadyInitHotKeys key (.mem val)
      { db with dict := db.dict.insert key (.mem val) } := by
  obtain ⟨u,hu,rfl⟩ := rdbLoadKey_ok.mp hs
  exact (dbAdd_ok.mp hu).2

lemma Apart.rdbLoadKey {k : Sds} (hne : k ≠ key) : Apart d k s t := by
  refine ⟨rdbLoadKey_keyspace hs,?_,?_,?_⟩
  · rw [rdbLoadKey_updDb hs]
    rfl
  · rw [rdbLoadKey_updDb hs,updDb_db,if_pos rfl,addHotKey_dict]
    exact lookup_insert_ne hne
  · rw [rdbLoadKey_updDb hs,updDb_db,if_pos rfl,mem_addHotKeyIfNeed_iff_of_ne _ hne]

lemma rdbLoadKey_self (hi : s.alreadyInitHotKeys = true) (hv : (DbVal.mem val).CanBeHot) :
    (t.db d).dict.lookup key = some (.mem val) ∧ key ∈ (t.db d).hotKeys := by
  rw [rdbLoadKey_updDb hs,updDb_db,if_pos rfl]
  constructor
  · rw [addHotKey_dict]
    exact lookup_insert _
  · simp [addHotKeyIfNeed,hi,hv.1,hv.2]

end

end

lemma step_key {key : Sds} (cfg : Config) (val : Robj) (hl : r.reading = some l)
    (hk : key ∉ (r.server.db l.db).dict) : ∃ s, r.server.rdbLoadKey l.db key val none = .ok s ∧
      (disklessLoad n cfg).step r (.key key val none) = some (.ok ⟨s,some l.countKey⟩) := by
  have hs : r.server.rdbLoadKey l.db key val none = .ok _ :=
    rdbLoadKey_ok.mpr ⟨_,dbAdd_ok.mpr ⟨hk,rfl⟩,rfl⟩
  refine ⟨_,hs,?_⟩
  change r.step (.key key val none) = _
  rw [DisklessLoad.step,hl,map_some,hs]
  rfl

lemma reading_of_keyspace {s : Server n} (hl : r.reading = some l)
    (hk : KeyspaceOnly r.server s) (m : Nat) :
    DisklessLoad.reading ⟨s,some { l with rdbLoadKeyCount := m }⟩ =
      some { l with rdbLoadKeyCount := m } := by
  obtain ⟨_,hf,hloop⟩ := reading_some.mp hl
  obtain ⟨db,b,rfl,_⟩ := hk
  exact reading_some.mpr ⟨rfl,hf,hloop⟩

lemma run_keys {k : Sds} {ks : List Sds} (cfg : Config) (val : Robj) (hl : r.reading = some l)
    (hks : ks.Nodup) (hk : k ∉ ks) (hfresh : ∀ x ∈ ks, x ∉ (r.server.db l.db).dict)
    (hne : ks ≠ []) (hlen : l.rdbLoadKeyCount + ks.length = CHECK_MEM_FOR_ROCK_MAX_TIMES) :
    ∃ s, (disklessLoad n cfg).runFrom r (ks.map fun x => .key x val none) =
        some (.ok ⟨s,some { l with rdbLoadKeyCount := 0, freeing := true }⟩) ∧
      Apart l.db k r.server s := by
  induction ks generalizing r l with
  | nil => exact absurd rfl hne
  | cons x ks ih =>
    rw [nodup_cons] at hks
    rw [mem_cons,not_or] at hk
    rw [length_cons] at hlen
    obtain ⟨s,hs,hst⟩ := step_key cfg val hl (hfresh x (by simp))
    have hx : Apart l.db k r.server s := .rdbLoadKey hs hk.1
    by_cases hnil : ks = []
    · subst hnil
      refine ⟨s,?_,hx⟩
      have hfull : l.rdbLoadKeyCount + 1 ≥ CHECK_MEM_FOR_ROCK_MAX_TIMES := by simpa using hlen.ge
      rw [Load.countKey,if_pos hfull] at hst
      exact ((disklessLoad n cfg).runFrom_cons_ok hst).mpr rfl
    have hpos := length_pos_iff.mpr hnil
    have hless : ¬ l.rdbLoadKeyCount + 1 ≥ CHECK_MEM_FOR_ROCK_MAX_TIMES := by omega
    rw [Load.countKey,if_neg hless] at hst
    have hfresh' : ∀ y ∈ ks, y ∉ (s.db l.db).dict := by
      intro y hy
      have hxy : y ≠ x := fun h => hks.1 (h ▸ hy)
      rw [← lookup_eq_none,(Apart.rdbLoadKey hs hxy).look,lookup_eq_none]
      exact hfresh y (by simp [hy])
    have hlen' : l.rdbLoadKeyCount + 1 + ks.length = CHECK_MEM_FOR_ROCK_MAX_TIMES := by omega
    obtain ⟨u,hu,ha⟩ := ih (reading_of_keyspace hl hx.keyspace (l.rdbLoadKeyCount + 1))
      hks.2 hk.2 hfresh' hnil hlen'
    exact ⟨u,((disklessLoad n cfg).runFrom_cons_ok hst).mpr hu,hx.trans ha⟩

lemma step_dump {s : Server n} {d : Fin (n+1)} {key : Sds} {o : Robj} (cfg : Config) (l : Load n)
    (hl : l.freeing = true) (hi : s.alreadyInitHotKeys = true)
    (hlook : s.look d key = some (.mem o)) (hhot : key ∈ (s.db d).hotKeys)
    (hwait : key ∉ (s.db d).rockKeys) (hne : key ≠ []) (ho : o.refcount = 1)
    (hser : serObject o = .ok buf) : ∃ t, s.dumpValToRock d key = .ok t ∧
      (disklessLoad n cfg).step ⟨s,some l⟩ (.dump d key) = some (.ok ⟨t,some l⟩) := by
  have hs : s.dumpValToRock d key = .ok _ :=
    dumpVal_ok.mpr ⟨o,buf,hlook,ho,hser,hne,hhot,rfl⟩
  have hsuit : isValueSuitForDumpRock (.mem o) = true := by
    simp [isValueSuitForDumpRock,serObject_not_stream hser,ho]
  refine ⟨_,hs,?_⟩
  change DisklessLoad.step ⟨s,some l⟩ (.dump d key) = _
  rw [look] at hlook
  rw [DisklessLoad.step,freeing_some.mpr ⟨rfl,hl⟩,bind_some,DisklessLoad.dump,hlook]
  dsimp only
  rw [if_pos ⟨hi,hsuit,hwait⟩,hs]
  rfl

lemma step_makeBackups (cfg : Config) (hload : r.load = none) (hloop : r.server.atLoop = true) :
    (disklessLoad n cfg).step r .makeBackups = some (.ok r.makeBackups) := by
  change r.step .makeBackups = _
  simp [DisklessLoad.step,hload,hloop]

lemma reading_makeBackups (hloop : r.server.atLoop = true) : r.makeBackups.reading =
    some ⟨r.server.disklessLoadMakeBackups.1,0,0,false,r.server⟩ :=
  reading_some.mpr ⟨rfl,rfl,hloop⟩

section
variable {cfg : Config} {k : Sds} {ks : List Sds} (h : (disklessLoad n cfg).Reachable r)
  (hload : r.load = none) (hloop : r.server.atLoop = true)
  (hi : r.server.alreadyInitHotKeys = true) (hks : ks.Nodup) (hk : k ∉ ks)
include h hload hloop hi hks hk

/-- A key of the old dataset is still in the index when memory is freed. Unless it is
loaded as well, the sample of the index ends the process. -/
theorem load_samples_old (val : Robj) (hhot : k ∈ (r.server.db 0).hotKeys)
    (hlen : ks.length = CHECK_MEM_FOR_ROCK_MAX_TIMES) :
    ∃ t, (disklessLoad n cfg).Reachable t ∧
      t.step (.sampleHotKey 0 k) = some (.error (.main .rockPoolPopulate)) := by
  have hne : ks ≠ [] := by
    rintro rfl
    cases hlen
  obtain ⟨s,hs,ha⟩ := run_keys cfg val (reading_makeBackups hloop) hks hk
    (fun x _ => notMem_empty x) hne (by simpa using hlen)
  refine ⟨_,(h.step (step_makeBackups cfg hload hloop)).runFrom hs,?_⟩
  have hn : k ∉ (s.db 0).dict := by
    rw [← lookup_eq_none,ha.look]
    rfl
  simp only [DisklessLoad.step,freeing,filter_some,if_true,bind_some]
  rw [if_pos ⟨ha.init.trans hi,ha.hot.mpr hhot⟩,if_neg hn]
  rfl

/-- A key of the old dataset that is on disk is loaded with another value. When the new
value is dumped the old one is gone, and a failure of the load does not bring it back. -/
theorem load_overwrites {o : Robj} (hdisk : r.server.look 0 k = some .valueInRock)
    (hwait : k ∉ (r.server.db 0).rockKeys) (hne : k ≠ []) (ho : o.refcount = 1)
    (hser : serObject o = .ok buf) (hlen : ks.length + 1 = CHECK_MEM_FOR_ROCK_MAX_TIMES) :
    ∃ t l s, (disklessLoad n cfg).Reachable t ∧ t.load = some l ∧ l.before = r.server ∧
      t.server.disklessLoadRestoreBackups l.backup = .ok s ∧
      s.logical 0 k = some (.ok o.content) := by
  have hcan : (DbVal.mem o).CanBeHot := by
    refine ⟨serObject_not_stream hser,?_⟩
    rw [ho]
    decide
  -- the key itself is the first one of the stream
  have hread := reading_makeBackups hloop
  obtain ⟨s,hs,hst⟩ := step_key cfg o hread (notMem_empty k)
  have h₁ := (h.step (step_makeBackups cfg hload hloop)).step hst
  obtain ⟨hlook,hhot⟩ := rdbLoadKey_self hs hi hcan
  -- then the others, until memory is freed
  have hks₀ : ks ≠ [] := by
    rintro rfl
    cases hlen
  have hfresh : ∀ x ∈ ks, x ∉ (s.db 0).dict := by
    intro x hx
    have hxk : x ≠ k := fun he => hk (he ▸ hx)
    rw [← lookup_eq_none,(Apart.rdbLoadKey hs hxk).look]
    rfl
  obtain ⟨u,hu,ha⟩ := run_keys cfg o
    (reading_of_keyspace hread (rdbLoadKey_keyspace hs) 1) hks hk hfresh hks₀
    (by dsimp only; omega)
  have h₂ := h₁.runFrom hu
  -- and the dump
  have hinit : u.alreadyInitHotKeys = true := by
    rw [ha.init,rdbLoadKey_updDb hs]
    exact hi
  have hrock : (u.db 0).rockKeys = (r.server.db 0).rockKeys := by
    obtain ⟨db,b,rfl,hdb⟩ := (rdbLoadKey_keyspace hs).trans ha.keyspace
    exact hdb 0
  obtain ⟨v,hv,hdump⟩ := step_dump cfg ⟨r.server.disklessLoadMakeBackups.1,0,0,true,r.server⟩ rfl
    hinit (ha.look.trans hlook) (ha.hot.mpr hhot) (hrock ▸ hwait) hne ho hser
  obtain ⟨o',buf',hlook',hser',_,_,hlookup⟩ := dumpVal_lookup hv
  cases hlook'.symm.trans (ha.look.trans hlook)
  have hcontent : v.rockContent k 0 = .ok o.content :=
    OnDisk.rockContent ⟨hne,o,buf',by simp [hlookup],hser',rfl⟩
  have hlazy : v.HotLazy := .dumpValToRock hinit hv
  -- the old dictionary stands for the new value
  obtain ⟨w,hw,hlogical,_⟩ := hlazy.disklessLoadRestoreBackups r.server.disklessLoadMakeBackups.1
  have hold : (r.server.disklessLoadMakeBackups.1 0).dict.lookup k = some .valueInRock := hdisk
  refine ⟨_,_,w,h₂.step hdump,rfl,rfl,hw,?_⟩
  rw [hlogical,hold,map_some,denote,hcontent]

end
end DisklessLoad

namespace Sample

/-- `k1` and `k2` are on disk, and no client waits. -/
def allStored : List (LoadAct 0) := stored.map .main

/-- `k1` is on disk, `k2` is in memory and hot. -/
def halfServed : List (Act 0) :=
  halfStored [ping] ++ [.nextCommand none [],.runProc false,.ret,.nextCommand none []]

def oneStored : List (LoadAct 0) := halfServed.map .main

def otherKeys (m : Nat) : List Sds := (List.range m).map fun i => [100,UInt8.ofNat i]

/-- The stream has other values for `k1` and `k2` and ends after them. -/
def brokenLoad : List (LoadAct 0) :=
  allStored ++ [.makeBackups,.key k1 (str 8) none,.key k2 (str 9) (some 5)]

end Sample

open Sample

namespace DisklessLoad

theorem failed_load_undone_broken : ∃ (r : DisklessLoad 0) (l : Load 0),
    (disklessLoad 0 Sample.config).run brokenLoad = some (.ok r) ∧ r.load = some l ∧
    r.server.logical 0 k1 = some (.ok (str 8).content) ∧
    ∃ s, r.server.disklessLoadRestoreBackups l.backup = .ok s ∧
      s.logical 0 k1 = some (.ok (str 1).content) := by
  obtain ⟨r,hr,hnew,hold⟩ := (disklessLoad 0 config).exists_run brokenLoad
    (fun r => r.server.logical 0 k1 = some (.ok (str 8).content) ∧
      (r.load.bind fun l => l.before.logical 0 k1) = some (.ok (str 1).content)) (by decide)
  obtain ⟨l,hl,hold⟩ := bind_eq_some_iff.mp hold
  obtain ⟨⟨s,hs,hlogical,_⟩,_⟩ :=
    failed_load_undone (Machine.guarded_check _ _ _ _ (by decide)) hr hl
  exact ⟨r,l,hr,hl,hnew,s,hs,by rw [hlogical,hold]⟩

/-- The dump of the loaded `k1` replaces the value of the old one, and in another run the
sample of the index finds a key that is not loaded. -/
theorem failed_load_not_undone : (∃ (r : DisklessLoad 0) (l : Load 0) (s : Server 0),
      (disklessLoad 0 Sample.config).Reachable r ∧ r.load = some l ∧
      r.server.disklessLoadRestoreBackups l.backup = .ok s ∧
      l.before.logical 0 k1 = some (.ok (str 1).content) ∧
      s.logical 0 k1 = some (.ok (str 9).content)) ∧
    ∃ r : DisklessLoad 0, (disklessLoad 0 Sample.config).Reachable r ∧
      r.step (.sampleHotKey 0 k2) = some (.error (.main .rockPoolPopulate)) := by
  constructor
  · obtain ⟨r,hr,hload,hloop,hi,hdisk,hwait,hold⟩ := (disklessLoad 0 config).exists_run allStored
      (fun r => r.load.isNone ∧ r.server.atLoop ∧ r.server.alreadyInitHotKeys ∧
        r.server.look 0 k1 = some .valueInRock ∧ k1 ∉ (r.server.db 0).rockKeys ∧
        r.server.logical 0 k1 = some (.ok (str 1).content)) (by decide)
    rw [isNone_iff_eq_none] at hload
    have hks : (otherKeys 29).Nodup := by decide
    obtain ⟨buf,hser⟩ : ∃ buf, serObject (str 9) = .ok buf := ⟨_,rfl⟩
    obtain ⟨t,l,s,ht,hl,hbefore,hs,hnew⟩ := load_overwrites ⟨_,hr⟩ hload hloop hi hks (by decide)
      hdisk hwait (by decide) rfl hser rfl
    exact ⟨t,l,s,ht,hl,hs,by rw [hbefore,hold],hnew⟩
  obtain ⟨r,hr,hload,hloop,hi,hhot⟩ := (disklessLoad 0 config).exists_run oneStored
    (fun r => r.load.isNone ∧ r.server.atLoop ∧ r.server.alreadyInitHotKeys ∧
      k2 ∈ (r.server.db 0).hotKeys) (by decide)
  rw [isNone_iff_eq_none] at hload
  have hks : (otherKeys 30).Nodup := by decide
  exact load_samples_old ⟨_,hr⟩ hload hloop hi hks (by decide) (str 0) hhot rfl

end DisklessLoad
end RedRock
