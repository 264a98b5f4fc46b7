import RedRock.SwapDb

/-!
Backups. The main thread takes a snapshot of every open RocksDB instance and then forks.
The child writes what its copy of the memory holds, and asks the service thread of the
main process for the values that are on disk, which reads them from the snapshots.
-/

namespace RedRock
open Lib List Option Server
variable {key : Sds} {val : DbVal}

structure Saved (n : Nat) where
  db : Fin (n+1)
  key : Sds
  val : Robj
  expire : Option Int

/-- `main` is a fault of the server's own steps; the others are the assertions of
`rocksdbapi_createSnapshots` and `rocksdbapi_read_from_snapshot`. -/
inductive BackupFault where
  | main (f : Fault)
  | snapshotExists
  | keyLen
  | noInstance
  | noSnapshot
  deriving DecidableEq

/-- `forking` is `redisFork` between the snapshots and the fork; `image` is the memory of
the child. -/
inductive ChildProcess (n : Nat) where
  | none
  | forking
  | saving (image : Server n) (todo : List (Fin (n+1) × Sds × DbVal)) (out : List (Saved n))
  | done (out : List (Saved n))
  | failed

def ChildProcess.isDone {n : Nat} : ChildProcess n → Bool
  | .done _ => true
  | _ => false

lemma ChildProcess.isDone_iff {n : Nat} {c : ChildProcess n} :
    c.isDone = true ↔ ∃ out, c = .done out := by
  cases c <;> simp [isDone]

structure Backup (n : Nat) where
  server : Server n
  opened : Fin (n+1) → Bool
  snapshots : Fin (n+1) → Option (Dict Sds Bytes)
  child : ChildProcess n

inductive BackupAct (n : Nat) where
  | main (a : Act n)
  | openIfNotExist (d : Fin (n+1))
  | createSnapshots
  | fork
  | save
  | exit

def Act.inRockThread {n : Nat} : Act n → Bool
  | .rockTake | .rockRead | .rockComplete | .rockSignal => true
  | _ => false

def Server.backupEntries {n : Nat} (s : Server n) : List (Fin (n+1) × Sds × DbVal) :=
  (finRange (n+1)).flatMap fun d => (s.db d).dict.entries.map fun e => (d,e.1,e.2)

namespace Backup
variable {n : Nat}

section
variable (r : Backup n)

/-- `rocksdbapi_write` opens the instance it writes to. -/
def openedAfter : Act n → Fin (n+1) → Bool
  | .dump d _ => Function.update r.opened d true
  | _ => r.opened

/-- Until the child is there, only the rock thread runs beside `redisFork`. -/
def permits (a : Act n) : Bool :=
  match r.child with
  | .forking => a.inRockThread
  | _ => true

def createSnapshots : Except BackupFault (Backup n) :=
  if ∃ d, (r.snapshots d).isSome then .error .snapshotExists
  else .ok { r with
    snapshots := fun d => if r.opened d then some (r.server.rocksdb d) else none
    child := .forking }

def rocksdbapiReadFromSnapshot (d : Fin (n+1)) (key : Sds) : Except BackupFault (Option Bytes) :=
  if key = [] then .error .keyLen
  else if r.opened d = false then .error .noInstance
  else
    match r.snapshots d with
    | none => .error .noSnapshot
    | some m => .ok (m.lookup key)

def loadValFromRockForRdb (image : Server n) (d : Fin (n+1)) (key : Sds) :
    Except BackupFault (Option Robj) :=
  (r.rocksdbapiReadFromSnapshot d key).map fun v =>
    v.bind fun buf => (desObject image.config buf).toOption

def rdbSaveKeyValuePair (image : Server n) (d : Fin (n+1)) (key : Sds)
    (val : DbVal) : Except BackupFault (Option (Saved n)) :=
  let expire := (image.db d).expires.lookup key
  match val with
  | .mem o => .ok (some ⟨d,key,o,expire⟩)
  | .valueInRock =>
    (r.loadValFromRockForRdb image d key).map fun o => o.map fun o => ⟨d,key,o,expire⟩

/-- One turn of the loops of `rdbSaveRio` and `rewriteAppendOnlyFileRio`. The child stops
when it gets no value, and the service with it. -/
def save : Option (Except BackupFault (Backup n)) :=
  match r.child with
  | .saving image ((d,key,val) :: todo) out =>
    some ((r.rdbSaveKeyValuePair image d key val).map fun
      | some e => { r with child := .saving image todo (out ++ [e]) }
      | none => { r with child := .failed, snapshots := fun _ => none })
  | .saving _ [] out => some (.ok { r with child := .done out })
  | _ => none

def exit : Option (Backup n) :=
  match r.child with
  | .saving _ _ _ | .done _ | .failed =>
    some { r with child := .none, snapshots := fun _ => none }
  | _ => none

end

def step (r : Backup n) : BackupAct n → Option (Except BackupFault (Backup n))
  | .main a =>
    if r.permits a then
      (r.server.step a).map fun x => (x.mapError .main).map fun s =>
        { r with server := s, opened := r.openedAfter a }
    else none
  | .openIfNotExist d => some (.ok { r with opened := Function.update r.opened d true })
  | .createSnapshots =>
    match r.child with
    | .none => some r.createSnapshots
    | _ => none
  | .fork =>
    match r.child with
    | .forking => some (.ok { r with child := .saving r.server r.server.backupEntries [] })
    | _ => none
  | .save => r.save
  | .exit => r.exit.map .ok

end Backup

/-- Only the RocksDB instance of database 0 is open from the beginning. -/
def backup (n : Nat) (cfg : Config) : Machine (Backup n) (BackupAct n) BackupFault where
  init := ⟨initServer n cfg,fun d => d = 0,fun _ => none,.none⟩
  step := Backup.step

def written {n : Nat} (out : List (Saved n)) (d : Fin (n+1)) (key : Sds) :
    Option (Content × Option Int) :=
  (out.find? fun e => e.db = d ∧ e.key = key).map fun e => (e.val.content,e.expire)

namespace Server
variable {n : Nat} (s : Server n)

def Restorable : Prop :=
  ∀ d key, s.look d key = some .valueInRock → ∃ val, s.restoreObjFromRocksdb d key = .ok val

lemma restorable_of_run {cfg : Config} {as : List (Act n)}
    (hops : ∀ o ∈ as.filterMap Act.effect, o.toStore.stays = true)
    (hr : (machine n cfg).run as = some (.ok s)) : s.Restorable := by
  intro d key hl
  have hd := (valueInv_of_run hops hr).2.holds d key
  rw [hl,optionRel_some] at hd
  obtain ⟨c,_,hR⟩ := hd
  obtain ⟨val,hv,_⟩ := OnDisk.restore hR
  exact ⟨val,hv⟩

def object (d : Fin (n+1)) (key : Sds) : DbVal → Except Fault Robj
  | .mem o => .ok o
  | .valueInRock => s.restoreObjFromRocksdb d key

lemma denote_eq (d : Fin (n+1)) (key : Sds) (val : DbVal) :
    s.denote key d val = (s.object d key val).map Robj.content := by
  cases val with
  | mem | valueInRock => rfl

lemma mem_backupEntries {d : Fin (n+1)} :
    (d,key,val) ∈ s.backupEntries ↔ s.look d key = some val := by
  rw [look,← mem_def,AList.mem_lookup_iff]
  simp only [backupEntries,mem_flatMap,mem_finRange,true_and,List.mem_map,Prod.mk.injEq]
  constructor
  · rintro ⟨e,⟨k,v⟩,he,rfl,rfl,rfl⟩
    exact he
  intro he
  exact ⟨d,⟨key,val⟩,he,rfl,rfl,rfl⟩

lemma restorable_iff :
    s.Restorable ↔ ∀ x ∈ s.backupEntries, ∃ o, s.object x.1 x.2.1 x.2.2 = .ok o := by
  constructor
  · rintro h ⟨d,key,val⟩ hx
    rw [mem_backupEntries] at hx
    cases val with
    | mem o => exact ⟨o,rfl⟩
    | valueInRock => exact h d key hx
  intro h d key hl
  exact h _ (s.mem_backupEntries.mpr hl)

structure SavedAs (x : Fin (n+1) × Sds × DbVal) (e : Saved n) : Prop where
  db : e.db = x.1
  key : e.key = x.2.1
  expire : e.expire = (s.db x.1).expires.lookup x.2.1
  val : s.object x.1 x.2.1 x.2.2 = .ok e.val

lemma written_eq {out : List (Saved n)} (h : Forall₂ s.SavedAs s.backupEntries out)
    (d : Fin (n+1)) (key : Sds) :
    (written out d key).map (fun w => ((.ok w.1 : Except Fault Content),w.2)) =
      (s.logical d key).map fun v => (v,(s.db d).expires.lookup key) := by
  rw [logical_eq,written]
  cases hf : out.find? fun e => e.db = d ∧ e.key = key with
  | none =>
    have hnone : s.look d key = none := by
      cases hl : s.look d key with
      | none => rfl
      | some val =>
        obtain ⟨e,he,hs⟩ := exists_right_of_forall₂ h (s.mem_backupEntries.mpr hl)
        have hne := find?_eq_none.mp hf e he
        simp [hs.db,hs.key] at hne
    simp [hnone]
  | some e =>
    have hp := find?_some hf
    simp only [decide_eq_true_eq] at hp
    obtain ⟨⟨d',key',val⟩,hx,hs⟩ := exists_left_of_forall₂ h (mem_of_find?_eq_some hf)
    have hd : d' = d := hs.db.symm.trans hp.1
    have hk : key' = key := hs.key.symm.trans hp.2
    subst hd hk
    rw [mem_backupEntries] at hx
    have hv : s.object d' key' val = .ok e.val := hs.val
    have he : e.expire = (s.db d').expires.lookup key' := hs.expire
    simp [hx,denote_eq,hv,he,Except.map]

end Server

namespace Backup
variable {n : Nat} {r t p f : Backup n} {image : Server n} {cfg : Config}
variable {todo : List (Fin (n+1) × Sds × DbVal)} {out : List (Saved n)} {d : Fin (n+1)} {a : Act n}
  {e : Saved n}

/-- The service answers from what RocksDB held when `image` was taken. -/
structure Serves (image : Server n) (r : Backup n) : Prop where
  found : ∀ d key buf, (image.rocksdb d).lookup key = some buf →
    r.opened d = true ∧ r.snapshots d = some (image.rocksdb d)
  only : ∀ d m, r.snapshots d = some m → m = image.rocksdb d

lemma Serves.congr (h : Serves image r) (ho : ∀ d, r.opened d = true → t.opened d = true)
    (hs : t.snapshots = r.snapshots) : Serves image t where
  found d key buf hl := by
    rw [hs]
    exact ⟨ho d (h.found d key buf hl).1,(h.found d key buf hl).2⟩
  only d m hm := h.only d m (hs ▸ hm)

lemma Serves.loadValFromRockForRdb (h : Serves image r) {o : Robj} :
    r.loadValFromRockForRdb image d key = .ok (some o) ↔
      image.restoreObjFromRocksdb d key = .ok o := by
  rw [restoreObj_ok]
  simp only [Backup.loadValFromRockForRdb,map_ok,bind_eq_some_iff]
  constructor
  · rintro ⟨v,hv,buf,rfl,hd⟩
    unfold rocksdbapiReadFromSnapshot at hv
    split at hv
    · cases hv
    rename_i hne
    split at hv
    · cases hv
    split at hv
    · cases hv
    rename_i m hm
    rw [h.only d m hm] at hv
    refine ⟨hne,buf,Except.ok.inj hv,?_⟩
    cases hb : desObject image.config buf with
    | error f =>
      rw [hb] at hd
      cases hd
    | ok o' =>
      rw [hb] at hd
      cases hd
      rfl
  rintro ⟨hne,buf,hl,hd⟩
  obtain ⟨ho,hs⟩ := h.found d key buf hl
  refine ⟨some buf,?_,buf,rfl,by rw [hd]; rfl⟩
  simp [rocksdbapiReadFromSnapshot,hne,ho,hs,hl]

lemma Serves.rdbSaveKeyValuePair (h : Serves image r) :
    r.rdbSaveKeyValuePair image d key val = .ok (some e) ↔ image.SavedAs (d,key,val) e := by
  obtain ⟨d',key',o,expire⟩ := e
  cases val with
  | mem o' =>
    simp only [Backup.rdbSaveKeyValuePair,Except.ok.injEq,some.injEq,Saved.mk.injEq]
    constructor
    · rintro ⟨rfl,rfl,rfl,rfl⟩
      exact ⟨rfl,rfl,rfl,rfl⟩
    rintro ⟨hd,hk,he,hv⟩
    exact ⟨hd.symm,hk.symm,Except.ok.inj hv,he.symm⟩
  | valueInRock =>
    simp only [Backup.rdbSaveKeyValuePair,map_ok,map_eq_some_iff,Saved.mk.injEq]
    constructor
    · rintro ⟨_,hl,o',rfl,rfl,rfl,rfl,rfl⟩
      exact ⟨rfl,rfl,rfl,h.loadValFromRockForRdb.mp hl⟩
    rintro ⟨hd,hk,he,hv⟩
    exact ⟨_,h.loadValFromRockForRdb.mpr hv,o,rfl,hd.symm,hk.symm,rfl,he.symm⟩

/-- Every entry of RocksDB is in an open instance, and the fork finds the snapshots as
they would be taken then. -/
structure BackupInv (r : Backup n) : Prop where
  opened : ∀ d key buf, (r.server.rocksdb d).lookup key = some buf → r.opened d = true
  forking : r.child = .forking → Serves r.server r

lemma BackupInv.init (cfg : Config) : BackupInv (backup n cfg).init where
  opened d key buf h := by simp [backup,initServer] at h
  forking h := by cases h

lemma data_of_rockThread {s u : Server n} (ha : a.inRockThread = true)
    (hst : s.step a = some (.ok u)) : u.rocksdb = s.rocksdb := by
  rcases (dataMove_of_step hst).rocksdb with hr | ⟨d,key,v,rfl,_⟩
  · exact hr
  · cases ha

lemma main_ok (hst : r.step (.main a) = some (.ok t)) :
    r.permits a = true ∧ ∃ s, r.server.step a = some (.ok s) ∧
      t = { r with server := s, opened := r.openedAfter a } := by
  simp only [step,ite_none_right_eq_some] at hst
  obtain ⟨x,hx,ht⟩ := map_eq_some_iff.mp hst.2
  obtain ⟨s,hs,rfl⟩ := map_ok.mp ht
  cases x with
  | error f => cases hs
  | ok s' =>
    cases hs
    exact ⟨hst.1,s,hx,rfl⟩

lemma exit_ok (h : r.exit = some t) :
    r.child ≠ .forking ∧ t = { r with child := .none, snapshots := fun _ => none } := by
  unfold exit at h
  split at h
  · rename_i hc
    cases h
    exact ⟨by simp [hc],rfl⟩
  · rename_i hc
    cases h
    exact ⟨by simp [hc],rfl⟩
  · rename_i hc
    cases h
    exact ⟨by simp [hc],rfl⟩
  · cases h

lemma save_cons (hc : r.child = .saving image ((d,key,val) :: todo) out) (hs : Serves image r)
    (he : image.SavedAs (d,key,val) e) :
    r.step .save = some (.ok { r with child := .saving image todo (out ++ [e]) }) := by
  simp only [step,save,hc,hs.rdbSaveKeyValuePair.mpr he]
  rfl

lemma save_nil (hc : r.child = .saving image [] out) :
    r.step .save = some (.ok { r with child := .done out }) := by
  simp only [step,save,hc]

lemma openedAfter_of_opened (h : r.opened d = true) : r.openedAfter a d = true := by
  cases a with
  | dump e key =>
    by_cases hd : d = e
    · simp [openedAfter,hd]
    · simpa [openedAfter,hd] using h
  | _ => exact h

lemma BackupInv.main (h : BackupInv r) (hst : r.step (.main a) = some (.ok t)) : BackupInv t := by
  obtain ⟨hperm,s,hs,rfl⟩ := main_ok hst
  constructor
  · intro d key buf hl
    change (s.rocksdb d).lookup key = some buf at hl
    change r.openedAfter a d = true
    rcases (dataMove_of_step hs).rocksdb with hr | ⟨e,k,u,rfl,_,hu,hr⟩
    · rw [hr] at hl
      exact openedAfter_of_opened (h.opened d key buf hl)
    obtain ⟨o,b,_,_,_,_,hlook⟩ := dumpVal_lookup hu
    rw [hr,hlook] at hl
    split at hl
    · rename_i hd
      simp [openedAfter,hd.1]
    · exact openedAfter_of_opened (h.opened d key buf hl)
  intro hc
  have hc' : r.child = .forking := hc
  have ha : a.inRockThread = true := by simpa [permits,hc'] using hperm
  have hr := data_of_rockThread ha hs
  refine Serves.congr (r := r) ?_ (fun d hd => openedAfter_of_opened hd) rfl
  have hserv := h.forking hc'
  constructor
  · intro d
    rw [hr]
    exact hserv.found d
  intro d
  rw [hr]
  exact hserv.only d

lemma BackupInv.step {a : BackupAct n} (h : BackupInv r) (hst : r.step a = some (.ok t)) :
    BackupInv t := by
  cases a with
  | main a => exact h.main hst
  | openIfNotExist d =>
    cases hst
    have hmono : ∀ e, r.opened e = true → Function.update r.opened d true e = true := by
      intro e he
      by_cases hd : e = d
      · simp [hd]
      · simpa [hd] using he
    exact ⟨fun e key buf hl => hmono e (h.opened e key buf hl),
      fun hc => (h.forking hc).congr hmono rfl⟩
  | createSnapshots =>
    simp only [Backup.step] at hst
    split at hst
    · rw [some.injEq,createSnapshots] at hst
      split at hst
      · cases hst
      cases hst
      refine ⟨h.opened,fun _ => ⟨fun d key buf hl => ?_,fun d m hm => ?_⟩⟩
      · exact ⟨h.opened d key buf hl,if_pos (h.opened d key buf hl)⟩
      simp only [enabled_iff] at hm
      exact hm.2.symm
    · cases hst
  | fork =>
    simp only [Backup.step] at hst
    split at hst
    · cases hst
      exact ⟨h.opened,fun hc => by cases hc⟩
    · cases hst
  | save =>
    simp only [Backup.step,Backup.save] at hst
    split at hst
    · obtain ⟨o,ho,ht⟩ := map_ok.mp (some.inj hst)
      cases o with
      | some e | none =>
        cases ht
        exact ⟨h.opened,fun hc => by cases hc⟩
    · cases hst
      exact ⟨h.opened,fun hc => by cases hc⟩
    · cases hst
  | exit =>
    obtain ⟨q,hq,ht⟩ := map_eq_some_iff.mp hst
    cases ht
    rcases exit_ok hq with ⟨_,rfl⟩
    exact ⟨h.opened,fun hc => by cases hc⟩

def Progress (image : Server n) (r : Backup n) : Prop :=
  match r.child with
  | .none => True
  | .saving im todo out => im = image ∧ Serves image r ∧
      ∃ finished, image.backupEntries = finished ++ todo ∧ Forall₂ image.SavedAs finished out
  | .done out => Forall₂ image.SavedAs image.backupEntries out
  | .forking | .failed => False

lemma Progress.congr (h : Progress image r) (hc : t.child = r.child)
    (ho : ∀ d, r.opened d = true → t.opened d = true) (hs : t.snapshots = r.snapshots) :
    Progress image t := by
  unfold Progress at h ⊢
  rw [hc]
  cases hr : r.child with
  | none => trivial
  | saving im todo out =>
    rw [hr] at h
    obtain ⟨him,hserv,hout⟩ := h
    exact ⟨him,hserv.congr ho hs,hout⟩
  | done out | forking | failed =>
    rw [hr] at h
    exact h

lemma Progress.step {a : BackupAct n} (himg : image.Restorable) (h : Progress image r)
    (ha : a ≠ .createSnapshots) (hst : r.step a = some (.ok t)) : Progress image t := by
  cases a with
  | main a =>
    obtain ⟨_,s,_,rfl⟩ := main_ok hst
    exact h.congr rfl (fun d hd => openedAfter_of_opened hd) rfl
  | openIfNotExist d =>
    cases hst
    refine h.congr rfl (fun e he => ?_) rfl
    by_cases hd : e = d
    · simp [hd]
    · simpa [hd] using he
  | createSnapshots => exact absurd rfl ha
  | fork =>
    simp only [Backup.step] at hst
    split at hst
    · rename_i hc
      simp [Progress,hc] at h
    · cases hst
  | save =>
    cases hc : r.child with
    | saving im todo out =>
      simp only [Progress,hc] at h
      obtain ⟨rfl,hserv,finished,hall,hout⟩ := h
      cases todo with
      | nil =>
        cases (save_nil hc).symm.trans hst
        rw [append_nil] at hall
        simpa [Progress,hall] using hout
      | cons x todo =>
        obtain ⟨d,key,val⟩ := x
        have hx : (d,key,val) ∈ im.backupEntries := by simp [hall]
        obtain ⟨o,ho⟩ := im.restorable_iff.mp himg _ hx
        have hsave : im.SavedAs (d,key,val) ⟨d,key,o,(im.db d).expires.lookup key⟩ :=
          ⟨rfl,rfl,rfl,ho⟩
        cases (save_cons hc hserv hsave).symm.trans hst
        refine ⟨rfl,hserv.congr (fun _ hd => hd) rfl,finished ++ [(d,key,val)],by simp [hall],?_⟩
        exact rel_append hout (.cons hsave .nil)
    | none | forking | done out | failed => simp [Backup.step,Backup.save,hc] at hst
  | exit =>
    obtain ⟨q,hq,ht⟩ := map_eq_some_iff.mp hst
    cases ht
    obtain ⟨_,rfl⟩ := exit_ok hq
    trivial

lemma run_save (hc : r.child = .saving image todo out) (hs : Serves image r)
    (hall : ∀ x ∈ todo, ∃ o, image.object x.1 x.2.1 x.2.2 = .ok o) :
    ∃ q out', (backup n cfg).runFrom r (replicate (todo.length + 1) .save) = some (.ok q) ∧
      q.child = .done out' := by
  induction todo generalizing r out with
  | nil =>
    have hst : (backup n cfg).step r .save = some (.ok { r with child := .done out }) := save_nil hc
    exact ⟨_,out,((backup n cfg).runFrom_cons_ok hst).mpr rfl,rfl⟩
  | cons x todo ih =>
    obtain ⟨d,key,val⟩ := x
    obtain ⟨o,ho⟩ := hall (d,key,val) (by simp)
    have hsave : image.SavedAs (d,key,val) ⟨d,key,o,(image.db d).expires.lookup key⟩ :=
      ⟨rfl,rfl,rfl,ho⟩
    obtain ⟨q,out',hq,hd⟩ := ih (r := { r with child := _ }) rfl (hs.congr (fun _ hd => hd) rfl)
      fun x hx => hall x (by simp [hx])
    have hst : (backup n cfg).step r .save = some (.ok { r with child := _ }) :=
      save_cons hc hs hsave
    exact ⟨q,out',((backup n cfg).runFrom_cons_ok hst).mpr hq,hd⟩

lemma object_of_run_save {q : Backup n} (hc : r.child = .saving image todo out)
    (hs : Serves image r)
    (hq : (backup n cfg).runFrom r (replicate (todo.length + 1) .save) = some (.ok q)) :
    ∀ x ∈ todo, ∃ o, image.object x.1 x.2.1 x.2.2 = .ok o := by
  induction todo generalizing r out with
  | nil => simp
  | cons x todo ih =>
    obtain ⟨d,key,val⟩ := x
    rw [length_cons,replicate_succ] at hq
    obtain ⟨t,ht,hq⟩ := (backup n cfg).runFrom_cons_inv hq
    have hst : r.save = some (.ok t) := ht
    simp only [save,hc,some.injEq] at hst
    obtain ⟨e,he,hst⟩ := map_ok.mp hst
    cases e with
    | none =>
      -- a child that has failed takes no further step
      cases hst
      obtain ⟨t',ht',_⟩ := (backup n cfg).runFrom_cons_inv hq
      cases ht'
    | some e =>
      cases hst
      have hsave := hs.rdbSaveKeyValuePair.mp he
      have hrest := ih (r := { r with child := _ }) rfl (hs.congr (fun _ hd => hd) rfl) hq
      intro x hx
      rcases mem_cons.mp hx with rfl | hx
      · exact ⟨e.val,hsave.val⟩
      · exact hrest x hx

lemma fork_ok (hf : p.step .fork = some (.ok f)) :
    p.child = .forking ∧ f = { p with child := .saving p.server p.server.backupEntries [] } := by
  simp only [step] at hf
  split at hf
  · rename_i hc
    cases hf
    exact ⟨hc,rfl⟩
  · cases hf

/-- Whatever the main process does after the fork, the child finds every value it asks
for, can always come to the end, and then has written every key with the value and the
expire of the moment of the fork: exactly if at that moment every value that is on disk
is found in the RocksDB instance of its database. -/
theorem backup_exact_iff (hp : (backup n cfg).Reachable p) (hf : p.step .fork = some (.ok f)) :
    (∀ as q, .createSnapshots ∉ as → (backup n cfg).runFrom f as = some (.ok q) →
      q.child ≠ .failed ∧ (∀ image todo out, q.child = .saving image todo out → ∃ q' out',
        (backup n cfg).runFrom q (replicate (todo.length + 1) .save) = some (.ok q') ∧
        q'.child = .done out') ∧
      ∀ out, q.child = .done out → ∀ d key,
        (written out d key).map (fun w => ((.ok w.1 : Except Fault Content),w.2)) =
          (p.server.logical d key).map fun v => (v,(p.server.db d).expires.lookup key)) ↔
    p.server.Restorable := by
  have hinv : BackupInv p :=
    (backup n cfg).invariant (BackupInv.init cfg) (fun _ _ _ hi hst => hi.step hst) hp
  obtain ⟨hc,rfl⟩ := fork_ok hf
  have hserv : Serves p.server { p with child := .saving p.server p.server.backupEntries [] } :=
    (hinv.forking hc).congr (fun _ hd => hd) rfl
  constructor
  · intro h
    obtain ⟨_,hrun,_⟩ := h [] _ (by simp) rfl
    obtain ⟨q,out,hq,_⟩ := hrun _ _ _ rfl
    rw [p.server.restorable_iff]
    exact object_of_run_save rfl hserv hq
  intro h as q has hq
  have hprog : Progress p.server q := by
    refine (backup n cfg).invariant_from (C := fun _ a => a ≠ .createSnapshots)
      (fun _ _ _ hi ha hst => hi.step h ha hst) as ?_ ?_ hq
    · exact ⟨rfl,hserv,[],rfl,.nil⟩
    · exact (backup n cfg).guarded_forall _ _ fun a ha _ he => has (he ▸ ha)
  unfold Progress at hprog
  refine ⟨fun hfail => ?_,fun image todo out hs => ?_,fun out hd d key => ?_⟩
  · rw [hfail] at hprog
    exact hprog
  · rw [hs] at hprog
    obtain ⟨rfl,hserv',finished,hall,_⟩ := hprog
    refine run_save hs hserv' fun x hx => p.server.restorable_iff.mp h x ?_
    rw [hall]
    exact mem_append_right _ hx
  rw [hd] at hprog
  exact p.server.written_eq hprog d key

end Backup

namespace Sample

/-- `k1` is dumped and `k2` is in memory, and the snapshots are taken. -/
def snapshotTaken : List (BackupAct 1) :=
  (halfStored [set k1 9,ping]).map .main ++ [.createSnapshots]

/-- After the fork `k1` is overwritten and dumped again. -/
def overwritten : List (Act 1) :=
  [.nextCommand none [],.op (.dbOverwrite 0 k1 (str 9)),.runProc false,.ret,.dump 0 k1]

/-- Only then does the child ask for it. -/
def afterFork : List (BackupAct 1) := overwritten.map .main ++ [.save,.save,.save]

/-- `k1` is dumped and then SWAPDB carries it to database 1. -/
def swapped : List (Act 1) :=
  halfStored [swapdb,ping] ++ [.nextCommand none [],.op (.swapdb 0 1),.runProc false,.ret]

end Sample

open Sample

namespace Backup

/-- The backup has the value of the moment of the fork. -/
theorem backup_exact_overwritten : ∃ p f q : Backup 1, ∃ out,
    (backup 1 Sample.config).run snapshotTaken = some (.ok p) ∧
    p.step .fork = some (.ok f) ∧
    (backup 1 Sample.config).runFrom f afterFork = some (.ok q) ∧ q.child = .done out ∧
    q.server.logical 0 k1 = some (.ok (str 9).content) ∧
    (written out 0 k1).map Prod.fst = some (str 1).content := by
  obtain ⟨q,hq,hobs⟩ := (backup 1 config).observed (snapshotTaken ++ .fork :: afterFork)
    (fun q => (q.child.isDone,q.server.logical 0 k1))
    (true,some (.ok (str 9).content)) (by decide)
  obtain ⟨p,hp,hrest⟩ := (backup 1 config).runFrom_append_inv hq
  obtain ⟨f,hf,hafter⟩ := (backup 1 config).runFrom_cons_inv hrest
  obtain ⟨p',hp',hobs'⟩ := (backup 1 config).observed snapshotTaken
    (fun p => ((p.server.backupEntries.all fun x => (p.server.object x.1 x.2.1 x.2.2).isOk),
      p.server.logical 0 k1)) (true,some (.ok (str 1).content)) (by decide)
  cases hp.symm.trans hp'
  obtain ⟨hdone,hlog⟩ := Prod.mk.inj hobs
  obtain ⟨hall,hlog'⟩ := Prod.mk.inj hobs'
  obtain ⟨out,hout⟩ := ChildProcess.isDone_iff.mp hdone
  have hrest : p.server.Restorable := by
    rw [p.server.restorable_iff]
    intro x hx
    exact isOk_iff.mp (all_eq_true.mp hall x hx)
  have hw := ((backup_exact_iff ⟨_,hp⟩ hf).mpr hrest _ _ (by simp [afterFork]) hafter).2.2
    out hout 0 k1
  refine ⟨p,f,q,out,hp,hf,hafter,hout,hlog,?_⟩
  rw [hlog'] at hw
  obtain ⟨w,hw,he⟩ := map_eq_some_iff.mp hw
  rw [hw]
  exact congrArg some (Except.ok.inj (Prod.mk.inj he).1)

/-- After SWAPDB the child asks for `k1` in a database without a RocksDB instance, and
the assertion of the service thread stops the server. -/
theorem backup_after_swapdb : ∃ p f : Backup 1, (backup 1 Sample.config).Reachable p ∧
    p.step .fork = some (.ok f) ∧ p.server.look 1 k1 = some .valueInRock ∧
    (backup 1 Sample.config).runFrom f [.save,.save] = some (.error .noInstance) := by
  obtain ⟨p,f,hp,hst,hobs⟩ := (backup 1 config).step_observed
    (swapped.map .main ++ [.createSnapshots]) .fork
    (fun f => (f.server.look 1 k1,
      ((backup 1 config).runFrom f [.save,.save]).map (Except.map fun _ => ())))
    (some .valueInRock,some (.error .noInstance)) (by decide)
  obtain ⟨hlook,herr⟩ := Prod.mk.inj hobs
  obtain ⟨_,rfl⟩ := fork_ok hst
  exact ⟨p,_,⟨_,hp⟩,hst,hlook,map_map_error_iff.mp herr⟩

end Backup
end RedRock
