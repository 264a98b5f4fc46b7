import RedRock.CheckRock

/-!
The keyspace functions of `db.c` and `lazyfree.c` with their hot key hooks, and
the dump of `rock_hotkey.c`.
-/

namespace RedRock
open Lib Function

def addHotKeyIfNeed (alreadyInit : Bool) (key : Sds) (val : DbVal) (db : RedisDb) : RedisDb :=
  if !alreadyInit then db
  else match val with
    | .valueInRock => db
    | .mem o =>
      if o.type = .stream ∨ o.refcount = OBJ_SHARED_REFCOUNT then
        { db with hotKeys := db.hotKeys.erase key }
      else { db with hotKeys := insert key db.hotKeys }

def deleteHotKeyIfNeed (alreadyInit : Bool) (key : Sds) (db : RedisDb) : RedisDb :=
  if !alreadyInit then db else { db with hotKeys := db.hotKeys.erase key }

def addHotKeys (es : List (Sigma fun _ : Sds => DbVal)) (db : RedisDb) : RedisDb :=
  es.foldl (fun db e => addHotKeyIfNeed true e.1 e.2 db) db

def isValueSuitForDumpRock : DbVal → Bool
  | .valueInRock => false
  | .mem o => decide (o.type ≠ .stream) && decide (o.refcount = 1)

/-- `dbAsyncDelete` and SWAPDB change a dictionary without a hook. -/
def KsOp.hasHook {n : Nat} : KsOp n → Bool
  | .dbAsyncDelete _ _ | .swapdb _ _ => false
  | _ => true

namespace Server
variable {n : Nat}

def clearHotKeysWhenEmptyDb (s : Server n) (d : Fin (n+1)) : Except Fault (Server n) :=
  if !s.alreadyInitHotKeys then do
    serverAssert ((s.db d).hotKeys = ∅) .clearHotKeysWhenEmptyDb
    return s
  else if (s.db d).hotKeys = ∅ then .ok s
  else
    let s := s.updDb d fun db => { db with hotKeys := ∅ }
    if ∀ i, (s.db i).hotKeys = ∅ then .ok { s with alreadyInitHotKeys := false } else .ok s

/-- `initHotKeys` as called from `dumpValueToRockIfNeeded`, after
`alreadyInitHotKeys` is set. -/
def initHotKeys (s : Server n) : Except Fault (Server n) := do
  serverAssert (∀ d, (s.db d).hotKeys = ∅) .initHotKeys
  let db := fun d => addHotKeys (s.db d).dict.entries (s.db d)
  serverAssert (∃ d, (db d).hotKeys ≠ ∅) .noHotKeys
  return { s with alreadyInitHotKeys := true, db := db }

def dumpValToRock (s : Server n) (d : Fin (n+1)) (key : Sds) : Except Fault (Server n) :=
  match (s.db d).dict.lookup key with
  | some (.mem o) => do
    serverAssert (o.refcount = 1) .dumpValToRock
    let buf ← serObject o
    serverAssert (key ≠ []) .rocksdbKeyLen
    serverAssert (key ∈ (s.db d).hotKeys) .dumpNotHot
    let s := { s with rocksdb := update s.rocksdb d ((s.rocksdb d).insert key buf) }
    return s.updDb d fun db =>
      { db with dict := db.dict.insert key .valueInRock, hotKeys := db.hotKeys.erase key }
  | _ => .error .dumpValToRock

def dbAdd (s : Server n) (d : Fin (n+1)) (key : Sds) (val : DbVal) : Except Fault (Server n) := do
  serverAssert (key ∉ (s.db d).dict) .dbAdd
  return s.updDb d fun db =>
    addHotKeyIfNeed s.alreadyInitHotKeys key val { db with dict := db.dict.insert key val }

def dbOverwrite (s : Server n) (d : Fin (n+1)) (key : Sds) (val : DbVal) :
    Except Fault (Server n) := do
  serverAssert (key ∈ (s.db d).dict) .dbOverwrite
  return s.updDb d fun db =>
    addHotKeyIfNeed s.alreadyInitHotKeys key val { db with dict := db.dict.insert key val }

section
variable (s : Server n)

section
variable (d : Fin (n+1))

def dbSyncDelete (key : Sds) : Server n :=
  s.updDb d fun db =>
    let db := deleteHotKeyIfNeed s.alreadyInitHotKeys key { db with expires := db.expires.erase key }
    { db with dict := db.dict.erase key }

def dbAsyncDelete (key : Sds) : Server n :=
  s.updDb d fun db => { db with expires := db.expires.erase key, dict := db.dict.erase key }

def dbDelete (key : Sds) : Server n :=
  let s := s.updDb d (deleteHotKeyIfNeed s.alreadyInitHotKeys key)
  if s.config.lazyfreeLazyServerDel then s.dbAsyncDelete d key else s.dbSyncDelete d key

def setExpire (key : Sds) (when : Option Int) : Server n :=
  match when with
  | none => s
  | some t => s.updDb d fun db => { db with expires := db.expires.insert key t }

/-- The body of the loop of `emptyDbGeneric`; the asynchronous variant differs
only in who frees the old dictionaries. -/
def emptyOneDb : Except Fault (Server n) := do
  let s ← s.clearHotKeysWhenEmptyDb d
  return s.updDb d fun db => { db with dict := ∅, expires := ∅ }

def emptyDbs (s : Server n) : List (Fin (n+1)) → Except Fault (Server n)
  | [] => .ok s
  | d :: ds => do
    let s ← s.emptyOneDb d
    s.emptyDbs ds

def emptyDb (dbnum : Option (Fin (n+1))) : Except Fault (Server n) :=
  match dbnum with
  | some d => s.emptyDbs [d]
  | none => s.emptyDbs (List.finRange (n+1))

def renameGeneric (src dst : Sds) (nx : Bool) : Except Fault (Server n) :=
  match (s.db d).dict.lookup src with
  | none => .ok s
  | some o =>
    if src = dst then .ok s
    else
      let expire := (s.db d).expires.lookup src
      if dst ∈ (s.db d).dict ∧ nx then .ok s
      else do
        let s := if dst ∈ (s.db d).dict then s.dbDelete d dst else s
        let s ← s.dbAdd d dst o
        return (s.setExpire d dst expire).dbDelete d src

def moveGeneric (src dst : Fin (n+1)) (key : Sds) : Except Fault (Server n) :=
  if src = dst then .ok s
  else match (s.db src).dict.lookup key with
    | none => .ok s
    | some o =>
      if key ∈ (s.db dst).dict then .ok s
      else do
        let expire := (s.db src).expires.lookup key
        let s ← s.dbAdd dst key o
        return (s.setExpire dst key expire).dbDelete src key

/-- `dbSwapDatabases`: the dictionaries change places, `rockKeys`, `hotKeys` and
the RocksDB instance stay with the database id. -/
def dbSwapDatabases (i j : Fin (n+1)) : Server n :=
  if i = j then s
  else
    let dbi := { s.db i with dict := (s.db j).dict, expires := (s.db j).expires }
    let dbj := { s.db j with dict := (s.db i).dict, expires := (s.db i).expires }
    { s with db := update (update s.db i dbi) j dbj }

/-- A command changes in place only an object it found in memory and does not
share, and it does not change its type. -/
def canModify (key : Sds) (o : Robj) : Bool :=
  match (s.db d).dict.lookup key with
  | some (.mem old) => decide (old.refcount = 1 ∧ o.refcount = 1 ∧ o.type = old.type)
  | _ => false

end

def applyOp : KsOp n → Except Fault (Server n)
  | .dbAdd d key o => s.dbAdd d key (.mem o)
  | .dbOverwrite d key o => s.dbOverwrite d key (.mem o)
  | .modify d key o => .ok (s.updDb d fun db => { db with dict := db.dict.insert key (.mem o) })
  | .dbSyncDelete d key => .ok (s.dbSyncDelete d key)
  | .dbAsyncDelete d key => .ok (s.dbAsyncDelete d key)
  | .dbDelete d key => .ok (s.dbDelete d key)
  | .emptyDb dbnum _ => s.emptyDb dbnum
  | .rename d src dst nx => s.renameGeneric d src dst nx
  | .move src dst key => s.moveGeneric src dst key
  | .swapdb i j => .ok (s.dbSwapDatabases i j)

def opEnabled : KsOp n → Bool
  | .modify d key o => s.canModify d key o
  | _ => true

end

def KeyspaceOnly (s t : Server n) : Prop :=
  ∃ db b, t = { s with db := db, alreadyInitHotKeys := b } ∧
    ∀ d, (db d).rockKeys = (s.db d).rockKeys

namespace KeyspaceOnly
variable {s t u : Server n}

lemma refl (s : Server n) : KeyspaceOnly s s := ⟨s.db,s.alreadyInitHotKeys,rfl,fun _ => rfl⟩

lemma trans (h : KeyspaceOnly s t) (h' : KeyspaceOnly t u) : KeyspaceOnly s u := by
  obtain ⟨db,b,rfl,hk⟩ := h
  obtain ⟨db',b',rfl,hk'⟩ := h'
  exact ⟨db',b',rfl,fun d => (hk' d).trans (hk d)⟩

lemma updDb (s : Server n) (d : Fin (n+1)) {f : RedisDb → RedisDb}
    (hf : ∀ db, (f db).rockKeys = db.rockKeys) : KeyspaceOnly s (s.updDb d f) := by
  refine ⟨_,s.alreadyInitHotKeys,rfl,fun e => ?_⟩
  by_cases h : e = d
  · subst h
    simp [hf]
  · simp [h]

end KeyspaceOnly

section
variable {s t : Server n} {d : Fin (n+1)} {key : Sds} {val : DbVal}
variable {ds : List (Fin (n+1))} {src dst : Fin (n+1)} {nx : Bool}

lemma addHotKey_rockKeys (b : Bool) (db : RedisDb) :
    (addHotKeyIfNeed b key val db).rockKeys = db.rockKeys := by
  unfold addHotKeyIfNeed
  repeat' split
  all_goals rfl

lemma addHotKey_dict (b : Bool) (db : RedisDb) :
    (addHotKeyIfNeed b key val db).dict = db.dict := by
  unfold addHotKeyIfNeed
  repeat' split
  all_goals rfl

lemma addHotKeys_rockKeys (es : List (Sigma fun _ : Sds => DbVal)) (db : RedisDb) :
    (addHotKeys es db).rockKeys = db.rockKeys := by
  induction es generalizing db with
  | nil => rfl
  | cons e es ih => exact (ih _).trans (addHotKey_rockKeys true db)

lemma addHotKeys_dict (es : List (Sigma fun _ : Sds => DbVal)) (db : RedisDb) :
    (addHotKeys es db).dict = db.dict := by
  induction es generalizing db with
  | nil => rfl
  | cons e es ih => exact (ih _).trans (addHotKey_dict true db)

lemma deleteHotKey_rockKeys (b : Bool) (db : RedisDb) :
    (deleteHotKeyIfNeed b key db).rockKeys = db.rockKeys := by
  unfold deleteHotKeyIfNeed
  split <;> rfl

lemma deleteHotKey_dict (b : Bool) (db : RedisDb) :
    (deleteHotKeyIfNeed b key db).dict = db.dict := by
  unfold deleteHotKeyIfNeed
  split <;> rfl

lemma dbAdd_ok : s.dbAdd d key val = .ok t ↔ key ∉ (s.db d).dict ∧ t = s.updDb d fun db =>
      addHotKeyIfNeed s.alreadyInitHotKeys key val { db with dict := db.dict.insert key val } := by
  simp only [dbAdd,assert_ok,pure_ok]

lemma dbOverwrite_ok : s.dbOverwrite d key val = .ok t ↔ key ∈ (s.db d).dict ∧
    t = s.updDb d fun db =>
      addHotKeyIfNeed s.alreadyInitHotKeys key val { db with dict := db.dict.insert key val } := by
  simp only [dbOverwrite,assert_ok,pure_ok]

lemma initHotKeys_ok : s.initHotKeys = .ok t ↔ (∀ d, (s.db d).hotKeys = ∅) ∧
    (∃ d, (addHotKeys (s.db d).dict.entries (s.db d)).hotKeys ≠ ∅) ∧
    t = { s with alreadyInitHotKeys := true
                 db := fun d => addHotKeys (s.db d).dict.entries (s.db d) } := by
  simp only [initHotKeys,assert_ok,pure_ok]

lemma dbDelete_eq (s : Server n) (d : Fin (n+1)) (key : Sds) :
    s.dbDelete d key = s.dbSyncDelete d key := by
  unfold dbDelete dbAsyncDelete dbSyncDelete deleteHotKeyIfNeed
  cases hi : s.alreadyInitHotKeys with
  | true | false => simp [updDb,hi]

lemma clearHotKeys_ok (h : s.clearHotKeysWhenEmptyDb d = .ok t) : ∃ b,
    t = { s.updDb d fun db => { db with hotKeys := ∅ } with alreadyInitHotKeys := b } ∧
    (b = s.alreadyInitHotKeys ∨ b = false ∧ ∀ i, (t.db i).hotKeys = ∅) := by
  have hempty : (s.db d).hotKeys = ∅ → s.updDb d (fun db => { db with hotKeys := ∅ }) = s := by
    intro he
    unfold updDb
    rw [← he,update_eq_self]
  unfold clearHotKeysWhenEmptyDb at h
  split at h
  · simp only [assert_ok,pure_ok] at h
    exact ⟨_,by rw [hempty h.1,h.2],.inl rfl⟩
  split at h
  · rename_i he
    cases h
    exact ⟨_,by rw [hempty he],.inl rfl⟩
  simp only at h
  split at h
  · rename_i he
    cases h
    exact ⟨false,rfl,.inr ⟨rfl,he⟩⟩
  cases h
  exact ⟨_,rfl,.inl rfl⟩

lemma emptyOneDb_ok (h : s.emptyOneDb d = .ok t) : ∃ b,
    t = { s.updDb d fun db => { db with hotKeys := ∅, dict := ∅, expires := ∅ } with
          alreadyInitHotKeys := b } ∧
    (b = s.alreadyInitHotKeys ∨ b = false ∧ ∀ i, (t.db i).hotKeys = ∅) := by
  obtain ⟨u,hu,ht⟩ := bind_ok.mp h
  obtain ⟨b,rfl,hb⟩ := clearHotKeys_ok hu
  cases ht
  refine ⟨b,by simp [updDb],hb.imp_right fun ⟨hf,he⟩ => ⟨hf,fun i => ?_⟩⟩
  by_cases hi : i = d
  · subst hi
    simp [updDb]
  · simpa [updDb,hi] using he i

/-- What a property of the server has to survive to survive every operation that
goes through these functions. -/
structure KeptByOps (I : Server n → Prop) : Prop where
  dbAdd : ∀ {s t d key val}, I s → s.dbAdd d key val = .ok t → I t
  dbOverwrite : ∀ {s t d key} {o : Robj}, I s → s.dbOverwrite d key (.mem o) = .ok t → I t
  dbSyncDelete : ∀ {s} (d key), I s → I (s.dbSyncDelete d key)
  setExpire : ∀ {s} (d key when), I s → I (s.setExpire d key when)
  emptyOneDb : ∀ {s t d}, I s → s.emptyOneDb d = .ok t → I t

namespace KeptByOps
variable {I : Server n → Prop} (hI : KeptByOps I)
include hI

lemma dbDelete (h : I s) (d : Fin (n+1)) (key : Sds) : I (s.dbDelete d key) := by
  rw [dbDelete_eq]
  exact hI.dbSyncDelete d key h

lemma renameGeneric {src dst : Sds} (h0 : I s) (h : s.renameGeneric d src dst nx = .ok t) :
    I t := by
  unfold Server.renameGeneric at h
  split at h
  · cases h
    exact h0
  split at h
  · cases h
    exact h0
  simp only at h
  split at h
  · cases h
    exact h0
  obtain ⟨u,hu,ht⟩ := bind_ok.mp h
  cases ht
  have hd : I (if dst ∈ (s.db d).dict then s.dbDelete d dst else s) := by
    split
    · exact hI.dbDelete h0 d dst
    · exact h0
  exact hI.dbDelete (hI.setExpire d dst _ (hI.dbAdd hd hu)) d src

lemma moveGeneric (h0 : I s) (h : s.moveGeneric src dst key = .ok t) : I t := by
  unfold Server.moveGeneric at h
  split at h
  · cases h
    exact h0
  split at h
  · cases h
    exact h0
  split at h
  · cases h
    exact h0
  obtain ⟨u,hu,ht⟩ := bind_ok.mp h
  cases ht
  exact hI.dbDelete (hI.setExpire dst key _ (hI.dbAdd h0 hu)) src key

lemma emptyDbs (h0 : I s) (h : s.emptyDbs ds = .ok t) : I t := by
  induction ds generalizing s with
  | nil =>
    cases h
    exact h0
  | cons d ds ih =>
    obtain ⟨u,hu,ht⟩ := bind_ok.mp h
    exact ih (hI.emptyOneDb h0 hu) ht

lemma applyOp {o : KsOp n} (h0 : I s) (ho : o.hasHook = true)
    (hm : ∀ d key o', o = .modify d key o' →
      I (s.updDb d fun db => { db with dict := db.dict.insert key (.mem o') }))
    (h : s.applyOp o = .ok t) : I t := by
  cases o with
  | dbAdd d key o => exact hI.dbAdd h0 h
  | dbOverwrite d key o => exact hI.dbOverwrite h0 h
  | modify d key o =>
    cases h
    exact hm d key o rfl
  | dbSyncDelete d key =>
    cases h
    exact hI.dbSyncDelete d key h0
  | dbAsyncDelete d key => cases ho
  | dbDelete d key =>
    cases h
    exact hI.dbDelete h0 d key
  | emptyDb dbnum async =>
    cases dbnum with
    | none | some d => exact hI.emptyDbs h0 h
  | rename d src dst nx => exact hI.renameGeneric h0 h
  | move src dst key => exact hI.moveGeneric h0 h
  | swapdb i j => cases ho

end KeptByOps

lemma clearHotKeys_keyspace (h : s.clearHotKeysWhenEmptyDb d = .ok t) : KeyspaceOnly s t := by
  obtain ⟨b,rfl,_⟩ := clearHotKeys_ok h
  exact .trans (.updDb s d (f := fun db => { db with hotKeys := ∅ }) fun _ => rfl)
    ⟨_,b,rfl,fun _ => rfl⟩

lemma dbAdd_keyspace (h : s.dbAdd d key val = .ok t) : KeyspaceOnly s t := by
  rw [(dbAdd_ok.mp h).2]
  exact .updDb s d fun _ => addHotKey_rockKeys _ _

lemma setExpire_keyspace (s : Server n) (d : Fin (n+1)) (key : Sds) (when : Option Int) :
    KeyspaceOnly s (s.setExpire d key when) := by
  cases when with
  | none => exact .refl s
  | some t => exact .updDb s d (f := fun db => { db with expires := _ }) fun _ => rfl

lemma keyspaceOnly_keptByOps (s : Server n) : KeptByOps (KeyspaceOnly s) where
  dbAdd h hu := h.trans (dbAdd_keyspace hu)
  dbOverwrite h hu := by
    rw [(dbOverwrite_ok.mp hu).2]
    exact h.trans (.updDb _ _ fun _ => addHotKey_rockKeys _ _)
  dbSyncDelete d key h := h.trans (.updDb _ d fun _ => deleteHotKey_rockKeys _ _)
  setExpire d key when h := h.trans (setExpire_keyspace _ d key when)
  emptyOneDb h hu := by
    obtain ⟨u,hv,ht⟩ := bind_ok.mp hu
    cases ht
    exact (h.trans (clearHotKeys_keyspace hv)).trans (.updDb u _ fun _ => rfl)

lemma emptyDbs_keyspace (h : s.emptyDbs ds = .ok t) : KeyspaceOnly s t :=
  (keyspaceOnly_keptByOps s).emptyDbs (.refl s) h

lemma swapDb_db (s : Server n) {i j : Fin (n+1)} (hij : i ≠ j) (d : Fin (n+1)) :
    (s.dbSwapDatabases i j).db d =
      if d = j then { s.db j with dict := (s.db i).dict, expires := (s.db i).expires }
      else if d = i then { s.db i with dict := (s.db j).dict, expires := (s.db j).expires }
      else s.db d := by
  simp [dbSwapDatabases,hij,update_apply]

lemma swapDb_eq (s : Server n) (i j : Fin (n+1)) :
    s.dbSwapDatabases i j = { s with db := (s.dbSwapDatabases i j).db } := by
  unfold dbSwapDatabases
  split
  · rfl
  · rfl

lemma forall_swapDb {P : Fin (n+1) → RedisDb → Prop} {i j : Fin (n+1)} (h : ∀ d, P d (s.db d))
    (hi : P i { s.db i with dict := (s.db j).dict, expires := (s.db j).expires })
    (hj : P j { s.db j with dict := (s.db i).dict, expires := (s.db i).expires })
    (d : Fin (n+1)) : P d ((s.dbSwapDatabases i j).db d) := by
  by_cases hij : i = j
  · simp only [dbSwapDatabases,hij,if_true]
    exact h d
  rw [swapDb_db s hij]
  split
  · rename_i hd
    exact hd ▸ hj
  split
  · rename_i hd
    exact hd ▸ hi
  · exact h d

lemma op_keyspace {o : KsOp n} (h : s.applyOp o = .ok t) : KeyspaceOnly s t := by
  cases o with
  | dbAsyncDelete d key =>
    cases h
    exact .updDb s d fun _ => rfl
  | swapdb i j =>
    cases h
    refine ⟨_,_,swapDb_eq s i j,?_⟩
    exact forall_swapDb (P := fun d db => db.rockKeys = (s.db d).rockKeys) (fun _ => rfl) rfl rfl
  | _ =>
    refine (keyspaceOnly_keptByOps s).applyOp (.refl s) rfl ?_ h
    intros
    exact .updDb s _ fun _ => rfl

lemma dumpVal_ok : s.dumpValToRock d key = .ok t ↔ ∃ o buf,
    (s.db d).dict.lookup key = some (.mem o) ∧ o.refcount = 1 ∧ serObject o = .ok buf ∧
    key ≠ [] ∧ key ∈ (s.db d).hotKeys ∧
    t = ({ s with rocksdb := update s.rocksdb d ((s.rocksdb d).insert key buf) }).updDb d
      fun db => { db with dict := db.dict.insert key .valueInRock,
                          hotKeys := db.hotKeys.erase key } := by
  unfold dumpValToRock
  split
  · rename_i o ho
    rw [assert_ok,bind_ok,ho]
    constructor
    · rintro ⟨hr,buf,hb,h⟩
      simp only [assert_ok,pure_ok] at h
      exact ⟨o,buf,rfl,hr,hb,h⟩
    rintro ⟨o',buf,ho',hr,hb,h⟩
    cases ho'
    refine ⟨hr,buf,hb,?_⟩
    simpa only [assert_ok,pure_ok] using h
  rename_i hno
  simp only [reduceCtorEq,false_iff]
  rintro ⟨o,_,ho,_⟩
  exact hno o ho

end
end Server
end RedRock
