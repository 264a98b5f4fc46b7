import RedRock.DictScan
import RedRock.Protocol

/-!
SCAN over the keyspace: `scanGenericCommand` of `db.c` without an object. The keys of a few buckets
are collected, and then filtered by a pattern, by the type of the value and by expiry. The object
whose type is looked at is the one in the dictionary, which for a value on disk is
`shared.valueInRock`.
-/

namespace RedRock
open Lib List Option Except HashDict

/-- The type of a value; a module has a name for its own. -/
inductive KeyType where
  | string
  | list
  | set
  | zset
  | hash
  | stream
  | module (name : Bytes)
  deriving DecidableEq

/-- Streams are never dumped, and a module's value cannot be written. -/
def KeyType.dumpable : KeyType → Bool
  | .stream | .module _ => false
  | _ => true

/-- What `db->dict` has for a key. -/
inductive Resident where
  | valueInRock
  | mem (type : KeyType)
  deriving DecidableEq

/-- `shared.valueInRock` is a string that is encoded as an integer. -/
def Resident.type : Resident → KeyType
  | .valueInRock => .string
  | .mem t => t

def KeyType.name : KeyType → Bytes
  | .string => [115,116,114,105,110,103]
  | .list => [108,105,115,116]
  | .set => [115,101,116]
  | .zset => [122,115,101,116]
  | .hash => [104,97,115,104]
  | .stream => [115,116,114,101,97,109]
  | .module name => name

def getObjectTypeName : Option Resident → Bytes
  | none => [110,111,110,101]
  | some o => o.type.name

namespace HashDict
variable {κ α β : Type}

def findVal [DecidableEq κ] (chain : List (κ × α)) (key : κ) : Option α :=
  (chain.find? (·.1 = key)).map Prod.snd

def peek [DecidableEq κ] (hash : κ → BitVec 64) (d : HashDict κ α) (key : κ) : Option α :=
  if d.dictSize = 0 then none
  else (findVal (d.ht0.table (d.ht0.index (hash key))) key).or
    (if d.dictIsRehashing then findVal (d.ht1.table (d.ht1.index (hash key))) key else none)

end HashDict

/-- `expired` is `keyIsExpired` for the keys that are still there, `deleted` the keys that have been
expired since. `readonlyCaller` tells whether the client runs a command with `CMD_READONLY`. -/
structure ScanDb (α : Type) where
  table : HashDict Sds α
  expired : Sds → Bool
  replica : Bool
  readonlyCaller : Bool
  deleted : List Sds

namespace ScanDb
variable {α : Type} (hash : Sds → BitVec 64)

def lookupKey (db : ScanDb α) (key : Sds) : Option α :=
  if key ∈ db.deleted then none else db.table.peek hash key

/-- A replica does not delete the key. -/
def expireIfNeeded (db : ScanDb α) (key : Sds) : Bool × ScanDb α :=
  if key ∈ db.deleted ∨ db.expired key = false then (false,db)
  else if db.replica then (true,db)
  else ((db.table.peek hash key).isSome,{ db with deleted := key :: db.deleted })

def lookupKeyReadWithFlags (db : ScanDb α) (key : Sds) : Option α × ScanDb α :=
  match db.expireIfNeeded hash key with
  | (true,db) =>
    if ¬db.replica ∨ db.readonlyCaller then (none,db) else (db.lookupKey hash key,db)
  | (false,db) => (db.lookupKey hash key,db)

end ScanDb

structure ScanOptions where
  count : Int
  pat : Option Bytes
  typename : Option Bytes
  deriving DecidableEq

def scanSyntaxErr : String := "-ERR syntax error"

/-- The arguments after the cursor. A pattern `*` is no pattern. -/
def scanOptions : List Sds → ScanOptions → Except String ScanOptions
  | [], o => .ok o
  | [_], _ => .error scanSyntaxErr
  | opt :: val :: rest, o =>
    if strcasecmp opt [99,111,117,110,116] then
      match getLongFromObjectOrReply val with
      | .error e => .error e
      | .ok count =>
        if count < 1 then .error scanSyntaxErr else scanOptions rest { o with count := count }
    else if strcasecmp opt [109,97,116,99,104] then
      scanOptions rest { o with pat := if val = [42] then none else some val }
    else if strcasecmp opt [116,121,112,101] then scanOptions rest { o with typename := some val }
    else .error scanSyntaxErr

section
variable {α : Type}

/-- `do ... while (cursor && maxiterations-- && listLength(keys) < count)`. -/
def scanCollect (d : HashDict Sds α) (count : Nat) :
    Nat → BitVec 64 → List Sds → Except DictFault (List Sds × BitVec 64)
  | 0, cursor, keys => do
    let (es,cursor) ← d.dictScan cursor
    return (keys ++ es.map Prod.fst,cursor)
  | maxiterations+1, cursor, keys => do
    let (es,cursor) ← d.dictScan cursor
    if cursor ≠ 0 ∧ (keys ++ es.map Prod.fst).length < count then
      scanCollect d count maxiterations cursor (keys ++ es.map Prod.fst)
    else return (keys ++ es.map Prod.fst,cursor)

end

/-- `stringmatchlen` is the matching of patterns. -/
structure ScanEnv where
  hash : Sds → BitVec 64
  stringmatchlen : Bytes → Bytes → Bool

namespace ScanEnv
variable (env : ScanEnv)

def patMatches (o : ScanOptions) (key : Sds) : Bool := o.pat.all fun pat => env.stringmatchlen pat key

def typeMatches (o : ScanOptions) (db : ScanDb Resident) (key : Sds) : Bool × ScanDb Resident :=
  match o.typename with
  | none => (true,db)
  | some name =>
    let (o,db) := db.lookupKeyReadWithFlags env.hash key
    (strcasecmp name (getObjectTypeName o),db)

/-- Whether an element stays in the list, and the keyspace afterwards: looking at a key may expire
it. -/
def keepKey (o : ScanOptions) (db : ScanDb Resident) (key : Sds) : Bool × ScanDb Resident :=
  if env.patMatches o key = false then (false,db)
  else
    match env.typeMatches o db key with
    | (false,db) => (false,db)
    | (true,db) => (!(db.expireIfNeeded env.hash key).1,(db.expireIfNeeded env.hash key).2)

def scanFilter (o : ScanOptions) : List Sds → ScanDb Resident → List Sds
  | [], _ => []
  | key :: keys, db =>
    if (env.keepKey o db key).1 then key :: scanFilter o keys (env.keepKey o db key).2
    else scanFilter o keys (env.keepKey o db key).2

end ScanEnv

inductive ScanReply where
  | error (text : String)
  | keys (cursor : BitVec 64) (keys : List Sds)
  deriving DecidableEq

/-- `maxiterations` is a `long`, of which only the decrements matter. -/
def scanGenericCommand (env : ScanEnv) (db : ScanDb Resident) (cursor : BitVec 64)
    (argv : List Sds) : Except DictFault ScanReply :=
  match scanOptions argv ⟨10,none,none⟩ with
  | .error e => .ok (.error e)
  | .ok o => do
    let (keys,cursor) ← scanCollect db.table o.count.toNat (o.count * 10 % 2 ^ 64).toNat cursor []
    return .keys cursor (env.scanFilter o keys db)

namespace HashDict
variable {κ α β : Type}

def mapHt (f : κ → α → β) (t : Dictht κ α) : Dictht κ β :=
  ⟨fun i => (t.table i).map fun e => (e.1,f e.1 e.2),t.size,t.used⟩

def mapVal (f : κ → α → β) (d : HashDict κ α) : HashDict κ β :=
  ⟨mapHt f d.ht0,mapHt f d.ht1,d.rehashidx,d.iterators,d.canResize⟩

variable (f : κ → α → β)

lemma mapHt_bucket (t : Dictht κ α) (i : Nat) :
    (mapHt f t).bucket i = (t.bucket i).map fun es => es.map fun e => (e.1,f e.1 e.2) := by
  unfold Dictht.bucket
  by_cases h : i < t.allocated
  · rw [if_pos h]
    exact if_pos h
  rw [if_neg h]
  exact if_neg h

def mapScan (r : List (κ × α) × BitVec 64) : List (κ × β) × BitVec 64 :=
  (r.1.map fun e => (e.1,f e.1 e.2),r.2)

lemma scanLoop_mapHt (t : Dictht κ α) (m0 : BitVec 64) (fuel : Nat) (v : BitVec 64) :
    scanLoop (mapHt f t) m0 fuel v = (scanLoop t m0 fuel v).map (mapScan f) := by
  induction fuel generalizing v with
  | zero => rfl
  | succ fuel ih =>
    rw [scanLoop,scanLoop]
    have hb := mapHt_bucket f t (t.index v)
    change ((mapHt f t).bucket (t.index v) >>= _) = _
    rw [hb]
    cases t.bucket (t.index v) with
    | error e => rfl
    | ok chain =>
      change (if _ then _ else _) = Except.map _ (if _ then _ else _)
      by_cases hv : nextCursor (maskOf t) v &&& (m0 ^^^ maskOf t) = 0
      · rw [if_pos hv]
        exact (if_pos hv).trans rfl
      rw [if_neg hv]
      refine (if_neg hv).trans ?_
      change (scanLoop (mapHt f t) m0 fuel (nextCursor (maskOf t) v) >>= _) = _
      rw [ih]
      cases scanLoop t m0 fuel (nextCursor (maskOf t) v) with
      | error e => rfl
      | ok r =>
        change ok _ = ok _
        simp [mapScan]

lemma scanBoth_mapHt (t0 t1 : Dictht κ α) (v : BitVec 64) :
    scanBoth (mapHt f t0) (mapHt f t1) v = (scanBoth t0 t1 v).map (mapScan f) := by
  rw [scanBoth,scanBoth]
  have hb := mapHt_bucket f t0 (t0.index v)
  change ((mapHt f t0).bucket (t0.index v) >>= _) = _
  rw [hb]
  cases t0.bucket (t0.index v) with
  | error e => rfl
  | ok chain =>
    have hl := scanLoop_mapHt f t1 (maskOf t0) t1.size v
    change (scanLoop (mapHt f t1) (maskOf t0) t1.size v >>= _) =
      Except.map _ (scanLoop t1 (maskOf t0) t1.size v >>= _)
    rw [hl]
    cases scanLoop t1 (maskOf t0) t1.size v with
    | error e => rfl
    | ok r =>
      change ok _ = ok _
      simp [mapScan]

lemma dictScan_mapVal (d : HashDict κ α) (v : BitVec 64) :
    (mapVal f d).dictScan v = (d.dictScan v).map (mapScan f) := by
  unfold dictScan
  by_cases h0 : d.dictSize = 0
  · rw [if_pos h0]
    exact if_pos h0
  rw [if_neg h0]
  refine (if_neg h0).trans ?_
  by_cases hr : d.dictIsRehashing = true
  · have hn : ¬ ¬ d.dictIsRehashing = true := not_not_intro hr
    rw [if_neg hn]
    refine (if_neg hn).trans ?_
    by_cases hs : d.ht0.size > d.ht1.size
    · rw [if_pos hs]
      exact (if_pos hs).trans (scanBoth_mapHt f d.ht1 d.ht0 v)
    rw [if_neg hs]
    exact (if_neg hs).trans (scanBoth_mapHt f d.ht0 d.ht1 v)
  rw [if_pos hr]
  refine (if_pos hr).trans ?_
  have hb := mapHt_bucket f d.ht0 (d.ht0.index v)
  change ((mapHt f d.ht0).bucket (d.ht0.index v) >>= _) = _
  rw [hb]
  cases d.ht0.bucket (d.ht0.index v) with
  | error | ok => rfl

lemma findVal_map [DecidableEq κ] (chain : List (κ × α)) (key : κ) :
    findVal (chain.map fun e => (e.1,f e.1 e.2)) key = (findVal chain key).map (f key) := by
  unfold findVal
  induction chain with
  | nil => rfl
  | cons e chain ih =>
    by_cases he : e.1 = key
    · subst he
      simp
    simp only [map_cons,find?_cons,he,decide_false]
    exact ih

lemma peek_mapVal [DecidableEq κ] (hash : κ → BitVec 64) (d : HashDict κ α) (key : κ) :
    (mapVal f d).peek hash key = (d.peek hash key).map (f key) := by
  have h0 := findVal_map f (d.ht0.table (d.ht0.index (hash key))) key
  have h1 := findVal_map f (d.ht1.table (d.ht1.index (hash key))) key
  unfold peek
  by_cases hsize : d.dictSize = 0
  · rw [if_pos hsize]
    exact if_pos hsize
  rw [if_neg hsize]
  refine (if_neg hsize).trans ?_
  change (findVal (List.map _ (d.ht0.table (d.ht0.index (hash key)))) key).or
    (if d.dictIsRehashing then findVal (List.map _ (d.ht1.table (d.ht1.index (hash key)))) key
    else none) = _
  rw [h0,h1]
  cases findVal (d.ht0.table (d.ht0.index (hash key))) key with
  | some v => rfl
  | none =>
    simp only [map_none,none_or]
    split <;> rfl

end HashDict

lemma scanCollect_mapVal {α β : Type} (f : Sds → α → β) (d : HashDict Sds α)
    (count m : Nat) (cursor : BitVec 64) (keys : List Sds) :
    scanCollect (mapVal f d) count m cursor keys = scanCollect d count m cursor keys := by
  have hkeys (es : List (Sds × α)) :
      (es.map fun e => (e.1,f e.1 e.2)).map Prod.fst = es.map Prod.fst := by
    rw [List.map_map]
    rfl
  induction m generalizing cursor keys with
  | zero =>
    rw [scanCollect,scanCollect,dictScan_mapVal]
    cases d.dictScan cursor with
    | error e => rfl
    | ok r =>
      change ok (keys ++ (r.1.map fun e => (e.1,f e.1 e.2)).map Prod.fst,r.2) =
        ok (keys ++ r.1.map Prod.fst,r.2)
      rw [hkeys]
  | succ m ih =>
    rw [scanCollect,scanCollect,dictScan_mapVal]
    cases d.dictScan cursor with
    | error e => rfl
    | ok r =>
      change (if _ then _ else _) = (if _ then _ else _)
      simp only [hkeys,ih]

def stored (disk : Sds → Bool) (key : Sds) (t : KeyType) : Resident :=
  if disk key && t.dumpable then .valueInRock else .mem t

def ScanDb.withDisk (db : ScanDb KeyType) (disk : Sds → Bool) : ScanDb Resident :=
  ⟨mapVal (stored disk) db.table,db.expired,db.replica,db.readonlyCaller,db.deleted⟩

section
variable {env : ScanEnv} {disk : Sds → Bool} {o : ScanOptions} {db : ScanDb KeyType} {key : Sds}

section
variable (hash : Sds → BitVec 64)

lemma ScanDb.withDisk_lookupKey (db : ScanDb KeyType) (disk : Sds → Bool) (key : Sds) :
    (db.withDisk disk).lookupKey hash key = (db.lookupKey hash key).map (stored disk key) := by
  unfold lookupKey
  by_cases hd : key ∈ db.deleted
  · rw [if_pos hd]
    exact if_pos hd
  rw [if_neg hd]
  exact (if_neg hd).trans (peek_mapVal (stored disk) hash db.table key)

lemma ScanDb.withDisk_expire {hash : Sds → BitVec 64} {gone : Bool} {u : ScanDb KeyType}
    (disk : Sds → Bool) (h : db.expireIfNeeded hash key = (gone,u)) :
    (db.withDisk disk).expireIfNeeded hash key = (gone,u.withDisk disk) := by
  unfold expireIfNeeded at h ⊢
  by_cases hd : key ∈ db.deleted ∨ db.expired key = false
  · rw [if_pos hd] at h
    cases h
    exact if_pos hd
  rw [if_neg hd] at h
  refine (if_neg hd).trans ?_
  by_cases hr : db.replica = true
  · rw [if_pos hr] at h
    cases h
    exact if_pos hr
  rw [if_neg hr] at h
  cases h
  refine (if_neg hr).trans ?_
  have hp := peek_mapVal (stored disk) hash db.table key
  change ((peek hash (mapVal (stored disk) db.table) key).isSome,_) = _
  rw [hp,isSome_map]
  rfl

lemma ScanDb.expire_cases {α : Type} (db : ScanDb α) (key : Sds) :
    ((key ∈ db.deleted ∨ db.expired key = false) ∧ db.expireIfNeeded hash key = (false,db)) ∨
      (key ∉ db.deleted ∧ db.expired key = true ∧ db.replica = true ∧
        db.expireIfNeeded hash key = (true,db)) ∨
      (key ∉ db.deleted ∧ db.expired key = true ∧ db.replica = false ∧ db.expireIfNeeded hash key =
          ((db.table.peek hash key).isSome,{ db with deleted := key :: db.deleted })) := by
  unfold expireIfNeeded
  by_cases hd : key ∈ db.deleted ∨ db.expired key = false
  · exact .inl ⟨hd,if_pos hd⟩
  rw [if_neg hd]
  rw [not_or,Bool.not_eq_false] at hd
  by_cases hr : db.replica = true
  · exact .inr (.inl ⟨hd.1,hd.2,hr,if_pos hr⟩)
  · exact .inr (.inr ⟨hd.1,hd.2,Bool.eq_false_of_not_eq_true hr,if_neg hr⟩)

end

def ScanEnv.next (env : ScanEnv) (o : ScanOptions) (db : ScanDb KeyType) (key : Sds) :
    ScanDb KeyType :=
  if env.patMatches o key then (db.expireIfNeeded env.hash key).2 else db

def ScanEnv.liveMatches (env : ScanEnv) (disk : Sds → Bool) (o : ScanOptions)
    (db : ScanDb KeyType) (key : Sds) : Bool :=
  env.patMatches o key && o.typename.all fun name =>
    strcasecmp name (getObjectTypeName ((db.table.peek env.hash key).map (stored disk key)))

lemma ScanEnv.keepKey_eq {w u : ScanDb Resident} {val : Option Resident} {gone again : Bool}
    (hp : env.patMatches o key = true) (hexp : w.expireIfNeeded env.hash key = (gone,u))
    (hlook : w.lookupKeyReadWithFlags env.hash key = (val,u))
    (hagain : u.expireIfNeeded env.hash key = (again,u)) :
    env.keepKey o w key = (match o.typename with
      | none => !gone
      | some name => strcasecmp name (getObjectTypeName val) && !again,u) := by
  rw [keepKey,if_neg (by simp [hp]),typeMatches]
  cases o.typename with
  | none => simp [hexp]
  | some name =>
    simp only [hlook]
    cases strcasecmp name (getObjectTypeName val) with
    | false => rfl
    | true => simp [hagain]

lemma keepKey_live (h : db.expired key = false) (hd : key ∉ db.deleted) :
    env.keepKey o (db.withDisk disk) key =
      (env.liveMatches disk o db key,(env.next o db key).withDisk disk) := by
  have hexp : db.expireIfNeeded env.hash key = (false,db) := if_pos (.inr h)
  have hexp' := ScanDb.withDisk_expire disk hexp
  have hlook : (db.withDisk disk).lookupKeyReadWithFlags env.hash key =
      ((db.table.peek env.hash key).map (stored disk key),db.withDisk disk) := by
    rw [ScanDb.lookupKeyReadWithFlags,hexp']
    simp only
    rw [ScanDb.withDisk_lookupKey,ScanDb.lookupKey,if_neg hd]
  rw [ScanEnv.next,ScanEnv.liveMatches]
  cases hp : env.patMatches o key with
  | false => simp [ScanEnv.keepKey,hp]
  | true =>
    rw [ScanEnv.keepKey_eq hp hexp' hlook hexp',hexp]
    cases o.typename <;> simp

lemma keepKey_expired (env : ScanEnv) (o : ScanOptions) (h : db.expired key = true) :
    ∃ b : Bool, ∀ disk : Sds → Bool,
      env.keepKey o (db.withDisk disk) key = (b,(env.next o db key).withDisk disk) := by
  rw [ScanEnv.next]
  cases hp : env.patMatches o key with
  | false => exact ⟨false,fun disk => by simp [ScanEnv.keepKey,hp]⟩
  | true =>
    rcases db.expire_cases env.hash key with ⟨hd,hexp⟩ | ⟨hd,_,hr,hexp⟩ | ⟨hd,_,hr,hexp⟩
    · -- it was deleted before
      have hdel : key ∈ db.deleted := hd.resolve_right (by simp [h])
      refine ⟨o.typename.all fun name => strcasecmp name (getObjectTypeName none),fun disk => ?_⟩
      have hexp' := ScanDb.withDisk_expire disk hexp
      have hlook : (db.withDisk disk).lookupKeyReadWithFlags env.hash key =
          (none,db.withDisk disk) := by
        rw [ScanDb.lookupKeyReadWithFlags,hexp']
        exact Prod.ext (if_pos hdel) rfl
      rw [ScanEnv.keepKey_eq hp hexp' hlook hexp',hexp]
      cases o.typename <;> simp
    · -- a replica filters it, whatever its type
      refine ⟨false,fun disk => ?_⟩
      have hexp' := ScanDb.withDisk_expire disk hexp
      have hlook : ∃ val, (db.withDisk disk).lookupKeyReadWithFlags env.hash key =
          (val,db.withDisk disk) := by
        rw [ScanDb.lookupKeyReadWithFlags,hexp']
        simp only
        split <;> exact ⟨_,rfl⟩
      obtain ⟨val,hlook⟩ := hlook
      rw [ScanEnv.keepKey_eq hp hexp' hlook hexp',hexp]
      cases o.typename <;> simp
    -- a master deletes it
    obtain ⟨u,hu⟩ : ∃ u : ScanDb KeyType, u = { db with deleted := key :: db.deleted } := ⟨_,rfl⟩
    rw [← hu] at hexp
    have hdel : key ∈ u.deleted := by simp [hu]
    refine ⟨match o.typename with
      | none => !(db.table.peek env.hash key).isSome
      | some name => strcasecmp name (getObjectTypeName none),fun disk => ?_⟩
    have hexp' := ScanDb.withDisk_expire disk hexp
    have hlook : (db.withDisk disk).lookupKeyReadWithFlags env.hash key =
        (none,u.withDisk disk) := by
      rw [ScanDb.lookupKeyReadWithFlags,hexp']
      cases (db.table.peek env.hash key).isSome with
      | false => exact Prod.ext (if_pos hdel) rfl
      | true => simp [ScanDb.withDisk,hu,hr]
    rw [ScanEnv.keepKey_eq hp hexp' hlook (if_pos (.inl hdel)),hexp]
    cases o.typename <;> simp

def ScanDb.DeletedExpired (db : ScanDb KeyType) : Prop := ∀ key ∈ db.deleted, db.expired key = true

lemma next_expired : (env.next o db key).expired = db.expired := by
  unfold ScanEnv.next
  split
  · rcases db.expire_cases env.hash key with ⟨_,h⟩ | ⟨_,_,_,h⟩ | ⟨_,_,_,h⟩ <;> rw [h]
  · rfl

lemma next_table : (env.next o db key).table = db.table := by
  unfold ScanEnv.next
  split
  · rcases db.expire_cases env.hash key with ⟨_,h⟩ | ⟨_,_,_,h⟩ | ⟨_,_,_,h⟩ <;> rw [h]
  · rfl

lemma ScanDb.DeletedExpired.next (h : db.DeletedExpired) : (env.next o db key).DeletedExpired := by
  intro k hk
  rw [next_expired]
  unfold ScanEnv.next at hk
  split at hk
  · rcases db.expire_cases env.hash key with ⟨_,he⟩ | ⟨_,_,_,he⟩ | ⟨_,hx,_,he⟩
    · rw [he] at hk
      exact h k hk
    · rw [he] at hk
      exact h k hk
    rw [he] at hk
    rcases mem_cons.mp hk with rfl | hk
    · exact hx
    · exact h k hk
  · exact h k hk

lemma liveMatches_next {k : Sds} :
    env.liveMatches disk o (env.next o db key) k = env.liveMatches disk o db k := by
  unfold ScanEnv.liveMatches
  rw [next_table]

lemma mem_scanFilter {keys : List Sds} (hd : db.DeletedExpired) (h : db.expired key = false) :
    key ∈ env.scanFilter o keys (db.withDisk disk) ↔
      key ∈ keys ∧ env.liveMatches disk o db key = true := by
  induction keys generalizing db with
  | nil => simp [ScanEnv.scanFilter]
  | cons k keys ih =>
    have hnext : key ∈ env.scanFilter o keys ((env.next o db k).withDisk disk) ↔
        key ∈ keys ∧ env.liveMatches disk o db key = true := by
      rw [ih hd.next (by rw [next_expired]; exact h),liveMatches_next]
    by_cases hk : db.expired k = true
    · have hne : key ≠ k := by
        rintro rfl
        rw [h] at hk
        cases hk
      obtain ⟨b,hb⟩ := keepKey_expired env o hk
      simp only [ScanEnv.scanFilter,hb disk]
      cases b <;> simp [hnext,hne]
    rw [Bool.not_eq_true] at hk
    have hdel : k ∉ db.deleted := by
      intro hm
      rw [hd k hm] at hk
      cases hk
    simp only [ScanEnv.scanFilter,keepKey_live hk hdel]
    cases hm : env.liveMatches disk o db k with
    | false =>
      simp only [Bool.false_eq_true,if_false,hnext,mem_cons]
      constructor
      · rintro ⟨hin,hmatch⟩
        exact ⟨.inr hin,hmatch⟩
      rintro ⟨rfl | hin,hmatch⟩
      · rw [hm] at hmatch
        cases hmatch
      · exact ⟨hin,hmatch⟩
    | true =>
      simp only [if_true,mem_cons,hnext]
      constructor
      · rintro (rfl | ⟨hin,hmatch⟩)
        · exact ⟨.inl rfl,hm⟩
        · exact ⟨.inr hin,hmatch⟩
      rintro ⟨rfl | hin,hmatch⟩
      · exact .inl rfl
      · exact .inr ⟨hin,hmatch⟩

lemma scanFilter_congr {disk' : Sds → Bool} {keys : List Sds} (hd : db.DeletedExpired)
    (h : ∀ key ∈ keys, db.expired key = false →
      env.liveMatches disk o db key = env.liveMatches disk' o db key) :
    env.scanFilter o keys (db.withDisk disk) = env.scanFilter o keys (db.withDisk disk') := by
  induction keys generalizing db with
  | nil => rfl
  | cons k keys ih =>
    have hrest : env.scanFilter o keys ((env.next o db k).withDisk disk) =
        env.scanFilter o keys ((env.next o db k).withDisk disk') := by
      refine ih hd.next fun key hkey hexp => ?_
      rw [liveMatches_next,liveMatches_next]
      rw [next_expired] at hexp
      exact h key (mem_cons_of_mem k hkey) hexp
    by_cases hk : db.expired k = true
    · obtain ⟨b,hb⟩ := keepKey_expired env o hk
      simp only [ScanEnv.scanFilter,hb disk,hb disk',hrest]
    rw [Bool.not_eq_true] at hk
    have hdel : k ∉ db.deleted := by
      intro hm
      rw [hd k hm] at hk
      cases hk
    simp only [ScanEnv.scanFilter,keepKey_live hk hdel,h k mem_cons_self hk,hrest]

def SameFilter (name : Bytes) (t : KeyType) : Prop :=
  strcasecmp name t.name = strcasecmp name KeyType.string.name

lemma liveMatches_eq_iff : env.liveMatches disk o db key =
      env.liveMatches (fun _ => false) o db key ↔
    ∀ name t, o.typename = some name → env.patMatches o key = true →
      db.table.peek env.hash key = some t → disk key = true → t.dumpable = true →
        SameFilter name t := by
  unfold ScanEnv.liveMatches SameFilter
  cases hp : env.patMatches o key with
  | false => simp
  | true =>
    cases ht : o.typename with
    | none => simp
    | some name =>
      cases hl : db.table.peek env.hash key with
      | none => simp
      | some t =>
        by_cases hdisk : disk key = true ∧ t.dumpable = true
        · have hstored : stored disk key t = .valueInRock := by
            simp [stored,hdisk]
          have hmem : stored (fun _ => false) key t = .mem t := rfl
          simp only [Bool.true_and,all_some,map_some,hstored,hmem,getObjectTypeName,
            Resident.type,some.injEq]
          refine ⟨?_,fun h => (h name t rfl trivial rfl hdisk.1 hdisk.2).symm⟩
          rintro h _ _ rfl _ rfl _ _
          exact h.symm
        have hstored : stored disk key t = .mem t := by
          unfold stored
          rw [← Bool.and_eq_true] at hdisk
          rw [if_neg hdisk]
        have hmem : stored (fun _ => false) key t = .mem t := rfl
        rw [not_and] at hdisk
        simp only [Bool.true_and,all_some,map_some,hstored,hmem,some.injEq,true_iff]
        rintro _ _ rfl _ rfl h₁ h₂
        exact absurd h₂ (hdisk h₁)

end

/-- What the options of a call and its visit to the table ask of the keys on disk: a key that the
call visits, that matches the pattern and has not expired is seen under its type. -/
def ScanDb.SeenAsTheyAre (env : ScanEnv) (db : ScanDb KeyType) (disk : Sds → Bool)
    (cursor : BitVec 64) (argv : List Sds) : Prop :=
  ∀ o keys next, scanOptions argv ⟨10,none,none⟩ = .ok o →
    scanCollect db.table o.count.toNat (o.count * 10 % 2 ^ 64).toNat cursor [] = .ok (keys,next) →
    ∀ key ∈ keys, db.expired key = false → ∀ name t, o.typename = some name →
      env.patMatches o key = true → db.table.peek env.hash key = some t → disk key = true →
      t.dumpable = true → SameFilter name t

/-- SCAN replies as if all values were in memory iff every key on disk that the call visits is named
by the TYPE argument as a string or not at all, whenever it is as what it is. -/
theorem scan_type_iff (env : ScanEnv) (db : ScanDb KeyType) (disk : Sds → Bool)
    (cursor : BitVec 64) (argv : List Sds) (hd : db.deleted = []) :
    scanGenericCommand env (db.withDisk disk) cursor argv =
        scanGenericCommand env (db.withDisk fun _ => false) cursor argv ↔
      db.SeenAsTheyAre env disk cursor argv := by
  have hdel : db.DeletedExpired := by
    intro key hkey
    rw [hd] at hkey
    cases hkey
  have htable (disk : Sds → Bool) (count m : Nat) :
      scanCollect (db.withDisk disk).table count m cursor [] =
        scanCollect db.table count m cursor [] :=
    scanCollect_mapVal (stored disk) db.table count m cursor []
  unfold scanGenericCommand ScanDb.SeenAsTheyAre
  cases ho : scanOptions argv ⟨10,none,none⟩ with
  | error e => simp
  | ok o =>
    simp only [htable]
    cases hc : scanCollect db.table o.count.toNat (o.count * 10 % 2 ^ 64).toNat cursor [] with
    | error f =>
      refine ⟨fun _ o' keys next ho' hc' => ?_,fun _ => rfl⟩
      cases ho'
      rw [hc] at hc'
      cases hc'
    | ok r =>
      obtain ⟨keys,next⟩ := r
      change ok (ScanReply.keys next _) = ok (ScanReply.keys next _) ↔ _
      rw [ok.injEq,ScanReply.keys.injEq]
      constructor
      · rintro ⟨_,heq⟩ o' keys' next' ho' hc' key hkey hexp
        cases ho'
        rw [hc] at hc'
        cases hc'
        rw [← liveMatches_eq_iff,Bool.eq_iff_iff]
        have hdisk : key ∈ env.scanFilter o keys (db.withDisk disk) ↔
            key ∈ keys ∧ env.liveMatches disk o db key = true := mem_scanFilter hdel hexp
        rw [heq,mem_scanFilter hdel hexp] at hdisk
        simpa [hkey] using hdisk.symm
      · intro h
        refine ⟨rfl,scanFilter_congr hdel fun key hkey hexp => ?_⟩
        exact liveMatches_eq_iff.mpr (h o keys next rfl hc key hkey hexp)

def Sample.oneList : ScanDb KeyType where
  table := ⟨⟨fun i => if i = 0 then [([108],.list)] else [],4,1⟩,.reset,none,0,true⟩
  expired _ := false
  replica := false
  readonlyCaller := true
  deleted := []

def Sample.scanEnv : ScanEnv := ⟨fun _ => 0,fun _ _ => true⟩

def Sample.typeList : List Sds := [[116,121,112,101],[108,105,115,116]]

open Sample

theorem list_on_disk_not_scanned :
    scanGenericCommand Sample.scanEnv (Sample.oneList.withDisk fun _ => false) 0 Sample.typeList =
        .ok (.keys 0 [[108]]) ∧
      scanGenericCommand Sample.scanEnv (Sample.oneList.withDisk fun _ => true) 0 Sample.typeList =
        .ok (.keys 0 []) := by
  decide

def Sample.typeSet : List Sds := [[116,121,112,101],[115,101,116]]

theorem scan_type_set :
    scanGenericCommand Sample.scanEnv (Sample.oneList.withDisk fun _ => true) 0 Sample.typeSet =
      scanGenericCommand Sample.scanEnv (Sample.oneList.withDisk fun _ => false) 0
        Sample.typeSet := by
  refine (scan_type_iff scanEnv oneList (fun _ => true) 0 typeSet rfl).mpr ?_
  intro o keys next ho hc key hkey _ name t hname _ ht _ _
  have ho' : scanOptions typeSet ⟨10,none,none⟩ = .ok ⟨10,none,some [115,101,116]⟩ := by decide
  cases ho.symm.trans ho'
  cases hname
  have hc' : scanCollect oneList.table 10 100 0 [] = .ok ([[108]],0) := by decide
  cases hc.symm.trans hc'
  rw [mem_singleton] at hkey
  subst hkey
  have ht' : oneList.table.peek scanEnv.hash [108] = some .list := by decide
  cases ht.symm.trans ht'
  unfold SameFilter
  decide

end RedRock
