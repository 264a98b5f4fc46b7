import RedRock.Quicklist
import RedRock.Protocol
import RedRock.Lib.Store

/-!
Keys with a time to live: the commands that set strings and expire times, and what each of
them hands on for the append only file. Keys that are found to be expired are deleted, and
the deletion is handed on as well.
-/

namespace RedRock
open Lib List

namespace Word

def set : Bytes := [115,101,116]
def setex : Bytes := [115,101,116,101,120]
def psetex : Bytes := [112,115,101,116,101,120]
def expire : Bytes := [101,120,112,105,114,101]
def pexpire : Bytes := [112,101,120,112,105,114,101]
def expireat : Bytes := [101,120,112,105,114,101,97,116]
def pexpireat : Bytes := [112,101,120,112,105,114,101,97,116]
def incrbyfloat : Bytes := [105,110,99,114,98,121,102,108,111,97,116]
def del : Bytes := [100,101,108]
def unlink : Bytes := [117,110,108,105,110,107]
def select : Bytes := [115,101,108,101,99,116]
def multi : Bytes := [109,117,108,116,105]
def exec : Bytes := [101,120,101,99]
def nx : Bytes := [110,120]
def xx : Bytes := [120,120]
def ex : Bytes := [101,120]
def px : Bytes := [112,120]
def keepttl : Bytes := [107,101,101,112,116,116,108]

def SET : Bytes := [83,69,84]
def DEL : Bytes := [68,69,76]
def UNLINK : Bytes := [85,78,76,73,78,75]
def KEEPTTL : Bytes := [75,69,69,80,84,84,76]
def PEXPIREAT : Bytes := [80,69,88,80,73,82,69,65,84]
def SELECT : Bytes := [83,69,76,69,67,84]

end Word

inductive PlainValue (V : Type) where
  | string (s : Bytes)
  | other (v : V)
  deriving DecidableEq

/-- An entry of `db->dict` with the one of `db->expires`, if there is one. -/
structure Volatile (V : Type) where
  value : PlainValue V
  expire : Option (BitVec 64)
  deriving DecidableEq

abbrev VolatileDbs (n : Nat) (V : Type) : Type := Store (Fin n) Bytes (Volatile V)

/-- A write command that is appended as it is: the keys that it looks up first, and what it
does to the databases at a time, unless it changes nothing. Arguments that are `relative` hold a
time that counts from the clock, as the one of RESTORE without ABSTTL. -/
structure OtherCommand (n : Nat) (V : Type) where
  keys : Fin n → List Bytes → List (Fin n × {k : Bytes // k.length < 2 ^ 63})
  relative : List Bytes → Bool
  proc : BitVec 64 → Fin n → List Bytes → VolatileDbs n V → Option (VolatileDbs n V)
  proc_eq {argv} : relative argv = false → ∀ t t' db d, proc t db argv d = proc t' db argv d

structure WriteTable (n : Nat) (V : Type) where
  other : Bytes → Option (OtherCommand n V)
  incrbyfloat : Option Bytes → Bytes → Option {s : Bytes // s.length < 2 ^ 63}

inductive WriteProc (n : Nat) (V : Type) where
  | set
  | setex
  | psetex
  | expire
  | pexpire
  | expireat
  | pexpireat
  | incrbyfloat
  | del
  | unlink
  | select
  | other (c : OtherCommand n V)

variable {n : Nat} {V : Type}

/-- `MULTI` and `EXEC` are not among the commands here. -/
def lookupWrite (tbl : WriteTable n V) (name : Bytes) : Option (WriteProc n V) :=
  if strcasecmp name Word.multi || strcasecmp name Word.exec then none
  else if strcasecmp name Word.set then some .set
  else if strcasecmp name Word.setex then some .setex
  else if strcasecmp name Word.psetex then some .psetex
  else if strcasecmp name Word.expire then some .expire
  else if strcasecmp name Word.pexpire then some .pexpire
  else if strcasecmp name Word.expireat then some .expireat
  else if strcasecmp name Word.pexpireat then some .pexpireat
  else if strcasecmp name Word.incrbyfloat then some .incrbyfloat
  else if strcasecmp name Word.del then some .del
  else if strcasecmp name Word.unlink then some .unlink
  else if strcasecmp name Word.select then some .select
  else (tbl.other name).map .other

/-- `masterhost`: the server is a replica. -/
structure CallEnv where
  mstime : BitVec 64
  loading : Bool
  masterhost : Bool
  lazyfreeLazyExpire : Bool
  deriving DecidableEq

structure Called (n : Nat) (V : Type) where
  dbs : VolatileDbs n V
  propagated : List (Fin n × List Bytes)

inductive WriteReply where
  | ok
  | null
  | integer (v : Int)
  | error (text : String)
  deriving DecidableEq

structure Replied (n : Nat) (V : Type) extends Called n V where
  reply : WriteReply

variable (e : CallEnv)

def CallEnv.delName : Bytes := if e.lazyfreeLazyExpire then Word.UNLINK else Word.DEL

variable (db : Fin n)

def keyIsExpired (key : Bytes) (d : VolatileDbs n V) : Bool :=
  match (d db key).bind Volatile.expire with
  | none => false
  | some when => decide (0 ≤ when.toInt) && !e.loading && decide (when.toInt < e.mstime.toInt)

def expireIfNeeded (key : Bytes) (d : VolatileDbs n V) : Called n V :=
  if keyIsExpired e db key d && !e.masterhost then ⟨d.set db key none,[(db,[e.delName,key])]⟩
  else ⟨d,[]⟩

inductive TimeUnit where
  | seconds
  | milliseconds
  deriving DecidableEq

def TimeUnit.millis (u : TimeUnit) (v : BitVec 64) : BitVec 64 :=
  match u with
  | .seconds => v * 1000
  | .milliseconds => v

structure SetArgs where
  nx : Bool
  xx : Bool
  keepttl : Bool
  expire : Option (TimeUnit × Bytes)
  deriving DecidableEq

def SetArgs.flag (f : SetArgs) (a : Bytes) : Option SetArgs :=
  if strcasecmp a Word.nx && !f.xx then some { f with nx := true }
  else if strcasecmp a Word.xx && !f.nx then some { f with xx := true }
  else if strcasecmp a Word.keepttl && f.expire.isNone then some { f with keepttl := true }
  else none

def SetArgs.time (f : SetArgs) (a next : Bytes) : Option SetArgs :=
  if strcasecmp a Word.ex && !f.keepttl && f.expire.all (·.1 = .seconds) then
    some { f with expire := some (.seconds,next) }
  else if strcasecmp a Word.px && !f.keepttl && f.expire.all (·.1 = .milliseconds) then
    some { f with expire := some (.milliseconds,next) }
  else none

def setOptions : SetArgs → List Bytes → Option SetArgs
  | f, [] => some f
  | f, [a] => f.flag a
  | f, a :: next :: rest =>
    match f.flag a with
    | some f => setOptions f (next :: rest)
    | none =>
      match f.time a next with
      | some f => setOptions f rest
      | none => none

def expireMillis (name : String) : Option (TimeUnit × Bytes) → Except String (Option (BitVec 64))
  | none => .ok none
  | some (unit,s) =>
    match string2ll s with
    | none => .error notAnInteger
    | some v =>
      if v ≤ 0 then .error ("-ERR invalid expire time in " ++ name)
      else .ok (some (unit.millis (BitVec.ofInt 64 v)))

/-- `name` is that of the command, `argv` is what is handed on. -/
def setGenericCommand (name : String) (e : CallEnv) (db : Fin n) (f : SetArgs) (key val : Bytes)
    (argv : List Bytes) (d : VolatileDbs n V) : Replied n V :=
  match expireMillis name f.expire with
  | .error text => ⟨⟨d,[]⟩,.error text⟩
  | .ok milliseconds =>
    let c := expireIfNeeded e db key d
    let old := c.dbs db key
    if f.nx && old.isSome || f.xx && old.isNone then ⟨c,.null⟩
    else
      -- an old value is overwritten in place and keeps its expire time unless that is removed
      let kept := if f.keepttl then old.bind Volatile.expire else none
      let expire := (milliseconds.map (e.mstime + ·)).or kept
      ⟨⟨c.dbs.set db key (some ⟨.string val,expire⟩),c.propagated ++ [(db,argv)]⟩,.ok⟩

/-- The table of commands refuses fewer arguments before. -/
def setCommand (argv : List Bytes) (d : VolatileDbs n V) : Replied n V :=
  match argv with
  | _ :: key :: val :: options =>
    match setOptions ⟨false,false,false,none⟩ options with
    | none => ⟨⟨d,[]⟩,.error "-ERR syntax error"⟩
    | some f => setGenericCommand "set" e db f key val argv d
  | _ => ⟨⟨d,[]⟩,.null⟩

def TimeUnit.setexName : TimeUnit → String
  | .seconds => "setex"
  | .milliseconds => "psetex"

def setexGenericCommand (unit : TimeUnit) (e : CallEnv) (db : Fin n) (argv : List Bytes)
    (d : VolatileDbs n V) : Replied n V :=
  match argv with
  | [_,key,time,val] =>
    setGenericCommand unit.setexName e db ⟨false,false,false,some (unit,time)⟩ key val argv d
  | _ => ⟨⟨d,[]⟩,.null⟩

/-- A time in the past deletes the key, except while loading and on a replica. -/
def expireGenericCommand (basetime : BitVec 64) (unit : TimeUnit) (e : CallEnv) (db : Fin n)
    (argv : List Bytes) (d : VolatileDbs n V) : Replied n V :=
  match argv with
  | [_,key,param] =>
    match string2ll param with
    | none => ⟨⟨d,[]⟩,.error notAnInteger⟩
    | some v =>
      let when := unit.millis (BitVec.ofInt 64 v) + basetime
      let c := expireIfNeeded e db key d
      match c.dbs db key with
      | none => ⟨c,.integer 0⟩
      | some old =>
        if when.toInt ≤ e.mstime.toInt && !e.loading && !e.masterhost then
          ⟨⟨c.dbs.set db key none,c.propagated ++ [(db,[e.delName,key])]⟩,.integer 1⟩
        else
          ⟨⟨c.dbs.set db key (some { old with expire := some when }),
            c.propagated ++ [(db,argv)]⟩,.integer 1⟩
  | _ => ⟨⟨d,[]⟩,.null⟩

/-- The call is handed on as `SET key value KEEPTTL`. -/
def incrbyfloatCommand (tbl : WriteTable n V) (e : CallEnv) (db : Fin n) (argv : List Bytes)
    (d : VolatileDbs n V) : Called n V :=
  match argv with
  | [_,key,incr] =>
    let c := expireIfNeeded e db key d
    let store (old : Option Bytes) (expire : Option (BitVec 64)) : Called n V :=
      match tbl.incrbyfloat old incr with
      | none => c
      | some new =>
        ⟨c.dbs.set db key (some ⟨.string new.val,expire⟩),
          c.propagated ++ [(db,[Word.SET,key,new.val,Word.KEEPTTL])]⟩
    match c.dbs db key with
    | none => store none none
    | some ⟨.string old,expire⟩ => store (some old) expire
    | some ⟨.other _,_⟩ => c
  | _ => ⟨d,[]⟩

def delKeys (e : CallEnv) (db : Fin n) :
    List Bytes → VolatileDbs n V → VolatileDbs n V × List (Fin n × List Bytes) × Bool
  | [], d => (d,[],false)
  | key :: keys, d =>
    let c := expireIfNeeded e db key d
    let (d',propagated,deleted) := delKeys e db keys (c.dbs.set db key none)
    (d',c.propagated ++ propagated,(c.dbs db key).isSome || deleted)

def delGenericCommand (argv : List Bytes) (d : VolatileDbs n V) : Called n V :=
  let (d',propagated,deleted) := delKeys e db argv.tail d
  ⟨d',propagated ++ if deleted then [(db,argv)] else []⟩

def expireKeys (e : CallEnv) :
    List (Fin n × {k : Bytes // k.length < 2 ^ 63}) → VolatileDbs n V → Called n V
  | [], d => ⟨d,[]⟩
  | (db,key) :: keys, d =>
    let c := expireIfNeeded e db key.val d
    let c' := expireKeys e keys c.dbs
    ⟨c'.dbs,c.propagated ++ c'.propagated⟩

def otherCommand (o : OtherCommand n V) (e : CallEnv) (db : Fin n) (argv : List Bytes)
    (d : VolatileDbs n V) : Called n V :=
  let c := expireKeys e (o.keys db argv) d
  match o.proc e.mstime db argv c.dbs with
  | none => c
  | some d' => ⟨d',c.propagated ++ [(db,argv)]⟩

def WriteProc.proc (tbl : WriteTable n V) (cmd : WriteProc n V) (e : CallEnv) (db : Fin n)
    (argv : List Bytes) (d : VolatileDbs n V) : Called n V :=
  match cmd with
  | .set => (setCommand e db argv d).toCalled
  | .setex => (setexGenericCommand .seconds e db argv d).toCalled
  | .psetex => (setexGenericCommand .milliseconds e db argv d).toCalled
  | .expire => (expireGenericCommand e.mstime .seconds e db argv d).toCalled
  | .pexpire => (expireGenericCommand e.mstime .milliseconds e db argv d).toCalled
  | .expireat => (expireGenericCommand 0 .seconds e db argv d).toCalled
  | .pexpireat => (expireGenericCommand 0 .milliseconds e db argv d).toCalled
  | .incrbyfloat => incrbyfloatCommand tbl e db argv d
  | .del | .unlink => delGenericCommand e db argv d
  | .select => ⟨d,[]⟩
  | .other o => otherCommand o e db argv d

def callWrite (tbl : WriteTable n V) (e : CallEnv) (db : Fin n) (argv : List Bytes)
    (d : VolatileDbs n V) : Called n V :=
  match lookupWrite tbl (argv.headD []) with
  | none => ⟨d,[]⟩
  | some cmd => cmd.proc tbl e db argv d

lemma callWrite_eq {tbl : WriteTable n V} {name : Bytes} {cmd : WriteProc n V}
    (h : lookupWrite tbl name = some cmd) (e : CallEnv) (db : Fin n) (args : List Bytes)
    (d : VolatileDbs n V) :
    callWrite tbl e db (name :: args) d = cmd.proc tbl e db (name :: args) d := by
  rw [callWrite,headD_cons,h]

lemma expire_loading {e : CallEnv} (h : e.loading = true) (db : Fin n) (key : Bytes)
    (d : VolatileDbs n V) : expireIfNeeded e db key d = ⟨d,[]⟩ := by
  have hk : keyIsExpired e db key d = false := by
    unfold keyIsExpired
    split
    · rfl
    · simp [h]
  rw [expireIfNeeded,hk]
  rfl

def clearKeys (keys : List Bytes) (d : VolatileDbs n V) : VolatileDbs n V :=
  fun i k => if i = db ∧ k ∈ keys then none else d i k

lemma clearKeys_cons (key : Bytes) (keys : List Bytes) (d : VolatileDbs n V) :
    clearKeys db keys (d.set db key none) = clearKeys db (key :: keys) d := by
  funext i k
  simp only [clearKeys,Store.set,mem_cons]
  grind

lemma expireIfNeeded_cases (key : Bytes) (d : VolatileDbs n V) :
    expireIfNeeded e db key d = ⟨d.set db key none,[(db,[e.delName,key])]⟩ ∨
      expireIfNeeded e db key d = ⟨d,[]⟩ := by
  unfold expireIfNeeded
  split
  · exact .inl rfl
  · exact .inr rfl

lemma expire_set_none (key : Bytes) (d : VolatileDbs n V) :
    (expireIfNeeded e db key d).dbs.set db key none = d.set db key none := by
  rcases expireIfNeeded_cases e db key d with h | h <;> rw [h]
  exact d.set_set db key none none

lemma delKeys_dbs (keys : List Bytes) (d : VolatileDbs n V) :
    (delKeys e db keys d).1 = clearKeys db keys d := by
  induction keys generalizing d with
  | nil =>
    funext i k
    simp [delKeys,clearKeys]
  | cons key keys ih =>
    simp only [delKeys,ih,expire_set_none]
    exact clearKeys_cons db key keys d

end RedRock
