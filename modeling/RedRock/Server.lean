import RedRock.Lib.Dict
import RedRock.Serdes

/-!
The data model: databases, commands, clients, the one-place job slot shared with
the rock thread, and the control stack of the main thread. A server has `n+1`
databases. `rockJob.dbid == -1` is `dbid = none`.
-/

namespace RedRock
open Lib

/-- A value of `db->dict`: an object in memory, or `shared.valueInRock`. -/
inductive DbVal where
  | valueInRock
  | mem (o : Robj)
  deriving DecidableEq

structure RedisDb where
  dict : Dict Sds DbVal
  expires : Dict Sds Int
  rockKeys : Dict Sds (List ClientId)
  hotKeys : Finset Sds

def RedisDb.empty : RedisDb := ⟨∅,∅,∅,∅⟩

inductive CheckRockProc where
  | oneKey
  | excludeLastArg
  | allKeys
  | excludeFirstArg
  | zstore
  | migrate
  deriving DecidableEq, Repr

/-- The command procedures that steer the protocol; EVAL and EVALSHA are `eval`. -/
inductive Proc where
  | multi
  | exec
  | discard
  | watch
  | eval
  | other
  deriving DecidableEq, Repr

structure RedisCommand where
  proc : Proc
  checkRockProc : Option CheckRockProc
  write : Bool
  readonlyOrAdmin : Bool
  deriving DecidableEq

/-- A command with its argument vector; `argv[0]` is the command name. -/
structure Command where
  cmd : RedisCommand
  argv : List Sds
  deriving DecidableEq

structure Client (n : Nat) where
  db : Fin (n+1)
  multi : Bool
  dirtyExec : Bool
  mstate : List Command
  current : Option Command
  rockKeyNumber : Nat
  querybuf : List Command
  reply : List String
  deriving DecidableEq

def createClient (n : Nat) : Client n := ⟨0,false,false,[],none,0,[],[]⟩

structure RockJob (n : Nat) where
  dbid : Option (Fin (n+1))
  workKey : Option Sds
  returnKey : Option Sds
  valInRock : Option Robj
  alreadyFinishedByScript : Bool
  deriving DecidableEq

/-- Where the rock thread stands in `_haveRockJobThenDoJobInRockThread`: before
`_getRockWork`, before the read, before the result is stored under the lock, and
before the byte is written to the pipe. -/
inductive RockThread (n : Nat) where
  | idle
  | took (dbid : Fin (n+1)) (key : Sds)
  | loaded (dbid : Fin (n+1)) (key : Sds) (val : Robj)
  | completed
  deriving DecidableEq

/-- The keyspace operations commands are made of. `modify` is a command changing
in place an object it looked up. -/
inductive KsOp (n : Nat) where
  | dbAdd (d : Fin (n+1)) (key : Sds) (o : Robj)
  | dbOverwrite (d : Fin (n+1)) (key : Sds) (o : Robj)
  | modify (d : Fin (n+1)) (key : Sds) (o : Robj)
  | dbSyncDelete (d : Fin (n+1)) (key : Sds)
  | dbAsyncDelete (d : Fin (n+1)) (key : Sds)
  | dbDelete (d : Fin (n+1)) (key : Sds)
  | emptyDb (dbnum : Option (Fin (n+1))) (async : Bool)
  | rename (d : Fin (n+1)) (src dst : Sds) (nx : Bool)
  | move (src dst : Fin (n+1)) (key : Sds)
  | swapdb (i j : Fin (n+1))
  deriving DecidableEq

/-- What is fed to the AOF and the replicas: a command by its effects, and the
MULTI and EXEC around a block. -/
inductive Propagated (n : Nat) where
  | multi
  | exec
  | command (effects : List (KsOp n))
  deriving DecidableEq

def Propagated.effects {n : Nat} : Propagated n → List (KsOp n)
  | .multi | .exec => []
  | .command fx => fx

structure ScriptMaybeKey (n : Nat) where
  dbid : Fin (n+1)
  key : Sds
  deriving DecidableEq

/-- `server.lua_replicate_commands`, `lua_multi_emitted` and `lua_write_dirty`. -/
structure LuaState where
  replicate : Bool
  multiEmitted : Bool
  writeDirty : Bool
  deriving DecidableEq

/-- How far a command procedure has come. `luaCall` is a `redis.call` in
progress; `finishKeys` and `resume` are the two loops of
`_clearMaybeFinishKeyFromScript`; `exec` is the loop of `execCommand`. -/
inductive Phase (n : Nat) where
  | proc
  | script (lua : LuaState)
  | luaCall (lua : LuaState) (cmd : Command) (dirty : Nat) (effects : List (KsOp n))
  | finishKeys (keys : List (ScriptMaybeKey n)) (zeroClients : List ClientId)
  | resume (zeroClients : List ClientId)
  | exec (rest : List Command) (mustPropagate : Bool)
  | done
  deriving DecidableEq

/-- An activation of `call`: `dirty` is `server.dirty` at its start, `effects`
what the command has done that is not propagated yet. -/
structure Call (n : Nat) where
  client : ClientId
  cmd : Command
  dirty : Nat
  effects : List (KsOp n)
  preventProp : Bool
  deriving DecidableEq

/-- The main thread's call stack below the event handler: `processInputBuffer`
and `call`. -/
inductive Frame (n : Nat) where
  | input (c : ClientId)
  | call (k : Call n) (phase : Phase n)
  deriving DecidableEq

/-- Where `_rockPipeReadHandler` stands: not running, resuming clients in
`_clearFinishKey`, before `_hasMoreRockJob`, before the byte is read. -/
inductive Handler where
  | idle
  | clearFinish (zeroClients : List ClientId)
  | moreJob
  | drain
  deriving DecidableEq

/-- `applied` and `jobKeyRemoved` are history: the effects in the order they
were applied, and whether a script has removed the current job's key from
`rockKeys` since the job was created. -/
structure Server (n : Nat) where
  config : Config
  db : Fin (n+1) → RedisDb
  rocksdb : Fin (n+1) → Dict Sds Bytes
  alreadyInitHotKeys : Bool
  rockJob : RockJob n
  rockThread : RockThread n
  rockPipe : Nat
  handler : Handler
  clients : ClientId → Option (Client n)
  luaClient : Client n
  maybeFinishKeys : Option (List (ScriptMaybeKey n))
  stack : List (Frame n)
  dirty : Nat
  propagated : List (Propagated n)
  applied : List (KsOp n)
  jobKeyRemoved : Bool

namespace Server
variable {n : Nat}

def updDb (s : Server n) (d : Fin (n+1)) (f : RedisDb → RedisDb) : Server n :=
  { s with db := Function.update s.db d (f (s.db d)) }

lemma updDb_db (s : Server n) (d e : Fin (n+1)) (f : RedisDb → RedisDb) :
    (s.updDb d f).db e = if e = d then f (s.db e) else s.db e := by
  by_cases h : e = d
  · subst h
    simp [updDb]
  · simp [updDb,h]

def setClient (s : Server n) (c : ClientId) (cl : Option (Client n)) : Server n :=
  { s with clients := Function.update s.clients c cl }

lemma set_clients (s : Server n) (c e : ClientId) (cl : Option (Client n)) :
    (s.setClient c cl).clients e = if e = c then cl else s.clients e := by
  simp [setClient,Function.update_apply]

def getClient (s : Server n) (c : ClientId) : Except Fault (Client n) :=
  match s.clients c with
  | some cl => .ok cl
  | none => .error .useAfterFree

lemma getClient_ok {s : Server n} {c : ClientId} {cl : Client n} :
    s.getClient c = .ok cl ↔ s.clients c = some cl := by
  unfold getClient
  split <;> simp_all

def initServer (n : Nat) (cfg : Config) : Server n where
  config := cfg
  db := fun _ => RedisDb.empty
  rocksdb := fun _ => ∅
  alreadyInitHotKeys := false
  rockJob := ⟨none,none,none,none,false⟩
  rockThread := .idle
  rockPipe := 0
  handler := .idle
  clients := fun _ => none
  luaClient := createClient n
  maybeFinishKeys := none
  stack := []
  dirty := 0
  propagated := []
  applied := []
  jobKeyRemoved := false

end Server
end RedRock
