import RedRock.Script

/-!
The server as a machine. An action of the main thread is enabled where the call
stack stands at it, so commands nest as they do in the source: a client resumed
inside a handler or at the end of a script runs its command and its buffered
input before the frame below goes on. The rock thread's actions interleave with
all others.
-/

namespace RedRock
open Lib

inductive Act (n : Nat) where
  | rockTake
  | rockRead
  | rockComplete
  | rockSignal
  | accept (c : ClientId)
  | readQuery (c : ClientId) (cmds : List Command)
  | freeClient (c : ClientId)
  | pipeReadable
  | handlerResume (pick : Sds)
  | handlerMoreJob (pick : Sds)
  | handlerRead
  | nextCommand (reject : Option Bool) (pick : Sds)
  | breakInput
  | initHotKeys
  | sampleHotKey (d : Fin (n+1)) (key : Sds)
  | dump (d : Fin (n+1)) (key : Sds)
  | expired (d : Fin (n+1)) (key : Sds) (async : Bool)
  | op (o : KsOp n)
  | selectDb (d : Fin (n+1))
  | killClient (c : ClientId)
  | configSet (cfg : Config)
  | runProc (abort : Bool)
  | execNext (denied : Bool)
  | ret
  | replicateCommands
  | redisCall (q : Command)
  | luaRet
  | scriptExit
  | finishKey
  | scriptResume (pick : Sds)
  deriving DecidableEq

def Proc.skipsQueue : Proc → Bool
  | .exec | .discard | .multi | .watch => true
  | _ => false

def Frame.running {n : Nat} : Frame n → Option Command
  | .call k .proc => if k.cmd.cmd.proc = .other then some k.cmd else none
  | .call _ (.luaCall _ q _ _) => some q
  | _ => none

def Frame.addEffect {n : Nat} (o : KsOp n) : Frame n → Frame n
  | .call k (.luaCall lua q dirty effects) => .call k (.luaCall lua q dirty (effects ++ [o]))
  | .call k phase => .call { k with effects := k.effects ++ [o] } phase
  | f => f

def Client.discard {n : Nat} (cl : Client n) : Client n :=
  { cl with mstate := [], multi := false, dirtyExec := false }

namespace Server
variable {n : Nat} (s : Server n)

def atLoop : Bool := s.stack.isEmpty && decide (s.handler = .idle)

def processing : Bool :=
  match s.stack with
  | .input c :: _ =>
    (s.clients c).any fun cl => decide (cl.rockKeyNumber = 0 ∧ cl.querybuf ≠ [])
  | _ => false

/-- Memory is freed before a command is processed and by CONFIG SET maxmemory. -/
def canFreeMemory : Bool :=
  match s.stack with
  | .call k .proc :: _ => decide (k.cmd.cmd.proc = .other)
  | _ => s.processing

/-- Keys expire in the cron, before a command, and when a command looks them up. -/
def canExpire : Bool :=
  match s.stack with
  | [] => decide (s.handler = .idle)
  | f :: _ => f.running.isSome || s.processing

def accept (c : ClientId) : Option (Except Fault (Server n)) :=
  if s.atLoop ∧ s.clients c = none then some (.ok (s.setClient c (some (createClient n)))) else none

def readQuery (c : ClientId) (cmds : List Command) : Option (Except Fault (Server n)) :=
  match s.clients c with
  | some cl =>
    if s.atLoop then
      some (.ok { s.setClient c (some { cl with querybuf := cl.querybuf ++ cmds }) with
        stack := if cl.rockKeyNumber > 0 then [] else [.input c] })
    else none
  | none => none

def handlerResume (pick : Sds) : Option (Except Fault (Server n)) :=
  match s.stack, s.handler with
  | [], .clearFinish [] => some (.ok { s with handler := .moreJob })
  | [], .clearFinish (c :: cs) =>
    some (({ s with handler := .clearFinish cs }).checkThenResumeRockClient c pick)
  | _, _ => none

/-- `reject`: `processCommand` refuses the command, and calls `flagTransaction` or not. -/
def nextCommand (reject : Option Bool) (pick : Sds) : Option (Except Fault (Server n)) :=
  match s.stack with
  | .input c :: rest => some do
    let cl ← s.getClient c
    match cl.querybuf with
    | [] => return { s with stack := rest }
    | q :: qs =>
      if cl.rockKeyNumber > 0 then return { s with stack := rest }
      else if let some flags := reject then
        return s.setClient c (some { cl with
          querybuf := qs, dirtyExec := cl.dirtyExec || cl.multi && flags })
      else if cl.multi && !q.cmd.proc.skipsQueue then
        return s.setClient c (some { cl with
          querybuf := qs, mstate := cl.mstate ++ [q], reply := cl.reply ++ ["+QUEUED"] })
      else
        let s := s.setClient c (some { cl with querybuf := qs, current := some q })
        ({ s with stack := rest }).checkThenCall c pick
  | _ => none

def sampleHotKey (d : Fin (n+1)) (key : Sds) : Option (Except Fault (Server n)) :=
  if s.canFreeMemory ∧ s.alreadyInitHotKeys ∧ key ∈ (s.db d).hotKeys then
    some (if key ∈ (s.db d).dict then .ok s else .error .rockPoolPopulate)
  else none

/-- `dumpValueToRockIfNeeded` for a key it picked. -/
def dump (d : Fin (n+1)) (key : Sds) : Option (Except Fault (Server n)) :=
  match (s.db d).dict.lookup key with
  | some val =>
    if s.canFreeMemory ∧ s.alreadyInitHotKeys ∧ isValueSuitForDumpRock val ∧
        key ∉ (s.db d).rockKeys then
      some (s.dumpValToRock d key)
    else none
  | none => none

/-- Expiration and eviction: the deletion is propagated by itself. -/
def expired (d : Fin (n+1)) (key : Sds) (async : Bool) : Option (Except Fault (Server n)) :=
  if s.canExpire then
    let o := if async then .dbAsyncDelete d key else .dbSyncDelete d key
    some do
      let s ← s.applyOp o
      return { s with applied := s.applied ++ [o], propagated := s.propagated ++ [.command [o]] }
  else none

def op (o : KsOp n) : Option (Except Fault (Server n)) :=
  match s.stack with
  | f :: rest =>
    match f.running with
    | some q =>
      if q.cmd.write ∧ s.opEnabled o then some do
        let s ← s.applyOp o
        return { s with stack := f.addEffect o :: rest, dirty := s.dirty + 1,
                        applied := s.applied ++ [o] }
      else none
    | none => none
  | [] => none

def selectDb (d : Fin (n+1)) : Option (Except Fault (Server n)) :=
  match s.stack with
  | .call k .proc :: _ =>
    if k.cmd.cmd.proc = .other then some do
      let cl ← s.getClient k.client
      return s.setClient k.client (some { cl with db := d })
    else none
  | .call _ (.luaCall _ _ _ _) :: _ => some (.ok { s with luaClient := { s.luaClient with db := d } })
  | _ => none

def killClient (c : ClientId) : Option (Except Fault (Server n)) :=
  match s.stack with
  | .call k .proc :: _ =>
    if k.cmd.cmd.proc = .other ∧ c ≠ k.client then some (.ok (s.freeClient c)) else none
  | _ => none

def configSet (cfg : Config) : Option (Except Fault (Server n)) :=
  match s.stack with
  | .call k .proc :: _ =>
    if k.cmd.cmd.proc = .other then some (.ok { s with config := cfg }) else none
  | _ => none

def addReply (cl : Client n) (r : String) : Client n := { cl with reply := cl.reply ++ [r] }

/-- `multiCommand`, `discardCommand`, `watchCommand`, the beginning of
`execCommand` and of `evalGenericCommand`, and the end of any other command.
`abort` is a watched key that was touched, or a script that does not compile. -/
def runProc (abort : Bool) : Option (Except Fault (Server n)) :=
  match s.stack with
  | .call k .proc :: rest => some do
    let cl ← s.getClient k.client
    let done := fun cl : Client n =>
      ({ s with stack := .call k .done :: rest }).setClient k.client (some cl)
    match k.cmd.cmd.proc with
    | .multi =>
      if cl.multi then return done (addReply cl "-ERR MULTI calls can not be nested")
      else return done (addReply { cl with multi := true } "+OK")
    | .discard =>
      if cl.multi then return done (addReply cl.discard "+OK")
      else return done (addReply cl "-ERR DISCARD without MULTI")
    | .watch =>
      if cl.multi then return done (addReply cl "-ERR WATCH inside MULTI is not allowed")
      else return done (addReply cl "+OK")
    | .exec =>
      if !cl.multi then return done (addReply cl "-ERR EXEC without MULTI")
      else if cl.dirtyExec then return done (addReply cl.discard
        "-EXECABORT Transaction discarded because of previous errors.")
      else if abort then return done (addReply cl.discard "*-1")
      else return { s with stack := .call k (.exec cl.mstate false) :: rest }
    | .eval =>
      if abort then return done cl
      else
        let s ← (s.prepareLuaClient cl).scriptWhenStartForRock
        return { s with stack := .call k (.script ⟨false,false,false⟩) :: rest }
    | .other => return done cl
  | _ => none

def execNext (denied : Bool) : Option (Except Fault (Server n)) :=
  match s.stack with
  | .call k (.exec [] mustPropagate) :: rest => some do
    let cl ← s.getClient k.client
    let s := s.setClient k.client (some cl.discard)
    return { s with stack := .call k .done :: rest, dirty := s.dirty + mustPropagate.toNat }
  | .call k (.exec (q :: qs) mustPropagate) :: rest => some do
    let _ ← s.getClient k.client
    let emits := !mustPropagate && !q.cmd.readonlyOrAdmin
    let call := if denied then [] else [.call ⟨k.client,q,s.dirty,[],false⟩ .proc]
    return { s with
      propagated := s.propagated ++ (if emits then [.multi] else [])
      stack := call ++ .call k (.exec qs (mustPropagate || emits)) :: rest }
  | _ => none

def Call.propagates (k : Call n) (dirty : Nat) : List (Propagated n) :=
  if dirty = k.dirty ∨ k.preventProp then []
  else if k.cmd.cmd.proc = .exec then [.exec]
  else [.command k.effects]

/-- The end of `call`; `resetClient` when the frame below processes input. -/
def ret : Option (Except Fault (Server n)) :=
  match s.stack with
  | .call k .done :: rest => some do
    let cl ← s.getClient k.client
    let s := { s with stack := rest, propagated := s.propagated ++ Call.propagates k s.dirty }
    match rest with
    | .input _ :: _ => return s.setClient k.client (some { cl with current := none })
    | _ => return s
  | _ => none

def replicateCommands : Option (Except Fault (Server n)) :=
  match s.stack with
  | .call k (.script lua) :: rest =>
    some (.ok { s with stack := .call k (.script
      { lua with replicate := lua.replicate || !lua.writeDirty }) :: rest })
  | _ => none

def redisCall (q : Command) : Option (Except Fault (Server n)) :=
  match s.stack with
  | .call k (.script lua) :: rest =>
    if q.cmd.proc = .other then some do
      let caller ← s.getClient k.client
      let (s,lua) ← s.luaRedisGenericCommand lua caller q
      return { s with stack := .call k (.luaCall lua q s.dirty []) :: rest }
    else none
  | _ => none

def luaRet : Option (Except Fault (Server n)) :=
  match s.stack with
  | .call k (.luaCall lua _ dirty effects) :: rest =>
    if lua.replicate then
      some (.ok { s with
        stack := .call k (.script lua) :: rest
        propagated := s.propagated ++ (if s.dirty = dirty then [] else [.command effects]) })
    else
      some (.ok { s with
        stack := .call { k with effects := k.effects ++ effects } (.script lua) :: rest })
  | _ => none

/-- The end of `evalGenericCommand` up to the first loop of
`_clearMaybeFinishKeyFromScript`. -/
def scriptExit : Option (Except Fault (Server n)) :=
  match s.stack with
  | .call k (.script lua) :: rest =>
    match s.maybeFinishKeys with
    | none => some (.error .nullMaybeFinishKeys)
    | some l => some (.ok { s.resetLuaClient with
        stack := .call { k with preventProp := lua.replicate }
          (.finishKeys (needFinishKeys s.db [] l) []) :: rest
        propagated := s.propagated ++ (if lua.replicate && lua.multiEmitted then [.exec] else []) })
  | _ => none

def finishKey : Option (Except Fault (Server n)) :=
  match s.stack with
  | .call k (.finishKeys [] zs) :: rest => some (.ok { s with stack := .call k (.resume zs) :: rest })
  | .call k (.finishKeys (m :: ms) zs) :: rest => some do
    let (s,zs') ← s.finishKeyFromScript m
    return { s with stack := .call k (.finishKeys ms (zs ++ zs')) :: rest }
  | _ => none

def scriptResume (pick : Sds) : Option (Except Fault (Server n)) :=
  match s.stack with
  | .call k (.resume []) :: rest =>
    some (.ok { s with stack := .call k .done :: rest, maybeFinishKeys := none })
  | .call k (.resume (c :: cs)) :: rest =>
    some (({ s with stack := .call k (.resume cs) :: rest }).checkThenResumeRockClient c pick)
  | _ => none

def step : Act n → Option (Except Fault (Server n))
  | .rockTake => if s.rockThread = .idle then some s.rockTake else none
  | .rockRead =>
    match s.rockThread with
    | .took d key => some (s.rockRead d key)
    | _ => none
  | .rockComplete =>
    match s.rockThread with
    | .loaded d key val => some (s.rockComplete d key val)
    | _ => none
  | .rockSignal => if s.rockThread = .completed then some (.ok s.rockSignal) else none
  | .accept c => s.accept c
  | .readQuery c cmds => s.readQuery c cmds
  | .freeClient c => if s.atLoop then some (.ok (s.freeClient c)) else none
  | .pipeReadable => if s.atLoop ∧ s.rockPipe > 0 then some s.rockPipeReadHandler else none
  | .handlerResume pick => s.handlerResume pick
  | .handlerMoreJob pick =>
    if s.stack = [] ∧ s.handler = .moreJob then some (s.handlerMoreJob pick) else none
  | .handlerRead =>
    if s.stack = [] ∧ s.handler = .drain ∧ s.rockPipe > 0 then
      some (.ok { s with handler := .idle, rockPipe := s.rockPipe - 1 })
    else none
  | .nextCommand reject pick => s.nextCommand reject pick
  | .breakInput =>
    match s.stack with
    | .input _ :: rest => some (.ok { s with stack := rest })
    | _ => none
  | .initHotKeys => if s.canFreeMemory ∧ !s.alreadyInitHotKeys then some s.initHotKeys else none
  | .sampleHotKey d key => s.sampleHotKey d key
  | .dump d key => s.dump d key
  | .expired d key async => s.expired d key async
  | .op o => s.op o
  | .selectDb d => s.selectDb d
  | .killClient c => s.killClient c
  | .configSet cfg => s.configSet cfg
  | .runProc abort => s.runProc abort
  | .execNext denied => s.execNext denied
  | .ret => s.ret
  | .replicateCommands => s.replicateCommands
  | .redisCall q => s.redisCall q
  | .luaRet => s.luaRet
  | .scriptExit => s.scriptExit
  | .finishKey => s.finishKey
  | .scriptResume pick => s.scriptResume pick

end Server

def machine (n : Nat) (cfg : Config) : Machine (Server n) (Act n) Fault where
  init := Server.initServer n cfg
  step := Server.step

/-! A server with two keys on disk, from which the runs below start. -/

namespace Sample

def config : Config := ⟨1,true,false⟩
def str (b : UInt8) : Robj := ⟨.embstr ⟨[b],by simp [OBJ_ENCODING_EMBSTR_SIZE_LIMIT]⟩,0,1⟩
def k1 : Sds := [1]
def k2 : Sds := [2]
def set (k : Sds) (b : UInt8) : Command := ⟨⟨.other,none,true,false⟩,[[115],k,[b]]⟩
def get (k : Sds) : Command := ⟨⟨.other,some .oneKey,false,true⟩,[[103],k]⟩
def mget (ks : List Sds) : Command := ⟨⟨.other,some .allKeys,false,true⟩,[109] :: ks⟩
def eval : Command := ⟨⟨.eval,none,false,false⟩,[[101],[],[48]]⟩
def ping : Command := ⟨⟨.other,none,false,false⟩,[[112]]⟩

/-- Client 1 writes `k1` and `k2`, and both are dumped before its next command. -/
def stored : List (Act 0) :=
  [.accept 1,.accept 2,.accept 3,.readQuery 1 [set k1 1,set k2 2,ping],
   .nextCommand none [],.op (.dbAdd 0 k1 (str 1)),.runProc false,.ret,
   .nextCommand none [],.op (.dbAdd 0 k2 (str 2)),.runProc false,.ret,
   .initHotKeys,.dump 0 k1,.dump 0 k2,.nextCommand none [],.runProc false,.ret,
   .nextCommand none []]

/-- Clients 1 and 2 wait for `k1` and `k2`. -/
def waiting : List (Act 0) :=
  stored ++ [.readQuery 1 [get k1],.nextCommand none [],.readQuery 2 [get k2],
    .nextCommand none []]

end Sample

end RedRock
