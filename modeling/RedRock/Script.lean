import RedRock.Job

/-!
`rock_lua.c` and the parts of `scripting.c` that call it.
-/

namespace RedRock
open Lib

/-- `needFishishKeys`: the restored keys that are not on disk again, each once. -/
def needFinishKeys {n : Nat} (db : Fin (n+1) → RedisDb) (found : List (ScriptMaybeKey n)) :
    List (ScriptMaybeKey n) → List (ScriptMaybeKey n)
  | [] => found
  | m :: ms =>
    if isValueInRock (db m.dbid) m.key ∨ m ∈ found then needFinishKeys db found ms
    else needFinishKeys db (found ++ [m]) ms

def LuaState.emitsMulti (lua : LuaState) (callerMulti : Bool) : Bool :=
  lua.replicate && !lua.multiEmitted && !callerMulti && lua.writeDirty

namespace Server
variable {n : Nat}

section
variable (s : Server n)

def scriptWhenStartForRock : Except Fault (Server n) := do
  serverAssert (s.maybeFinishKeys = none) .scriptWhenStart
  return { s with maybeFinishKeys := some [] }

def prepareLuaClient (caller : Client n) : Server n :=
  { s with luaClient :=
      { s.luaClient with db := caller.db, multi := s.luaClient.multi || caller.multi } }

def resetLuaClient : Server n :=
  { s with luaClient := { s.luaClient with multi := false } }

/-- One turn of the restore loop: the value goes to the dictionary if the key is
still on disk, and the key is remembered for the end of the script. -/
def restoreForScript (d : Fin (n+1)) (key : Sds) : Except Fault (Server n) := do
  let val ← s.restoreObjFromRocksdb d key
  let s := if (s.db d).dict.lookup key = some .valueInRock then
      s.updDb d fun db => { db with dict := db.dict.insert key (.mem val) }
    else s
  match s.maybeFinishKeys with
  | none => .error .nullMaybeFinishKeys
  | some l => return { s with maybeFinishKeys := some (l ++ [⟨d,key⟩]) }

def restoreAllForScript (s : Server n) (d : Fin (n+1)) : List Sds → Except Fault (Server n)
  | [] => .ok s
  | key :: keys => do
    let s ← s.restoreForScript d key
    s.restoreAllForScript d keys

def scriptForBeforeEachCallForRock (q : Command) : Except Fault (Server n) := do
  serverAssert (s.luaClient.rockKeyNumber = 0) .rockKeyNumberZero
  let (keys,errs) ← checkRock (s.db s.luaClient.db) s.luaClient q
  let s := { s with luaClient := { s.luaClient with reply := s.luaClient.reply ++ errs } }
  s.restoreAllForScript s.luaClient.db keys

def emitMulti (emits : Bool) : Server n :=
  if emits then
    { s with propagated := s.propagated ++ [.multi]
             luaClient := { s.luaClient with multi := true } }
  else s

/-- `luaRedisGenericCommand` from the point where the command is accepted to
`call`, with the new script state. -/
def luaRedisGenericCommand (lua : LuaState) (caller : Client n) (q : Command) :
    Except Fault (Server n × LuaState) := do
  let lua := { lua with writeDirty := lua.writeDirty || q.cmd.write }
  let emits := lua.emitsMulti caller.multi
  let lua := { lua with multiEmitted := lua.multiEmitted || emits }
  let s ← (s.emitMulti emits).scriptForBeforeEachCallForRock q
  return (s,lua)

/-- The main thread's side of the race with the rock thread: a script that
finishes the key of the current job marks the job. -/
def markFinishedByScript (m : ScriptMaybeKey n) : Except Fault (Server n) :=
  if s.rockJob.isFor m.dbid m.key then do
    serverAssert (s.rockJob.alreadyFinishedByScript = false) .alreadyFinishedByScript
    return { s with rockJob := { s.rockJob with alreadyFinishedByScript := true }
                    jobKeyRemoved := true }
  else .ok s

def finishKeyFromScript (m : ScriptMaybeKey n) : Except Fault (Server n × List ClientId) :=
  match (s.db m.dbid).rockKeys.lookup m.key with
  | none => .ok (s,[])
  | some clients => do
    let (s,zeroClients) ← s.decrRockKeyNumbers clients
    let s ← s.markFinishedByScript m
    return (s.deleteRockKey m.dbid m.key,zeroClients)

end

/-- `t` differs from `s` in dictionaries, the restored keys, the Lua client and
the propagated stream: what a `redis.call` does before the command runs. -/
def ScriptOnly (s t : Server n) : Prop :=
  ∃ db l m r ps, t = { s with
      db := db, maybeFinishKeys := l, propagated := ps
      luaClient := { s.luaClient with multi := m, reply := r } } ∧
    ∀ d, (db d).rockKeys = (s.db d).rockKeys

namespace ScriptOnly
variable {s t u : Server n}

lemma refl (s : Server n) : ScriptOnly s s :=
  ⟨s.db,s.maybeFinishKeys,s.luaClient.multi,s.luaClient.reply,s.propagated,rfl,fun _ => rfl⟩

lemma trans (h : ScriptOnly s t) (h' : ScriptOnly t u) : ScriptOnly s u := by
  obtain ⟨db,l,m,r,ps,rfl,hk⟩ := h
  obtain ⟨db',l',m',r',ps',rfl,hk'⟩ := h'
  exact ⟨db',l',m',r',ps',rfl,fun d => (hk' d).trans (hk d)⟩

end ScriptOnly

section
variable {s t : Server n} {d : Fin (n+1)} {key : Sds} {q : Command}
variable {m : ScriptMaybeKey n} {lua lua' : LuaState} {zs : List ClientId} {caller : Client n}
  {keys : List Sds}

lemma restoreObj_ok {val : Robj} : s.restoreObjFromRocksdb d key = .ok val ↔
      key ≠ [] ∧ ∃ buf, (s.rocksdb d).lookup key = some buf ∧ desObject s.config buf = .ok val := by
  unfold restoreObjFromRocksdb
  rw [assert_ok]
  split <;> simp_all

lemma restoreOne_ok (h : s.restoreForScript d key = .ok t) :
    ∃ val l, s.restoreObjFromRocksdb d key = .ok val ∧ s.maybeFinishKeys = some l ∧
      t = { (if (s.db d).dict.lookup key = some .valueInRock then
          s.updDb d fun db => { db with dict := db.dict.insert key (.mem val) } else s) with
        maybeFinishKeys := some (l ++ [⟨d,key⟩]) } := by
  obtain ⟨val,hv,h⟩ := bind_ok.mp h
  simp only at h
  split at h
  · cases h
  rename_i l hl
  refine ⟨val,l,hv,?_,pure_ok.mp h⟩
  split at hl
  · exact hl
  · exact hl

lemma restoreOne_script (h : s.restoreForScript d key = .ok t) : ScriptOnly s t := by
  obtain ⟨val,l,_,_,rfl⟩ := restoreOne_ok h
  split
  · refine ⟨_,_,s.luaClient.multi,s.luaClient.reply,s.propagated,rfl,fun e => ?_⟩
    rw [updDb_db]
    split <;> rfl
  · exact ⟨s.db,_,s.luaClient.multi,s.luaClient.reply,s.propagated,rfl,fun _ => rfl⟩

lemma restoreAll_invariant {I : Server n → Prop} (h0 : I s)
    (hs : ∀ u v key, I u → u.restoreForScript d key = .ok v → I v)
    (h : s.restoreAllForScript d keys = .ok t) : I t := by
  induction keys generalizing s with
  | nil =>
    cases h
    exact h0
  | cons key keys ih =>
    obtain ⟨u,hu,h⟩ := bind_ok.mp h
    exact ih (hs s u key h0 hu) h

lemma restoreAll_script (h : s.restoreAllForScript d keys = .ok t) : ScriptOnly s t :=
  restoreAll_invariant (.refl s) (fun _ _ _ hu hv => hu.trans (restoreOne_script hv)) h

lemma beforeEachCall_ok (h : s.scriptForBeforeEachCallForRock q = .ok t) :
    ∃ keys errs, checkRock (s.db s.luaClient.db) s.luaClient q = .ok (keys,errs) ∧
      ({ s with luaClient := { s.luaClient with
          reply := s.luaClient.reply ++ errs } }).restoreAllForScript s.luaClient.db keys = .ok t := by
  unfold scriptForBeforeEachCallForRock at h
  rw [assert_ok] at h
  obtain ⟨⟨keys,errs⟩,hc,h⟩ := bind_ok.mp h.2
  exact ⟨keys,errs,hc,h⟩

lemma luaCall_ok (h : s.luaRedisGenericCommand lua caller q = .ok (t,lua')) :
    ∃ emits, emits = ({ lua with writeDirty := lua.writeDirty || q.cmd.write }).emitsMulti
        caller.multi ∧
      lua' = ⟨lua.replicate,lua.multiEmitted || emits,lua.writeDirty || q.cmd.write⟩ ∧
      (s.emitMulti emits).scriptForBeforeEachCallForRock q = .ok t := by
  obtain ⟨u,hu,h⟩ := bind_ok.mp h
  rw [pure_ok,Prod.mk.injEq] at h
  obtain ⟨rfl,rfl⟩ := h
  exact ⟨_,rfl,rfl,hu⟩

lemma luaCall_script (h : s.luaRedisGenericCommand lua caller q = .ok (t,lua'))
    : ScriptOnly s t := by
  obtain ⟨emits,_,_,h⟩ := luaCall_ok h
  obtain ⟨keys,errs,_,h⟩ := beforeEachCall_ok h
  refine .trans ?_ (restoreAll_script h)
  unfold emitMulti
  split
  · exact ⟨s.db,s.maybeFinishKeys,_,_,_,rfl,fun _ => rfl⟩
  · exact ⟨s.db,s.maybeFinishKeys,_,_,s.propagated,rfl,fun _ => rfl⟩

lemma markFinished_ok (h : s.markFinishedByScript m = .ok t) :
    (s.rockJob.isFor m.dbid m.key ∧ s.rockJob.alreadyFinishedByScript = false ∧
      t = { s with rockJob := { s.rockJob with alreadyFinishedByScript := true }
                   jobKeyRemoved := true }) ∨
    (¬ s.rockJob.isFor m.dbid m.key ∧ t = s) := by
  unfold markFinishedByScript at h
  split at h
  · rename_i hj
    rw [assert_ok,pure_ok] at h
    exact .inl ⟨hj,h⟩
  rename_i hj
  cases h
  exact .inr ⟨hj,rfl⟩

lemma scriptKey_ok (h : s.finishKeyFromScript m = .ok (t,zs)) :
    ((s.db m.dbid).rockKeys.lookup m.key = none ∧ t = s ∧ zs = []) ∨
    ∃ clients u v, (s.db m.dbid).rockKeys.lookup m.key = some clients ∧
      s.decrRockKeyNumbers clients = .ok (u,zs) ∧ u.markFinishedByScript m = .ok v ∧
      t = v.deleteRockKey m.dbid m.key := by
  unfold finishKeyFromScript at h
  split at h
  · rename_i hc
    cases h
    exact .inl ⟨hc,rfl,rfl⟩
  rename_i clients hc
  obtain ⟨⟨u,ws⟩,hu,h⟩ := bind_ok.mp h
  obtain ⟨v,hv,h⟩ := bind_ok.mp h
  rw [pure_ok,Prod.mk.injEq] at h
  obtain ⟨rfl,rfl⟩ := h
  exact .inr ⟨clients,u,v,hc,hu,hv,rfl⟩

lemma mem_finishKeyFromScript (h : s.finishKeyFromScript m = .ok (t,zs)) (e : Fin (n+1)) (k : Sds)
    : k ∈ (t.db e).rockKeys ↔ k ∈ (s.db e).rockKeys ∧ ¬ (e = m.dbid ∧ k = m.key) := by
  rcases scriptKey_ok h with ⟨hn,rfl,_⟩ | ⟨clients,u,v,_,hu,hv,rfl⟩
  · refine ⟨fun hk => ⟨hk,?_⟩,fun hk => hk.1⟩
    rintro ⟨rfl,rfl⟩
    rw [Dict.mem_iff_lookup,hn] at hk
    simp at hk
  obtain ⟨rfl,_⟩ := decr_ok hu
  rcases markFinished_ok hv with ⟨_,_,rfl⟩ | ⟨_,rfl⟩
  all_goals exact mem_deleteRockKey _ _ _ _ _

end
end Server
end RedRock
