import RedRock.Waiters

/-!
The check before a `redis.call` looks at the arguments of the call, or at the
queue of the Lua client if that client is flagged as being in a transaction. The
queue is always empty, so with the flag set nothing is checked and nothing is
restored.
-/

namespace RedRock
open Lib List

namespace Server
variable {n : Nat} {s t u : Server n} {d : Fin (n+1)} {q : Command}

/-- The Lua client is flagged when a `redis.call` of `q` reaches its check: the
script runs inside MULTI/EXEC, or MULTI has been emitted for its effects. -/
def callsInMulti (s : Server n) (q : Command) : Bool :=
  match s.stack with
  | .call k (.script lua) :: _ =>
    s.luaClient.multi ||
      ({ lua with writeDirty := lua.writeDirty || q.cmd.write }).emitsMulti
        (((s.clients k.client).map Client.multi).getD false)
  | _ => false

lemma inRock_restoreForScript {key : Sds} (h : s.restoreForScript d key = .ok u)
    (k : Sds) : isValueInRock (u.db d) k = true ↔ isValueInRock (s.db d) k = true ∧ k ≠ key := by
  obtain ⟨val,l,_,_,rfl⟩ := restoreOne_ok h
  simp only [inRock_iff]
  split
  · simp only [updDb_db,if_true,Dict.lookup_insert_ite]
    by_cases hk : k = key
    · simp [hk]
    · simp [hk]
  rename_i hn
  constructor
  · intro hk
    refine ⟨hk,?_⟩
    rintro rfl
    exact hn hk
  · exact fun hk => hk.1

lemma inRock_restoreAllForScript {keys : List Sds}
    (h : s.restoreAllForScript d keys = .ok u) (k : Sds) :
    isValueInRock (u.db d) k = true ↔ isValueInRock (s.db d) k = true ∧ k ∉ keys := by
  induction keys generalizing s with
  | nil =>
    cases h
    simp
  | cons key keys ih =>
    obtain ⟨v,hv,h⟩ := bind_ok.mp h
    rw [ih h,inRock_restoreForScript hv,mem_cons]
    tauto

lemma seesValues_of_single {r : Server n} {keys : List Sds} {errs : List String}
    (hu : r.restoreAllForScript d keys = .ok u)
    (hc : checkRockForSingleCmd (r.db d) q = .ok (keys,errs)) (hd : u.luaClient.db = d) :
    SeesValues (u.db u.luaClient.db) q := by
  intro keys' errs' hc'
  have hfew : checkRockForCmd (u.db d) q.argv q = .ok (keys.filter (isValueInRock (u.db d)),errs) :=
    checkCmd_of_fewer (fun k hk => ((inRock_restoreAllForScript hu k).mp hk).1) hc
  rw [hd] at hc'
  rw [checkRockForSingleCmd,hfew] at hc'
  cases hc'
  rw [filter_eq_nil_iff]
  intro k hk hv
  exact ((inRock_restoreAllForScript hu k).mp hv).2 hk

lemma seesValues_iff_of_multi (hm : s.luaClient.multi = true) (he : s.luaClient.mstate = [])
    (h : s.scriptForBeforeEachCallForRock q = .ok u) :
    SeesValues (u.db u.luaClient.db) q ↔ SeesValues (s.db s.luaClient.db) q := by
  obtain ⟨keys,errs,hc,hu⟩ := beforeEachCall_ok h
  rw [checkRock,if_pos hm,he] at hc
  cases hc
  cases hu
  exact Iff.rfl

lemma seesValues_of_not_multi (hm : s.luaClient.multi = false)
    (h : s.scriptForBeforeEachCallForRock q = .ok u) : SeesValues (u.db u.luaClient.db) q := by
  obtain ⟨keys,errs,hc,hu⟩ := beforeEachCall_ok h
  rw [checkRock,if_neg (by simp [hm])] at hc
  refine seesValues_of_single hu hc ?_
  obtain ⟨db,l,m,r,ps,rfl,_⟩ := restoreAll_script hu
  rfl

lemma callsInMulti_eq {k : Call n} {lua : LuaState} {rest : List (Frame n)} {caller : Client n}
    (hs : s.stack = .call k (.script lua) :: rest) (hc : s.clients k.client = some caller) :
    s.callsInMulti q = (s.luaClient.multi ||
      ({ lua with writeDirty := lua.writeDirty || q.cmd.write }).emitsMulti caller.multi) := by
  simp [callsInMulti,hs,hc]

lemma emitMulti_multi (s : Server n) (emits : Bool) :
    (s.emitMulti emits).luaClient.multi = (s.luaClient.multi || emits) := by
  cases emits with
  | true | false => simp [emitMulti]

lemma emitMulti_mstate (s : Server n) (emits : Bool) :
    (s.emitMulti emits).luaClient.mstate = s.luaClient.mstate := by
  cases emits with
  | true | false => rfl

lemma emitMulti_seesValues (s : Server n) (emits : Bool) :
    SeesValues ((s.emitMulti emits).db (s.emitMulti emits).luaClient.db) q ↔
      SeesValues (s.db s.luaClient.db) q := by
  cases emits with
  | true | false => exact Iff.rfl

/-- When `call` runs a command of a script, the command sees values and no
placeholder exactly if the Lua client was not flagged at the check or no key of
the command was on disk in the first place. -/
theorem redisCall_seesValues {cfg : Config} (h : (machine n cfg).Reachable s)
    (hst : s.step (.redisCall q) = some (.ok t)) :
    SeesValues (t.db t.luaClient.db) q ↔
      s.callsInMulti q = false ∨ SeesValues (s.db s.luaClient.db) q := by
  cases step_redisCall hst with
  | redisCall hs _ hc hu =>
  obtain ⟨emits,he,_,hb⟩ := luaCall_ok hu
  have hcalls : s.callsInMulti q = (s.emitMulti emits).luaClient.multi := by
    rw [callsInMulti_eq hs hc,emitMulti_multi,he]
  rw [hcalls]
  cases hm : (s.emitMulti emits).luaClient.multi with
  | false => simp [seesValues_of_not_multi hm hb]
  | true =>
    have hq : (s.emitMulti emits).luaClient.mstate = [] := by
      rw [emitMulti_mstate]
      exact (waitInv_of_reachable h).lua.2
    rw [seesValues_iff_of_multi hm hq hb,emitMulti_seesValues]
    simp

end Server

namespace Sample

def multi : Command := ⟨⟨.multi,none,false,false⟩,[[109]]⟩
def exec : Command := ⟨⟨.exec,none,false,false⟩,[[120]]⟩

def inScript : List (Act 0) :=
  stored ++ [.readQuery 3 [eval],.nextCommand none [],.runProc false]

def inExecScript : List (Act 0) :=
  stored ++ [.readQuery 3 [multi,eval,exec],.nextCommand none [],.runProc false,.ret,
    .nextCommand none [],.nextCommand none [],.runProc false,.execNext false,.runProc false]

end Sample

open Sample

namespace Server

/-- A plain script reads `k1`, which is on disk. -/
theorem redisCall_seesValues_eval : ∃ s t : Server 0, (machine 0 Sample.config).Reachable s ∧
    s.step (.redisCall (get k1)) = some (.ok t) ∧
    SeesValues (t.db t.luaClient.db) (get k1) := by
  obtain ⟨s,hs,hm⟩ := (machine 0 Sample.config).observed inScript
    (fun s => s.callsInMulti (get k1)) false (by decide)
  obtain ⟨s',t,hs',hst,_⟩ := (machine 0 Sample.config).step_observed inScript
    (.redisCall (get k1)) Server.dirty 2 (by decide)
  cases hs.symm.trans hs'
  exact ⟨s,t,⟨_,hs⟩,hst,(redisCall_seesValues ⟨_,hs⟩ hst).mpr (.inl hm)⟩

/-- The same call inside MULTI/EXEC reads the placeholder. -/
theorem redisCall_placeholder : ∃ s t : Server 0, (machine 0 Sample.config).Reachable s ∧
    s.step (.redisCall (get k1)) = some (.ok t) ∧
    ¬ SeesValues (t.db t.luaClient.db) (get k1) := by
  obtain ⟨s,t,hs,hst,hobs⟩ := (machine 0 Sample.config).step_observed
    inExecScript (.redisCall (get k1))
    (fun t => checkRockForSingleCmd (t.db t.luaClient.db) (get k1))
    (.ok ([k1],[])) (by decide)
  refine ⟨s,t,⟨_,hs⟩,hst,fun h => ?_⟩
  cases h _ _ hobs

end Server
end RedRock
