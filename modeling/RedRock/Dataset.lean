import RedRock.Footprint
import RedRock.Lib.Store

/-!
The dataset is the dictionaries, the hot keys and RocksDB. Five functions change
it; all other actions leave it alone.
-/

namespace RedRock
open Lib List Option

def KsOp.toStore {n : Nat} : KsOp n → StoreOp (Fin (n+1)) Sds Robj
  | .dbAdd d key o | .dbOverwrite d key o | .modify d key o => .put d key o
  | .dbSyncDelete d key | .dbAsyncDelete d key | .dbDelete d key => .del d key
  | .emptyDb (some d) _ => .clear d
  | .emptyDb none _ => .clearAll
  | .rename d src dst nx => .rename d src dst nx
  | .move src dst key => .move src dst key
  | .swapdb i j => .swap i j

def Act.effect {n : Nat} : Act n → Option (KsOp n)
  | .op o => some o
  | .expired d key async => some (Server.expireOp d key async)
  | _ => none

namespace Server
variable {n : Nat} {s t u : Server n} {a : Act n}
variable {m : ScriptMaybeKey n} {c : ClientId} {pick : Sds}

structure SameData (s t : Server n) : Prop where
  dict : ∀ d, (t.db d).dict = (s.db d).dict
  hotKeys : ∀ d, (t.db d).hotKeys = (s.db d).hotKeys
  alreadyInitHotKeys : t.alreadyInitHotKeys = s.alreadyInitHotKeys
  rocksdb : t.rocksdb = s.rocksdb

namespace SameData

lemma refl (s : Server n) : SameData s s := ⟨fun _ => rfl,fun _ => rfl,rfl,rfl⟩

lemma trans (h : SameData s t) (h' : SameData t u) : SameData s u :=
  ⟨fun d => (h'.dict d).trans (h.dict d),fun d => (h'.hotKeys d).trans (h.hotKeys d),
    h'.alreadyInitHotKeys.trans h.alreadyInitHotKeys,h'.rocksdb.trans h.rocksdb⟩

lemma of_db (hd : t.db = s.db) (hi : t.alreadyInitHotKeys = s.alreadyInitHotKeys)
    (hr : t.rocksdb = s.rocksdb) : SameData s t :=
  ⟨fun d => by rw [hd],fun d => by rw [hd],hi,hr⟩

lemma updDb (s : Server n) (d : Fin (n+1)) {f : RedisDb → RedisDb}
    (hd : ∀ db, (f db).dict = db.dict) (hh : ∀ db, (f db).hotKeys = db.hotKeys) :
    SameData s (s.updDb d f) := by
  refine ⟨fun e => ?_,fun e => ?_,rfl,rfl⟩
  · rw [updDb_db]
    split
    · exact hd _
    · rfl
  rw [updDb_db]
  split
  · exact hh _
  · rfl

end SameData

inductive DataMove (s t : Server n) (a : Act n) : Prop where
  | same (h : SameData s t) (happ : t.applied = s.applied) (he : a.effect = none)
  | init (u : Server n) (hu : s.initHotKeys = .ok u) (h : SameData u t)
      (happ : t.applied = s.applied) (he : a.effect = none)
  | op (o : KsOp n) (u : Server n) (hen : s.opEnabled o = true) (hu : s.applyOp o = .ok u)
      (h : SameData u t) (happ : t.applied = s.applied ++ [o]) (he : a.effect = some o)
  | dump (d : Fin (n+1)) (key : Sds) (u : Server n) (hi : s.alreadyInitHotKeys = true)
      (hk : key ∉ (s.db d).rockKeys) (hu : s.dumpValToRock d key = .ok u) (h : SameData u t)
      (happ : t.applied = s.applied) (ha : a = .dump d key)
  | finished (d : Fin (n+1)) (key : Sds) (val : Robj) (u : Server n) (hidle : s.handler = .idle)
      (hd : s.rockJob.dbid = some d) (hr : s.rockJob.returnKey = some key)
      (hv : s.rockJob.valInRock = some val) (hf : s.rockJob.alreadyFinishedByScript = false)
      (hu : s.restoreFinished d key val = .ok u) (h : SameData u t)
      (happ : t.applied = s.applied) (ha : a = .pipeReadable)
  | script (d : Fin (n+1)) (keys : List Sds) (r u : Server n) (hr : SameData s r)
      (hc : r.config = s.config) (hu : r.restoreAllForScript d keys = .ok u) (h : SameData u t)
      (happ : t.applied = s.applied) (he : a.effect = none) (hq : ∃ q, a = .redisCall q)

lemma checkCall_sameData (h : s.checkThenCall c pick = .ok t) :
    SameData s t ∧ t.applied = s.applied := by
  obtain ⟨cl,q,keys,errs,_,_,_,_,hr⟩ := checkCall_ok h
  rcases hr with ⟨_,rfl⟩ | ⟨_,hs⟩
  · exact ⟨.of_db rfl rfl rfl,rfl⟩
  have hc : SameData s (s.setClient c (some { cl with
      rockKeyNumber := keys.length, reply := cl.reply ++ errs })) := .of_db rfl rfl rfl
  have hw : SameData s (s.registerWaiter c cl keys errs) :=
    hc.trans (.updDb _ cl.db (f := fun db => { db with rockKeys := _ }) (fun _ => rfl) fun _ => rfl)
  rcases startJob_ok hs with ⟨_,rfl⟩ | ⟨_,_,_,d,key,_,rfl⟩
  · exact ⟨hw,rfl⟩
  · exact ⟨hw.trans (.of_db rfl rfl rfl),rfl⟩

lemma DataMove.of_check {r : Server n} (h : r.checkThenCall c pick = .ok t) (hr : SameData s r)
    (ha : r.applied = s.applied) (he : a.effect = none) : DataMove s t a := by
  obtain ⟨hrt,happ⟩ := checkCall_sameData h
  exact .same (hr.trans hrt) (happ.trans ha) he

lemma SameData.deleteRockKey (h : SameData s t) (d : Fin (n+1)) (key : Sds) :
    SameData s (t.deleteRockKey d key) :=
  h.trans (.updDb t d (f := fun db => { db with rockKeys := _ }) (fun _ => rfl) fun _ => rfl)

lemma freeClient_sameData (s : Server n) (c : ClientId) : SameData s (s.freeClient c) :=
  ⟨fun _ => rfl,fun _ => rfl,rfl,rfl⟩

lemma decr_sameData {cs zs : List ClientId}
    (h : s.decrRockKeyNumbers cs = .ok (t,zs)) : SameData s t ∧ t.applied = s.applied := by
  rw [(decr_ok h).1]
  exact ⟨.of_db rfl rfl rfl,rfl⟩

lemma markFinished_sameData (h : s.markFinishedByScript m = .ok t) :
    SameData s t ∧ t.applied = s.applied := by
  rcases markFinished_ok h with ⟨_,_,rfl⟩ | ⟨_,rfl⟩
  · exact ⟨.of_db rfl rfl rfl,rfl⟩
  · exact ⟨.refl _,rfl⟩

lemma scriptKey_sameData {zs : List ClientId} (h : s.finishKeyFromScript m = .ok (t,zs))
    : SameData s t ∧ t.applied = s.applied := by
  rcases scriptKey_ok h with ⟨_,rfl,_⟩ | ⟨clients,u,v,_,hu,hv,rfl⟩
  · exact ⟨.refl _,rfl⟩
  obtain ⟨hsu,hau⟩ := decr_sameData hu
  obtain ⟨huv,hav⟩ := markFinished_sameData hv
  exact ⟨(hsu.trans huv).deleteRockKey m.dbid m.key,hav.trans hau⟩

lemma dataMove_redisCall {q : Command} {lua lua' : LuaState} {caller : Client n}
    (hu : s.luaRedisGenericCommand lua caller q = .ok (u,lua')) (fs : List (Frame n)) :
    DataMove s { u with stack := fs } (.redisCall q) := by
  obtain ⟨emits,_,_,hs⟩ := luaCall_ok hu
  obtain ⟨keys,errs,_,hs⟩ := beforeEachCall_ok hs
  have he : SameData s (s.emitMulti emits) ∧ (s.emitMulti emits).config = s.config := by
    unfold emitMulti
    split
    · exact ⟨.of_db rfl rfl rfl,rfl⟩
    · exact ⟨.refl s,rfl⟩
  have happ : u.applied = s.applied := by
    obtain ⟨db,l,m,r,ps,rfl,_⟩ := luaCall_script hu
    rfl
  refine .script _ keys _ u ?_ ?_ hs (.of_db rfl rfl rfl) happ rfl ⟨q,rfl⟩
  · exact he.1.trans (.of_db rfl rfl rfl)
  · exact he.2

lemma dataMove_pipeReadable (hidle : s.handler = .idle) (h : s.rockPipeReadHandler = .ok t) :
    DataMove s t .pipeReadable := by
  obtain ⟨d,key,val,hd,_,hr,hv,hcase⟩ := pipeHandler_ok h
  rcases hcase with ⟨_,rfl⟩ | ⟨hf,hcf⟩
  · exact .same (.of_db rfl rfl rfl) rfl rfl
  obtain ⟨u,clients,zs,v,hu,_,hdec,rfl⟩ := clearFinishKey_ok hcf
  obtain ⟨huv,hav⟩ := decr_sameData hdec
  have happ : u.applied = s.applied := by
    obtain ⟨db,b,rfl,_⟩ := finished_keyspace hu
    rfl
  refine .finished d key val u hidle hd hr hv hf hu ?_ (hav.trans happ) rfl
  exact (huv.deleteRockKey d key).trans (.of_db rfl rfl rfl)

lemma dataMove_of_step (hst : s.step a = some (.ok t)) : DataMove s t a := by
  cases transition_of hst with
  | freeClient | killClient => exact .same (freeClient_sameData s _) rfl rfl
  | pipeReadable _ hidle _ hs => exact dataMove_pipeReadable hidle hs
  | handlerMoreJob _ _ hs =>
    rcases moreJob_ok hs with ⟨d,key,_,_,rfl⟩ | ⟨_,rfl⟩
    all_goals exact .same (.of_db rfl rfl rfl) rfl rfl
  | handlerResume _ _ hs | checked _ _ _ _ _ hs | scriptResume _ hs =>
    exact .of_check hs (.of_db rfl rfl rfl) rfl rfl
  | initHotKeys _ _ hs =>
    refine .init t hs (.refl t) ?_ rfl
    rw [(initHotKeys_ok.mp hs).2.2]
  | @dump _ d key _ hi _ hk hs =>
    refine .dump d key t hi hk hs (.refl t) ?_ rfl
    obtain ⟨o,buf,_,_,_,_,_,rfl⟩ := dumpVal_ok.mp hs
    rfl
  | @expired u d key async _ hu =>
    have happ : u.applied = s.applied := by
      obtain ⟨db,b,rfl,_⟩ := op_keyspace hu
      rfl
    refine .op (expireOp d key async) u ?_ hu (.of_db rfl rfl rfl) ?_ rfl
    · cases async <;> rfl
    · simp [happ]
  | @op u o _ _ _ _ _ _ he hu =>
    have happ : u.applied = s.applied := by
      obtain ⟨db,b,rfl,_⟩ := op_keyspace hu
      rfl
    exact .op o u he hu (.of_db rfl rfl rfl) (by simp [happ]) rfl
  | redisCall _ _ _ hu => exact dataMove_redisCall hu _
  | finishKey _ hu =>
    obtain ⟨hd,ha⟩ := scriptKey_sameData hu
    exact .same (hd.trans (.of_db rfl rfl rfl)) ha rfl
  | _ => exact .same (.of_db rfl rfl rfl) rfl rfl

lemma DataMove.applied (h : DataMove s t a) : t.applied = s.applied ++ a.effect.toList := by
  cases h with
  | op o u hen hu h happ he => rw [happ,he,toList_some]
  | same h happ he | init u hu h happ he | script d keys r u hr hc hu h happ he =>
    rw [happ,he,toList_none,List.append_nil]
  | dump d key u hi hk hu h happ ha | finished d key val u hidle hd hr hv hf hu h happ ha =>
    rw [happ,ha]
    exact (List.append_nil _).symm

end Server
end RedRock
