import RedRock.HotKeys
import RedRock.LuaAccess

/-!
The other half of the index: once `hotKeys` has been filled it covers every value
that can be dumped, and before that it is empty. A restore is the one change of the
dictionary that goes round the hooks; the restore for a script does not touch the
index, and the restore of the rock thread touches it whether it is filled or not.
-/

namespace RedRock
open Lib List DbVal Covers

def RedisDb.HotComplete (db : RedisDb) : Prop := Covers CanBeHot db.hotKeys db.dict

section
variable {db : RedisDb} {key : Sds} {val : DbVal} {es : List (Sigma fun _ : Sds => DbVal)}

lemma RedisDb.HotComplete.insert (h : db.HotComplete) :
    (addHotKeyIfNeed true key val { db with dict := db.dict.insert key val }).HotComplete := by
  have hc : Covers CanBeHot (Insert.insert key db.hotKeys) (db.dict.insert key val) :=
    (h.mono (Finset.subset_insert key db.hotKeys)).insert_dict
      fun _ => Finset.mem_insert_self key db.hotKeys
  cases val with
  | valueInRock => exact insert_dict h False.elim
  | mem o =>
    by_cases ho : o.type = .stream ∨ o.refcount = OBJ_SHARED_REFCOUNT
    · simp only [addHotKeyIfNeed,ho,Bool.not_true,Bool.false_eq_true,if_true,if_false]
      exact hc.erase_key (v := .mem o) (by simp) fun hv => ho.elim hv.1 hv.2
    simp only [addHotKeyIfNeed,ho,Bool.not_true,Bool.false_eq_true,if_false]
    exact hc

lemma hotComplete_keptByHooks : KeptByHooks RedisDb.HotComplete where
  put h _ := h.insert
  delete key h := h.erase key
  clear _ := empty _ _
  modify {db key old o} h hl hr _ ht := by
    refine insert_dict h fun hv => h.mem hl ⟨ht ▸ hv.1,?_⟩
    rw [hr]
    decide
  expires _ h := h

lemma mem_addHotKeyIfNeed_iff_of_ne {k : Sds} (b : Bool) (hne : key ≠ k) :
    key ∈ (addHotKeyIfNeed b k val db).hotKeys ↔ key ∈ db.hotKeys := by
  unfold addHotKeyIfNeed
  split
  · rfl
  split
  · rfl
  split <;> simp [hne]

lemma mem_addHotKeys_of_notMem (hk : key ∈ db.hotKeys) (hn : key ∉ es.keys) :
    key ∈ (addHotKeys es db).hotKeys := by
  induction es generalizing db with
  | nil => exact hk
  | cons e es ih =>
    rw [keys_cons,mem_cons,not_or] at hn
    exact ih ((mem_addHotKeyIfNeed_iff_of_ne true hn.1).mpr hk) hn.2

lemma mem_addHotKeys (hes : es.NodupKeys) (he : ⟨key,val⟩ ∈ es) (hv : val.CanBeHot) :
    key ∈ (addHotKeys es db).hotKeys := by
  induction es generalizing db with
  | nil => cases he
  | cons e es ih =>
    rw [nodupKeys_cons] at hes
    rcases mem_cons.mp he with rfl | he
    · have hhead : key ∈ (addHotKeyIfNeed true key val db).hotKeys := by
        cases val with
        | valueInRock => cases hv
        | mem o =>
          have ho : ¬ (o.type = .stream ∨ o.refcount = OBJ_SHARED_REFCOUNT) := not_or.mpr hv
          simp [addHotKeyIfNeed,ho]
      have htail := mem_addHotKeys_of_notMem hhead hes.1
      exact htail
    · exact ih hes.2 he

end

namespace Server
variable {n : Nat} {s t u : Server n} {a : Act n} {d : Fin (n+1)} {key : Sds} {q : Command}

def scriptRestores (s : Server n) (q : Command) : List Robj :=
  match checkRock (s.db s.luaClient.db) { s.luaClient with multi := s.callsInMulti q } q with
  | .ok (keys,_) => keys.filterMap fun key =>
      (s.restoreObjFromRocksdb s.luaClient.db key).toOption
  | .error _ => []

/-- Once the index is filled, no script restores a value that can be hot, and SWAPDB
exchanges two dictionaries only where each index covers both. -/
def coverSafe (s : Server n) (a : Act n) : Bool :=
  !s.alreadyInitHotKeys ||
    match a with
    | .redisCall q => (s.scriptRestores q).all fun o => decide ¬ (mem o).CanBeHot
    | .op (.swapdb i j) => decide (Covers CanBeHot (s.db i).hotKeys (s.db j).dict ∧
        Covers CanBeHot (s.db j).hotKeys (s.db i).dict)
    | _ => true

namespace HotComplete

lemma initHotKeys (hu : s.initHotKeys = .ok u) : u.WhenHot RedisDb.HotComplete := by
  obtain ⟨_,_,rfl⟩ := initHotKeys_ok.mp hu
  intro _ e
  refine iff_lookup.mpr fun key val hl hv => ?_
  simp only [addHotKeys_dict] at hl
  exact mem_addHotKeys (s.db e).dict.nodupKeys (AList.mem_lookup_iff.mp hl) hv

section
variable (h : s.WhenHot RedisDb.HotComplete)
include h

lemma of_sameData (hd : SameData s t) : t.WhenHot RedisDb.HotComplete := by
  intro hi e
  have hs := h (hd.alreadyInitHotKeys ▸ hi) e
  unfold RedisDb.HotComplete at hs ⊢
  rw [hd.dict,hd.hotKeys]
  exact hs

lemma dbAsyncDelete (d : Fin (n+1)) (key : Sds) :
    (s.dbAsyncDelete d key).WhenHot RedisDb.HotComplete :=
  h.updDb fun _ hd => (erase hd key).mono (Finset.erase_subset key _)

lemma dumpValToRock (hu : s.dumpValToRock d key = .ok u) : u.WhenHot RedisDb.HotComplete := by
  obtain ⟨o,buf,_,_,_,_,_,rfl⟩ := dumpVal_ok.mp hu
  refine WhenHot.updDb (s := { s with
      rocksdb := Function.update s.rocksdb d ((s.rocksdb d).insert key buf) }) h fun _ hd => ?_
  have hc : Covers CanBeHot (insert key (s.db d).hotKeys)
      ((s.db d).dict.insert key .valueInRock) :=
    (insert_dict hd False.elim).mono (Finset.subset_insert key _)
  exact hc.erase_key (v := .valueInRock) (by simp) id

lemma restoreFinished {val : Robj}
    (hu : s.restoreFinished d key val = .ok u) : u.WhenHot RedisDb.HotComplete := by
  rcases finished_ok hu with ⟨_,_,rfl⟩ | ⟨_,rfl⟩
  · refine h.updDb fun _ hd => ?_
    exact (mono hd (Finset.subset_insert key _)).insert_dict
      fun _ => Finset.mem_insert_self key _
  · exact h

lemma restoreForScript
    (hv : ∀ val, s.restoreObjFromRocksdb d key = .ok val → s.alreadyInitHotKeys = true →
      ¬ (mem val).CanBeHot)
    (hu : s.restoreForScript d key = .ok u) : u.WhenHot RedisDb.HotComplete := by
  obtain ⟨val,l,hval,_,rfl⟩ := restoreOne_ok hu
  split
  · have hs : (s.updDb d fun db => { db with dict := db.dict.insert key (.mem val) }).WhenHot
        RedisDb.HotComplete :=
      h.updDb fun hi hd => insert_dict hd fun hc => absurd hc (hv val hval hi)
    exact hs
  · exact h

lemma restoreAllForScript {keys : List Sds}
    (hv : ∀ key ∈ keys, ∀ val, s.restoreObjFromRocksdb d key = .ok val →
      s.alreadyInitHotKeys = true → ¬ (mem val).CanBeHot)
    (hu : s.restoreAllForScript d keys = .ok u) : u.WhenHot RedisDb.HotComplete := by
  induction keys generalizing s with
  | nil =>
    cases hu
    exact h
  | cons key keys ih =>
    obtain ⟨v,hw,hu⟩ := bind_ok.mp hu
    refine ih (restoreForScript h (hv key (by simp)) hw) ?_ hu
    -- a turn changes neither RocksDB nor the configuration
    intro k hk val hval hi
    obtain ⟨db,l,m,r,ps,rfl,_⟩ := restoreOne_script hw
    exact hv k (by simp [hk]) val hval hi

lemma applyOp {o : KsOp n} (hen : s.opEnabled o = true)
    (ho : ∀ i j, o = .swapdb i j → s.alreadyInitHotKeys = true →
      Covers CanBeHot (s.db i).hotKeys (s.db j).dict ∧
        Covers CanBeHot (s.db j).hotKeys (s.db i).dict)
    (hu : s.applyOp o = .ok u) : u.WhenHot RedisDb.HotComplete := by
  cases o with
  | dbAsyncDelete d key =>
    cases hu
    exact dbAsyncDelete h d key
  | swapdb i j =>
    cases hu
    exact h.dbSwapDatabases (ho i j rfl)
  | _ => exact WhenHot.applyOp hotComplete_keptByHooks h hen rfl hu

end

end HotComplete

lemma redisCall_restores (hst : s.step (.redisCall q) = some (.ok t)) :
    ∃ r u keys errs, SameData s r ∧ r.config = s.config ∧
      checkRock (s.db s.luaClient.db) { s.luaClient with multi := s.callsInMulti q } q =
        .ok (keys,errs) ∧
      r.restoreAllForScript s.luaClient.db keys = .ok u ∧ SameData u t := by
  cases step_redisCall hst with
  | redisCall hs _ hc hu =>
  obtain ⟨emits,he,_,hb⟩ := luaCall_ok hu
  obtain ⟨keys,errs,hk,hr⟩ := beforeEachCall_ok hb
  have hl : (s.emitMulti emits).luaClient = { s.luaClient with multi := s.callsInMulti q } := by
    rw [callsInMulti_eq hs hc,← he]
    cases emits with
    | true | false => simp [emitMulti]
  have hd : SameData s (s.emitMulti emits) ∧ (s.emitMulti emits).db = s.db ∧
      (s.emitMulti emits).config = s.config := by
    cases emits with
    | true => exact ⟨.of_db rfl rfl rfl,rfl,rfl⟩
    | false => exact ⟨.refl s,rfl,rfl⟩
  have hdb : (s.emitMulti emits).luaClient.db = s.luaClient.db := by rw [hl]
  rw [hl,hd.2.1] at hk
  rw [hdb] at hr
  refine ⟨_,_,keys,errs,?_,?_,hk,hr,.of_db rfl rfl rfl⟩
  · exact hd.1.trans (.of_db rfl rfl rfl)
  · exact hd.2.2

lemma restoreObj_of_sameData (hd : SameData s t) (hc : t.config = s.config) :
    t.restoreObjFromRocksdb d key = s.restoreObjFromRocksdb d key := by
  unfold restoreObjFromRocksdb
  rw [hd.rocksdb,hc]

lemma hotComplete_redisCall (h : s.WhenHot RedisDb.HotComplete)
    (hsafe : s.coverSafe (.redisCall q) = true) (hst : s.step (.redisCall q) = some (.ok t)) :
    t.WhenHot RedisDb.HotComplete := by
  obtain ⟨r,u,keys,errs,hr,hcfg,hk,hu,ht⟩ := redisCall_restores hst
  refine HotComplete.of_sameData (HotComplete.restoreAllForScript
    (HotComplete.of_sameData h hr) ?_ hu) ht
  intro key hkey val hval hi
  rw [restoreObj_of_sameData hr hcfg] at hval
  have hmem : val ∈ s.scriptRestores q := by
    simp only [scriptRestores,hk,mem_filterMap]
    exact ⟨key,hkey,by rw [hval]; rfl⟩
  have hinit : s.alreadyInitHotKeys = true := hr.alreadyInitHotKeys ▸ hi
  simp only [coverSafe,hinit,Bool.not_true,Bool.false_or,all_eq_true,decide_eq_true_eq] at hsafe
  exact hsafe val hmem

lemma hotComplete_step (h : s.WhenHot RedisDb.HotComplete) (hsafe : s.coverSafe a = true)
    (hst : s.step a = some (.ok t)) : t.WhenHot RedisDb.HotComplete := by
  cases dataMove_of_step hst with
  | same hd happ he => exact HotComplete.of_sameData h hd
  | init u hu hd happ he => exact HotComplete.of_sameData (HotComplete.initHotKeys hu) hd
  | op o u hen hu hd happ he =>
    refine HotComplete.of_sameData (HotComplete.applyOp h hen (fun i j hij hi => ?_) hu) hd
    subst hij
    cases a with
    | op o =>
      cases he
      simpa [coverSafe,hi] using hsafe
    | expired d key async => cases async <;> cases he
    | _ => cases he
  | dump d key u hi hk hu hd happ ha =>
    exact HotComplete.of_sameData (HotComplete.dumpValToRock h hu) hd
  | finished d key val u hidle hdb hr hv hf hu hd happ ha =>
    exact HotComplete.of_sameData (HotComplete.restoreFinished h hu) hd
  | script d keys r u hr hc hu hd happ he hq =>
    obtain ⟨q,rfl⟩ := hq
    exact hotComplete_redisCall h hsafe hst

lemma dumpNotHot_of_step (h : s.step a = some (.error .dumpNotHot)) :
    ∃ d key o, s.alreadyInitHotKeys = true ∧ (s.db d).dict.lookup key = some (.mem o) ∧
      o.type ≠ .stream ∧ o.refcount = 1 ∧ key ∉ (s.db d).hotKeys := by
  have hf := step_faults h
  cases a with
  | dump d key =>
    simp only [step,dump] at h
    split at h
    · rename_i val hl
      simp only [enabled_iff] at h
      obtain ⟨⟨_,hi,hv,_⟩,h⟩ := h
      cases val with
      | valueInRock => cases hv
      | mem o =>
        simp only [isValueSuitForDumpRock,Bool.and_eq_true,decide_eq_true_eq] at hv
        refine ⟨d,key,o,hi,hl,hv.1,hv.2,fun hk => ?_⟩
        refine OnlyErrors.bind (P := fun f => f ≠ .dumpNotHot)
          (x := serverAssert (o.refcount = 1) .dumpValToRock) ?_ (fun _ _ => ?_) .dumpNotHot
          (by simpa [dumpValToRock,hl] using h) rfl
        · exact serverAssert_errors fun _ => by decide
        · refine .bind (serObject_errors (by decide) o) fun _ _ => ?_
          refine .assert (fun _ => by decide) ?_
          exact .assert (fun hn => absurd hk hn) (.pure _)
    · cases h
  | _ => simp [Act.faults,checkFaults,commandFaults] at hf

/-- In a run in which every step is safe for it, the index covers every value in
memory that is neither a stream nor shared, and a key that is dumped is in it. -/
theorem hotKeys_complete {cfg : Config} {as : List (Act n)}
    (hg : (machine n cfg).Guarded (fun s a => s.coverSafe a = true) (machine n cfg).init as)
    (hr : (machine n cfg).run as = some (.ok s)) :
    (s.alreadyInitHotKeys = true → ∀ d key o, (s.db d).dict.lookup key = some (.mem o) →
      o.type ≠ .stream → o.refcount ≠ OBJ_SHARED_REFCOUNT → key ∈ (s.db d).hotKeys) ∧
    ∀ a, s.step a ≠ some (.error .dumpNotHot) := by
  have hi : s.WhenHot RedisDb.HotComplete :=
    (machine n cfg).guarded_invariant (I := fun s => s.WhenHot RedisDb.HotComplete)
      (fun hi => by cases hi) (fun _ _ _ hi hc hst => hotComplete_step hi hc hst) hg hr
  constructor
  · intro ha d key o hl ht ho
    exact (hi ha d).mem hl ⟨ht,ho⟩
  intro a ha
  obtain ⟨d,key,o,hinit,hl,ht,ho,hn⟩ := dumpNotHot_of_step ha
  refine hn ((hi hinit d).mem hl ⟨ht,?_⟩)
  rw [ho]
  decide

end Server

namespace Sample

def k3 : Sds := [3]

/-- A script of client 3 reads `k2`, which is on disk; the client then writes `k3`
and is about to send another command. -/
def readByScript : List (Act 0) :=
  stored ++ [.readQuery 3 [eval,set k3 3,ping],.nextCommand none [],.runProc false,
    .redisCall (get k2),.luaRet,.scriptExit,.finishKey,.finishKey,.scriptResume [],.ret,
    .nextCommand none [],.op (.dbAdd 0 k3 (str 3)),.runProc false,.ret]

end Sample

open Sample

namespace Server

/-- The handler restores `k1`, which becomes hot again. -/
theorem hotKeys_complete_restored : ∃ s : Server 0, (machine 0 Sample.config).run
      (waiting ++ jobDone ++ [.pipeReadable]) = some (.ok s) ∧
    (s.db 0).dict.lookup k1 = some (.mem (str 1)) ∧
    k1 ∈ (s.db 0).hotKeys := by
  obtain ⟨s,hs,hi,hl⟩ := (machine 0 Sample.config).exists_run (waiting ++ jobDone ++ [.pipeReadable])
    (fun s => s.alreadyInitHotKeys = true ∧ (s.db 0).dict.lookup k1 = some (.mem (str 1)))
    (by decide)
  obtain ⟨hc,_⟩ := hotKeys_complete (Machine.guarded_check _ _ _ _ (by decide)) hs
  exact ⟨s,hs,hl,hc hi 0 _ _ hl (by decide) (by decide)⟩

/-- A script reads `k2` back from disk. The value is in memory, can be dumped and is
not in the index; a dump of `k2` before the next command stops the server. -/
theorem hotKeys_incomplete : ∃ s : Server 0, (machine 0 Sample.config).Reachable s ∧
    s.alreadyInitHotKeys = true ∧ (s.db 0).dict.lookup k2 = some (.mem (str 2)) ∧
    k2 ∉ (s.db 0).hotKeys ∧
    s.step (.dump 0 k2) = some (.error .dumpNotHot) := by
  obtain ⟨s,hs,hfree,hi,hl,hk,hr⟩ := (machine 0 Sample.config).exists_run readByScript
    (fun s => s.canFreeMemory = true ∧ s.alreadyInitHotKeys = true ∧
      (s.db 0).dict.lookup k2 = some (.mem (str 2)) ∧ k2 ∉ (s.db 0).hotKeys ∧
      k2 ∉ (s.db 0).rockKeys) (by decide)
  have hd : s.dumpValToRock 0 k2 = .error .dumpNotHot := by
    unfold dumpValToRock
    rw [hl]
    simp only [hk]
    rfl
  have hv : isValueSuitForDumpRock (.mem (str 2)) = true := by decide
  refine ⟨s,⟨_,hs⟩,hi,hl,hk,?_⟩
  simp [step,dump,hl,hfree,hi,hr,hv,hd]

/-! Before the index is filled it is empty. -/

section
variable {n : Nat} {s t u : Server n} {a : Act n} {d : Fin (n+1)} {key : Sds}

def HotLazy (s : Server n) : Prop := s.alreadyInitHotKeys = false → ∀ d, (s.db d).hotKeys = ∅

def lazySafe (s : Server n) : Act n → Bool
  | .pipeReadable => s.alreadyInitHotKeys || s.rockJob.alreadyFinishedByScript ||
      match s.rockJob.dbid, s.rockJob.returnKey with
      | some d, some key => !isValueInRock (s.db d) key
      | _, _ => true
  | _ => true

namespace HotLazy
variable {P : Fault → Prop}

lemma dumpValToRock (hi : s.alreadyInitHotKeys = true) (hu : s.dumpValToRock d key = .ok u) :
    u.HotLazy := by
  obtain ⟨o,buf,_,_,_,_,_,rfl⟩ := dumpVal_ok.mp hu
  intro hi'
  cases hi.symm.trans hi'

section
variable (h : s.HotLazy)
include h

lemma of_sameData (hd : SameData s t) : t.HotLazy := by
  intro hi e
  rw [hd.hotKeys]
  exact h (hd.alreadyInitHotKeys ▸ hi) e

lemma updDb {f : RedisDb → RedisDb}
    (hf : s.alreadyInitHotKeys = false → (s.db d).hotKeys = ∅ → (f (s.db d)).hotKeys = ∅) :
    (s.updDb d f).HotLazy := by
  intro hi e
  have hs := h hi
  rw [updDb_db]
  split
  · rename_i he
    subst he
    exact hf hi (hs e)
  · exact hs e

omit h in
lemma keptByOps : KeptByOps (n := n) HotLazy where
  dbAdd h hu := by
    obtain ⟨_,rfl⟩ := dbAdd_ok.mp hu
    exact h.updDb fun hi hd => by simp [hi,addHotKeyIfNeed,hd]
  dbOverwrite h hu := by
    obtain ⟨_,rfl⟩ := dbOverwrite_ok.mp hu
    exact h.updDb fun hi hd => by simp [hi,addHotKeyIfNeed,hd]
  dbSyncDelete d key h := h.updDb fun hi hd => by simp [hi,deleteHotKeyIfNeed,hd]
  setExpire d key when h := by
    cases when with
    | none => exact h
    | some t => exact h.updDb (f := fun db => { db with expires := _ }) fun _ hd => hd
  emptyOneDb h hu := by
    obtain ⟨b,rfl,hb⟩ := emptyOneDb_ok hu
    rcases hb with rfl | ⟨rfl,he⟩
    · exact h.updDb (f := fun db => { db with hotKeys := ∅, dict := ∅, expires := ∅ }) fun _ _ => rfl
    · exact fun _ => he

lemma emptyDbs_errors (ds : List (Fin (n+1))) : OnlyErrors P (s.emptyDbs ds) := by
  induction ds generalizing s with
  | nil => exact .ok _
  | cons d ds ih =>
    refine .bind (.bind ?_ fun _ _ => .pure _) fun u hu => ih (keptByOps.emptyOneDb h hu)
    refine .ite (fun hi => ?_) fun _ => .ite (fun _ => .ok _) fun _ =>
      .ite (fun _ => .ok _) fun _ => .ok _
    refine .assert (fun hn => ?_) (.pure _)
    exact absurd (h (by simpa using hi) d) hn

lemma emptyDb_errors (dbnum : Option (Fin (n+1))) : OnlyErrors P (s.emptyDb dbnum) := by
  cases dbnum with
  | none | some d => exact h.emptyDbs_errors _

lemma applyOp {o : KsOp n} (hu : s.applyOp o = .ok u) : u.HotLazy := by
  cases o with
  | dbAsyncDelete d key =>
    cases hu
    exact h.updDb fun _ hd => hd
  | swapdb i j =>
    cases hu
    rw [swapDb_eq]
    intro hi
    exact forall_swapDb (P := fun _ db => db.hotKeys = ∅) (h hi) (h hi i) (h hi j)
  | _ => exact keptByOps.applyOp h rfl (fun _ _ _ _ => h.updDb fun _ hd => hd) hu

lemma restoreForScript (hu : s.restoreForScript d key = .ok u) : u.HotLazy := by
  obtain ⟨val,l,_,_,rfl⟩ := restoreOne_ok hu
  split
  · have hs : (s.updDb d fun db => { db with dict := db.dict.insert key (.mem val) }).HotLazy :=
      h.updDb fun _ hd => hd
    exact hs
  · exact h

lemma step (hsafe : s.lazySafe a = true) (hst : s.step a = some (.ok t)) : t.HotLazy := by
  cases dataMove_of_step hst with
  | same hd happ he => exact h.of_sameData hd
  | init u hu hd happ he =>
    obtain ⟨_,_,rfl⟩ := initHotKeys_ok.mp hu
    exact of_sameData (fun hi => by cases hi) hd
  | op o u hen hu hd happ he => exact (h.applyOp hu).of_sameData hd
  | dump d key u hi hk hu hd happ ha => exact (dumpValToRock hi hu).of_sameData hd
  | finished d key val u hidle hdb hr hv hf hu hd happ ha =>
    subst ha
    rcases finished_ok hu with ⟨hl,_,rfl⟩ | ⟨_,rfl⟩
    · refine of_sameData (fun hi => ?_) hd
      have hi' : s.alreadyInitHotKeys = false := hi
      have hin : isValueInRock (s.db d) key = true := (inRock_iff _ _).mpr hl
      simp [lazySafe,hi',hf,hdb,hr,hin] at hsafe
    · exact h.of_sameData hd
  | script d keys r u hr hc hu hd happ he hq =>
    exact (restoreAll_invariant (h.of_sameData hr)
      (fun _ _ _ hv hw => hv.restoreForScript hw) hu).of_sameData hd

lemma noFault :
    s.step a ≠ some (.error .initHotKeys) ∧ s.step a ≠ some (.error .clearHotKeysWhenEmptyDb) := by
  constructor
  · intro hst
    have hf := step_faults hst
    cases a with
    | initHotKeys =>
      simp only [Server.step,enabled_iff,Bool.not_eq_true'] at hst
      obtain ⟨⟨_,hi⟩,hst⟩ := hst
      refine OnlyErrors.bind (P := fun f => f ≠ .initHotKeys) ?_ (fun _ _ => ?_) _ hst rfl
      · exact serverAssert_errors fun hn => absurd (h hi) hn
      · exact .assert (fun _ => by decide) (.pure _)
    | _ => simp [Act.faults,checkFaults,commandFaults] at hf
  intro hst
  have hf := step_faults hst
  cases a with
  | op o =>
    simp only [Server.step,op] at hst
    split at hst
    · split at hst
      · simp only [enabled_iff] at hst
        refine OnlyErrors.bind (P := fun f => f ≠ .clearHotKeysWhenEmptyDb) ?_
          (fun _ _ => .pure _) _ hst.2 rfl
        exact applyOp_errors (by decide) (by decide) (fun dbnum => h.emptyDb_errors dbnum) o
      · cases hst
    · cases hst
  | _ => simp [Act.faults,checkFaults,commandFaults] at hf

end

end HotLazy

/-- In a run in which no result of the rock thread is put back while the index is
not filled, an index that is not filled is empty, and both assertions on it hold. -/
theorem hotKeys_lazy {cfg : Config} {as : List (Act n)}
    (hg : (machine n cfg).Guarded (fun s a => s.lazySafe a = true) (machine n cfg).init as)
    (hr : (machine n cfg).run as = some (.ok s)) :
    (s.alreadyInitHotKeys = false → ∀ d, (s.db d).hotKeys = ∅) ∧
    ∀ a, s.step a ≠ some (.error .initHotKeys) ∧
      s.step a ≠ some (.error .clearHotKeysWhenEmptyDb) := by
  have hi : s.HotLazy := (machine n cfg).guarded_invariant (I := HotLazy) (fun _ _ => rfl)
    (fun _ _ _ hi hc hst => hi.step hc hst) hg hr
  exact ⟨hi,fun _ => hi.noFault⟩

end
end Server

namespace Sample

/-- `k1` of database 0 is hot, `k2` of database 1 is on disk and client 2 waits for
it. FLUSHDB of database 0 empties the index and resets the flag. -/
def flushed : List (Act 1) :=
  [.accept 1,.accept 2,.readQuery 1 [set k1 1],.nextCommand none [],.op (.dbAdd 0 k1 (str 1)),
   .runProc false,.ret,.nextCommand none [],
   .readQuery 2 [ping,set k2 2,get k2],.nextCommand none [],.selectDb 1,.runProc false,.ret,
   .nextCommand none [],.op (.dbAdd 1 k2 (str 2)),.runProc false,.ret,
   .initHotKeys,.dump 1 k2,.nextCommand none [],
   .readQuery 1 [unlink k1],.nextCommand none [],.op (.emptyDb (some 0) false),.runProc false,
   .ret,.nextCommand none []]

/-- The rock thread's result for `k2` arrives, client 2 is served, and client 1 sends
another command. -/
def flushedThenRestored : List (Act 1) :=
  flushed ++ [.rockTake,.rockRead,.rockComplete,.rockSignal,.pipeReadable,.handlerResume [],
    .runProc false,.ret,.nextCommand none [],.handlerResume [],.handlerMoreJob [],.handlerRead,
    .readQuery 1 [ping]]

end Sample

namespace Server

theorem hotKeys_lazy_flushed : ∃ s : Server 1, (machine 1 Sample.config).run flushed =
      some (.ok s) ∧ s.alreadyInitHotKeys = false ∧ ∀ d, (s.db d).hotKeys = ∅ := by
  refine Machine.exists_run_and _ (by decide) fun s hs hi => ?_
  exact (hotKeys_lazy (Machine.guarded_check _ _ _ _ (by decide)) hs).1 hi

/-- The result is put back with its hot key although the flag is not set, and the
next attempt to fill the index stops the server. -/
theorem hotKeys_not_lazy : ∃ s : Server 1, (machine 1 Sample.config).Reachable s ∧
    s.alreadyInitHotKeys = false ∧ k2 ∈ (s.db 1).hotKeys ∧
    s.step .initHotKeys = some (.error .initHotKeys) := by
  obtain ⟨s,hs,hfree,hi,hk⟩ := (machine 1 Sample.config).exists_run flushedThenRestored
    (fun s => s.canFreeMemory = true ∧ s.alreadyInitHotKeys = false ∧ k2 ∈ (s.db 1).hotKeys)
    (by decide)
  have hne : ¬ ∀ d, (s.db d).hotKeys = ∅ := by
    intro he
    rw [he 1] at hk
    exact absurd hk (Finset.notMem_empty _)
  refine ⟨s,⟨_,hs⟩,hi,hk,?_⟩
  simp only [step,hfree,hi,Bool.not_false,and_self,if_true,initHotKeys,serverAssert,hne]
  rfl

end Server
end RedRock
