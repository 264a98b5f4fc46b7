import RedRock.Hooks
import RedRock.Integrity
import RedRock.Lib.Index

/-!
`hotKeys` is an index of the dictionary: the keys whose value may be dumped. A hot
key is in the dictionary with such a value.
-/

namespace RedRock
open Lib Finset Indexes DbVal

/-- What `addHotKeyIfNeed` asks of a value. -/
def DbVal.CanBeHot : DbVal → Prop
  | .valueInRock => False
  | .mem o => o.type ≠ .stream ∧ o.refcount ≠ OBJ_SHARED_REFCOUNT

instance : DecidablePred CanBeHot
  | .valueInRock => inferInstanceAs (Decidable False)
  | .mem o => inferInstanceAs (Decidable (o.type ≠ .stream ∧ o.refcount ≠ OBJ_SHARED_REFCOUNT))

def RedisDb.HotSound (db : RedisDb) : Prop := Indexes CanBeHot db.hotKeys db.dict

section
variable {db : RedisDb} {key : Sds} {val : DbVal}

lemma addHotKey_hotSound (h : Indexes CanBeHot (db.hotKeys.erase key) db.dict)
    (hl : db.dict.lookup key = some val) (hv : val = .valueInRock → key ∉ db.hotKeys) :
    (addHotKeyIfNeed true key val db).HotSound := by
  cases val with
  | valueInRock =>
    rw [erase_eq_of_notMem (hv rfl)] at h
    exact h
  | mem o =>
    by_cases ho : o.type = .stream ∨ o.refcount = OBJ_SHARED_REFCOUNT
    · simp only [addHotKeyIfNeed,ho,Bool.not_true,Bool.false_eq_true,if_true,if_false]
      exact h
    simp only [addHotKeyIfNeed,ho,Bool.not_true,Bool.false_eq_true,if_false]
    exact h.insert_key hl (not_or.mp ho)

lemma RedisDb.HotSound.insert (h : db.HotSound) (hv : val = .valueInRock → key ∉ db.hotKeys) :
    (addHotKeyIfNeed true key val { db with dict := db.dict.insert key val }).HotSound := by
  refine addHotKey_hotSound ?_ ?_ hv
  · exact insert_dict (h.mono (erase_subset key db.hotKeys)) (by simp)
  · simp

lemma addHotKeys_hotSound {es : List (Sigma fun _ : Sds => DbVal)} (h : db.HotSound)
    (hes : ∀ e ∈ es, db.dict.lookup e.1 = some e.2) : (addHotKeys es db).HotSound := by
  induction es generalizing db with
  | nil => exact h
  | cons e es ih =>
    have hl := hes e (by simp)
    have hhead : (addHotKeyIfNeed true e.1 e.2 db).HotSound := by
      refine addHotKey_hotSound (h.mono (erase_subset e.1 db.hotKeys)) hl ?_
      intro hv
      rw [hv] at hl
      exact h.notMem hl id
    refine ih hhead fun e' he' => ?_
    rw [Server.addHotKey_dict]
    exact hes e' (by simp [he'])

lemma hotSound_keptByHooks : KeptByHooks RedisDb.HotSound where
  put h hn := h.insert fun hv hhot => hn (mem h hhot) hv
  delete key h :=
    erase_dict (h.mono (erase_subset key _)) (notMem_erase key _)
  clear _ := empty _ _
  modify {db key old o} h hl _ hr ht := by
    refine insert_dict h fun hk => ?_
    obtain ⟨val,hl',hv⟩ := h key hk
    cases hl.symm.trans hl'
    refine ⟨ht ▸ hv.1,?_⟩
    rw [hr]
    decide
  expires _ h := h

end

namespace Server
variable {n : Nat} {s t u : Server n} {a : Act n} {d : Fin (n+1)} {key : Sds}

def HotSound (s : Server n) : Prop := s.alreadyInitHotKeys = true → ∀ d, (s.db d).HotSound

/-- The two operations without a hook: `dbAsyncDelete` is safe for a key that is
not hot, and SWAPDB where each index also describes the other dictionary. -/
def hooked (s : Server n) : KsOp n → Bool
  | .dbAsyncDelete d key => decide (key ∉ (s.db d).hotKeys)
  | .swapdb i j => decide (Indexes CanBeHot (s.db i).hotKeys (s.db j).dict ∧
      Indexes CanBeHot (s.db j).hotKeys (s.db i).dict)
  | _ => true

/-- No operation without a hook touches a hot key, and the value about to be
restored is not a shared object. -/
def hotSafe (s : Server n) (a : Act n) : Bool :=
  a.effect.all s.hooked && (decide (a ≠ .pipeReadable) ||
      s.rockJob.valInRock.all fun val => decide (val.refcount ≠ OBJ_SHARED_REFCOUNT))

namespace HotSound

lemma initHotKeys (hu : s.initHotKeys = .ok u) : u.HotSound := by
  obtain ⟨he,_,rfl⟩ := initHotKeys_ok.mp hu
  intro _ e
  refine addHotKeys_hotSound ?_ fun x hx => ?_
  · unfold RedisDb.HotSound
    rw [he]
    exact empty _ _
  · exact AList.mem_lookup_iff.mpr hx

section
variable (h : s.HotSound)
include h

lemma of_sameData (hd : SameData s t) : t.HotSound := by
  intro hi e
  have hs := h (hd.alreadyInitHotKeys ▸ hi) e
  unfold RedisDb.HotSound at hs ⊢
  rw [hd.dict,hd.hotKeys]
  exact hs

lemma dbAsyncDelete (hk : s.alreadyInitHotKeys = true → key ∉ (s.db d).hotKeys) :
    (s.dbAsyncDelete d key).HotSound :=
  WhenHot.updDb h fun hi hd => erase_dict hd (hk hi)

lemma dumpValToRock (hu : s.dumpValToRock d key = .ok u) : u.HotSound := by
  obtain ⟨o,buf,_,_,_,_,_,rfl⟩ := dumpVal_ok.mp hu
  refine WhenHot.updDb (s := { s with
      rocksdb := Function.update s.rocksdb d ((s.rocksdb d).insert key buf) }) h fun _ hd => ?_
  exact insert_dict (hd.mono (erase_subset key _)) (by simp)

lemma restoreFinished {val : Robj} (hv : s.alreadyInitHotKeys = true → (mem val).CanBeHot)
    (hu : s.restoreFinished d key val = .ok u) : u.HotSound := by
  rcases finished_ok hu with ⟨_,_,rfl⟩ | ⟨_,rfl⟩
  · refine WhenHot.updDb h fun hi hd => insert_key (v := .mem val) ?_ ?_ (hv hi)
    · exact insert_dict (hd.mono (erase_subset key _)) (by simp)
    · simp
  · exact h

lemma restoreForScript (hu : s.restoreForScript d key = .ok u) : u.HotSound := by
  obtain ⟨val,l,_,_,rfl⟩ := restoreOne_ok hu
  split
  · rename_i hl
    have hs : (s.updDb d fun db => { db with dict := db.dict.insert key (.mem val) }).HotSound :=
      WhenHot.updDb h fun _ hd =>
        insert_dict hd fun hk => absurd hk (notMem hd hl id)
    exact hs
  · exact h

lemma restoreAllForScript {keys : List Sds}
    (hu : s.restoreAllForScript d keys = .ok u) : u.HotSound :=
  restoreAll_invariant h (fun _ _ _ hv hw => hv.restoreForScript hw) hu

lemma applyOp {o : KsOp n} (hen : s.opEnabled o = true)
    (ho : s.alreadyInitHotKeys = true → s.hooked o = true) (hu : s.applyOp o = .ok u) :
    u.HotSound := by
  cases o with
  | dbAsyncDelete d key =>
    cases hu
    exact h.dbAsyncDelete fun hi => of_decide_eq_true (ho hi)
  | swapdb i j =>
    cases hu
    refine WhenHot.dbSwapDatabases h fun hi => ?_
    have hw := of_decide_eq_true (ho hi)
    exact hw
  | _ => exact WhenHot.applyOp hotSound_keptByHooks h hen rfl hu

end

end HotSound

lemma serObject_not_stream {o : Robj} {buf : Bytes} (h : serObject o = .ok buf) :
    o.type ≠ .stream := by
  obtain ⟨rockType,ht,_⟩ := bind_ok.mp h
  unfold Robj.type
  cases hc : o.content with
  | stream payload =>
    rw [hc] at ht
    cases ht
  | _ => simp [Content.type]

lemma OnDisk.not_stream {c : Content} (h : s.OnDisk d key c) : c.type ≠ .stream := by
  obtain ⟨_,o,buf,_,hs,rfl⟩ := h
  exact serObject_not_stream hs

structure NoStream (s : Server n) : Prop where
  dumped : s.Dumped
  loaded : ∀ d key val, s.rockThread = .loaded d key val → val.type ≠ .stream
  returned : ∀ val, s.rockJob.valInRock = some val → val.type ≠ .stream

lemma NoStream.init (cfg : Config) : NoStream (initServer n cfg) where
  dumped := by simp [initServer,Dumped]
  loaded := by simp [initServer]
  returned := by simp [initServer]

lemma NoStream.of_keyspace (h : NoStream s) (hk : KeyspaceOnly s t) : NoStream t := by
  obtain ⟨db,b,rfl,_⟩ := hk
  exact ⟨h.dumped,h.loaded,h.returned⟩

lemma NoStream.step (h : NoStream s) (hst : s.step a = some (.ok t)) : NoStream t := by
  refine ⟨h.dumped.step (dataMove_of_step hst),?_,?_⟩
  · intro d key val hth
    cases slotMove_of_step hst with
    | same hj hr hth' hcl | start d' key' hz hw hk hj hr hth' | zero hh hj hr hth'
    | mark m hf hu hk hj hr hth' => exact h.loaded d key val (hth'.symm.trans hth)
    | thread hj hr hth' hcl => exact (h.dumped.onDisk (hth' d key val hth).2).not_stream
    | complete d' key' val' hs hw hd hj hr hth' hcl =>
      rw [hth'] at hth
      cases hth
  intro val hv
  cases slotMove_of_step hst with
  | same hj hr hth hcl | thread hj hr hth hcl => exact h.returned val (by rw [← hj]; exact hv)
  | complete d' key' val' hs hw hd hj hr hth hcl =>
    rw [hj] at hv
    cases hv
    exact h.loaded d' key' val hs
  | start d' key' hz hw hk hj hr hth | mark m hf hu hk hj hr hth =>
    rw [hj] at hv
    exact h.returned val hv
  | zero hh hj hr hth =>
    rw [hj] at hv
    cases hv

structure HotInv (s : Server n) : Prop extends NoStream s where
  hot : s.HotSound

lemma HotInv.init (cfg : Config) : HotInv (initServer n cfg) where
  toNoStream := .init cfg
  hot := fun hi => by cases hi

lemma HotInv.hot_step (h : HotInv s) (hsafe : s.hotSafe a = true) (hm : DataMove s t a) :
    t.HotSound := by
  unfold hotSafe at hsafe
  rw [Bool.and_eq_true] at hsafe
  cases hm with
  | same hd happ he => exact h.hot.of_sameData hd
  | init u hu hd happ he => exact (HotSound.initHotKeys hu).of_sameData hd
  | op o u hen hu hd happ he =>
    have ho : s.hooked o = true := by simpa [he] using hsafe.1
    exact (h.hot.applyOp hen (fun _ => ho) hu).of_sameData hd
  | dump d key u hi hk hu hd happ ha => exact (h.hot.dumpValToRock hu).of_sameData hd
  | finished d key val u hidle hdb hr hv hf hu hd happ ha =>
    have hval : val.refcount ≠ OBJ_SHARED_REFCOUNT := by simpa [ha,hv] using hsafe.2
    exact (h.hot.restoreFinished (fun _ => ⟨h.returned val hv,hval⟩) hu).of_sameData hd
  | script d keys r u hr hc hu hd happ he =>
    exact ((h.hot.of_sameData hr).restoreAllForScript hu).of_sameData hd

lemma HotInv.step (h : HotInv s) (hsafe : s.hotSafe a = true) (hst : s.step a = some (.ok t)) :
    HotInv t :=
  ⟨h.toNoStream.step hst,h.hot_step hsafe (dataMove_of_step hst)⟩

lemma rockPoolPopulate_of_step (h : s.step a = some (.error .rockPoolPopulate)) :
    ∃ d key, s.alreadyInitHotKeys = true ∧ key ∈ (s.db d).hotKeys ∧ key ∉ (s.db d).dict := by
  have hf := step_faults h
  cases a with
  | sampleHotKey d key =>
    simp only [step,sampleHotKey,enabled_iff] at h
    obtain ⟨⟨_,hi,hk⟩,h⟩ := h
    refine ⟨d,key,hi,hk,fun hmem => ?_⟩
    rw [if_pos hmem] at h
    cases h
  | _ => simp [Act.faults,checkFaults,commandFaults] at hf

/-- In a run in which every step is safe for the index, a hot key is in memory
with a value that is neither a stream nor shared, and a sampled key is found. -/
theorem hotKeys_sound {cfg : Config} {as : List (Act n)}
    (hg : (machine n cfg).Guarded (fun s a => s.hotSafe a = true) (machine n cfg).init as)
    (hr : (machine n cfg).run as = some (.ok s)) :
    (s.alreadyInitHotKeys = true → ∀ d, ∀ key ∈ (s.db d).hotKeys, ∃ o,
      (s.db d).dict.lookup key = some (.mem o) ∧ o.type ≠ .stream ∧
        o.refcount ≠ OBJ_SHARED_REFCOUNT) ∧
    ∀ a, s.step a ≠ some (.error .rockPoolPopulate) := by
  have hi : HotInv s := (machine n cfg).guarded_invariant (HotInv.init cfg)
    (fun _ _ _ hi hc hst => hi.step hc hst) hg hr
  constructor
  · intro ha d key hk
    obtain ⟨val,hl,hv⟩ := hi.hot ha d key hk
    cases val with
    | valueInRock => cases hv
    | mem o => exact ⟨o,hl,hv⟩
  intro a ha
  obtain ⟨d,key,hinit,hk,hn⟩ := rockPoolPopulate_of_step ha
  exact hn (mem (hi.hot hinit d) hk)

end Server

namespace Sample

def unlink (k : Sds) : Command := ⟨⟨.other,none,true,false⟩,[[117],k]⟩

/-- Client 1 writes `k1` and `k2`, and `k1` is dumped before its next command. -/
def halfStored {n : Nat} (next : List Command) : List (Act n) :=
  [.accept 1,.readQuery 1 ([set k1 1,set k2 2] ++ next),
   .nextCommand none [],.op (.dbAdd 0 k1 (str 1)),.runProc false,.ret,
   .nextCommand none [],.op (.dbAdd 0 k2 (str 2)),.runProc false,.ret,
   .initHotKeys,.dump 0 k1]

end Sample

open Sample

namespace Server

/-- The handler restores `k1`, which becomes hot again. -/
theorem hotKeys_sound_restored : ∃ s : Server 0, (machine 0 Sample.config).run
      (waiting ++ jobDone ++ [.pipeReadable]) = some (.ok s) ∧
    k1 ∈ (s.db 0).hotKeys ∧
    ∃ o, (s.db 0).dict.lookup k1 = some (.mem o) ∧ o.type ≠ .stream ∧
      o.refcount ≠ OBJ_SHARED_REFCOUNT := by
  obtain ⟨s,hs,hi,hk⟩ := (machine 0 Sample.config).exists_run (waiting ++ jobDone ++ [.pipeReadable])
    (fun s => s.alreadyInitHotKeys = true ∧ k1 ∈ (s.db 0).hotKeys) (by decide)
  obtain ⟨hsound,_⟩ := hotKeys_sound (Machine.guarded_check _ _ _ _ (by decide)) hs
  exact ⟨s,hs,hk,hsound hi 0 _ hk⟩

/-- UNLINK of the hot key `k2` leaves it in the index, and the sample of the index
before the next command ends the server. -/
theorem hotKeys_dangling : ∃ s : Server 0, (machine 0 Sample.config).Reachable s ∧
    s.alreadyInitHotKeys = true ∧ k2 ∈ (s.db 0).hotKeys ∧ k2 ∉ (s.db 0).dict ∧
    s.step (.sampleHotKey 0 k2) = some (.error .rockPoolPopulate) := by
  obtain ⟨s,hs,hfree,hi,hk,hd⟩ := (machine 0 Sample.config).exists_run
    (halfStored [unlink k2,ping] ++
      [.nextCommand none [],.op (.dbAsyncDelete 0 k2),.runProc false,.ret])
    (fun s => s.canFreeMemory = true ∧ s.alreadyInitHotKeys = true ∧ k2 ∈ (s.db 0).hotKeys ∧
      k2 ∉ (s.db 0).dict) (by decide)
  refine ⟨s,⟨_,hs⟩,hi,hk,hd,?_⟩
  simp [step,sampleHotKey,hfree,hi,hk,hd]

end Server
end RedRock
