import RedRock.Contents
import RedRock.Flag

/-!
Swapping does not change the data. What a key stands for is the object in memory
or the one RocksDB holds for it; in every interleaving that is what a plain map
holds after the same operations. The point is the value in flight: while a job
may still be taken, its key is waited for, so it is not dumped again, and the
value the rock thread read is the one on disk.
-/

namespace RedRock
open Lib List Sample Robj

namespace Server
variable {n : Nat} {s t u : Server n} {a : Act n} {d : Fin (n+1)} {key : Sds} {c : Content}

def logical (s : Server n) : Store (Fin (n+1)) Sds (Except Fault Content) := fun d key =>
  (s.look d key).map fun
    | .mem o => .ok o.content
    | .valueInRock => (s.restoreObjFromRocksdb d key).map content

def OnDisk (s : Server n) (d : Fin (n+1)) (key : Sds) (c : Content) : Prop :=
  key ≠ [] ∧ ∃ o buf, (s.rocksdb d).lookup key = some buf ∧ serObject o = .ok buf ∧ o.content = c

lemma OnDisk.of_rocksdb (h : s.OnDisk d key c) (hr : t.rocksdb = s.rocksdb) :
    t.OnDisk d key c := by
  unfold OnDisk
  rw [hr]
  exact h

lemma OnDisk.restore (h : s.OnDisk d key c) :
    ∃ val, s.restoreObjFromRocksdb d key = .ok val ∧ val.content = c := by
  obtain ⟨hne,o,buf,hl,hs,hc⟩ := h
  exact ⟨_,restoreObj_ok.mpr ⟨hne,buf,hl,desObject_serObject s.config hs⟩,hc⟩

def Represents (s : Server n) (d : Fin (n+1)) (key : Sds) : DbVal → Content → Prop
  | .mem o, c => o.content = c
  | .valueInRock, c => s.OnDisk d key c

lemma Represents.of_rocksdb {val : DbVal} (h : s.Represents d key val c)
    (hr : t.rocksdb = s.rocksdb) : t.Represents d key val c := by
  cases val with
  | mem o => exact h
  | valueInRock => exact OnDisk.of_rocksdb h hr

lemma OnDisk.unique {c' : Content} (h : s.OnDisk d key c) (h' : s.OnDisk d key c') : c = c' := by
  obtain ⟨val,hv,hc⟩ := h.restore
  obtain ⟨val',hv',hc'⟩ := h'.restore
  rw [hv] at hv'
  cases hv'
  exact hc.symm.trans hc'

def Dumped (s : Server n) : Prop :=
  ∀ d key buf, (s.rocksdb d).lookup key = some buf → ∃ o, serObject o = .ok buf

lemma Dumped.onDisk (h : s.Dumped) {val : Robj}
    (hv : s.restoreObjFromRocksdb d key = .ok val) : s.OnDisk d key val.content := by
  obtain ⟨hne,buf,hl,hd⟩ := restoreObj_ok.mp hv
  obtain ⟨o,ho⟩ := h d key buf hl
  refine ⟨hne,o,buf,hl,ho,?_⟩
  rw [desObject_serObject s.config ho] at hd
  cases hd
  rfl

/-- The dictionaries and RocksDB together hold `σ`. -/
def Holds (s : Server n) (σ : Store (Fin (n+1)) Sds Content) : Prop := s.look.Rel s.Represents σ

section
variable {σ : Store (Fin (n+1)) Sds Content}

lemma Dumped.of_rocksdb (h : s.Dumped) (hr : t.rocksdb = s.rocksdb) : t.Dumped := by
  unfold Dumped
  rw [hr]
  exact h

section
variable (h : s.Holds σ)
include h

lemma Holds.congr (hl : t.look = s.look) (hr : t.rocksdb = s.rocksdb) : t.Holds σ := by
  intro e k
  rw [hl]
  exact optionRel_mono (h e k) fun _ _ hR => hR.of_rocksdb hr

lemma Holds.logical (d : Fin (n+1)) (key : Sds) : s.logical d key = (σ d key).map .ok := by
  have hd := h d key
  unfold Server.logical
  cases hl : s.look d key with
  | none =>
    rw [hl,optionRel_none] at hd
    simp [hd]
  | some val =>
    rw [hl,optionRel_some] at hd
    obtain ⟨c,hσ,hR⟩ := hd
    rw [hσ]
    cases val with
    | mem o =>
      have hc : o.content = c := hR
      simp [hc]
    | valueInRock =>
      obtain ⟨v,hv,hc⟩ := OnDisk.restore hR
      simp [hv,hc,Except.map]

lemma Holds.restore {val : Robj} (hl : s.look d key = some .valueInRock)
    (hd : s.OnDisk d key val.content) :
    (s.look.set d key (some (.mem val))).Rel s.Represents σ := by
  intro e k
  by_cases hek : e = d ∧ k = key
  · obtain ⟨rfl,rfl⟩ := hek
    have hr := h e k
    rw [hl,optionRel_some] at hr
    obtain ⟨c,hσ,hR⟩ := hr
    have hc : val.content = c := hd.unique hR
    simp only [Store.set,and_self,if_true,hσ]
    exact .some hc
  simp only [Store.set,hek,if_false]
  exact h e k

lemma Holds.applyOp {o : KsOp n} (ho : o.toStore.stays = true)
    (hu : s.applyOp o = .ok u) : u.Holds (σ.apply (o.toStore.map content)) := by
  have hr : u.rocksdb = s.rocksdb := by
    obtain ⟨db,b,rfl,_⟩ := op_keyspace hu
    rfl
  have hs := Store.Rel.apply (f := DbVal.mem) (g := content) h ho fun _ _ _ => rfl
  rw [← applyOp_look hu] at hs
  exact fun e k => optionRel_mono (hs e k) fun _ _ hR => hR.of_rocksdb hr

lemma Holds.restoreForScript (he : s.Dumped) (hu : s.restoreForScript d key = .ok u) :
    u.Holds σ ∧ u.rocksdb = s.rocksdb := by
  obtain ⟨val,l,hv,_,rfl⟩ := restoreOne_ok hu
  split
  · rename_i hl
    refine ⟨?_,rfl⟩
    have hs := h.restore hl (he.onDisk hv)
    rw [← look_updDb_insert (f := fun db => { db with dict := db.dict.insert key (.mem val) }) s d
      fun _ => rfl] at hs
    exact hs
  · exact ⟨h,rfl⟩

lemma Holds.restoreAllForScript (he : s.Dumped) {keys : List Sds}
    (hu : s.restoreAllForScript d keys = .ok u) : u.Holds σ := by
  have hall : u.Holds σ ∧ u.rocksdb = s.rocksdb := by
    refine restoreAll_invariant (I := fun v => v.Holds σ ∧ v.rocksdb = s.rocksdb) ⟨h,rfl⟩ ?_ hu
    intro v w key hv hw
    obtain ⟨hh,hr⟩ := hv.1.restoreForScript (he.of_rocksdb hv.2) hw
    exact ⟨hh,hr.trans hv.2⟩
  exact hall.1

end

end

lemma dumpVal_lookup (h : s.dumpValToRock d key = .ok u) :
    ∃ o buf, s.look d key = some (.mem o) ∧ serObject o = .ok buf ∧ key ≠ [] ∧
      u.look = s.look.set d key (some .valueInRock) ∧
      ∀ e k, (u.rocksdb e).lookup k =
        if e = d ∧ k = key then some buf else (s.rocksdb e).lookup k := by
  obtain ⟨o,buf,hl,_,hs,hne,_,rfl⟩ := dumpVal_ok.mp h
  refine ⟨o,buf,hl,hs,hne,?_,?_⟩
  · exact look_updDb_insert (f := fun db => { db with
      dict := db.dict.insert key .valueInRock, hotKeys := db.hotKeys.erase key }) _ d fun _ => rfl
  intro e k
  simp only [updDb,Function.update_apply]
  by_cases he : e = d
  · subst he
    simp [Dict.lookup_insert_ite]
  · simp [he]

lemma OnDisk.dump (h : s.OnDisk d key c) {e : Fin (n+1)} {k : Sds}
    (hu : s.dumpValToRock e k = .ok u) (hne : ¬ (d = e ∧ key = k)) : u.OnDisk d key c := by
  obtain ⟨o,buf,_,_,_,_,hr⟩ := dumpVal_lookup hu
  unfold OnDisk
  rw [hr,if_neg hne]
  exact h

lemma Holds.dump {σ : Store (Fin (n+1)) Sds Content} (h : s.Holds σ)
    (hu : s.dumpValToRock d key = .ok u) : u.Holds σ := by
  obtain ⟨o,buf,hl,hs,hne,hlook,hr⟩ := dumpVal_lookup hu
  intro e k
  have hek := h e k
  rw [hlook]
  by_cases he : e = d ∧ k = key
  · obtain ⟨rfl,rfl⟩ := he
    rw [hl,optionRel_some] at hek
    obtain ⟨c,hσ,hR⟩ := hek
    simp only [Store.set,and_self,if_true,hσ]
    exact .some ⟨hne,o,buf,by simp [hr],hs,hR⟩
  simp only [Store.set,he,if_false]
  refine optionRel_mono hek fun val c hR => ?_
  cases val with
  | mem o => exact hR
  | valueInRock => exact OnDisk.dump hR hu he

lemma DataMove.rocksdb (h : DataMove s t a) : t.rocksdb = s.rocksdb ∨
    ∃ d key u, a = .dump d key ∧ key ∉ (s.db d).rockKeys ∧ s.dumpValToRock d key = .ok u ∧
      t.rocksdb = u.rocksdb := by
  cases h with
  | same h happ he => exact .inl h.rocksdb
  | init u hu h happ he =>
    rw [h.rocksdb,(initHotKeys_ok.mp hu).2.2]
    exact .inl rfl
  | op o u hen hu h happ he =>
    obtain ⟨db,b,rfl,_⟩ := op_keyspace hu
    exact .inl h.rocksdb
  | dump d key u hi hk hu h happ ha => exact .inr ⟨d,key,u,ha,hk,hu,h.rocksdb⟩
  | finished d key val u hidle hd hr hv hf hu h happ he =>
    obtain ⟨db,b,rfl,_⟩ := finished_keyspace hu
    exact .inl h.rocksdb
  | script d keys r u hr hc hu h happ he =>
    obtain ⟨db,l,m,rep,ps,rfl,_⟩ := restoreAll_script hu
    exact .inl (h.rocksdb.trans hr.rocksdb)

lemma Dumped.step (hd : s.Dumped) (h : DataMove s t a) : t.Dumped := by
  rcases h.rocksdb with hr | ⟨d,key,u,_,_,hu,hr⟩
  · exact hd.of_rocksdb hr
  refine Dumped.of_rocksdb ?_ hr
  obtain ⟨o,buf,_,hs,_,_,hl⟩ := dumpVal_lookup hu
  intro e k b hb
  rw [hl] at hb
  split at hb
  · cases hb
    exact ⟨o,hs⟩
  · exact hd e k b hb

lemma OnDisk.step (hc : s.OnDisk d key c) (hk : key ∈ (s.db d).rockKeys) (h : DataMove s t a) :
    t.OnDisk d key c := by
  rcases h.rocksdb with hr | ⟨e,k,u,_,hn,hu,hr⟩
  · exact hc.of_rocksdb hr
  refine (hc.dump hu ?_).of_rocksdb hr
  rintro ⟨rfl,rfl⟩
  exact hn hk

def plain (s : Server n) : Store (Fin (n+1)) Sds Content :=
  Store.replay (s.applied.map fun o => o.toStore.map content)

lemma plain_congr (h : t.applied = s.applied) : t.plain = s.plain := by
  rw [plain,plain,h]

structure ValueInv (s : Server n) : Prop where
  dumped : s.Dumped
  holds : s.Holds s.plain
  loaded : s.handler.clearing = false → s.rockJob.alreadyFinishedByScript = false →
    ∀ d key val, s.rockThread = .loaded d key val → s.OnDisk d key val.content
  returned : s.handler.clearing = false → s.rockJob.alreadyFinishedByScript = false →
    ∀ d key val, s.rockJob.dbid = some d → s.rockJob.returnKey = some key →
      s.rockJob.valInRock = some val → s.OnDisk d key val.content

lemma ValueInv.init (cfg : Config) : ValueInv (initServer n cfg) where
  dumped := by simp [initServer,Dumped]
  holds := fun _ _ => .none
  loaded := by simp [initServer]
  returned := by simp [initServer]

lemma ValueInv.holds_step (h : ValueInv s) (hop : ∀ o, a.effect = some o → o.toStore.stays = true)
    (hm : DataMove s t a) : t.Holds t.plain := by
  cases hm with
  | same hd happ he =>
    rw [plain_congr happ]
    exact h.holds.congr hd.look hd.rocksdb
  | init u hu hd happ he =>
    rw [plain_congr happ]
    refine h.holds.congr (hd.look.trans (initHotKeys_look hu)) ?_
    rw [hd.rocksdb,(initHotKeys_ok.mp hu).2.2]
  | op o u hen hu hd happ he =>
    have hp : t.plain = s.plain.apply (o.toStore.map content) := by
      rw [plain,plain,happ,map_append,map_singleton,Store.replay_append]
    rw [hp]
    exact (h.holds.applyOp (hop o he) hu).congr hd.look hd.rocksdb
  | dump d key u hi hk hu hd happ he =>
    rw [plain_congr happ]
    exact (h.holds.dump hu).congr hd.look hd.rocksdb
  | finished d key val u hidle hdb hr hv hf hu hd happ he =>
    rw [plain_congr happ]
    have hdisk : s.OnDisk d key val.content := by
      refine h.returned ?_ hf d key val hdb hr hv
      rw [hidle]
      rfl
    rcases finished_ok hu with ⟨hl,_,rfl⟩ | ⟨_,rfl⟩
    · have hs := h.holds.restore hl hdisk
      rw [← look_updDb_insert (f := fun db => { db with
        dict := db.dict.insert key (.mem val), hotKeys := insert key db.hotKeys }) s d
        fun _ => rfl] at hs
      exact Holds.congr (s := s.updDb d _) hs hd.look hd.rocksdb
    · exact h.holds.congr hd.look hd.rocksdb
  | script d keys r u hr hc hu hd happ he =>
    rw [plain_congr happ]
    have hrd : r.Dumped := h.dumped.of_rocksdb hr.rocksdb
    have hrh : r.Holds s.plain := h.holds.congr hr.look hr.rocksdb
    exact (hrh.restoreAllForScript hrd hu).congr hd.look hd.rocksdb

lemma ValueInv.step (h : ValueInv s) (hi : SlotInv s)
    (hop : ∀ o, a.effect = some o → o.toStore.stays = true) (hst : s.step a = some (.ok t)) :
    ValueInv t := by
  have hm := dataMove_of_step hst
  refine ⟨h.dumped.step hm,h.holds_step hop hm,?_,?_⟩
  -- the value the rock thread holds
  · intro hcl hflag d key val hth
    have hkeep : s.handler.clearing = false → s.rockJob.alreadyFinishedByScript = false →
        s.rockThread = .loaded d key val → t.OnDisk d key val.content := by
      intro hcl hflag hth
      refine (h.loaded hcl hflag d key val hth).step ?_ hm
      have hfor := hi.thread d key (.inr ⟨val,hth⟩)
      exact hi.waited_of_unmarked hcl hflag ⟨hfor.1,RockJob.key_of_workKey hfor.2⟩
    cases slotMove_of_step hst with
    | same hj hr hth' hcl' =>
      rw [hj] at hflag
      exact hkeep (hcl' hcl) hflag (hth'.symm.trans hth)
    | thread hj hr hth' hcl' =>
      obtain ⟨htook,hv⟩ := hth' d key val hth
      rw [hj] at hflag
      rw [hcl'] at hcl
      refine (h.dumped.onDisk hv).step ?_ hm
      have hfor := hi.thread d key (.inl htook)
      exact hi.waited_of_unmarked hcl hflag ⟨hfor.1,RockJob.key_of_workKey hfor.2⟩
    | complete d' key' val' hs hw hd hj hr hth' hcl' =>
      rw [hth'] at hth
      cases hth
    | start d' key' hz hw hk hj hr hth' =>
      have hfor := hi.thread d key (.inr ⟨val,hth'.symm.trans hth⟩)
      rw [hw] at hfor
      cases hfor.2
    | zero hh hj hr hth' =>
      have hfor := hi.thread d key (.inr ⟨val,hth'.symm.trans hth⟩)
      have hret := (hi.clearing (by rw [hh]; rfl)).2
      rw [RockJob.WellFormed.workKey_none hi.wellFormed hret] at hfor
      cases hfor.2
    | mark m hf hu hk hj hr hth' =>
      rw [hj] at hflag
      cases hflag
  -- the value in the slot
  · intro hcl hflag d key val hd hret hval
    have hkeep : s.handler.clearing = false → t.rockJob = s.rockJob → t.OnDisk d key val.content := by
      intro hcl hj
      rw [hj] at hflag hd hret hval
      refine (h.returned hcl hflag d key val hd hret hval).step ?_ hm
      have hw : s.rockJob.workKey = none :=
        RockJob.WellFormed.workKey_none hi.wellFormed (by simp [hret])
      exact hi.waited_of_unmarked hcl hflag ⟨hd,by simp [RockJob.key,hw,hret]⟩
    cases slotMove_of_step hst with
    | same hj hr hth' hcl' => exact hkeep (hcl' hcl) hj
    | thread hj hr hth' hcl' => exact hkeep (by rw [← hcl']; exact hcl) hj
    | complete d' key' val' hs hw hd' hj hr hth' hcl' =>
      rw [hj] at hflag hd hret hval
      cases hd'.symm.trans hd
      cases hret
      cases hval
      rw [hcl'] at hcl
      refine (h.loaded hcl hflag d key val hs).step ?_ hm
      exact hi.waited_of_unmarked hcl hflag ⟨hd',RockJob.key_of_workKey hw⟩
    | start d' key' hz hw hk hj hr hth' | zero hh hj hr hth' =>
      rw [hj] at hret
      cases hret
    | mark m hf hu hk hj hr hth' =>
      rw [hj] at hflag
      cases hflag

lemma valueInv_of_run {cfg : Config} {as : List (Act n)}
    (hops : ∀ o ∈ as.filterMap Act.effect, o.toStore.stays = true)
    (hr : (machine n cfg).run as = some (.ok s)) : SlotInv s ∧ ValueInv s := by
  have hg := (machine n cfg).guarded_forall
    (C := fun _ a => ∀ o, a.effect = some o → o.toStore.stays = true) (machine n cfg).init as
    (fun a ha _ o he => hops o (mem_filterMap.mpr ⟨a,ha,he⟩))
  refine (machine n cfg).guarded_invariant (I := fun s => SlotInv s ∧ ValueInv s)
    ⟨SlotInv.init cfg,ValueInv.init cfg⟩ ?_ hg hr
  intro s a t hi hop hst
  exact ⟨hi.1.step hst,hi.2.step hi.1 hop hst⟩

open Sample

end Server
end RedRock
