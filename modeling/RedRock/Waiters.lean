import RedRock.Slot

/-!
Waiter accounting. A client's `rockKeyNumber` is kept in step with the number of
times the client stands in the lists of `rockKeys`, over all databases.
-/

namespace RedRock
open Lib List Option Function Server Dict

lemma sum_update_add {m : Nat} (f : Fin m → Nat) (d : Fin m) (v : Nat) :
    (∑ e, update f d v e) + f d = (∑ e, f e) + v := by
  rw [← Finset.add_sum_erase Finset.univ f (Finset.mem_univ d),
    ← Finset.add_sum_erase Finset.univ (update f d v) (Finset.mem_univ d)]
  have hrest : ∑ e ∈ Finset.univ.erase d, update f d v e =
      ∑ e ∈ Finset.univ.erase d, f e := by
    apply Finset.sum_congr rfl
    intro e he
    rw [update_of_ne (Finset.ne_of_mem_erase he)]
  rw [hrest,update_self]
  omega

def RedisDb.occurrences (db : RedisDb) (c : ClientId) : Nat :=
  weight (fun l => l.count c) db.rockKeys

lemma weight_addRockKey (c x : ClientId) (rk : Dict Sds (List ClientId)) (key : Sds) :
    weight (fun l => l.count x) (addRockKey c rk key) =
      weight (fun l => l.count x) rk + (if x = c then 1 else 0) := by
  have h := weight_insert (fun l : List ClientId => l.count x) rk key
    ((rk.lookup key).getD [] ++ [c])
  have he : (rk.lookup key).elim 0 (fun l => l.count x) = ((rk.lookup key).getD []).count x := by
    cases rk.lookup key <;> simp
  have hc : ((rk.lookup key).getD [] ++ [c]).count x =
      ((rk.lookup key).getD []).count x + (if x = c then 1 else 0) := by
    rw [count_append,count_singleton]
    by_cases hx : x = c
    · simp [hx]
    · simp [hx,Ne.symm hx]
  rw [he,hc] at h
  unfold addRockKey
  omega

lemma weight_foldl_addRockKey (c x : ClientId) (keys : List Sds) (rk : Dict Sds (List ClientId)) :
    weight (fun l => l.count x) (keys.foldl (addRockKey c) rk) =
      weight (fun l => l.count x) rk + (if x = c then keys.length else 0) := by
  induction keys generalizing rk with
  | nil => simp
  | cons key keys ih =>
    rw [foldl_cons,ih,weight_addRockKey,length_cons]
    split <;> omega

def Fault.waiter : Fault → Bool
  | .rockKeyNumberPositive | .rockKeyNumberZero => true
  | _ => false

lemma notWaiter_of_mem {L : List Fault} {f : Fault} (hL : L.all (!·.waiter) = true)
    (h : f ∈ L) : f.waiter = false := by
  simpa using List.all_eq_true.mp hL f h

namespace Server
variable {n : Nat} {s t u : Server n}
variable {c : ClientId}

def occurrences (s : Server n) (c : ClientId) : Nat := ∑ d, (s.db d).occurrences c

def waits (s : Server n) (c : ClientId) : Nat := ((s.clients c).map Client.rockKeyNumber).getD 0

lemma waits_of_some {cl : Client n} (h : s.clients c = some cl) :
    s.waits c = cl.rockKeyNumber := by
  simp [waits,h]

lemma occurrences_congr (h : ∀ d, (t.db d).rockKeys = (s.db d).rockKeys) (c : ClientId) :
    t.occurrences c = s.occurrences c := by
  simp [occurrences,RedisDb.occurrences,h]

section
variable (s)

lemma occurrences_updDb (d : Fin (n+1)) (f : RedisDb → RedisDb)
    (c : ClientId) : (s.updDb d f).occurrences c + (s.db d).occurrences c =
      s.occurrences c + (f (s.db d)).occurrences c := by
  have h := sum_update_add (fun e => (s.db e).occurrences c) d ((f (s.db d)).occurrences c)
  have he : (fun e => ((s.updDb d f).db e).occurrences c) =
      update (fun e => (s.db e).occurrences c) d ((f (s.db d)).occurrences c) := by
    funext e
    rw [updDb_db,update_apply]
    split
    · rename_i hed
      rw [hed]
    · rfl
  rw [occurrences,he]
  exact h

lemma occurrences_registerWaiter (c : ClientId) (cl : Client n)
    (keys : List Sds) (errs : List String) (x : ClientId) :
    (s.registerWaiter c cl keys errs).occurrences x =
      s.occurrences x + (if x = c then keys.length else 0) := by
  have h := occurrences_updDb (s.setClient c
    (some { cl with rockKeyNumber := keys.length, reply := cl.reply ++ errs })) cl.db
    (fun db => { db with rockKeys := keys.foldl (addRockKey c) db.rockKeys }) x
  have hw := weight_foldl_addRockKey c x keys (s.db cl.db).rockKeys
  simp only [RedisDb.occurrences,setClient,occurrences] at h
  simp only [registerWaiter,occurrences,RedisDb.occurrences,setClient] at *
  omega

lemma occurrences_deleteRockKey (d : Fin (n+1)) (key : Sds) (c : ClientId) :
    (s.deleteRockKey d key).occurrences c + ((s.db d).rockKeys.lookup key).elim 0 (·.count c) =
      s.occurrences c := by
  have h := occurrences_updDb s d (fun db => { db with rockKeys := db.rockKeys.erase key }) c
  have hw := weight_erase (fun l : List ClientId => l.count c) (s.db d).rockKeys key
  simp only [RedisDb.occurrences,deleteRockKey] at *
  omega

lemma occurrences_freeClient (c x : ClientId) :
    (s.freeClient c).occurrences x = if x = c then 0 else s.occurrences x := by
  simp only [occurrences,RedisDb.occurrences,freeClient_rockKeys,weight_mapVal]
  by_cases hx : x = c
  · subst hx
    rw [if_pos rfl]
    apply Finset.sum_eq_zero
    intro d _
    have hz : (fun l : List ClientId => (l.filter (· ≠ x)).count x) = fun _ => 0 := by
      funext l
      exact count_eq_zero.mpr (by simp)
    rw [hz]
    simp [weight]
  rw [if_neg hx]
  apply Finset.sum_congr rfl
  intro d _
  congr 1
  funext l
  exact count_filter (by simpa using hx)

end

structure WaitInv (s : Server n) : Prop where
  count : ∀ c, s.occurrences c = s.waits c
  idle : ∀ c ∈ s.active, s.waits c = 0
  nodup : s.active.Nodup
  lua : s.luaClient.rockKeyNumber = 0 ∧ s.luaClient.mstate = []

/-- A client that is still there becomes due to be resumed exactly when the last
key it waits for is finished. -/
def ResumedOnLast (s t : Server n) (c : ClientId) : Prop :=
  (c ∉ s.active ∧ c ∈ t.active) ↔ (0 < s.occurrences c ∧ t.occurrences c = 0)

lemma resumedOnLast_of_le (ha : c ∈ t.active → c ∈ s.active)
    (ho : s.occurrences c ≤ t.occurrences c) : ResumedOnLast s t c := by
  constructor
  · rintro ⟨hn,hm⟩
    exact absurd (ha hm) hn
  rintro ⟨hp,hz⟩
  omega

lemma WaitInv.init (cfg : Config) : WaitInv (initServer n cfg) where
  count c := by
    simp [occurrences,RedisDb.occurrences,waits,initServer,RedisDb.empty,weight_empty]
  idle := by simp [active,initServer,Handler.active]
  nodup := by simp [active,initServer,Handler.active]
  lua := ⟨rfl,rfl⟩

namespace WaitInv
variable {pick : Sds} {d : Fin (n+1)} {r : Server n} {key : Sds} {a : Act n}

lemma check_noFault (hc : r.clients = s.clients) (hz : s.waits c = 0) :
    OnlyErrors (fun f => f.waiter = false) (r.checkThenResumeRockClient c pick) := by
  refine resumeClient_errors (by decide) (fun _ _ _ => rfl) (fun cl hcl hn => ?_) fun _ => rfl
  rw [hc] at hcl
  rw [waits_of_some hcl] at hz
  exact absurd hz hn

section
variable (h : WaitInv s)
include h

lemma congr (hk : ∀ d, (t.db d).rockKeys = (s.db d).rockKeys)
    (hw : ∀ c, t.waits c = s.waits c) (ha : t.active.Sublist s.active)
    (hl : t.luaClient.rockKeyNumber = s.luaClient.rockKeyNumber ∧
      t.luaClient.mstate = s.luaClient.mstate) : WaitInv t ∧ ∀ c, ResumedOnLast s t c := by
  have ho := occurrences_congr hk
  refine ⟨⟨?_,?_,h.nodup.sublist ha,⟨hl.1.trans h.lua.1,hl.2.trans h.lua.2⟩⟩,?_⟩
  · intro c
    rw [ho,hw,h.count]
  · intro c hc
    rw [hw]
    exact h.idle c (ha.subset hc)
  intro c
  exact resumedOnLast_of_le (fun hc => ha.subset hc) (ho c).ge

lemma of_quiet (hq : Quiet s t) : WaitInv t ∧ ∀ c, ResumedOnLast s t c := by
  refine h.congr hq.rockKeys (fun c => ?_) (by rw [hq.active]) hq.luaClient
  rw [waits,waits,hq.rockKeyNumber]

lemma listed_live {clients : List ClientId}
    (hl : (s.db d).rockKeys.lookup key = some clients) (hc : c ∈ clients) :
    ∃ cl, s.clients c = some cl ∧ clients.count c ≤ cl.rockKeyNumber := by
  have hd := occurrences_deleteRockKey s d key c
  rw [hl] at hd
  simp only [Option.elim] at hd
  have hpos := count_pos_iff.mpr hc
  have hw := h.count c
  cases hcl : s.clients c with
  | none =>
    simp only [waits,hcl,map_none,getD_none] at hw
    omega
  | some cl =>
    rw [waits_of_some hcl] at hw
    exact ⟨cl,rfl,by omega⟩

lemma finish {clients zs : List ClientId} (hl : (s.db d).rockKeys.lookup key = some clients)
    (hd : s.decrRockKeyNumbers clients = .ok (u,zs)) :
    (∀ c, (u.deleteRockKey d key).occurrences c = (u.deleteRockKey d key).waits c) ∧
    (∀ c, s.occurrences c = 0 → (u.deleteRockKey d key).occurrences c = 0) ∧
    zs.Nodup ∧
    ∀ c, c ∈ zs ↔ 0 < s.occurrences c ∧ (u.deleteRockKey d key).occurrences c = 0 := by
  obtain ⟨rfl,hle,hnd,hmem⟩ := decr_ok hd
  have hocc : ∀ c, (deleteRockKey { s with clients := fun c => (s.clients c).map fun cl =>
      { cl with rockKeyNumber := cl.rockKeyNumber - clients.count c } } d key).occurrences c +
      clients.count c = s.occurrences c := by
    intro c
    have h' := occurrences_deleteRockKey s d key c
    rw [hl] at h'
    exact h'
  have hzero : ∀ c, s.clients c = none → clients.count c = 0 := by
    intro c hc
    apply count_eq_zero.mpr
    intro hm
    obtain ⟨cl,hcl,_⟩ := hle c hm
    rw [hc] at hcl
    cases hcl
  refine ⟨?_,?_,hnd,?_⟩
  · intro c
    have h1 := hocc c
    have h2 := h.count c
    cases hcl : s.clients c with
    | none =>
      have h3 := hzero c hcl
      simp only [waits,hcl,deleteRockKey,updDb,map_none,getD_none] at h1 h2 ⊢
      omega
    | some cl =>
      simp only [waits,hcl,deleteRockKey,updDb,map_some,getD_some] at h1 h2 ⊢
      omega
  · intro c hc
    have := hocc c
    omega
  intro c
  have h1 := hocc c
  have h2 := h.count c
  rw [hmem]
  constructor
  · rintro ⟨hc,cl,hcl,he⟩
    rw [waits_of_some hcl] at h2
    have := count_pos_iff.mpr hc
    exact ⟨by omega,by omega⟩
  rintro ⟨hp,hz⟩
  have hc : c ∈ clients := count_pos_iff.mp (by omega)
  obtain ⟨cl,hcl,_⟩ := hle c hc
  rw [waits_of_some hcl] at h2
  exact ⟨hc,cl,hcl,by omega⟩

lemma checkThenCall (hc : c ∉ s.active) (hs : s.checkThenCall c pick = .ok t) :
    WaitInv t ∧ (∀ x, s.occurrences x ≤ t.occurrences x) ∧ ∀ x ∈ t.active, x = c ∨ x ∈ s.active := by
  obtain ⟨cl,q,keys,errs,hcl,hz,_,_,hr⟩ := checkCall_ok hs
  have hwc : s.waits c = 0 := (waits_of_some hcl).trans hz
  rcases hr with ⟨rfl,rfl⟩ | ⟨hne,hj⟩
  · have hw : ∀ x, waits { s.setClient c
        (some { cl with rockKeyNumber := 0, reply := cl.reply ++ errs }) with
        stack := .call ⟨c,q,s.dirty,[],false⟩ .proc :: .input c :: s.stack } x = s.waits x := by
      intro x
      by_cases hx : x = c
      · subst hx
        rw [hwc]
        simp [waits,setClient]
      · simp [waits,setClient,hx]
    have hperm : (s.handler.active ++ (c :: s.stack.flatMap Frame.active)).Perm (c :: s.active) :=
      perm_middle
    refine ⟨⟨fun x => (h.count x).trans (hw x).symm,?_,?_,h.lua⟩,fun x => le_rfl,?_⟩
    · intro x hx
      rw [hw]
      rcases mem_cons.mp (hperm.mem_iff.mp hx) with rfl | hx
      · exact hwc
      · exact h.idle x hx
    · exact hperm.nodup_iff.mpr (nodup_cons.mpr ⟨hc,h.nodup⟩)
    intro x hx
    exact mem_cons.mp (hperm.mem_iff.mp hx)
  have hreg : WaitInv (s.registerWaiter c cl keys errs) := by
    refine ⟨?_,?_,h.nodup,h.lua⟩
    · intro x
      rw [occurrences_registerWaiter,h.count]
      by_cases hx : x = c
      · subst hx
        rw [hwc]
        simp [waits,registerWaiter,setClient,updDb]
      · simp [waits,registerWaiter,setClient,updDb,hx]
    intro x hx
    have hxc : x ≠ c := by
      rintro rfl
      exact hc hx
    have hi := h.idle x hx
    simpa [waits,registerWaiter,setClient,updDb,hxc] using hi
  have hle : ∀ x, s.occurrences x ≤ (s.registerWaiter c cl keys errs).occurrences x := by
    intro x
    rw [occurrences_registerWaiter]
    omega
  rcases startJob_ok hj with ⟨_,rfl⟩ | ⟨_,_,_,d,key,_,rfl⟩
  · exact ⟨hreg,hle,fun x hx => .inr hx⟩
  · exact ⟨⟨hreg.count,hreg.idle,hreg.nodup,hreg.lua⟩,hle,fun x hx => .inr hx⟩

lemma resume (ha : s.active.Perm (c :: r.active)) (hr : WaitInv r)
    (hk : ∀ x, r.occurrences x = s.occurrences x) (hs : r.checkThenCall c pick = .ok t) :
    WaitInv t ∧ ∀ x, ResumedOnLast s t x := by
  have hc : c ∉ r.active := (nodup_cons.mp (ha.nodup_iff.mp h.nodup)).1
  obtain ⟨ht,hle,hact⟩ := hr.checkThenCall hc hs
  refine ⟨ht,fun x => resumedOnLast_of_le (fun hx => ?_) ?_⟩
  · rw [ha.mem_iff,mem_cons]
    exact hact x hx
  rw [← hk]
  exact hle x

lemma of_freeClient (c : ClientId) : WaitInv (s.freeClient c) ∧
      ∀ x, (s.freeClient c).clients x ≠ none → ResumedOnLast s (s.freeClient c) x := by
  have hcl : ∀ x, (s.freeClient c).clients x = if x = c then none else s.clients x := fun x =>
    set_clients (s.releaseRockKeyWhenFreeClient c) c x none
  refine ⟨⟨?_,?_,h.nodup,h.lua⟩,?_⟩
  · intro x
    rw [occurrences_freeClient,waits,hcl]
    by_cases hx : x = c
    · simp [hx]
    simp only [hx,if_false]
    exact h.count x
  · intro x hx
    rw [waits,hcl]
    by_cases hxc : x = c
    · simp [hxc]
    simp only [hxc,if_false]
    exact h.idle x hx
  intro x hx
  have hxc : x ≠ c := by
    intro hxc
    rw [hcl,if_pos hxc] at hx
    exact hx rfl
  refine resumedOnLast_of_le id ?_
  rw [occurrences_freeClient,if_neg hxc]

lemma pipeReadable (hstk : s.stack = []) (hidle : s.handler = .idle)
    (hs : s.rockPipeReadHandler = .ok t) : WaitInv t ∧ ∀ c, ResumedOnLast s t c := by
  have hact : s.active = [] := by simp [active,hstk,hidle,Handler.active]
  obtain ⟨d,key,val,_,_,_,_,hcase⟩ := pipeHandler_ok hs
  rcases hcase with ⟨_,rfl⟩ | ⟨_,hcf⟩
  · refine h.congr (fun _ => rfl) (fun _ => rfl) ?_ ⟨rfl,rfl⟩
    simp [active,hstk,Handler.active]
  obtain ⟨u,clients,zs,v,hu,hl,hv,rfl⟩ := clearFinishKey_ok hcf
  have hq := Quiet.of_keyspace (finished_keyspace hu)
  have hwu := (h.of_quiet hq).1
  have hou := occurrences_congr hq.rockKeys
  rw [← hq.rockKeys] at hl
  obtain ⟨hcount,_,hnd,hmem⟩ := hwu.finish hl hv
  have hstk' : v.stack = [] ∧ v.luaClient = s.luaClient := by
    obtain ⟨rfl,_⟩ := decr_ok hv
    obtain ⟨db,b,rfl,_⟩ := finished_keyspace hu
    exact ⟨hstk,rfl⟩
  have hact' : active { v.deleteRockKey d key with handler := .clearFinish zs } = zs := by
    simp [active,deleteRockKey,updDb,hstk'.1,Handler.active]
  refine ⟨⟨hcount,?_,?_,?_⟩,?_⟩
  · intro c hc
    rw [hact'] at hc
    exact (hcount c).symm.trans ((hmem c).mp hc).2
  · rw [hact']
    exact hnd
  · simp only [deleteRockKey,updDb,hstk'.2]
    exact h.lua
  intro c
  have hm := hmem c
  rw [hou] at hm
  rw [ResumedOnLast,hact,hact',hm]
  simp only [not_mem_nil,not_false_eq_true,true_and]
  rfl

lemma finishKey {k : Call n} {m : ScriptMaybeKey n} {ms : List (ScriptMaybeKey n)}
    {zs zs' : List ClientId} {rest : List (Frame n)} {v : Server n}
    (hstk : s.stack = .call k (.finishKeys (m :: ms) zs) :: rest)
    (hv : s.finishKeyFromScript m = .ok (v,zs'))
    (ht : t = { v with stack := .call k (.finishKeys ms (zs ++ zs')) :: rest }) :
    WaitInv t ∧ ∀ c, ResumedOnLast s t c := by
  subst ht
  have hact : s.active = s.handler.active ++ (zs ++ rest.flatMap Frame.active) :=
    active_of_cons hstk
  rcases scriptKey_ok hv with ⟨_,rfl,rfl⟩ | ⟨clients,u,w,hl,hu,hw,rfl⟩
  · refine h.congr (fun _ => rfl) (fun _ => rfl) ?_ ⟨rfl,rfl⟩
    simp [active,hstk,Frame.active]
  obtain ⟨hcount,hzero,hnd,hmem⟩ := h.finish hl hu
  have hwu : w.db = u.db ∧ w.clients = u.clients ∧ w.handler = u.handler ∧
      w.luaClient = u.luaClient := by
    rcases markFinished_ok hw with ⟨_,_,rfl⟩ | ⟨_,rfl⟩
    all_goals exact ⟨rfl,rfl,rfl,rfl⟩
  have hu' : u.handler = s.handler ∧ u.luaClient = s.luaClient := by
    obtain ⟨rfl,_⟩ := decr_ok hu
    exact ⟨rfl,rfl⟩
  have hdb : (w.deleteRockKey m.dbid m.key).db = (u.deleteRockKey m.dbid m.key).db := by
    simp [deleteRockKey,updDb,hwu.1]
  have ho : ∀ c, occurrences { w.deleteRockKey m.dbid m.key with
      stack := .call k (.finishKeys ms (zs ++ zs')) :: rest } c =
      (u.deleteRockKey m.dbid m.key).occurrences c := by
    intro c
    simp only [occurrences,hdb]
  have hwt : ∀ c, waits { w.deleteRockKey m.dbid m.key with
      stack := .call k (.finishKeys ms (zs ++ zs')) :: rest } c =
      (u.deleteRockKey m.dbid m.key).waits c := by
    intro c
    simp [waits,deleteRockKey,updDb,hwu.2.1]
  have hact' : active { w.deleteRockKey m.dbid m.key with
      stack := .call k (.finishKeys ms (zs ++ zs')) :: rest } =
      s.handler.active ++ ((zs ++ zs') ++ rest.flatMap Frame.active) := by
    simp [active,Frame.active,deleteRockKey,updDb,hwu.2.2.1,hu'.1]
  have hperm : (s.handler.active ++ ((zs ++ zs') ++ rest.flatMap Frame.active)).Perm
      (zs' ++ s.active) := by
    rw [hact,← append_assoc,← append_assoc,← append_assoc,← append_assoc]
    refine List.Perm.append_right _ ?_
    rw [append_assoc zs']
    exact perm_append_comm
  have hdisj : ∀ c ∈ zs', c ∉ s.active := by
    intro c hc hca
    have hp := ((hmem c).mp hc).1
    rw [h.count,h.idle c hca] at hp
    omega
  refine ⟨⟨?_,?_,?_,?_⟩,?_⟩
  · intro c
    rw [ho,hwt,hcount]
  · intro c hc
    rw [hwt,← hcount]
    rw [hact'] at hc
    rcases mem_append.mp (hperm.mem_iff.mp hc) with hc | hc
    · exact ((hmem c).mp hc).2
    refine hzero c ?_
    rw [h.count,h.idle c hc]
  · rw [hact',hperm.nodup_iff,nodup_append']
    exact ⟨hnd,h.nodup,hdisj⟩
  · simp only [deleteRockKey,updDb,hwu.2.2.2,hu'.2]
    exact h.lua
  intro c
  rw [ResumedOnLast,ho,← hmem,hact',hperm.mem_iff,mem_append]
  constructor
  · rintro ⟨hn,hc | hc⟩
    · exact hc
    · exact absurd hc hn
  intro hc
  exact ⟨hdisj c hc,.inl hc⟩

lemma step (hst : s.step a = some (.ok t)) :
    WaitInv t ∧ ∀ c, (∀ cmds, a ≠ .readQuery c cmds) → t.clients c ≠ none →
      ResumedOnLast s t c := by
  have hof : (WaitInv t ∧ ∀ c, ResumedOnLast s t c) → WaitInv t ∧ ∀ c,
      (∀ cmds, a ≠ .readQuery c cmds) → t.clients c ≠ none → ResumedOnLast s t c :=
    fun h => ⟨h.1,fun c _ _ => h.2 c⟩
  cases hq : a.quiet with
  | true => exact hof (h.of_quiet (quiet_of_step hq hst))
  | false =>
  cases transition_of hst with
  | rockTakeNone => exact hof (h.of_quiet (.refl _))
  | rockTake | rockRead | rockComplete | rockSignal =>
    exact hof (h.congr (fun _ => rfl) (fun _ => rfl) (.refl _) ⟨rfl,rfl⟩)
  | @accept c _ _ hn =>
    refine hof (h.congr (fun _ => rfl) (fun x => ?_) (.refl _) ⟨rfl,rfl⟩)
    by_cases hx : x = c
    · simp [waits,setClient,hx,hn,createClient]
    · simp [waits,setClient,hx]
  | @readQuery c cmds cl hcl hstk hidle =>
    have hact : s.active = [] := by simp [active,hstk,hidle,Handler.active]
    have hw : ∀ x, waits { s.setClient c
        (some { cl with querybuf := cl.querybuf ++ cmds }) with
        stack := if cl.rockKeyNumber > 0 then [] else [.input c] } x = s.waits x := by
      intro x
      by_cases hx : x = c
      · subst hx
        simp [waits,setClient,hcl]
      · simp [waits,setClient,hx]
    have ha : active { s.setClient c (some { cl with querybuf := cl.querybuf ++ cmds }) with
        stack := if cl.rockKeyNumber > 0 then [] else [.input c] } =
        if cl.rockKeyNumber > 0 then [] else [c] := by
      simp only [active,setClient,hidle,Handler.active,nil_append]
      split <;> rfl
    refine ⟨⟨fun x => (h.count x).trans (hw x).symm,?_,?_,h.lua⟩,?_⟩
    · intro x hx
      rw [hw]
      rw [ha] at hx
      split at hx
      · cases hx
      rw [mem_singleton.mp hx,waits_of_some hcl]
      omega
    · rw [ha]
      split <;> simp
    intro x hx _
    refine resumedOnLast_of_le (fun hm => ?_) le_rfl
    rw [ha] at hm
    split at hm
    · cases hm
    · exact absurd rfl (mem_singleton.mp hm ▸ hx cmds)
  | freeClient | killClient => exact ⟨(h.of_freeClient _).1,fun x _ => (h.of_freeClient _).2 x⟩
  | pipeReadable hstk hidle _ hs => exact hof (h.pipeReadable hstk hidle hs)
  | handlerResumed _ hh | handlerRead _ hh =>
    refine hof (h.congr (fun _ => rfl) (fun _ => rfl) ?_ ⟨rfl,rfl⟩)
    simp [active,hh,Handler.active]
  | @handlerResume _ _ c cs hstk hh hs =>
    have hact : s.active = c :: cs := by simp [active,hstk,hh,Handler.active]
    have hact' : active { s with handler := .clearFinish cs } = cs := by
      simp [active,hstk,Handler.active]
    have hpop := (h.congr (t := { s with handler := .clearFinish cs }) (fun _ => rfl)
      (fun _ => rfl) (by rw [hact,hact']; exact sublist_cons_self c cs) ⟨rfl,rfl⟩).1
    exact hof (h.resume (by rw [hact,hact']) hpop (fun _ => rfl) hs)
  | handlerMoreJob _ hh hs =>
    rcases moreJob_ok hs with ⟨d,key,_,_,rfl⟩ | ⟨_,rfl⟩
    · refine hof (h.congr (fun _ => rfl) (fun _ => rfl) ?_ ⟨rfl,rfl⟩)
      simp [active,hh,arm,Handler.active]
    refine hof (h.congr (fun _ => rfl) (fun _ => rfl) ?_ ⟨rfl,rfl⟩)
    simp [active,hh,initZeroRockJob,Handler.active]
  | inputEnd hstk | breakInput hstk =>
    refine hof (h.congr (fun _ => rfl) (fun _ => rfl) ?_ ⟨rfl,rfl⟩)
    rw [active_of_cons hstk]
    exact List.Sublist.append_left (sublist_cons_self _ _) _
  | refused _ hcl | queued _ hcl => exact hof (h.of_quiet (.setClient _ hcl rfl))
  | @checked _ _ c rest cl q qs hstk hcl _ _ _ hs =>
    have hact : s.active = s.handler.active ++ (c :: rest.flatMap Frame.active) :=
      active_of_cons hstk
    have hpop : (active { s with stack := rest }).Sublist s.active := by
      rw [hact]
      exact List.Sublist.append_left (sublist_cons_self c _) _
    have hq' := Quiet.setClient (s := s) { cl with querybuf := qs, current := some q } hcl rfl
    have hpop' := (h.of_quiet hq').1.congr (t := { s.setClient c
      (some { cl with querybuf := qs, current := some q }) with stack := rest })
      (fun _ => rfl) (fun _ => rfl) hpop ⟨rfl,rfl⟩
    refine hof (h.resume ?_ hpop'.1 (fun _ => rfl) hs)
    rw [hact]
    exact perm_middle
  | keysFinished hstk =>
    refine hof (h.congr (fun _ => rfl) (fun _ => rfl) ?_ ⟨rfl,rfl⟩)
    simp [active,hstk,Frame.active]
  | finishKey hstk hv => exact hof (h.finishKey hstk hv rfl)
  | scriptResumed hstk =>
    refine hof (h.congr (fun _ => rfl) (fun _ => rfl) ?_ ⟨rfl,rfl⟩)
    rw [active_of_cons hstk]
    exact .refl _
  | @scriptResume _ _ k rest c cs hstk hs =>
    have hact : s.active = s.handler.active ++ (c :: (cs ++ rest.flatMap Frame.active)) :=
      active_of_cons hstk
    have hact' : active { s with stack := .call k (.resume cs) :: rest } =
        s.handler.active ++ (cs ++ rest.flatMap Frame.active) := rfl
    have hpop := (h.congr (t := { s with stack := .call k (.resume cs) :: rest }) (fun _ => rfl)
      (fun _ => rfl) (by
        rw [hact,hact']
        exact List.Sublist.append_left (sublist_cons_self c _) _) ⟨rfl,rfl⟩).1
    refine hof (h.resume ?_ hpop (fun _ => rfl) hs)
    rw [hact,hact']
    exact perm_middle
  | _ => cases hq

lemma noFault {f : Fault} (hst : s.step a = some (.error f)) : f.waiter = false := by
  have hmem := step_faults hst
  have hdecr : ∀ {r : Server n} {d key clients}, WaitInv r →
      (r.db d).rockKeys.lookup key = some clients →
      OnlyErrors (fun f => f.waiter = false) (r.decrRockKeyNumbers clients) := by
    intro r d key clients hr hl e he
    obtain ⟨x,hx⟩ := decr_succeeds fun c hc => hr.listed_live hl hc
    rw [hx] at he
    cases he
  cases a with
  | pipeReadable =>
    rw [Server.step,ite_none_right_eq_some] at hst
    refine (?_ : OnlyErrors (fun f => f.waiter = false) s.rockPipeReadHandler) f
      (some.inj hst.2)
    unfold rockPipeReadHandler
    split
    · rename_i d key val _ _ _ _
      refine .ite (fun _ => .ok _) fun _ => .bind ?_ fun u hu => ?_
      · refine .ite (fun _ => ?_) fun _ => .ok _
        exact .assert (fun _ => rfl) (.pure _)
      have hwu := (h.of_quiet (.of_keyspace (finished_keyspace hu))).1
      split
      · exact .error rfl
      rename_i clients hl
      exact .bind (hdecr hwu hl) fun _ _ => .pure _
    · exact .error rfl
  | finishKey =>
    simp only [Server.step,Server.finishKey] at hst
    split at hst
    · cases hst
    · rename_i k m ms zs rest _
      refine (?_ : OnlyErrors (fun f => f.waiter = false) _) f (some.inj hst)
      refine .bind ?_ fun _ _ => .pure _
      unfold finishKeyFromScript
      split
      · exact .ok _
      rename_i clients hl
      refine .bind (hdecr h hl) fun r _ => .bind (.ite (fun _ => ?_) fun _ => .ok _)
        fun _ _ => .pure _
      exact .assert (fun _ => rfl) (.pure _)
    · cases hst
  | handlerResume pick =>
    obtain ⟨c,cs,hh,herr⟩ := step_handlerResume_error hst
    refine check_noFault (by rfl) (h.idle c ?_) f herr
    simp [active,hh,Handler.active]
  | scriptResume pick =>
    obtain ⟨k,c,cs,rest,hstk,herr⟩ := step_scriptResume_error hst
    refine check_noFault (by rfl) (h.idle c ?_) f herr
    simp [active,hstk,Frame.active]
  | nextCommand reject pick =>
    rcases step_nextCommand_error hst with rfl | ⟨c,rest,cl,q,qs,_,_,hz,herr⟩
    · rfl
    refine checkCall_errors (P := fun f => f.waiter = false) (by decide) (fun _ _ _ => rfl)
      (fun cl' hcl' hn => ?_) (fun _ => rfl) f herr
    simp only [set_clients,if_true,some.injEq] at hcl'
    subst hcl'
    exact absurd hz hn
  | redisCall q =>
    simp only [Server.step,redisCall] at hst
    split at hst
    · rw [ite_none_right_eq_some] at hst
      refine (?_ : OnlyErrors (fun f => f.waiter = false) _) f (some.inj hst.2)
      refine .bind (getClient_errors (by rfl) s _) fun cl _ => ?_
      refine .bind (.bind (.assert (fun hn => ?_) ?_) fun _ _ => .pure _) fun _ _ => .pure _
      · refine absurd ?_ hn
        unfold emitMulti
        split <;> exact h.lua.1
      refine .bind (checkRock_errors (by rfl) (by rfl) _ _ _) fun _ _ => ?_
      exact restoreAll_errors (by rfl) (by rfl) (by rfl) (by rfl) _ _
    · cases hst
  | _ => exact notWaiter_of_mem rfl hmem

end

end WaitInv

lemma waitInv_of_reachable {cfg : Config} (h : (machine n cfg).Reachable s) : WaitInv s :=
  (machine n cfg).invariant (WaitInv.init cfg) (fun _ _ _ hi hst => (hi.step hst).1) h

/-- A live client's `rockKeyNumber` is the number of times it is listed in all
`rockKeys`, the assertions on it hold, and a client becomes due to be resumed
exactly when the last key it waits for is finished. -/
theorem waiters_counted {cfg : Config} (h : (machine n cfg).Reachable s) :
    (∀ c cl, s.clients c = some cl → cl.rockKeyNumber = s.occurrences c) ∧
    (∀ a f, s.step a = some (.error f) → f ≠ .rockKeyNumberPositive ∧ f ≠ .rockKeyNumberZero) ∧
    ∀ a t c, s.step a = some (.ok t) → (∀ cmds, a ≠ .readQuery c cmds) → t.clients c ≠ none →
      ((c ∉ s.active ∧ c ∈ t.active) ↔ (0 < s.occurrences c ∧ t.occurrences c = 0)) := by
  have hi := waitInv_of_reachable h
  refine ⟨?_,?_,?_⟩
  · intro c cl hcl
    rw [hi.count,waits_of_some hcl]
  · intro a f hst
    have hf := hi.noFault hst
    constructor
    all_goals
      rintro rfl
      cases hf
  intro a t c hst ha hc
  exact (hi.step hst).2 c ha hc

open Sample

/-- A client waiting for the same key twice is listed twice. -/
theorem waiters_counted_twice : ∃ s : Server 0, (machine 0 Sample.config).Reachable s ∧
    (s.clients 1).map Client.rockKeyNumber = some 2 ∧ s.occurrences 1 = 2 := by
  obtain ⟨s,hs,hobs⟩ := (machine 0 Sample.config).observed
    (Sample.stored ++ [.readQuery 1 [mget [k1,k1]],.nextCommand none []])
    (fun s => (s.clients 1).map Client.rockKeyNumber) (some 2) (by decide)
  obtain ⟨cl,hcl,hn⟩ := map_eq_some_iff.mp hobs
  exact ⟨s,⟨_,hs⟩,hobs,by rw [← hn,(waiters_counted ⟨_,hs⟩).1 1 cl hcl]⟩

end Server
end RedRock
