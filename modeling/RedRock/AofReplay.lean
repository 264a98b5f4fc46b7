import RedRock.DisklessLoad

/-!
The loader of an append only file that begins with an RDB preamble. While the preamble is
read, values are dumped when memory runs out. The commands of the tail are then run by the
fake client through `cmd->proc`, which does not look where the values are: only
`processCommand` does.
-/

namespace RedRock
open Lib List Option Server Except
variable {val : Robj}

/-- A command of the tail. SELECT, MULTI and EXEC act on the fake client. -/
inductive TailCommand where
  | select (dbid : Nat)
  | multi
  | exec
  | other (q : Command)
  deriving DecidableEq

/-- A command procedure, by the operations it applies in a database to the dictionaries it
finds. While the server loads no key expires. -/
abbrev TailProc (n : Nat) : Type :=
  Command → Fin (n+1) → Store (Fin (n+1)) Sds DbVal → List (KsOp n)

def TailCommand.effects {n : Nat} (proc : TailProc n) (db : Fin (n+1))
    (look : Store (Fin (n+1)) Sds DbVal) : TailCommand → List (KsOp n)
  | .other q => proc q db look
  | _ => []

/-- `calls` are the commands still to be run before the next one is read. -/
structure FakeClient (n : Nat) where
  db : Fin (n+1)
  multi : Bool
  mstate : List TailCommand
  calls : List TailCommand

def createAOFClient (n : Nat) : FakeClient n := ⟨0,false,[],[]⟩

namespace FakeClient
variable {n : Nat} (c : FakeClient n)

def discardTransaction : FakeClient n := { c with multi := false, mstate := [] }

def read (q : TailCommand) : FakeClient n :=
  if c.multi then
    if q = .exec then
      if c.mstate = [] then c.discardTransaction else { c with calls := c.mstate }
    else { c with mstate := c.mstate ++ [q] }
  else { c with calls := [q] }

/-- What a command does to the client; MULTI in a transaction is only refused. -/
def call : TailCommand → FakeClient n
  | .select dbid => if h : dbid < n+1 then { c with db := ⟨dbid,h⟩ } else c
  | .multi => { c with multi := true }
  | .exec | .other _ => c

/-- The first of the calls is done; after the last one of a transaction EXEC ends it. -/
def next : FakeClient n :=
  match c.calls with
  | [] => c
  | q :: qs =>
    let c' := { c.call q with calls := qs }
    if c.multi ∧ qs = [] then c'.discardTransaction else c'

end FakeClient

/-- The variables of `rdbLoadRio`, and whether it is in `dumpValueToRockIfNeeded`. -/
structure Preamble (n : Nat) where
  db : Fin (n+1)
  rdbLoadKeyCount : Nat
  freeing : Bool

def Preamble.countKey {n : Nat} (p : Preamble n) : Preamble n :=
  if p.rdbLoadKeyCount + 1 ≥ CHECK_MEM_FOR_ROCK_MAX_TIMES then
    { p with rdbLoadKeyCount := 0, freeing := true }
  else { p with rdbLoadKeyCount := p.rdbLoadKeyCount + 1 }

inductive AofPhase (n : Nat) where
  | preamble (p : Preamble n)
  | tail (c : FakeClient n)

structure AofReplay (n : Nat) where
  server : Server n
  phase : AofPhase n

/-- `selectDb` and `key` are the items of the preamble. Which values are dumped, and how
many, is up to the limit and the sample of the hot keys. `read` and `proc` are the loop
over the tail. -/
inductive AofAct (n : Nat) where
  | selectDb (dbid : Nat)
  | key (key : Sds) (val : Robj) (expire : Option Int)
  | initHotKeys
  | dump (d : Fin (n+1)) (key : Sds)
  | freed
  | endPreamble
  | read (q : TailCommand)
  | proc

namespace Server
variable {n : Nat} (s : Server n)

def applyOps (s : Server n) : List (KsOp n) → Except Fault (Server n)
  | [] => .ok s
  | o :: os => do
    let s ← s.applyOp o
    s.applyOps os

def dumpOne (d : Fin (n+1)) (key : Sds) : Option (Except Fault (Server n)) :=
  match (s.db d).dict.lookup key with
  | some val =>
    if s.alreadyInitHotKeys ∧ isValueSuitForDumpRock val ∧ key ∉ (s.db d).rockKeys then
      some (s.dumpValToRock d key)
    else none
  | none => none

end Server

def AofPhase.next {n : Nat} : AofAct n → AofPhase n → AofPhase n
  | .selectDb dbid, .preamble p =>
    .preamble (if h : dbid < n+1 then { p with db := ⟨dbid,h⟩ } else p)
  | .key _ _ _, .preamble p => .preamble p.countKey
  | .freed, .preamble p => .preamble { p with freeing := false }
  | .endPreamble, .preamble _ => .tail (createAOFClient n)
  | .read q, .tail c => .tail (c.read q)
  | .proc, .tail c => .tail c.next
  | _, p => p

namespace AofReplay
variable {n : Nat} (proc : TailProc n) (r : AofReplay n)

def effect : AofAct n → AofPhase n → Option (Except LoadFault (Server n))
  | .selectDb dbid, .preamble p =>
    if p.freeing then none
    else if dbid < n+1 then some (.ok r.server) else some (.error .dbid)
  | .key key val expire, .preamble p =>
    if p.freeing then none
    else some ((r.server.rdbLoadKey p.db key val expire).mapError .main)
  | .initHotKeys, .preamble p =>
    if p.freeing ∧ !r.server.alreadyInitHotKeys then some (r.server.initHotKeys.mapError .main)
    else none
  | .dump d key, .preamble p =>
    if p.freeing then (r.server.dumpOne d key).map (Except.mapError .main) else none
  | .freed, .preamble p => if p.freeing then some (.ok r.server) else none
  | .endPreamble, .preamble p => if p.freeing then none else some (.ok r.server)
  | .read _, .tail c => if c.calls = [] then some (.ok r.server) else none
  | .proc, .tail c =>
    match c.calls with
    | [] => none
    | q :: _ =>
      some ((r.server.applyOps (q.effects proc c.db r.server.look)).mapError .main)
  | _, _ => none

def step (a : AofAct n) : Option (Except LoadFault (AofReplay n)) :=
  (r.effect proc a r.phase).map (Except.map fun s => ⟨s,r.phase.next a⟩)

def CallSeesValues : Prop :=
  ∀ c q, r.phase = .tail c → c.calls.head? = some (.other q) → SeesValues (r.server.db c.db) q

end AofReplay

def aofReplay (n : Nat) (cfg : Config) (proc : TailProc n) :
    Machine (AofReplay n) (AofAct n) LoadFault where
  init := ⟨initServer n cfg,.preamble ⟨0,0,false⟩⟩
  step := AofReplay.step proc

/-! The same file in plain memory: a store of objects in place of the server. -/

/-- The preamble puts its keys, and the commands find every value in memory. -/
def plainEffect {n : Nat} (proc : TailProc n) (σ : Store (Fin (n+1)) Sds Robj) :
    AofAct n → AofPhase n → Store (Fin (n+1)) Sds Robj
  | .key key val _, .preamble p => σ.set p.db key (some val)
  | .proc, .tail c =>
    match c.calls with
    | [] => σ
    | q :: _ => (q.effects proc c.db (σ.map .mem)).foldl (fun σ o => σ.apply o.toStore) σ
  | _, _ => σ

def plainStep {n : Nat} (proc : TailProc n) (a : AofAct n)
    (x : Store (Fin (n+1)) Sds Robj × AofPhase n) : Store (Fin (n+1)) Sds Robj × AofPhase n :=
  (plainEffect proc x.1 a x.2,x.2.next a)

def plainReplay {n : Nat} (proc : TailProc n) (as : List (AofAct n)) : Store (Fin (n+1)) Sds Robj :=
  (Machine.follow (plainStep proc) as (fun _ _ => none,.preamble ⟨0,0,false⟩)).1

namespace Server
variable {n : Nat} {s t : Server n} {d : Fin (n+1)} {key : Sds}
variable {σ : Store (Fin (n+1)) Sds Robj}

lemma applyOps_look {os : List (KsOp n)} (hs : s.look = σ.map .mem) (h : s.applyOps os = .ok t) :
    t.look = (os.foldl (fun σ o => σ.apply o.toStore) σ).map .mem := by
  induction os generalizing s σ with
  | nil =>
    cases h
    exact hs
  | cons o os ih =>
    obtain ⟨u,hu,ht⟩ := bind_ok.mp h
    refine ih ?_ ht
    rw [applyOp_look hu,hs,Store.map_apply]

lemma rdbLoadKey_look {expire : Option Int} (h : s.rdbLoadKey d key val expire = .ok t) :
    key ∉ (s.db d).dict ∧ t.look = s.look.set d key (some (.mem val)) := by
  obtain ⟨u,hu,rfl⟩ := rdbLoadKey_ok.mp h
  rw [setExpire_look,dbAdd_look hu]
  exact ⟨(dbAdd_ok.mp hu).1,rfl⟩

lemma dumpOne_some (h : s.dumpOne d key = some (.ok t)) : s.dumpValToRock d key = .ok t := by
  unfold dumpOne at h
  split at h
  · rw [enabled_iff] at h
    exact h.2
  · cases h

lemma logical_of_map (h : s.look = σ.map .mem) : s.logical = σ.map fun o => .ok o.content := by
  funext d key
  rw [logical_eq,h]
  simp only [Store.map,Option.map_map]
  rfl

lemma seesValues_of_map (h : s.look = σ.map .mem) (d : Fin (n+1)) (q : Command) :
    SeesValues (s.db d) q := by
  rw [seesValues_iff]
  intro p ks es _ _ k _
  have hk : (s.db d).dict.lookup k = (σ d k).map .mem := congrFun (congrFun h d) k
  unfold isValueInRock
  rw [hk]
  cases σ d k with
  | none | some => rfl

end Server

namespace AofReplay
variable {n : Nat} {proc : TailProc n} {r t : AofReplay n} {a : AofAct n}
variable {ks : List Sds} {k : Sds} {p : AofPhase n} {buf : Bytes}

lemma step_eq (cfg : Config) : (aofReplay n cfg proc).step r a = r.step proc a := rfl

lemma step_ok (h : r.step proc a = some (.ok t)) :
    r.effect proc a r.phase = some (.ok t.server) ∧ t.phase = r.phase.next a := by
  obtain ⟨x,hx,h⟩ := map_eq_some_iff.mp h
  cases x with
  | error f => cases h
  | ok s =>
    cases h
    exact ⟨hx,rfl⟩

variable {s : Server n}

lemma mapError_ok {x : Except Fault (Server n)}
    (h : x.mapError LoadFault.main = .ok s) : x = .ok s := by
  cases x with
  | error f => cases h
  | ok u => exact congrArg ok (ok.inj h)

inductive Effect (proc : TailProc n) (r : AofReplay n) (s : Server n) :
    AofAct n → AofPhase n → Prop where
  | same (a : AofAct n) (p : AofPhase n) (hs : s.look = r.server.look)
      (hplain : ∀ σ, plainEffect proc σ a p = σ) (hd : ∀ d key, a ≠ .dump d key) :
      Effect proc r s a p
  | key (key : Sds) (val : Robj) (expire : Option Int) (p : Preamble n)
      (hs : r.server.rdbLoadKey p.db key val expire = .ok s) :
      Effect proc r s (.key key val expire) (.preamble p)
  | dump (d : Fin (n+1)) (key : Sds) (p : Preamble n) (hs : r.server.dumpValToRock d key = .ok s) :
      Effect proc r s (.dump d key) (.preamble p)
  | proc (c : FakeClient n) (q : TailCommand) (qs : List TailCommand) (hc : c.calls = q :: qs)
      (hs : r.server.applyOps (q.effects proc c.db r.server.look) = .ok s) :
      Effect proc r s .proc (.tail c)

lemma effect_ok (h : r.effect proc a p = some (.ok s)) : Effect proc r s a p := by
  cases p with
  | preamble p =>
    cases a with
    | key key val expire =>
      simp only [effect,ite_none_left_eq_some,some.injEq] at h
      exact .key key val expire p (mapError_ok h.2)
    | initHotKeys =>
      simp only [effect,enabled_iff] at h
      exact .same _ _ (initHotKeys_look (mapError_ok h.2)) (fun _ => rfl) (by simp)
    | selectDb dbid =>
      simp only [effect,ite_none_left_eq_some] at h
      have hs := h.2
      split at hs
      · rw [some.injEq,ok.injEq] at hs
        exact .same _ _ (by rw [hs]) (fun _ => rfl) (by simp)
      · cases hs
    | dump d key =>
      simp only [effect,ite_none_right_eq_some] at h
      obtain ⟨x,hx,hs⟩ := map_eq_some_iff.mp h.2
      rw [mapError_ok hs] at hx
      exact .dump d key p (dumpOne_some hx)
    | freed =>
      simp only [effect,enabled_ok_iff] at h
      exact .same _ _ (by rw [h.2]) (fun _ => rfl) (by simp)
    | endPreamble =>
      simp only [effect,ite_none_left_eq_some,some.injEq,ok.injEq] at h
      exact .same _ _ (by rw [h.2]) (fun _ => rfl) (by simp)
    | read | proc => cases h
  | tail c =>
    cases a with
    | read q =>
      simp only [effect,enabled_ok_iff] at h
      exact .same _ _ (by rw [h.2]) (fun _ => rfl) (by simp)
    | proc =>
      simp only [effect] at h
      cases hc : c.calls with
      | nil =>
        rw [hc] at h
        cases h
      | cons q qs =>
        rw [hc] at h
        exact .proc c q qs hc (mapError_ok (some.inj h))
    | selectDb | key | initHotKeys | dump | freed | endPreamble => cases h

lemma Effect.plain {σ : Store (Fin (n+1)) Sds Robj} (h : Effect proc r s a p)
    (hσ : r.server.look = σ.map .mem) (hd : ∀ d key, a ≠ .dump d key) :
    s.look = (plainEffect proc σ a p).map .mem := by
  cases h with
  | same _ _ hs hplain _ =>
    rw [hplain,hs]
    exact hσ
  | key key val expire p hs =>
    rw [(rdbLoadKey_look hs).2,hσ,plainEffect,Store.map_set]
    rfl
  | dump d key p hs => exact absurd rfl (hd d key)
  | proc c q qs hc hs =>
    rw [applyOps_look hσ hs,hσ]
    simp only [plainEffect,hc]

variable {cfg : Config} {as bs : List (AofAct n)} {d : Fin (n+1)} {key : Sds}

/-- A file of which nothing is dumped is loaded as in plain memory. -/
theorem run_plain (hd : ∀ d key, .dump d key ∉ as)
    (hr : (aofReplay n cfg proc).run as = some (.ok r)) :
    r.server.look = (plainReplay proc as).map .mem := by
  have hg := (aofReplay n cfg proc).guarded_forall (C := fun _ a => ∀ d key, a ≠ .dump d key)
    (aofReplay n cfg proc).init as fun a ha _ d key he => hd d key (he ▸ ha)
  refine ((aofReplay n cfg proc).simulates_from
    (R := fun r x => r.server.look = x.1.map DbVal.mem ∧ r.phase = x.2)
    (x := (fun _ _ => none,.preamble ⟨0,0,false⟩)) (plainStep proc) ?_ as ⟨rfl,rfl⟩ hg hr).1
  rintro s a t ⟨σ,p⟩ ⟨hσ,rfl⟩ hc hst
  obtain ⟨he,hp⟩ := step_ok hst
  exact ⟨(effect_ok he).plain hσ hc,hp⟩

variable {c : FakeClient n}

lemma step_tail (hc : r.phase = .tail c) (h : r.step proc a = some (.ok t)) :
    (∃ c', t.phase = .tail c') ∧ ∀ d key, a ≠ .dump d key := by
  obtain ⟨he,hp⟩ := step_ok h
  rw [hc] at he hp
  cases a with
  | read q | proc => exact ⟨⟨_,hp⟩,by simp⟩
  | selectDb | key | initHotKeys | dump | freed | endPreamble => cases he

lemma run_tail (hc : r.phase = .tail c)
    (hr : (aofReplay n cfg proc).runFrom r bs = some (.ok t)) : ∀ d key, .dump d key ∉ bs := by
  intro d key
  induction bs generalizing r c with
  | nil => simp
  | cons b bs ih =>
    obtain ⟨u,hu,hr⟩ := (aofReplay n cfg proc).runFrom_cons_inv hr
    obtain ⟨⟨c',hc'⟩,hb⟩ := step_tail hc hu
    rw [mem_cons,not_or]
    exact ⟨fun he => hb d key he.symm,ih hc' hr⟩

lemma step_dumped (hk : (∃ c, r.phase = .tail c) ∨ r.server.look d key = some .valueInRock)
    (h : r.step proc a = some (.ok t)) :
    (∃ c, t.phase = .tail c) ∨ t.server.look d key = some .valueInRock := by
  rcases hk with ⟨c,hc⟩ | hk
  · exact .inl (step_tail hc h).1
  obtain ⟨he,hp⟩ := step_ok h
  cases hph : r.phase with
  | tail c => exact .inl (step_tail hph h).1
  | preamble p =>
    right
    have hm := effect_ok he
    rw [hph] at hm
    cases hm with
    | same _ _ hs _ _ =>
      rw [hs]
      exact hk
    | key k val expire p hs =>
      obtain ⟨hn,hl⟩ := rdbLoadKey_look hs
      have hne : ¬ (d = p.db ∧ key = k) := by
        rintro ⟨rfl,rfl⟩
        rw [mem_dict_iff_look,hk] at hn
        exact hn rfl
      rw [hl,Store.set,if_neg hne]
      exact hk
    | dump e k p hs =>
      obtain ⟨o,buf,_,_,_,hl,_⟩ := dumpVal_lookup hs
      rw [hl,Store.set]
      split
      · rfl
      · exact hk

/-- At the end of the preamble every value that was dumped is on disk. -/
theorem run_dumped (hr : (aofReplay n cfg proc).run (as ++ [.endPreamble]) = some (.ok r))
    (hd : .dump d key ∈ as) : r.server.look d key = some .valueInRock := by
  obtain ⟨as₁,as₂,rfl⟩ := append_of_mem hd
  obtain ⟨s,hs,hend⟩ := (aofReplay n cfg proc).runFrom_concat_inv hr
  obtain ⟨u,_,hu⟩ := (aofReplay n cfg proc).runFrom_append_inv hs
  obtain ⟨v,hv,hrest⟩ := (aofReplay n cfg proc).runFrom_cons_inv hu
  have hdump : (∃ c, v.phase = .tail c) ∨ v.server.look d key = some .valueInRock := by
    right
    have hm := effect_ok (step_ok hv).1
    cases hph : u.phase with
    | tail c =>
      rw [hph] at hm
      cases hm with
      | same _ _ _ _ hne => exact absurd rfl (hne d key)
    | preamble p =>
      rw [hph] at hm
      cases hm with
      | same _ _ _ _ hne => exact absurd rfl (hne d key)
      | dump e k p hs =>
        obtain ⟨o,buf,_,_,_,hl,_⟩ := dumpVal_lookup hs
        simp [hl,Store.set]
  have hlast := (aofReplay n cfg proc).invariant_from (C := fun _ _ => True)
    (fun _ _ _ hi _ hst => step_dumped hi hst) as₂ hdump (Machine.guarded_trivial _ _ _) hrest
  obtain ⟨he,_⟩ := step_ok hend
  cases hph : s.phase with
  | tail c =>
    rw [hph] at he
    cases he
  | preamble p =>
    rcases hlast with ⟨c,hc⟩ | hlast
    · cases hph.symm.trans hc
    rw [hph] at he
    simp only [effect,ite_none_left_eq_some,some.injEq,Except.ok.injEq] at he
    rw [← he.2]
    exact hlast

lemma phase_endPreamble (hr : (aofReplay n cfg proc).run (as ++ [.endPreamble]) = some (.ok r)) :
    r.phase = .tail (createAOFClient n) := by
  obtain ⟨s,_,hend⟩ := (aofReplay n cfg proc).runFrom_concat_inv hr
  obtain ⟨he,hp⟩ := step_ok hend
  cases hph : s.phase with
  | tail c =>
    rw [hph] at he
    cases he
  | preamble p =>
    rw [hp,hph]
    rfl

def readsKey (d : Fin (n+1)) (q : Command) : List (AofAct n) :=
  [.read (.select d),.proc,.read (.other q)]

lemma run_readsKey (cfg : Config) (proc : TailProc n) (d : Fin (n+1)) (q : Command)
    (hr : r.phase = .tail (createAOFClient n)) : (aofReplay n cfg proc).runFrom r (readsKey d q) =
      some (.ok ⟨r.server,.tail ⟨d,false,[],[.other q]⟩⟩) := by
  obtain ⟨s,p⟩ := r
  cases hr
  have hd : (d : Nat) ≤ n := Nat.le_of_lt_succ d.isLt
  simp [readsKey,Machine.runFrom,aofReplay,step,effect,AofPhase.next,createAOFClient,
    FakeClient.read,FakeClient.next,FakeClient.call,TailCommand.effects,applyOps,
    Except.mapError,Except.map,hd]

def getKey (key : Sds) : Command := ⟨⟨.other,some .oneKey,false,true⟩,[[103,101,116],key]⟩

lemma seesValues_getKey {db : RedisDb} (h : SeesValues db (getKey key)) :
    db.dict.lookup key ≠ some .valueInRock := by
  intro hk
  have hf := seesValues_iff.mp h .oneKey [key] [] rfl rfl key (by simp)
  rw [(inRock_iff db key).mpr hk] at hf
  cases hf

/-- Every tail that follows a preamble is run on values in memory, with the effect it has
in plain memory, exactly when nothing was dumped while the preamble was read. -/
theorem tail_calls_see_values_iff
    (hr : (aofReplay n cfg proc).run (as ++ [.endPreamble]) = some (.ok r)) :
    (∀ bs t, (aofReplay n cfg proc).runFrom r bs = some (.ok t) → t.CallSeesValues ∧
      t.server.logical = (plainReplay proc (as ++ .endPreamble :: bs)).map fun o => .ok o.content) ↔
    ∀ d key, .dump d key ∉ as := by
  have hph := phase_endPreamble hr
  constructor
  · intro h d key hd
    have hsees := (h _ _ (run_readsKey cfg proc d (getKey key) hph)).1 _ _ rfl rfl
    have hrock := run_dumped hr hd
    exact seesValues_getKey hsees hrock
  intro hd bs t ht
  have hdumps : ∀ d key, .dump d key ∉ as ++ [.endPreamble] ++ bs := by
    intro d key
    simp [hd d key,run_tail hph ht d key]
  have hlook := run_plain hdumps (((aofReplay n cfg proc).runFrom_append hr bs).trans ht)
  rw [append_assoc] at hlook
  exact ⟨fun c q _ _ => seesValues_of_map hlook c.db q,logical_of_map hlook⟩

/-! When the last of 30 keys is loaded, any of them can be dumped. -/

/-- `ks` were loaded into database `d` with value `val`, before the index was filled. -/
structure Loaded (d : Fin (n+1)) (val : Robj) (ks : List Sds) (s : Server n) : Prop where
  look : ∀ k, s.look d k = if k ∈ ks then some (.mem val) else none
  init : s.alreadyInitHotKeys = false
  hot : ∀ e, (s.db e).hotKeys = ∅
  rock : (s.db d).rockKeys = ∅

lemma Loaded.rdbLoadKey (h : Loaded d val ks s) (hk : k ∉ ks) :
    ∃ t, s.rdbLoadKey d k val none = .ok t ∧ Loaded d val (k :: ks) t := by
  have hn : k ∉ (s.db d).dict := by
    rw [mem_dict_iff_look,h.look,if_neg hk]
    simp
  have hs : s.rdbLoadKey d k val none = .ok _ :=
    rdbLoadKey_ok.mpr ⟨_,dbAdd_ok.mpr ⟨hn,rfl⟩,rfl⟩
  refine ⟨_,hs,?_,h.init,fun e => ?_,?_⟩
  · intro x
    rw [(rdbLoadKey_look hs).2,Store.set]
    by_cases hx : x = k
    · simp [hx]
    · simp [hx,h.look]
  · simp only [setExpire,updDb_db,h.init,addHotKeyIfNeed]
    split <;> exact h.hot e
  simp only [setExpire,updDb_db,h.init,addHotKeyIfNeed]
  exact h.rock

lemma Loaded.initServer (cfg : Config) (d : Fin (n+1)) (val : Robj) :
    Loaded d val [] (initServer n cfg) :=
  ⟨fun _ => rfl,rfl,fun _ => rfl,rfl⟩

lemma run_keys {ks done : List Sds} (cfg : Config) (proc : TailProc n) (m : Nat)
    (h : Loaded d val done s) (hks : ks.Nodup) (hnew : ∀ k ∈ ks, k ∉ done) (hne : ks ≠ [])
    (hlen : m + ks.length = CHECK_MEM_FOR_ROCK_MAX_TIMES) :
    ∃ t, (aofReplay n cfg proc).runFrom ⟨s,.preamble ⟨d,m,false⟩⟩
        (ks.map fun k => .key k val none) = some (.ok ⟨t,.preamble ⟨d,0,true⟩⟩) ∧
      Loaded d val (ks.reverse ++ done) t := by
  induction ks generalizing s m done with
  | nil => exact absurd rfl hne
  | cons k ks ih =>
    rw [nodup_cons] at hks
    rw [length_cons] at hlen
    obtain ⟨t,ht,hl⟩ := h.rdbLoadKey (hnew k (by simp))
    have hst : (aofReplay n cfg proc).step ⟨s,.preamble ⟨d,m,false⟩⟩ (.key k val none) =
        some (.ok ⟨t,.preamble (Preamble.countKey ⟨d,m,false⟩)⟩) := by
      rw [step_eq]
      simp [step,effect,ht,Except.mapError,Except.map,AofPhase.next]
    rw [reverse_cons,append_assoc,singleton_append]
    by_cases hnil : ks = []
    · subst hnil
      have hfull : m + 1 ≥ CHECK_MEM_FOR_ROCK_MAX_TIMES := by simpa using hlen.ge
      simp only [Preamble.countKey,if_pos hfull] at hst
      exact ⟨t,((aofReplay n cfg proc).runFrom_cons_ok hst).mpr rfl,hl⟩
    have hpos := length_pos_iff.mpr hnil
    have hless : ¬ m + 1 ≥ CHECK_MEM_FOR_ROCK_MAX_TIMES := by omega
    simp only [Preamble.countKey,if_neg hless] at hst
    have hnew' : ∀ x ∈ ks, x ∉ k :: done := by
      intro x hx
      rw [mem_cons,not_or]
      exact ⟨fun he => hks.1 (he ▸ hx),hnew x (by simp [hx])⟩
    obtain ⟨u,hu,hl'⟩ := ih (m + 1) hl hks.2 hnew' hnil (by omega)
    exact ⟨u,((aofReplay n cfg proc).runFrom_cons_ok hst).mpr hu,hl'⟩

lemma Loaded.initHotKeys (h : Loaded d val ks s) (hk : k ∈ ks) (hv : (DbVal.mem val).CanBeHot) :
    ∃ t, s.initHotKeys = .ok t ∧ t.alreadyInitHotKeys = true ∧ t.look d k = some (.mem val) ∧
      k ∈ (t.db d).hotKeys ∧ k ∉ (t.db d).rockKeys := by
  have hlook : s.look d k = some (.mem val) := by rw [h.look,if_pos hk]
  have hhot : k ∈ (addHotKeys (s.db d).dict.entries (s.db d)).hotKeys :=
    mem_addHotKeys (s.db d).dict.nodupKeys (AList.mem_lookup_iff.mp hlook) hv
  have ht : s.initHotKeys = .ok _ :=
    initHotKeys_ok.mpr ⟨h.hot,⟨d,Finset.ne_empty_of_mem hhot⟩,rfl⟩
  refine ⟨_,ht,rfl,?_,hhot,?_⟩
  · rw [initHotKeys_look ht]
    exact hlook
  rw [addHotKeys_rockKeys,h.rock]
  exact AList.notMem_empty k

lemma dumpOne_of_hot (hi : s.alreadyInitHotKeys = true)
    (hlook : s.look d key = some (.mem val)) (hhot : key ∈ (s.db d).hotKeys)
    (hwait : key ∉ (s.db d).rockKeys) (hne : key ≠ []) (hv : val.refcount = 1)
    (hser : serObject val = .ok buf) : ∃ t, s.dumpOne d key = some (.ok t) := by
  have hl : (s.db d).dict.lookup key = some (.mem val) := hlook
  have hsuit : isValueSuitForDumpRock (.mem val) = true := by
    simp [isValueSuitForDumpRock,serObject_not_stream hser,hv]
  have hd : s.dumpValToRock d key = .ok _ := dumpVal_ok.mpr ⟨val,buf,hl,hv,hser,hne,hhot,rfl⟩
  unfold dumpOne
  rw [hl]
  dsimp only
  rw [if_pos ⟨hi,hsuit,hwait⟩,hd]
  exact ⟨_,rfl⟩

lemma Loaded.run_dump (cfg : Config) (proc : TailProc n) (h : Loaded d val ks s)
    (hk : k ∈ ks) (hne : k ≠ []) (hv : val.refcount = 1) (hser : serObject val = .ok buf) :
    ∃ r, (aofReplay n cfg proc).runFrom ⟨s,.preamble ⟨d,0,true⟩⟩
      [.initHotKeys,.dump d k,.freed,.endPreamble] = some (.ok r) := by
  have hcan : (DbVal.mem val).CanBeHot := by
    refine ⟨serObject_not_stream hser,?_⟩
    rw [hv]
    decide
  obtain ⟨t,ht,hi,hlook,hhot,hwait⟩ := h.initHotKeys hk hcan
  obtain ⟨u,hu⟩ := dumpOne_of_hot hi hlook hhot hwait hne hv hser
  refine ⟨⟨u,.tail (createAOFClient n)⟩,?_⟩
  simp [Machine.runFrom,step_eq,step,effect,AofPhase.next,h.init,ht,hu,Except.mapError,Except.map]

end AofReplay

namespace Sample

def tailProc : TailProc 0 := fun q db look =>
  match q.argv with
  | [_,key,[b]] =>
    if (look db key).isSome then [.dbOverwrite db key (str b)] else [.dbAdd db key (str b)]
  | [_,key] => if (look db key).isSome then [.dbDelete db key] else []
  | _ => []

def preamble : List (AofAct 0) := [.selectDb 0,.key k1 (str 1) none,.key k2 (str 2) (some 5)]

def tail : List (AofAct 0) :=
  [.read .multi,.proc,.read (.other (set k1 7)),.read (.other (get k2)),.read .exec,.proc,.proc]

end Sample

open Sample

namespace AofReplay

theorem tail_calls_see_values_two_keys : ∃ r t : AofReplay 0,
    (aofReplay 0 Sample.config tailProc).run (preamble ++ [.endPreamble]) =
      some (.ok r) ∧
    (aofReplay 0 Sample.config tailProc).runFrom r tail = some (.ok t) ∧
    t.CallSeesValues ∧ t.server.logical 0 k1 = some (.ok (str 7).content) := by
  have hd : ∀ d key, .dump d key ∉ preamble := by simp [preamble]
  obtain ⟨t,ht,hobs⟩ := (aofReplay 0 Sample.config tailProc).observed
    (preamble ++ [.endPreamble] ++ Sample.tail) (fun t => t.server.logical 0 k1)
    (some (.ok (str 7).content)) (by decide)
  obtain ⟨r,hr,ht⟩ := (aofReplay 0 Sample.config tailProc).runFrom_append_inv ht
  exact ⟨r,t,hr,ht,((tail_calls_see_values_iff hr).mpr hd tail t ht).1,hobs⟩

/-- One of the 30 keys of the preamble is dumped. The tail reads that key, and the command
finds the placeholder. -/
theorem tail_call_on_placeholder : ∃ (as : List (AofAct 0)) (r : AofReplay 0),
    (aofReplay 0 Sample.config tailProc).run as = some (.ok r) ∧ ¬ r.CallSeesValues := by
  have hks : (otherKeys 30).Nodup := by decide
  have hnil : otherKeys 30 ≠ [] := by decide
  have hkey : [100,0] ∈ (otherKeys 30).reverse ++ [] := by decide
  obtain ⟨buf,hser⟩ : ∃ buf, serObject (str 1) = .ok buf := ⟨_,rfl⟩
  obtain ⟨s,hs,hl⟩ := run_keys Sample.config tailProc 0
    (Loaded.initServer Sample.config 0 (str 1)) hks (by simp) hnil rfl
  obtain ⟨r,hr⟩ := hl.run_dump Sample.config tailProc hkey (by decide) rfl hser
  have hrun : (aofReplay 0 Sample.config tailProc).run
      ((otherKeys 30).map (fun k => .key k (str 1) none) ++
        [.initHotKeys,.dump 0 [100,0],.freed] ++ [.endPreamble]) = some (.ok r) := by
    rw [append_assoc]
    exact ((aofReplay 0 Sample.config tailProc).runFrom_append hs _).trans hr
  have hrock : r.server.look 0 [100,0] = some .valueInRock := run_dumped hrun (by simp)
  have hread := run_readsKey Sample.config tailProc 0 (getKey [100,0]) (phase_endPreamble hrun)
  refine ⟨_,_,((aofReplay 0 Sample.config tailProc).runFrom_append hrun _).trans hread,?_⟩
  intro hsees
  exact seesValues_getKey (hsees _ _ rfl rfl) hrock

end AofReplay
end RedRock
