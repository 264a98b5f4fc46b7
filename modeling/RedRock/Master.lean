import RedRock.Pipeline

/-!
A replica and the connection to its master. When the connection is lost, `freeClient`
does not free the master's client but caches it, so that a partial resynchronisation
can go on with it.
-/

namespace RedRock
open Lib List Option Server

/-- `server.master` and `server.cached_master`; at most one of them is set. -/
inductive MasterLink where
  | disconnected
  | connected (c : ClientId)
  | cached (c : ClientId)
  deriving DecidableEq

structure Replica (n : Nat) where
  server : Server n
  link : MasterLink

/-- `discardCachedMaster` happens in the event loop or in a command. -/
inductive ReplicaAct (n : Nat) where
  | main (a : Act n)
  | createMasterClient (c : ClientId)
  | resurrectCachedMaster
  | discardCachedMaster (inCommand : Bool)
  deriving DecidableEq

def Act.frees {n : Nat} : Act n → Option ClientId
  | .freeClient c | .killClient c => some c
  | _ => none

def Act.reads {n : Nat} : Act n → Option ClientId
  | .readQuery c _ => some c
  | _ => none

/-- The buffers, the transaction, `argv` and the pending replies are dropped;
`rockKeyNumber` and the lists of `rockKeys` are left as they are. -/
def Server.replicationCacheMaster {n : Nat} (s : Server n) (c : ClientId) : Server n :=
  match s.clients c with
  | none => s
  | some cl =>
    let cl := if cl.multi then cl.discard else cl
    s.setClient c (some { cl with querybuf := [], reply := [], current := none })

namespace Replica
variable {n : Nat}

def lift (r : Option (Except Fault (Server n))) (link : MasterLink) :
    Option (Except Fault (Replica n)) :=
  r.map (Except.map fun s => ⟨s,link⟩)

/-- A step of the server. The cached master has no connection, so nothing is read
from it and no command can free it. -/
def main (r : Replica n) (a : Act n) : Option (Except Fault (Replica n)) :=
  match r.link with
  | .disconnected => lift (r.server.step a) r.link
  | .connected c =>
    if a.frees = some c then
      (r.server.step a).map (Except.map fun _ => ⟨r.server.replicationCacheMaster c,.cached c⟩)
    else lift (r.server.step a) r.link
  | .cached c =>
    if a.frees = some c ∨ a.reads = some c then none else lift (r.server.step a) r.link

def step (r : Replica n) : ReplicaAct n → Option (Except Fault (Replica n))
  | .main a => r.main a
  | .createMasterClient c =>
    if r.link = .disconnected then lift (r.server.step (.accept c)) (.connected c) else none
  | .resurrectCachedMaster =>
    match r.link with
    | .cached c => if r.server.atLoop then some (.ok ⟨r.server,.connected c⟩) else none
    | _ => none
  | .discardCachedMaster inCommand =>
    match r.link with
    | .cached c =>
      lift (r.server.step (if inCommand then .killClient c else .freeClient c)) .disconnected
    | _ => none

end Replica

def replica (n : Nat) (cfg : Config) : Machine (Replica n) (ReplicaAct n) Fault where
  init := ⟨initServer n cfg,.disconnected⟩
  step := Replica.step

namespace Server
variable {n : Nat} {s t : Server n} {a : Act n} {c : ClientId}
variable {cl : Client n}

lemma mem_active_iff : c ∈ s.active ↔ .input c ∈ s.stack ∨ c ∈ s.due := by
  rw [← count_pos_iff,← count_pos_iff,← count_pos_iff,active,due,
    count_append,count_append,count_active]
  omega

lemma check_nullCommand (s : Server n) (c : ClientId) (pick : Sds) :
    let P := fun f => f = Fault.nullCommand → ∃ cl, s.clients c = some cl ∧ cl.current = none
    OnlyErrors P (s.checkThenCall c pick) ∧ OnlyErrors P (s.checkThenResumeRockClient c pick) := by
  intro P
  have h : ∀ f ∈ commandFaults, f ≠ .nullCommand → P f := fun f _ hne hf => absurd hf hne
  have hq : ∀ cl, s.clients c = some cl → cl.current = none → P .nullCommand :=
    fun cl hcl hq _ => ⟨cl,hcl,hq⟩
  have hz : P .rockKeyNumberZero ∧ P .isZeroRockJobState := by
    constructor
    all_goals
      intro hf
      cases hf
  exact ⟨checkCall_errors h hq (fun _ _ _ => hz.1) fun _ => hz.2,
    resumeClient_errors h hq (fun _ _ _ => hz.1) fun _ => hz.2⟩

lemma nullCommand_of_step (h : s.step a = some (.error .nullCommand)) :
    ∃ c cl, c ∈ s.due ∧ s.clients c = some cl ∧ cl.current = none := by
  have hf := step_faults h
  cases a with
  | handlerResume pick =>
    obtain ⟨c,cs,hh,herr⟩ := step_handlerResume_error h
    obtain ⟨cl,hcl,hq⟩ := (check_nullCommand _ c pick).2 _ herr rfl
    exact ⟨c,cl,by simp [due,hh,Handler.active],hcl,hq⟩
  | scriptResume pick =>
    obtain ⟨k,c,cs,rest,hs,herr⟩ := step_scriptResume_error h
    obtain ⟨cl,hcl,hq⟩ := (check_nullCommand _ c pick).2 _ herr rfl
    exact ⟨c,cl,by simp [due,hs,Frame.due],hcl,hq⟩
  | nextCommand reject pick =>
    rcases step_nextCommand_error h with he | ⟨c,rest,cl,q,qs,_,_,_,herr⟩
    · cases he
    obtain ⟨cl',hcl',hq⟩ := (check_nullCommand _ c pick).1 _ herr rfl
    simp only [set_clients,if_true,some.injEq] at hcl'
    subst hcl'
    cases hq
  | _ => simp [Act.faults] at hf

lemma ArgvInv.noFault (h : ArgvInv s) (hst : s.step a = some (.error .nullCommand)) : False := by
  obtain ⟨c,cl,hd,hcl,hq⟩ := nullCommand_of_step hst
  obtain ⟨q,hq'⟩ := h.current hcl (.inr hd)
  rw [hq] at hq'
  cases hq'

/-- The client has nothing to do: no input, no command, and nothing refers to it. -/
structure Parked (s : Server n) (c : ClientId) : Prop where
  unhandled : s.unhandled c = some ([],none)
  active : c ∉ s.active

lemma Parked.client (h : Parked s c) :
    ∃ cl, s.clients c = some cl ∧ cl.rockKeyNumber = 0 ∧ cl.querybuf = [] := by
  obtain ⟨cl,hcl,he⟩ := map_eq_some_iff.mp h.unhandled
  obtain ⟨hqb,hs⟩ := Prod.mk.inj he
  refine ⟨cl,hcl,?_,hqb⟩
  split at hs
  · cases hs
  rename_i hn
  rw [suspended,waits_of_some hcl] at hn
  omega

lemma Parked.notMem_rockKeys (h : Parked s c) (hi : WaitInv s) {d : Fin (n+1)} {key : Sds}
    {clients : List ClientId} (hl : (s.db d).rockKeys.lookup key = some clients) : c ∉ clients := by
  intro hm
  obtain ⟨cl,hcl,hz,_⟩ := h.client
  obtain ⟨cl',hcl',hle⟩ := hi.listed_live hl hm
  cases hcl.symm.trans hcl'
  have hpos := count_pos_iff.mpr hm
  omega

lemma Parked.no_execCall (h : Parked s c) (hi : StackInv s) (hst : s.step a = some (.ok t)) :
    s.execCall t c = none := by
  rcases execCall_of_step hst c with hn | ⟨k,q,qs,mp,mp',rest,hs,_,hk,_⟩
  · exact hn
  have hm := hi.nested.input_mem k (.exec (q :: qs) mp) (by simp [hs])
  exact absurd (mem_active_iff.mpr (.inl (hk ▸ hm))) h.active

lemma live_of_step (hi : StackInv s) (hf : a.frees ≠ some c) (hcl : s.clients c = some cl)
    (hst : s.step a = some (.ok t)) : ∃ cl', t.clients c = some cl' := by
  cases inputMove_of_step hi hst c with
  | gone ha ht =>
    rcases ha with ⟨rfl,_⟩ | rfl
    all_goals exact absurd rfl hf
  | same _ _ hu _ _ =>
    rw [unhandled,unhandled,hcl] at hu
    exact live_of_unhandled hu
  | accept _ hu _ | read _ _ _ _ _ hu _ | skip _ _ _ _ _ _ hu _ | wait _ _ _ _ _ _ hu _
  | call _ _ _ _ _ _ hu _ | resume _ _ _ _ hu _ => exact live_of_unhandled hu

lemma Parked.step (h : Parked s c) (hi : StackInv s) (hf : a.frees ≠ some c)
    (hr : a.reads ≠ some c) (hst : s.step a = some (.ok t)) :
    Parked t c ∧ s.newCall t c = none := by
  have hread : ∀ cmds, a ≠ .readQuery c cmds := by
    rintro cmds rfl
    exact hr rfl
  have hu : t.unhandled c = some ([],none) ∧ s.newCall t c = none := by
    cases inputMove_of_step hi hst c with
    | gone ha ht =>
      rcases ha with ⟨rfl,_⟩ | rfl
      all_goals exact absurd rfl hf
    | accept ha hu hn =>
      subst ha
      cases transition_of hst with
      | accept _ _ hnone =>
      obtain ⟨cl,hcl,_⟩ := h.client
      rw [hnone] at hcl
      cases hcl
    | read cmds _ _ ha _ _ _ => exact absurd ha (hread cmds)
    | same _ _ hu _ hn => exact ⟨hu.trans h.unhandled,hn⟩
    | skip _ _ _ _ _ hs _ _ | wait _ _ _ _ _ hs _ _ | call _ _ _ _ _ hs _ _
    | resume _ _ _ hs _ _ => cases hs.symm.trans h.unhandled
  refine ⟨⟨hu.1,fun hact => ?_⟩,hu.2⟩
  obtain ⟨cl,hcl,hz,_⟩ := h.client
  have hocc : s.occurrences c = 0 := by rw [hi.wait.count,waits_of_some hcl,hz]
  have hlive : t.clients c ≠ none := by
    obtain ⟨cl',hcl'⟩ := live_of_unhandled hu.1
    simp [hcl']
  have hiff := (hi.wait.step hst).2 c hread hlive
  rw [ResumedOnLast,hocc] at hiff
  have hpos := (hiff.mp ⟨h.active,hact⟩).1
  omega

lemma cacheMaster_eq (hcl : s.clients c = some cl) :
    ∃ y : Client n, s.replicationCacheMaster c = s.setClient c (some y) ∧
      y.rockKeyNumber = cl.rockKeyNumber ∧ y.querybuf = [] ∧
      (y.mstate = cl.mstate ∨ y.mstate = []) := by
  simp only [replicationCacheMaster,hcl]
  cases hm : cl.multi with
  | true => exact ⟨_,rfl,rfl,rfl,.inr rfl⟩
  | false => exact ⟨_,rfl,rfl,rfl,.inl rfl⟩

lemma cacheMaster_parked (hi : StackInv s) (ha : ArgvInv s)
    (hcl : s.clients c = some cl) (hs : ¬ s.suspended c) (hin : .input c ∉ s.stack) :
    StackInv (s.replicationCacheMaster c) ∧ ArgvInv (s.replicationCacheMaster c) ∧
      Parked (s.replicationCacheMaster c) c := by
  obtain ⟨y,hy,hw,hqb,hm⟩ := cacheMaster_eq hcl
  rw [hy]
  have hwaits : ∀ x, (s.setClient c (some y)).waits x = s.waits x := by
    intro x
    by_cases hx : x = c
    · subst hx
      simp [waits,set_clients,hcl,hw]
    · simp [waits,set_clients,hx]
  have hsus : ∀ x, (s.setClient c (some y)).suspended x ↔ s.suspended x := by
    intro x
    rw [suspended,suspended,hwaits]
    rfl
  have hpark : (s.setClient c (some y)).unhandled c = some ([],none) := by
    rw [← hqb]
    exact unhandled_of_idle (by simp [set_clients]) fun h => hs ((hsus c).mp h)
  refine ⟨⟨?_,hi.nested,hi.exec,?_,?_⟩,?_,⟨hpark,?_⟩⟩
  · exact (hi.wait.congr (t := s.setClient c (some y)) (fun _ => rfl) hwaits
      (List.Sublist.refl _) ⟨rfl,rfl⟩).1
  · intro k qs mp z hk hz
    have hne : k.client ≠ c := by
      rintro rfl
      exact hin (hi.nested.input_mem k _ hk)
    rw [set_clients,if_neg hne] at hz
    exact hi.rest k qs mp z hk hz
  · intro x z hz q hq
    rw [set_clients] at hz
    split at hz
    · cases hz
      rcases hm with hm | hm
      · exact hi.queue c cl hcl q (hm ▸ hq)
      rw [hm] at hq
      cases hq
    · exact hi.queue x z hz q hq
  · intro x qb p hp
    by_cases hx : x = c
    · subst hx
      rw [hpark] at hp
      cases hp
    have hsame : (s.setClient c (some y)).unhandled x = s.unhandled x :=
      unhandled_congr (by simp [set_clients,hx]) (hsus x)
    exact ha x qb p (hsame ▸ hp)
  intro hact
  rcases mem_active_iff.mp hact with hi' | hd
  · exact hin hi'
  · exact hs (.inr hd)

end Server

namespace Replica
variable {n : Nat} {r t : Replica n} {a : ReplicaAct n} {c : ClientId}

/-- The connection to the master is lost while no command of the master is suspended
or in progress. -/
def lostSafe (r : Replica n) : ReplicaAct n → Bool
  | .main a =>
    match r.link with
    | .connected c =>
      decide (a.frees = some c → ¬ r.server.suspended c ∧ .input c ∉ r.server.stack)
    | _ => true
  | _ => true

lemma lift_ok {x : Option (Except Fault (Server n))} {link : MasterLink}
    (h : lift x link = some (.ok t)) : x = some (.ok t.server) ∧ t.link = link := by
  obtain ⟨s,hs,rfl⟩ := map_map_ok.mp h
  exact ⟨hs,rfl⟩

inductive Move (r t : Replica n) (a : ReplicaAct n) : Prop where
  | server (b : Act n) (h : r.server.step b = some (.ok t.server))
      (hb : ∀ c, t.link = .cached c → r.link = .cached c ∧ b.frees ≠ some c ∧ b.reads ≠ some c)
      (hc : ∀ c, t.link = .connected c → b = .accept c ∨ r.link = .connected c ∧ b.frees ≠ some c)
  | cache (c : ClientId) (b : Act n) (ha : a = .main b) (hl : r.link = .connected c)
      (hb : b.frees = some c) (ht : t = ⟨r.server.replicationCacheMaster c,.cached c⟩)
  | resurrect (c : ClientId) (hl : r.link = .cached c) (ht : t = ⟨r.server,.connected c⟩)

lemma main_cached {b : Act n} (hl : r.link = .cached c) (h : r.main b = some (.ok t)) :
    b.frees ≠ some c ∧ b.reads ≠ some c ∧ r.server.step b = some (.ok t.server) ∧
      t.link = .cached c := by
  simp only [main,hl] at h
  split at h
  · cases h
  rename_i hn
  rw [not_or] at hn
  obtain ⟨hs,ht⟩ := lift_ok h
  exact ⟨hn.1,hn.2,hs,ht⟩

lemma move_of_step (h : r.step a = some (.ok t)) : Move r t a := by
  cases a with
  | main b =>
    cases hl : r.link with
    | disconnected =>
      simp only [step,main,hl] at h
      obtain ⟨hs,ht⟩ := lift_ok h
      exact .server b hs (by simp [ht]) (by simp [ht])
    | connected c =>
      simp only [step,main,hl] at h
      split at h
      · rename_i hb
        obtain ⟨s,_,rfl⟩ := map_map_ok.mp h
        exact .cache c b rfl hl hb rfl
      rename_i hb
      obtain ⟨hs,ht⟩ := lift_ok h
      refine .server b hs (by simp [ht]) fun c' hc' => ?_
      cases ht.symm.trans hc'
      exact .inr ⟨hl,hb⟩
    | cached c =>
      obtain ⟨hf,hr,hs,ht⟩ := main_cached hl h
      refine .server b hs (fun c' hc' => ?_) (by simp [ht])
      cases ht.symm.trans hc'
      exact ⟨hl,hf,hr⟩
  | createMasterClient c =>
    rw [step,ite_none_right_eq_some] at h
    obtain ⟨hs,ht⟩ := lift_ok h.2
    refine .server _ hs (by simp [ht]) fun c' hc' => ?_
    cases ht.symm.trans hc'
    exact .inl rfl
  | resurrectCachedMaster =>
    simp only [step] at h
    split at h
    · rename_i c hl
      rw [ite_none_right_eq_some] at h
      cases h.2
      exact .resurrect c hl rfl
    · cases h
  | discardCachedMaster inCommand =>
    simp only [step] at h
    split at h
    · obtain ⟨hs,ht⟩ := lift_ok h
      exact .server _ hs (by simp [ht]) (by simp [ht])
    · cases h

structure CacheInv (r : Replica n) : Prop where
  stack : r.server.StackInv
  argv : r.server.ArgvInv
  live : ∀ c, r.link = .connected c → ∃ cl, r.server.clients c = some cl
  parked : ∀ c, r.link = .cached c → r.server.Parked c

lemma CacheInv.init (cfg : Config) : CacheInv (replica n cfg).init where
  stack := .init cfg
  argv := .init cfg
  live := by simp [replica]
  parked := by simp [replica]

lemma CacheInv.step (h : CacheInv r) (hsafe : r.lostSafe a = true)
    (hst : r.step a = some (.ok t)) : CacheInv t := by
  cases move_of_step hst with
  | server b hs hb hc =>
    refine ⟨h.stack.step hs,h.argv.step h.stack hs,fun c hl => ?_,fun c hl => ?_⟩
    · rcases hc c hl with rfl | ⟨hl',hf⟩
      · generalize t.server = u at hs
        cases transition_of hs with
        | accept => exact ⟨createClient n,by simp [set_clients]⟩
      obtain ⟨cl,hcl⟩ := h.live c hl'
      exact live_of_step h.stack hf hcl hs
    obtain ⟨hl',hf,hr⟩ := hb c hl
    exact ((h.parked c hl').step h.stack hf hr hs).1
  | cache c b ha hl hb ht =>
    subst ha ht
    obtain ⟨cl,hcl⟩ := h.live c hl
    simp only [lostSafe,hl,decide_eq_true_eq] at hsafe
    obtain ⟨hsus,hin⟩ := hsafe hb
    obtain ⟨hstack,hargv,hpark⟩ := cacheMaster_parked h.stack h.argv hcl hsus hin
    refine ⟨hstack,hargv,by simp,fun c' hc' => ?_⟩
    cases hc'
    exact hpark
  | resurrect c hl ht =>
    subst ht
    refine ⟨h.stack,h.argv,fun c' hc' => ?_,by simp⟩
    cases hc'
    obtain ⟨cl,hcl,_⟩ := (h.parked c hl).client
    exact ⟨cl,hcl⟩

lemma CacheInv.no_call (h : CacheInv r) (hl : r.link = .cached c)
    (hst : r.step a = some (.ok t)) :
    r.server.newCall t.server c = none ∧ r.server.execCall t.server c = none := by
  have hpark := h.parked c hl
  cases a with
  | main b =>
    obtain ⟨hf,hr,hs,_⟩ := main_cached hl hst
    exact ⟨(hpark.step h.stack hf hr hs).2,hpark.no_execCall h.stack hs⟩
  | createMasterClient x => simp [Replica.step,hl] at hst
  | resurrectCachedMaster =>
    simp only [Replica.step,hl,ite_none_right_eq_some] at hst
    cases hst.2
    exact ⟨newCall_length le_rfl,execCall_of_length le_rfl⟩
  | discardCachedMaster inCommand =>
    simp only [Replica.step,hl] at hst
    obtain ⟨hs,_⟩ := lift_ok hst
    have hstack : t.server.stack = r.server.stack := by
      generalize t.server = u at hs
      cases inCommand with
      | true =>
        cases transition_of hs with
        | killClient => rfl
      | false =>
        cases transition_of hs with
        | freeClient => rfl
    exact ⟨newCall_length (by rw [hstack]),execCall_of_length (by rw [hstack])⟩

lemma CacheInv.noFault (h : CacheInv r) : r.step a ≠ some (.error .nullCommand) := by
  intro hst
  have hserver : ∃ b, r.server.step b = some (.error .nullCommand) := by
    cases a with
    | main b =>
      refine ⟨b,?_⟩
      simp only [Replica.step,main] at hst
      split at hst
      · exact map_map_error_iff.mp hst
      · split at hst
        all_goals exact map_map_error_iff.mp hst
      split at hst
      · cases hst
      · exact map_map_error_iff.mp hst
    | createMasterClient c =>
      rw [Replica.step,ite_none_right_eq_some] at hst
      exact ⟨_,map_map_error_iff.mp hst.2⟩
    | resurrectCachedMaster =>
      simp only [Replica.step] at hst
      split at hst
      · rw [ite_none_right_eq_some] at hst
        cases hst.2
      · cases hst
    | discardCachedMaster inCommand =>
      simp only [Replica.step] at hst
      split at hst
      · exact ⟨_,map_map_error_iff.mp hst⟩
      · cases hst
  obtain ⟨b,hb⟩ := hserver
  exact h.argv.noFault hb

lemma CacheInv.resurrect (h : CacheInv r) (hl : r.link = .cached c)
    (hst : r.step .resurrectCachedMaster = some (.ok t)) :
    t.link = .connected c ∧ ∀ cmds, ∃ u, t.step (.main (.readQuery c cmds)) = some (.ok u) ∧
      u.server.stack = [.input c] ∧ (u.server.clients c).map Client.querybuf = some cmds := by
  simp only [Replica.step,hl,ite_none_right_eq_some] at hst
  obtain ⟨hloop,ht⟩ := hst
  cases ht
  obtain ⟨cl,hcl,hz,hqb⟩ := (h.parked c hl).client
  refine ⟨rfl,fun cmds => ⟨⟨{ r.server.setClient c (some { cl with querybuf := cmds }) with
    stack := [.input c] },.connected c⟩,?_,rfl,?_⟩⟩
  · simp [Replica.step,main,Act.frees,lift,Server.step,readQuery,hcl,hloop,hz,hqb,Except.map]
  · simp [setClient]

/-- As long as the master's connection is lost only while no command of it is
suspended or in progress, the cached master waits for nothing, is never resumed, and
goes on normally when it is connected again. -/
theorem cachedMaster_parked {cfg : Config} {as : List (ReplicaAct n)}
    (hg : (replica n cfg).Guarded (fun r a => r.lostSafe a = true) (replica n cfg).init as)
    (h : (replica n cfg).run as = some (.ok r)) :
    (∀ c, r.link = .cached c → (∃ cl, r.server.clients c = some cl ∧ cl.rockKeyNumber = 0) ∧
      (∀ d key clients, (r.server.db d).rockKeys.lookup key = some clients → c ∉ clients) ∧
      (∀ a t, r.step a = some (.ok t) →
        r.server.newCall t.server c = none ∧ r.server.execCall t.server c = none) ∧
      ∀ t, r.step .resurrectCachedMaster = some (.ok t) →
        t.link = .connected c ∧ ∀ cmds, ∃ u, t.step (.main (.readQuery c cmds)) = some (.ok u) ∧
          u.server.stack = [.input c] ∧ (u.server.clients c).map Client.querybuf = some cmds) ∧
    ∀ a, r.step a ≠ some (.error .nullCommand) := by
  have hi : CacheInv r := (replica n cfg).guarded_invariant (CacheInv.init cfg)
    (fun _ _ _ hi hc hst => hi.step hc hst) hg h
  refine ⟨fun c hl => ⟨?_,?_,?_,?_⟩,fun a => hi.noFault⟩
  · obtain ⟨cl,hcl,hz,_⟩ := (hi.parked c hl).client
    exact ⟨cl,hcl,hz⟩
  · intro d key clients hk
    exact (hi.parked c hl).notMem_rockKeys hi.stack.wait hk
  · intro a t hst
    exact hi.no_call hl hst
  intro t hst
  exact hi.resurrect hl hst

end Replica

namespace Sample

def append (k : Sds) (b : UInt8) : Command := ⟨⟨.other,some .oneKey,true,false⟩,[[97],k,[b]]⟩

/-- The server with two keys on disk is connected to its master, client 4. -/
def mastered : List (ReplicaAct 0) := stored.map .main ++ [.createMasterClient 4]

/-- The master sends a command on `k1`, which is on disk. -/
def masterWaits : List (ReplicaAct 0) :=
  mastered ++ [.main (.readQuery 4 [append k1 5]),.main (.nextCommand none [])]

end Sample
open Sample

namespace Replica

/-- The master is lost between two of its commands. -/
theorem cachedMaster_parked_idle : ∃ r : Replica 0, (replica 0 Sample.config).run
      (Sample.mastered ++ [.main (.freeClient 4)]) = some (.ok r) ∧
    r.link = .cached 4 ∧ (∃ cl, r.server.clients 4 = some cl ∧ cl.rockKeyNumber = 0) ∧
    ∀ a, r.step a ≠ some (.error .nullCommand) := by
  refine Machine.exists_run_and _ (by decide) fun r hr hlink => ?_
  obtain ⟨hcached,hfault⟩ := cachedMaster_parked (Machine.guarded_check _ _ _ _ (by decide)) hr
  exact ⟨(hcached 4 hlink).1,hfault⟩

/-- The master is lost while it waits for `k1`: the cached client still waits, and when
the key is read it is resumed with no command. -/
theorem cachedMaster_resumed : ∃ r t : Replica 0,
    (replica 0 Sample.config).run (Sample.masterWaits ++ [.main (.freeClient 4)]) = some (.ok r) ∧
    r.link = .cached 4 ∧ (r.server.clients 4).map Client.rockKeyNumber = some 1 ∧
    (replica 0 Sample.config).run (Sample.masterWaits ++ [.main (.freeClient 4)] ++
      (Sample.jobDone ++ [Act.pipeReadable]).map .main) = some (.ok t) ∧
    t.step (.main (.handlerResume [])) = some (.error .nullCommand) := by
  obtain ⟨r,hr,hl,hw⟩ := (replica 0 config).exists_run (masterWaits ++ [.main (.freeClient 4)])
    (fun r => r.link = .cached 4 ∧ (r.server.clients 4).map Client.rockKeyNumber = some 1) (by decide)
  obtain ⟨t,ht,hobs⟩ := (replica 0 config).observed (masterWaits ++ [.main (.freeClient 4)] ++
      (jobDone ++ [Act.pipeReadable]).map .main)
    (fun t => (t.step (.main (.handlerResume []))).map (Except.map fun _ => ()))
    (some (.error .nullCommand)) (by decide)
  exact ⟨r,t,hr,hl,hw,ht,map_map_error_iff.mp hobs⟩

end Replica
end RedRock
