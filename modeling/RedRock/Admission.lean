import RedRock.Master

/-!
Admission control. A server refuses or delays commands while clients are paused, while
a script is in timeout, while it loads data, and as a read-only replica. A slow script
and a load call the event loop from inside, so that events are handled on top of the
call that is in progress.
-/

namespace RedRock
open Lib List Server Function

/-- The flag `CMD_LOADING`, and the commands `processCommand` lets through while a
script is in timeout (AUTH, HELLO, REPLCONF, SHUTDOWN NOSAVE, SCRIPT KILL), none of
which has keys. -/
structure CommandTable where
  cmdLoading : Command → Bool
  allowedInTimeout : Command → Bool
  noKeys : ∀ q, allowedInTimeout q = true → q.cmd.proc = .other ∧ q.cmd.checkRockProc = none

/-- `luaTimedout` is the caller of the script in timeout, which is protected;
`readOnly` is `server.masterhost && server.repl_slave_ro`. -/
structure Modes where
  clientsPaused : Bool
  luaTimedout : Option ClientId
  loading : Bool
  readOnly : Bool
  deriving DecidableEq

/-- What calls `processEventsWhileBlocked`. -/
inductive Blocker where
  | script
  | loading
  deriving DecidableEq

structure Level (n : Nat) where
  blocker : Blocker
  stack : List (Frame n)
  handler : Handler

def Level.due {n : Nat} (l : Level n) : List ClientId :=
  l.handler.active ++ l.stack.flatMap Frame.due

structure Node (n : Nat) where
  server : Server n
  outer : List (Level n)
  modes : Modes
  slave : ClientId → Bool
  master : ClientId → Bool

inductive NodeAct (n : Nat) where
  | main (a : Act n)
  | createMasterClient (c : ClientId)
  | becomeReplica
  | setPaused (b : Bool)
  | setReadOnly (b : Bool)
  | luaTimeout
  | enterEvents
  | leaveEvents
  | startLoading
  | loadOp (o : KsOp n)
  | stopLoading

namespace Node
variable {n : Nat}

def luaCaller (r : Node n) : Option ClientId :=
  match r.server.stack with
  | .call k (.script _) :: _ => some k.client
  | _ => none

def runningClient (r : Node n) : Option ClientId :=
  match r.server.stack with
  | .call k .proc :: _ => if k.cmd.cmd.proc = .other then some k.client else none
  | _ => none

def modesAfter (r : Node n) : NodeAct n → Modes
  | .main .scriptExit => { r.modes with luaTimedout := none }
  | .setPaused b => { r.modes with clientsPaused := b }
  | .setReadOnly b => { r.modes with readOnly := b }
  | .luaTimeout => { r.modes with luaTimedout := r.luaCaller }
  | .startLoading => { r.modes with loading := true }
  | .stopLoading => { r.modes with loading := false }
  | _ => r.modes

/-- The checks of `processCommand` for command `q` of client `c`. -/
def admits (tbl : CommandTable) (r : Node n) (c : ClientId) (q : Command) : Bool :=
  (r.modes.luaTimedout.isNone || tbl.allowedInTimeout q) &&
  (!r.modes.loading || tbl.cmdLoading q) &&
  (!r.modes.readOnly || !q.cmd.write || r.master c)

/-- What the modes leave of the server's steps. `processInputBuffer` stops for a
paused client and for the master of a server with a slow script. -/
def permits (tbl : CommandTable) (r : Node n) : Act n → Bool
  | .nextCommand reject _ =>
    match r.server.stack with
    | .input c :: _ =>
      match r.server.clients c with
      | some cl =>
        match cl.querybuf with
        | q :: _ => decide (0 < cl.rockKeyNumber) ||
            (!r.modes.clientsPaused || r.slave c) &&
            (r.modes.luaTimedout.isNone || !r.master c) && (reject.isSome || r.admits tbl c q)
        | [] => true
      | none => true
    | _ => true
  | .dump _ _ | .initHotKeys | .sampleHotKey _ _ =>
    !r.modes.clientsPaused && r.modes.luaTimedout.isNone && !r.modes.loading
  | .readQuery c _ | .freeClient c | .killClient c => decide (r.modes.luaTimedout ≠ some c)
  | _ => true

def clearFlag (f : ClientId → Bool) : Act n → ClientId → Bool
  | .accept c => update f c false
  | _ => f

def main (tbl : CommandTable) (r : Node n) (a : Act n) : Option (Except Fault (Node n)) :=
  if r.permits tbl a then
    (r.server.step a).map (Except.map fun s => { r with
      server := s, modes := r.modesAfter (.main a)
      slave := clearFlag r.slave a, master := clearFlag r.master a })
  else none

def atCommand (r : Node n) : Bool := r.server.atLoop || r.runningClient.isSome

def enter (r : Node n) (b : Blocker) : Node n :=
  { r with
    server := { r.server with stack := [], handler := .idle }
    outer := ⟨b,r.server.stack,r.server.handler⟩ :: r.outer }

def leave (r : Node n) (b : Blocker) : Option (Node n) :=
  match r.outer with
  | l :: ls =>
    if r.server.atLoop ∧ l.blocker = b then some { r with
      server := { r.server with stack := l.stack, handler := l.handler }, outer := ls }
    else none
  | [] => none

def step (tbl : CommandTable) (r : Node n) (act : NodeAct n) : Option (Except Fault (Node n)) :=
  match act with
  | .main a => r.main tbl a
  | .createMasterClient c => (r.server.step (.accept c)).map (Except.map fun s => { r with
      server := s, slave := update r.slave c false
      master := update r.master c true })
  | .becomeReplica =>
    r.runningClient.map fun c => .ok { r with slave := update r.slave c true }
  | .setPaused _ | .setReadOnly _ =>
    if r.atCommand then some (.ok { r with modes := r.modesAfter act }) else none
  | .luaTimeout =>
    if r.luaCaller.isSome ∧ r.modes.luaTimedout = none then
      some (.ok { r with modes := r.modesAfter act })
    else none
  | .enterEvents =>
    if r.luaCaller.isSome ∧ r.modes.luaTimedout.isSome then some (.ok (r.enter .script)) else none
  | .leaveEvents => (r.leave .script).map .ok
  | .startLoading =>
    if r.atCommand ∧ r.modes.loading = false then
      some (.ok { r.enter .loading with modes := r.modesAfter act })
    else none
  | .loadOp o =>
    if r.modes.loading ∧ r.server.atLoop ∧ (r.outer.head?.any fun l => l.blocker = .loading) then
      some ((r.server.applyOp o).map fun s => { r with server := s })
    else none
  | .stopLoading => (r.leave .loading).map fun r' => .ok { r' with modes := r.modesAfter act }

end Node

def node (n : Nat) (cfg : Config) (tbl : CommandTable) : Machine (Node n) (NodeAct n) Fault where
  init := ⟨initServer n cfg,[],⟨false,none,false,false⟩,fun _ => false,fun _ => false⟩
  step := Node.step tbl

namespace Node
variable {n : Nat} {tbl : CommandTable} {r t : Node n} {a : Act n} {act : NodeAct n} {c : ClientId}
variable {cur : Option Command} {q : Command}

def due (r : Node n) : List ClientId := r.server.due ++ r.outer.flatMap Level.due

def suspended (r : Node n) (c : ClientId) : Prop := 0 < r.server.waits c ∨ c ∈ r.due

/-- Command `cur` of client `c` may be executed by a resumption. -/
structure Admitted (tbl : CommandTable) (m : Modes) (slave master : ClientId → Bool)
    (c : ClientId) (cur : Option Command) : Prop where
  paused : m.clientsPaused = true → slave c = true
  timedout : m.luaTimedout = none
  loading : m.loading = true → ∀ q, cur = some q → tbl.cmdLoading q = true
  readOnly : m.readOnly = true → ∀ q, cur = some q → q.cmd.write = true → master c = true

def AllAdmitted (tbl : CommandTable) (r : Node n) (m : Modes) : Prop :=
  ∀ c cl, r.server.clients c = some cl → r.suspended c →
    Admitted tbl m r.slave r.master c cl.current

/-- A mode begins only where every suspended command remains admissible under it, and
no client that is still to be resumed is freed. -/
def admissionSafe (tbl : CommandTable) (r : Node n) (act : NodeAct n) : Prop :=
  match act with
  | .main a => ∀ c ∈ r.due, a.frees ≠ some c
  | .setPaused true | .setReadOnly true | .luaTimeout | .startLoading =>
    r.AllAdmitted tbl (r.modesAfter act)
  | _ => True

lemma suspended_iff : r.suspended c ↔ r.server.suspended c ∨ c ∈ r.outer.flatMap Level.due := by
  rw [suspended,due,Server.suspended,mem_append,or_assoc]

lemma main_ok (h : r.main tbl a = some (.ok t)) :
    r.permits tbl a = true ∧ r.server.step a = some (.ok t.server) ∧ t.outer = r.outer ∧
      t.modes = r.modesAfter (.main a) ∧ t.slave = clearFlag r.slave a ∧
      t.master = clearFlag r.master a := by
  rw [main,Option.ite_none_right_eq_some] at h
  obtain ⟨s,hs,rfl⟩ := map_map_ok.mp h.2
  exact ⟨h.1,hs,rfl,rfl,rfl,rfl⟩

lemma Admitted.drop {m : Modes} {slave master : ClientId → Bool}
    (h : Admitted tbl m slave master c cur) : Admitted tbl m slave master c none :=
  ⟨h.paused,h.timedout,by simp,by simp⟩

lemma Admitted.mono {m m' : Modes} {slave slave' master master' : ClientId → Bool}
    (h : Admitted tbl m slave master c cur) (hp : m'.clientsPaused = true → m.clientsPaused = true)
    (ht : m'.luaTimedout = m.luaTimedout ∨ m'.luaTimedout = none)
    (hl : m'.loading = true → m.loading = true) (hr : m'.readOnly = true → m.readOnly = true)
    (hs : slave c = true → slave' c = true) (hm : master c = true → master' c = true) :
    Admitted tbl m' slave' master' c cur where
  paused hp' := hs (h.paused (hp hp'))
  timedout := by
    rcases ht with ht | ht
    · rw [ht,h.timedout]
    · exact ht
  loading hl' := h.loading (hl hl')
  readOnly hr' q hq hw := hm (h.readOnly (hr hr') q hq hw)

/-- The clients to be resumed are alive, and what they wait with is admitted. -/
structure AdmitInv (tbl : CommandTable) (r : Node n) : Prop where
  live : ∀ c ∈ r.due, ∃ cl, r.server.clients c = some cl
  admitted : r.AllAdmitted tbl r.modes

lemma AdmitInv.init (cfg : Config) : AdmitInv tbl (node n cfg tbl).init where
  live := by simp [node,due,Server.due,initServer,Handler.active]
  admitted := by
    intro c cl hcl
    simp [node,initServer] at hcl

lemma AdmitInv.live_suspended (h : AdmitInv tbl r) (hs : r.suspended c) :
    ∃ cl, r.server.clients c = some cl := by
  rcases hs with hw | hd
  · exact waits_live hw
  · exact h.live c hd

lemma admitted_next {cl y : Client n} {qs : List Command} {pick : Sds}
    (hperm : r.permits tbl (.nextCommand none pick) = true)
    (hs : r.server.stack.head? = some (.input c)) (hcl : r.server.clients c = some cl)
    (hqb : cl.querybuf = q :: qs) (hz : cl.rockKeyNumber = 0)
    (hm : cl.multi = true → q.cmd.proc.skipsQueue = true)
    (hno : q.cmd.checkRockProc = none → cl.multi = false → y.rockKeyNumber = 0)
    (hw : 0 < y.rockKeyNumber ∨ r.modes.luaTimedout = none) :
    Admitted tbl r.modes r.slave r.master c (some q) := by
  obtain ⟨rest,hstk⟩ := head?_eq_some_iff.mp hs
  simp only [permits,hstk,hcl,hqb,hz,admits,lt_irrefl,decide_false,Bool.false_or,
    Option.isSome_none,Bool.and_eq_true,Bool.or_eq_true,Bool.not_eq_true',Option.isNone_iff_eq_none] at hperm
  obtain ⟨⟨hpause,_⟩,⟨htime,hload⟩,hro⟩ := hperm
  refine ⟨fun hp => ?_,?_,fun hl q' hq' => ?_,fun hr q' hq' hw' => ?_⟩
  · simpa [hp] using hpause
  · rcases hw with hpos | hnone
    · -- a command allowed while a script is in timeout never waits
      rcases htime with hnone | hall
      · exact hnone
      obtain ⟨hother,hchk⟩ := tbl.noKeys q hall
      have hmul : cl.multi = false := by
        cases hmul : cl.multi with
        | false => rfl
        | true =>
          have hsk := hm hmul
          rw [hother] at hsk
          cases hsk
      have hzero := hno hchk hmul
      omega
    · exact hnone
  · cases hq'
    simpa [hl] using hload
  · cases hq'
    simpa [hr,hw'] using hro

lemma AdmitInv.server_step (h : AdmitInv tbl r) (hst : r.server.step a = some (.ok t.server))
    (hperm : r.permits tbl a = true) (hout : t.outer = r.outer)
    (hfree : ∀ c ∈ r.due, a.frees ≠ some c)
    (hmode : ∀ c cur, a ≠ .accept c → Admitted tbl r.modes r.slave r.master c cur →
      Admitted tbl t.modes t.slave t.master c cur) : AdmitInv tbl t := by
  have hsus : ∀ c, t.suspended c ↔ t.server.suspended c ∨ c ∈ r.outer.flatMap Level.due := by
    intro c
    rw [suspended_iff,hout]
  have hdue : ∀ c, t.server.due = r.server.due → (c ∈ t.due ↔ c ∈ r.due) := by
    intro c hd
    rw [due,due,hd,hout]
  constructor
  · intro c hc
    have hc' : t.suspended c := .inr hc
    cases clientMove_of_step hst c with
    | gone ha ht =>
      have hc₀ : c ∈ r.due := (hdue c (by rw [ht]; rfl)).mp hc
      rcases ha with ⟨rfl,_⟩ | rfl
      all_goals exact absurd rfl (hfree c hc₀)
    | keep _ _ hcl hs _ =>
      rw [hsus,hs,← suspended_iff] at hc'
      obtain ⟨cl,hcl'⟩ := h.live_suspended hc'
      rw [hcl'] at hcl
      obtain ⟨y,hy,_⟩ := Option.map_eq_some_iff.mp hcl
      exact ⟨y,hy⟩
    | accept _ _ ht _ _ => exact ⟨_,ht⟩
    | read _ _ _ _ ht _ _ => exact ⟨_,ht⟩
    | ret _ _ _ _ _ _ ht _ _ => exact ⟨_,ht⟩
    | skip _ y _ _ _ _ _ _ _ _ ht _ _ _ => exact ⟨y,ht⟩
    | next _ y _ _ _ _ _ _ _ _ _ _ ht _ _ _ _ => exact ⟨y,ht⟩
    | resume _ y _ _ _ _ ht _ _ _ => exact ⟨y,ht⟩
  intro c z hz hs
  cases clientMove_of_step hst c with
  | gone ha ht => simp [ht,freeClient,set_clients] at hz
  | accept ha hnone ht hd _ =>
    -- the id of a client that is still to be resumed is not taken again
    cases ht.symm.trans hz
    refine absurd hs ?_
    rintro (hw | hd')
    · rw [waits_of_some ht] at hw
      simp [createClient] at hw
    obtain ⟨cl,hcl⟩ := h.live c ((hdue c (hd.2.trans hd.1.symm)).mp hd')
    rw [hnone] at hcl
    cases hcl
  | read cl cmds ha hcl ht hd _ =>
    cases ht.symm.trans hz
    rw [hsus,suspended_congr hcl ht rfl hd,← suspended_iff] at hs
    exact hmode c _ (by simp [ha]) (h.admitted c cl hcl hs)
  | keep ha _ hcl hs' _ =>
    rw [hsus,hs',← suspended_iff] at hs
    obtain ⟨cl,hcl'⟩ := h.live_suspended hs
    rw [hz,hcl',Option.map_some,Option.map_some,Option.some.injEq,Prod.mk.injEq] at hcl
    rw [hcl.2]
    exact hmode c _ ha.1 (h.admitted c cl hcl' hs)
  | ret cl k ha _ _ hcl ht hd _ =>
    cases ht.symm.trans hz
    rw [hsus,suspended_congr hcl ht rfl hd,← suspended_iff] at hs
    exact hmode c _ (by simp [ha]) (h.admitted c cl hcl hs).drop
  | skip cl y q qs o hin hcl hqb hk ho ht hy hd _ =>
    cases ht.symm.trans hz
    rw [hsus,suspended_congr hcl ht hy.2.2 hd,← suspended_iff] at hs
    rw [hy.2.1]
    refine hmode c _ ?_ (h.admitted c cl hcl hs)
    rintro rfl
    cases hk
  | next cl y q qs pick ha hin hcl hqb hz' hm hk ht hy hno hd hres =>
    cases ht.symm.trans hz
    subst ha
    have hw : 0 < z.rockKeyNumber ∨ r.modes.luaTimedout = none := by
      rcases hs with hw | hd'
      · exact .inl (by rwa [waits_of_some ht] at hw)
      · exact .inr (h.admitted c cl hcl (.inr ((hdue c hd).mp hd'))).timedout
    rw [hy.2]
    exact hmode c _ (by simp) (admitted_next hperm hin hcl hqb hz' hm hno hw)
  | resume cl y q ha hcl hq ht hy hd hres =>
    cases ht.symm.trans hz
    have hs₀ : r.suspended c := by
      rw [suspended_iff]
      exact .inl (.inr (due_of_resumes ha))
    have hadm := h.admitted c cl hcl hs₀
    rw [hq] at hadm
    rw [hy.2]
    refine hmode c _ ?_ hadm
    rintro rfl
    cases ha

lemma AdmitInv.congr (h : AdmitInv tbl r) (hcl : t.server.clients = r.server.clients)
    (hd : t.due = r.due) (hadm : ∀ c cl, r.server.clients c = some cl → r.suspended c →
      Admitted tbl t.modes t.slave t.master c cl.current) : AdmitInv tbl t where
  live c hc := by
    rw [hcl]
    exact h.live c (hd ▸ hc)
  admitted c cl hc hs := by
    rw [hcl] at hc
    rw [suspended,waits,hcl,hd] at hs
    exact hadm c cl hc hs

lemma due_enter (b : Blocker) : (r.enter b).due = r.due := by
  simp [due,enter,Server.due,Level.due,Handler.active]

lemma leave_some {b : Blocker} (h : r.leave b = some t) :
    t.server.clients = r.server.clients ∧ t.due = r.due ∧ t.modes = r.modes ∧
      t.slave = r.slave ∧ t.master = r.master := by
  unfold leave at h
  split at h
  · rename_i l ls ho
    rw [Option.ite_none_right_eq_some,atLoop_iff] at h
    obtain ⟨⟨⟨hs,hh⟩,_⟩,ht⟩ := h
    cases ht
    simp [due,ho,Server.due,Level.due,hs,hh,Handler.active]
  · cases h

lemma AdmitInv.main (h : AdmitInv tbl r) (hsafe : ∀ c ∈ r.due, a.frees ≠ some c)
    (hst : r.main tbl a = some (.ok t)) : AdmitInv tbl t := by
  obtain ⟨hperm,hs,hout,hm,hsl,hma⟩ := main_ok hst
  refine h.server_step hs hperm hout hsafe fun c cur hne hadm => ?_
  rw [hm,hsl,hma]
  have hflag : ∀ f : ClientId → Bool, clearFlag f a c = f c := by
    intro f
    cases a with
    | accept x =>
      have hx : c ≠ x := by
        rintro rfl
        exact hne rfl
      simp [clearFlag,hx]
    | _ => rfl
  have hmodes : r.modesAfter (.main a) = r.modes ∨
      r.modesAfter (.main a) = { r.modes with luaTimedout := none } := by
    cases a with
    | scriptExit => exact .inr rfl
    | _ => exact .inl rfl
  refine hadm.mono ?_ ?_ ?_ ?_ (by simp [hflag]) (by simp [hflag])
  all_goals
    rcases hmodes with hm | hm
    · simp [hm]
    · simp [hm]

lemma AdmitInv.step (h : AdmitInv tbl r) (hsafe : r.admissionSafe tbl act)
    (hst : r.step tbl act = some (.ok t)) : AdmitInv tbl t := by
  cases act with
  | main a => exact h.main hsafe hst
  | createMasterClient c =>
    obtain ⟨s,hs,rfl⟩ := map_map_ok.mp hst
    refine h.server_step (t := { r with server := s, slave := _, master := _ }) hs rfl rfl
      (by simp [Act.frees]) fun x cur hne hadm => ?_
    have hx : x ≠ c := by
      rintro rfl
      exact hne rfl
    refine hadm.mono id (.inl rfl) id id ?_ ?_
    · simp [hx]
    · simp [hx]
  | becomeReplica =>
    obtain ⟨c,_,ht⟩ := Option.map_eq_some_iff.mp hst
    cases ht
    refine h.congr rfl rfl fun x cl hcl hs => ?_
    refine (h.admitted x cl hcl hs).mono id (.inl rfl) id id ?_ id
    intro hx
    by_cases hxc : x = c
    · simp [hxc]
    · simpa [hxc] using hx
  | setPaused b =>
    simp only [Node.step,enabled_ok_iff] at hst
    obtain ⟨_,rfl⟩ := hst
    cases b with
    | true => exact h.congr rfl rfl hsafe
    | false =>
      refine h.congr rfl rfl fun x cl hcl hs => ?_
      exact (h.admitted x cl hcl hs).mono (by simp [modesAfter]) (.inl rfl) id id id id
  | setReadOnly b =>
    simp only [Node.step,enabled_ok_iff] at hst
    obtain ⟨_,rfl⟩ := hst
    cases b with
    | true => exact h.congr rfl rfl hsafe
    | false =>
      refine h.congr rfl rfl fun x cl hcl hs => ?_
      exact (h.admitted x cl hcl hs).mono id (.inl rfl) id (by simp [modesAfter]) id id
  | luaTimeout =>
    simp only [Node.step,enabled_ok_iff] at hst
    obtain ⟨_,rfl⟩ := hst
    exact h.congr rfl rfl hsafe
  | enterEvents =>
    simp only [Node.step,enabled_ok_iff] at hst
    obtain ⟨_,rfl⟩ := hst
    exact h.congr rfl (due_enter .script) h.admitted
  | leaveEvents =>
    obtain ⟨t',ht',he⟩ := Option.map_eq_some_iff.mp hst
    cases he
    obtain ⟨hcl,hd,hm,hs,hma⟩ := leave_some ht'
    refine h.congr hcl hd ?_
    rw [hm,hs,hma]
    exact h.admitted
  | startLoading =>
    simp only [Node.step,enabled_ok_iff] at hst
    obtain ⟨_,rfl⟩ := hst
    exact h.congr rfl (due_enter .loading) hsafe
  | loadOp o =>
    simp only [Node.step,enabled_iff] at hst
    obtain ⟨_,hst⟩ := hst
    cases ho : r.server.applyOp o with
    | error f =>
      rw [ho] at hst
      cases hst
    | ok s =>
      rw [ho] at hst
      cases hst
      obtain ⟨db,b,rfl,_⟩ := op_keyspace ho
      exact h.congr rfl rfl h.admitted
  | stopLoading =>
    obtain ⟨t',ht',he⟩ := Option.map_eq_some_iff.mp hst
    cases he
    obtain ⟨hcl,hd,hm,hs,hma⟩ := leave_some ht'
    refine h.congr hcl hd fun x cl hx hsx => ?_
    rw [hs,hma]
    exact (h.admitted x cl hx hsx).mono id (.inl rfl) (by simp [modesAfter]) id id id

lemma current_of_resumes (hr : r.server.resumes a = some c)
    (hst : r.server.step a = some (.ok t.server)) (hn : r.server.newCall t.server c = some q) :
    ∃ cl, r.server.clients c = some cl ∧ cl.current = some q := by
  have hne : ∀ pick, a ≠ .nextCommand none pick := by
    rintro pick rfl
    cases hr
  cases clientMove_of_step hst c with
  | resume cl y q' ha hcl hq ht hy hd hres =>
    rcases hres with ⟨_,hn'⟩ | ⟨_,hn'⟩
    · cases hn'.symm.trans hn
      exact ⟨cl,hcl,hq⟩
    · cases hn'.symm.trans hn
  | next _ _ _ _ pick ha _ _ _ _ _ _ _ _ _ _ _ => exact absurd ha (hne pick)
  | gone _ ht =>
    have hnone : r.server.newCall t.server c = none := by
      rw [ht]
      exact newCall_length le_rfl
    cases hnone.symm.trans hn
  | accept _ _ _ _ hn' | read _ _ _ _ _ _ hn' | keep _ _ _ _ hn' | ret _ _ _ _ _ _ _ _ hn'
  | skip _ _ _ _ _ _ _ _ _ _ _ _ _ hn' => cases hn'.symm.trans hn

/-- A suspended command is executed only where it would be admitted, as long as a mode
begins only where every suspended command remains admissible under it. -/
theorem resumption_admitted {cfg : Config} {as : List (NodeAct n)}
    (hg : (node n cfg tbl).Guarded (fun r act => r.admissionSafe tbl act) (node n cfg tbl).init as)
    (h : (node n cfg tbl).run as = some (.ok r)) {q : Command}
    (hr : r.server.resumes a = some c) (hst : r.step tbl (.main a) = some (.ok t))
    (hn : r.server.newCall t.server c = some q) :
    (r.modes.clientsPaused = true → r.slave c = true) ∧ r.modes.luaTimedout = none ∧
    (r.modes.loading = true → tbl.cmdLoading q = true) ∧
    (r.modes.readOnly = true → q.cmd.write = true → r.master c = true) := by
  have hi : AdmitInv tbl r := (node n cfg tbl).guarded_invariant (AdmitInv.init cfg)
    (fun _ _ _ hi hc hst => hi.step hc hst) hg h
  obtain ⟨cl,hcl,hq⟩ := current_of_resumes hr (main_ok hst).2.1 hn
  have hs : r.suspended c := by
    rw [suspended_iff]
    exact .inl (.inr (due_of_resumes hr))
  have hadm := hi.admitted c cl hcl hs
  exact ⟨hadm.paused,hadm.timedout,fun hl => hadm.loading hl q hq,fun hro => hadm.readOnly hro q hq⟩

end Node

namespace Sample

def table : CommandTable := ⟨fun _ => false,fun _ => false,by simp⟩

/-- Client 1, already connected, writes `k1` and `k2`, which are dumped; client 2 waits
for `k1` until it is read. -/
def readBack : List (Act 0) :=
  stored.drop 1 ++ [.readQuery 2 [get k1],.nextCommand none []] ++ jobDone ++ [.pipeReadable]

/-- The same on a read-only replica, with client 1 for the master. -/
def replicaWaits : List (NodeAct 0) :=
  .setReadOnly true :: .createMasterClient 1 :: readBack.map .main

/-- Client 1 waits for `k1`, and client 3 runs a script. -/
def scriptStarts : List (Act 0) :=
  stored ++ [.readQuery 1 [get k1],.nextCommand none [],.readQuery 3 [eval],
    .nextCommand none [],.runProc false]

/-- The script is slow, and the key is read while it runs. -/
def slowScript : List (NodeAct 0) :=
  scriptStarts.map .main ++ [.luaTimeout,.enterEvents] ++ (jobDone ++ [Act.pipeReadable]).map .main

end Sample

open Sample

namespace Node

/-- Client 2 reads on the read-only replica. -/
theorem resumption_admitted_readOnly : ∃ r t : Node 0,
    (node 0 config table).run replicaWaits = some (.ok r) ∧
    r.step table (.main (.handlerResume [])) = some (.ok t) ∧
    r.server.newCall t.server 2 = some (Sample.get Sample.k1) ∧
    (r.modes.readOnly = true → (Sample.get Sample.k1).cmd.write = true → r.master 2 = true) := by
  obtain ⟨r,hr,hres,hobs⟩ := (node 0 config table).exists_run replicaWaits
    (fun r => r.server.resumes (.handlerResume []) = some 2 ∧
      (r.step table (.main (.handlerResume []))).map
        (Except.map fun t => r.server.newCall t.server 2) = some (.ok (some (get k1)))) (by decide)
  obtain ⟨t,ht,hn⟩ := map_map_ok.mp hobs
  have hg : (node 0 config table).Guarded
      (fun r act => r.admissionSafe table act) (node 0 config table).init
      replicaWaits := by
    refine ⟨fun c cl hcl => ?_,fun s _ => ⟨trivial,fun s _ => ?_⟩⟩
    · simp [node,initServer] at hcl
    refine (node 0 config table).guarded_forall s _ fun act hact s => ?_
    obtain ⟨a,ha,rfl⟩ := mem_map.mp hact
    have hf : ∀ a ∈ readBack, a.frees = none := by decide
    intro c _
    simp [hf a ha]
  exact ⟨r,t,hr,ht,hn,(resumption_admitted hg hr hres ht hn).2.2.2⟩

/-- The slow script's event loop delivers the rock pipe event, and client 1 runs its
command in the middle of the script. -/
theorem resumption_in_slow_script : ∃ r t : Node 0,
    (node 0 config table).run slowScript = some (.ok r) ∧
    r.modes.luaTimedout = some 3 ∧ r.server.resumes (.handlerResume []) = some 1 ∧
    r.step table (.main (.handlerResume [])) = some (.ok t) ∧
    r.server.newCall t.server 1 = some (Sample.get Sample.k1) := by
  obtain ⟨r,hr,hm,hres,hobs⟩ := (node 0 config table).exists_run slowScript
    (fun r => r.modes.luaTimedout = some 3 ∧ r.server.resumes (.handlerResume []) = some 1 ∧
      (r.step table (.main (.handlerResume []))).map
        (Except.map fun t => r.server.newCall t.server 1) = some (.ok (some (get k1)))) (by decide)
  obtain ⟨t,ht,hn⟩ := map_map_ok.mp hobs
  exact ⟨r,t,hr,hm,hres,ht,hn⟩

end Node
end RedRock
