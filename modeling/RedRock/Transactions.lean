import RedRock.Contents
import RedRock.Control
import RedRock.LuaAccess
import RedRock.Flag

/-!
The queue of a transaction is checked once, when EXEC is accepted, in the
database the client has selected then. The commands of the queue run one after
the other, and what the earlier ones do can put a later one in front of a
placeholder.
-/

namespace RedRock
open Lib List Option RedRock.Frame
variable {key : Sds} {cArgv : List Sds}

/-- The check of these commands reads `c->argv`, which is EXEC's while a queue is
checked, and not the argument vector it is given. -/
def Command.readsClientArgv (q : Command) : Bool :=
  decide (q.cmd.checkRockProc = some .zstore ∨ q.cmd.checkRockProc = some .migrate)

namespace Frame
variable {n : Nat}

def isExecOf (c : ClientId) : Frame n → Bool
  | .call k (.exec _ _) => decide (k.client = c)
  | _ => false

def isExec : Frame n → Bool
  | .call _ (.exec _ _) => true
  | _ => false

def atProc : Frame n → Bool
  | .call _ .proc => true
  | _ => false

def owner : Frame n → Option ClientId
  | .call k _ => some k.client
  | .input _ => none

def pending (cl : Client n) : Frame n → List Command
  | .call k .proc => if k.cmd.cmd.proc = .exec ∧ cl.multi = true then cl.mstate else []
  | .call _ (.exec rest _) => rest
  | _ => []

lemma pending_of_not_atProc {f : Frame n} (h : f.atProc = false) (cl cl' : Client n) :
    f.pending cl = f.pending cl' := by
  cases f with
  | input c => rfl
  | call k phase =>
    cases phase with
    | proc => cases h
    | _ => rfl

lemma pending_of_not_exec {f : Frame n} (h : f.atProc = false) (he : f.isExec = false)
    (cl : Client n) : f.pending cl = [] := by
  cases f with
  | input c => rfl
  | call k phase =>
    cases phase with
    | proc => cases h
    | exec rest mp => cases he
    | _ => rfl

end Frame

namespace Server
variable {n : Nat} {s t u : Server n} {a : Act n}
variable {d : Fin (n+1)}

def inExec (s : Server n) : Bool := s.stack.any isExec

def selectsInExec (s : Server n) (d : Fin (n+1)) : Bool :=
  match s.stack with
  | .call k .proc :: rest =>
    rest.any (isExecOf k.client) && decide ((s.clients k.client).map Client.db ≠ some d)
  | _ => false

def movesPlaceholder (s : Server n) : KsOp n → Bool
  | .rename d src _ _ => isValueInRock (s.db d) src
  | .move src _ key => isValueInRock (s.db src) key
  | .swapdb i j => decide (i ≠ j)
  | _ => false

/-- While an EXEC is running no other database is selected for its client, nothing
is dumped and no placeholder moves; and a queue that is checked holds no command
whose check reads the arguments of EXEC. -/
def execSafe (s : Server n) : Act n → Bool
  | .selectDb d => !s.selectsInExec d
  | .dump _ _ => !s.inExec
  | .op o => !(s.inExec && s.movesPlaceholder o)
  | a => (s.toCheck a).all fun p => !p.1.multi || p.1.mstate.all fun q => !q.readsClientArgv

def Fewer (s t : Server n) : Prop :=
  ∀ d k, isValueInRock (t.db d) k = true → isValueInRock (s.db d) k = true

lemma inRock_iff_look {k : Sds} :
    isValueInRock (s.db d) k = true ↔ s.look d k = some .valueInRock :=
  inRock_iff _ _

lemma Fewer.of_look (h : ∀ d k, t.look d k = some .valueInRock → s.look d k = some .valueInRock) :
    Fewer s t := by
  intro d k hk
  rw [inRock_iff_look] at hk ⊢
  exact h d k hk

lemma Fewer.applyOp {o : KsOp n} (hu : s.applyOp o = .ok u) (ho : s.movesPlaceholder o = false) :
    Fewer s u := by
  refine .of_look fun d k hk => ?_
  rw [applyOp_look hu] at hk
  have hno : ∀ e l, s.movesPlaceholder o = isValueInRock (s.db e) l →
      s.look e l ≠ some .valueInRock := by
    intro e l he hv
    rw [ho,inRock_iff_look.mpr hv] at he
    cases he
  refine Store.of_apply ?_ ?_ ?_ ?_ hk
  · intro e l he
    cases o with
    | emptyDb dbnum async => cases dbnum <;> cases he
    | _ => cases he
  · intro e src dst nx he
    cases o with
    | rename e' src' dst' nx' =>
      cases he
      exact hno e src rfl
    | emptyDb dbnum async => cases dbnum <;> cases he
    | _ => cases he
  · intro src dst key he
    cases o with
    | move src' dst' key' =>
      cases he
      exact hno src key rfl
    | emptyDb dbnum async => cases dbnum <;> cases he
    | _ => cases he
  intro i j he
  cases o with
  | swapdb i' j' =>
    cases he
    simpa [movesPlaceholder] using ho
  | emptyDb dbnum async => cases dbnum <;> cases he
  | _ => cases he

lemma Fewer.refl (s : Server n) : Fewer s s := fun _ _ hk => hk

lemma Fewer.trans (h : Fewer s t) (h' : Fewer t u) : Fewer s u := fun d k hk => h d k (h' d k hk)

lemma Fewer.of_sameData (h : SameData s t) : Fewer s t := by
  refine .of_look fun d k hk => ?_
  rw [h.look] at hk
  exact hk

lemma Fewer.updDb (s : Server n) (d : Fin (n+1)) {val : Robj} {f : RedisDb → RedisDb}
    (hf : ∀ db, (f db).dict = db.dict.insert key (.mem val)) : Fewer s (s.updDb d f) := by
  intro e k hk
  rw [inRock_iff] at hk ⊢
  rw [updDb_db] at hk
  split at hk
  · rw [hf,Dict.lookup_insert_ite] at hk
    split at hk
    · cases hk
    · exact hk
  · exact hk

lemma Fewer.restoreForScript (h : s.restoreForScript d key = .ok u) : Fewer s u := by
  obtain ⟨val,l,_,_,rfl⟩ := restoreOne_ok h
  split
  · exact Fewer.updDb s d (f := fun db => { db with dict := db.dict.insert key (.mem val) })
      fun _ => rfl
  · exact .refl s

lemma Fewer.restoreAllForScript {keys : List Sds} (h : s.restoreAllForScript d keys = .ok u) :
    Fewer s u :=
  restoreAll_invariant (.refl s) (fun _ _ _ hv hw => hv.trans (.restoreForScript hw)) h

lemma DataMove.fewer (h : DataMove s t a) (hd : ∀ d key, a ≠ .dump d key)
    (ho : ∀ o, a.effect = some o → s.movesPlaceholder o = false) : Fewer s t := by
  cases h with
  | same h happ he => exact .of_sameData h
  | init u hu h happ he =>
    refine .of_look fun d k hk => ?_
    rw [h.look,initHotKeys_look hu] at hk
    exact hk
  | op o u hen hu h happ he => exact (Fewer.applyOp hu (ho o he)).trans (.of_sameData h)
  | dump d key u hi hk hu h happ ha => exact absurd ha (hd d key)
  | finished d key val u hidle hdb hr hv hf hu h happ ha =>
    refine Fewer.trans ?_ (.of_sameData h)
    rcases finished_ok hu with ⟨_,_,rfl⟩ | ⟨_,rfl⟩
    · exact .updDb s d fun _ => rfl
    · exact .refl _
  | script d keys r u hr hc hu h happ he =>
    exact ((Fewer.of_sameData hr).trans (.restoreAllForScript hu)).trans (.of_sameData h)

end Server

section
variable {n : Nat} {db : RedisDb} {q : Command} {errs : List String}

lemma checkCmd_argv (hr : q.readsClientArgv = false) (cArgv : List Sds) :
    checkRockForCmd db cArgv q = checkRockForSingleCmd db q := by
  unfold checkRockForSingleCmd checkRockForCmd
  split
  · rfl
  rename_i p hp
  cases p with
  | zstore | migrate => simp [Command.readsClientArgv,hp] at hr
  | _ => rfl

lemma seesValues_of_checked (hr : q.readsClientArgv = false)
    (h : checkRockForCmd db cArgv q = .ok ([],errs)) : SeesValues db q := by
  rw [checkCmd_argv hr] at h
  intro keys errs' hk
  rw [h] at hk
  cases hk
  rfl

lemma seesValues_of_queue {qs : List Command} (hr : ∀ q ∈ qs, q.readsClientArgv = false)
    (h : checkRockForMultiCmd db cArgv qs = .ok ([],errs)) : ∀ q ∈ qs, SeesValues db q := by
  induction qs generalizing errs with
  | nil => simp
  | cons q qs ih =>
    obtain ⟨⟨ks,es⟩,hq,h⟩ := bind_ok.mp h
    obtain ⟨⟨ks',es'⟩,hqs,h⟩ := bind_ok.mp h
    rw [pure_ok,Prod.mk.injEq,eq_comm,append_eq_nil_iff] at h
    obtain ⟨⟨rfl,rfl⟩,_⟩ := h
    intro p hp
    rcases mem_cons.mp hp with rfl | hp
    · exact seesValues_of_checked (hr p (by simp)) hq
    · exact ih (fun x hx => hr x (by simp [hx])) hqs p hp

end

namespace Server
variable {n : Nat} {s t u : Server n} {a : Act n}
variable {rest : List (Frame n)} {f : Frame n} {cl : Client n} {d : Fin (n+1)} {c : ClientId}
  {q : Command} {pick : Sds}

def NoExec (qs : List Command) : Prop := ∀ q ∈ qs, q.cmd.proc ≠ .exec

def Ready (s : Server n) (f : Frame n) : Prop :=
  ∀ c, f.owner = some c → ∀ cl, s.clients c = some cl →
    NoExec (f.pending cl) ∧ ∀ q ∈ f.pending cl, SeesValues (s.db cl.db) q

structure ExecInv (s : Server n) : Prop where
  top : ∀ f ∈ s.stack.tail, f.atProc = false
  ready : ∀ f ∈ s.stack, s.Ready f
  noExec : ∀ c cl, s.clients c = some cl → NoExec cl.mstate

def Kept (s t : Server n) : Prop :=
  ∀ c cl, t.clients c = some cl → ∃ cl', s.clients c = some cl' ∧ cl.db = cl'.db ∧
    (NoExec cl'.mstate → NoExec cl.mstate)

lemma Still.kept (h : Still s t) : Kept s t := by
  intro c cl hc
  obtain ⟨cl',hc',he⟩ := h.client hc
  obtain ⟨hd,_,hms,_⟩ := Client.control_eq he
  exact ⟨cl',hc',hd,fun hn => hms ▸ hn⟩

lemma Kept.of_eq (h : t.clients = s.clients) : Kept s t := by
  intro c cl hc
  rw [h] at hc
  exact ⟨cl,hc,rfl,id⟩

lemma Kept.setClient (cl' : Client n) (hc : s.clients c = some cl) (hd : cl'.db = cl.db)
    (hn : NoExec cl.mstate → NoExec cl'.mstate) : Kept s (s.setClient c (some cl')) := by
  intro x y hx
  rw [set_clients] at hx
  split at hx
  · rename_i hxc
    cases hx
    exact ⟨cl,hxc ▸ hc,hd,hn⟩
  · exact ⟨y,hx,rfl,id⟩

lemma Kept.freeClient (s : Server n) (c : ClientId) : Kept s (s.freeClient c) := by
  intro x y hx
  simp only [Server.freeClient,set_clients] at hx
  split at hx
  · cases hx
  · exact ⟨y,hx,rfl,id⟩

lemma ready_of_nil (h : ∀ cl, f.pending cl = []) : s.Ready f := by
  intro c _ cl _
  simp [h,NoExec]

lemma Ready.keep {f g : Frame n} (h : s.Ready f) (hf : f.atProc = false)
    (ho : g.owner = f.owner) (hp : ∀ cl, ∀ q ∈ g.pending cl, q ∈ f.pending cl)
    (hcl : Kept s t) (hdb : Fewer s t) : t.Ready g := by
  intro c hc cl hcl'
  obtain ⟨cl',hs,hd,_⟩ := hcl c cl hcl'
  have hq : ∀ q ∈ g.pending cl, q ∈ f.pending cl' := by
    rw [pending_of_not_atProc hf cl' cl]
    exact hp cl
  obtain ⟨hn,hv⟩ := h c (ho ▸ hc) cl' hs
  refine ⟨fun q hm => hn q (hq q hm),fun q hm => ?_⟩
  rw [hd]
  exact (hv q (hq q hm)).of_fewer (hdb cl'.db)

lemma ExecInv.notProc (h : ExecInv s) (hs : s.stack = f :: rest) :
    ∀ g ∈ rest, g.atProc = false := by
  intro g hg
  apply h.top
  rw [hs]
  exact hg

lemma ExecInv.replace (h : ExecInv s) (gs : List (Frame n)) (ht : t.stack = gs ++ rest)
    (hrest : ∀ f ∈ rest, f ∈ s.stack ∧ f.atProc = false) (htop : ∀ f ∈ gs.tail, f.atProc = false)
    (hcl : Kept s t) (hdb : Fewer s t) (hg : ∀ f ∈ gs, t.Ready f) : ExecInv t := by
  refine ⟨?_,?_,?_⟩
  · intro f hf
    rw [ht] at hf
    cases gs with
    | nil => exact (hrest f (mem_of_mem_tail hf)).2
    | cons g gs =>
      rw [cons_append,tail_cons,mem_append] at hf
      rcases hf with hf | hf
      · exact htop f hf
      · exact (hrest f hf).2
  · intro f hf
    rw [ht,mem_append] at hf
    rcases hf with hf | hf
    · exact hg f hf
    obtain ⟨hm,hp⟩ := hrest f hf
    exact (h.ready f hm).keep hp rfl (fun _ _ hq => hq) hcl hdb
  · intro c cl hc
    obtain ⟨cl',hc',_,hn⟩ := hcl c cl hc
    exact hn (h.noExec c cl' hc')

lemma ExecInv.check {r : Server n} (h : ExecInv r) (hnp : ∀ f ∈ r.stack, f.atProc = false)
    (hargs : ∀ cl, r.clients c = some cl → cl.multi = true → ∀ q ∈ cl.mstate, q.readsClientArgv = false)
    (hs : r.checkThenCall c pick = .ok t) : ExecInv t := by
  have hdb := Fewer.of_sameData (checkCall_sameData hs).1
  obtain ⟨cl,q,keys,errs,hcl,hq,hk,hres⟩ := checkCall_control hs
  rcases hres with ⟨rfl,ht⟩ | ⟨_,ht⟩
  · refine h.replace [.call ⟨c,q,r.dirty,[],false⟩ .proc,.input c] ht.stack
      (fun f hf => ⟨hf,hnp f hf⟩) (by simp [atProc]) ht.kept hdb ?_
    intro f hf
    rcases mem_cons.mp hf with rfl | hf
    · -- the frame of the command that passed the check
      intro c' hc' cl' hcl'
      cases hc'
      obtain ⟨cl'',hcl'',he⟩ := ht.client hcl'
      cases hcl.symm.trans hcl''
      obtain ⟨hd,hm,hms,_⟩ := Client.control_eq he
      simp only [pending,hm,hms,hd]
      split
      · rename_i hexec
        rw [checkRock,if_pos hexec.2] at hk
        refine ⟨h.noExec c cl hcl,fun q' hq' => ?_⟩
        exact (seesValues_of_queue (hargs cl hcl hexec.2) hk q' hq').of_fewer (hdb cl.db)
      · simp [NoExec]
    rcases mem_singleton.mp hf with rfl
    exact ready_of_nil fun _ => rfl
  exact h.replace [] ht.stack (fun f hf => ⟨hf,hnp f hf⟩) (by simp) ht.kept hdb (by simp)

lemma ExecInv.idle (h : ExecInv s) {f g : Frame n} (hs : s.stack = f :: rest)
    (hno : s.inExec = false) (ht : t.stack = g :: rest) (hg : ∀ cl, g.pending cl = [])
    (hcl : t.clients = s.clients) : ExecInv t := by
  have hnp := h.notProc hs
  refine ⟨?_,?_,by rw [hcl]; exact h.noExec⟩
  · rw [ht]
    exact hnp
  intro f' hf'
  rw [ht] at hf'
  rcases mem_cons.mp hf' with rfl | hm
  · exact ready_of_nil hg
  have hne : f'.isExec = false := by
    rw [inExec,hs,any_cons,Bool.or_eq_false_iff] at hno
    have := List.any_eq_false.mp hno.2 f' hm
    simpa using this
  exact ready_of_nil (pending_of_not_exec (hnp f' hm) hne)

lemma canFreeMemory_pending (h : s.canFreeMemory = true) :
    ∃ f rest, s.stack = f :: rest ∧ ∀ cl, f.pending cl = [] := by
  unfold canFreeMemory at h
  split at h
  · rename_i k rest hs
    have hk : k.cmd.cmd.proc = .other := by simpa using h
    exact ⟨_,rest,hs,fun cl => by simp [pending,hk]⟩
  unfold processing at h
  split at h
  · rename_i c rest hs
    exact ⟨_,rest,hs,fun _ => rfl⟩
  · cases h

lemma running_pending (h : f.running = some q) (o : KsOp n) (cl : Client n) :
    (f.addEffect o).pending cl = [] := by
  unfold running at h
  split at h
  · rename_i k
    split at h
    · rename_i hk
      simp [addEffect,pending,hk]
    · cases h
  · rfl
  · cases h

lemma ExecInv.of_nil (h : t.stack = []) (hn : ∀ c cl, t.clients c = some cl → NoExec cl.mstate) :
    ExecInv t :=
  ⟨by simp [h],by simp [h],hn⟩

section
variable (h : ExecInv s)
include h

lemma ExecInv.exchange (hs : s.stack = f :: rest) (gs : List (Frame n))
    (ht : t.stack = gs ++ rest) (htop : ∀ g ∈ gs.tail, g.atProc = false) (hcl : Kept s t)
    (hdb : Fewer s t) (hg : ∀ g ∈ gs, t.Ready g) : ExecInv t := by
  refine h.replace gs ht (fun g hg => ⟨?_,h.notProc hs g hg⟩) htop hcl hdb hg
  rw [hs]
  exact mem_cons_of_mem f hg

lemma ExecInv.done (hs : s.stack = f :: rest) (g : Frame n)
    (hg : ∀ cl, g.pending cl = []) (ht : t.stack = g :: rest) (hcl : Kept s t) (hdb : Fewer s t) :
    ExecInv t := by
  refine h.exchange hs [g] ht (by simp) hcl hdb ?_
  intro g' hg'
  rcases mem_singleton.mp hg' with rfl
  exact ready_of_nil hg

lemma ExecInv.pop (hs : s.stack = f :: rest) (ht : t.stack = rest)
    (hcl : Kept s t) (hdb : Fewer s t) : ExecInv t :=
  h.exchange hs [] ht (by simp) hcl hdb (by simp)

lemma ExecInv.of_still (ht : Still s t) (hdb : Fewer s t) : ExecInv t := by
  cases hs : s.stack with
  | nil =>
    refine .of_nil (ht.stack.trans hs) fun c cl hc => ?_
    obtain ⟨cl',hc',_,hn⟩ := ht.kept c cl hc
    exact hn (h.noExec c cl' hc')
  | cons f rest =>
    refine h.exchange hs [f] (ht.stack.trans hs) (by simp) ht.kept hdb ?_
    intro g hg
    rcases mem_singleton.mp hg with rfl
    intro c hc cl hcl
    obtain ⟨cl',hcl',he⟩ := ht.client hcl
    obtain ⟨hd,hm,hms,_⟩ := Client.control_eq he
    have hp : g.pending cl = g.pending cl' := by
      cases g with
      | input c => rfl
      | call k phase =>
        cases phase with
        | proc => simp only [pending,hm,hms]
        | _ => rfl
    obtain ⟨hn,hv⟩ := h.ready g (by simp [hs]) c hc cl' hcl'
    rw [hp,hd]
    exact ⟨hn,fun q hq => (hv q hq).of_fewer (hdb cl'.db)⟩

lemma ExecInv.selectDb {k : Call n} (hsafe : s.selectsInExec d = false)
    (hs : s.stack = .call k .proc :: rest) (hk : k.cmd.cmd.proc = .other)
    (hcl : s.clients k.client = some cl)
    (hdb : Fewer s (s.setClient k.client (some { cl with db := d }))) :
    ExecInv (s.setClient k.client (some { cl with db := d })) := by
  have hnp := h.notProc hs
  have hsel : (∀ f ∈ rest, f.isExecOf k.client = true → cl.db = d) := by
    simpa [selectsInExec,hs,hcl] using hsafe
  by_cases hd : cl.db = d
  · subst hd
    exact h.done hs (.call k .proc) (fun x => by simp [pending,hk]) hs
      (.setClient _ hcl rfl id) hdb
  refine ⟨h.top,?_,?_⟩
  · intro f hf c hc cl' hcl'
    have hf : f ∈ s.stack := hf
    rw [set_clients] at hcl'
    split at hcl'
    · -- the client that selects has no EXEC below
      rename_i hck
      have hp : f.pending cl' = [] := by
        rw [hs] at hf
        rcases mem_cons.mp hf with rfl | hm
        · simp [pending,hk]
        refine pending_of_not_exec (hnp f hm) ?_ cl'
        have hf' := hsel f hm
        cases f with
        | input c => rfl
        | call k' phase =>
          cases hc
          cases phase with
          | exec qs mp => exact absurd (hf' (by simp [isExecOf,hck])) hd
          | _ => rfl
      simp [hp,NoExec]
    obtain ⟨hn,hv⟩ := h.ready f hf c hc cl' hcl'
    exact ⟨hn,fun q hq => (hv q hq).of_fewer (hdb cl'.db)⟩
  intro c cl' hc
  rw [set_clients] at hc
  split at hc
  · cases hc
    exact h.noExec k.client cl hcl
  · exact h.noExec c cl' hc

lemma ExecInv.execNext {denied mp : Bool} {k : Call n} {qs : List Command}
    (hs : s.stack = .call k (.exec (q :: qs) mp) :: rest)
    (hcl : s.clients k.client = some cl) (ht : t = { s with
      propagated := s.propagated ++ (if !mp && !q.cmd.readonlyOrAdmin then [.multi] else [])
      stack := (if denied then [] else [.call ⟨k.client,q,s.dirty,[],false⟩ .proc]) ++
        .call k (.exec qs (mp || (!mp && !q.cmd.readonlyOrAdmin))) :: rest }) (hdb : Fewer s t) :
    ExecInv t := by
  have hkept : Kept s t := .of_eq (by rw [ht])
  have hrest : t.Ready (.call k (.exec qs (mp || (!mp && !q.cmd.readonlyOrAdmin)))) :=
    (h.ready (.call k (.exec (q :: qs) mp)) (by simp [hs])).keep rfl rfl
      (fun _ x hx => mem_cons_of_mem q hx) hkept hdb
  have hq : q.cmd.proc ≠ .exec :=
    (h.ready (.call k (.exec (q :: qs) mp)) (by simp [hs]) k.client rfl cl hcl).1 q (by
      simp [pending])
  have hcall : t.Ready (.call ⟨k.client,q,s.dirty,[],false⟩ .proc) :=
    ready_of_nil fun cl' => by simp [pending,hq]
  cases denied with
  | true =>
    refine h.exchange hs [_] (by rw [ht]; rfl) (by simp) hkept hdb ?_
    intro g hg
    rcases mem_singleton.mp hg with rfl
    exact hrest
  | false =>
    refine h.exchange hs [_,_] (by rw [ht]; rfl) ?_ hkept hdb ?_
    · simp [atProc]
    intro g hg
    rcases mem_cons.mp hg with rfl | hg
    · exact hcall
    rcases mem_singleton.mp hg with rfl
    exact hrest

end

lemma ExecInv.init (cfg : Config) : ExecInv (initServer n cfg) :=
  .of_nil rfl (by simp [initServer])

lemma args_of_execSafe
    (hsafe : ((s.toCheck a).all fun p => !p.1.multi || p.1.mstate.all fun q => !q.readsClientArgv) = true)
    (hc : s.toCheck a = some (cl,q)) (hm : cl.multi = true) :
    ∀ q ∈ cl.mstate, q.readsClientArgv = false := by
  simpa [hc,hm] using hsafe

lemma ExecInv.dump (h : ExecInv s) (hsafe : s.inExec = false) (hfree : s.canFreeMemory = true)
    (hd : s.dumpValToRock d key = .ok t) : ExecInv t := by
  obtain ⟨f,rest,hs,hf⟩ := canFreeMemory_pending hfree
  have ht : t.stack = s.stack ∧ t.clients = s.clients := by
    obtain ⟨o,buf,_,_,_,_,_,rfl⟩ := dumpVal_ok.mp hd
    exact ⟨rfl,rfl⟩
  exact h.idle hs hsafe (ht.1.trans hs) hf ht.2

lemma ExecInv.op {o : KsOp n} (h : ExecInv s) (hsafe : s.execSafe (.op o) = true)
    (hst : s.step (.op o) = some (.ok t)) : ExecInv t := by
  cases step_op hst with
  | @op u _ f rest q hs hrun _ _ hu =>
    have hcl : u.clients = s.clients := by
      obtain ⟨db,b,rfl,_⟩ := op_keyspace hu
      rfl
    cases hin : s.inExec with
    | false => exact h.idle hs hin rfl (running_pending hrun o) hcl
    | true =>
      refine h.done hs _ (running_pending hrun o) rfl (.of_eq hcl) ?_
      refine (dataMove_of_step hst).fewer (by simp) fun o' ho' => ?_
      cases ho'
      simpa [execSafe,hin] using hsafe

lemma ExecInv.step (h : ExecInv s) (hsafe : s.execSafe a = true)
    (hst : s.step a = some (.ok t)) : ExecInv t := by
  have hdata := dataMove_of_step hst
  by_cases hdump : ∃ d key, a = .dump d key
  · obtain ⟨d,key,rfl⟩ := hdump
    cases transition_of hst with
    | dump hfree _ _ _ hd => exact h.dump (by simpa [execSafe] using hsafe) hfree hd
  by_cases hop : ∃ o, a = .op o
  · obtain ⟨o,rfl⟩ := hop
    exact h.op hsafe hst
  have hdb : Fewer s t := by
    refine hdata.fewer (fun d key hd => hdump ⟨d,key,hd⟩) fun o ho => ?_
    cases a with
    | op o => exact absurd ⟨o,rfl⟩ hop
    | expired d key async =>
      cases ho
      cases async <;> rfl
    | _ => cases ho
  cases hstill : a.still with
  | true => exact h.of_still (still_of_step hstill hst) hdb
  | false =>
  cases transition_of hst with
  | accept hs =>
    refine .of_nil hs fun x cl hx => ?_
    rw [set_clients] at hx
    split at hx
    · cases hx
      simp [createClient,NoExec]
    · exact h.noExec x cl hx
  | @readQuery c _ cl hcl hs =>
    refine h.replace _ (List.append_nil _).symm (by simp) ?_ (Kept.setClient _ hcl rfl id) hdb ?_
    · simp only
      split <;> simp
    intro f hf
    simp only at hf
    split at hf
    · cases hf
    rcases mem_singleton.mp hf with rfl
    exact ready_of_nil fun _ => rfl
  | @freeClient c hs =>
    refine .of_nil hs fun x cl hx => ?_
    obtain ⟨cl',hx',_,hn⟩ := Kept.freeClient s c x cl hx
    exact hn (h.noExec x cl' hx')
  | killClient hs hk =>
    exact h.done hs (.call _ .proc) (fun cl => by simp [pending,hk]) hs (.freeClient s _) hdb
  | handlerResumed hs => exact .of_nil hs h.noExec
  | @handlerResume _ _ _ cs hs hh hck =>
    have hr : ExecInv { s with handler := .clearFinish cs } := .of_nil hs h.noExec
    refine hr.check (by simp [hs]) ?_ hck
    obtain ⟨cl,q,keys,errs,hcl,hq,_⟩ := checkCall_control hck
    intro cl' hcl'
    cases hcl.symm.trans hcl'
    exact args_of_execSafe hsafe (toCheck_handlerResume hh hcl hq)
  | inputEnd hs | breakInput hs => exact h.pop hs rfl (.of_eq rfl) hdb
  | refused hs hcl =>
    exact h.done hs (.input _) (fun _ => rfl) hs (.setClient _ hcl rfl id) hdb
  | queued hs hcl _ _ _ hq =>
    refine h.done hs (.input _) (fun _ => rfl) hs (.setClient _ hcl rfl fun hn => ?_) hdb
    intro x hx
    rcases mem_append.mp hx with hx | hx
    · exact hn x hx
    rcases mem_singleton.mp hx with rfl
    intro he
    simp [he,Proc.skipsQueue] at hq
  | @checked _ _ c rest cl q qs hs hcl hqb hz hskip hck =>
    have hargs := args_of_execSafe hsafe (toCheck_nextCommand hs hcl hqb hz hskip)
    have hkept : Kept s (s.setClient c (some { cl with querybuf := qs, current := some q })) :=
      .setClient _ hcl rfl id
    have hr : ExecInv { s.setClient c (some { cl with querybuf := qs, current := some q }) with
        stack := rest } := h.pop hs rfl hkept fun _ _ hk => hk
    refine hr.check (h.notProc hs) ?_ hck
    intro cl' hcl'
    simp only [set_clients,if_true,some.injEq] at hcl'
    subst hcl'
    exact hargs
  | expired _ hu =>
    have hi := h.of_still (Still.of_keyspace (op_keyspace hu)) hdb
    exact ⟨hi.top,hi.ready,hi.noExec⟩
  | op => exact absurd ⟨_,rfl⟩ hop
  | selectDb hs hk hcl => exact h.selectDb (by simpa [execSafe] using hsafe) hs hk hcl hdb
  | luaSelectDb hs => exact h.done hs _ (fun _ => rfl) hs (.of_eq rfl) hdb
  | @procEnd _ k _ _ cl' hs hcl he =>
    refine h.done hs (.call k .done) (fun _ => rfl) rfl ?_ hdb
    refine Kept.setClient (s := { s with stack := _ }) cl' hcl he.db fun hn => ?_
    rcases he.mstate with hms | ⟨_,hms⟩
    · rw [hms]
      exact hn
    · simp [hms,NoExec]
  | @procExec _ k _ cl hs hcl hk hm =>
    -- the queue the check promised is the one that runs
    refine h.exchange hs [.call k (.exec cl.mstate false)] rfl (by simp) (.of_eq rfl) hdb ?_
    intro g hg
    rcases mem_singleton.mp hg with rfl
    intro c hc cl' hcl'
    cases hc
    cases hcl.symm.trans hcl'
    have hr := h.ready (.call k .proc) (by simp [hs]) k.client rfl cl hcl
    simpa [pending,hk,hm] using hr
  | @execEnd _ k _ cl _ hs hcl =>
    have hkept : Kept s (s.setClient k.client (some cl.discard)) :=
      .setClient cl.discard hcl rfl fun _ => by simp [Client.discard,NoExec]
    exact h.done hs (.call k .done) (fun _ => rfl) rfl hkept hdb
  | execNext hs hcl => exact h.execNext hs hcl rfl hdb
  | @ret _ _ _ cl' hs hcl hcl' =>
    refine h.pop hs rfl ?_ hdb
    refine Kept.setClient (s := { s with stack := _, propagated := _ }) cl' hcl ?_ ?_
    · rcases hcl' with rfl | ⟨_,rfl⟩ <;> rfl
    · rcases hcl' with rfl | ⟨_,rfl⟩ <;> exact id
  | redisCall hs _ _ hu =>
    refine h.done hs _ (fun _ => rfl) rfl (.of_eq ?_) hdb
    obtain ⟨db,l,m,r,ps,rfl,_⟩ := luaCall_script hu
    rfl
  | finishKey hs hu => exact h.done hs _ (fun _ => rfl) rfl (scriptKey_still hu).kept hdb
  | @scriptResume _ _ k rest _ cs hs hck =>
    have hr : ExecInv { s with stack := .call k (.resume cs) :: rest } :=
      h.done hs (.call k (.resume cs)) (fun _ => rfl) rfl (.of_eq rfl) fun _ _ hk => hk
    refine hr.check ?_ ?_ hck
    · intro f hf
      rcases mem_cons.mp hf with rfl | hf
      · rfl
      · exact h.notProc hs f hf
    obtain ⟨cl,q,keys,errs,hcl,hq,_⟩ := checkCall_control hck
    intro cl' hcl'
    cases hcl.symm.trans hcl'
    exact args_of_execSafe hsafe (toCheck_scriptResume hs hcl hq)
  | procEval hs | replicateCommands hs | luaRetReplicated hs | luaRet hs | scriptExit hs
  | keysFinished hs | scriptResumed hs => exact h.done hs _ (fun _ => rfl) rfl (.of_eq rfl) hdb
  | _ => cases hstill

/-- In a run in which every step is safe for EXEC, each queued command finds
values and no placeholder in the database it runs in. -/
theorem exec_seesValues {cfg : Config} {as : List (Act n)}
    (hg : (machine n cfg).Guarded (fun s a => s.execSafe a = true) (machine n cfg).init as)
    (hr : (machine n cfg).run as = some (.ok s)) {k : Call n} {q : Command} {qs : List Command}
    {mp : Bool} {rest : List (Frame n)} (hs : s.stack = .call k (.exec (q :: qs) mp) :: rest)
    {cl : Client n} (hcl : s.clients k.client = some cl) : SeesValues (s.db cl.db) q := by
  have hi : ExecInv s := (machine n cfg).guarded_invariant (ExecInv.init cfg)
    (fun _ _ _ hi hc hst => hi.step hc hst) hg hr
  have hready := hi.ready (.call k (.exec (q :: qs) mp)) (by simp [hs]) k.client rfl cl hcl
  exact hready.2 q (by simp [pending])

end Server

namespace Sample

def select : Command := ⟨⟨.other,none,false,false⟩,[[115,101],[49]]⟩

/-- Client 1 runs MULTI, GET k1, EXEC while `k1` is on disk, and waits for it. -/
def execWaiting : List (Act 0) :=
  stored ++ [.readQuery 1 [multi,get k1,exec],.nextCommand none [],.runProc false,.ret,
    .nextCommand none [],.nextCommand none []]

def execResumed : List (Act 0) :=
  execWaiting ++ jobDone ++ [.pipeReadable,.handlerResume [],.runProc false]

/-- Client 2 writes `k1` of database 1, which is dumped, and client 1, in database
0, runs MULTI, SELECT 1, GET k1, EXEC. -/
def execSelect : List (Act 1) :=
  [.accept 1,.accept 2,.readQuery 2 [select,set k1 1,ping],
   .nextCommand none [],.selectDb 1,.runProc false,.ret,
   .nextCommand none [],.op (.dbAdd 1 k1 (str 1)),.runProc false,.ret,
   .initHotKeys,.dump 1 k1,.nextCommand none [],.runProc false,.ret,.nextCommand none [],
   .readQuery 1 [multi,select,get k1,exec],.nextCommand none [],.runProc false,.ret,
   .nextCommand none [],.nextCommand none [],.nextCommand none [],.runProc false,
   .execNext false,.selectDb 1,.runProc false,.ret]

end Sample

open Sample

namespace Server

/-- The resumed EXEC finds the value of `k1`. -/
theorem exec_seesValues_resumed : ∃ (s : Server 0) (k : Call 0) (cl : Client 0),
    (machine 0 Sample.config).run execResumed = some (.ok s) ∧
    s.stack = [.call k (.exec [get k1] false),.input 1] ∧
    s.clients k.client = some cl ∧ SeesValues (s.db cl.db) (get k1) := by
  obtain ⟨s,hs,hstk,hcl⟩ := (machine 0 Sample.config).exists_run execResumed
    (fun s => s.stack = [.call ⟨1,exec,2,[],false⟩ (.exec [get k1] false),.input 1] ∧
      (s.clients 1).isSome) (by decide)
  obtain ⟨cl,hcl⟩ := isSome_iff_exists.mp hcl
  have hsees := exec_seesValues (Machine.guarded_check _ _ _ _ (by decide)) hs hstk hcl
  exact ⟨s,_,cl,hs,hstk,hcl,hsees⟩

/-- After SELECT 1 the queued GET runs on a placeholder. -/
theorem exec_placeholder : ∃ (s : Server 1) (k : Call 1) (cl : Client 1),
    (machine 1 Sample.config).Reachable s ∧
    s.stack = [.call k (.exec [get k1] true),.input 1] ∧
    s.clients k.client = some cl ∧ ¬ SeesValues (s.db cl.db) (get k1) := by
  obtain ⟨s,hs,hstk,hdb,hck⟩ := (machine 1 Sample.config).exists_run execSelect
    (fun s => s.stack = [.call ⟨1,exec,1,[],false⟩ (.exec [get k1] true),.input 1] ∧
      (s.clients 1).map Client.db = some 1 ∧
      checkRockForSingleCmd (s.db 1) (get k1) = .ok ([k1],[])) (by decide)
  obtain ⟨cl,hcl,hd⟩ := map_eq_some_iff.mp hdb
  refine ⟨s,_,cl,⟨_,hs⟩,hstk,hcl,fun hv => ?_⟩
  rw [hd] at hv
  cases hv _ _ hck

end Server
end RedRock
