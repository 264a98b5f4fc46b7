import RedRock.Propagation

/-!
The list of restored keys is global, and a script gives it up only after the
clients it resumed have run. None of them may start a script of its own.
-/

namespace RedRock
open Lib List Option RedRock.Frame Client

namespace Frame
variable {n : Nat}

/-- Between `scriptWhenStartForRock` and the end of `scirptForBeforeExitForRock`. -/
def isScript : Frame n → Bool
  | .call _ (.script _) | .call _ (.luaCall _ _ _ _) | .call _ (.finishKeys _ _)
  | .call _ (.resume _) => true
  | _ => false

def isEval : Frame n → Bool
  | .call k _ => decide (k.cmd.cmd.proc = .eval)
  | .input _ => false

def upcoming : Frame n → List Command
  | .call k (.exec rest _) => k.cmd :: rest
  | .call k _ => [k.cmd]
  | .input _ => []

def runsFor : Frame n → ClientId
  | .call k _ => k.client
  | .input c => c

lemma isScript_addEffect (o : KsOp n) (f : Frame n) : (f.addEffect o).isScript = f.isScript := by
  unfold addEffect
  split
  · rfl
  · rename_i k phase _
    cases phase <;> rfl
  · rfl

end Frame

def Client.received {n : Nat} (cl : Client n) : List Command := cl.mstate ++ cl.querybuf

def NoEval (qs : List Command) : Prop := ∀ q ∈ qs, q.cmd.proc ≠ .eval

instance (qs : List Command) : Decidable (NoEval qs) :=
  inferInstanceAs (Decidable (∀ q ∈ qs, q.cmd.proc ≠ .eval))

namespace Server
variable {n : Nat} {s t u : Server n} {a : Act n}
variable {rest : List (Frame n)} {f : Frame n} {pick : Sds} {c : ClientId}

/-- A client that a script resumes has no script to run: not the command it waits
with, none in its transaction and none in its input. -/
def reentrySafe (s : Server n) : Act n → Bool
  | .scriptResume _ =>
    match s.stack with
    | .call _ (.resume (c :: _)) :: _ =>
      match s.clients c with
      | some cl => decide (NoEval (cl.current.toList ++ cl.received))
      | none => true
    | _ => true
  | _ => true

def EvalFree (s : Server n) (f : Frame n) : Prop :=
  NoEval f.upcoming ∧ ∀ cl, s.clients f.runsFor = some cl → NoEval cl.received

def Drained (s t : Server n) : Prop :=
  ∀ c cl, t.clients c = some cl → ∃ cl', s.clients c = some cl' ∧ cl.received ⊆ cl'.received

lemma Drained.of_eq (h : t.clients = s.clients) : Drained s t := by
  intro c cl hc
  rw [h] at hc
  exact ⟨cl,hc,fun _ hq => hq⟩

lemma Still.drained (h : Still s t) : Drained s t := by
  intro c cl hc
  obtain ⟨cl',hc',he⟩ := h.client hc
  obtain ⟨_,_,hms,_,hqb⟩ := control_eq he
  refine ⟨cl',hc',?_⟩
  rw [received,hms,hqb]
  exact fun _ hq => hq

lemma Drained.setClient {cl : Client n} (cl' : Client n) (hc : s.clients c = some cl)
    (hr : cl'.received ⊆ cl.received) : Drained s (s.setClient c (some cl')) := by
  intro x y hx
  rw [set_clients] at hx
  split at hx
  · rename_i hxc
    cases hx
    exact ⟨cl,hxc ▸ hc,hr⟩
  · exact ⟨y,hx,fun _ hq => hq⟩

lemma Drained.freeClient (s : Server n) (c : ClientId) : Drained s (s.freeClient c) := by
  intro x y hx
  simp only [Server.freeClient,set_clients] at hx
  split at hx
  · cases hx
  · exact ⟨y,hx,fun _ hq => hq⟩

lemma EvalFree.drained (h : s.EvalFree f) (hd : Drained s t) : t.EvalFree f := by
  refine ⟨h.1,fun cl hc q hq => ?_⟩
  obtain ⟨cl',hc',hr⟩ := hd f.runsFor cl hc
  exact h.2 cl' hc' q (hr hq)

lemma EvalFree.follow {f g : Frame n} (h : s.EvalFree f) (hd : Drained s t)
    (hr : g.runsFor = f.runsFor) (hu : g.upcoming ⊆ f.upcoming) : t.EvalFree g := by
  refine ⟨fun q hq => h.1 q (hu hq),fun cl hc => ?_⟩
  rw [hr] at hc
  exact (h.drained hd).2 cl hc

structure ReentryInv (s : Server n) : Prop where
  flag : s.maybeFinishKeys = none ↔ ∀ f ∈ s.stack, f.isScript = false
  eval : ∀ f ∈ s.stack, f.isScript = true → f.isEval = true
  free : s.stack.Pairwise fun f g => g.isScript = true → s.EvalFree f

section
variable (h : ReentryInv s)
include h

lemma ReentryInv.exchange (hs : s.stack = f :: rest) (gs : List (Frame n))
    (ht : t.stack = gs ++ rest) (hd : Drained s t)
    (hflag : t.maybeFinishKeys = none ↔ ∀ g ∈ gs ++ rest, g.isScript = false)
    (heval : ∀ g ∈ gs, g.isScript = true → g.isEval = true)
    (hpair : gs.Pairwise fun f g => g.isScript = true → t.EvalFree f)
    (hfree : ∀ g ∈ gs, ∀ r ∈ rest, r.isScript = true → t.EvalFree g) : ReentryInv t := by
  have hp := h.free
  rw [hs,pairwise_cons] at hp
  refine ⟨by rw [ht]; exact hflag,?_,?_⟩
  · intro g hg
    rw [ht,mem_append] at hg
    rcases hg with hg | hg
    · exact heval g hg
    · exact h.eval g (by simp [hs,hg])
  rw [ht,pairwise_append]
  refine ⟨hpair,hp.2.imp fun hfg hsc => (hfg hsc).drained hd,hfree⟩

lemma ReentryInv.top (hs : s.stack = f :: rest) (g : Frame n)
    (ht : t.stack = g :: rest) (hd : Drained s t)
    (hm : t.maybeFinishKeys = none ↔ s.maybeFinishKeys = none) (hg : g.isScript = f.isScript)
    (he : g.isEval = f.isEval) (hr : g.runsFor = f.runsFor) (hu : s.EvalFree f → NoEval g.upcoming)
    : ReentryInv t := by
  have hp := h.free
  rw [hs,pairwise_cons] at hp
  refine h.exchange hs [g] ht hd ?_ ?_ (by simp) ?_
  · rw [hm,h.flag,hs]
    simp [hg]
  · intro g' hg' hsc
    rcases mem_singleton.mp hg' with rfl
    rw [hg] at hsc
    rw [he]
    exact h.eval f (by simp [hs]) hsc
  intro g' hg' r hr' hsc
  rcases mem_singleton.mp hg' with rfl
  have hf := hp.1 r hr' hsc
  refine ⟨hu hf,fun cl hc => ?_⟩
  rw [hr] at hc
  exact (hf.drained hd).2 cl hc

lemma ReentryInv.pop (hs : s.stack = f :: rest) (ht : t.stack = rest)
    (hd : Drained s t) (hm : t.maybeFinishKeys = s.maybeFinishKeys) (hf : f.isScript = false) :
    ReentryInv t := by
  refine h.exchange hs [] ht hd ?_ (by simp) .nil (by simp)
  rw [hm,h.flag,hs]
  simp [hf]

lemma ReentryInv.congr (hs : t.stack = s.stack) (hd : Drained s t)
    (hm : t.maybeFinishKeys = s.maybeFinishKeys) : ReentryInv t := by
  refine ⟨?_,?_,?_⟩
  · rw [hs,hm]
    exact h.flag
  · rw [hs]
    exact h.eval
  rw [hs]
  exact h.free.imp fun hfg hsc => (hfg hsc).drained hd

lemma ReentryInv.of_still (ht : Still s t) : ReentryInv t :=
  h.congr ht.stack ht.drained ht.maybeFinishKeys

lemma ReentryInv.only (hs : s.stack = f :: rest) (hf : f.isScript = true) :
    ∀ r ∈ rest, r.isScript = false := by
  intro r hr
  cases hsc : r.isScript with
  | false => rfl
  | true =>
    have hp := h.free
    rw [hs,pairwise_cons] at hp
    have hfree := (hp.1 r hr hsc).1
    have hev := h.eval f (by simp [hs]) hf
    cases f with
    | input c => cases hf
    | call k phase =>
      have hk : k.cmd.cmd.proc = .eval := by simpa [isEval] using hev
      refine absurd hk (hfree k.cmd ?_)
      cases phase <;> simp [upcoming]

omit h in
lemma ReentryInv.check {r : Server n} (h : ReentryInv r)
    (hsafe : (∃ f ∈ r.stack, f.isScript = true) → ∀ cl, r.clients c = some cl → NoEval (cl.current.toList ++ cl.received))
    (hs : r.checkThenCall c pick = .ok t) : ReentryInv t := by
  obtain ⟨cl,q,keys,errs,hcl,hq,_,hres⟩ := checkCall_control hs
  rcases hres with ⟨_,ht⟩ | ⟨_,ht⟩
  · refine ReentryInv.of_still ?_ ht
    have hfree : ∀ f ∈ r.stack, f.isScript = true →
        NoEval [q] ∧ ∀ cl', r.clients c = some cl' → NoEval cl'.received := by
      intro f hf hsc
      have hall := hsafe ⟨f,hf,hsc⟩
      refine ⟨fun q' hq' => ?_,fun cl' hc' q' hq' => hall cl' hc' q' (by simp [hq'])⟩
      rcases mem_singleton.mp hq' with rfl
      exact hall cl hcl q' (by simp [hq])
    refine ⟨?_,?_,?_⟩
    · refine h.flag.trans ?_
      simp [isScript]
    · intro f hf hsc
      rcases mem_cons.mp hf with rfl | hf
      · cases hsc
      rcases mem_cons.mp hf with rfl | hf
      · cases hsc
      · exact h.eval f hf hsc
    refine pairwise_cons.mpr ⟨?_,pairwise_cons.mpr ⟨?_,h.free⟩⟩
    · intro f hf hsc
      rcases mem_cons.mp hf with rfl | hf
      · cases hsc
      · exact hfree f hf hsc
    intro f hf hsc
    exact ⟨by simp [upcoming,NoEval],(hfree f hf hsc).2⟩
  · exact h.of_still ht

lemma ReentryInv.execNext {denied mp : Bool} {k : Call n} {q : Command} {qs : List Command}
    (hs : s.stack = .call k (.exec (q :: qs) mp) :: rest) (ht : t = { s with
      propagated := s.propagated ++ (if !mp && !q.cmd.readonlyOrAdmin then [.multi] else [])
      stack := (if denied then [] else [.call ⟨k.client,q,s.dirty,[],false⟩ .proc]) ++
        .call k (.exec qs (mp || (!mp && !q.cmd.readonlyOrAdmin))) :: rest }) : ReentryInv t := by
  have hp := h.free
  rw [hs,pairwise_cons] at hp
  have hd : Drained s t := .of_eq (by rw [ht])
  have hm : t.maybeFinishKeys = s.maybeFinishKeys := by rw [ht]
  have hflag := h.flag
  rw [hs] at hflag
  have hsub : ∀ r ∈ rest, r.isScript = true →
      t.EvalFree (.call k (.exec qs (mp || (!mp && !q.cmd.readonlyOrAdmin)))) ∧
      t.EvalFree (.call ⟨k.client,q,s.dirty,[],false⟩ .proc) := by
    intro r hr hsc
    have hf := hp.1 r hr hsc
    refine ⟨hf.follow hd rfl ?_,hf.follow hd rfl ?_⟩
    · intro x hx
      simp only [upcoming,mem_cons] at hx ⊢
      tauto
    intro x hx
    simp only [upcoming,mem_cons,not_mem_nil] at hx ⊢
    tauto
  cases denied with
  | true =>
    refine h.exchange hs [.call k (.exec qs (mp || (!mp && !q.cmd.readonlyOrAdmin)))]
      (by rw [ht]; rfl) hd ?_ (by simp [isScript]) (by simp) ?_
    · rw [hm,hflag]
      simp [isScript]
    · intro g hg r hr hsc
      rcases mem_singleton.mp hg with rfl
      exact (hsub r hr hsc).1
  | false =>
    refine h.exchange hs [.call ⟨k.client,q,s.dirty,[],false⟩ .proc,
      .call k (.exec qs (mp || (!mp && !q.cmd.readonlyOrAdmin)))] (by rw [ht]; rfl) hd ?_
      (by simp [isScript]) (by simp [isScript]) ?_
    · rw [hm,hflag]
      simp [isScript]
    · intro g hg r hr hsc
      rcases mem_cons.mp hg with rfl | hg
      · exact (hsub r hr hsc).2
      rcases mem_singleton.mp hg with rfl
      exact (hsub r hr hsc).1

end

lemma restoreAll_finishKeys {d : Fin (n+1)} {keys : List Sds}
    (h : s.restoreAllForScript d keys = .ok u) :
    u.maybeFinishKeys = none ↔ s.maybeFinishKeys = none := by
  refine restoreAll_invariant
    (I := fun v => v.maybeFinishKeys = none ↔ s.maybeFinishKeys = none) Iff.rfl ?_ h
  intro v w key hv hw
  obtain ⟨val,l,_,hl,rfl⟩ := restoreOne_ok hw
  rw [← hv,hl]
  simp

lemma luaCall_finishKeys {lua lua' : LuaState} {caller : Client n}
    {q : Command} (h : s.luaRedisGenericCommand lua caller q = .ok (u,lua')) :
    u.maybeFinishKeys = none ↔ s.maybeFinishKeys = none := by
  obtain ⟨emits,_,_,hb⟩ := luaCall_ok h
  obtain ⟨keys,errs,_,hu⟩ := beforeEachCall_ok hb
  rw [restoreAll_finishKeys hu]
  cases emits with
  | true | false => exact Iff.rfl

lemma ReentryInv.init (cfg : Config) : ReentryInv (initServer n cfg) :=
  ⟨by simp [initServer],by simp [initServer],by simp [initServer]⟩

lemma ReentryInv.step (h : ReentryInv s) (hsafe : s.reentrySafe a = true)
    (hst : s.step a = some (.ok t)) : ReentryInv t := by
  cases hstill : a.still with
  | true => exact h.of_still (still_of_step hstill hst)
  | false =>
  cases transition_of hst with
  | accept hs =>
    refine ⟨?_,?_,?_⟩
    · exact h.flag
    · exact h.eval
    · simp [setClient,hs]
  | @readQuery c _ cl _ hs =>
    have hm : s.maybeFinishKeys = none := h.flag.mpr (by simp [hs])
    by_cases hw : cl.rockKeyNumber > 0
    · exact ⟨by simp [hw,setClient,hm],by simp [hw],by simp [hw]⟩
    · exact ⟨by simp [hw,setClient,hm,isScript],by simp [hw,isScript],by simp [hw]⟩
  | freeClient | killClient => exact h.congr rfl (.freeClient s _) rfl
  | @handlerResume _ _ _ cs hs _ hck =>
    have hr : ReentryInv { s with handler := .clearFinish cs } := h.congr rfl (.of_eq rfl) rfl
    refine hr.check ?_ hck
    rintro ⟨f,hf,_⟩
    have hf' : f ∈ s.stack := hf
    rw [hs] at hf'
    cases hf'
  | inputEnd hs | breakInput hs => exact h.pop hs rfl (.of_eq rfl) rfl rfl
  | refused _ hcl hqb | queued _ hcl hqb =>
    refine h.congr rfl (.setClient _ hcl ?_) rfl
    intro q' hq'
    simp only [received,hqb,mem_append,mem_cons,not_mem_nil] at hq' ⊢
    tauto
  | @checked _ _ c rest cl q qs hs hcl hqb _ _ hck =>
    have hsub : received { cl with querybuf := qs, current := some q } ⊆ cl.received := by
      intro q' hq'
      simp only [received,hqb,mem_append,mem_cons] at hq' ⊢
      tauto
    have hd : Drained s (s.setClient c (some { cl with querybuf := qs, current := some q })) :=
      .setClient _ hcl hsub
    have hr : ReentryInv { s.setClient c (some { cl with querybuf := qs, current := some q }) with
        stack := rest } := h.pop hs rfl hd rfl rfl
    refine hr.check ?_ hck
    rintro ⟨f,hf,hsc⟩ cl' hcl'
    have hp := h.free
    rw [hs,pairwise_cons] at hp
    have hfree := (hp.1 f hf hsc).2 cl hcl
    simp only [set_clients,if_true,some.injEq] at hcl'
    subst hcl'
    intro q' hq'
    refine hfree q' ?_
    simp only [received,hqb,toList_some,mem_append,mem_cons,not_mem_nil] at hq' ⊢
    tauto
  | expired _ hu =>
    have hi := h.of_still (.of_keyspace (op_keyspace hu))
    exact hi.congr rfl (.of_eq rfl) rfl
  | @op _ o f _ _ hs hrun _ _ hu =>
    have hus := Still.of_keyspace (op_keyspace hu)
    refine (h.of_still hus).top (hus.stack.trans hs) (f.addEffect o) rfl (.of_eq rfl) Iff.rfl
      (isScript_addEffect o f) ?_ ?_ ?_
    all_goals
      unfold running at hrun
      split at hrun
      · first | rfl | exact fun hf => hf.1
      · first | rfl | exact fun hf => hf.1
      · cases hrun
  | selectDb _ _ hcl => exact h.congr rfl (.setClient _ hcl fun _ hq => hq) rfl
  | @procEnd _ k _ _ cl' hs hcl he =>
    refine h.top hs (.call k .done) rfl ?_ Iff.rfl rfl rfl rfl fun hf => hf.1
    refine Drained.setClient (s := { s with stack := _ }) cl' hcl ?_
    rw [received,received,he.querybuf]
    intro q hq
    rcases he.mstate with hms | ⟨_,hms⟩
    · rw [← hms]
      exact hq
    rw [hms,nil_append] at hq
    exact mem_append_right _ hq
  | @procExec _ k _ cl hs hcl =>
    refine h.top hs (.call k (.exec cl.mstate false)) rfl (.of_eq rfl) Iff.rfl rfl rfl rfl ?_
    intro hf q hq
    rcases mem_cons.mp hq with rfl | hq
    · exact hf.1 _ (by simp [upcoming])
    · exact hf.2 cl hcl q (mem_append_left _ hq)
  | @procEval _ k rest _ hs _ hk hnone =>
    -- a script starts, and there was none
    have hno : ∀ r ∈ rest, r.isScript = false := by
      intro r hr
      exact h.flag.mp hnone r (by simp [hs,hr])
    refine h.exchange hs [.call k (.script ⟨false,false,false⟩)] rfl (.of_eq rfl) ?_ ?_ (by simp) ?_
    · simp [isScript]
    · simp [isEval,hk]
    intro g _ r hr hsc
    rw [hno r hr] at hsc
    cases hsc
  | @execEnd _ k _ cl _ hs hcl =>
    have hd : Drained s (s.setClient k.client (some cl.discard)) := by
      refine .setClient _ hcl ?_
      intro q hq
      exact mem_append_right _ hq
    refine h.top hs (.call k .done) rfl hd Iff.rfl rfl rfl rfl fun hf => ?_
    exact fun q hq => hf.1 q (by simp_all [upcoming])
  | execNext hs => exact h.execNext hs rfl
  | @ret _ _ _ cl' hs hcl hcl' =>
    refine h.pop hs rfl ?_ rfl rfl
    refine Drained.setClient (s := { s with stack := _, propagated := _ }) cl' hcl ?_
    rcases hcl' with rfl | ⟨_,rfl⟩
    all_goals exact fun _ hq => hq
  | redisCall hs _ _ hu =>
    have hm := luaCall_finishKeys hu
    refine h.top hs _ rfl (.of_eq ?_) hm rfl rfl rfl fun hf => hf.1
    obtain ⟨db,l,m,r,ps,rfl,_⟩ := luaCall_script hu
    rfl
  | finishKey hs hu =>
    have hus := scriptKey_still hu
    exact (h.of_still hus).top (hus.stack.trans hs) _ rfl (.of_eq rfl) Iff.rfl rfl rfl rfl
      fun hf => hf.1
  | @scriptResumed _ k _ hs =>
    -- the list is given up, and this was the only script
    have honly := h.only hs rfl
    refine h.exchange hs [.call k .done] rfl (.of_eq rfl) ?_ ?_ (by simp) ?_
    · simp only [true_iff]
      intro g hg
      rcases mem_cons.mp hg with rfl | hg
      · rfl
      · exact honly g hg
    · intro g hg hsc
      rcases mem_singleton.mp hg with rfl
      cases hsc
    intro g _ r hr hsc
    rw [honly r hr] at hsc
    cases hsc
  | @scriptResume _ _ k rest c cs hs hck =>
    have hr : ReentryInv { s with stack := .call k (.resume cs) :: rest } :=
      h.top hs (.call k (.resume cs)) rfl (.of_eq rfl) Iff.rfl rfl rfl rfl fun hf => hf.1
    refine hr.check ?_ hck
    intro _ cl hcl
    have hcl' : s.clients c = some cl := hcl
    simpa [reentrySafe,hs,hcl'] using hsafe
  | replicateCommands hs | luaRetReplicated hs | luaRet hs | scriptExit hs | keysFinished hs =>
    exact h.top hs _ rfl (.of_eq rfl) Iff.rfl rfl rfl rfl fun hf => hf.1
  | handlerResumed | luaSelectDb => exact h.congr rfl (.of_eq rfl) rfl
  | _ => cases hstill

lemma ReentryInv.start (h : ReentryInv s) {k : Call n} (hs : s.stack = .call k .proc :: rest)
    (hk : k.cmd.cmd.proc = .eval) : s.maybeFinishKeys = none := by
  rw [h.flag,hs]
  intro f hf
  rcases mem_cons.mp hf with rfl | hf
  · rfl
  cases hsc : f.isScript with
  | false => rfl
  | true =>
    have hp := h.free
    rw [hs,pairwise_cons] at hp
    exact absurd hk ((hp.1 f hf hsc).1 k.cmd (by simp [upcoming]))

end Server

namespace Sample

end Sample

open Sample

namespace Server

end Server
end RedRock
