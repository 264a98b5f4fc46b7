import RedRock.LuaAccess
import RedRock.Suspension

/-!
What becomes of the commands a client sends. They are settled one after the other in
the order they were sent: refused, queued by MULTI or handed to `call`; a queued
command is handed to `call` by the EXEC that works off the queue.
-/

namespace RedRock
open Lib List Option

inductive Origin where
  | input
  | exec
  deriving DecidableEq

structure Log where
  submitted : List Command
  handled : List (Command × Outcome)
  executed : List (Command × Origin)
  deriving DecidableEq

def tagged {β : Type} [DecidableEq β] (b : β) (l : List (Command × β)) : List Command :=
  (l.filter fun e => e.2 = b).map Prod.fst

lemma tagged_append {β : Type} [DecidableEq β] (b : β) (l l' : List (Command × β)) :
    tagged b (l ++ l') = tagged b l ++ tagged b l' := by
  simp [tagged]

lemma tagged_toList {β : Type} [DecidableEq β] (b b' : β) (o : Option Command) :
    tagged b (o.toList.map (·,b')) = if b' = b then o.toList else [] := by
  cases o with
  | none => simp [tagged]
  | some q =>
    by_cases h : b' = b
    all_goals simp [tagged,h]

def Act.submits {n : Nat} (c : ClientId) : Act n → List Command
  | .readQuery x cmds => if x = c then cmds else []
  | _ => []

namespace Server
variable {n : Nat} {s t : Server n} {a : Act n} {c : ClientId}

def execCall (s t : Server n) (c : ClientId) : Option Command :=
  match t.stack with
  | .call k .proc :: .call _ (.exec _ _) :: _ =>
    if s.stack.length < t.stack.length ∧ k.client = c then some k.cmd else none
  | _ => none

end Server

def Log.next {n : Nat} (c : ClientId) (s : Server n) (a : Act n) (t : Server n) (L : Log) : Log :=
  if a = .accept c then ⟨[],[],[]⟩
  else
    { submitted := L.submitted ++ a.submits c
      handled := L.handled ++ ((s.skipped a c).toList ++
        (s.newCall t c).toList.map (·,Outcome.called))
      executed := L.executed ++ ((s.newCall t c).toList.map (·,Origin.input) ++
        (s.execCall t c).toList.map (·,Origin.exec)) }

namespace Server
variable {n : Nat} {s t : Server n} {a : Act n} {c : ClientId} {L : Log}

def log (cfg : Config) (as : List (Act n)) (c : ClientId) : Log :=
  (machine n cfg).history (Log.next c) (initServer n cfg) ⟨[],[],[]⟩ as

/-- The commands sent are those that are settled, then the one a suspended client
waits with, then the input buffer. -/
def Ordered (s : Server n) (c : ClientId) (L : Log) : Prop :=
  L.handled.map Prod.fst <+: L.submitted ∧
  ∀ qb p, s.unhandled c = some (qb,p) → ∃ r : Option Command, p = r.map some ∧
    L.submitted = L.handled.map Prod.fst ++ (r.toList ++ qb)

lemma Ordered.next {qb qb' : List Command} {L' : Log} (h : Ordered s c L)
    (es : List (Command × Outcome)) (cmds : List Command) (r r' : Option Command)
    (hu : s.unhandled c = some (qb,r.map some)) (hu' : t.unhandled c = some (qb',r'.map some))
    (hsub : L'.submitted = L.submitted ++ cmds) (hhan : L'.handled = L.handled ++ es)
    (he : r.toList ++ qb ++ cmds = es.map Prod.fst ++ (r'.toList ++ qb')) : Ordered t c L' := by
  have hall : L'.submitted = L'.handled.map Prod.fst ++ (r'.toList ++ qb') := by
    obtain ⟨r₀,hr₀,hL⟩ := h.2 qb _ hu
    have hr : r = r₀ := map_injective (some_injective _) hr₀
    subst hr
    rw [hsub,hhan,hL,map_append,append_assoc,append_assoc _ (es.map _),← he]
  refine ⟨⟨_,hall.symm⟩,fun qb₁ p₁ h₁ => ?_⟩
  rw [hu',some.injEq,Prod.mk.injEq] at h₁
  obtain ⟨rfl,rfl⟩ := h₁
  exact ⟨r',rfl,hall⟩

lemma Ordered.keep {L' : Log} (h : Ordered s c L)
    (hu : t.unhandled c = none ∨ t.unhandled c = s.unhandled c)
    (hsub : L'.submitted = L.submitted) (hhan : L'.handled = L.handled) : Ordered t c L' := by
  refine ⟨by rw [hsub,hhan]; exact h.1,fun qb p hp => ?_⟩
  rcases hu with hu | hu
  · rw [hu] at hp
    cases hp
  rw [hsub,hhan]
  exact h.2 qb p (hu ▸ hp)

lemma submits_of_ne (ha : ∀ cmds, a ≠ .readQuery c cmds) : a.submits c = [] := by
  cases a with
  | readQuery x cmds =>
    have hx : x ≠ c := by
      rintro rfl
      exact ha cmds rfl
    simp [Act.submits,hx]
  | _ => rfl

lemma Ordered.step (h : Ordered s c L) (hm : InputMove s t a c) :
    Ordered t c (L.next c s a t) := by
  cases hm with
  | gone ha ht =>
    subst ht
    have hk : s.skipped a c = none ∧ a ≠ .accept c ∧ a.submits c = [] := by
      rcases ha with ⟨rfl,_⟩ | rfl
      all_goals exact ⟨rfl,by simp,rfl⟩
    have hn : s.newCall (s.freeClient c) c = none := newCall_length le_rfl
    refine h.keep (.inl ?_) ?_ ?_
    · simp [unhandled,freeClient,set_clients]
    · simp [Log.next,hk]
    · simp [Log.next,hk,hn]
  | accept ha hu hn =>
    subst ha
    refine ⟨by simp [Log.next],fun qb p hp => ⟨none,?_⟩⟩
    rw [hu,some.injEq,Prod.mk.injEq] at hp
    simp [Log.next,← hp.1,← hp.2]
  | read cmds qb p ha hs ht hn =>
    subst ha
    obtain ⟨r,rfl,_⟩ := h.2 qb p hs
    refine h.next [] cmds r r hs ht ?_ ?_ ?_
    · simp [Log.next,Act.submits]
    · simp [Log.next,hn,skipped]
    · simp
  | same ha hk hu hs hn =>
    refine h.keep (.inr hu) ?_ ?_
    · simp [Log.next,ha.1,submits_of_ne ha.2]
    · simp [Log.next,ha.1,hk,hn]
  | skip q qs o hk ho hs ht hn =>
    have ha : ∃ reject pick, a = .nextCommand reject pick := by
      cases a with
      | nextCommand reject pick => exact ⟨reject,pick,rfl⟩
      | _ => cases hk
    obtain ⟨reject,pick,rfl⟩ := ha
    refine h.next [(q,o)] [] none none hs ht ?_ ?_ ?_
    · simp [Log.next,Act.submits]
    · simp [Log.next,hk,hn]
    · simp
  | wait q qs pick ha hk hs ht hn =>
    subst ha
    refine h.next [] [] none (some q) hs ht ?_ ?_ ?_
    · simp [Log.next,Act.submits]
    · simp [Log.next,hk,hn]
    · simp
  | call q qs pick ha hk hs ht hn =>
    subst ha
    refine h.next [(q,.called)] [] none none hs ht ?_ ?_ ?_
    · simp [Log.next,Act.submits]
    · simp [Log.next,hk,hn]
    · simp
  | resume q qb ha hs ht hn =>
    have hne : a ≠ .accept c ∧ a.submits c = [] ∧ s.skipped a c = none := by
      cases a with
      | handlerResume pick | scriptResume pick => exact ⟨by simp,rfl,rfl⟩
      | _ => cases ha
    refine h.next [(q,.called)] [] (some q) none hs ht ?_ ?_ ?_
    · simp [Log.next,hne]
    · simp [Log.next,hne,hn]
    · simp

lemma execCall_of_length (h : t.stack.length ≤ s.stack.length) : s.execCall t c = none := by
  unfold execCall
  split
  · rw [if_neg]
    omega
  · rfl

lemma execCall_of_step (hst : s.step a = some (.ok t)) (c : ClientId) : s.execCall t c = none ∨
    ∃ k q qs mp mp' rest, s.stack = .call k (.exec (q :: qs) mp) :: rest ∧
      t.stack = .call ⟨k.client,q,s.dirty,[],false⟩ .proc :: .call k (.exec qs mp') :: rest ∧
      k.client = c ∧ s.execCall t c = some q := by
  cases stackMove_of_step hst with
  | same ht => exact .inl (execCall_of_length (by rw [ht]))
  | read c' hs ht | call c' q below hb ht => exact .inl (by simp [execCall,ht])
  | pop f rest hs ht hf | phase k k' p p' rest hs ht hc hq he hx =>
    exact .inl (execCall_of_length (by simp [hs,ht]))
  | exec k q qs mp mp' rest hs hcl ht =>
    by_cases hk : k.client = c
    · exact .inr ⟨k,q,qs,mp,mp',rest,hs,ht,hk,by simp [execCall,hs,ht,hk]⟩
    · exact .inl (by simp [execCall,ht,hk])

lemma mstate_of_exec_end (hst : s.step a = some (.ok t)) {k : Call n} {qs : List Command}
    {mp : Bool} (hk : .call k (.exec qs mp) ∈ s.stack)
    (hno : ∀ (k' : Call n) (qs' : List Command) (mp' : Bool),
      .call k' (.exec qs' mp') ∈ t.stack → k'.client ≠ k.client) :
    (t.clients k.client).map Client.mstate = some [] := by
  have hgone : .call k (.exec qs mp) ∉ t.stack := fun hm => hno k qs mp hm rfl
  cases stackMove_of_step hst with
  | same ht => exact absurd (ht ▸ hk) hgone
  | read c' hs ht => simp [hs] at hk
  | pop f rest hs ht hf =>
    rw [hs] at hk
    rcases mem_cons.mp hk with rfl | hm
    · cases hf
    · exact absurd (ht ▸ hm) hgone
  | phase k₀ k' p p' rest hs ht hc hq he hx =>
    rw [hs] at hk
    rcases mem_cons.mp hk with heq | hm
    · cases heq
      refine (hx rfl).resolve_left fun hp => ?_
      cases p' with
      | exec qs' mp' => exact hno k' qs' mp' (by simp [ht]) hc
      | _ => cases hp
    · exact absurd (by simp [ht,hm]) hgone
  | exec k₀ q qs' mp₀ mp' rest hs hcl ht =>
    rw [hs] at hk
    rcases mem_cons.mp hk with heq | hm
    · cases heq
      exact absurd rfl (hno k qs' mp' (by simp [ht]))
    · exact absurd (by simp [ht,hm]) hgone
  | call c' q below hb ht =>
    refine absurd ?_ hgone
    have hm : .call k (.exec qs mp) ∈ below := by
      rcases hb with hs | ⟨hs,_⟩ | ⟨k₀,cs,rest,hs,rfl⟩
      · simpa [hs] using hk
      · simp [hs] at hk
      · simpa [hs] using hk
    simp [ht,hm]

/-- Of the commands queued so far, those run by an EXEC come first, then what the
EXEC in progress has left to do, or the queue if there is none. -/
structure WorkedOff (s : Server n) (c : ClientId) (ran queued : List Command) : Prop where
  done : ran.Sublist queued
  exec : ∀ k qs mp, .call k (.exec qs mp) ∈ s.stack → k.client = c → (ran ++ qs).Sublist queued
  queue : ∀ cl, s.clients c = some cl →
    (∀ k qs mp, .call k (.exec qs mp) ∈ s.stack → k.client ≠ c) → (ran ++ cl.mstate).Sublist queued

namespace WorkedOff
variable {ran queued : List Command}

lemma execNext (h : WorkedOff s c ran queued) (hi : StackInv s) {k : Call n} {q : Command}
    {qs : List Command} {mp mp' : Bool} {rest : List (Frame n)}
    (hs : s.stack = .call k (.exec (q :: qs) mp) :: rest)
    (ht : t.stack = .call ⟨k.client,q,s.dirty,[],false⟩ .proc :: .call k (.exec qs mp') :: rest)
    (hk : k.client = c) : WorkedOff t c (ran ++ [q]) queued := by
  have hnow : (ran ++ [q] ++ qs).Sublist queued := by
    rw [append_assoc]
    exact h.exec k (q :: qs) mp (by simp [hs]) hk
  refine ⟨(sublist_append_left _ qs).trans hnow,?_,?_⟩
  · intro k' qs' mp₁ hm hk'
    rw [ht] at hm
    rcases mem_cons.mp hm with heq | hm
    · cases heq
    rcases mem_cons.mp hm with heq | hm
    · cases heq
      exact hnow
    have hp : k.cmd.cmd.proc.skipsQueue = true := by
      rw [hi.exec k (q :: qs) mp (by simp [hs])]
      rfl
    exact absurd hm (hi.no_exec_under hs hp k' _ (hk'.trans hk.symm))
  · intro cl hcl hno
    exact absurd hk (hno k qs mp' (by simp [ht]))

lemma step (h : WorkedOff s c ran queued) (hi : StackInv s) (ha : a ≠ .accept c)
    (hst : s.step a = some (.ok t)) :
    WorkedOff t c (ran ++ (s.execCall t c).toList)
      (queued ++ tagged .queued (s.skipped a c).toList) := by
  have hq : queued.Sublist (queued ++ tagged .queued (s.skipped a c).toList) :=
    sublist_append_left _ _
  rcases execCall_of_step hst c with hn | ⟨k,q,qs,mp,mp',rest,hs,ht,hk,hn⟩
  swap
  · have hr := h.execNext hi hs ht hk
    rw [hn]
    exact ⟨hr.done.trans hq,fun k' qs' mp₁ hm hk' => (hr.exec k' qs' mp₁ hm hk').trans hq,
      fun cl hcl hno => (hr.queue cl hcl hno).trans hq⟩
  rw [hn,toList_none,List.append_nil]
  refine ⟨h.done.trans hq,?_,?_⟩
  · intro k qs mp hm hk
    refine List.Sublist.trans ?_ hq
    rcases StackInv.exec_of_step hst hm with ⟨k₀,qs',mp',hm',hk₀,_,hsuf⟩ | ⟨_,hms,k₀,rest,hs,hk₀,hp⟩
    · exact (hsuf.sublist.append_left ran).trans (h.exec k₀ qs' mp' hm' (hk₀.trans hk))
    -- an EXEC begins; no other one of the client is under it
    obtain ⟨cl,hcl,hcl'⟩ := map_eq_some_iff.mp hms
    rw [hk] at hcl
    rw [← hcl']
    refine h.queue cl hcl fun k' qs' mp' hm' hk' => ?_
    rw [hs] at hm'
    have hm' := (mem_cons.mp hm').resolve_left (by simp)
    have hskip : k₀.cmd.cmd.proc.skipsQueue = true := by
      rw [hp]
      rfl
    exact hi.no_exec_under hs hskip k' _ ((hk'.trans hk.symm).trans hk₀.symm) hm'
  intro cl' hcl' hno
  cases queueMove_of_step hst hcl' with
  | same cl hcl hm =>
    by_cases hex : ∃ (k : Call n) (qs : List Command) (mp : Bool),
        .call k (.exec qs mp) ∈ s.stack ∧ k.client = c
    · obtain ⟨k,qs,mp,hm',rfl⟩ := hex
      have hend := mstate_of_exec_end hst hm' hno
      rw [hcl',map_some,some.injEq] at hend
      rw [hend,List.append_nil]
      exact h.done.trans hq
    · rw [hm]
      exact (h.queue cl hcl fun k qs mp hm' hk => hex ⟨k,qs,mp,hm',hk⟩).trans hq
  | accept ha' hs ht hm => exact absurd ha' ha
  | queue cl q qs rest pick ha' hs hcl hqb hz hmul hq' ht hm =>
    have hk : s.skipped a c = some (q,.queued) := by
      simp [skipped,ha',hs,hcl,hqb,hz,hmul,hq']
    rw [hk,hm,← append_assoc]
    exact (h.queue cl hcl fun k qs' mp hm' hk => hi.no_exec_of_input hs k _ hk hm').append_right [q]
  | reset k p rest hs ht hk hp hm =>
    rw [hm,List.append_nil]
    exact h.done.trans hq

end WorkedOff

structure LogInv (s : Server n) (c : ClientId) (L : Log) : Prop where
  stack : StackInv s
  ordered : Ordered s c L
  called : tagged .input L.executed = tagged .called L.handled
  queued : WorkedOff s c (tagged .exec L.executed) (tagged .queued L.handled)

lemma LogInv.init (cfg : Config) (c : ClientId) : LogInv (initServer n cfg) c ⟨[],[],[]⟩ where
  stack := .init cfg
  ordered := ⟨by simp,by simp [unhandled,initServer]⟩
  called := rfl
  queued := ⟨by simp [tagged],by simp [initServer],by simp [initServer]⟩

lemma skipped_outcome {e : Command × Outcome} (h : s.skipped a c = some e) : e.2 ≠ .called := by
  unfold skipped at h
  split at h
  · split at h
    · split at h
      · split at h
        · cases h
          simp
        split at h
        · cases h
          simp
        · cases h
      · cases h
    · cases h
  · cases h

lemma LogInv.step (h : LogInv s c L) (hst : s.step a = some (.ok t)) :
    LogInv t c (L.next c s a t) := by
  refine ⟨h.stack.step hst,h.ordered.step (inputMove_of_step h.stack hst c),?_,?_⟩
  · by_cases ha : a = .accept c
    · simp [Log.next,ha,tagged]
    have hk : tagged .called (s.skipped a c).toList = [] := by
      cases hk : s.skipped a c with
      | none => rfl
      | some e => simp [tagged,skipped_outcome hk]
    simp only [Log.next,ha,if_false,tagged_append,tagged_toList,hk,h.called]
    simp
  by_cases ha : a = .accept c
  · subst ha
    cases transition_of hst with
    | accept hs =>
    refine ⟨by simp [Log.next,tagged],?_,?_⟩
    · intro k qs mp hm
      simp [setClient,hs] at hm
    intro cl hcl _
    rw [set_clients,if_pos rfl,some.injEq] at hcl
    simp [Log.next,tagged,← hcl,createClient]
  have hq := h.queued.step h.stack ha hst
  simpa [Log.next,ha,tagged_append,tagged_toList] using hq

/-- The commands of a client are settled in the order they were sent, each once. Those
handed to `call` from its input are the ones neither refused nor queued, those handed to
`call` by EXEC are among the queued ones, in their order. A client that waits for keys
waits with one command, and nothing of its later input is touched. -/
theorem executed_in_order {cfg : Config} {as : List (Act n)}
    (h : (machine n cfg).run as = some (.ok s)) (c : ClientId) :
    (log cfg as c).handled.map Prod.fst <+: (log cfg as c).submitted ∧
    tagged .input (log cfg as c).executed = tagged .called (log cfg as c).handled ∧
    (tagged .exec (log cfg as c).executed).Sublist (tagged .queued (log cfg as c).handled) ∧
    ((∀ e ∈ (log cfg as c).handled, e.2 = .called) →
      (log cfg as c).executed.map Prod.fst = (log cfg as c).handled.map Prod.fst) ∧
    ∀ cl, s.clients c = some cl → (0 < cl.rockKeyNumber → ∃ q, cl.current = some q ∧
        (log cfg as c).submitted = (log cfg as c).handled.map Prod.fst ++ q :: cl.querybuf) ∧
      (¬ s.suspended c →
        (log cfg as c).submitted = (log cfg as c).handled.map Prod.fst ++ cl.querybuf) := by
  have hi : LogInv s c (log cfg as c) := (machine n cfg).history_invariant
    (I := fun s L => LogInv s c L) (fun _ _ _ _ hi hst => hi.step hst) as (LogInv.init cfg c) h
  generalize log cfg as c = L at hi ⊢
  refine ⟨hi.ordered.1,hi.called,hi.queued.done,fun hall => ?_,fun cl hcl => ⟨fun hw => ?_,?_⟩⟩
  · have hq : tagged .queued L.handled = [] := by
      simp only [tagged,map_eq_nil_iff,filter_eq_nil_iff,decide_eq_true_eq]
      intro e he
      simp [hall e he]
    have hx : ∀ e ∈ L.executed, e.2 = .input := by
      have hnil := eq_nil_of_sublist_nil (hq ▸ hi.queued.done)
      simp only [tagged,map_eq_nil_iff,filter_eq_nil_iff,decide_eq_true_eq] at hnil
      intro e he
      cases ho : e.2 with
      | input => rfl
      | exec => exact absurd ho (hnil e he)
    have hin := hi.called
    rwa [tagged,tagged,filter_eq_self.mpr (by simpa using hx),
      filter_eq_self.mpr (by simpa using hall)] at hin
  · have hs : s.suspended c := .inl (by rwa [waits_of_some hcl])
    obtain ⟨r,hr,hL⟩ := hi.ordered.2 _ _ (unhandled_of_suspended hcl hs)
    cases r with
    | none => cases hr
    | some q => exact ⟨q,some.inj hr,hL⟩
  intro hs
  obtain ⟨r,hr,hL⟩ := hi.ordered.2 _ _ (unhandled_of_idle hcl hs)
  cases r with
  | none => exact hL
  | some q => cases hr

end Server

namespace Sample

/-- Client 1 sends a command that is refused, and a transaction. -/
def refusedThenQueued : List (Act 0) :=
  [.accept 1,.readQuery 1 [get k1,multi,ping,exec],.nextCommand (some true) [],.nextCommand none [],
   .runProc false,.ret,.nextCommand none [],.nextCommand none [],.runProc false,.execNext false]

end Sample

open Sample

namespace Server

/-- Client 1 waits for `k1` with one more command in its input. -/
theorem executed_in_order_waiting : ∃ (s : Server 0) (cl : Client 0),
    (machine 0 Sample.config).run Sample.bothWait = some (.ok s) ∧ s.clients 1 = some cl ∧
    (log Sample.config Sample.bothWait 1).submitted =
      (log Sample.config Sample.bothWait 1).handled.map Prod.fst ++
        [Sample.get Sample.k1,Sample.ping] := by
  obtain ⟨s,hs,hobs⟩ := (machine 0 Sample.config).observed Sample.bothWait
    (fun s => (s.clients 1).map fun cl => (cl.rockKeyNumber,cl.current,cl.querybuf))
    (some (1,some (Sample.get Sample.k1),[Sample.ping])) (by decide)
  obtain ⟨cl,hcl,hrest⟩ := map_eq_some_iff.mp hobs
  obtain ⟨hn,hrest⟩ := Prod.mk.inj hrest
  obtain ⟨hcur,hqb⟩ := Prod.mk.inj hrest
  obtain ⟨q,hq,hL⟩ := ((executed_in_order hs 1).2.2.2.2 cl hcl).1 (by omega)
  rw [hcur] at hq
  cases hq
  exact ⟨s,cl,hs,hcl,by rw [hL,hqb]⟩

/-- A command that is refused never reaches `call`, and a queued one reaches it after
the EXEC that was sent later. -/
theorem executed_not_as_submitted : ∃ s : Server 0,
    (machine 0 Sample.config).run refusedThenQueued = some (.ok s) ∧
    (log Sample.config refusedThenQueued 1).executed.map Prod.fst =
      [multi,Sample.exec,ping] ∧
    ¬ (log Sample.config refusedThenQueued 1).executed.map Prod.fst <+:
      (log Sample.config refusedThenQueued 1).submitted := by
  obtain ⟨s,hs,_⟩ := (machine 0 Sample.config).exists_run refusedThenQueued
    (fun _ => True) (by decide)
  exact ⟨s,hs,by decide,by decide⟩

end Server
end RedRock
