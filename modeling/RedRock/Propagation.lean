import RedRock.Integrity
import RedRock.Transactions

/-!
What is fed to the AOF and the replicas. A call propagates its command when it
ends, so as long as no call starts inside another one that has effects pending,
the stream is the history of effects. A script that resumes clients before its
own call has ended breaks this.
-/

namespace RedRock
open Lib List RedRock.Frame

/-- The effects of a frame that have not been propagated. -/
def Frame.effects {n : Nat} : Frame n → List (KsOp n)
  | .call k (.luaCall _ _ _ fx) => k.effects ++ fx
  | .call k _ => k.effects
  | .input _ => []

/-- `f` may run above `g`: above an EXEC only its own client runs. -/
def Frame.Within {n : Nat} (f : Frame n) : Frame n → Prop
  | .call k (.exec _ _) => f.owner = some k.client
  | _ => True

/-- The end of the call finds the effects of the command: it sees that
`server.dirty` has changed, and it is not told to keep the command back. -/
structure Call.Sound {n : Nat} (k : Call n) (dirty : Nat) : Prop where
  le : k.dirty ≤ dirty
  lt : k.effects ≠ [] → k.dirty < dirty
  prevent : k.preventProp = true → k.effects = []
  exec : k.cmd.cmd.proc = .exec → k.effects = []

def Phase.Sound {n : Nat} (k : Call n) (dirty : Nat) : Phase n → Prop
  | .proc => k.preventProp = false ∧ (k.cmd.cmd.proc ≠ .other → k.effects = [])
  | .script lua => k.preventProp = false ∧ k.cmd.cmd.proc = .eval ∧
      (lua.replicate = true ∨ lua.writeDirty = false → k.effects = [])
  | .luaCall lua q d fx => k.preventProp = false ∧ k.cmd.cmd.proc = .eval ∧
      (lua.replicate = true ∨ lua.writeDirty = false → k.effects = []) ∧
      (lua.writeDirty = false → q.cmd.write = false ∧ fx = []) ∧
      k.dirty ≤ d ∧ d ≤ dirty ∧ (fx ≠ [] → d < dirty)
  | .exec _ _ => k.effects = []
  | _ => True

def Frame.Sound {n : Nat} (dirty : Nat) : Frame n → Prop
  | .input _ => True
  | .call k phase => k.Sound dirty ∧ phase.Sound k dirty

lemma Call.Sound.mono {n : Nat} {k : Call n} {d e : Nat} (h : k.Sound d) (hde : d ≤ e) :
    k.Sound e :=
  ⟨h.le.trans hde,fun hk => (h.lt hk).trans_le hde,h.prevent,h.exec⟩

lemma Frame.Sound.mono {n : Nat} {f : Frame n} {d e : Nat} (h : f.Sound d) (hde : d ≤ e) :
    f.Sound e := by
  cases f with
  | input c => trivial
  | call k phase =>
    refine ⟨h.1.mono hde,?_⟩
    have hp := h.2
    cases phase with
    | luaCall lua q d' fx =>
      obtain ⟨h1,h2,h3,h4,h5,h6,h7⟩ := hp
      exact ⟨h1,h2,h3,h4,h5,h6.trans hde,fun hfx => (h7 hfx).trans_le hde⟩
    | _ => exact hp

namespace Server
variable {n : Nat} {s t u : Server n} {a : Act n}
variable {f : Frame n} {pick : Sds} {d : Fin (n+1)} {c : ClientId}

/-- A script resumes clients only when it has nothing left to propagate and does
not run inside EXEC; a key expires only when nothing is left to propagate. -/
def orderSafe (s : Server n) : Act n → Bool
  | .scriptResume _ =>
    match s.stack with
    | .call k (.resume (_ :: _)) :: rest => k.effects.isEmpty && !rest.any isExec
    | _ => true
  | .expired _ _ _ =>
    match s.stack with
    | f :: _ => f.effects.isEmpty
    | [] => true
  | _ => true

def streamed (s : Server n) : List (KsOp n) := s.propagated.flatMap Propagated.effects

structure PropInv (s : Server n) : Prop where
  below : ∀ f ∈ s.stack.tail, f.effects = []
  order : s.streamed ++ s.stack.flatMap effects = s.applied
  sound : ∀ f ∈ s.stack, f.Sound s.dirty
  within : s.stack.Pairwise Within

lemma propagates_effects {k : Call n} {dirty : Nat} (h : k.Sound dirty) :
    (Call.propagates k dirty).flatMap Propagated.effects = k.effects := by
  unfold Call.propagates
  split
  · rename_i hno
    rcases hno with hd | hp
    · by_contra hne
      have hlt := h.lt (Ne.symm hne)
      omega
    rw [h.prevent hp]
    rfl
  split
  · rename_i he
    rw [h.exec he]
    rfl
  · simp [Propagated.effects]

lemma flatMap_effects_nil {l : List (Frame n)} (h : ∀ f ∈ l, f.effects = []) :
    l.flatMap effects = [] := by
  rw [flatMap_eq_nil_iff]
  exact h

section
variable (h : PropInv s)
include h

lemma PropInv.rest {rest : List (Frame n)} (hs : s.stack = f :: rest) :
    ∀ g ∈ rest, g.effects = [] := by
  intro g hg
  apply h.below
  rw [hs]
  exact hg

lemma PropInv.soundHead {rest : List (Frame n)} (hs : s.stack = f :: rest) :
    f.Sound s.dirty := h.sound f (by simp [hs])

lemma PropInv.head {rest : List (Frame n)} (hs : s.stack = f :: rest) :
    s.streamed ++ f.effects = s.applied := by
  have ho := h.order
  rw [hs,flatMap_cons,flatMap_effects_nil (h.rest hs),append_nil] at ho
  exact ho

lemma PropInv.input {rest : List (Frame n)} (hs : s.stack = .input c :: rest) :
    s.streamed = s.applied := by
  have hh := h.head hs
  simpa [effects] using hh

lemma PropInv.exchange {rest : List (Frame n)} (hs : s.stack = f :: rest)
    (gs : List (Frame n)) (ht : t.stack = gs ++ rest) (hbelow : ∀ g ∈ gs.tail, g.effects = [])
    (hd : s.dirty ≤ t.dirty) (ho : t.streamed ++ gs.flatMap effects = t.applied)
    (hsound : ∀ g ∈ gs, g.Sound t.dirty) (hpair : gs.Pairwise Within)
    (howner : ∀ g ∈ gs, g.owner = f.owner) : PropInv t := by
  have hrest := h.rest hs
  have hw := h.within
  rw [hs,pairwise_cons] at hw
  refine ⟨?_,?_,?_,?_⟩
  · intro g hg
    rw [ht] at hg
    cases gs with
    | nil => exact hrest g (mem_of_mem_tail hg)
    | cons g' gs =>
      rw [cons_append,tail_cons,mem_append] at hg
      rcases hg with hg | hg
      · exact hbelow g hg
      · exact hrest g hg
  · rw [ht,flatMap_append,flatMap_effects_nil hrest,append_nil]
    exact ho
  · intro g hg
    rw [ht,mem_append] at hg
    rcases hg with hg | hg
    · exact hsound g hg
    · exact (h.sound g (by simp [hs,hg])).mono hd
  · rw [ht,pairwise_append]
    refine ⟨hpair,hw.2,?_⟩
    intro g hg r hr
    have hfr := hw.1 r hr
    cases r with
    | input c => trivial
    | call k phase =>
      cases phase with
      | exec qs mp => exact (howner g hg).trans hfr
      | _ => trivial

lemma PropInv.top {rest : List (Frame n)} (hs : s.stack = f :: rest) (g : Frame n)
    (ht : t.stack = g :: rest) (howner : g.owner = f.owner) (hd : s.dirty ≤ t.dirty)
    (hsound : g.Sound t.dirty) (ho : t.streamed ++ g.effects = t.applied) : PropInv t := by
  refine h.exchange hs [g] ht (by simp) hd (by simpa using ho) ?_ (by simp) ?_
  · simpa using hsound
  · simpa using howner

lemma PropInv.congr (hs : t.stack = s.stack) (hd : t.dirty = s.dirty)
    (hp : t.propagated = s.propagated) (ha : t.applied = s.applied) : PropInv t := by
  refine ⟨?_,?_,?_,?_⟩
  · rw [hs]
    exact h.below
  · rw [streamed,hs,hp,ha]
    exact h.order
  · rw [hs,hd]
    exact h.sound
  rw [hs]
  exact h.within

lemma PropInv.of_still (ht : Still s t) : PropInv t :=
  h.congr ht.stack ht.dirty ht.propagated ht.applied

lemma PropInv.pop {rest : List (Frame n)} (hs : s.stack = f :: rest)
    (ht : t.stack = rest) (hd : t.dirty = s.dirty) (ho : t.streamed = t.applied) : PropInv t :=
  h.exchange hs [] ht (by simp) hd.ge (by simpa using ho) (by simp) .nil (by simp)

end

lemma PropInv.of_input (c : ClientId) (hs : t.stack = [] ∨ t.stack = [.input c])
    (ho : t.streamed = t.applied) : PropInv t := by
  rcases hs with hs | hs
  · exact ⟨by simp [hs],by simpa [hs] using ho,by simp [hs],by simp [hs]⟩
  · exact ⟨by simp [hs],by simpa [hs,effects] using ho,by simp [hs,Sound],by simp [hs]⟩

lemma PropInv.check {r : Server n} (h : PropInv r) (hfx : ∀ f ∈ r.stack, f.effects = [])
    (hex : ∀ f ∈ r.stack, f.isExec = false) (hs : r.checkThenCall c pick = .ok t) : PropInv t := by
  obtain ⟨cl,q,keys,errs,_,_,_,hres⟩ := checkCall_control hs
  rcases hres with ⟨_,ht⟩ | ⟨_,ht⟩
  · refine PropInv.of_still ?_ ht
    have hw : ∀ g : Frame n, ∀ f ∈ r.stack, g.Within f := by
      intro g f hf
      have hne := hex f hf
      cases f with
      | input c => trivial
      | call k phase =>
        cases phase with
        | exec qs mp => cases hne
        | _ => trivial
    refine ⟨?_,?_,?_,?_⟩
    · intro f hf
      rcases mem_cons.mp hf with rfl | hf
      · rfl
      · exact hfx f hf
    · exact h.order
    · intro f hf
      rcases mem_cons.mp hf with rfl | hf
      · exact ⟨⟨le_rfl,by simp,by simp,by simp⟩,rfl,by simp⟩
      rcases mem_cons.mp hf with rfl | hf
      · trivial
      · exact h.sound f hf
    refine pairwise_cons.mpr ⟨?_,pairwise_cons.mpr ⟨hw _,h.within⟩⟩
    intro f hf
    rcases mem_cons.mp hf with rfl | hf
    · trivial
    · exact hw _ f hf
  · exact h.of_still ht

lemma restoreAll_propagated {keys : List Sds} (h : s.restoreAllForScript d keys = .ok u)
    : u.propagated = s.propagated := by
  refine restoreAll_invariant (I := fun v => v.propagated = s.propagated) rfl ?_ h
  intro v w key hv hw
  obtain ⟨val,l,_,_,rfl⟩ := restoreOne_ok hw
  rw [← hv]
  split <;> rfl

lemma luaCall_streamed {lua lua' : LuaState} {caller : Client n} {q : Command}
    (h : s.luaRedisGenericCommand lua caller q = .ok (u,lua')) : u.streamed = s.streamed := by
  obtain ⟨emits,_,_,hb⟩ := luaCall_ok h
  obtain ⟨keys,errs,_,hu⟩ := beforeEachCall_ok hb
  have hp := restoreAll_propagated hu
  simp only at hp
  rw [streamed,hp]
  cases emits with
  | true => simp [emitMulti,streamed,Propagated.effects]
  | false => rfl

lemma PropInv.op {o : KsOp n} {rest : List (Frame n)} {q : Command} (h : PropInv s)
    (hs : s.stack = f :: rest) (hrun : f.running = some q) (hw : q.cmd.write = true)
    (hu : s.applyOp o = .ok u) (ht : t = { u with
      stack := f.addEffect o :: rest, dirty := u.dirty + 1, applied := u.applied ++ [o] }) :
    PropInv t := by
  have hsame : u.dirty = s.dirty ∧ u.applied = s.applied ∧ u.propagated = s.propagated := by
    obtain ⟨db,b,rfl,_⟩ := op_keyspace hu
    exact ⟨rfl,rfl,rfl⟩
  obtain ⟨hdirty,happ,hprop⟩ := hsame
  have hsound := h.soundHead hs
  have htd : t.dirty = s.dirty + 1 := by rw [ht,← hdirty]
  have hstr : t.streamed = s.streamed := by rw [ht,streamed,streamed,← hprop]
  have hap : t.applied = s.applied ++ [o] := by rw [ht,← happ]
  have hhead := h.head hs
  unfold running at hrun
  split at hrun
  · -- a command of a client
    rename_i k
    split at hrun
    · rename_i hk
      refine h.top hs (.call { k with effects := k.effects ++ [o] } .proc) (by rw [ht]; rfl) rfl
        (by omega) ⟨⟨?_,?_,?_,?_⟩,hsound.2.1,?_⟩ ?_
      · have hle := hsound.1.le
        simp only
        omega
      · have hle := hsound.1.le
        simp only
        omega
      · simp [hsound.2.1]
      · simp [hk]
      · simp [hk]
      · simp only [effects] at hhead ⊢
        rw [hstr,hap,← hhead,append_assoc]
    · cases hrun
  · -- a command of a script
    rename_i k lua q' dirty fx
    cases hrun
    obtain ⟨hcall,h1,h2,h3,h4,h5,h6,_⟩ := hsound
    refine h.top hs (.call k (.luaCall lua q dirty (fx ++ [o]))) (by rw [ht]; rfl) rfl
      (by omega) ⟨hcall.mono (by omega),h1,h2,h3,?_,h5,by omega,by omega⟩ ?_
    · intro hwd
      rw [(h4 hwd).1] at hw
      cases hw
    · simp only [effects] at hhead ⊢
      rw [hstr,hap,← hhead]
      simp
  · cases hrun

lemma PropInv.execNext {denied mp : Bool} {k : Call n} {q : Command} {qs : List Command}
    {rest : List (Frame n)} (h : PropInv s) (hs : s.stack = .call k (.exec (q :: qs) mp) :: rest)
    (ht : t = { s with
      propagated := s.propagated ++ (if !mp && !q.cmd.readonlyOrAdmin then [.multi] else [])
      stack := (if denied then [] else [.call ⟨k.client,q,s.dirty,[],false⟩ .proc]) ++
        .call k (.exec qs (mp || (!mp && !q.cmd.readonlyOrAdmin))) :: rest }) : PropInv t := by
  obtain ⟨hcall,hnil⟩ := h.soundHead hs
  have hnil : k.effects = [] := hnil
  have hstr : t.streamed = s.streamed := by
    rw [ht,streamed,streamed]
    simp only
    split <;> simp [Propagated.effects]
  have hap : t.applied = s.applied := by rw [ht]
  have hd : t.dirty = s.dirty := by rw [ht]
  have hhead : s.streamed = s.applied := by
    have hh := h.head hs
    simp only [effects,hnil,append_nil] at hh
    exact hh
  have hex : Sound t.dirty (.call k (.exec qs (mp || (!mp && !q.cmd.readonlyOrAdmin)))) := by
    rw [hd]
    exact ⟨hcall,hnil⟩
  cases denied with
  | true =>
    refine h.top hs (.call k (.exec qs (mp || (!mp && !q.cmd.readonlyOrAdmin))))
      (by rw [ht]; rfl) rfl hd.ge hex ?_
    rw [hstr,hap,hhead]
    simp [effects,hnil]
  | false =>
    refine h.exchange hs [.call ⟨k.client,q,s.dirty,[],false⟩ .proc,
      .call k (.exec qs (mp || (!mp && !q.cmd.readonlyOrAdmin)))] (by rw [ht]; rfl) ?_ hd.ge ?_ ?_
      ?_ ?_
    · simp [effects,hnil]
    · rw [hstr,hap,hhead]
      simp [effects,hnil]
    · intro g hg
      rcases mem_cons.mp hg with rfl | hg
      · exact ⟨⟨hd.ge,by simp,by simp,by simp⟩,rfl,by simp⟩
      rcases mem_singleton.mp hg with rfl
      exact hex
    · simp [Within,owner]
    · simp [owner]

lemma PropInv.luaRet (h : PropInv s) (hst : s.step .luaRet = some (.ok t)) : PropInv t := by
  cases step_luaRet hst with
  | @luaRetReplicated k lua q dirty fx rest hs hrep =>
    -- the effects of the command are propagated by themselves
    obtain ⟨hcall,h1,h2,h3,h4,h5,h6,h7⟩ := h.soundHead hs
    have hhead := h.head hs
    simp only [effects] at hhead
    have hnil := h3 (.inl hrep)
    have hstr : (s.propagated ++ if s.dirty = dirty then [] else [Propagated.command fx]).flatMap
        Propagated.effects = s.streamed ++ fx := by
      rw [streamed,flatMap_append]
      congr 1
      split
      · rename_i hd
        by_contra hne
        have hlt := h7 (Ne.symm hne)
        omega
      · simp [Propagated.effects]
    refine h.top hs (.call k (.script lua)) rfl rfl le_rfl ⟨hcall,h1,h2,h3⟩ ?_
    rw [hnil,nil_append] at hhead
    simp only [effects,hnil,append_nil]
    exact hstr.trans hhead
  | @luaRet k lua q dirty fx rest hs hrep =>
    -- they wait for the end of the script
    obtain ⟨hcall,h1,h2,h3,h4,h5,h6,h7⟩ := h.soundHead hs
    have hhead := h.head hs
    simp only [effects] at hhead
    refine h.top hs (.call { k with effects := k.effects ++ fx } (.script lua)) rfl rfl le_rfl
      ⟨⟨hcall.le,?_,?_,?_⟩,h1,h2,?_⟩ hhead
    · intro hne
      by_cases hfx : fx = []
      · exact hcall.lt (by simpa [hfx] using hne)
      have hlt := h7 hfx
      exact h5.trans_lt hlt
    · simp [h1]
    · simp [h2]
    · rintro (hr | hw)
      · rw [hrep] at hr
        cases hr
      · simp [h3 (.inr hw),(h4 hw).2]

lemma PropInv.init (cfg : Config) : PropInv (initServer n cfg) :=
  ⟨by simp [initServer],by simp [initServer,streamed],by simp [initServer],by simp [initServer]⟩

lemma PropInv.expired {key : Sds} {async : Bool} (h : PropInv s)
    (hsafe : s.orderSafe (.expired d key async) = true)
    (hu : s.applyOp (expireOp d key async) = .ok u) : PropInv { u with
      applied := u.applied ++ [expireOp d key async]
      propagated := u.propagated ++ [.command [expireOp d key async]] } := by
  have hi : PropInv u := h.of_still (.of_keyspace (op_keyspace hu))
  have hnil : u.stack.flatMap effects = [] := by
    have hstk : u.stack = s.stack := (Still.of_keyspace (op_keyspace hu)).stack
    rw [hstk]
    cases hs : s.stack with
    | nil => rfl
    | cons f rest =>
      have hf : f.effects = [] := by simpa [orderSafe,hs] using hsafe
      rw [flatMap_cons,hf,flatMap_effects_nil (h.rest hs)]
      rfl
  refine ⟨hi.below,?_,hi.sound,hi.within⟩
  have ho := hi.order
  rw [hnil,append_nil] at ho
  simp only [hnil,streamed,flatMap_append,append_nil,← ho]
  simp [Propagated.effects]

lemma PropInv.step (h : PropInv s) (hsafe : s.orderSafe a = true)
    (hst : s.step a = some (.ok t)) : PropInv t := by
  cases hstill : a.still with
  | true => exact h.of_still (still_of_step hstill hst)
  | false =>
  cases transition_of hst with
  | @readQuery c _ _ _ hs =>
    have ho : s.streamed = s.applied := by simpa [hs] using h.order
    refine .of_input c ?_ ho
    simp only
    split <;> simp
  | @handlerResume _ _ _ cs hs _ hck =>
    have hr : PropInv { s with handler := .clearFinish cs } := h.congr rfl rfl rfl rfl
    exact hr.check (by simp [hs]) (by simp [hs]) hck
  | inputEnd hs | breakInput hs => exact h.pop hs rfl rfl (h.input hs)
  | @checked _ _ c rest cl q qs hs _ _ _ _ hck =>
    have hr : PropInv { s.setClient c (some { cl with querybuf := qs, current := some q }) with
        stack := rest } := h.pop hs rfl rfl (h.input hs)
    refine hr.check (h.rest hs) ?_ hck
    -- input is processed above no EXEC
    intro f hf
    have hw := h.within
    rw [hs,pairwise_cons] at hw
    have hin := hw.1 f hf
    cases f with
    | input c => rfl
    | call k phase =>
      cases phase with
      | exec qs mp => cases hin
      | _ => rfl
  | expired _ hu => exact h.expired hsafe hu
  | op hs hrun hw _ hu => exact h.op hs hrun hw hu rfl
  | procExec hs _ hk =>
    obtain ⟨hcall,_,_⟩ := h.soundHead hs
    have hhead := h.head hs
    exact h.top hs _ rfl rfl le_rfl ⟨hcall,hcall.exec hk⟩ hhead
  | procEval hs _ hk =>
    obtain ⟨hcall,hprev,hproc⟩ := h.soundHead hs
    have hhead := h.head hs
    exact h.top hs _ rfl rfl le_rfl ⟨hcall,hprev,hk,fun _ => hproc (by simp [hk])⟩ hhead
  | execEnd hs =>
    obtain ⟨hcall,_⟩ := h.soundHead hs
    have hhead := h.head hs
    exact h.top hs _ rfl rfl (Nat.le_add_right _ _)
      ⟨hcall.mono (Nat.le_add_right _ _),trivial⟩ hhead
  | execNext hs => exact h.execNext hs rfl
  | @ret k _ _ _ hs =>
    obtain ⟨hcall,_⟩ := h.soundHead hs
    refine h.pop hs rfl rfl ?_
    have hhead : s.streamed ++ k.effects = s.applied := h.head hs
    rw [← propagates_effects hcall] at hhead
    simp only [streamed,setClient,flatMap_append] at hhead ⊢
    exact hhead
  | @replicateCommands k lua _ hs =>
    obtain ⟨hcall,h1,h2,h3⟩ := h.soundHead hs
    have hhead := h.head hs
    refine h.top hs (.call k (.script { lua with
      replicate := lua.replicate || !lua.writeDirty })) rfl rfl le_rfl ⟨hcall,h1,h2,?_⟩ hhead
    rintro (hr | hw)
    · simp only [Bool.or_eq_true,Bool.not_eq_true'] at hr
      exact h3 hr
    · exact h3 (.inr hw)
  | @redisCall u q k lua _ _ lua' hs _ _ hu =>
    obtain ⟨hcall,h1,h2,h3⟩ := h.soundHead hs
    have hhead := h.head hs
    obtain ⟨_,_,hlua,_⟩ := luaCall_ok hu
    have hstr := luaCall_streamed hu
    have hsame : u.dirty = s.dirty ∧ u.applied = s.applied := by
      obtain ⟨db,l,m,r,ps,rfl,_⟩ := luaCall_script hu
      exact ⟨rfl,rfl⟩
    refine h.top hs (.call k (.luaCall lua' q u.dirty [])) rfl rfl hsame.1.ge
      ⟨hcall.mono hsame.1.ge,h1,h2,?_,?_,?_,le_rfl,by simp⟩ ?_
    · rw [hlua]
      rintro (hr | hw)
      · exact h3 (.inl hr)
      · exact h3 (.inr (Bool.or_eq_false_iff.mp hw).1)
    · rw [hlua]
      intro hw
      exact ⟨(Bool.or_eq_false_iff.mp hw).2,rfl⟩
    · exact hcall.le.trans hsame.1.ge
    · simp only [effects,append_nil] at hhead ⊢
      rw [hsame.2,← hhead]
      exact congrArg (· ++ k.effects) hstr
  | luaRetReplicated | luaRet => exact h.luaRet hst
  | @scriptExit k lua _ l hs =>
    obtain ⟨hcall,h1,h2,h3⟩ := h.soundHead hs
    have hhead := h.head hs
    have hstr : (s.propagated ++ if lua.replicate && lua.multiEmitted then [Propagated.exec] else
        []).flatMap Propagated.effects = s.streamed := by
      rw [streamed,flatMap_append]
      split <;> simp [Propagated.effects]
    exact h.top hs (.call { k with preventProp := lua.replicate }
      (.finishKeys (needFinishKeys s.db [] l) [])) rfl rfl le_rfl
      ⟨⟨hcall.le,hcall.lt,fun hr => h3 (.inl hr),hcall.exec⟩,trivial⟩
      ((congrArg (· ++ k.effects) hstr).trans hhead)
  | procEnd hs | keysFinished hs | scriptResumed hs =>
    obtain ⟨hcall,_⟩ := h.soundHead hs
    have hhead := h.head hs
    exact h.top hs _ rfl rfl le_rfl ⟨hcall,trivial⟩ hhead
  | finishKey hs hu =>
    have hst' := scriptKey_still hu
    have hi := h.of_still hst'
    have hs' := hst'.stack.trans hs
    obtain ⟨hcall,_⟩ := hi.soundHead hs'
    have hhead := hi.head hs'
    exact hi.top hs' _ rfl rfl le_rfl ⟨hcall,trivial⟩ hhead
  | @scriptResume _ _ k rest _ cs hs hck =>
    obtain ⟨hcall,_⟩ := h.soundHead hs
    have hhead := h.head hs
    have hr : PropInv { s with stack := .call k (.resume cs) :: rest } :=
      h.top hs (.call k (.resume cs)) rfl rfl le_rfl ⟨hcall,trivial⟩ hhead
    have hcond : k.effects = [] ∧ ∀ f ∈ rest, f.isExec = false := by
      simpa [orderSafe,hs] using hsafe
    refine hr.check ?_ ?_ hck
    · intro f hf
      rcases mem_cons.mp hf with rfl | hf
      · exact hcond.1
      · exact h.rest hs f hf
    intro f hf
    rcases mem_cons.mp hf with rfl | hf
    · rfl
    · exact hcond.2 f hf
  | accept | freeClient | killClient | handlerResumed | refused | queued | selectDb | luaSelectDb =>
    exact h.congr rfl rfl rfl rfl
  | _ => cases hstill

end Server

namespace Sample

end Sample

open Sample

namespace Server

end Server
end RedRock
