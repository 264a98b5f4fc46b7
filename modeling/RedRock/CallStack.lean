import RedRock.Control
import RedRock.Waiters

/-!
The shape of the main thread's call stack. Input is processed from the event loop,
from the pipe handler or from the end of a script; a command runs from the input of
its client, or from the EXEC of its client if it was queued.
-/

namespace RedRock
open Lib List Option Client

def Frame.due {n : Nat} : Frame n → List ClientId
  | .call _ (.finishKeys _ zs) => zs
  | .call _ (.resume zs) => zs
  | _ => []

def Phase.inExec {n : Nat} : Phase n → Bool
  | .exec _ _ => true
  | _ => false

def Frame.inExec {n : Nat} : Frame n → Bool
  | .call _ p => p.inExec
  | .input _ => false

inductive Nested {n : Nat} : List (Frame n) → Prop where
  | nil : Nested []
  | input (c : ClientId) {fs : List (Frame n)} (h : Nested fs)
      (hb : fs = [] ∨ ∃ k zs rest, fs = .call k (.resume zs) :: rest) : Nested (.input c :: fs)
  | call (k : Call n) (p : Phase n) {fs : List (Frame n)} (h : Nested (.input k.client :: fs)) :
      Nested (.call k p :: .input k.client :: fs)
  | exec (k : Call n) (p : Phase n) (k' : Call n) (qs : List Command) (mp : Bool)
      {fs : List (Frame n)} (h : Nested (.call k' (.exec qs mp) :: fs))
      (hc : k.client = k'.client) (hq : k.cmd.cmd.proc.skipsQueue = false) :
      Nested (.call k p :: .call k' (.exec qs mp) :: fs)

namespace Nested
variable {n : Nat} {f : Frame n} {fs : List (Frame n)} {k k' : Call n} {p p' : Phase n}

lemma tail (h : Nested (f :: fs)) : Nested fs := by
  cases h with
  | input c h hb => exact h
  | call k p h => exact h
  | exec k p k' qs mp h hc hq => exact h

lemma phase (h : Nested (.call k p :: fs)) (hc : k'.client = k.client) (hq : k'.cmd = k.cmd) :
    Nested (.call k' p' :: fs) := by
  cases h with
  | call k p h =>
    rw [← hc] at h ⊢
    exact .call k' p' h
  | exec k p k₀ qs mp h hc' hq' => exact .exec k' p' k₀ qs mp h (hc.trans hc') (hq ▸ hq')

lemma input_mem (h : Nested fs) (k : Call n) (p : Phase n) (hk : .call k p ∈ fs) :
    .input k.client ∈ fs := by
  induction h generalizing k p with
  | nil => cases hk
  | input c h hb ih =>
    have hm := (mem_cons.mp hk).resolve_left (by simp)
    exact mem_cons_of_mem _ (ih k p hm)
  | call k₀ p₀ h ih =>
    rcases mem_cons.mp hk with heq | hm
    · cases heq
      simp
    · exact mem_cons_of_mem _ (ih k p hm)
  | exec k₀ p₀ k₁ qs mp h hc hq ih =>
    rcases mem_cons.mp hk with heq | hm
    · cases heq
      rw [hc]
      exact mem_cons_of_mem _ (ih k₁ (.exec qs mp) (by simp))
    · exact mem_cons_of_mem _ (ih k p hm)

lemma under_of_skipsQueue (h : Nested (.call k p :: fs))
    (hq : k.cmd.cmd.proc.skipsQueue = true) : ∃ rest, fs = .input k.client :: rest := by
  cases h with
  | call k p h => exact ⟨_,rfl⟩
  | exec k p k' qs mp h hc hq' =>
    rw [hq] at hq'
    cases hq'

end Nested

namespace Server
variable {n : Nat} {s t : Server n} {a : Act n}
variable {rest : List (Frame n)} {c : ClientId} {pick : Sds}

inductive StackMove (s t : Server n) : Prop where
  | same (h : t.stack = s.stack)
  | read (c : ClientId) (hs : s.stack = []) (ht : t.stack = [.input c])
  | pop (f : Frame n) (rest : List (Frame n)) (hs : s.stack = f :: rest) (ht : t.stack = rest)
      (hf : f.inExec = false)
  | phase (k k' : Call n) (p p' : Phase n) (rest : List (Frame n))
      (hs : s.stack = .call k p :: rest) (ht : t.stack = .call k' p' :: rest)
      (hc : k'.client = k.client) (hq : k'.cmd = k.cmd)
      (he : ∀ qs mp, p' = .exec qs mp → (∃ q mp', p = .exec (q :: qs) mp') ∨
        p = .proc ∧ k.cmd.cmd.proc = .exec ∧ (s.clients k.client).map mstate = some qs)
      (hx : p.inExec = true → p'.inExec = true ∨ (t.clients k.client).map mstate = some [])
  | exec (k : Call n) (q : Command) (qs : List Command) (mp mp' : Bool) (rest : List (Frame n))
      (hs : s.stack = .call k (.exec (q :: qs) mp) :: rest)
      (hcl : s.clients k.client ≠ none)
      (ht : t.stack = .call ⟨k.client,q,s.dirty,[],false⟩ .proc :: .call k (.exec qs mp') :: rest)
  | call (c : ClientId) (q : Command) (below : List (Frame n))
      (hb : s.stack = .input c :: below ∨ s.stack = [] ∧ below = [] ∨
        ∃ k cs rest, s.stack = .call k (.resume (c :: cs)) :: rest ∧
          below = .call k (.resume cs) :: rest)
      (ht : t.stack = .call ⟨c,q,s.dirty,[],false⟩ .proc :: .input c :: below)

lemma checkCall_stack (h : s.checkThenCall c pick = .ok t) : t.stack = s.stack ∨
      ∃ q, t.stack = .call ⟨c,q,s.dirty,[],false⟩ .proc :: .input c :: s.stack := by
  obtain ⟨cl,q,keys,errs,_,_,_,hr⟩ := checkCall_control h
  rcases hr with ⟨_,ht⟩ | ⟨_,ht⟩
  · exact .inr ⟨q,ht.stack⟩
  · exact .inl ht.stack

lemma stackMove_of_step (hst : s.step a = some (.ok t)) : StackMove s t := by
  cases hstill : a.still with
  | true => exact .same (still_of_step hstill hst).stack
  | false =>
  cases transition_of hst with
  | @readQuery c _ cl _ hs =>
    by_cases hw : cl.rockKeyNumber > 0
    · exact .same (by simp [hw,hs])
    · exact .read c hs (by simp [hw])
  | handlerResume hs _ hck =>
    rcases checkCall_stack hck with ht | ⟨q,ht⟩
    · exact .same ht
    · exact .call _ q s.stack (.inr (.inl ⟨hs,hs⟩)) ht
  | checked hs _ _ _ _ hck =>
    rcases checkCall_stack hck with ht | ⟨q',ht⟩
    · exact .pop _ _ hs ht rfl
    · exact .call _ q' _ (.inl hs) ht
  | inputEnd hs | breakInput hs | ret hs => exact .pop _ _ hs rfl rfl
  | expired _ hu =>
    obtain ⟨db,b,rfl,_⟩ := op_keyspace hu
    exact .same rfl
  | @op _ o f rest _ hs hf =>
    cases f with
    | input c => cases hf
    | call k p =>
      cases p with
      | luaCall lua q' d fx =>
        exact .phase k k _ (.luaCall lua q' d (fx ++ [o])) rest hs rfl rfl rfl (by simp)
          (by simp [Phase.inExec])
      | proc =>
        exact .phase k { k with effects := k.effects ++ [o] } _ .proc rest hs rfl rfl rfl (by simp)
          (by simp [Phase.inExec])
      | _ => cases hf
  | procEnd hs | procEval hs | replicateCommands hs | redisCall hs | luaRetReplicated hs | luaRet hs
  | scriptExit hs | keysFinished hs | finishKey hs | scriptResumed hs =>
    exact .phase _ _ _ _ _ hs rfl rfl rfl (by simp) (by simp [Phase.inExec])
  | procExec hs hcl hk =>
    refine .phase _ _ _ _ _ hs rfl rfl rfl (fun qs mp he => ?_) (fun _ => .inl rfl)
    cases he
    exact .inr ⟨rfl,hk,by rw [hcl]; rfl⟩
  | execEnd hs =>
    exact .phase _ _ _ _ _ hs rfl rfl rfl (by simp)
      (fun _ => .inr (by simp [setClient,Client.discard]))
  | @execNext denied k rest _ mp q qs hs hcl =>
    cases denied with
    | true =>
      refine .phase k k _ _ rest hs rfl rfl rfl (fun qs' mp' he => ?_) (fun _ => .inl rfl)
      cases he
      exact .inl ⟨q,mp,rfl⟩
    | false => exact .exec k q qs mp _ rest hs (by simp [hcl]) rfl
  | scriptResume hs hck =>
    rcases checkCall_stack hck with ht | ⟨q,ht⟩
    · exact .phase _ _ _ _ _ hs ht rfl rfl (by simp) (by simp [Phase.inExec])
    · exact .call _ q _ (.inr (.inr ⟨_,_,_,hs,rfl⟩)) ht
  | accept | freeClient | handlerResumed | refused | queued | selectDb | luaSelectDb
  | killClient => exact .same rfl
  | _ => cases hstill

def due (s : Server n) : List ClientId := s.handler.active ++ s.stack.flatMap Frame.due

lemma count_active (fs : List (Frame n)) (c : ClientId) : (fs.flatMap Frame.active).count c =
      fs.count (.input c) + (fs.flatMap Frame.due).count c := by
  induction fs with
  | nil => rfl
  | cons f fs ih =>
    rw [flatMap_cons,flatMap_cons,count_append,count_append,ih]
    cases f with
    | input c' =>
      by_cases hc : c' = c
      · subst hc
        simp only [Frame.active,Frame.due,count_cons_self,count_nil]
        omega
      have hf : (Frame.input c' : Frame n) ≠ .input c := by simpa using hc
      simp [Frame.active,Frame.due,hc,count_cons_of_ne hf]
    | call k p =>
      have hk : (Frame.call k p).active = (Frame.call k p).due := by cases p <;> rfl
      rw [hk,count_cons_of_ne (by simp)]
      omega

lemma count_input_add_due_le_one (h : WaitInv s) (c : ClientId) :
    s.stack.count (.input c) + s.due.count c ≤ 1 := by
  have hn := nodup_iff_count_le_one.mp h.nodup c
  rw [active,count_append,count_active] at hn
  rw [due,count_append]
  omega

lemma notMem_due_of_input (h : WaitInv s) (hi : .input c ∈ s.stack) : c ∉ s.due := by
  intro hc
  have hle := count_input_add_due_le_one h c
  have hi := count_pos_iff.mpr hi
  have hc := count_pos_iff.mpr hc
  omega

lemma input_notMem_tail (h : WaitInv s) (hs : s.stack = .input c :: rest) : .input c ∉ rest := by
  intro hm
  have hle := count_input_add_due_le_one h c
  have hm := count_pos_iff.mpr hm
  rw [hs,count_cons_self] at hle
  omega

inductive QueueMove (s t : Server n) (a : Act n) (c : ClientId) (cl' : Client n) : Prop where
  | same (cl : Client n) (hcl : s.clients c = some cl) (h : cl'.mstate = cl.mstate)
  | accept (ha : a = .accept c) (hs : s.stack = []) (ht : t.stack = []) (h : cl'.mstate = [])
  | queue (cl : Client n) (q : Command) (qs : List Command) (rest : List (Frame n)) (pick : Sds)
      (ha : a = .nextCommand none pick) (hs : s.stack = .input c :: rest)
      (hcl : s.clients c = some cl) (hqb : cl.querybuf = q :: qs) (hz : cl.rockKeyNumber = 0)
      (hm : cl.multi = true) (hq : q.cmd.proc.skipsQueue = false) (ht : t.stack = s.stack)
      (h : cl'.mstate = cl.mstate ++ [q])
  | reset (k : Call n) (p : Phase n) (rest : List (Frame n)) (hs : s.stack = .call k p :: rest)
      (ht : t.stack = .call k .done :: rest) (hc : k.client = c)
      (hk : k.cmd.cmd.proc.skipsQueue = true ∨ ∃ mp, p = .exec [] mp) (h : cl'.mstate = [])

section
variable {c : ClientId} {cl' : Client n}
variable {x : ClientId}

lemma QueueMove.of_eq (hcl : t.clients = s.clients) (hc : t.clients c = some cl') :
    QueueMove s t a c cl' :=
  .same cl' (hcl ▸ hc) rfl

lemma QueueMove.setClient {cl y : Client n} (ht : t.clients = (s.setClient x (some y)).clients)
    (hx : s.clients x = some cl) (hy : y.mstate = cl.mstate) (hc : t.clients c = some cl') :
    QueueMove s t a c cl' := by
  rw [ht,set_clients] at hc
  split at hc
  · rename_i hxc
    subst hxc
    cases hc
    exact .same cl hx hy
  · exact .same cl' hc rfl

lemma QueueMove.of_freeClient (hc : (s.freeClient x).clients c = some cl') :
    QueueMove s t a c cl' := by
  simp only [freeClient,set_clients] at hc
  split at hc
  · cases hc
  · exact .same cl' hc rfl

lemma QueueMove.of_still (h : Still s t) (hc : t.clients c = some cl') :
    QueueMove s t a c cl' := by
  obtain ⟨cl,hcl,he⟩ := h.client hc
  exact .same cl hcl (control_eq he).2.2.1

lemma QueueMove.of_check {r : Server n} (hck : r.checkThenCall x pick = .ok t)
    (hc : t.clients c = some cl') (hr : ∀ y, r.clients c = some y → QueueMove s t a c y) :
    QueueMove s t a c cl' := by
  have hcl : ∃ y, r.clients c = some y ∧ cl'.control = y.control := by
    obtain ⟨cl,q,keys,errs,_,_,_,hres⟩ := checkCall_control hck
    rcases hres with ⟨_,ht⟩ | ⟨_,ht⟩
    all_goals exact ht.client hc
  obtain ⟨y,hy,he⟩ := hcl
  have hm := (control_eq he).2.2.1
  cases hr y hy with
  | same cl hcl h => exact .same cl hcl (hm.trans h)
  | accept ha hs ht h => exact .accept ha hs ht (hm.trans h)
  | queue cl q qs rest pick ha hs hcl hqb hz hm' hq ht h =>
    exact .queue cl q qs rest pick ha hs hcl hqb hz hm' hq ht (hm.trans h)
  | reset k p rest hs ht hk hk' h => exact .reset k p rest hs ht hk hk' (hm.trans h)

lemma queueMove_of_step (hst : s.step a = some (.ok t)) (hc : t.clients c = some cl') :
    QueueMove s t a c cl' := by
  cases hstill : a.still with
  | true => exact .of_still (still_of_step hstill hst) hc
  | false =>
  cases transition_of hst with
  | accept hs =>
    rw [set_clients] at hc
    split at hc
    · rename_i hx
      subst hx
      cases hc
      exact .accept rfl hs hs rfl
    · exact .same cl' hc rfl
  | readQuery hcl | refused _ hcl | selectDb _ _ hcl => exact .setClient rfl hcl rfl hc
  | freeClient | killClient => exact .of_freeClient hc
  | handlerResume _ _ hck | scriptResume _ hck => exact .of_check hck hc fun y hy => .same y hy rfl
  | @queued pick _ rest cl q qs hs hcl hqb hz hm hq =>
    rw [set_clients] at hc
    split at hc
    · rename_i hx
      subst hx
      cases hc
      exact .queue cl q qs rest pick rfl hs hcl hqb hz hm hq rfl rfl
    · exact .same cl' hc rfl
  | checked _ hcl _ _ _ hck =>
    refine .of_check hck hc fun y hy => ?_
    simp only [set_clients] at hy
    split at hy
    · rename_i hx
      subst hx
      cases hy
      exact .same _ hcl rfl
    · exact .same y hy rfl
  | expired _ hu | op _ _ _ _ hu =>
    obtain ⟨db,b,rfl,_⟩ := op_keyspace hu
    exact .of_eq rfl hc
  | @procEnd _ k rest _ _ hs hcl he =>
    rcases he.mstate with hm | ⟨hk,hm⟩
    · exact .setClient (s := s) rfl hcl hm hc
    rw [set_clients] at hc
    split at hc
    · rename_i hx
      cases hc
      exact .reset k .proc rest hs rfl hx.symm (.inl hk) hm
    · exact .same cl' hc rfl
  | @execEnd _ k rest _ mp hs =>
    simp only [set_clients] at hc
    split at hc
    · rename_i hx
      cases hc
      exact .reset k (.exec [] mp) rest hs rfl hx.symm (.inr ⟨mp,rfl⟩) rfl
    · exact .same cl' hc rfl
  | ret _ hcl hy =>
    refine .setClient (s := s) rfl hcl ?_ hc
    rcases hy with rfl | ⟨_,rfl⟩
    · rfl
    · rfl
  | redisCall _ _ _ hu =>
    obtain ⟨db,l,m,r,ps,rfl,_⟩ := luaCall_script hu
    exact .of_eq rfl hc
  | finishKey _ hu =>
    have hst := scriptKey_still hu
    obtain ⟨cl,hcl,he⟩ := hst.client hc
    exact .same cl hcl (control_eq he).2.2.1
  | handlerResumed | inputEnd | breakInput | luaSelectDb | procExec | procEval | execNext
  | replicateCommands | luaRetReplicated | luaRet | scriptExit | keysFinished | scriptResumed =>
    exact .of_eq rfl hc
  | _ => cases hstill

end

/-- The stack is nested as the source nests its calls; an EXEC works off the rest
of its client's queue, which holds no command that is never queued. -/
structure StackInv (s : Server n) : Prop where
  wait : WaitInv s
  nested : Nested s.stack
  exec : ∀ k qs mp, .call k (.exec qs mp) ∈ s.stack → k.cmd.cmd.proc = .exec
  rest : ∀ k qs mp cl, .call k (.exec qs mp) ∈ s.stack → s.clients k.client = some cl →
    qs <:+ cl.mstate
  queue : ∀ c cl, s.clients c = some cl → ∀ q ∈ cl.mstate, q.cmd.proc.skipsQueue = false

namespace StackInv

lemma init (cfg : Config) : StackInv (initServer n cfg) where
  wait := .init cfg
  nested := .nil
  exec := by simp [initServer]
  rest := by simp [initServer]
  queue := by simp [initServer]

lemma exec_of_step (hst : s.step a = some (.ok t)) {k : Call n} {qs : List Command} {mp : Bool}
    (hk : .call k (.exec qs mp) ∈ t.stack) :
    (∃ (k₀ : Call n) (qs' : List Command) (mp' : Bool), .call k₀ (.exec qs' mp') ∈ s.stack ∧
      k₀.client = k.client ∧ k₀.cmd = k.cmd ∧ qs <:+ qs') ∨
    k.cmd.cmd.proc = .exec ∧ (s.clients k.client).map mstate = some qs ∧
      ∃ (k₀ : Call n) (rest : List (Frame n)), s.stack = .call k₀ .proc :: rest ∧
        k₀.client = k.client ∧ k₀.cmd.cmd.proc = .exec := by
  have hold : .call k (.exec qs mp) ∈ s.stack → ∃ (k₀ : Call n) (qs' : List Command) (mp' : Bool),
      .call k₀ (.exec qs' mp') ∈ s.stack ∧ k₀.client = k.client ∧ k₀.cmd = k.cmd ∧ qs <:+ qs' :=
    fun hm => ⟨k,qs,mp,hm,rfl,rfl,suffix_refl qs⟩
  cases stackMove_of_step hst with
  | same ht => exact .inl (hold (ht ▸ hk))
  | read c hs ht => simp [ht] at hk
  | pop f rest hs ht hf => exact .inl (hold (by simp [hs,← ht,hk]))
  | phase k₀ k' p p' rest hs ht hc hq he hx =>
    rw [ht] at hk
    rcases mem_cons.mp hk with heq | hm
    · cases heq
      rcases he qs mp rfl with ⟨q,mp',rfl⟩ | ⟨rfl,hp,hms⟩
      · exact .inl ⟨k₀,q :: qs,mp',by simp [hs],hc.symm,hq.symm,suffix_cons q qs⟩
      · exact .inr ⟨by rw [hq,hp],by rw [hc,hms],k₀,rest,hs,hc.symm,hp⟩
    · exact .inl (hold (by simp [hs,hm]))
  | exec k₀ q qs' mp₀ mp' rest hs hcl ht =>
    rw [ht] at hk
    rcases mem_cons.mp hk with heq | hm
    · cases heq
    rcases mem_cons.mp hm with heq | hm
    · cases heq
      exact .inl ⟨k,q :: qs,mp₀,by simp [hs],rfl,rfl,suffix_cons q qs⟩
    · exact .inl (hold (by simp [hs,hm]))
  | call c q below hb ht =>
    rw [ht] at hk
    have hm : .call k (.exec qs mp) ∈ below := by simpa using hk
    rcases hb with hs | ⟨_,rfl⟩ | ⟨k₀,cs,rest,hs,rfl⟩
    · exact .inl (hold (by simp [hs,hm]))
    · cases hm
    · exact .inl (hold (by simpa [hs] using hm))

section
variable (h : StackInv s)
include h

lemma no_exec_of_input (hs : s.stack = .input c :: rest) (k : Call n)
    (p : Phase n) (hc : k.client = c) : .call k p ∉ s.stack := by
  intro hm
  have hn := h.nested
  rw [hs] at hn hm
  have hm := (mem_cons.mp hm).resolve_left (by simp)
  exact input_notMem_tail h.wait hs (hc ▸ hn.tail.input_mem k p hm)

lemma no_exec_under {k₀ : Call n} {p₀ : Phase n}
    (hs : s.stack = .call k₀ p₀ :: rest) (hq : k₀.cmd.cmd.proc.skipsQueue = true) (k : Call n)
    (p : Phase n) (hc : k.client = k₀.client) : .call k p ∉ rest := by
  intro hm
  have hn := h.nested
  rw [hs] at hn
  obtain ⟨rest',rfl⟩ := hn.under_of_skipsQueue hq
  have hm := (mem_cons.mp hm).resolve_left (by simp)
  have hi := hn.tail.tail.input_mem k p hm
  have hle := count_input_add_due_le_one h.wait k₀.client
  have hpos := count_pos_iff.mpr (hc ▸ hi)
  rw [hs,count_cons_of_ne (by simp),count_cons_self] at hle
  omega

section
variable (hst : s.step a = some (.ok t))
include hst

lemma nested_step : Nested t.stack := by
  cases stackMove_of_step hst with
  | same ht =>
    rw [ht]
    exact h.nested
  | read c hs ht =>
    rw [ht]
    exact .input c .nil (.inl rfl)
  | pop f rest hs ht hf =>
    have hn := h.nested
    rw [hs] at hn
    rw [ht]
    exact hn.tail
  | phase k k' p p' rest hs ht hc hq he hx =>
    have hn := h.nested
    rw [hs] at hn
    rw [ht]
    exact hn.phase hc hq
  | exec k q qs mp mp' rest hs hcl ht =>
    have hn := h.nested
    rw [hs] at hn
    rw [ht]
    obtain ⟨cl,hcl⟩ := ne_none_iff_exists'.mp hcl
    have hmem : q ∈ cl.mstate := (h.rest k (q :: qs) mp cl (by simp [hs]) hcl).subset (by simp)
    exact .exec _ _ k qs mp' (hn.phase rfl rfl) rfl (h.queue k.client cl hcl q hmem)
  | call c q below hb ht =>
    rw [ht]
    refine .call ⟨c,q,s.dirty,[],false⟩ .proc ?_
    rcases hb with hs | ⟨_,rfl⟩ | ⟨k,cs,rest,hs,rfl⟩
    · exact hs ▸ h.nested
    · exact .input c .nil (.inl rfl)
    have hn := h.nested
    rw [hs] at hn
    exact .input c (hn.phase rfl rfl) (.inr ⟨k,cs,rest,rfl⟩)

lemma exec_step (k : Call n)
    (qs : List Command) (mp : Bool) (hk : .call k (.exec qs mp) ∈ t.stack) :
    k.cmd.cmd.proc = .exec := by
  rcases exec_of_step hst hk with ⟨k₀,qs',mp',hm,_,hq,_⟩ | ⟨hp,_⟩
  · rw [← hq]
    exact h.exec k₀ qs' mp' hm
  · exact hp

lemma rest_step (k : Call n)
    (qs : List Command) (mp : Bool) (cl' : Client n) (hk : .call k (.exec qs mp) ∈ t.stack)
    (hc : t.clients k.client = some cl') : qs <:+ cl'.mstate := by
  cases queueMove_of_step hst hc with
  | same cl hcl hm =>
    rw [hm]
    rcases exec_of_step hst hk with ⟨k₀,qs',mp',hmem,hk₀,_,hsuf⟩ | ⟨_,hms,_⟩
    · exact hsuf.trans (h.rest k₀ qs' mp' cl hmem (hk₀ ▸ hcl))
    rw [hcl,map_some,some.injEq] at hms
    rw [hms]
  | accept ha hs ht hm =>
    rw [ht] at hk
    cases hk
  | queue cl q qs' rest pick ha hs hcl hqb hz hmul hq ht hm =>
    exact absurd (ht ▸ hk) (h.no_exec_of_input hs k _ rfl)
  | reset k₀ p rest hs ht hk₀ hp hm =>
    have hskip : k₀.cmd.cmd.proc.skipsQueue = true := by
      rcases hp with hp | ⟨mp',rfl⟩
      · exact hp
      rw [h.exec k₀ [] mp' (by simp [hs])]
      rfl
    rw [ht] at hk
    have hmem := (mem_cons.mp hk).resolve_left (by simp)
    exact absurd hmem (h.no_exec_under hs hskip k _ hk₀.symm)

lemma queue_step (c : ClientId) (cl' : Client n) (hc : t.clients c = some cl') :
    ∀ q ∈ cl'.mstate, q.cmd.proc.skipsQueue = false := by
  cases queueMove_of_step hst hc with
  | same cl hcl hm =>
    rw [hm]
    exact h.queue c cl hcl
  | accept ha hs ht hm => simp [hm]
  | queue cl q qs rest pick ha hs hcl hqb hz hmul hq ht hm =>
    rw [hm]
    intro q' hq'
    rcases mem_append.mp hq' with hq' | hq'
    · exact h.queue c cl hcl q' hq'
    rcases mem_singleton.mp hq' with rfl
    exact hq
  | reset k p rest hs ht hk hp hm => simp [hm]

lemma step : StackInv t where
  wait := (h.wait.step hst).1
  nested := h.nested_step hst
  exec := h.exec_step hst
  rest := h.rest_step hst
  queue := h.queue_step hst

end

end

end StackInv

end Server
end RedRock
