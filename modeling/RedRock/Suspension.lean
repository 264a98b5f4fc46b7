import RedRock.CallStack
import RedRock.Flag

/-!
A client is suspended from the moment its command is made to wait until the command
is handed to `call`: while it waits for keys, and while it stands in a list of
clients to be resumed.
-/

namespace RedRock
open Lib List Option Function Server

inductive Outcome where
  | refused
  | queued
  | called
  deriving DecidableEq

namespace Server
variable {n : Nat} {s t u : Server n} {a : Act n} {c : ClientId}
variable {rest : List (Frame n)} {x : ClientId} {pick : Sds} {cl : Client n} {reject : Option Bool}
  {r : Server n} {q : Command} {qs : List Command} {f : Frame n}

def suspended (s : Server n) (c : ClientId) : Prop := 0 < s.waits c ∨ c ∈ s.due

instance (s : Server n) (c : ClientId) : Decidable (s.suspended c) :=
  inferInstanceAs (Decidable (_ ∨ _))

/-- What a client has sent and what is not settled yet: its input buffer, and the
command in `argv` if the client is suspended. -/
def unhandled (s : Server n) (c : ClientId) : Option (List Command × Option (Option Command)) :=
  (s.clients c).map fun cl => (cl.querybuf,if s.suspended c then some cl.current else none)

def newCall (s t : Server n) (c : ClientId) : Option Command :=
  match t.stack with
  | .call k .proc :: .input _ :: _ =>
    if s.stack.length < t.stack.length ∧ k.client = c then some k.cmd else none
  | _ => none

def skipped (s : Server n) (a : Act n) (c : ClientId) : Option (Command × Outcome) :=
  match a, s.stack, s.clients c with
  | .nextCommand reject _, .input c' :: _, some cl =>
    match cl.querybuf with
    | q :: _ =>
      if c' = c ∧ cl.rockKeyNumber = 0 then
        if reject.isSome then some (q,.refused)
        else if cl.multi && !q.cmd.proc.skipsQueue then some (q,.queued)
        else none
      else none
    | [] => none
  | _, _, _ => none

def resumes (s : Server n) (a : Act n) : Option ClientId :=
  match a, s.stack, s.handler with
  | .handlerResume _, [], .clearFinish (c :: _) => some c
  | .scriptResume _, .call _ (.resume (c :: _)) :: _, _ => some c
  | _, _, _ => none

lemma due_of_cons (h : s.stack = f :: rest) :
    s.due = s.handler.active ++ (f.due ++ rest.flatMap Frame.due) := by
  simp [due,h]

lemma due_top {f g : Frame n} (hs : s.stack = f :: rest) (ht : t.stack = g :: rest)
    (hh : t.handler = s.handler) (hd : g.due = f.due) : t.due = s.due := by
  rw [due_of_cons hs,due_of_cons ht,hh,hd]

lemma due_pop (hs : s.stack = f :: rest) (ht : t.stack = rest) (hh : t.handler = s.handler)
    (hd : f.due = []) : t.due = s.due := by
  rw [due_of_cons hs,due,ht,hh,hd,nil_append]

lemma not_suspended_of_input (h : WaitInv s) (hi : .input c ∈ s.stack) : ¬ s.suspended c := by
  rintro (hw | hd)
  · have hz := h.idle c (by
      unfold active
      exact mem_append_right _ (mem_flatMap.mpr ⟨_,hi,by simp [Frame.active]⟩))
    omega
  · exact notMem_due_of_input h hi hd

lemma waits_congr (h : t.clients c = s.clients c) : t.waits c = s.waits c := by
  rw [waits,waits,h]

lemma waits_live (h : 0 < s.waits c) : ∃ cl, s.clients c = some cl := by
  cases hc : s.clients c with
  | none => simp [waits,hc] at h
  | some cl => exact ⟨cl,rfl⟩

lemma unhandled_congr (hcl : (t.clients c).map (fun cl => (cl.querybuf,cl.current)) =
      (s.clients c).map fun cl => (cl.querybuf,cl.current))
    (hs : t.suspended c ↔ s.suspended c) : t.unhandled c = s.unhandled c := by
  unfold unhandled
  cases ht : t.clients c with
  | none =>
    cases hc : s.clients c with
    | none => rfl
    | some cl => simp [ht,hc] at hcl
  | some cl' =>
    cases hc : s.clients c with
    | none => simp [ht,hc] at hcl
    | some cl =>
      rw [ht,hc,map_some,map_some,some.injEq,Prod.mk.injEq] at hcl
      simp [hcl.1,hcl.2,hs]

lemma unhandled_of_suspended (hc : s.clients c = some cl) (hs : s.suspended c) :
    s.unhandled c = some (cl.querybuf,some cl.current) := by
  rw [unhandled,hc,map_some,if_pos hs]

lemma unhandled_of_idle (hc : s.clients c = some cl) (hs : ¬ s.suspended c) :
    s.unhandled c = some (cl.querybuf,none) := by
  rw [unhandled,hc,map_some,if_neg hs]

lemma unhandled_of_settled (cl : Client n) (hc : s.clients c = some cl)
    (hz : cl.rockKeyNumber = 0) (hd : c ∉ s.due) : s.unhandled c = some (cl.querybuf,none) := by
  refine unhandled_of_idle hc ?_
  rintro (hw | hdue)
  · simp [waits,hc,hz] at hw
  · exact hd hdue

lemma newCall_length (h : t.stack.length ≤ s.stack.length) : newCall s t c = none := by
  unfold newCall
  split
  · rw [if_neg]
    omega
  · rfl

lemma decr_suspended {cs zs : List ClientId}
    (h : s.decrRockKeyNumbers cs = .ok (t,zs)) (c : ClientId) :
    0 < t.waits c ∨ c ∈ zs ↔ 0 < s.waits c := by
  obtain ⟨rfl,hle,_,hmem⟩ := decr_ok h
  rw [hmem]
  cases hc : s.clients c with
  | none => simp [waits,hc]
  | some cl =>
    simp only [waits,hc,map_some,getD_some,some.injEq,exists_eq_left']
    by_cases hm : c ∈ cs
    · have hpos := count_pos_iff.mpr hm
      obtain ⟨cl',hcl',hle'⟩ := hle c hm
      rw [hc,some.injEq] at hcl'
      subst hcl'
      simp only [hm,true_and]
      omega
    have hz := count_eq_zero_of_not_mem hm
    simp [hm,hz]

inductive ClientMove (s t : Server n) (a : Act n) (c : ClientId) : Prop where
  | gone (ha : a = .freeClient c ∧ s.due = [] ∨ a = .killClient c) (h : t = s.freeClient c)
  | accept (ha : a = .accept c) (hs : s.clients c = none) (ht : t.clients c = some (createClient n))
      (hd : s.due = [] ∧ t.due = []) (hn : newCall s t c = none)
  | read (cl : Client n) (cmds : List Command) (ha : a = .readQuery c cmds)
      (hcl : s.clients c = some cl)
      (ht : t.clients c = some { cl with querybuf := cl.querybuf ++ cmds })
      (hd : t.due = s.due) (hn : newCall s t c = none)
  | keep (ha : a ≠ .accept c ∧ ∀ cmds, a ≠ .readQuery c cmds) (hk : s.skipped a c = none)
      (hcl : (t.clients c).map (fun cl => (cl.querybuf,cl.current)) =
        (s.clients c).map fun cl => (cl.querybuf,cl.current))
      (hs : t.suspended c ↔ s.suspended c) (hn : newCall s t c = none)
  | ret (cl : Client n) (k : Call n) (ha : a = .ret) (hk : .call k .done ∈ s.stack)
      (hc : k.client = c) (hcl : s.clients c = some cl)
      (ht : t.clients c = some { cl with current := none }) (hd : t.due = s.due)
      (hn : newCall s t c = none)
  | skip (cl y : Client n) (q : Command) (qs : List Command) (o : Outcome)
      (hs : .input c ∈ s.stack) (hcl : s.clients c = some cl) (hqb : cl.querybuf = q :: qs)
      (hk : s.skipped a c = some (q,o)) (ho : o ≠ .called) (ht : t.clients c = some y)
      (hy : y.querybuf = qs ∧ y.current = cl.current ∧ y.rockKeyNumber = cl.rockKeyNumber)
      (hd : t.due = s.due) (hn : newCall s t c = none)
  | next (cl y : Client n) (q : Command) (qs : List Command) (pick : Sds)
      (ha : a = .nextCommand none pick) (hs : s.stack.head? = some (.input c))
      (hcl : s.clients c = some cl) (hqb : cl.querybuf = q :: qs) (hz : cl.rockKeyNumber = 0)
      (hm : cl.multi = true → q.cmd.proc.skipsQueue = true) (hk : s.skipped a c = none)
      (ht : t.clients c = some y) (hy : y.querybuf = qs ∧ y.current = some q)
      (hno : q.cmd.checkRockProc = none → cl.multi = false → y.rockKeyNumber = 0)
      (hd : t.due = s.due)
      (hres : y.rockKeyNumber = 0 ∧ newCall s t c = some q ∨
        0 < y.rockKeyNumber ∧ newCall s t c = none)
  | resume (cl y : Client n) (q : Command) (ha : s.resumes a = some c)
      (hcl : s.clients c = some cl) (hq : cl.current = some q) (ht : t.clients c = some y)
      (hy : y.querybuf = cl.querybuf ∧ y.current = some q)
      (hd : s.due.count c = t.due.count c + 1)
      (hres : y.rockKeyNumber = 0 ∧ newCall s t c = some q ∨
        0 < y.rockKeyNumber ∧ newCall s t c = none)

def Act.keepsInput {n : Nat} (c : ClientId) : Act n → Prop
  | .accept x => x ≠ c
  | .readQuery x _ => x ≠ c
  | .nextCommand _ _ => False
  | _ => True

lemma checkCall_client (hck : r.checkThenCall c pick = .ok t) :
    ∃ cl q y, r.clients c = some cl ∧ cl.current = some q ∧ t.due = r.due ∧
      (∀ x ≠ c, t.clients x = r.clients x) ∧ t.clients c = some y ∧
      (y.querybuf = cl.querybuf ∧ y.current = some q) ∧
      (q.cmd.checkRockProc = none → cl.multi = false → y.rockKeyNumber = 0) ∧
      (y.rockKeyNumber = 0 ∧ t.stack = .call ⟨c,q,r.dirty,[],false⟩ .proc :: .input c :: r.stack ∨
       0 < y.rockKeyNumber ∧ t.stack = r.stack) := by
  obtain ⟨cl,q,keys,errs,hcl,hz,hq,hchk,hres⟩ := checkCall_ok hck
  have hno : q.cmd.checkRockProc = none → cl.multi = false → keys = [] := by
    intro hp hm
    simp only [checkRock,hm,Bool.false_eq_true,if_false,checkRockForSingleCmd,checkRockForCmd,hp,
      Except.ok.injEq,Prod.mk.injEq] at hchk
    exact hchk.1.symm
  refine ⟨cl,q,{ cl with rockKeyNumber := keys.length, reply := cl.reply ++ errs },hcl,hq,?_⟩
  rcases hres with ⟨rfl,rfl⟩ | ⟨hne,hj⟩
  · refine ⟨rfl,fun x hx => by simp [set_clients,hx],by simp [setClient],⟨rfl,hq⟩,
      fun _ _ => rfl,.inl ⟨rfl,rfl⟩⟩
  have hpos : 0 < keys.length := length_pos_iff.mpr hne
  have hothers : ∀ x ≠ c, (r.registerWaiter c cl keys errs).clients x = r.clients x := by
    intro x hx
    simp [registerWaiter,updDb,setClient,hx]
  have hself : (r.registerWaiter c cl keys errs).clients c = some { cl with
      rockKeyNumber := keys.length, reply := cl.reply ++ errs } := by
    simp [registerWaiter,updDb,setClient]
  have hzero : q.cmd.checkRockProc = none → cl.multi = false → keys.length = 0 := by
    intro hp hm
    rw [hno hp hm]
    rfl
  rcases startJob_ok hj with ⟨_,rfl⟩ | ⟨_,_,_,d,key,_,rfl⟩
  all_goals exact ⟨rfl,hothers,hself,⟨rfl,hq⟩,hzero,.inr ⟨hpos,rfl⟩⟩

section
variable (ha : Act.keepsInput c a)
include ha

lemma ClientMove.of_keeps (hcl : (t.clients c).map (fun cl => (cl.querybuf,cl.current)) =
      (s.clients c).map fun cl => (cl.querybuf,cl.current))
    (hs : t.suspended c ↔ s.suspended c) (hn : newCall s t c = none) : ClientMove s t a c := by
  refine .keep ?_ ?_ hcl hs hn
  · constructor
    · rintro rfl
      exact ha rfl
    rintro cmds rfl
    exact ha rfl
  cases a with
  | nextCommand reject pick => exact ha.elim
  | _ => rfl

lemma ClientMove.of_eq (hcl : t.clients = s.clients)
    (hd : t.due = s.due) (hn : t.stack.length ≤ s.stack.length) : ClientMove s t a c := by
  refine .of_keeps ha (by rw [hcl]) ?_ (newCall_length hn)
  rw [suspended,suspended,waits,waits,hcl,hd]

lemma ClientMove.setClient {cl y : Client n}
    (ht : t.clients = (s.setClient x (some y)).clients) (hx : s.clients x = some cl)
    (hqb : y.querybuf = cl.querybuf) (hcur : y.current = cl.current)
    (hw : y.rockKeyNumber = cl.rockKeyNumber) (hd : t.due = s.due)
    (hn : t.stack.length ≤ s.stack.length) : ClientMove s t a c := by
  have hcl : ∀ z, t.clients z = if z = x then some y else s.clients z := by
    intro z
    rw [ht,set_clients]
  refine .of_keeps ha ?_ ?_ (newCall_length hn)
  · rw [hcl]
    split
    · rename_i hz
      rw [hz,hx]
      simp [hqb,hcur]
    · rfl
  rw [suspended,suspended,waits,waits,hd,hcl]
  split
  · rename_i hz
    rw [hz,hx]
    simp [hw]
  · rfl

lemma ClientMove.of_freeClient
    (hx : a = .freeClient x ∧ s.due = [] ∨ a = .killClient x) (ht : t = s.freeClient x) :
    ClientMove s t a c := by
  subst ht
  by_cases hcx : c = x
  · subst hcx
    exact .gone hx rfl
  have hc : (s.freeClient x).clients c = s.clients c := by
    simp [freeClient,set_clients,hcx,releaseRockKeyWhenFreeClient]
  refine .of_keeps ha (by rw [hc]) ?_ (newCall_length le_rfl)
  rw [suspended,suspended,waits,waits,hc]
  rfl

end

lemma newCall_of_other {d : Nat} (ht : t.stack = .call ⟨x,q,d,[],false⟩ .proc :: .input x :: rest)
    (hcx : c ≠ x) : newCall s t c = none := by
  simp [newCall,ht,Ne.symm hcx]

lemma ClientMove.of_others (hk : s.skipped a c = none)
    (ha : a ≠ .accept c ∧ ∀ cmds, a ≠ .readQuery c cmds) (hrs : r.clients c = s.clients c)
    (hdr : c ∈ r.due ↔ c ∈ s.due) (hd : t.due = r.due) (hcl : t.clients c = r.clients c)
    (hn : newCall s t c = none) : ClientMove s t a c := by
  refine .keep ha hk (by rw [hcl,hrs]) ?_ hn
  rw [suspended,suspended,waits,waits,hcl,hrs,hd,hdr]

lemma ClientMove.of_skip {cl y : Client n} {o : Outcome} (hx : .input x ∈ s.stack)
    (hcl : s.clients x = some cl) (hqb : cl.querybuf = q :: qs)
    (hy : y.querybuf = qs ∧ y.current = cl.current ∧ y.rockKeyNumber = cl.rockKeyNumber)
    (ho : o ≠ .called) (hne : a ≠ .accept c ∧ ∀ cmds, a ≠ .readQuery c cmds)
    (hk : s.skipped a c = if c = x then some (q,o) else none) :
    ClientMove s (s.setClient x (some y)) a c := by
  by_cases hcx : c = x
  · subst hcx
    rw [if_pos rfl] at hk
    exact .skip cl y q qs o hx hcl hqb hk ho (by simp [set_clients]) hy rfl (newCall_length le_rfl)
  rw [if_neg hcx] at hk
  refine .of_others (r := s) hk hne rfl Iff.rfl rfl ?_ (newCall_length le_rfl)
  simp [set_clients,hcx]

section
variable (hs : s.stack = .input x :: rest)
include hs

lemma skipped_nextCommand (hcl : s.clients x = some cl)
    (hqb : cl.querybuf = q :: qs) (hz : cl.rockKeyNumber = 0) :
    s.skipped (.nextCommand reject pick) c = if c = x then
      if reject.isSome then some (q,.refused)
      else if cl.multi && !q.cmd.proc.skipsQueue then some (q,.queued)
      else none
    else none := by
  by_cases hcx : c = x
  · subst hcx
    simp [skipped,hs,hcl,hqb,hz]
  rw [if_neg hcx]
  unfold skipped
  split
  · rename_i heq hs' hcl'
    rw [hs] at hs'
    cases hs'
    split
    · rw [if_neg]
      exact fun hx => hcx hx.1.symm
    · rfl
  · rfl

lemma skipped_of_left (hcl : s.clients x = some cl)
    (hq : cl.querybuf = [] ∨ 0 < cl.rockKeyNumber) :
    s.skipped (.nextCommand reject pick) c = none := by
  unfold skipped
  split
  · rename_i heq hs' hcl'
    rw [hs] at hs'
    cases hs'
    split
    · rename_i q qs hqb
      rw [if_neg]
      rintro ⟨rfl,hz⟩
      rw [hcl,some.injEq] at hcl'
      subst hcl'
      rcases hq with hq | hq
      · rw [hq] at hqb
        cases hqb
      · omega
    · rfl
  · rfl

lemma clientMove_checked (hcl : s.clients x = some cl) (hqb : cl.querybuf = q :: qs)
    (hz : cl.rockKeyNumber = 0) (hskip : cl.multi = true → q.cmd.proc.skipsQueue = true)
    (hck : ({ s.setClient x (some { cl with querybuf := qs, current := some q }) with
      stack := rest }).checkThenCall x pick = .ok t) (c : ClientId) :
    ClientMove s t (.nextCommand none pick) c := by
  have hdr : due { s.setClient x (some { cl with querybuf := qs, current := some q }) with
      stack := rest } = s.due := due_pop hs rfl rfl rfl
  obtain ⟨cl',q',y,hcl',hcur,hd,hoth,hy,hyq,hno,hres⟩ := checkCall_client hck
  simp only [set_clients,if_true,some.injEq] at hcl'
  subst hcl'
  cases hcur
  have hk : s.skipped (.nextCommand none pick) c = none := by
    have hns : (cl.multi && !q.cmd.proc.skipsQueue) = false := by
      cases hmul : cl.multi with
      | false => rfl
      | true => simp [hskip hmul]
    simp [skipped_nextCommand hs hcl hqb hz,hns]
  by_cases hcx : c = x
  · subst hcx
    refine .next cl y q qs pick rfl (by simp [hs]) hcl hqb hz hskip hk hy hyq hno (hd.trans hdr) ?_
    rcases hres with ⟨hz',ht⟩ | ⟨hpos,ht⟩
    · exact .inl ⟨hz',by simp [newCall,ht,hs]⟩
    · exact .inr ⟨hpos,newCall_length (by simp [ht,hs])⟩
  refine .of_others hk (by simp) ?_ (by rw [hdr]) hd (hoth c hcx) ?_
  · simp [set_clients,hcx]
  rcases hres with ⟨_,ht⟩ | ⟨_,ht⟩
  · exact newCall_of_other ht hcx
  · exact newCall_length (by simp [ht,hs])

end

lemma clientMove_resume (hck : r.checkThenCall x pick = .ok t) (hr : s.resumes a = some x)
    (hdr : ∀ c, s.due.count c = (if c = x then 1 else 0) + r.due.count c)
    (hcl : r.clients = s.clients) (hlen : r.stack.length = s.stack.length) (c : ClientId) :
    ClientMove s t a c := by
  obtain ⟨cl,q,y,hcl',hcur,hd,hoth,hy,hyq,_,hres⟩ := checkCall_client hck
  rw [hcl] at hcl'
  have hk : s.skipped a c = none := by
    cases a with
    | nextCommand reject pick => cases hr
    | _ => rfl
  have hne : a ≠ .accept c ∧ ∀ cmds, a ≠ .readQuery c cmds := by
    constructor
    · rintro rfl
      cases hr
    rintro cmds rfl
    cases hr
  by_cases hcx : c = x
  · subst hcx
    have hcount : s.due.count c = t.due.count c + 1 := by
      rw [hdr,if_pos rfl,hd]
      omega
    refine .resume cl y q hr hcl' hcur hy hyq hcount ?_
    rcases hres with ⟨hz,ht⟩ | ⟨hpos,ht⟩
    · have hlt : s.stack.length < s.stack.length + 1 + 1 := by omega
      exact .inl ⟨hz,by simp [newCall,ht,hlen,hlt]⟩
    · exact .inr ⟨hpos,newCall_length (by rw [ht,hlen])⟩
  have hmem : c ∈ r.due ↔ c ∈ s.due := by
    rw [← count_pos_iff,← count_pos_iff,hdr,if_neg hcx]
    omega
  refine .of_others hk hne (by rw [hcl]) hmem hd (hoth c hcx) ?_
  rcases hres with ⟨_,ht⟩ | ⟨_,ht⟩
  · exact newCall_of_other ht hcx
  · exact newCall_length (by rw [ht,hlen])

lemma clientMove_pipeReadable (hs : s.stack = []) (hidle : s.handler = .idle)
    (hh : s.rockPipeReadHandler = .ok t) (c : ClientId) : ClientMove s t .pipeReadable c := by
  obtain ⟨d,key,val,_,_,_,_,hcase⟩ := pipeHandler_ok hh
  rcases hcase with ⟨_,rfl⟩ | ⟨_,hcf⟩
  · refine .of_eq trivial rfl ?_ le_rfl
    simp [due,hidle,Handler.active]
  obtain ⟨u,clients,zs,v,hu,_,hv,rfl⟩ := clearFinishKey_ok hcf
  have hsu : u.clients = s.clients ∧ u.stack = s.stack := by
    obtain ⟨db,b,rfl,_⟩ := finished_keyspace hu
    exact ⟨rfl,rfl⟩
  have hstill := decr_still hv
  have hsusp := decr_suspended hv c
  have hdt : due { v.deleteRockKey d key with handler := .clearFinish zs } = zs := by
    simp [due,deleteRockKey,updDb,hstill.stack,hsu.2,hs,Handler.active]
  have hds : s.due = [] := by simp [due,hs,hidle,Handler.active]
  refine .of_keeps trivial ?_ ?_ (newCall_length ?_)
  · rw [(decr_ok hv).1]
    simp [deleteRockKey,updDb,hsu.1,comp_def]
  · rw [suspended,suspended,hdt,hds,← waits_congr (congrFun hsu.1 c),← hsusp]
    simp only [not_mem_nil,or_false]
    rfl
  · simp [deleteRockKey,updDb,hstill.stack,hsu.2]

lemma clientMove_finishKey {k : Call n} {m : ScriptMaybeKey n} {ms : List (ScriptMaybeKey n)}
    {zs zs' : List ClientId} (hs : s.stack = .call k (.finishKeys (m :: ms) zs) :: rest)
    (hu : s.finishKeyFromScript m = .ok (u,zs')) (c : ClientId) : ClientMove s
      { u with stack := .call k (.finishKeys ms (zs ++ zs')) :: rest } .finishKey c := by
  have hds := due_of_cons hs
  rcases scriptKey_ok hu with ⟨_,rfl,rfl⟩ | ⟨clients,v,w,_,hv,hw,rfl⟩
  · refine .of_eq trivial rfl (due_top hs rfl rfl ?_) (by simp [hs])
    simp [Frame.due]
  have hvw : w.clients = v.clients ∧ w.handler = v.handler := by
    rcases markFinished_ok hw with ⟨_,_,rfl⟩ | ⟨_,rfl⟩
    all_goals exact ⟨rfl,rfl⟩
  have hsusp := decr_suspended hv c
  have hsv : v.handler = s.handler := by rw [(decr_ok hv).1]
  have hdt : due { w.deleteRockKey m.dbid m.key with
      stack := .call k (.finishKeys ms (zs ++ zs')) :: rest } =
      s.handler.active ++ ((zs ++ zs') ++ rest.flatMap Frame.due) := by
    simp [due,deleteRockKey,updDb,hvw.2,hsv,Frame.due]
  refine .of_keeps trivial ?_ ?_ (newCall_length (by simp [hs]))
  · have hcv : (v.clients c).map (fun cl => (cl.querybuf,cl.current)) =
        (s.clients c).map fun cl => (cl.querybuf,cl.current) := by
      rw [(decr_ok hv).1]
      simp [comp_def]
    rw [← hcv,← hvw.1]
    rfl
  have hwt : waits { w.deleteRockKey m.dbid m.key with
      stack := .call k (.finishKeys ms (zs ++ zs')) :: rest } c = v.waits c :=
    waits_congr (congrFun hvw.1 c)
  rw [suspended,suspended,hdt,hds,hwt,← hsusp]
  simp only [mem_append,Frame.due]
  tauto

lemma clientMove_of_step (hst : s.step a = some (.ok t)) (c : ClientId) : ClientMove s t a c := by
  cases transition_of hst with
  | @accept x hs hidle hnone =>
    by_cases hcx : c = x
    · subst hcx
      have hd : s.due = [] := by simp [due,hs,hidle,Handler.active]
      exact .accept rfl hnone (by simp [set_clients]) ⟨hd,hd⟩ (newCall_length le_rfl)
    refine .of_others (r := s) rfl ?_ rfl Iff.rfl rfl ?_ (newCall_length le_rfl)
    · simp [Ne.symm hcx]
    · simp [set_clients,hcx]
  | @readQuery x cmds cl hcl hs hidle =>
    have hd : ∀ y, due { s.setClient x y with
        stack := if cl.rockKeyNumber > 0 then [] else [.input x] } = s.due := by
      intro y
      simp only [due,setClient,hs]
      split <;> rfl
    have hn : newCall s { s.setClient x (some { cl with querybuf := cl.querybuf ++ cmds }) with
        stack := if cl.rockKeyNumber > 0 then [] else [.input x] } c = none := by
      unfold newCall
      split
      · rename_i hstk
        simp only at hstk
        split at hstk <;> cases hstk
      · rfl
    by_cases hcx : c = x
    · subst hcx
      exact .read cl cmds rfl hcl (by simp [set_clients]) (hd _) hn
    refine .of_others (r := s) rfl ?_ rfl Iff.rfl (hd _) ?_ hn
    · simp [Ne.symm hcx]
    · simp [set_clients,hcx]
  | freeClient hs hidle =>
    exact .of_freeClient trivial (.inl ⟨rfl,by simp [due,hs,hidle,Handler.active]⟩) rfl
  | killClient => exact .of_freeClient trivial (.inr rfl) rfl
  | pipeReadable hs hidle _ hh => exact clientMove_pipeReadable hs hidle hh c
  | handlerResumed _ hh | handlerRead _ hh =>
    exact .of_eq trivial rfl (by simp [due,hh,Handler.active]) le_rfl
  | @handlerResume _ pick x _ hs hh hck =>
    have hr : s.resumes (.handlerResume pick) = some x := by simp [resumes,hs,hh]
    refine clientMove_resume hck hr (fun y => ?_) rfl rfl c
    by_cases hy : y = x
    · subst hy
      simp [due,hs,hh,Handler.active,add_comm]
    · simp [due,hs,hh,Handler.active,hy,count_cons_of_ne (Ne.symm hy)]
  | handlerMoreJob _ hh hs =>
    rcases moreJob_ok hs with ⟨_,_,_,_,rfl⟩ | ⟨_,rfl⟩
    · exact .of_eq trivial rfl (by simp [due,hh,arm,Handler.active]) le_rfl
    · exact .of_eq trivial rfl (by simp [due,hh,initZeroRockJob,Handler.active]) le_rfl
  | @inputEnd _ _ _ rest _ hs hcl hq =>
    have hd : due { s with stack := rest } = s.due := due_pop hs rfl rfl rfl
    refine .keep (by simp) (skipped_of_left hs hcl hq) rfl ?_ (newCall_length (by simp [hs]))
    rw [suspended,suspended,hd]
    rfl
  | refused hs hcl hqb hz =>
    refine .of_skip (by simp [hs]) hcl hqb ⟨rfl,rfl,rfl⟩ (o := .refused) (by simp) (by simp) ?_
    simp [skipped_nextCommand hs hcl hqb hz]
  | queued hs hcl hqb hz hm hq =>
    refine .of_skip (by simp [hs]) hcl hqb ⟨rfl,rfl,rfl⟩ (o := .queued) (by simp) (by simp) ?_
    simp [skipped_nextCommand hs hcl hqb hz,hm,hq]
  | checked hs hcl hqb hz hskip hck => exact clientMove_checked hs hcl hqb hz hskip hck c
  | breakInput hs => exact .of_eq trivial rfl (due_pop hs rfl rfl rfl) (by simp [hs])
  | initHotKeys _ _ hs =>
    rw [(initHotKeys_ok.mp hs).2.2]
    exact .of_eq trivial rfl rfl le_rfl
  | dump _ _ _ _ hs =>
    obtain ⟨_,_,_,_,_,_,_,rfl⟩ := dumpVal_ok.mp hs
    exact .of_eq trivial rfl rfl le_rfl
  | expired _ hu =>
    obtain ⟨db,b,rfl,_⟩ := op_keyspace hu
    exact .of_eq trivial rfl rfl le_rfl
  | @op _ _ f _ _ hs hf _ _ hu =>
    obtain ⟨db,b,rfl,_⟩ := op_keyspace hu
    refine .of_eq trivial rfl (due_top hs rfl rfl ?_) (by simp [hs])
    cases f with
    | input c => cases hf
    | call k p => cases p <;> rfl
  | selectDb _ _ hcl => exact .setClient trivial rfl hcl rfl rfl rfl rfl le_rfl
  | procEnd hs hcl he =>
    exact .setClient (s := s) trivial rfl hcl he.querybuf he.current he.rockKeyNumber
      (due_top hs rfl rfl rfl) (by simp [hs,setClient])
  | execEnd hs hcl =>
    exact .setClient trivial rfl hcl rfl rfl rfl (due_top hs rfl rfl rfl) (by simp [hs])
  | @execNext denied _ _ _ _ _ _ hs =>
    cases denied with
    | true => exact .of_eq trivial rfl (due_top hs rfl rfl rfl) (by simp [hs])
    | false =>
      refine .of_keeps trivial rfl ?_ rfl
      rw [suspended,suspended,due_of_cons hs]
      rfl
  | @ret k rest cl _ hs hcl hcl' =>
    have hd : ∀ ps y, due (({ s with stack := rest, propagated := ps }).setClient k.client y)
        = s.due := fun ps y => due_pop hs rfl rfl rfl
    have hn : ∀ ps y, newCall s (({ s with stack := rest, propagated := ps }).setClient k.client y)
        c = none := fun ps y => newCall_length (by simp [hs,setClient])
    rcases hcl' with rfl | ⟨_,rfl⟩
    · exact .setClient (s := s) trivial rfl hcl rfl rfl rfl (hd _ _) (by simp [hs,setClient])
    by_cases hck : c = k.client
    · exact .ret cl k rfl (by simp [hs]) hck.symm (hck ▸ hcl) (by simp [set_clients,hck])
        (hd _ _) (hn _ _)
    refine .of_others (r := s) rfl (by simp) rfl Iff.rfl (hd _ _) ?_ (hn _ _)
    simp [set_clients,hck]
  | redisCall hs _ _ hu =>
    obtain ⟨db,l,m,r,ps,rfl,_⟩ := luaCall_script hu
    exact .of_eq trivial rfl (due_top hs rfl rfl rfl) (by simp [hs])
  | finishKey hs hu => exact clientMove_finishKey hs hu c
  | @scriptResume _ pick _ rest x _ hs hck =>
    have hr : s.resumes (.scriptResume pick) = some x := by simp [resumes,hs]
    have hlen : s.stack.length = rest.length + 1 := by simp [hs]
    refine clientMove_resume hck hr (fun y => ?_) rfl hlen.symm c
    by_cases hy : y = x
    · subst hy
      simp only [due,hs,flatMap_cons,Frame.due,count_append,count_cons_self,if_true]
      omega
    simp only [due,hs,flatMap_cons,Frame.due,count_append,hy,if_false,count_cons_of_ne (Ne.symm hy)]
    omega
  | procExec hs | procEval hs | replicateCommands hs | luaRetReplicated hs | luaRet hs
  | scriptExit hs | keysFinished hs | scriptResumed hs =>
    exact .of_eq trivial rfl (due_top hs rfl rfl rfl) (by simp [hs])
  | _ => exact .of_eq trivial rfl rfl le_rfl

inductive InputMove (s t : Server n) (a : Act n) (c : ClientId) : Prop where
  | gone (ha : a = .freeClient c ∧ s.due = [] ∨ a = .killClient c) (h : t = s.freeClient c)
  | accept (ha : a = .accept c) (h : t.unhandled c = some ([],none)) (hn : newCall s t c = none)
  | read (cmds qb : List Command) (p : Option (Option Command)) (ha : a = .readQuery c cmds)
      (hs : s.unhandled c = some (qb,p)) (ht : t.unhandled c = some (qb ++ cmds,p))
      (hn : newCall s t c = none)
  | same (ha : a ≠ .accept c ∧ ∀ cmds, a ≠ .readQuery c cmds) (hk : s.skipped a c = none)
      (h : t.unhandled c = s.unhandled c) (hs : t.suspended c → s.suspended c)
      (hn : newCall s t c = none)
  | skip (q : Command) (qs : List Command) (o : Outcome) (hk : s.skipped a c = some (q,o))
      (ho : o ≠ .called) (hs : s.unhandled c = some (q :: qs,none))
      (ht : t.unhandled c = some (qs,none)) (hn : newCall s t c = none)
  | wait (q : Command) (qs : List Command) (pick : Sds) (ha : a = .nextCommand none pick)
      (hk : s.skipped a c = none) (hs : s.unhandled c = some (q :: qs,none))
      (ht : t.unhandled c = some (qs,some (some q))) (hn : newCall s t c = none)
  | call (q : Command) (qs : List Command) (pick : Sds) (ha : a = .nextCommand none pick)
      (hk : s.skipped a c = none) (hs : s.unhandled c = some (q :: qs,none))
      (ht : t.unhandled c = some (qs,none)) (hn : newCall s t c = some q)
  | resume (q : Command) (qb : List Command) (ha : s.resumes a = some c)
      (hs : s.unhandled c = some (qb,some (some q))) (ht : t.unhandled c = some (qb,none))
      (hn : newCall s t c = some q)

lemma suspended_congr {cl y : Client n} (hcl : s.clients c = some cl) (ht : t.clients c = some y)
    (hw : y.rockKeyNumber = cl.rockKeyNumber) (hd : t.due = s.due) :
    t.suspended c ↔ s.suspended c := by
  rw [suspended,suspended,waits_of_some hcl,waits_of_some ht,hw,hd]

lemma due_of_resumes (h : s.resumes a = some c) : c ∈ s.due := by
  unfold resumes at h
  split at h
  · rename_i hs hh
    cases h
    simp [due,hs,hh,Handler.active]
  · rename_i hs
    cases h
    simp [due,hs,Frame.due]
  · cases h

lemma inputMove_of_step (h : StackInv s) (hst : s.step a = some (.ok t)) (c : ClientId) :
    InputMove s t a c := by
  cases clientMove_of_step hst c with
  | gone ha ht => exact .gone ha ht
  | accept ha hs ht hd hn => exact .accept ha (unhandled_of_settled _ ht rfl (by simp [hd.2])) hn
  | read cl cmds ha hcl ht hd hn =>
    have hsus := suspended_congr hcl ht rfl hd
    refine .read cmds cl.querybuf (if s.suspended c then some cl.current else none) ha ?_ ?_ hn
    · rw [unhandled,hcl]
      rfl
    rw [unhandled,ht,map_some]
    simp only [hsus]
  | keep ha hk hcl hs hn => exact .same ha hk (unhandled_congr hcl hs) hs.mp hn
  | ret cl k ha hk hc hcl ht hd hn =>
    subst hc
    have hns : ¬ s.suspended k.client :=
      not_suspended_of_input h.wait (h.nested.input_mem k .done hk)
    have hsus := suspended_congr hcl ht rfl hd
    refine .same (by simp [ha]) (by rw [ha]; rfl) ?_ hsus.mp hn
    rw [unhandled_of_idle hcl hns,unhandled_of_idle ht fun hs => hns (hsus.mp hs)]
  | skip cl y q qs o hs hcl hqb hk ho ht hy hd hn =>
    have hns : ¬ s.suspended c := not_suspended_of_input h.wait hs
    have hsus := suspended_congr hcl ht hy.2.2 hd
    refine .skip q qs o hk ho ?_ ?_ hn
    · rw [unhandled_of_idle hcl hns,hqb]
    · rw [unhandled_of_idle ht fun hs => hns (hsus.mp hs),hy.1]
  | next cl y q qs pick ha hs hcl hqb hz hm hk ht hy hno hd hres =>
    have hns : ¬ s.suspended c := not_suspended_of_input h.wait (mem_of_head? hs)
    have hsu : s.unhandled c = some (q :: qs,none) := by
      rw [unhandled_of_idle hcl hns,hqb]
    rcases hres with ⟨hz',hn⟩ | ⟨hpos,hn⟩
    · refine .call q qs pick ha hk hsu ?_ hn
      rw [unhandled_of_settled y ht hz' fun hd' => hns (.inr (hd ▸ hd')),hy.1]
    refine .wait q qs pick ha hk hsu ?_ hn
    rw [unhandled_of_suspended ht (.inl (by rwa [waits_of_some ht])),hy.1,hy.2]
  | resume cl y q ha hcl hq ht hy hd hres =>
    have hdue := due_of_resumes ha
    have hsu : s.unhandled c = some (cl.querybuf,some (some q)) := by
      rw [unhandled_of_suspended hcl (.inr hdue),hq]
    have hgone : c ∉ t.due := by
      have hle := count_input_add_due_le_one h.wait c
      rw [← count_eq_zero]
      omega
    rcases hres with ⟨hz,hn⟩ | ⟨hpos,hn⟩
    · refine .resume q cl.querybuf ha hsu ?_ hn
      rw [unhandled_of_settled y ht hz hgone,hy.1]
    have hne : a ≠ .accept c ∧ (∀ cmds, a ≠ .readQuery c cmds) ∧ s.skipped a c = none := by
      cases a with
      | handlerResume | scriptResume => simp [skipped]
      | _ => cases ha
    refine .same ⟨hne.1,hne.2.1⟩ hne.2.2 ?_ (fun _ => .inr hdue) hn
    rw [hsu,unhandled_of_suspended ht (.inl (by rwa [waits_of_some ht])),hy.1,hy.2]

/-- A suspended client has its command in `argv`. -/
def ArgvInv (s : Server n) : Prop := ∀ c qb p, s.unhandled c = some (qb,some p) → p ≠ none

lemma ArgvInv.init (cfg : Config) : ArgvInv (initServer n cfg) := by
  intro c qb p h
  cases h

lemma ArgvInv.step (h : ArgvInv s) (hi : StackInv s) (hst : s.step a = some (.ok t)) :
    ArgvInv t := by
  intro c qb p hp
  cases inputMove_of_step hi hst c with
  | gone ha ht => simp [ht,unhandled,freeClient,set_clients] at hp
  | same _ _ hu _ _ => exact h c qb p (hu ▸ hp)
  | accept _ hu _ | skip _ _ _ _ _ _ hu _ | call _ _ _ _ _ _ hu _ | resume _ _ _ _ hu _ =>
    rw [hu] at hp
    cases hp
  | read cmds qb' p' _ hs hu _ =>
    rw [hu,some.injEq,Prod.mk.injEq] at hp
    exact h c qb' p (hp.2 ▸ hs)
  | wait q _ _ _ _ _ hu _ =>
    rw [hu] at hp
    cases hp
    simp

lemma ArgvInv.current (h : ArgvInv s) (hcl : s.clients c = some cl) (hs : s.suspended c) :
    ∃ q, cl.current = some q :=
  ne_none_iff_exists'.mp (h c _ _ (unhandled_of_suspended hcl hs))

def DueLive (s : Server n) : Prop := ∀ c ∈ s.due, ∃ cl, s.clients c = some cl

/-- CLIENT KILL spares the clients that are still to be resumed. -/
def killSafe (s : Server n) : Act n → Bool
  | .killClient c => decide (c ∉ s.due)
  | _ => true

lemma live_of_suspended (h : DueLive s) (hs : s.suspended c) : ∃ cl, s.clients c = some cl := by
  rcases hs with hw | hd
  · exact waits_live hw
  · exact h c hd

lemma live_of_unhandled {x : List Command × Option (Option Command)}
    (h : s.unhandled c = some x) : ∃ cl, s.clients c = some cl := by
  obtain ⟨cl,hcl,_⟩ := map_eq_some_iff.mp h
  exact ⟨cl,hcl⟩

lemma DueLive.step (h : DueLive s) (hi : StackInv s) (hk : s.killSafe a = true)
    (hst : s.step a = some (.ok t)) : DueLive t := by
  intro c hc
  cases inputMove_of_step hi hst c with
  | gone ha ht =>
    -- freeing a client leaves the lists alone
    subst ht
    have hd : c ∈ s.due := hc
    rcases ha with ⟨_,hnil⟩ | rfl
    · rw [hnil] at hd
      cases hd
    · exact absurd hd (of_decide_eq_true hk)
  | same _ _ hu hs _ =>
    have hsus := hs (.inr hc)
    obtain ⟨cl,hcl⟩ := live_of_suspended h hsus
    exact live_of_unhandled (hu.trans (unhandled_of_suspended hcl hsus))
  | accept _ hu _ | read _ _ _ _ _ hu _ | skip _ _ _ _ _ _ hu _ | wait _ _ _ _ _ _ hu _
  | call _ _ _ _ _ _ hu _ | resume _ _ _ _ hu _ => exact live_of_unhandled hu

/-- No freed client is resumed, as long as CLIENT KILL does not free a client that
is still to be resumed. -/
theorem resumed_alive {cfg : Config} {as : List (Act n)}
    (hg : (machine n cfg).Guarded (fun s a => s.killSafe a = true) (initServer n cfg) as)
    (h : (machine n cfg).run as = some (.ok s)) : (∀ c ∈ s.due, ∃ cl, s.clients c = some cl) ∧
    ∀ a c, s.resumes a = some c → ∃ cl, s.clients c = some cl := by
  have hi : StackInv s ∧ DueLive s := (machine n cfg).guarded_invariant
    (I := fun s => StackInv s ∧ DueLive s) ⟨.init cfg,fun c hc => by cases hc⟩
    (fun _ _ _ hi hc hst => ⟨hi.1.step hst,hi.2.step hi.1 hc hst⟩) hg h
  exact ⟨hi.2,fun a c hr => hi.2 c (due_of_resumes hr)⟩

end Server

namespace Sample

/-- Clients 1 and 2 wait for `k1`; client 1 has one more command in its input. -/
def bothWait : List (Act 0) :=
  stored ++ [.readQuery 1 [get k1,ping],.nextCommand none [],.readQuery 2 [get k1],
    .nextCommand none []]

/-- The key is read; client 1 is resumed and comes to its next command. -/
def firstResumed : List (Act 0) :=
  jobDone ++ [.pipeReadable,.handlerResume [],.runProc false,.ret,.nextCommand none []]

end Sample
open Sample

namespace Server

/-- Both clients are resumed if client 1 kills client 3. -/
theorem resumed_alive_both : ∃ s : Server 0, (machine 0 Sample.config).run
      (Sample.bothWait ++ Sample.firstResumed ++
        [.killClient 3,.runProc false,.ret,.nextCommand none []]) = some (.ok s) ∧
    s.resumes (.handlerResume []) = some 2 ∧ ∃ cl, s.clients 2 = some cl := by
  refine Machine.exists_run_and _ (by decide) fun s hs hres => ?_
  obtain ⟨_,halive⟩ := resumed_alive (Machine.guarded_check _ _ _ _ (by decide)) hs
  exact halive _ 2 hres

/-- Client 1 kills client 2, which is resumed all the same. -/
theorem resumed_freed : ∃ s : Server 0, (machine 0 Sample.config).run
      (Sample.bothWait ++ Sample.firstResumed ++
        [.killClient 2,.runProc false,.ret,.nextCommand none []]) = some (.ok s) ∧
    s.resumes (.handlerResume []) = some 2 ∧ s.clients 2 = none ∧
    s.step (.handlerResume []) = some (.error .useAfterFree) := by
  obtain ⟨s,hs,hstk,hh,hc⟩ := (machine 0 Sample.config).exists_run (bothWait ++ firstResumed ++
      [.killClient 2,.runProc false,.ret,.nextCommand none []])
    (fun s => s.stack = [] ∧ s.handler = .clearFinish [2] ∧ s.clients 2 = none) (by decide)
  refine ⟨s,hs,by simp [resumes,hstk,hh],hc,?_⟩
  simp [step,handlerResume,hstk,hh,checkThenResumeRockClient,getClient,hc]
  rfl

end Server
end RedRock
