import RedRock.Footprint

/-!
The clients that wait and the job slot change in few places: a check registers
keys and may start a job, the rock thread takes and completes it, the handler and
the end of a script finish keys.
-/

namespace RedRock
open Lib

def Handler.clearing : Handler → Bool
  | .clearFinish _ | .moreJob => true
  | _ => false

namespace Server
variable {n : Nat} {s t u : Server n} {a : Act n}

def toCheck (s : Server n) : Act n → Option (Client n × Command)
  | .nextCommand reject _ =>
    match s.stack with
    | .input c :: _ =>
      match s.clients c with
      | some cl =>
        match cl.querybuf with
        | q :: _ =>
          if cl.rockKeyNumber = 0 ∧ reject = none ∧ (cl.multi = true → q.cmd.proc.skipsQueue = true)
          then some (cl,q) else none
        | [] => none
      | none => none
    | _ => none
  | .handlerResume _ =>
    match s.handler with
    | .clearFinish (c :: _) => (s.clients c).bind fun cl => cl.current.map (Prod.mk cl)
    | _ => none
  | .scriptResume _ =>
    match s.stack with
    | .call _ (.resume (c :: _)) :: _ =>
      (s.clients c).bind fun cl => cl.current.map (Prod.mk cl)
    | _ => none
  | _ => none

section
variable {c : ClientId} {cl : Client n} {q : Command} {pick : Sds}
variable {rest : List (Frame n)} {cs : List ClientId}

lemma toCheck_handlerResume (hh : s.handler = .clearFinish (c :: cs)) (hc : s.clients c = some cl)
    (hq : cl.current = some q) : s.toCheck (.handlerResume pick) = some (cl,q) := by
  simp [toCheck,hh,hc,hq]

lemma toCheck_scriptResume {k : Call n} (hs : s.stack = .call k (.resume (c :: cs)) :: rest)
    (hc : s.clients c = some cl) (hq : cl.current = some q) :
    s.toCheck (.scriptResume pick) = some (cl,q) := by
  simp [toCheck,hs,hc,hq]

lemma toCheck_nextCommand {qs : List Command} (hs : s.stack = .input c :: rest)
    (hc : s.clients c = some cl) (hq : cl.querybuf = q :: qs) (hz : cl.rockKeyNumber = 0)
    (hskip : cl.multi = true → q.cmd.proc.skipsQueue = true) :
    s.toCheck (.nextCommand none pick) = some (cl,q) := by
  simp only [toCheck,hs,hc,hq]
  exact if_pos ⟨hz,trivial,hskip⟩

end

def newlyWaited (s : Server n) (a : Act n) : List (Fin (n+1) × Sds) :=
  match s.toCheck a with
  | none => []
  | some (cl,q) =>
    match checkRock (s.db cl.db) cl q with
    | .ok (keys,_) => keys.map (Prod.mk cl.db)
    | .error _ => []

lemma mem_newlyWaited {cl : Client n} {q : Command} {keys : List Sds} {errs : List String}
    (hc : s.toCheck a = some (cl,q)) (hk : checkRock (s.db cl.db) cl q = .ok (keys,errs))
    {key : Sds} (hm : key ∈ keys) : (cl.db,key) ∈ s.newlyWaited a := by
  simp only [newlyWaited,hc,hk]
  exact List.mem_map.mpr ⟨key,hm,rfl⟩

lemma checkCall_registers {c : ClientId} {pick : Sds} (h : s.checkThenCall c pick = .ok t) :
    ∃ cl q keys errs, s.clients c = some cl ∧ cl.current = some q ∧
      checkRock (s.db cl.db) cl q = .ok (keys,errs) ∧
      ∀ d key, key ∈ (t.db d).rockKeys ↔ (d = cl.db ∧ key ∈ keys) ∨ key ∈ (s.db d).rockKeys := by
  obtain ⟨cl,q,keys,errs,hcl,_,hq,hk,hr⟩ := checkCall_ok h
  refine ⟨cl,q,keys,errs,hcl,hq,hk,?_⟩
  rcases hr with ⟨rfl,rfl⟩ | ⟨_,hs⟩
  · intro d key
    simp [setClient]
  have hmem := registerWaiter_mem s c cl keys errs
  rcases startJob_ok hs with ⟨_,rfl⟩ | ⟨_,_,_,d,key,_,rfl⟩
  · exact hmem
  · exact hmem

lemma mem_rockKeys_of_step (hst : s.step a = some (.ok t)) {d : Fin (n+1)} {key : Sds}
    (hk : key ∈ (t.db d).rockKeys) : key ∈ (s.db d).rockKeys ∨ (d,key) ∈ s.newlyWaited a := by
  cases hq : a.quiet with
  | true =>
    rw [(quiet_of_step hq hst).rockKeys] at hk
    exact .inl hk
  | false =>
  cases transition_of hst with
  | freeClient | killClient =>
    rw [freeClient_rockKeys,Dict.mem_mapVal] at hk
    exact .inl hk
  | pipeReadable _ _ _ hs =>
    obtain ⟨d',key',val,_,_,_,_,hcase⟩ := pipeHandler_ok hs
    rcases hcase with ⟨_,rfl⟩ | ⟨_,hcf⟩
    · exact .inl hk
    · exact .inl ((mem_clearFinishKey hcf d key).mp hk).1
  | handlerResume _ hh hs =>
    obtain ⟨cl,q,keys,errs,hcl,hcur,hck,hmem⟩ := checkCall_registers hs
    rcases (hmem d key).mp hk with ⟨rfl,hm⟩ | hm
    · exact .inr (mem_newlyWaited (toCheck_handlerResume hh hcl hcur) hck hm)
    · exact .inl hm
  | handlerMoreJob _ _ hs =>
    rcases moreJob_ok hs with ⟨_,_,_,_,rfl⟩ | ⟨_,rfl⟩
    · exact .inl hk
    · exact .inl hk
  | checked hstk hcl hqb hz hskip hs =>
    obtain ⟨cl',q',keys,errs,hcl',hcur,hck,hmem⟩ := checkCall_registers hs
    simp only [set_clients,if_true,Option.some.injEq] at hcl'
    subst hcl'
    cases hcur
    rcases (hmem d key).mp hk with ⟨rfl,hm⟩ | hm
    · exact .inr (mem_newlyWaited (toCheck_nextCommand hstk hcl hqb hz hskip) hck hm)
    · exact .inl hm
  | finishKey _ hu => exact .inl ((mem_finishKeyFromScript hu d key).mp hk).1
  | scriptResume hstk hs =>
    obtain ⟨cl,q,keys,errs,hcl,hcur,hck,hmem⟩ := checkCall_registers hs
    rcases (hmem d key).mp hk with ⟨rfl,hm⟩ | hm
    · exact .inr (mem_newlyWaited (toCheck_scriptResume hstk hcl hcur) hck hm)
    · exact .inl hm
  | _ => first | exact .inl hk | cases hq

/-- What a step can do to the slot and to the rock thread. The handler stops
clearing only where it decides on the next job. -/
inductive SlotMove (s t : Server n) (a : Act n) : Prop where
  | same (hj : t.rockJob = s.rockJob) (hr : t.jobKeyRemoved = s.jobKeyRemoved)
      (hth : t.rockThread = s.rockThread)
      (hcl : t.handler.clearing = false → s.handler.clearing = false)
  | thread (hj : t.rockJob = s.rockJob) (hr : t.jobKeyRemoved = s.jobKeyRemoved)
      (hth : ∀ d key val, t.rockThread = .loaded d key val →
        s.rockThread = .took d key ∧ s.restoreObjFromRocksdb d key = .ok val)
      (hcl : t.handler = s.handler)
  | complete (d : Fin (n+1)) (key : Sds) (val : Robj) (hs : s.rockThread = .loaded d key val)
      (hw : s.rockJob.workKey = some key) (hd : s.rockJob.dbid = some d)
      (hj : t.rockJob = { s.rockJob with
        workKey := none, returnKey := some key, valInRock := some val })
      (hr : t.jobKeyRemoved = s.jobKeyRemoved) (hth : t.rockThread = .completed)
      (hcl : t.handler = s.handler)
  | start (d : Fin (n+1)) (key : Sds)
      (hz : s.rockJob.dbid = none ∨ ∃ pick, a = .handlerMoreJob pick)
      (hw : s.rockJob.workKey = none) (hk : key ∈ (t.db d).rockKeys)
      (hj : t.rockJob = { s.rockJob with workKey := some key, dbid := some d, returnKey := none })
      (hr : t.jobKeyRemoved = false) (hth : t.rockThread = s.rockThread)
  | zero (hh : s.handler = .moreJob) (hj : t.rockJob = ⟨none,none,none,none,false⟩)
      (hr : t.jobKeyRemoved = false) (hth : t.rockThread = s.rockThread)
  | mark (m : ScriptMaybeKey n) (hf : s.rockJob.isFor m.dbid m.key)
      (hu : s.rockJob.alreadyFinishedByScript = false) (hk : m.key ∉ (t.db m.dbid).rockKeys)
      (hj : t.rockJob = { s.rockJob with alreadyFinishedByScript := true })
      (hr : t.jobKeyRemoved = true) (hth : t.rockThread = s.rockThread)

lemma SlotMove.of_check {r : Server n} {c : ClientId} {pick : Sds}
    (hj : r.rockJob = s.rockJob) (hr : r.jobKeyRemoved = s.jobKeyRemoved)
    (hth : r.rockThread = s.rockThread)
    (hcl : r.handler.clearing = false → s.handler.clearing = false)
    (h : r.checkThenCall c pick = .ok t) : SlotMove s t a := by
  obtain ⟨cl,q,keys,errs,_,_,_,_,hres⟩ := checkCall_ok h
  rcases hres with ⟨_,rfl⟩ | ⟨_,hs⟩
  · exact .same hj hr hth hcl
  rcases startJob_ok hs with ⟨_,rfl⟩ | ⟨hd,hw,_,d,key,hk,rfl⟩
  · exact .same hj hr hth hcl
  refine .start d key (.inl ?_) ?_ hk ?_ rfl hth
  · rw [← hj]
    exact hd
  · rw [← hj]
    exact hw
  rw [← hj]
  rfl

lemma slotMove_of_step (hst : s.step a = some (.ok t)) : SlotMove s t a := by
  cases hq : a.quiet with
  | true =>
    have hq := quiet_of_step hq hst
    exact .same hq.rockJob hq.jobKeyRemoved hq.rockThread (by rw [hq.handler]; exact id)
  | false =>
  cases transition_of hst with
  | rockTake | rockSignal =>
    refine .thread rfl rfl ?_ rfl
    intro d key val h
    cases h
  | rockRead hth hv =>
    refine .thread rfl rfl ?_ rfl
    intro d' key' val' h
    cases h
    exact ⟨hth,hv⟩
  | rockComplete hth hw hd => exact .complete _ _ _ hth hw hd rfl rfl rfl rfl
  | pipeReadable _ hidle _ hs =>
    have hcl : s.handler.clearing = false := by
      rw [hidle]
      rfl
    obtain ⟨d',key',val,_,_,_,_,hcase⟩ := pipeHandler_ok hs
    rcases hcase with ⟨_,rfl⟩ | ⟨_,hcf⟩
    · exact .same rfl rfl rfl fun _ => hcl
    obtain ⟨u,clients,zs,v,hu,_,hv,rfl⟩ := clearFinishKey_ok hcf
    obtain ⟨rfl,_⟩ := decr_ok hv
    obtain ⟨db,b,rfl,_⟩ := finished_keyspace hu
    exact .same rfl rfl rfl fun _ => hcl
  | handlerResumed =>
    refine .same rfl rfl rfl ?_
    intro h
    cases h
  | handlerResume _ _ hs =>
    refine .of_check (by rfl) (by rfl) (by rfl) ?_ hs
    intro h
    cases h
  | @handlerMoreJob _ pick _ hh hs =>
    rcases moreJob_ok hs with ⟨d,key,hk,hw,rfl⟩ | ⟨_,rfl⟩
    · exact .start d key (.inr ⟨pick,rfl⟩) hw hk rfl rfl rfl
    · exact .zero hh rfl rfl rfl
  | handlerRead _ hh =>
    refine .same rfl rfl rfl fun _ => ?_
    rw [hh]
    rfl
  | checked _ _ _ _ _ hs | scriptResume _ hs =>
    exact .of_check (by rfl) (by rfl) (by rfl) (by exact id) hs
  | @finishKey _ _ _ _ m _ _ _ hu =>
    have hmem := mem_finishKeyFromScript hu
    rcases scriptKey_ok hu with ⟨_,rfl,_⟩ | ⟨clients,v,w,_,hv,hw,rfl⟩
    · exact .same rfl rfl rfl id
    obtain ⟨rfl,_⟩ := decr_ok hv
    rcases markFinished_ok hw with ⟨hf,hu',rfl⟩ | ⟨_,rfl⟩
    · refine .mark m hf hu' ?_ rfl rfl rfl
      intro hk
      exact ((hmem m.dbid m.key).mp hk).2 ⟨rfl,rfl⟩
    · exact .same rfl rfl rfl id
  | rockTakeNone | accept | readQuery | freeClient | killClient | inputEnd | refused | queued
  | breakInput | keysFinished | scriptResumed => exact .same rfl rfl rfl id
  | _ => cases hq

end Server
end RedRock
