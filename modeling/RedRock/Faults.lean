import RedRock.Transitions

/-!
Where the process can stop: for each action, the assertions, panics and undefined
accesses it can run into.
-/

namespace RedRock
open Lib Option Act

def commandFaults : List Fault := [.useAfterFree,.nullCommand,.checkRockArgc,.argvOutOfBounds]

def checkFaults : List Fault := .rockKeyNumberZero :: .isZeroRockJobState :: commandFaults

def Act.faults {n : Nat} : Act n → List Fault
  | .rockTake => [.getRockWork,.haveRockJob]
  | .rockRead => [.rocksdbKeyLen,.restoreObjFromRocksdb,.desObject]
  | .rockComplete => [.haveRockJob]
  | .pipeReadable => [.rockPipeReadHandler,.clearFinishHotKey,.clearFinishClients,.useAfterFree,
      .rockKeyNumberPositive]
  | .handlerResume _ | .nextCommand _ _ | .scriptResume _ => checkFaults
  | .handlerMoreJob _ => [.createNewJob]
  | .initHotKeys => [.initHotKeys,.noHotKeys]
  | .sampleHotKey _ _ => [.rockPoolPopulate]
  | .dump _ _ => [.dumpValToRock,.serObject,.rocksdbKeyLen,.dumpNotHot]
  | .op _ => [.dbAdd,.dbOverwrite,.clearHotKeysWhenEmptyDb]
  | .selectDb _ | .execNext _ | .ret => [.useAfterFree]
  | .runProc _ => [.useAfterFree,.scriptWhenStart]
  | .redisCall _ => [.useAfterFree,.rockKeyNumberZero,.checkRockArgc,.argvOutOfBounds,
      .rocksdbKeyLen,.restoreObjFromRocksdb,.desObject,.nullMaybeFinishKeys]
  | .scriptExit => [.nullMaybeFinishKeys]
  | .finishKey => [.useAfterFree,.rockKeyNumberPositive,.alreadyFinishedByScript]
  | _ => []

section
variable {P : Fault → Prop}

lemma argAt_errors (hb : P .argvOutOfBounds) (argv : List Sds) (i : Nat) :
    OnlyErrors P (argAt argv i) := by
  unfold argAt
  split
  · exact .ok _
  · exact .error hb

lemma migrateOptions_errors (hb : P .argvOutOfBounds) (cArgv : List Sds) (j : Nat)
    (l : List Sds) : OnlyErrors P (migrateOptions cArgv j l) := by
  fun_induction migrateOptions cArgv j l with
  | case1 j => exact .ok _
  | case2 j a rest h ih => exact ih
  | case3 j a rest h h' ih => exact ih
  | case4 => exact .ok _
  | case5 => assumption
  | case6 =>
    refine .bind (argAt_errors hb _ _) fun _ _ => ?_
    exact .ite (fun _ => .pure _) fun _ => .pure _
  | case7 => exact .ok _

section
variable (ha : P .checkRockArgc)
include ha

section
variable (hb : P .argvOutOfBounds)
include hb

lemma checkProc_errors
    (cArgv argv : List Sds) (p : CheckRockProc) : OnlyErrors P (checkRockProc cArgv argv p) := by
  cases p with
  | oneKey => exact .bind (argAt_errors hb _ _) fun _ _ => .pure _
  | excludeLastArg | allKeys | excludeFirstArg => exact .assert (fun _ => ha) (.pure _)
  | zstore =>
    refine .bind (argAt_errors hb _ _) fun arg _ => ?_
    split
    · exact .pure _
    · exact .ite (fun _ => .pure _) fun _ => .ite (fun _ => .pure _) fun _ => .pure _
  | migrate =>
    refine .bind (migrateOptions_errors hb _ _ _) fun r _ => ?_
    split
    · exact .pure _
    refine .bind (argAt_errors hb _ _) fun timeout _ => ?_
    split
    · exact .pure _
    refine .bind (argAt_errors hb _ _) fun dbid _ => ?_
    split
    · exact .pure _
    · exact .bind (.mapM fun _ => argAt_errors hb _ _) fun _ _ => .pure _

lemma checkCmd_errors (db : RedisDb) (cArgv : List Sds) (q : Command) :
    OnlyErrors P (checkRockForCmd db cArgv q) := by
  unfold checkRockForCmd
  split
  · exact .ok _
  · exact .bind (checkProc_errors ha hb _ _ _) fun _ _ => .pure _

lemma checkMultiCmd_errors (db : RedisDb) (cArgv : List Sds) (qs : List Command) :
    OnlyErrors P (checkRockForMultiCmd db cArgv qs) := by
  induction qs with
  | nil => exact .ok _
  | cons q qs ih =>
    refine .bind (checkCmd_errors ha hb db cArgv q) fun _ _ => ?_
    exact .bind ih fun _ _ => .pure _

lemma checkRock_errors {n : Nat}
    (db : RedisDb) (cl : Client n) (q : Command) : OnlyErrors P (checkRock db cl q) :=
  .ite (fun _ => checkMultiCmd_errors ha hb _ _ _) fun _ => checkCmd_errors ha hb _ _ _

end

end

lemma serObject_errors (hs : P .serObject) (o : Robj) : OnlyErrors P (serObject o) := by
  refine .bind ?_ fun _ _ => .pure _
  cases o.content with
  | stream | module => exact .error hs
  | _ => exact .ok _

lemma desZiplist_errors (hd : P .desObject) (s : Bytes) : OnlyErrors P (desZiplist s) := by
  unfold desZiplist
  repeat' split
  all_goals first | exact .ok _ | exact .error hd

lemma desBody_errors (hd : P .desObject) (cfg : Config) (rockType : UInt8)
    (lru : BitVec 24) (s : Bytes) : OnlyErrors P (desBody cfg rockType lru s) := by
  have hz : ∀ g : Ziplist → Robj, OnlyErrors P ((desZiplist s).map g) := by
    intro g e he
    have h := desZiplist_errors hd s
    cases hz : desZiplist s with
    | ok zl => simp [hz,Except.map] at he
    | error e' =>
      simp only [hz,Except.map,Except.error.injEq] at he
      exact he ▸ h e' hz
  unfold desBody
  refine .ite (fun _ => ?_) fun _ => .ite (fun _ => ?_) fun _ => .ite (fun _ => ?_) fun _ =>
    .ite (fun _ => ?_) fun _ => .ite (fun _ => ?_) fun _ => .ite (fun _ => hz _) fun _ =>
    .ite (fun _ => hz _) fun _ => .ite (fun _ => ?_) fun _ => .error hd
  · unfold desString
    repeat' split
    all_goals first | exact .ok _ | exact .error hd
  · refine .bind ?_ fun _ _ => .pure _
    unfold orDes
    split
    · exact .ok _
    · exact .error hd
  · unfold desSetHt
    repeat' split
    all_goals first | exact .ok _ | exact .error hd
  · unfold desIntset
    simp only
    repeat' split
    all_goals first | exact .ok _ | exact .error hd
  · unfold desHashHt
    repeat' split
    all_goals first | exact .ok _ | exact .error hd
  · unfold desZskiplist
    repeat' split
    all_goals first | exact .ok _ | exact .error hd

lemma desObject_errors (hd : P .desObject) (cfg : Config) (buf : Bytes) :
    OnlyErrors P (desObject cfg buf) := by
  unfold desObject
  split
  · exact .error hd
  split
  · exact .error hd
  · exact desBody_errors hd _ _ _ _

namespace Server
variable {n : Nat} {s : Server n}

lemma getClient_errors (hu : P .useAfterFree) (s : Server n) (c : ClientId) :
    OnlyErrors P (s.getClient c) := by
  unfold getClient
  split
  · exact .ok _
  · exact .error hu

lemma restoreObj_errors (hk : P .rocksdbKeyLen)
    (hr : P .restoreObjFromRocksdb) (hd : P .desObject) (d : Fin (n+1)) (key : Sds) :
    OnlyErrors P (s.restoreObjFromRocksdb d key) := by
  refine .assert (fun _ => hk) ?_
  split
  · exact .error hr
  · exact desObject_errors hd _ _

lemma decr_errors (hu : P .useAfterFree) (hp : P .rockKeyNumberPositive)
    (cs : List ClientId) : OnlyErrors P (s.decrRockKeyNumbers cs) := by
  induction cs generalizing s with
  | nil => exact .ok _
  | cons c cs ih =>
    refine .bind (getClient_errors hu s c) fun cl _ => ?_
    refine .assert (fun _ => hp) ?_
    exact .bind ih fun _ _ => .pure _

lemma createNewJob_errors (hc : P .createNewJob) (d : Fin (n+1)) (key : Sds) :
    OnlyErrors P (s.createNewJob d key) :=
  .assert (fun _ => hc) (.pure _)

lemma zeroJobs_errors (hz : P .isZeroRockJobState) : OnlyErrors P s.isZeroRockJobState := by
  unfold isZeroRockJobState
  split
  · exact .assert (fun _ => hz) (.pure _)
  split <;> exact .assert (fun _ => hz) (.pure _)

lemma currentCmd_errors {cl : Client n} (hn : cl.current = none → P .nullCommand) :
    OnlyErrors P (currentCmd cl) := by
  unfold currentCmd
  split
  · exact .ok _
  · exact .error (hn ‹_›)

section
variable {c : ClientId} {pick : Sds}

lemma startJob_errors {cl : Client n} {keys : List Sds} {errs : List String}
    (hne : keys ≠ []) (hw : ¬ s.rockJob.WellFormed → P .isZeroRockJobState) :
    OnlyErrors P ((s.registerWaiter c cl keys errs).startJob pick) := by
  by_cases hwf : s.rockJob.WellFormed
  · refine .bind (fun f hf => ?_) fun b hb => .ite (fun hb' => ?_) fun _ => .pure _
    · rw [zeroJobs_of_wellFormed (s := s.registerWaiter c cl keys errs) hwf] at hf
      cases hf
    rw [hb',zeroJobs_of_wellFormed (s := s.registerWaiter c cl keys errs) hwf] at hb
    have hd : s.rockJob.dbid = none := by
      simpa [registerWaiter,updDb,setClient] using Except.ok.inj hb
    split
    · rename_i hm
      obtain ⟨key,keys,rfl⟩ := List.exists_cons_of_ne_nil hne
      have hk := (registerWaiter_mem s c cl (key :: keys) errs cl.db key).mpr (.inl ⟨rfl,by simp⟩)
      rw [hasMoreRockJob_none_iff.mp hm cl.db] at hk
      simp at hk
    refine .bind (fun f hf => ?_) fun _ _ => .pure _
    exact absurd (hwf.zero.mp hd).1 ((serverAssert_error_iff _ _ _).mp hf).1
  refine .bind (zeroJobs_errors (hw hwf)) fun b hb => ?_
  exact absurd (zeroJobs_ok hb).1 hwf

lemma checkValue_current {t : Server n} (h : s.checkCallValueInRock c pick = .ok t) :
    ∃ cl cl', s.clients c = some cl ∧ t.clients c = some cl' ∧ cl'.current = cl.current := by
  obtain ⟨cl,hcl,h⟩ := bind_ok.mp h
  rw [assert_ok] at h
  obtain ⟨_,h⟩ := h
  obtain ⟨q,_,h⟩ := bind_ok.mp h
  obtain ⟨⟨keys,errs⟩,_,h⟩ := bind_ok.mp h
  refine ⟨cl,{ cl with rockKeyNumber := keys.length, reply := cl.reply ++ errs },
    getClient_ok.mp hcl,?_,rfl⟩
  simp only at h
  split at h
  · rw [pure_ok] at h
    subst h
    simp [registerWaiter,updDb,setClient]
  rcases startJob_ok h with ⟨_,rfl⟩ | ⟨_,_,_,d,key,_,rfl⟩
  · simp [registerWaiter,updDb,setClient]
  · simp [arm,registerWaiter,updDb,setClient]

section
variable (h : ∀ f ∈ commandFaults, f ≠ .nullCommand → P f)
  (hq : ∀ cl, s.clients c = some cl → cl.current = none → P .nullCommand)
  (hz : ∀ cl, s.clients c = some cl → cl.rockKeyNumber ≠ 0 → P .rockKeyNumberZero)
  (hw : ¬ s.rockJob.WellFormed → P .isZeroRockJobState)
include h hq hz hw

lemma checkValue_errors : OnlyErrors P (s.checkCallValueInRock c pick) := by
  refine .bind (getClient_errors (h _ (by decide) (by decide)) s c) fun cl hcl => ?_
  refine .assert (hz cl (getClient_ok.mp hcl)) ?_
  refine .bind (currentCmd_errors (hq cl (getClient_ok.mp hcl))) fun q _ => ?_
  refine .bind (checkRock_errors (h _ (by decide) (by decide)) (h _ (by decide) (by decide))
    _ _ _) fun r _ => ?_
  exact .ite (fun _ => .pure _) fun hne => startJob_errors hne hw

lemma checkCall_errors : OnlyErrors P (s.checkThenCall c pick) := by
  refine .bind (checkValue_errors h hq hz hw) fun u hu => ?_
  refine .bind (getClient_errors (h _ (by decide) (by decide)) u c) fun cl hcl => ?_
  refine .ite (fun _ => .bind (currentCmd_errors fun hn => ?_) fun _ _ => .pure _) fun _ => .pure _
  obtain ⟨cl₀,cl',hcl₀,hcl',hcur⟩ := checkValue_current hu
  cases hcl'.symm.trans (getClient_ok.mp hcl)
  exact hq cl₀ hcl₀ (hcur.symm.trans hn)

lemma resumeClient_errors : OnlyErrors P (s.checkThenResumeRockClient c pick) := by
  refine .bind (getClient_errors (h _ (by decide) (by decide)) s c) fun cl hcl => ?_
  refine .assert (hz cl (getClient_ok.mp hcl)) ?_
  exact checkCall_errors h hq hz hw

end
end

lemma dbAdd_errors (ha : P .dbAdd) (d : Fin (n+1)) (key : Sds) (val : DbVal) :
    OnlyErrors P (s.dbAdd d key val) :=
  .assert (fun _ => ha) (.pure _)

lemma emptyDbs_errors (hc : P .clearHotKeysWhenEmptyDb) (ds : List (Fin (n+1))) :
    OnlyErrors P (s.emptyDbs ds) := by
  induction ds generalizing s with
  | nil => exact .ok _
  | cons d ds ih =>
    refine .bind (.bind ?_ fun _ _ => .pure _) fun _ _ => ih
    refine .ite (fun _ => ?_) fun _ => .ite (fun _ => .ok _) fun _ =>
      .ite (fun _ => .ok _) fun _ => .ok _
    exact .assert (fun _ => hc) (.pure _)

lemma emptyDb_errors (hc : P .clearHotKeysWhenEmptyDb) (dbnum : Option (Fin (n+1))) :
    OnlyErrors P (s.emptyDb dbnum) := by
  cases dbnum with
  | none | some d => exact emptyDbs_errors hc _

lemma applyOp_errors (ha : P .dbAdd) (ho : P .dbOverwrite)
    (hc : ∀ dbnum, OnlyErrors P (s.emptyDb dbnum)) (o : KsOp n) : OnlyErrors P (s.applyOp o) := by
  cases o with
  | dbAdd d key o => exact dbAdd_errors ha d key _
  | dbOverwrite d key o => exact .assert (fun _ => ho) (.pure _)
  | emptyDb dbnum async => exact hc dbnum
  | rename d src dst nx =>
    simp only [applyOp,renameGeneric]
    split
    · exact .ok _
    refine .ite (fun _ => .ok _) fun _ => .ite (fun _ => .ok _) fun _ => ?_
    exact .bind (dbAdd_errors ha _ _ _) fun _ _ => .pure _
  | move src dst key =>
    refine .ite (fun _ => .ok _) fun _ => ?_
    split
    · exact .ok _
    refine .ite (fun _ => .ok _) fun _ => ?_
    exact .bind (dbAdd_errors ha _ _ _) fun _ _ => .pure _
  | _ => exact .ok _

lemma restoreAll_errors (hk : P .rocksdbKeyLen) (hr : P .restoreObjFromRocksdb)
    (hd : P .desObject) (hm : P .nullMaybeFinishKeys) (d : Fin (n+1)) (keys : List Sds) :
    OnlyErrors P (s.restoreAllForScript d keys) := by
  induction keys generalizing s with
  | nil => exact .ok _
  | cons key keys ih =>
    refine .bind (.bind (restoreObj_errors hk hr hd d key) fun val _ => ?_) fun _ _ => ih
    simp only
    split
    · exact .error hm
    · exact .pure _

lemma pipeHandler_errors (h : ∀ f ∈ (pipeReadable (n := n)).faults, P f) :
    OnlyErrors P s.rockPipeReadHandler := by
  unfold rockPipeReadHandler
  split
  · refine .ite (fun _ => .ok _) fun _ => .bind ?_ fun u _ => ?_
    · refine .ite (fun _ => ?_) fun _ => .ok _
      exact .assert (fun _ => h _ (by simp [faults])) (.pure _)
    split
    · exact .error (h _ (by simp [faults]))
    exact .bind (decr_errors (h _ (by simp [faults])) (h _ (by simp [faults])) _)
      fun _ _ => .pure _
  · exact .error (h _ (by simp [faults]))

lemma scriptKey_errors (h : ∀ f ∈ (Act.finishKey (n := n)).faults, P f)
    (m : ScriptMaybeKey n) : OnlyErrors P (s.finishKeyFromScript m) := by
  unfold finishKeyFromScript
  split
  · exact .ok _
  refine .bind (decr_errors (h _ (by simp [faults])) (h _ (by simp [faults])) _)
    fun r _ => .bind (.ite (fun _ => ?_) fun _ => .ok _) fun _ _ => .pure _
  exact .assert (fun _ => h _ (by simp [faults])) (.pure _)

end Server
end

namespace Server
variable {n : Nat} {s : Server n}
variable {f : Fault} {pick : Sds} {reject : Option Bool}

variable {x : Except Fault (Server n)}

lemma fault_of_some {L : List Fault} (h : some x = some (.error f))
    (hx : OnlyErrors (· ∈ L) x) : f ∈ L :=
  hx f (some.inj h)

lemma fault_of_enabled {L : List Fault} {p : Prop} [Decidable p]
    (h : (if p then some x else none) = some (.error f)) (hx : OnlyErrors (· ∈ L) x) : f ∈ L :=
  hx f (enabled_iff.mp h).2

lemma step_handlerResume_error (h : s.step (.handlerResume pick) = some (.error f)) :
    ∃ c cs, s.handler = .clearFinish (c :: cs) ∧
      ({ s with handler := .clearFinish cs }).checkThenResumeRockClient c pick = .error f := by
  simp only [step,handlerResume] at h
  split at h
  · cases h
  · rename_i c cs _ hh
    exact ⟨c,cs,hh,some.inj h⟩
  · cases h

lemma step_scriptResume_error (h : s.step (.scriptResume pick) = some (.error f)) :
    ∃ k c cs rest, s.stack = .call k (.resume (c :: cs)) :: rest ∧
      ({ s with stack := .call k (.resume cs) :: rest }).checkThenResumeRockClient c pick =
        .error f := by
  simp only [step,scriptResume] at h
  split at h
  · cases h
  · rename_i k c cs rest hst
    exact ⟨k,c,cs,rest,hst,some.inj h⟩
  · cases h

lemma step_nextCommand_error (h : s.step (.nextCommand reject pick) = some (.error f)) :
    f = .useAfterFree ∨ ∃ c rest cl q qs, s.stack = .input c :: rest ∧ s.clients c = some cl ∧
      cl.rockKeyNumber = 0 ∧
      ({ s.setClient c (some { cl with querybuf := qs, current := some q }) with
        stack := rest }).checkThenCall c pick = .error f := by
  simp only [step,nextCommand] at h
  split at h
  · rename_i c rest hst
    cases hcl : s.clients c with
    | none =>
      left
      simpa [getClient,hcl,bind,Except.bind,eq_comm] using h
    | some cl =>
      right
      have hg : s.getClient c = .ok cl := getClient_ok.mpr hcl
      rw [hg] at h
      replace h := some.inj h
      simp only [bind,Except.bind] at h
      split at h
      · cases h
      rename_i q qs _
      split at h
      · cases h
      rename_i hz
      split at h
      · cases h
      split at h
      · cases h
      · exact ⟨c,rest,cl,q,qs,hst,hcl,by omega,h⟩
  · cases h

lemma fault_resume {c : ClientId} (h : s.checkThenResumeRockClient c pick = .error f) :
    f ∈ checkFaults :=
  resumeClient_errors (by decide) (fun _ _ _ => by decide) (fun _ _ _ => by decide)
    (fun _ => by decide) f h

lemma fault_nextCommand (h : s.step (.nextCommand reject pick) = some (.error f)) :
    f ∈ checkFaults := by
  rcases step_nextCommand_error h with rfl | ⟨c,rest,cl,q,qs,_,_,_,h⟩
  · decide
  exact checkCall_errors (by decide) (fun _ _ _ => by decide) (fun _ _ _ => by decide)
    (fun _ => by decide) f h

lemma fault_runProc {abort : Bool} (h : s.runProc abort = some (.error f)) :
    f = .useAfterFree ∨ f = .scriptWhenStart ∧ s.maybeFinishKeys ≠ none ∧
      ∃ k rest, s.stack = .call k .proc :: rest ∧ k.cmd.cmd.proc = .eval := by
  unfold runProc at h
  split at h
  · rename_i k rest hs
    refine OnlyErrors.bind (P := fun f => f = .useAfterFree ∨ f = .scriptWhenStart ∧
        s.maybeFinishKeys ≠ none ∧ ∃ k rest, s.stack = .call k .proc :: rest ∧
          k.cmd.cmd.proc = .eval)
      (getClient_errors (.inl rfl) s _) (fun cl _ => ?_) f (some.inj h)
    simp only
    split
    · exact .ite (fun _ => .pure _) fun _ => .pure _
    · exact .ite (fun _ => .pure _) fun _ => .pure _
    · exact .ite (fun _ => .pure _) fun _ => .pure _
    · exact .ite (fun _ => .pure _) fun _ => .ite (fun _ => .pure _) fun _ =>
        .ite (fun _ => .pure _) fun _ => .pure _
    · rename_i hk
      refine .ite (fun _ => .pure _) fun _ => .bind ?_ fun _ _ => .pure _
      exact .assert (fun hne => .inr ⟨rfl,hne,k,rest,hs,hk⟩) (.pure _)
    · exact .pure _
  · cases h

lemma fault_redisCall {q : Command} (h : s.redisCall q = some (.error f)) :
    f ∈ (Act.redisCall (n := n) q).faults := by
  unfold redisCall at h
  split at h
  · refine fault_of_enabled h (.bind (getClient_errors (by simp [faults]) s _) fun cl _ => ?_)
    refine .bind (.bind ?_ fun _ _ => .pure _) fun _ _ => .pure _
    refine .assert (fun _ => by simp [faults]) ?_
    refine .bind (checkRock_errors (by simp [faults]) (by simp [faults]) _ _ _)
      fun _ _ => ?_
    exact restoreAll_errors (by simp [faults]) (by simp [faults])
      (by simp [faults]) (by simp [faults]) _ _
  · cases h

lemma step_faults {a : Act n} (h : s.step a = some (.error f)) : f ∈ a.faults := by
  cases a with
  | rockTake =>
    refine fault_of_enabled h (.bind (.assert (fun _ => by simp [faults]) ?_) fun r _ => ?_)
    · refine .ite (fun _ => ?_) fun _ => .pure _
      exact .assert (fun _ => by simp [faults]) (.pure _)
    simp only
    split
    · exact .pure _
    split
    · exact .error (by simp [faults])
    · exact .pure _
  | rockRead =>
    simp only [step] at h
    split at h
    · exact fault_of_some h (.bind (restoreObj_errors (by simp [faults]) (by simp [faults])
        (by simp [faults]) _ _) fun _ _ => .pure _)
    · cases h
  | rockComplete =>
    simp only [step] at h
    split at h
    · exact fault_of_some h (.assert (fun _ => by simp [faults]) (.pure _))
    · cases h
  | rockSignal => simp [step] at h
  | accept c => simp [step,accept] at h
  | readQuery c cmds =>
    simp only [step,readQuery] at h
    split at h
    · simp at h
    · cases h
  | freeClient c => simp [step] at h
  | pipeReadable =>
    exact fault_of_enabled h (pipeHandler_errors fun _ h => h)
  | handlerResume pick =>
    obtain ⟨c,cs,_,h⟩ := step_handlerResume_error h
    exact fault_resume h
  | handlerMoreJob pick =>
    refine fault_of_enabled h ?_
    unfold handlerMoreJob
    split
    · exact .bind (createNewJob_errors (by simp [faults]) _ _) fun _ _ => .pure _
    · exact .pure _
  | handlerRead => simp [step] at h
  | nextCommand reject pick => exact fault_nextCommand h
  | breakInput =>
    simp only [step] at h
    split at h <;> cases h
  | initHotKeys =>
    refine fault_of_enabled h (.assert (fun _ => by simp [faults]) ?_)
    exact .assert (fun _ => by simp [faults]) (.pure _)
  | sampleHotKey d key =>
    exact fault_of_enabled h (.ite (fun _ => .ok _) fun _ => .error (by simp [faults]))
  | dump d key =>
    simp only [step,dump] at h
    split at h
    · refine fault_of_enabled h ?_
      unfold dumpValToRock
      split
      · refine .assert (fun _ => by simp [faults]) ?_
        refine .bind (serObject_errors (by simp [faults]) _) fun _ _ => ?_
        refine .assert (fun _ => by simp [faults]) ?_
        exact .assert (fun _ => by simp [faults]) (.pure _)
      · exact .error (by simp [faults])
    · cases h
  | expired d key async =>
    refine fault_of_enabled h (.bind ?_ fun _ _ => .pure _)
    split <;> exact .ok _
  | op o =>
    simp only [step,op] at h
    split at h
    · split at h
      · exact fault_of_enabled h (.bind (applyOp_errors (by simp [faults])
          (by simp [faults]) (emptyDb_errors (by simp [faults])) o)
          fun _ _ => .pure _)
      · cases h
    · cases h
  | selectDb d =>
    simp only [step,selectDb] at h
    split at h
    · exact fault_of_enabled h (.bind (getClient_errors (by simp [faults]) s _)
        fun _ _ => .pure _)
    · cases h
    · cases h
  | killClient c =>
    simp only [step,killClient] at h
    split at h
    · simp at h
    · cases h
  | configSet cfg =>
    simp only [step,configSet] at h
    split at h
    · simp at h
    · cases h
  | runProc abort =>
    rcases fault_runProc h with rfl | ⟨rfl,_⟩
    all_goals simp [faults]
  | execNext denied =>
    simp only [step,execNext] at h
    split at h
    · exact fault_of_some h (.bind (getClient_errors (by simp [faults]) s _) fun _ _ => .pure _)
    · exact fault_of_some h (.bind (getClient_errors (by simp [faults]) s _) fun _ _ => .pure _)
    · cases h
  | ret =>
    simp only [step,ret] at h
    split at h
    · refine fault_of_some h (.bind (getClient_errors (by simp [faults]) s _) fun _ _ => ?_)
      split <;> exact .pure _
    · cases h
  | replicateCommands =>
    simp only [step,replicateCommands] at h
    split at h <;> cases h
  | redisCall q => exact fault_redisCall h
  | luaRet =>
    simp only [step,luaRet] at h
    split at h
    · split at h <;> cases h
    · cases h
  | scriptExit =>
    simp only [step,scriptExit] at h
    split at h
    · split at h
      · exact fault_of_some h (.error (by simp [faults]))
      · cases h
    · cases h
  | finishKey =>
    simp only [step,finishKey] at h
    split at h
    · cases h
    · exact fault_of_some h (.bind (scriptKey_errors (fun _ h => h) _) fun _ _ => .pure _)
    · cases h
  | scriptResume pick =>
    obtain ⟨k,c,cs,rest,_,h⟩ := step_scriptResume_error h
    exact fault_resume h

end Server
end RedRock
