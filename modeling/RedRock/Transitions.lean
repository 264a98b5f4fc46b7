import RedRock.Step

/-!
What each action can do: the transitions are listed once, and every invariant is checked against
the list.
-/

namespace RedRock
open Lib Option Server

namespace Server
variable {n : Nat} {s t : Server n}
variable {d : Fin (n+1)} {c : ClientId} {pick : Sds} {key : Sds}

attribute [local simp] step

lemma atLoop_iff : s.atLoop = true ↔ s.stack = [] ∧ s.handler = .idle := by
  simp [atLoop]

def expireOp (d : Fin (n+1)) (key : Sds) (async : Bool) : KsOp n :=
  if async then .dbAsyncDelete d key else .dbSyncDelete d key

structure Client.Ended (p : Proc) (cl cl' : Client n) : Prop where
  db : cl'.db = cl.db
  rockKeyNumber : cl'.rockKeyNumber = cl.rockKeyNumber
  querybuf : cl'.querybuf = cl.querybuf
  current : cl'.current = cl.current
  mstate : cl'.mstate = cl.mstate ∨ p.skipsQueue = true ∧ cl'.mstate = []

inductive Transition (s : Server n) : Act n → Server n → Prop where
  | rockTakeNone : Transition s .rockTake s
  | rockTake {d key : _} (hth : s.rockThread = .idle) (hd : s.rockJob.dbid = some d)
      (hw : s.rockJob.workKey = some key) :
      Transition s .rockTake { s with rockThread := .took d key }
  | rockRead {d key val : _} (hth : s.rockThread = .took d key)
      (hv : s.restoreObjFromRocksdb d key = .ok val) :
      Transition s .rockRead { s with rockThread := .loaded d key val }
  | rockComplete {d key val : _} (hth : s.rockThread = .loaded d key val)
      (hw : s.rockJob.workKey = some key) (hd : s.rockJob.dbid = some d)
      (hr : s.rockJob.returnKey = none) : Transition s .rockComplete { s with
        rockJob := { s.rockJob with workKey := none, returnKey := some key, valInRock := some val }
        rockThread := .completed }
  | rockSignal (hth : s.rockThread = .completed) : Transition s .rockSignal s.rockSignal
  | accept {c : _} (hs : s.stack = []) (hh : s.handler = .idle) (hn : s.clients c = none) :
      Transition s (.accept c) (s.setClient c (some (createClient n)))
  | readQuery {c cmds cl : _} (hcl : s.clients c = some cl) (hs : s.stack = [])
      (hh : s.handler = .idle) :
      Transition s (.readQuery c cmds)
        { s.setClient c (some { cl with querybuf := cl.querybuf ++ cmds }) with
          stack := if cl.rockKeyNumber > 0 then [] else [.input c] }
  | freeClient {c : _} (hs : s.stack = []) (hh : s.handler = .idle) :
      Transition s (.freeClient c) (s.freeClient c)
  | pipeReadable {t : _} (hs : s.stack = []) (hh : s.handler = .idle) (hp : s.rockPipe > 0)
      (hok : s.rockPipeReadHandler = .ok t) : Transition s .pipeReadable t
  | handlerResumed {pick : _} (hs : s.stack = []) (hh : s.handler = .clearFinish []) :
      Transition s (.handlerResume pick) { s with handler := .moreJob }
  | handlerResume {t pick c cs : _} (hs : s.stack = []) (hh : s.handler = .clearFinish (c :: cs))
      (hck : ({ s with handler := .clearFinish cs }).checkThenCall c pick = .ok t) :
      Transition s (.handlerResume pick) t
  | handlerMoreJob {t pick : _} (hs : s.stack = []) (hh : s.handler = .moreJob)
      (hok : s.handlerMoreJob pick = .ok t) : Transition s (.handlerMoreJob pick) t
  | handlerRead (hs : s.stack = []) (hh : s.handler = .drain) (hp : s.rockPipe > 0) :
      Transition s .handlerRead { s with handler := .idle, rockPipe := s.rockPipe - 1 }
  | inputEnd {reject pick c rest cl : _} (hs : s.stack = .input c :: rest)
      (hcl : s.clients c = some cl) (hq : cl.querybuf = [] ∨ 0 < cl.rockKeyNumber) :
      Transition s (.nextCommand reject pick) { s with stack := rest }
  | refused {flags pick c rest cl q qs : _} (hs : s.stack = .input c :: rest)
      (hcl : s.clients c = some cl) (hqb : cl.querybuf = q :: qs) (hz : cl.rockKeyNumber = 0) :
      Transition s (.nextCommand (some flags) pick) (s.setClient c (some
        { cl with querybuf := qs, dirtyExec := cl.dirtyExec || cl.multi && flags }))
  | queued {pick c rest cl q qs : _} (hs : s.stack = .input c :: rest) (hcl : s.clients c = some cl)
      (hqb : cl.querybuf = q :: qs) (hz : cl.rockKeyNumber = 0) (hm : cl.multi = true)
      (hq : q.cmd.proc.skipsQueue = false) :
      Transition s (.nextCommand none pick) (s.setClient c (some { cl with
        querybuf := qs, mstate := cl.mstate ++ [q], reply := cl.reply ++ ["+QUEUED"] }))
  | checked {t pick c rest cl q qs : _} (hs : s.stack = .input c :: rest)
      (hcl : s.clients c = some cl) (hqb : cl.querybuf = q :: qs) (hz : cl.rockKeyNumber = 0)
      (hskip : cl.multi = true → q.cmd.proc.skipsQueue = true)
      (hck : ({ s.setClient c (some { cl with querybuf := qs, current := some q }) with
        stack := rest }).checkThenCall c pick = .ok t) : Transition s (.nextCommand none pick) t
  | breakInput {c rest : _} (hs : s.stack = .input c :: rest) :
      Transition s .breakInput { s with stack := rest }
  | initHotKeys {t : _} (hm : s.canFreeMemory = true) (hi : s.alreadyInitHotKeys = false)
      (hok : s.initHotKeys = .ok t) : Transition s .initHotKeys t
  | sampleHotKey {d key : _} : Transition s (.sampleHotKey d key) s
  | dump {t d key : _} (hm : s.canFreeMemory = true) (hi : s.alreadyInitHotKeys = true)
      (hv : ∃ val, (s.db d).dict.lookup key = some val ∧ isValueSuitForDumpRock val = true)
      (hk : key ∉ (s.db d).rockKeys) (hok : s.dumpValToRock d key = .ok t) :
      Transition s (.dump d key) t
  | expired {u d key async : _} (he : s.canExpire = true)
      (hu : s.applyOp (expireOp d key async) = .ok u) :
      Transition s (.expired d key async) { u with
        applied := u.applied ++ [expireOp d key async]
        propagated := u.propagated ++ [.command [expireOp d key async]] }
  | op {u o f rest q : _} (hs : s.stack = f :: rest) (hf : f.running = some q)
      (hw : q.cmd.write = true) (he : s.opEnabled o = true) (hu : s.applyOp o = .ok u) :
      Transition s (.op o) { u with
        stack := f.addEffect o :: rest, dirty := u.dirty + 1, applied := u.applied ++ [o] }
  | selectDb {d k rest cl : _} (hs : s.stack = .call k .proc :: rest) (hk : k.cmd.cmd.proc = .other)
      (hcl : s.clients k.client = some cl) :
      Transition s (.selectDb d) (s.setClient k.client (some { cl with db := d }))
  | luaSelectDb {d k lua q dirty fx rest : _}
      (hs : s.stack = .call k (.luaCall lua q dirty fx) :: rest) :
      Transition s (.selectDb d) { s with luaClient := { s.luaClient with db := d } }
  | killClient {c k rest : _} (hs : s.stack = .call k .proc :: rest) (hk : k.cmd.cmd.proc = .other)
      (hc : c ≠ k.client) : Transition s (.killClient c) (s.freeClient c)
  | configSet {cfg k rest : _} (hs : s.stack = .call k .proc :: rest)
      (hk : k.cmd.cmd.proc = .other) : Transition s (.configSet cfg) { s with config := cfg }
  | procEnd {abort k rest cl cl' : _} (hs : s.stack = .call k .proc :: rest)
      (hcl : s.clients k.client = some cl) (he : Client.Ended k.cmd.cmd.proc cl cl') :
      Transition s (.runProc abort)
        (({ s with stack := .call k .done :: rest }).setClient k.client (some cl'))
  | procExec {abort k rest cl : _} (hs : s.stack = .call k .proc :: rest)
      (hcl : s.clients k.client = some cl) (hk : k.cmd.cmd.proc = .exec) (hm : cl.multi = true) :
      Transition s (.runProc abort) { s with stack := .call k (.exec cl.mstate false) :: rest }
  | procEval {abort k rest cl : _} (hs : s.stack = .call k .proc :: rest)
      (hcl : s.clients k.client = some cl) (hk : k.cmd.cmd.proc = .eval)
      (hn : s.maybeFinishKeys = none) :
      Transition s (.runProc abort) { s.prepareLuaClient cl with
        maybeFinishKeys := some [], stack := .call k (.script ⟨false,false,false⟩) :: rest }
  | execEnd {denied k rest cl mp : _} (hs : s.stack = .call k (.exec [] mp) :: rest)
      (hcl : s.clients k.client = some cl) :
      Transition s (.execNext denied) { s.setClient k.client (some cl.discard) with
        stack := .call k .done :: rest, dirty := s.dirty + mp.toNat }
  | execNext {denied k rest cl mp q qs : _} (hs : s.stack = .call k (.exec (q :: qs) mp) :: rest)
      (hcl : s.clients k.client = some cl) :
      Transition s (.execNext denied) { s with
        propagated := s.propagated ++ (if !mp && !q.cmd.readonlyOrAdmin then [.multi] else [])
        stack := (if denied then [] else [.call ⟨k.client,q,s.dirty,[],false⟩ .proc]) ++
          .call k (.exec qs (mp || (!mp && !q.cmd.readonlyOrAdmin))) :: rest }
  | ret {k rest cl cl' : _} (hs : s.stack = .call k .done :: rest)
      (hcl : s.clients k.client = some cl)
      (he : cl' = cl ∨ ((∃ c r, rest = .input c :: r) ∧ cl' = { cl with current := none })) :
      Transition s .ret (({ s with
        stack := rest
        propagated := s.propagated ++ Call.propagates k s.dirty }).setClient k.client (some cl'))
  | replicateCommands {k lua rest : _} (hs : s.stack = .call k (.script lua) :: rest) :
      Transition s .replicateCommands { s with stack := .call k (.script
        { lua with replicate := lua.replicate || !lua.writeDirty }) :: rest }
  | redisCall {u q k lua rest caller lua' : _} (hs : s.stack = .call k (.script lua) :: rest)
      (hp : q.cmd.proc = .other) (hcl : s.clients k.client = some caller)
      (hu : s.luaRedisGenericCommand lua caller q = .ok (u,lua')) :
      Transition s (.redisCall q) { u with stack := .call k (.luaCall lua' q u.dirty []) :: rest }
  | luaRetReplicated {k lua q dirty fx rest : _}
      (hs : s.stack = .call k (.luaCall lua q dirty fx) :: rest) (hr : lua.replicate = true) :
      Transition s .luaRet { s with
        stack := .call k (.script lua) :: rest
        propagated := s.propagated ++ (if s.dirty = dirty then [] else [.command fx]) }
  | luaRet {k lua q dirty fx rest : _} (hs : s.stack = .call k (.luaCall lua q dirty fx) :: rest)
      (hr : lua.replicate = false) :
      Transition s .luaRet { s with
        stack := .call { k with effects := k.effects ++ fx } (.script lua) :: rest }
  | scriptExit {k lua rest l : _} (hs : s.stack = .call k (.script lua) :: rest)
      (hl : s.maybeFinishKeys = some l) :
      Transition s .scriptExit { s.resetLuaClient with
        stack := .call { k with preventProp := lua.replicate }
          (.finishKeys (needFinishKeys s.db [] l) []) :: rest
        propagated := s.propagated ++ (if lua.replicate && lua.multiEmitted then [.exec] else []) }
  | keysFinished {k rest zs : _} (hs : s.stack = .call k (.finishKeys [] zs) :: rest) :
      Transition s .finishKey { s with stack := .call k (.resume zs) :: rest }
  | finishKey {u k rest zs m ms zs' : _} (hs : s.stack = .call k (.finishKeys (m :: ms) zs) :: rest)
      (hu : s.finishKeyFromScript m = .ok (u,zs')) :
      Transition s .finishKey { u with stack := .call k (.finishKeys ms (zs ++ zs')) :: rest }
  | scriptResumed {pick k rest : _} (hs : s.stack = .call k (.resume []) :: rest) :
      Transition s (.scriptResume pick)
        { s with stack := .call k .done :: rest, maybeFinishKeys := none }
  | scriptResume {t pick k rest c cs : _} (hs : s.stack = .call k (.resume (c :: cs)) :: rest)
      (hck : ({ s with stack := .call k (.resume cs) :: rest }).checkThenCall c pick = .ok t) :
      Transition s (.scriptResume pick) t

lemma step_handlerResume (h : s.step (.handlerResume pick) = some (.ok t)) :
    Transition s (.handlerResume pick) t := by
  simp only [step,handlerResume] at h
  split at h
  · rename_i hs hh
    cases h
    exact .handlerResumed hs hh
  · rename_i c cs hs hh
    exact .handlerResume hs hh (resumeClient_ok (some.inj h))
  · cases h

lemma step_nextCommand {reject : Option Bool} (h : s.step (.nextCommand reject pick) = some (.ok t)) :
    Transition s (.nextCommand reject pick) t := by
  simp only [step,nextCommand] at h
  split at h
  · rename_i c rest hs
    obtain ⟨cl,hcl,h⟩ := bind_ok.mp (some.inj h)
    rw [getClient_ok] at hcl
    split at h
    · rename_i hq
      cases h
      exact .inputEnd hs hcl (.inl hq)
    rename_i q qs hqb
    split at h
    · rename_i hz
      cases h
      exact .inputEnd hs hcl (.inr hz)
    rename_i hz
    have hz : cl.rockKeyNumber = 0 := by omega
    cases reject with
    | some flags =>
      cases h
      exact .refused hs hcl hqb hz
    | none =>
      simp only at h
      split at h
      · rename_i hm
        simp only [Bool.and_eq_true,Bool.not_eq_true'] at hm
        cases h
        exact .queued hs hcl hqb hz hm.1 hm.2
      rename_i hm
      refine .checked hs hcl hqb hz (fun hmulti => ?_) h
      simpa [hmulti] using hm
  · cases h

lemma step_op {o : KsOp n} (h : s.step (.op o) = some (.ok t)) : Transition s (.op o) t := by
  simp only [step,op] at h
  split at h
  · rename_i f rest hs
    split at h
    · rename_i q hq
      simp only [enabled_iff] at h
      obtain ⟨u,hu,ht⟩ := bind_ok.mp h.2
      cases ht
      exact .op hs hq h.1.1 h.1.2 hu
    · cases h
  · cases h

lemma step_selectDb (h : s.step (.selectDb d) = some (.ok t)) : Transition s (.selectDb d) t := by
  simp only [step,selectDb] at h
  split at h
  · rename_i k rest hs
    simp only [enabled_iff] at h
    obtain ⟨cl,hcl,ht⟩ := bind_ok.mp h.2
    cases ht
    exact .selectDb hs h.1 (getClient_ok.mp hcl)
  · rename_i k lua q dirty fx rest hs
    cases h
    exact .luaSelectDb hs
  · cases h

lemma step_runProc {abort : Bool} (h : s.step (.runProc abort) = some (.ok t)) :
    Transition s (.runProc abort) t := by
  simp only [step,runProc] at h
  split at h
  · rename_i k rest hs
    obtain ⟨cl,hcl,h⟩ := bind_ok.mp (some.inj h)
    rw [getClient_ok] at hcl
    have hkeep : ∀ m b r, Transition s (.runProc abort)
        (({ s with stack := .call k .done :: rest }).setClient k.client
          (some { cl with multi := m, dirtyExec := b, reply := r })) :=
      fun m b r => .procEnd hs hcl ⟨rfl,rfl,rfl,rfl,.inl rfl⟩
    have hdiscard : ∀ r, k.cmd.cmd.proc.skipsQueue = true → Transition s (.runProc abort)
        (({ s with stack := .call k .done :: rest }).setClient k.client
          (some (addReply cl.discard r))) :=
      fun r hp => .procEnd hs hcl ⟨rfl,rfl,rfl,rfl,.inr ⟨hp,rfl⟩⟩
    split at h
    case h_1 => split at h <;> cases h <;> exact hkeep _ _ _
    case h_2 hp =>
      split at h <;> cases h
      · exact hdiscard _ (by rw [hp]; rfl)
      · exact hkeep _ _ _
    case h_3 => split at h <;> cases h <;> exact hkeep _ _ _
    case h_4 hp =>
      split at h
      · cases h
        exact hkeep _ _ _
      rename_i hm
      split at h
      · cases h
        exact hdiscard _ (by rw [hp]; rfl)
      split at h <;> cases h
      · exact hdiscard _ (by rw [hp]; rfl)
      · exact .procExec hs hcl hp (by simpa using hm)
    case h_5 hp =>
      split at h
      · cases h
        exact hkeep _ _ _
      obtain ⟨u,hu,h⟩ := bind_ok.mp h
      rw [scriptWhenStartForRock,assert_ok,pure_ok] at hu
      obtain ⟨hn,rfl⟩ := hu
      cases h
      exact .procEval hs hcl hp hn
    case h_6 =>
      cases h
      exact hkeep _ _ _
  · cases h

lemma step_execNext {denied : Bool} (h : s.step (.execNext denied) = some (.ok t)) :
    Transition s (.execNext denied) t := by
  simp only [step,execNext] at h
  split at h
  · rename_i k mp rest hs
    obtain ⟨cl,hcl,h⟩ := bind_ok.mp (some.inj h)
    cases h
    exact .execEnd hs (getClient_ok.mp hcl)
  · rename_i k q qs mp rest hs
    obtain ⟨cl,hcl,h⟩ := bind_ok.mp (some.inj h)
    cases h
    exact .execNext hs (getClient_ok.mp hcl)
  · cases h

lemma step_ret (h : s.step .ret = some (.ok t)) : Transition s .ret t := by
  simp only [step,ret] at h
  split at h
  · rename_i k rest hs
    obtain ⟨cl,hcl,h⟩ := bind_ok.mp (some.inj h)
    rw [getClient_ok] at hcl
    split at h
    · cases h
      exact .ret hs hcl (.inr ⟨⟨_,_,rfl⟩,rfl⟩)
    convert Transition.ret hs hcl (.inl rfl)
    rw [pure_ok.mp h]
    simp [setClient,← hcl]
  · cases h

lemma step_redisCall {q : Command} (h : s.step (.redisCall q) = some (.ok t)) :
    Transition s (.redisCall q) t := by
  simp only [step,redisCall] at h
  split at h
  · rename_i k lua rest hs
    simp only [enabled_iff] at h
    obtain ⟨caller,hcl,h'⟩ := bind_ok.mp h.2
    obtain ⟨⟨u,lua'⟩,hu,ht⟩ := bind_ok.mp h'
    cases ht
    exact .redisCall hs h.1 (getClient_ok.mp hcl) hu
  · cases h

lemma step_luaRet (h : s.step .luaRet = some (.ok t)) : Transition s .luaRet t := by
  simp only [step,luaRet] at h
  split at h
  · rename_i k lua q dirty fx rest hs
    split at h
    · rename_i hr
      cases h
      exact .luaRetReplicated hs hr
    rename_i hr
    cases h
    exact .luaRet hs (by simpa using hr)
  · cases h

lemma step_scriptExit (h : s.step .scriptExit = some (.ok t)) : Transition s .scriptExit t := by
  simp only [step,scriptExit] at h
  split at h
  · rename_i k lua rest hs
    split at h
    · cases h
    rename_i l hl
    cases h
    exact .scriptExit hs hl
  · cases h

lemma step_finishKey (h : s.step .finishKey = some (.ok t)) : Transition s .finishKey t := by
  simp only [step,finishKey] at h
  split at h
  · rename_i k zs rest hs
    cases h
    exact .keysFinished hs
  · rename_i k m ms zs rest hs
    obtain ⟨⟨u,zs'⟩,hu,ht⟩ := bind_ok.mp (some.inj h)
    cases ht
    exact .finishKey hs hu
  · cases h

lemma step_scriptResume (h : s.step (.scriptResume pick) = some (.ok t)) :
    Transition s (.scriptResume pick) t := by
  simp only [step,scriptResume] at h
  split at h
  · rename_i k rest hs
    cases h
    exact .scriptResumed hs
  · rename_i k c cs rest hs
    exact .scriptResume hs (resumeClient_ok (some.inj h))
  · cases h

lemma transition_of {a : Act n} (h : s.step a = some (.ok t)) : Transition s a t := by
  cases a with
  | rockTake =>
    obtain ⟨hth,h⟩ : s.rockThread = .idle ∧ s.rockTake = .ok t := by simpa using h
    rcases rockTake_ok h with rfl | ⟨d,key,hd,hw,_,rfl⟩
    · exact .rockTakeNone
    · exact .rockTake hth hd hw
  | rockRead =>
    simp only [step] at h
    split at h
    · rename_i d key hth
      obtain ⟨val,hv,ht⟩ := bind_ok.mp (some.inj h)
      cases ht
      exact .rockRead hth hv
    · cases h
  | rockComplete =>
    simp only [step] at h
    split at h
    · rename_i d key val hth
      obtain ⟨hw,hd,hr,rfl⟩ := rockComplete_ok (some.inj h)
      exact .rockComplete hth hw hd hr
    · cases h
  | rockSignal =>
    obtain ⟨hth,rfl⟩ : s.rockThread = .completed ∧ s.rockSignal = t := by simpa using h
    exact .rockSignal hth
  | accept =>
    simp only [step,accept,atLoop_iff,enabled_ok_iff] at h
    obtain ⟨⟨⟨hs,hh⟩,hn⟩,rfl⟩ := h
    exact .accept hs hh hn
  | readQuery =>
    simp only [step,readQuery] at h
    split at h
    · rename_i cl hcl
      simp only [atLoop_iff,enabled_ok_iff] at h
      obtain ⟨⟨hs,hh⟩,rfl⟩ := h
      exact .readQuery hcl hs hh
    · cases h
  | freeClient =>
    simp only [step,atLoop_iff,enabled_ok_iff] at h
    obtain ⟨⟨hs,hh⟩,rfl⟩ := h
    exact .freeClient hs hh
  | pipeReadable =>
    simp only [step,atLoop_iff,enabled_iff] at h
    exact .pipeReadable h.1.1.1 h.1.1.2 h.1.2 h.2
  | handlerResume => exact step_handlerResume h
  | handlerMoreJob =>
    simp only [step,enabled_iff] at h
    exact .handlerMoreJob h.1.1 h.1.2 h.2
  | handlerRead =>
    simp only [step,enabled_ok_iff] at h
    obtain ⟨⟨hs,hh,hp⟩,rfl⟩ := h
    exact .handlerRead hs hh hp
  | nextCommand => exact step_nextCommand h
  | breakInput =>
    simp only [step] at h
    split at h
    · rename_i c rest hs
      cases h
      exact .breakInput hs
    · cases h
  | initHotKeys =>
    simp only [step,enabled_iff,Bool.not_eq_true'] at h
    exact .initHotKeys h.1.1 h.1.2 h.2
  | sampleHotKey =>
    simp only [step,sampleHotKey,enabled_iff] at h
    obtain ⟨_,h⟩ := h
    split at h
    · cases h
      exact .sampleHotKey
    · cases h
  | dump =>
    simp only [step,dump] at h
    split at h
    · rename_i val hv
      simp only [enabled_iff] at h
      exact .dump h.1.1 h.1.2.1 ⟨val,hv,h.1.2.2.1⟩ h.1.2.2.2 h.2
    · cases h
  | expired =>
    simp only [step,expired,enabled_iff] at h
    obtain ⟨u,hu,ht⟩ := bind_ok.mp h.2
    cases ht
    exact .expired h.1 hu
  | op => exact step_op h
  | selectDb => exact step_selectDb h
  | killClient =>
    simp only [step,killClient] at h
    split at h
    · rename_i k rest hs
      simp only [enabled_ok_iff] at h
      obtain ⟨⟨hk,hc⟩,rfl⟩ := h
      exact .killClient hs hk hc
    · cases h
  | configSet =>
    simp only [step,configSet] at h
    split at h
    · rename_i k rest hs
      simp only [enabled_ok_iff] at h
      obtain ⟨hk,rfl⟩ := h
      exact .configSet hs hk
    · cases h
  | runProc => exact step_runProc h
  | execNext => exact step_execNext h
  | ret => exact step_ret h
  | replicateCommands =>
    simp only [step,replicateCommands] at h
    split at h
    · rename_i k lua rest hs
      cases h
      exact .replicateCommands hs
    · cases h
  | redisCall => exact step_redisCall h
  | luaRet => exact step_luaRet h
  | scriptExit => exact step_scriptExit h
  | finishKey => exact step_finishKey h
  | scriptResume => exact step_scriptResume h

end Server
end RedRock
