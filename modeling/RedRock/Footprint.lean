import RedRock.Transitions

/-!
Most actions leave the protocol between the clients, the job slot and the rock
thread alone. They are the quiet ones; the invariants of the protocol are checked
against the others only.
-/

namespace RedRock
open Lib List

def Frame.active {n : Nat} : Frame n → List ClientId
  | .input c => [c]
  | .call _ (.finishKeys _ zs) => zs
  | .call _ (.resume zs) => zs
  | _ => []

def Handler.active : Handler → List ClientId
  | .clearFinish zs => zs
  | _ => []

lemma Frame.active_addEffect {n : Nat} (o : KsOp n) (f : Frame n) :
    (f.addEffect o).active = f.active := by
  unfold Frame.addEffect
  split
  · rfl
  · rename_i k phase _
    cases phase <;> rfl
  · rfl

def Act.quiet {n : Nat} : Act n → Bool
  | .initHotKeys | .sampleHotKey _ _ | .dump _ _ | .expired _ _ _ | .op _ | .selectDb _
  | .configSet _ | .runProc _ | .execNext _ | .ret | .replicateCommands | .redisCall _
  | .luaRet | .scriptExit => true
  | _ => false

namespace Server
variable {n : Nat} {s t u : Server n}
variable {rest : List (Frame n)} {f : Frame n}

def active (s : Server n) : List ClientId := s.handler.active ++ s.stack.flatMap Frame.active

lemma active_of_cons (h : s.stack = f :: rest) :
    s.active = s.handler.active ++ (f.active ++ rest.flatMap Frame.active) := by
  simp [active,h]

structure Quiet (s t : Server n) : Prop where
  rockJob : t.rockJob = s.rockJob
  rockThread : t.rockThread = s.rockThread
  rockPipe : t.rockPipe = s.rockPipe
  handler : t.handler = s.handler
  jobKeyRemoved : t.jobKeyRemoved = s.jobKeyRemoved
  rockKeys : ∀ d, (t.db d).rockKeys = (s.db d).rockKeys
  rockKeyNumber : ∀ c, (t.clients c).map Client.rockKeyNumber =
    (s.clients c).map Client.rockKeyNumber
  active : t.active = s.active
  luaClient : t.luaClient.rockKeyNumber = s.luaClient.rockKeyNumber ∧
    t.luaClient.mstate = s.luaClient.mstate

namespace Quiet

lemma refl (s : Server n) : Quiet s s :=
  ⟨rfl,rfl,rfl,rfl,rfl,fun _ => rfl,fun _ => rfl,rfl,rfl,rfl⟩

lemma trans (h : Quiet s t) (h' : Quiet t u) : Quiet s u where
  rockJob := h'.rockJob.trans h.rockJob
  rockThread := h'.rockThread.trans h.rockThread
  rockPipe := h'.rockPipe.trans h.rockPipe
  handler := h'.handler.trans h.handler
  jobKeyRemoved := h'.jobKeyRemoved.trans h.jobKeyRemoved
  rockKeys d := (h'.rockKeys d).trans (h.rockKeys d)
  rockKeyNumber c := (h'.rockKeyNumber c).trans (h.rockKeyNumber c)
  active := h'.active.trans h.active
  luaClient := ⟨h'.luaClient.1.trans h.luaClient.1,h'.luaClient.2.trans h.luaClient.2⟩

lemma of_keyspace (h : KeyspaceOnly s t) : Quiet s t := by
  obtain ⟨db,b,rfl,hk⟩ := h
  exact ⟨rfl,rfl,rfl,rfl,rfl,hk,fun _ => rfl,rfl,rfl,rfl⟩

lemma of_script (h : ScriptOnly s t) : Quiet s t := by
  obtain ⟨db,l,m,r,ps,rfl,hk⟩ := h
  exact ⟨rfl,rfl,rfl,rfl,rfl,hk,fun _ => rfl,rfl,rfl,rfl⟩

lemma control (s : Server n) (cfg : Config) (d : Fin (n+1)) (m : Bool)
    (l : Option (List (ScriptMaybeKey n))) (dirty : Nat) (ps : List (Propagated n))
    (fx : List (KsOp n)) : Quiet s { s with
      config := cfg, luaClient := { s.luaClient with db := d, multi := m }, maybeFinishKeys := l,
      dirty := dirty, propagated := ps, applied := fx } :=
  ⟨rfl,rfl,rfl,rfl,rfl,fun _ => rfl,fun _ => rfl,rfl,rfl,rfl⟩

lemma stack (fs gs : List (Frame n)) (hs : s.stack = fs ++ rest)
    (hf : gs.flatMap Frame.active = fs.flatMap Frame.active) :
    Quiet s { s with stack := gs ++ rest } := by
  refine ⟨rfl,rfl,rfl,rfl,rfl,fun _ => rfl,fun _ => rfl,?_,rfl,rfl⟩
  simp [Server.active,hs,flatMap_append,hf]

lemma head (g : Frame n) (hs : s.stack = f :: rest) (hf : g.active = f.active) :
    Quiet s { s with stack := g :: rest } :=
  stack [f] [g] hs (by simpa using hf)

lemma setClient {c : ClientId} {cl : Client n} (cl' : Client n) (hc : s.clients c = some cl)
    (hr : cl'.rockKeyNumber = cl.rockKeyNumber) : Quiet s (s.setClient c (some cl')) := by
  refine ⟨rfl,rfl,rfl,rfl,rfl,fun _ => rfl,fun x => ?_,rfl,rfl,rfl⟩
  rw [set_clients]
  by_cases hx : x = c
  · subst hx
    simp [hc,hr]
  · simp [hx]

end Quiet

lemma quiet_of_step {a : Act n} (ha : a.quiet = true) (h : s.step a = some (.ok t)) :
    Quiet s t := by
  cases transition_of h with
  | initHotKeys _ _ hs =>
    obtain ⟨_,_,rfl⟩ := initHotKeys_ok.mp hs
    exact .of_keyspace ⟨_,_,rfl,fun d => addHotKeys_rockKeys _ _⟩
  | sampleHotKey => exact .refl s
  | @dump _ d key _ _ _ _ hs =>
    obtain ⟨o,buf,_,_,_,_,_,rfl⟩ := dumpVal_ok.mp hs
    have hr : Quiet s
        { s with rocksdb := Function.update s.rocksdb d ((s.rocksdb d).insert key buf) } :=
      ⟨rfl,rfl,rfl,rfl,rfl,fun _ => rfl,fun _ => rfl,rfl,rfl,rfl⟩
    exact hr.trans (.of_keyspace (.updDb _ d fun _ => rfl))
  | expired _ hu =>
    exact (Quiet.of_keyspace (op_keyspace hu)).trans (.control _ _ _ _ _ _ _ _)
  | @op u o f rest q hst _ _ _ hu =>
    have hsu := Quiet.of_keyspace (op_keyspace hu)
    have hu' : u.stack = f :: rest := by
      obtain ⟨db,b,rfl,_⟩ := op_keyspace hu
      exact hst
    exact (hsu.trans (.head (f.addEffect o) hu' (Frame.active_addEffect o f))).trans
      (.control _ _ _ _ _ _ _ _)
  | selectDb _ _ hcl => exact .setClient _ hcl rfl
  | luaSelectDb | configSet => exact .control _ _ _ _ _ _ _ _
  | @procEnd _ k _ _ cl' hst hcl he =>
    have h1 := Quiet.head (.call k .done) hst rfl
    exact h1.trans (.setClient cl' hcl he.rockKeyNumber)
  | @procEval _ k _ _ hst =>
    have h1 := Quiet.head (.call k (.script ⟨false,false,false⟩)) hst rfl
    exact h1.trans (.control _ _ _ _ _ _ _ _)
  | @execEnd _ k _ cl _ hst hcl =>
    have h1 := Quiet.head (.call k .done) hst rfl
    have h2 := h1.trans (.setClient cl.discard hcl rfl)
    exact h2.trans (.control _ _ _ _ _ _ _ _)
  | @execNext denied k _ _ mp q qs hst =>
    have h1 := Quiet.stack [.call k (.exec (q :: qs) mp)]
      ((if denied then [] else [.call ⟨k.client,q,s.dirty,[],false⟩ .proc]) ++
        [.call k (.exec qs (mp || (!mp && !q.cmd.readonlyOrAdmin)))]) hst
      (by cases denied <;> rfl)
    rw [append_assoc] at h1
    exact h1.trans (.control _ _ _ _ _ _ _ _)
  | @ret k rest _ cl' hst hcl he =>
    have h1 : Quiet s { s with stack := rest } := .stack [.call k .done] [] hst rfl
    have h2 := h1.trans (.control _ s.config s.luaClient.db s.luaClient.multi s.maybeFinishKeys
      s.dirty (s.propagated ++ Call.propagates k s.dirty) s.applied)
    refine h2.trans (.setClient cl' hcl ?_)
    rcases he with rfl | ⟨_,rfl⟩
    · rfl
    · rfl
  | @redisCall u _ k lua rest _ _ hst _ _ hu =>
    have hs := luaCall_script hu
    have hu' : u.stack = .call k (.script lua) :: rest := by
      obtain ⟨db,l,m,r,ps,rfl,_⟩ := hs
      exact hst
    exact (Quiet.of_script hs).trans (.head _ hu' rfl)
  | @luaRetReplicated k lua _ _ _ _ hst =>
    have h1 := Quiet.head (.call k (.script lua)) hst rfl
    exact h1.trans (.control _ _ _ _ _ _ _ _)
  | procExec hst | replicateCommands hst | luaRet hst => exact .head _ hst rfl
  | @scriptExit k lua _ l hst =>
    have h1 := Quiet.head (.call { k with preventProp := lua.replicate }
      (.finishKeys (needFinishKeys s.db [] l) [])) hst rfl
    exact h1.trans (.control _ _ _ _ _ _ _ _)
  | _ => cases ha

end Server
end RedRock
