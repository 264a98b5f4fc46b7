import RedRock.Footprint

/-!
The control side of a step: the call stack, what the clients are doing, and the
effects and their propagation. The actions of the rock thread and of the pipe
handler leave all of it alone.
-/

namespace RedRock
open Lib

def Client.control {n : Nat} (cl : Client n) : Client n := { cl with rockKeyNumber := 0, reply := [] }

lemma Client.control_eq {n : Nat} {cl cl' : Client n} (h : cl.control = cl'.control) :
    cl.db = cl'.db ∧ cl.multi = cl'.multi ∧ cl.mstate = cl'.mstate ∧ cl.current = cl'.current ∧
      cl.querybuf = cl'.querybuf := by
  simp only [Client.control,Client.mk.injEq] at h
  exact ⟨h.1,h.2.1,h.2.2.2.1,h.2.2.2.2.1,h.2.2.2.2.2.2.1⟩

def Act.still {n : Nat} : Act n → Bool
  | .rockTake | .rockRead | .rockComplete | .rockSignal | .pipeReadable | .handlerMoreJob _
  | .handlerRead | .initHotKeys | .sampleHotKey _ _ | .dump _ _ | .configSet _ => true
  | _ => false

namespace Server
variable {n : Nat} {s t u : Server n} {a : Act n}
variable {c : ClientId} {cl : Client n}

structure Still (s t : Server n) : Prop where
  stack : t.stack = s.stack
  clients : ∀ c, (t.clients c).map Client.control = (s.clients c).map Client.control
  maybeFinishKeys : t.maybeFinishKeys = s.maybeFinishKeys
  dirty : t.dirty = s.dirty
  propagated : t.propagated = s.propagated
  applied : t.applied = s.applied

namespace Still

lemma refl (s : Server n) : Still s s := ⟨rfl,fun _ => rfl,rfl,rfl,rfl,rfl⟩

lemma trans (h : Still s t) (h' : Still t u) : Still s u where
  stack := h'.stack.trans h.stack
  clients c := (h'.clients c).trans (h.clients c)
  maybeFinishKeys := h'.maybeFinishKeys.trans h.maybeFinishKeys
  dirty := h'.dirty.trans h.dirty
  propagated := h'.propagated.trans h.propagated
  applied := h'.applied.trans h.applied

lemma of_keyspace (h : KeyspaceOnly s t) : Still s t := by
  obtain ⟨db,b,rfl,_⟩ := h
  exact ⟨rfl,fun _ => rfl,rfl,rfl,rfl,rfl⟩

lemma setClient (cl' : Client n) (hc : s.clients c = some cl) (he : cl'.control = cl.control) :
    Still s (s.setClient c (some cl')) := by
  refine ⟨rfl,fun x => ?_,rfl,rfl,rfl,rfl⟩
  rw [set_clients]
  by_cases hx : x = c
  · subst hx
    simp [hc,he]
  · simp [hx]

lemma client (h : Still s t) (hc : t.clients c = some cl) :
    ∃ cl', s.clients c = some cl' ∧ cl.control = cl'.control := by
  have hx := h.clients c
  rw [hc] at hx
  cases hs : s.clients c with
  | none =>
    rw [hs] at hx
    cases hx
  | some cl' =>
    rw [hs] at hx
    exact ⟨cl',rfl,Option.some.inj hx⟩

end Still

lemma decr_still {cs zs : List ClientId}
    (h : s.decrRockKeyNumbers cs = .ok (t,zs)) : Still s t := by
  rw [(decr_ok h).1]
  refine ⟨rfl,fun c => ?_,rfl,rfl,rfl,rfl⟩
  rw [Option.map_map]
  rfl

lemma scriptKey_still {m : ScriptMaybeKey n} {zs : List ClientId}
    (h : s.finishKeyFromScript m = .ok (t,zs)) : Still s t := by
  rcases scriptKey_ok h with ⟨_,rfl,_⟩ | ⟨clients,u,v,_,hu,hv,rfl⟩
  · exact .refl _
  have hsu := decr_still hu
  rcases markFinished_ok hv with ⟨_,_,rfl⟩ | ⟨_,rfl⟩
  all_goals exact hsu.trans ⟨rfl,fun _ => rfl,rfl,rfl,rfl,rfl⟩

lemma still_pipeReadable (h : s.rockPipeReadHandler = .ok t) : Still s t := by
  obtain ⟨d,key,val,_,_,_,_,hcase⟩ := pipeHandler_ok h
  rcases hcase with ⟨_,rfl⟩ | ⟨_,hcf⟩
  · exact ⟨rfl,fun _ => rfl,rfl,rfl,rfl,rfl⟩
  obtain ⟨u,clients,zs,v,hu,_,hv,rfl⟩ := clearFinishKey_ok hcf
  have huv := (Still.of_keyspace (finished_keyspace hu)).trans (decr_still hv)
  exact huv.trans ⟨rfl,fun _ => rfl,rfl,rfl,rfl,rfl⟩

lemma still_of_step (ha : a.still = true) (h : s.step a = some (.ok t)) : Still s t := by
  cases transition_of h with
  | rockTakeNone | sampleHotKey => exact .refl _
  | rockTake | rockRead | rockComplete | rockSignal | handlerRead | configSet =>
    exact ⟨rfl,fun _ => rfl,rfl,rfl,rfl,rfl⟩
  | pipeReadable _ _ _ hs => exact still_pipeReadable hs
  | handlerMoreJob _ _ hs =>
    rcases moreJob_ok hs with ⟨_,_,_,_,rfl⟩ | ⟨_,rfl⟩
    all_goals exact ⟨rfl,fun _ => rfl,rfl,rfl,rfl,rfl⟩
  | initHotKeys _ _ hs =>
    rw [(initHotKeys_ok.mp hs).2.2]
    exact ⟨rfl,fun _ => rfl,rfl,rfl,rfl,rfl⟩
  | dump _ _ _ _ hs =>
    obtain ⟨_,_,_,_,_,_,_,rfl⟩ := dumpVal_ok.mp hs
    exact ⟨rfl,fun _ => rfl,rfl,rfl,rfl,rfl⟩
  | _ => cases ha

lemma checkCall_control {pick : Sds} (h : s.checkThenCall c pick = .ok t) :
    ∃ cl q keys errs, s.clients c = some cl ∧ cl.current = some q ∧
      checkRock (s.db cl.db) cl q = .ok (keys,errs) ∧
      ((keys = [] ∧ Still { s with
          stack := .call ⟨c,q,s.dirty,[],false⟩ .proc :: .input c :: s.stack } t) ∨
       (keys ≠ [] ∧ Still s t)) := by
  obtain ⟨cl,q,keys,errs,hcl,hz,hq,hk,hr⟩ := checkCall_ok h
  refine ⟨cl,q,keys,errs,hcl,hq,hk,?_⟩
  rcases hr with ⟨hnil,rfl⟩ | ⟨hne,hs⟩
  · exact .inl ⟨hnil,Still.setClient (s := { s with stack := _ }) _ hcl rfl⟩
  have hreg : Still s (s.registerWaiter c cl keys errs) :=
    (Still.setClient { cl with rockKeyNumber := keys.length, reply := cl.reply ++ errs }
      hcl rfl).trans
      ⟨rfl,fun _ => rfl,rfl,rfl,rfl,rfl⟩
  rcases startJob_ok hs with ⟨_,rfl⟩ | ⟨_,_,_,d,key,_,rfl⟩
  · exact .inr ⟨hne,hreg⟩
  · exact .inr ⟨hne,hreg.trans ⟨rfl,fun _ => rfl,rfl,rfl,rfl,rfl⟩⟩

end Server
end RedRock
