import RedRock.Slot

/-!
`alreadyFinishedByScript` tells the handler that a script has finished the key of
the job whose result it is about to take. It is cleared only together with the
whole slot, so it can outlive its job.
-/

namespace RedRock
open Lib Option

namespace Server
variable {n : Nat} {s t u : Server n} {a : Act n}

structure FlagInv (s : Server n) : Prop where
  removed : s.rockJob.alreadyFinishedByScript = true → s.jobKeyRemoved = true
  gone : s.rockJob.alreadyFinishedByScript = true → ∀ d key, s.rockJob.isFor d key →
    key ∉ (s.db d).rockKeys
  zero : s.rockJob.dbid = none → s.rockJob.alreadyFinishedByScript = false

def atMoreJob : Act n → Bool
  | .handlerMoreJob _ => true
  | _ => false

/-- While the flag is set, the handler does not start another job, and no client
begins to wait for the key of the marked job. -/
def FlagCond (s : Server n) (a : Act n) : Prop :=
  s.rockJob.alreadyFinishedByScript = true → (atMoreJob a = true → ∀ d, (s.db d).rockKeys = ∅) ∧
    ∀ p ∈ s.newlyWaited a, ¬ s.rockJob.isFor p.1 p.2

-- the instance for all equations of dictionaries does not compute
instance (d : Fin (n+1)) : Decidable ((s.db d).rockKeys = ∅) :=
  decidable_of_iff' _ (Dict.eq_empty_iff _)

instance (s : Server n) (a : Act n) : Decidable (FlagCond s a) :=
  inferInstanceAs (Decidable (_ → _ ∧ _))

lemma FlagInv.init (cfg : Config) : FlagInv (initServer n cfg) :=
  ⟨by simp [initServer],by simp [initServer],by simp [initServer]⟩

lemma FlagInv.step (h : FlagInv s) (hc : FlagCond s a) (hst : s.step a = some (.ok t)) :
    FlagInv t := by
  have hnew : s.rockJob.alreadyFinishedByScript = true → ∀ d key, s.rockJob.isFor d key →
      key ∉ (t.db d).rockKeys := by
    intro hflag d key hfor hk
    rcases mem_rockKeys_of_step hst hk with hm | hm
    · exact h.gone hflag d key hfor hm
    · exact (hc hflag).2 (d,key) hm hfor
  have hkept : t.rockJob = s.rockJob → t.jobKeyRemoved = s.jobKeyRemoved → FlagInv t := by
    intro hj hr
    refine ⟨?_,?_,?_⟩
    · rw [hj,hr]
      exact h.removed
    · rw [hj]
      exact hnew
    rw [hj]
    exact h.zero
  cases slotMove_of_step hst with
  | same hj hr hth hcl => exact hkept hj hr
  | thread hj hr hth hcl => exact hkept hj hr
  | complete d key val hs hw hd hj hr hth hcl =>
    refine ⟨?_,?_,by simp [hj,hd]⟩
    · rw [hj,hr]
      exact h.removed
    rw [hj]
    intro hflag d' key' hfor
    refine hnew hflag d' key' ?_
    simpa [RockJob.isFor,RockJob.key,hw] using hfor
  | start d key hz hw hk hj hr hth =>
    have hflag : s.rockJob.alreadyFinishedByScript = false := by
      by_contra hflag
      replace hflag : s.rockJob.alreadyFinishedByScript = true := by simpa using hflag
      rcases hz with hz | ⟨pick,rfl⟩
      · rw [h.zero hz] at hflag
        cases hflag
      rcases mem_rockKeys_of_step hst hk with hm | hm
      · rw [(hc hflag).1 rfl d] at hm
        simp at hm
      · simp [newlyWaited,toCheck] at hm
    exact ⟨by simp [hj,hflag],by simp [hj,hflag],by simp [hj]⟩
  | zero hh hj hr hth => exact ⟨by simp [hj],by simp [hj],by simp [hj]⟩
  | mark m hf hu hk hj hr hth =>
    refine ⟨fun _ => hr,?_,?_⟩
    · rw [hj]
      intro _ d key hfor
      have hd : m.dbid = d := some.inj (hf.1.symm.trans hfor.1)
      have hkey : m.key = key := some.inj (hf.2.symm.trans hfor.2)
      rw [← hd,← hkey]
      exact hk
    rw [hj]
    intro hz
    have hz' : s.rockJob.dbid = none := hz
    rw [hf.1] at hz'
    cases hz'

lemma FlagInv.noFault (h : FlagInv s) : s.step a ≠ some (.error .alreadyFinishedByScript) := by
  intro hst
  have hmem := step_faults hst
  cases a with
  | finishKey =>
    simp only [Server.step,finishKey] at hst
    split at hst
    · cases hst
    · rename_i k m ms zs rest _
      refine (?_ : OnlyErrors (· ≠ .alreadyFinishedByScript) _) _ (some.inj hst) rfl
      refine .bind ?_ fun _ _ => .pure _
      unfold finishKeyFromScript
      split
      · exact .ok _
      rename_i clients hl
      refine .bind (decr_errors (by decide) (by decide) _) fun r hr => ?_
      obtain ⟨u,ws⟩ := r
      obtain ⟨rfl,_⟩ := decr_ok hr
      refine .bind (.ite (fun hf => ?_) fun _ => .ok _) fun _ _ => .pure _
      refine .assert (fun hn => ?_) (.pure _)
      have hflag : s.rockJob.alreadyFinishedByScript = true := by simpa using hn
      refine absurd ?_ (h.gone hflag m.dbid m.key hf)
      exact (Dict.mem_iff_lookup _ _).mpr ⟨clients,hl⟩
    · cases hst
  | _ => simp [Act.faults,checkFaults,commandFaults] at hmem

/-- In a run in which every step meets `FlagCond`, the flag is set only for a job
whose own key a script has removed, the result of a key that is still waited for
is always taken, and no script finds the flag set. -/
theorem jobFlag_sound {cfg : Config} {as : List (Act n)}
    (hg : (machine n cfg).Guarded FlagCond (machine n cfg).init as)
    (hr : (machine n cfg).run as = some (.ok s)) :
    (s.rockJob.alreadyFinishedByScript = true → s.jobKeyRemoved = true) ∧
    (∀ t d key, s.step .pipeReadable = some (.ok t) → s.rockJob.isFor d key →
      key ∈ (s.db d).rockKeys →
      ∃ val, s.rockJob.valInRock = some val ∧ s.clearFinishKey d key val = .ok t) ∧
    ∀ a, s.step a ≠ some (.error .alreadyFinishedByScript) := by
  have hi : FlagInv s := (machine n cfg).guarded_invariant (FlagInv.init cfg)
    (fun _ _ _ hi hc hst => hi.step hc hst) hg hr
  refine ⟨hi.removed,?_,fun _ => hi.noFault⟩
  intro t d key hst hfor hk
  cases transition_of hst with
  | pipeReadable _ _ _ hs =>
  obtain ⟨d',key',val,hd,hw,hret,hv,hcase⟩ := pipeHandler_ok hs
  have hd' : d' = d := some.inj (hd.symm.trans hfor.1)
  have hkey : key' = key := by
    have := hfor.2
    simp only [RockJob.key,hw,hret] at this
    exact some.inj this
  subst hd' hkey
  rcases hcase with ⟨hflag,_⟩ | ⟨_,hcf⟩
  · exact absurd hk (hi.gone hflag _ _ hfor)
  · exact ⟨val,hv,hcf⟩

end Server

/-! Client 1 waits for `k1`, client 2 for `k2`; a script of client 3 reads `k1` and
finishes it while its job is in the slot. -/

namespace Sample

def finishedByScript : List (Act 0) :=
  [.readQuery 3 [eval],.nextCommand none [],.runProc false,.redisCall (get k1),.luaRet,
   .scriptExit,.finishKey,.finishKey,.scriptResume [],.runProc false,.ret,.nextCommand none [],
   .scriptResume [],.ret,.nextCommand none []]

def jobDone : List (Act 0) := [.rockTake,.rockRead,.rockComplete,.rockSignal]

def handled : List (Act 0) := [.pipeReadable,.handlerMoreJob [],.handlerRead]

def finishedThenNext : List (Act 0) :=
  stored ++ [.readQuery 1 [get k1],.nextCommand none []] ++ finishedByScript ++ jobDone ++ handled ++
    [.readQuery 2 [get k2],.nextCommand none []] ++ jobDone

end Sample

open Sample

namespace Server

/-- Only `k1` is waited for: the handler finds the flag set, and clears the slot. Then comes the job
for `k2`. -/
theorem jobFlag_sound_two_jobs : ∃ s : Server 0,
    (machine 0 Sample.config).run finishedThenNext = some (.ok s) ∧ s.rockJob.isFor 0 k2 ∧
    ∃ t val, s.step .pipeReadable = some (.ok t) ∧ s.rockJob.valInRock = some val ∧
      s.clearFinishKey 0 k2 val = .ok t := by
  obtain ⟨s,hs,hfor,hk,hpipe⟩ := (machine 0 Sample.config).exists_run finishedThenNext
    (fun s => s.rockJob.isFor 0 k2 ∧ k2 ∈ (s.db 0).rockKeys ∧
      (s.step .pipeReadable).any Except.toBool) (by decide)
  obtain ⟨r,hr,hok⟩ := any_eq_true _ _ |>.mp hpipe
  cases r with
  | error f => cases hok
  | ok t =>
    obtain ⟨_,hsound,_⟩ := jobFlag_sound (Machine.guarded_check _ _ _ _ (by decide)) hs
    obtain ⟨val,hval,hclear⟩ := hsound t 0 k2 hr hfor hk
    exact ⟨s,hs,hfor,t,val,hr,hval,hclear⟩

/-- The flag outlives its job: the job for `k2` inherits it, although no script
has touched `k2`. -/
theorem jobFlag_stale : ∃ s : Server 0, (machine 0 Sample.config).Reachable s ∧
    s.rockJob.isFor 0 k2 ∧ k2 ∈ (s.db 0).rockKeys ∧
    s.rockJob.alreadyFinishedByScript = true ∧ s.jobKeyRemoved = false := by
  obtain ⟨s,hs,hobs⟩ := (machine 0 Sample.config).exists_run
    (waiting ++ finishedByScript ++ jobDone ++ handled)
    (fun s => s.rockJob.isFor 0 k2 ∧ k2 ∈ (s.db 0).rockKeys ∧
      s.rockJob.alreadyFinishedByScript = true ∧ s.jobKeyRemoved = false) (by decide)
  exact ⟨s,⟨_,hs⟩,hobs⟩

end Server
end RedRock
