import Mathlib

/-!
How `processCommandAndResetClient` learns from `server.current_client` whether its client was freed
while its command ran, when other clients are resumed within the command.
-/

namespace RedRock
open Option

mutual
/-- What a command does to clients: it frees some, and resumes some that waited for a value. A
resumed client makes its call and goes on with the commands in its buffer. -/
inductive Effects where
  | done
  | freeClient (x : Nat) (rest : Effects)
  | resume (d : Nat) (call : Effects) (buffer : Pipeline) (rest : Effects)
inductive Pipeline where
  | nil
  | cons (cmd : Effects) (rest : Pipeline)
end

structure Clients where
  currentClient : Option Nat
  freed : List Nat

namespace Clients

def setCurrent (s : Clients) (c : Nat) : Clients := { s with currentClient := some c }

def freeClient (s : Clients) (x : Nat) : Clients :=
  ⟨if s.currentClient = some x then none else s.currentClient,x :: s.freed⟩

/-- The end of `processCommandAndResetClient`; the result says whether it is `C_OK`. -/
def clearCurrent (s : Clients) : Clients × Bool :=
  ({ s with currentClient := none },s.currentClient.isSome)

end Clients

mutual
/-- `resume` is `_resumeRockClient`, for a client that was freed before its turn as well. -/
def Effects.run : Effects → Clients → Clients
  | .done, s => s
  | .freeClient x rest, s => rest.run (s.freeClient x)
  | .resume d call buffer rest, s =>
    rest.run (buffer.processInputBuffer d (call.run (s.setCurrent d)))
def Pipeline.processInputBuffer (c : Nat) : Pipeline → Clients → Clients
  | .nil, s => s
  | .cons cmd rest, s =>
    let (s,ok) := (cmd.run (s.setCurrent c)).clearCurrent
    if ok then rest.processInputBuffer c s else s
end

def processCommandAndResetClient (c : Nat) (cmd : Effects) (s : Clients) : Clients × Bool :=
  (cmd.run (s.setCurrent c)).clearCurrent

/-- The client that has its turn last, with the clients that are freed in that turn. A client that
goes through a command of its buffer leaves the turn to none. -/
def Effects.lastTurn : Effects → Option Nat × List Nat → Option Nat × List Nat
  | .done, turn => turn
  | .freeClient x rest, turn => rest.lastTurn (turn.1,x :: turn.2)
  | .resume d call .nil rest, _ => rest.lastTurn (call.lastTurn (some d,[]))
  | .resume _ _ (.cons ..) rest, _ => rest.lastTurn (none,[])

mutual
/-- Whether `x` is freed. A client goes on with its buffer while the one that had its turn last is
there. -/
def Effects.frees (x : Nat) : Effects → Bool
  | .done => false
  | .freeClient y rest => x = y || rest.frees x
  | .resume d call buffer rest => call.frees x || buffer.frees x d || rest.frees x
def Pipeline.frees (x d : Nat) : Pipeline → Bool
  | .nil => false
  | .cons cmd rest =>
    let (client,freed) := cmd.lastTurn (some d,[])
    cmd.frees x || client.any (· ∉ freed) && rest.frees x d
end

/-- `c` is freed in the command just if the client that has its turn last is freed in that turn, or
has left it. -/
def Effects.TellsOf (cmd : Effects) (c : Nat) : Prop :=
  match cmd.lastTurn (some c,[]) with
  | (none,_) => cmd.frees c = true
  | (some d,freed) => cmd.frees c = true ↔ d ∈ freed

lemma inputBuffer_current {c : Nat} : ∀ {buffer : Pipeline} {s : Clients},
    buffer ≠ .nil ∨ s.currentClient = none → (buffer.processInputBuffer c s).currentClient = none
  | .nil, _, h => h.resolve_left (· rfl)
  | .cons cmd rest, s, _ => by
    simp only [Pipeline.processInputBuffer]
    split
    · exact inputBuffer_current (.inr rfl)
    · rfl

lemma run_currentClient : ∀ (cmd : Effects) {s : Clients} {t : Option Nat × List Nat},
    s.currentClient = t.1.filter (· ∉ t.2) →
      (cmd.run s).currentClient = (cmd.lastTurn t).1.filter (· ∉ (cmd.lastTurn t).2)
  | .done, _, _, h => h
  | .freeClient x rest, s, (client,freed), h => by
    rw [Effects.run,Effects.lastTurn]
    refine run_currentClient rest ?_
    cases client with
    | none => simp [Clients.freeClient,h]
    | some c =>
      by_cases hc : c ∈ freed
      · simp [Clients.freeClient,h,filter_some,hc]
      · by_cases hx : c = x <;> simp_all [Clients.freeClient,filter_some]
  | .resume d call .nil rest, _, _, _ => run_currentClient rest (run_currentClient call rfl)
  | .resume d call (.cons ..) rest, _, _, _ =>
    run_currentClient rest (inputBuffer_current (.inl (nomatch ·)))

lemma run_isSome (cmd : Effects) (s : Clients) (c : Nat) :
    (cmd.run (s.setCurrent c)).currentClient.isSome =
      (cmd.lastTurn (some c,[])).1.any (· ∉ (cmd.lastTurn (some c,[])).2) := by
  rw [run_currentClient cmd (t := (some c,[])) rfl,isSome_filter]

mutual
lemma run_freed {x : Nat} : ∀ (cmd : Effects) {s : Clients},
    x ∈ (cmd.run s).freed ↔ cmd.frees x = true ∨ x ∈ s.freed
  | .done, s => by simp [Effects.run,Effects.frees]
  | .freeClient y rest, s => by
    rw [Effects.run,run_freed rest]
    simp only [Clients.freeClient,List.mem_cons,Effects.frees,Bool.or_eq_true,decide_eq_true_eq]
    tauto
  | .resume d call buffer rest, s => by
    rw [Effects.run,run_freed rest,inputBuffer_freed buffer,run_freed call]
    simp only [Effects.frees,Bool.or_eq_true,Clients.setCurrent]
    tauto
lemma inputBuffer_freed {x d : Nat} : ∀ (buffer : Pipeline) {s : Clients},
    x ∈ (buffer.processInputBuffer d s).freed ↔ buffer.frees x d = true ∨ x ∈ s.freed
  | .nil, s => by simp [Pipeline.processInputBuffer,Pipeline.frees]
  | .cons cmd rest, s => by
    have hcmd : x ∈ (cmd.run (s.setCurrent d)).freed ↔ cmd.frees x = true ∨ x ∈ s.freed :=
      run_freed cmd
    simp only [Pipeline.processInputBuffer,Clients.clearCurrent,run_isSome,Pipeline.frees]
    split
    · rename_i hok
      rw [inputBuffer_freed rest,hok,hcmd]
      simp only [Bool.true_and,Bool.or_eq_true]
      tauto
    · rename_i hok
      rw [Bool.not_eq_true] at hok
      rw [hok,hcmd,Bool.false_and,Bool.or_false]
end

/-- The result is true to the fate of `c` when `c` is freed just if the client that has its turn
last is. -/
theorem reset_reports_iff {c : Nat} {cmd : Effects} {s t : Clients} {ok : Bool} (hc : c ∉ s.freed)
    (h : processCommandAndResetClient c cmd s = (t,ok)) :
    (ok = false ↔ c ∈ t.freed) ↔ cmd.TellsOf c := by
  cases h
  rw [run_isSome,run_freed cmd,Effects.TellsOf]
  change (_ ↔ cmd.frees c = true ∨ c ∈ s.freed) ↔ _
  simp only [hc,or_false]
  obtain ⟨client,freed⟩ := cmd.lastTurn (some c,[])
  cases client with
  | none => simp
  | some d => simp [iff_comm]

/-- A script of client 1 wakes client 2, which has one more command in its buffer: client 1 is there,
but its second command, which would free client 3, is not run. Where client 2 has no more input, that
client 1 is freed goes unnoticed. -/
theorem resumed_client_misreports :
    (processCommandAndResetClient 1 (.resume 2 .done (.cons .done .nil) .done) ⟨none,[]⟩ =
      (⟨none,[]⟩,false)) ∧
    ((Pipeline.cons (.resume 2 .done (.cons .done .nil) .done)
      (.cons (.freeClient 3 .done) .nil)).processInputBuffer 1 ⟨none,[]⟩).freed = [] ∧
    processCommandAndResetClient 1 (.freeClient 1 (.resume 2 .done .nil .done)) ⟨none,[]⟩ =
      (⟨none,[1]⟩,true) := ⟨rfl,rfl,rfl⟩

/-- Client 3 is resumed in the call of client 2, frees client 1 and is freed after that. -/
theorem reset_reports_freed :
    let cmd := .resume 2 (.resume 3 (.freeClient 1 .done) .nil (.freeClient 3 .done)) .nil .done
    ∃ t, processCommandAndResetClient 1 cmd ⟨none,[]⟩ = (t,false) ∧ 1 ∈ t.freed := by
  intro cmd
  have h : processCommandAndResetClient 1 cmd ⟨none,[]⟩ = (⟨none,[3,1]⟩,false) := rfl
  have hd : cmd.TellsOf 1 := iff_of_true rfl List.mem_cons_self
  exact ⟨_,h,((reset_reports_iff List.not_mem_nil h).mpr hd).mp rfl⟩

end RedRock
