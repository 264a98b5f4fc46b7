import RedRock.Lib.Bytes
import RedRock.Lib.Machine

namespace RedRock
open Lib

/-- Keys and arguments are binary-safe strings. -/
abbrev Sds : Type := Bytes

abbrev ClientId : Type := Nat

/-! Database ids and keys: what is needed to write them and to compare them. -/

instance (priority := 2000) neZeroDbs (n : Nat) : NeZero (n + 1) := ⟨Nat.succ_ne_zero n⟩

instance (priority := 2000) neZeroOneDb : NeZero (0 + 1) := neZeroDbs 0

instance (priority := 2000) neZeroTwoDbs : NeZero (1 + 1) := neZeroDbs 1

instance lawfulBEqSds : LawfulBEq Sds := inferInstanceAs (LawfulBEq (List UInt8))

instance lawfulBEqDbKey (n : Nat) : LawfulBEq (Fin (n + 1) × Sds) := inferInstance

lemma toNat_lt_of_slot {m : Nat} {i : Int} (h : 0 ≤ i ∧ i.toNat < m) : i.toNat < m := h.2

/-- The places where the process can stop: a failed `serverAssert`, a
`serverPanic`, an `exit`, or an access the C program leaves undefined. -/
inductive Fault where
  | serObject
  | desObject
  | rocksdbKeyLen
  | restoreObjFromRocksdb
  | dbAdd
  | dbOverwrite
  | clearHotKeysWhenEmptyDb
  | initHotKeys
  | noHotKeys
  | dumpValToRock
  | dumpNotHot
  | rockPoolPopulate
  | clearFinishHotKey
  | clearFinishClients
  | rockKeyNumberPositive
  | rockKeyNumberZero
  | noMoreRockJob
  | isZeroRockJobState
  | createNewJob
  | getRockWork
  | haveRockJob
  | rockPipeReadHandler
  | alreadyFinishedByScript
  | scriptWhenStart
  | checkRockArgc
  | argvOutOfBounds
  | nullCommand
  | nullMaybeFinishKeys
  | useAfterFree
  deriving DecidableEq, Repr

def serverAssert (p : Prop) [Decidable p] (f : Fault) : Except Fault Unit :=
  if p then .ok () else .error f

@[simp] lemma serverAssert_ok_iff (p : Prop) [Decidable p] (f : Fault) (u : Unit) :
    serverAssert p f = .ok u ↔ p := by
  unfold serverAssert
  split <;> simp_all

@[simp] lemma serverAssert_error_iff (p : Prop) [Decidable p] (f g : Fault) :
    serverAssert p f = .error g ↔ ¬ p ∧ f = g := by
  unfold serverAssert
  split <;> simp_all

variable {f : Fault} {p : Prop}

@[simp] lemma assert_ok {β : Type} [Decidable p]
    {g : Unit → Except Fault β} {b : β} : (serverAssert p f >>= g) = .ok b ↔ p ∧ g () = .ok b := by
  rw [bind_ok]
  constructor
  · rintro ⟨u,hu,hg⟩
    exact ⟨(serverAssert_ok_iff p f u).mp hu,hg⟩
  rintro ⟨hp,hg⟩
  exact ⟨(),(serverAssert_ok_iff p f ()).mpr hp,hg⟩

variable {P : Fault → Prop}

lemma serverAssert_errors [Decidable p] (h : ¬ p → P f) : OnlyErrors P (serverAssert p f) := by
  intro g hg
  rw [serverAssert_error_iff] at hg
  exact hg.2 ▸ h hg.1

lemma Lib.OnlyErrors.assert {β : Type} [Decidable p]
    {g : Unit → Except Fault β} (h : ¬ p → P f) (hg : OnlyErrors P (g ())) :
    OnlyErrors P (serverAssert p f >>= g) :=
  .bind (serverAssert_errors h) fun _ _ => hg

end RedRock
