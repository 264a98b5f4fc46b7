import RedRock.Aggregates

/-!
`t_string.c`: SETRANGE and the increments of integers. Sizes and sums are made in 64 bits
before they are compared with their limits.
-/

namespace RedRock
open Lib List Function

/-- The strings by their texts; a value of another type is `none`. -/
abbrev StrDb : Type := Sds → Option (Option Bytes)

def strWrongType : String := "-WRONGTYPE Operation against a key holding the wrong kind of value"
def strTooLong : String := "-ERR string exceeds maximum allowed size (512MB)"
def incrOverflow : String := "-ERR increment or decrement would overflow"

/-- The allocation fails, or `memcpy` writes past the end of the string. -/
inductive StrFault where
  | outOfMemory
  | overrun
  deriving DecidableEq

def checkStringLength (size : Int) : Bool := size ≤ 512*1024*1024

def sdsgrowzero (s : Bytes) (len : Nat) : Bytes := s ++ replicate (len-s.length) 0

/-- The sum is a `size_t`. No allocation has `2^63` bytes. -/
def setrange (old : Bytes) (offset : Nat) (value : Bytes) : Except StrFault Bytes :=
  let size := (offset+value.length) % 2^64
  if 2^63 ≤ size then .error .outOfMemory
  else
    let s := sdsgrowzero old size
    if s.length < offset+value.length then .error .overrun
    else .ok (s.take offset ++ value ++ s.drop (offset+value.length))

def setrangeCommand (db : StrDb) (key o : Sds) (value : Bytes) :
    Except StrFault (StrDb × Except String Int) :=
  match getLongFromObjectOrReply o with
  | .error msg => .ok (db,.error msg)
  | .ok offset =>
    if offset < 0 then .ok (db,.error "-ERR offset is out of range")
    else if db key = some none then .ok (db,.error strWrongType)
    else
      let old := (db key).join.getD []
      if value = [] then .ok (db,.ok old.length)
      else if !checkStringLength ((offset+value.length).bmod (2^64)) then
        .ok (db,.error strTooLong)
      else (setrange old offset.toNat value).map fun s =>
        (update db key (some (some s)),.ok s.length)

/-- `old` padded with zero bytes to the offset, and `value` in it from there on. -/
def withRange (old : Bytes) (offset : Nat) (value : Bytes) : Bytes :=
  old.take offset ++ replicate (offset-old.length) 0 ++ value ++ old.drop (offset+value.length)

variable {db : StrDb} {key o : Sds} {value old : Bytes} {offset : Nat}

lemma setrange_of_lt (h : offset+value.length < 2^63) :
    setrange old offset value = .ok (withRange old offset value) := by
  have hn : (offset+value.length) % 2^64 = offset+value.length := Nat.mod_eq_of_lt (by omega)
  have hl : ¬ (sdsgrowzero old (offset+value.length)).length < offset+value.length := by
    simp only [sdsgrowzero,length_append,length_replicate]
    omega
  rw [setrange,hn,if_neg (by omega)]
  simp only [if_neg hl]
  simp only [sdsgrowzero,withRange,take_append,drop_append,take_replicate,drop_replicate]
  have h1 : min (offset-old.length) (offset+value.length-old.length) = offset-old.length := by omega
  simp [h1]

/-- SETRANGE refuses or writes the range within the limit where the size does not wrap into it. -/
theorem setrange_exact_iff (hv : value ≠ []) (ho : string2ll o = some (offset : Int)) :
    ((∃ msg, setrangeCommand db key o value = .ok (db,.error msg)) ∨
      offset+value.length ≤ 512*1024*1024 ∧
      let s := withRange ((db key).join.getD []) offset value
      setrangeCommand db key o value = .ok (update db key (some (some s)),.ok s.length)) ↔
    db key = some none ∨ offset+value.length < 2^63 ∨
      checkStringLength ((offset+value.length : Int).bmod (2^64)) = false := by
  have h0 : ¬ (offset : Int) < 0 := by omega
  simp only [setrangeCommand,getLongFromObjectOrReply,ho,if_neg h0,if_neg hv,Int.toNat_natCast]
  by_cases hk : db key = some none
  · simp [hk]
  cases hl : checkStringLength ((offset+value.length : Int).bmod (2^64)) with
  | false => simp [hk]
  | true =>
    simp only [if_neg hk,Bool.not_true,Bool.false_eq_true,if_false]
    by_cases hs : offset+value.length < 2^63
    · refine iff_of_true (.inr ⟨?_,by rw [setrange_of_lt hs]; rfl⟩) (.inr (.inl hs))
      rw [checkStringLength,decide_eq_true_eq,Int.bmod_eq_of_le (by omega) (by omega)] at hl
      omega
    refine iff_of_false ?_ (by rw [not_or,not_or]; exact ⟨hk,hs,nofun⟩)
    rintro (⟨msg,h⟩ | ⟨hle,_⟩)
    · cases hr : setrange ((db key).join.getD []) offset value <;> simp [hr,Except.map] at h
    · omega

theorem setrange_exact_padded : [(97 : UInt8)] ≠ [] ∧ string2ll [51] = some ((3 : Nat) : Int) ∧
    ((∃ msg, setrangeCommand (fun _ => none) [107] [51] [97] = .ok (fun _ => none,.error msg)) ∨
      3+1 ≤ 512*1024*1024 ∧ setrangeCommand (fun _ => none) [107] [51] [97] =
        .ok (update (fun _ => none) [107] (some (some [0,0,0,97])),.ok 4)) :=
  ⟨by decide,by decide,
    (setrange_exact_iff (by decide) (by decide)).mpr (.inr (.inl (by decide)))⟩

/-- `SETRANGE k 9223372036854775807 a` asks for a string of `2^63` bytes. -/
theorem setrange_out_of_memory : setrangeCommand (fun _ => none) [107]
    (sdsfromlonglong (2^63-1)) [97] = .error .outOfMemory := by
  have h := string2ll_sdsfromlonglong (v := 2^63-1) (by decide) (by decide)
  simp only [setrangeCommand,getLongFromObjectOrReply,h]
  rfl

def incrDecrCommand (db : StrDb) (key : Sds) (incr : Int) : StrDb × Except String Int :=
  if db key = some none then (db,.error strWrongType)
  else
    match (db key).join.elim (some 0) string2ll with
    | none => (db,.error notAnInteger)
    | some oldvalue =>
      if incr < 0 ∧ oldvalue < 0 ∧ incr < -2^63 - oldvalue ∨
          incr > 0 ∧ oldvalue > 0 ∧ incr > 2^63 - 1 - oldvalue then (db,.error incrOverflow)
      else
        let value := oldvalue + incr
        (update db key (some (some (sdsfromlonglong value))),.ok value)

inductive IncrCommand where
  | incr
  | decr
  | incrby (arg : Sds)
  | decrby (arg : Sds)

/-- What is handed to `incrDecrCommand`; the negation wraps. -/
def IncrCommand.argument : IncrCommand → Except String Int
  | .incr => .ok 1
  | .decr => .ok (-1)
  | .incrby arg => getLongFromObjectOrReply arg
  | .decrby arg => (getLongFromObjectOrReply arg).map fun incr => (-incr).bmod (2^64)

def IncrCommand.proc (c : IncrCommand) (db : StrDb) (key : Sds) : StrDb × Except String Int :=
  match c.argument with
  | .error msg => (db,.error msg)
  | .ok v => incrDecrCommand db key v

/-- What the command is to add, as an exact number. -/
def IncrCommand.delta : IncrCommand → Option Int
  | .incr => some 1
  | .decr => some (-1)
  | .incrby arg => string2ll arg
  | .decrby arg => (string2ll arg).map (- ·)

def StrDb.intValue (db : StrDb) (key : Sds) : Option Int :=
  if db key = some none then none else (db key).join.elim (some 0) string2ll

/-- The exact sum is stored and replied if it is one of 64 bits, and otherwise nothing changes. -/
def ExactOrRefused {D R : Type} (db : D) (error : String → R) (store : Int → D × R) (r : D × R) :
    Option Int → Option Int → Prop
  | some old,some delta =>
    if -2^63 ≤ old+delta ∧ old+delta < 2^63 then r = store (old+delta) else ∃ msg, r = (db,error msg)
  | _,_ => ∃ msg, r = (db,error msg)

def StrDb.Adds (db : StrDb) (key : Sds) (r : StrDb × Except String Int) (delta : Option Int) : Prop :=
  ExactOrRefused db .error (fun v => (update db key (some (some (sdsfromlonglong v))),.ok v)) r
    (db.intValue key) delta

def HincrbyExact {F : Type} (db : AggDb F) (key field arg : Sds) : Prop :=
  let h := (db.hashTypeLookupWriteOrCreate key).map Prod.snd
  ExactOrRefused db .error (fun v => (db.insert key (.hash
      ((h.getD ∅).insert field (sdsfromlonglong v))),.integer v)) (db.hincrbyCommand key field arg)
    (h.bind fun h => (h.lookup field).elim (some 0) string2ll) (string2ll arg)

lemma exactOrRefused_none {D R : Type} {db : D} {error : String → R} {store : Int → D × R}
    {r : D × R} {old : Option Int} :
    ExactOrRefused db error store r old none ↔ ∃ msg, r = (db,error msg) := by
  cases old <;> rfl

lemma elim_range {s : Option Bytes} {v : Int} (h : s.elim (some 0) string2ll = some v) :
    -2^63 ≤ v ∧ v < 2^63 := by
  cases s with
  | none =>
    cases h
    decide
  | some s => exact string2ll_range h

lemma exactOrRefused_add {D R : Type} {db : D} {error : String → R} {store : Int → D × R}
    {old incr : Int} (ho : -2^63 ≤ old ∧ old < 2^63) (hi : -2^63 ≤ incr ∧ incr < 2^63) (msg : String) :
    ExactOrRefused db error store
      (if incr < 0 ∧ old < 0 ∧ incr < -2^63 - old ∨ incr > 0 ∧ old > 0 ∧ incr > 2^63 - 1 - old then
        (db,error msg) else store (old+incr)) (some old) (some incr) := by
  simp only [ExactOrRefused]
  split_ifs
  · omega
  · rfl
  · exact ⟨msg,rfl⟩
  · omega

lemma incrDecr_exact {incr : Int} (hi : -2^63 ≤ incr ∧ incr < 2^63) :
    db.Adds key (incrDecrCommand db key incr) (some incr) := by
  unfold StrDb.Adds StrDb.intValue incrDecrCommand
  split
  · exact ⟨_,rfl⟩
  cases hv : (db key).join.elim (some 0) string2ll with
  | none => exact ⟨_,rfl⟩
  | some old => exact exactOrRefused_add (elim_range hv) hi _

lemma hincrby_exact {F : Type} (db : AggDb F) (key field arg : Sds) :
    HincrbyExact db key field arg := by
  unfold HincrbyExact AggDb.hincrbyCommand getLongFromObjectOrReply
  cases ha : string2ll arg with
  | none => exact exactOrRefused_none.mpr ⟨_,rfl⟩
  | some incr =>
    have hi := string2ll_range ha
    unfold AggDb.hashTypeLookupWriteOrCreate
    cases hk : db.lookup key with
    | none =>
      have hg : ¬ (incr < 0 ∧ (0 : Int) < 0 ∧ incr < -2^63 - 0 ∨
        incr > 0 ∧ (0 : Int) > 0 ∧ incr > 2^63 - 1 - 0) := by omega
      change (if _ then _ else _)
      rw [if_pos (by omega)]
      exact (if_neg hg).trans (by rw [AList.insert_insert]; rfl)
    | some v =>
      cases v with
      | hash h =>
        cases hv : (h.lookup field).elim (some 0) string2ll with
        | none => simp [ExactOrRefused,hv]
        | some old =>
          simp only [Option.map_some,Option.bind_some,hv,Option.getD_some]
          exact exactOrRefused_add (elim_range hv) hi _
      | set | zset | other => exact ⟨_,rfl⟩

/-- The one number whose negation is wrong. -/
lemma argument_spec (c : IncrCommand) : (∃ msg, c.argument = .error msg ∧ c.delta = none) ∨
    (∃ v : Int, (-2^63 ≤ v ∧ v < 2^63) ∧ c.argument = .ok v ∧ c.delta = some v) ∨
    c.argument = .ok (-2^63) ∧ c.delta = some (2^63) := by
  have harg (arg : Sds) : getLongFromObjectOrReply arg =
      (string2ll arg).elim (.error notAnInteger) .ok := by
    unfold getLongFromObjectOrReply
    cases string2ll arg <;> rfl
  cases c with
  | incr => exact .inr (.inl ⟨1,by decide,rfl,rfl⟩)
  | decr => exact .inr (.inl ⟨-1,by decide,rfl,rfl⟩)
  | incrby arg =>
    simp only [IncrCommand.argument,IncrCommand.delta,harg]
    cases ha : string2ll arg with
    | none => exact .inl ⟨_,rfl,rfl⟩
    | some v => exact .inr (.inl ⟨v,string2ll_range ha,rfl,rfl⟩)
  | decrby arg =>
    simp only [IncrCommand.argument,IncrCommand.delta,harg]
    cases ha : string2ll arg with
    | none => exact .inl ⟨_,rfl,rfl⟩
    | some v =>
      have hv := string2ll_range ha
      by_cases hm : v = -2^63
      · subst hm
        exact .inr (.inr ⟨rfl,rfl⟩)
      refine .inr (.inl ⟨-v,by omega,?_,rfl⟩)
      exact congrArg Except.ok (Int.bmod_eq_of_le (by omega) (by omega))

/-- The sums of INCR, DECR, INCRBY, DECRBY and HINCRBY are exact or refused, except where DECRBY
takes the least number from an integer. -/
theorem increments_exact_iff {F : Type} (c : IncrCommand) (db : StrDb) (hdb : AggDb F)
    (key field arg : Sds) :
    (db.Adds key (c.proc db key) c.delta ↔
      ¬ (c.delta = some (2^63) ∧ (db.intValue key).isSome)) ∧ HincrbyExact hdb key field arg := by
  refine ⟨?_,hincrby_exact hdb key field arg⟩
  obtain ⟨msg,ha,hd⟩ | ⟨v,hv,ha,hd⟩ | ⟨ha,hd⟩ := argument_spec c
  · rw [IncrCommand.proc,ha,hd]
    exact iff_of_true (exactOrRefused_none.mpr ⟨msg,rfl⟩) nofun
  · rw [IncrCommand.proc,ha,hd]
    refine iff_of_true (incrDecr_exact hv) ?_
    simp
    omega
  have hx : db.Adds key (incrDecrCommand db key (-2^63)) (some (-2^63)) :=
    incrDecr_exact (by decide)
  rw [IncrCommand.proc,ha,hd]
  unfold StrDb.Adds at hx ⊢
  cases ho : db.intValue key with
  | none =>
    rw [ho] at hx
    exact iff_of_true hx nofun
  | some old =>
    rw [ho] at hx
    have hr : -2^63 ≤ old ∧ old < 2^63 := by
      unfold StrDb.intValue at ho
      split at ho
      · cases ho
      · exact elim_range ho
    refine iff_of_false (fun h => ?_) (by simp)
    simp only [ExactOrRefused] at h hx
    by_cases hn : old < 0
    · rw [if_pos (by omega)] at h
      rw [if_neg (by omega)] at hx
      obtain ⟨msg,hm⟩ := hx
      cases congrArg Prod.snd (h.symm.trans hm)
    rw [if_neg (by omega)] at h
    rw [if_pos (by omega)] at hx
    obtain ⟨msg,hm⟩ := h
    cases congrArg Prod.snd (hx.symm.trans hm)

/-- `DECRBY k -9223372036854775808` on a missing key stores the least number. -/
theorem decrby_least_wrong : (IncrCommand.decrby (sdsfromlonglong (-2^63))).proc (fun _ => none) [107] =
    (update (fun _ => none) [107] (some (some (sdsfromlonglong (-2^63)))),.ok (-2^63)) := by
  have h := string2ll_sdsfromlonglong (v := -2^63) (by decide) (by decide)
  simp only [IncrCommand.proc,IncrCommand.argument,getLongFromObjectOrReply,h]
  rfl

end RedRock
