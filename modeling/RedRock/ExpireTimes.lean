import RedRock.Expires

/-!
Expire times are made in 64 bits: the argument is scaled and added to the clock, or to zero, after
its sign has been looked at.
-/

namespace RedRock
open Lib TimeUnit

variable {n : Nat} {V : Type} {e : CallEnv} {db : Fin n} {d : VolatileDbs n V} {key time : Bytes}
variable {v : Int} {base : BitVec 64} {unit : TimeUnit}

def TimeUnit.exact : TimeUnit → Int → Int
  | .seconds,v => v * 1000
  | .milliseconds,v => v

/-- The key has the value `x` and the expire time `t`; nothing else has changed. -/
def ExpiresAt (d d' : VolatileDbs n V) (db : Fin n) (key : Bytes) (x : Volatile V) (t : Int) :
    Prop :=
  ∃ w : BitVec 64, w.toInt = t ∧ d' = d.set db key (some { x with expire := some w })

/-- A time that is past is applied, except while loading and on a replica. -/
def ExpireApplied (e : CallEnv) (d d' : VolatileDbs n V) (db : Fin n) (key : Bytes) (x : Volatile V)
    (t : Int) : Prop :=
  if t ≤ e.mstime.toInt ∧ e.loading = false ∧ e.masterhost = false then d' = d.set db key none
  else ExpiresAt d d' db key x t

/-- The reply is an error and nothing has changed. -/
def Refused (d : VolatileDbs n V) (c : Replied n V) : Prop :=
  (∃ text, c.reply = .error text) ∧ c.dbs = d ∧ c.propagated = []

/-- The key is there, with an expire time behind the clock. -/
def Outlives (e : CallEnv) (d : VolatileDbs n V) (db : Fin n) (key : Bytes) : Prop :=
  ∃ x w, d db key = some ⟨x,some w⟩ ∧ e.mstime.toInt < w.toInt

/-- `NX` and the key is there, or `XX` and it is not. -/
def SetArgs.unmet (f : SetArgs) (old : Option (Volatile V)) : Prop :=
  (f.nx && old.isSome || f.xx && old.isNone) = true

/-- What is to come of a call that sets the value and the expire time `t` behind the clock. -/
def SetOrRefused (e : CallEnv) (db : Fin n) (key : Bytes) (d : VolatileDbs n V) (f : SetArgs)
    (val : Bytes) (t : Int) (c : Replied n V) : Prop :=
  let d' := (expireIfNeeded e db key d).dbs
  Refused d c ∨ (f.unmet (d' db key) ∧ c.reply = .null ∧ c.dbs = d') ∨
    c.reply = .ok ∧ ExpiresAt d' c.dbs db key ⟨.string val,none⟩ t ∧ Outlives e c.dbs db key

/-- What is to come of a call that sets an expire time of `v` units from the base on. -/
def AppliedOrRefused (e : CallEnv) (db : Fin n) (key : Bytes) (d : VolatileDbs n V)
    (base : BitVec 64) (unit : TimeUnit) (v : Int) (c : Replied n V) : Prop :=
  let d' := (expireIfNeeded e db key d).dbs
  Refused d c ∨ (d' db key = none ∧ c.reply = .integer 0 ∧ c.dbs = d') ∨
    ∃ x, d' db key = some x ∧ c.reply = .integer 1 ∧
      ExpireApplied e d' c.dbs db key x (base.toInt + unit.exact v) ∧
      (base = e.mstime → 0 < v → Outlives e c.dbs db key)

lemma millis_add_toInt : (unit.millis (.ofInt 64 v) + base).toInt =
    (base.toInt + unit.exact v).bmod (2^64) := by
  cases unit <;> simp [millis,exact,BitVec.toInt_add,BitVec.toInt_mul,Int.add_comm]

lemma millis_exact_iff : (unit.millis (.ofInt 64 v) + base).toInt = base.toInt + unit.exact v ↔
    -2^63 ≤ base.toInt + unit.exact v ∧ base.toInt + unit.exact v < 2^63 := by
  rw [millis_add_toInt]
  generalize base.toInt + unit.exact v = t
  have hl := Int.le_bmod (x := t) (m := 2^64) (by decide)
  have hu := Int.bmod_lt (x := t) (m := 2^64) (by decide)
  exact ⟨fun h => by omega,fun h => Int.bmod_eq_of_le (by omega) (by omega)⟩

lemma expiresAt_iff {x : Volatile V} {w : BitVec 64} {t : Int} :
    ExpiresAt d (d.set db key (some { x with expire := some w })) db key x t ↔ w.toInt = t := by
  constructor
  · rintro ⟨w',hw,h⟩
    have hk := congrFun (congrFun h db) key
    simp only [Store.set,and_self,if_true,Option.some.injEq,Volatile.mk.injEq,true_and] at hk
    rw [hk]
    exact hw
  · exact fun h => ⟨w,h,rfl⟩

lemma expireApplied_iff (e : CallEnv) (d : VolatileDbs n V) (db : Fin n) (key : Bytes)
    (x : Volatile V) (w : BitVec 64) (t : Int) :
    ExpireApplied e d (if w.toInt ≤ e.mstime.toInt ∧ e.loading = false ∧ e.masterhost = false then
        d.set db key none else d.set db key (some { x with expire := some w })) db key x t ↔
      w.toInt = t ∨ e.loading = false ∧ e.masterhost = false ∧ t ≤ e.mstime.toInt ∧
        w.toInt ≤ e.mstime.toInt := by
  have hd : ∀ y, d.set db key none ≠ d.set db key (some y) := by
    intro y h
    simpa [Store.set] using congrFun (congrFun h db) key
  unfold ExpireApplied
  split_ifs with ht hw hw
  · exact iff_of_true rfl (.inr ⟨ht.2.1,ht.2.2,ht.1,hw.1⟩)
  · refine iff_of_false (fun h => hd _ h.symm) ?_
    rintro (rfl | h)
    · exact hw ht
    · exact hw ⟨h.2.2.2,h.1,h.2.1⟩
  · refine iff_of_false (fun h => h.elim fun _ h => hd _ h.2) ?_
    rintro (rfl | h)
    · exact ht hw
    · exact ht ⟨h.2.2.1,h.1,h.2.1⟩
  · rw [expiresAt_iff,or_iff_left]
    exact fun h => ht ⟨h.2.2.1,h.1,h.2.1⟩

lemma setGeneric_exact_iff (hv : string2ll time = some v) (name : String) {f : SetArgs} (val : Bytes)
    (argv : List Bytes) (hf : f.expire = some (unit,time)) :
    SetOrRefused e db key d f val (e.mstime.toInt + unit.exact v)
        (setGenericCommand name e db f key val argv d) ↔
      v ≤ 0 ∨ f.unmet ((expireIfNeeded e db key d).dbs db key) ∨
        e.mstime.toInt + unit.exact v < 2^63 := by
  simp only [SetOrRefused,SetArgs.unmet,setGenericCommand,hf,expireMillis,hv]
  by_cases h0 : v ≤ 0
  · simp [h0,Refused]
  simp only [if_neg h0]
  split
  · simp [*]
  rename_i hu
  have hpos : 0 < unit.exact v := by cases unit <;> simp only [exact] <;> omega
  have hclock := e.mstime.le_toInt
  have hexact : (unit.millis (.ofInt 64 v) + e.mstime).toInt = _ ↔ _ := millis_exact_iff
  simp only [Refused,hu,h0,false_and,false_or,reduceCtorEq,exists_false,true_and,Option.map_some,
    Option.some_or,BitVec.add_comm e.mstime]
  constructor
  · rintro ⟨hat,_⟩
    exact (hexact.mp ((expiresAt_iff (x := ⟨.string val,none⟩)).mp hat)).2
  · intro ht
    have hw := hexact.mpr ⟨by omega,ht⟩
    exact ⟨⟨_,hw,rfl⟩,.string val,unit.millis (.ofInt 64 v) + e.mstime,by simp [Store.set],by omega⟩

lemma expireGeneric_exact_iff (hv : string2ll time = some v) (name : Bytes) :
    AppliedOrRefused e db key d base unit v (expireGenericCommand base unit e db [name,key,time] d) ↔
      let t := base.toInt + unit.exact v
      (expireIfNeeded e db key d).dbs db key = none ∨ (-2^63 ≤ t ∧ t < 2^63) ∨
        e.loading = false ∧ e.masterhost = false ∧ t ≤ e.mstime.toInt ∧
          t.bmod (2^64) ≤ e.mstime.toInt := by
  simp only [AppliedOrRefused,expireGenericCommand,hv,← millis_exact_iff,← millis_add_toInt]
  generalize hw : unit.millis (.ofInt 64 v) + base = w
  generalize ht : base.toInt + unit.exact v = t
  cases hx : (expireIfNeeded e db key d).dbs db key with
  | none => simp
  | some x =>
    have happ := expireApplied_iff e (expireIfNeeded e db key d).dbs db key x w t
    simp only [Refused,Bool.and_eq_true,decide_eq_true_eq,Bool.not_eq_true',and_assoc,
      apply_ite Replied.reply,apply_ite Replied.toCalled,apply_ite Called.dbs,ite_self,
      reduceCtorEq,exists_false,false_and,false_or,Option.some.injEq,exists_eq_left',true_and,happ]
    refine and_iff_left_of_imp fun hdone hbase h0 => ?_
    have hlate : e.mstime.toInt < t := by
      subst hbase
      cases unit <;> simp only [exact] at ht <;> omega
    have hwt : w.toInt = t := by omega
    rw [if_neg (by omega)]
    exact ⟨x.value,w,by simp [Store.set],by omega⟩

/-- Where the exact time is one of 64 bits it is set, or applied when it is past. A time that has
wrapped is another one, and can only be applied by chance. -/
theorem expire_times_exact_iff (hv : string2ll time = some v) :
    (∀ name val options f, setOptions ⟨false,false,false,none⟩ options = some f →
      f.expire = some (unit,time) →
      (SetOrRefused e db key d f val (e.mstime.toInt + unit.exact v)
          (setCommand e db (name :: key :: val :: options) d) ↔
        v ≤ 0 ∨ f.unmet ((expireIfNeeded e db key d).dbs db key) ∨
          e.mstime.toInt + unit.exact v < 2^63)) ∧
    (∀ name val, SetOrRefused e db key d ⟨false,false,false,some (unit,time)⟩ val
        (e.mstime.toInt + unit.exact v) (setexGenericCommand unit e db [name,key,time,val] d) ↔
      v ≤ 0 ∨ e.mstime.toInt + unit.exact v < 2^63) ∧
    ∀ name, AppliedOrRefused e db key d base unit v
        (expireGenericCommand base unit e db [name,key,time] d) ↔
      let t := base.toInt + unit.exact v
      (expireIfNeeded e db key d).dbs db key = none ∨ (-2^63 ≤ t ∧ t < 2^63) ∨
        e.loading = false ∧ e.masterhost = false ∧ t ≤ e.mstime.toInt ∧
          t.bmod (2^64) ≤ e.mstime.toInt := by
  refine ⟨?_,?_,expireGeneric_exact_iff hv⟩
  · intro name val options f hf hexp
    simp only [setCommand,hf]
    exact setGeneric_exact_iff hv _ val _ hexp
  · intro name val
    refine (setGeneric_exact_iff hv _ val _ rfl).trans ?_
    simp [SetArgs.unmet]

section Samples

def sampleEnv : CallEnv := ⟨5,false,false,false⟩

def sampleDbs : VolatileDbs 1 Unit := fun _ _ => some ⟨.string [],some 900⟩

theorem expire_times_exact_second : string2ll [49] = some 1 ∧
    SetOrRefused sampleEnv 0 [107] sampleDbs ⟨false,true,false,some (.seconds,[49])⟩ [118] 1005
      (setCommand sampleEnv 0 [Word.set,[107],[118],Word.xx,Word.ex,[49]] sampleDbs) ∧
    SetOrRefused sampleEnv 0 [107] sampleDbs ⟨false,false,false,some (.seconds,[49])⟩ [118] 1005
      (setexGenericCommand .seconds sampleEnv 0 [Word.setex,[107],[49],[118]] sampleDbs) ∧
    AppliedOrRefused sampleEnv 0 [107] sampleDbs 5 .seconds 1
      (expireGenericCommand 5 .seconds sampleEnv 0 [Word.expire,[107],[49]] sampleDbs) :=
  have h : string2ll [49] = some 1 := by decide
  have ht : sampleEnv.mstime.toInt + seconds.exact 1 < 2^63 := by decide
  have hlow : -2^63 ≤ sampleEnv.mstime.toInt + seconds.exact 1 := by decide
  have hexact := @expire_times_exact_iff 1 Unit sampleEnv 0 sampleDbs [107] _ _ 5 .seconds h
  ⟨h,(hexact.1 _ _ _ _ rfl rfl).mpr (.inr (.inr ht)),(hexact.2.1 _ _).mpr (.inr ht),
    (hexact.2.2 _).mpr (.inr (.inl ⟨hlow,ht⟩))⟩

/-- `EXPIRE k 9223372036854775807` deletes the key. -/
theorem expire_wraps_into_past :
    let c := expireGenericCommand 5 .seconds sampleEnv 0
      [Word.expire,[107],sdsfromlonglong (2^63-1)] sampleDbs
    c.reply = .integer 1 ∧ c.dbs 0 [107] = none := by
  have h := string2ll_sdsfromlonglong (v := 2^63-1) (by decide) (by decide)
  simp only [expireGenericCommand,h]
  decide

end Samples
end RedRock
