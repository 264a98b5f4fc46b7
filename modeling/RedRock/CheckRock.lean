import RedRock.Server

/-!
`rock_cmds.c`: which keys of a command are on disk. A `checkRockProc` gets the
argument vector of the command it is called for, but two of them parse the
client's own `c->argv` as well, which in a transaction is the one of EXEC.
-/

namespace RedRock
open Lib List

def isDigit (b : UInt8) : Bool := 48 ≤ b && b ≤ 57

def digitsVal (s : Bytes) : Nat := s.foldl (fun v b => v*10 + (b.toNat - 48)) 0

/-- `string2ll` on the digits after an optional minus sign. -/
def string2llDigits (neg : Bool) : Bytes → Option Int
  | [] => none
  | d :: ds =>
    if 49 ≤ d && d ≤ 57 && ds.all isDigit then
      let v := digitsVal (d :: ds)
      if neg then if v ≤ 2^63 then some (-(v : Int)) else none
      else if v < 2^63 then some (v : Int) else none
    else none

def string2ll : Bytes → Option Int
  | [48] => some 0
  | 45 :: ds => string2llDigits true ds
  | s => string2llDigits false s

def notAnInteger : String := "-ERR value is not an integer or out of range"

def getLongFromObjectOrReply (o : Sds) : Except String Int :=
  match string2ll o with
  | some v => .ok v
  | none => .error notAnInteger

section
variable (argv : List Sds)

def argAt (i : Nat) : Except Fault Sds :=
  match argv[i]? with
  | some a => .ok a
  | none => .error .argvOutOfBounds

abbrev CheckRes : Type := List Sds × List String

def cmdCheckRockForOneKey : Except Fault CheckRes := do
  let key ← argAt argv 1
  return ([key],[])

def cmdCheckRockExcludeLastArg : Except Fault CheckRes := do
  serverAssert (argv.length > 2) .checkRockArgc
  return ((argv.drop 1).dropLast,[])

def cmdCheckRockForAllKeys : Except Fault CheckRes := do
  serverAssert (argv.length ≥ 2) .checkRockArgc
  return (argv.drop 1,[])

def cmdCheckRockExcludeFirstArg : Except Fault CheckRes := do
  serverAssert (argv.length ≥ 2) .checkRockArgc
  return (argv.drop 2,[])

end

def cmdCheckRockForZstore (cArgv argv : List Sds) : Except Fault CheckRes := do
  let arg ← argAt cArgv 2
  match getLongFromObjectOrReply arg with
  | .error e => return ([],[e])
  | .ok setnum =>
    if setnum < 1 then return ([],[])
    else if setnum > (argv.length : Int) - 3 then return ([],[])
    else return ((argv.drop 3).take setnum.toNat,[])

def toLower (b : UInt8) : UInt8 := if 65 ≤ b && b ≤ 90 then b + 32 else b

def strcaseeq (s t : Sds) : Bool := decide ((s.takeWhile (· ≠ 0)).map toLower = t)

def optCopy : Sds := [99,111,112,121]
def optReplace : Sds := [114,101,112,108,97,99,101]
def optAuth : Sds := [97,117,116,104]
def optKeys : Sds := [107,101,121,115]

/-- The option loop of `cmdCheckRockForMigrate` from argument `j` on: the index
of the first key and the number of keys, or `none` where the check returns. -/
def migrateOptions (cArgv : List Sds) : Nat → List Sds → Except Fault (Option (Nat × Nat))
  | _, [] => .ok (some (3,1))
  | j, a :: rest =>
    if strcaseeq a optCopy then migrateOptions cArgv (j+1) rest
    else if strcaseeq a optReplace then migrateOptions cArgv (j+1) rest
    else if strcaseeq a optAuth then
      match rest with
      | [] => .ok none
      | _ :: rest => migrateOptions cArgv (j+2) rest
    else if strcaseeq a optKeys then do
      let key ← argAt cArgv 3
      if key.length ≠ 0 then return none
      else return some (j+1,cArgv.length - j - 1)
    else .ok none

def cmdCheckRockForMigrate (cArgv argv : List Sds) : Except Fault CheckRes := do
  match ← migrateOptions cArgv 6 (cArgv.drop 6) with
  | none => return ([],[])
  | some (firstKey,numKeys) =>
    let timeout ← argAt cArgv 5
    match getLongFromObjectOrReply timeout with
    | .error e => return ([],[e])
    | .ok _ =>
      let dbid ← argAt cArgv 4
      match getLongFromObjectOrReply dbid with
      | .error e => return ([],[e])
      | .ok _ =>
        let keys ← (List.range numKeys).mapM (fun j => argAt argv (firstKey + j))
        return (keys,[])

def checkRockProc (cArgv argv : List Sds) : CheckRockProc → Except Fault CheckRes
  | .oneKey => cmdCheckRockForOneKey argv
  | .excludeLastArg => cmdCheckRockExcludeLastArg argv
  | .allKeys => cmdCheckRockForAllKeys argv
  | .excludeFirstArg => cmdCheckRockExcludeFirstArg argv
  | .zstore => cmdCheckRockForZstore cArgv argv
  | .migrate => cmdCheckRockForMigrate cArgv argv

/-- `lookupKeyNoSideEffect(db,key) == shared.valueInRock`. -/
def isValueInRock (db : RedisDb) (key : Sds) : Bool :=
  decide (db.dict.lookup key = some .valueInRock)

/-- One command's check, where `c->argv` is `cArgv`: of the keys it looks up,
those whose value is on disk are reported. -/
def checkRockForCmd (db : RedisDb) (cArgv : List Sds) (q : Command) : Except Fault CheckRes :=
  match q.cmd.checkRockProc with
  | none => .ok ([],[])
  | some p => do
    let (keys,errs) ← checkRockProc cArgv q.argv p
    return (keys.filter (isValueInRock db),errs)

def checkRockForSingleCmd (db : RedisDb) (q : Command) : Except Fault CheckRes :=
  checkRockForCmd db q.argv q

def checkRockForMultiCmd (db : RedisDb) (cArgv : List Sds) : List Command → Except Fault CheckRes
  | [] => .ok ([],[])
  | q :: qs => do
    let (keys,errs) ← checkRockForCmd db cArgv q
    let (keys',errs') ← checkRockForMultiCmd db cArgv qs
    return (keys ++ keys',errs ++ errs')

/-- The check of a client about to run `q`: its queue in a transaction, and
`q` itself otherwise. -/
def checkRock {n : Nat} (db : RedisDb) (cl : Client n) (q : Command) : Except Fault CheckRes :=
  if cl.multi then checkRockForMultiCmd db q.argv cl.mstate else checkRockForSingleCmd db q

def SeesValues (db : RedisDb) (q : Command) : Prop :=
  ∀ keys errs, checkRockForSingleCmd db q = .ok (keys,errs) → keys = []

section
variable {n : Nat} {db : RedisDb} {cArgv : List Sds} {keys : List Sds} {errs : List String}
variable {q : Command} {k : Sds} {db' : RedisDb}

lemma inRock_iff (db : RedisDb) (key : Sds) :
    isValueInRock db key = true ↔ db.dict.lookup key = some .valueInRock := by
  simp [isValueInRock]

lemma checkCmd_of_fewer (hs : ∀ k, isValueInRock db' k = true → isValueInRock db k = true)
    (h : checkRockForCmd db cArgv q = .ok (keys,errs)) :
    checkRockForCmd db' cArgv q = .ok (keys.filter (isValueInRock db'),errs) := by
  unfold checkRockForCmd at h ⊢
  split at h
  · cases h
    rfl
  obtain ⟨⟨ks,es⟩,hp,hr⟩ := bind_ok.mp h
  cases hr
  simp only [hp,filter_filter]
  have hf : (fun a => isValueInRock db' a && isValueInRock db a) = isValueInRock db' := by
    funext k
    cases hb : isValueInRock db' k with
    | false => rfl
    | true => simp [hs k hb]
  rw [hf]
  rfl

lemma seesValues_iff : SeesValues db q ↔ ∀ p ks es,
    q.cmd.checkRockProc = some p → checkRockProc q.argv q.argv p = .ok (ks,es) →
      ∀ k ∈ ks, isValueInRock db k = false := by
  unfold SeesValues checkRockForSingleCmd checkRockForCmd
  constructor
  · intro h p ks es hp hks k hk
    have hnil := h (ks.filter (isValueInRock db)) es (by simp [hp,hks])
    simpa using filter_eq_nil_iff.mp hnil k hk
  intro h keys errs hr
  split at hr
  · cases hr
    rfl
  rename_i p hp
  obtain ⟨⟨ks,es⟩,hks,hr⟩ := bind_ok.mp hr
  cases hr
  rw [filter_eq_nil_iff]
  intro k hk
  simp [h p ks _ hp hks k hk]

lemma SeesValues.of_fewer (h : SeesValues db q)
    (hs : ∀ k, isValueInRock db' k = true → isValueInRock db k = true) : SeesValues db' q := by
  rw [seesValues_iff] at h ⊢
  intro p ks es hp hks k hk
  have hf := h p ks es hp hks k hk
  cases hb : isValueInRock db' k with
  | false => rfl
  | true =>
    rw [hs k hb] at hf
    cases hf

end
end RedRock
