import RedRock.Quicklist
import RedRock.Protocol

/-!
The write commands of hashes, sets and sorted sets. A command that finds no value under its
key creates an empty one there first, and a command that takes the last element of a value
deletes the key.
-/

namespace RedRock
open Lib

/-- A C floating type. `strto` gives the value, how many characters it has read, and whether
`errno` is `ERANGE` after it. -/
structure FloatType (F : Type) where
  ofInt : Int → F
  add : F → F → F
  lt : F → F → Bool
  eq : F → F → Bool
  isnan : F → Bool
  isinf : F → Bool
  strto : Bytes → F × Nat × Bool
  print : F → Bytes
  add_inf : ∀ a b, isinf a = true ∨ isinf b = true → isinf (add a b) = true ∨ isnan (add a b) = true

namespace FloatType
variable {F : Type} (T : FloatType F)

def zero : F := T.ofInt 0

def le (a b : F) : Bool := T.lt a b || T.eq a b

def outOfRange (r : F × Nat × Bool) : Bool := r.2.2 && (T.isinf r.1 || T.eq r.1 T.zero)

def getFloatFromObject (o : Sds) : Option F :=
  let r := T.strto (cstr o)
  if o = [] || o.head?.any isspace || r.2.1 ≠ o.length || T.outOfRange r || T.isnan r.1 then none
  else some r.1

/-- The value of a hash field; the buffer holds `MAX_LONG_DOUBLE_CHARS`. -/
def string2ld (s : Sds) : Option F :=
  let r := T.strto (cstr s)
  if s.length ≥ 5 * 1024 || s.head?.any isspace || r.2.1 ≠ (cstr s).length || T.outOfRange r ||
    T.isnan r.1 then none
  else some r.1

end FloatType

inductive AggVal (F : Type) where
  | hash (h : Dict Sds Sds)
  | set (xs : Finset Sds)
  | zset (zs : List (F × Sds))
  | other

def AggVal.isEmpty {F : Type} : AggVal F → Bool
  | .hash h => h.entries.isEmpty
  | .set xs => xs = ∅
  | .zset zs => zs.isEmpty
  | .other => false

abbrev AggDb (F : Type) : Type := Dict Sds (AggVal F)

inductive AggReply (F : Type) where
  | integer (i : Int)
  | bulk (s : Sds)
  | double (f : F)
  | ok
  | null
  | set (xs : Finset Sds)
  | error (msg : String)

namespace AggReply

def wrongtypeerr {F : Type} : AggReply F :=
  .error "-WRONGTYPE Operation against a key holding the wrong kind of value"

def syntaxerr {F : Type} : AggReply F := .error "-ERR syntax error"

def outofrangeerr {F : Type} : AggReply F := .error "-ERR index out of range"

def notAFloat {F : Type} : AggReply F := .error "-ERR value is not a valid float"

def czero {F : Type} : AggReply F := .integer 0

def cone {F : Type} : AggReply F := .integer 1

end AggReply

namespace AggDb
variable {E F : Type} (D : FloatType F) (L : FloatType E)

abbrev Outcome (F : Type) : Type := AggDb F × AggReply F

section
variable (db : AggDb F) (key : Sds)

def dbDelete : AggDb F := db.erase key

def hashTypeLookupWriteOrCreate : Option (AggDb F × Dict Sds Sds) :=
  match db.lookup key with
  | none => some (db.insert key (.hash ∅),∅)
  | some (.hash h) => some (db,h)
  | some _ => none

def hsetnxCommand (key field value : Sds) : Outcome F :=
  match hashTypeLookupWriteOrCreate db key with
  | none => (db,.wrongtypeerr)
  | some (db,h) =>
    if field ∈ h then (db,.czero) else (db.insert key (.hash (h.insert field value)),.cone)

def hashTypeSetAll : List Sds → Dict Sds Sds → Nat → Dict Sds Sds × Nat
  | field :: value :: rest, h, created =>
    hashTypeSetAll rest (h.insert field value) (if field ∈ h then created else created + 1)
  | _, h, created => (h,created)

/-- `HMSET` is the same command with another reply. -/
def hsetCommand (hmset : Bool) (db : AggDb F) (key : Sds) (rest : List Sds) : Outcome F :=
  if rest.length % 2 = 1 then (db,.error "-ERR wrong number of arguments for HMSET")
  else
    match hashTypeLookupWriteOrCreate db key with
    | none => (db,.wrongtypeerr)
    | some (db,h) =>
      let r := hashTypeSetAll rest h 0
      (db.insert key (.hash r.1),if hmset then .ok else .integer r.2)

def hincrbyCommand (key field incr : Sds) : Outcome F :=
  match getLongFromObjectOrReply incr with
  | .error msg => (db,.error msg)
  | .ok incr =>
    match hashTypeLookupWriteOrCreate db key with
    | none => (db,.wrongtypeerr)
    | some (db,h) =>
      match (h.lookup field).elim (some 0) string2ll with
      | none => (db,.error "-ERR hash value is not an integer")
      | some oldvalue =>
        if incr < 0 ∧ oldvalue < 0 ∧ incr < -2 ^ 63 - oldvalue ∨
            incr > 0 ∧ oldvalue > 0 ∧ incr > 2 ^ 63 - 1 - oldvalue then
          (db,.error "-ERR increment or decrement would overflow")
        else
          (db.insert key (.hash (h.insert field (sdsfromlonglong (oldvalue + incr)))),
            .integer (oldvalue + incr))

def hincrbyfloatCommand (key field incr : Sds) : Outcome F :=
  match L.getFloatFromObject incr with
  | none => (db,.notAFloat)
  | some incr =>
    match hashTypeLookupWriteOrCreate db key with
    | none => (db,.wrongtypeerr)
    | some (db,h) =>
      match (h.lookup field).elim (some L.zero) L.string2ld with
      | none => (db,.error "-ERR hash value is not a float")
      | some value =>
        let value := L.add value incr
        if L.isnan value || L.isinf value then
          (db,.error "-ERR increment would produce NaN or Infinity")
        else (db.insert key (.hash (h.insert field (L.print value))),.bulk (L.print value))

/-- The loop of `HDEL`: what is left, how many fields were deleted, and whether the key was. -/
def hashTypeDeleteAll : List Sds → Dict Sds Sds → Nat → Dict Sds Sds × Nat × Bool
  | [], h, deleted => (h,deleted,false)
  | field :: rest, h, deleted =>
    if field ∈ h then
      if (h.erase field).entries = [] then (∅,deleted + 1,true)
      else hashTypeDeleteAll rest (h.erase field) (deleted + 1)
    else hashTypeDeleteAll rest h deleted

def hdelCommand (fields : List Sds) : Outcome F :=
  match db.lookup key with
  | none => (db,.czero)
  | some (.hash h) =>
    let r := hashTypeDeleteAll fields h 0
    (if r.2.2 then dbDelete db key else db.insert key (.hash r.1),.integer r.2.1)
  | some _ => (db,.wrongtypeerr)

def setTypeAddAll : List Sds → Finset Sds → Nat → Finset Sds × Nat
  | [], xs, added => (xs,added)
  | ele :: rest, xs, added =>
    setTypeAddAll rest (insert ele xs) (if ele ∈ xs then added else added + 1)

def saddCommand (eles : List Sds) : Outcome F :=
  match db.lookup key with
  | none =>
    let r := setTypeAddAll eles ∅ 0
    (db.insert key (.set r.1),.integer r.2)
  | some (.set xs) =>
    let r := setTypeAddAll eles xs 0
    (db.insert key (.set r.1),.integer r.2)
  | some _ => (db,.wrongtypeerr)

def setTypeRemoveAll : List Sds → Finset Sds → Nat → Finset Sds × Nat × Bool
  | [], xs, deleted => (xs,deleted,false)
  | ele :: rest, xs, deleted =>
    if ele ∈ xs then
      if xs.erase ele = ∅ then (∅,deleted + 1,true)
      else setTypeRemoveAll rest (xs.erase ele) (deleted + 1)
    else setTypeRemoveAll rest xs deleted

def sremCommand (eles : List Sds) : Outcome F :=
  match db.lookup key with
  | none => (db,.czero)
  | some (.set xs) =>
    let r := setTypeRemoveAll eles xs 0
    (if r.2.2 then dbDelete db key else db.insert key (.set r.1),.integer r.2.1)
  | some _ => (db,.wrongtypeerr)

/-- The part of `SMOVE` after both values are known to be sets, or the destination missing. -/
def smoveSet (src dst ele : Sds) (srcset dstset : Finset Sds) : Outcome F :=
  if src = dst then (db,if ele ∈ srcset then .cone else .czero)
  else if ele ∉ srcset then (db,.czero)
  else
    let db := if srcset.erase ele = ∅ then dbDelete db src else db.insert src (.set (srcset.erase ele))
    (db.insert dst (.set (insert ele dstset)),.cone)

def smoveCommand (src dst ele : Sds) : Outcome F :=
  match db.lookup src, db.lookup dst with
  | none, _ => (db,.czero)
  | some (.set srcset), none => smoveSet db src dst ele srcset ∅
  | some (.set srcset), some (.set dstset) => smoveSet db src dst ele srcset dstset
  | some _, _ => (db,.wrongtypeerr)

/-- Takes members out one after the other, as `setTypeRandomElement` has drawn them. -/
def drawAll : List Sds → Finset Sds → Option (Finset Sds)
  | [], xs => some xs
  | ele :: rest, xs => if ele ∈ xs then drawAll rest (xs.erase ele) else none

def spopMoveStrategyMul : Nat := 5

/-- The elements that are drawn are those popped, or those that stay when they are few. -/
def spopWithCountCommand (draws : List Sds) (db : AggDb F) (key count : Sds) : Option (Outcome F) :=
  match getLongFromObjectOrReply count with
  | .error msg => some (db,.error msg)
  | .ok l =>
    if l < 0 then some (db,.outofrangeerr)
    else
      match db.lookup key with
      | none => some (db,.null)
      | some (.set xs) =>
        let count := l.toNat
        if count = 0 then some (db,.set ∅)
        else if count ≥ xs.card then some (dbDelete db key,.set xs)
        else
          let remaining := xs.card - count
          if remaining * spopMoveStrategyMul > count then
            if draws.length = count then
              (drawAll draws xs).map fun left => (db.insert key (.set left),.set (xs \ left))
            else none
          else if draws.length = remaining then
            (drawAll draws xs).map fun left => (db.insert key (.set draws.toFinset),.set left)
          else none
      | some _ => some (db,.wrongtypeerr)

def spopOne (draws : List Sds) (db : AggDb F) (key : Sds) : Option (Outcome F) :=
  match db.lookup key with
  | none => some (db,.null)
  | some (.set xs) =>
    match draws with
    | [ele] =>
      (drawAll [ele] xs).map fun left =>
        (if left = ∅ then dbDelete db key else db.insert key (.set left),.bulk ele)
    | _ => none
  | some _ => some (db,.wrongtypeerr)

def spopCommand (draws : List Sds) (db : AggDb F) (key : Sds) (rest : List Sds) :
    Option (Outcome F) :=
  match rest with
  | [] => spopOne draws db key
  | [count] => spopWithCountCommand draws db key count
  | _ => some (db,.syntaxerr)

/-- The values at the source keys, each with its key. `none` is a value that is not a set. -/
def lookupSets (db : AggDb F) : List Sds → Option (List (Sds × Option (Finset Sds)))
  | [] => some []
  | key :: rest =>
    match db.lookup key with
    | none => (lookupSets db rest).map ((key,none) :: ·)
    | some (.set xs) => (lookupSets db rest).map ((key,some xs) :: ·)
    | some _ => none

def storeSet (dstkey : Sds) (dstset : Finset Sds) : Outcome F :=
  let db := dbDelete db dstkey
  if dstset.card > 0 then (db.insert dstkey (.set dstset),.integer dstset.card) else (db,.czero)

/-- `SINTERSTORE` looks at its keys in order: it ends at the first one that is missing, even
if a later one has the wrong type. -/
inductive SinterSets where
  | sets (sets : List (Sds × Finset Sds))
  | missing
  | wrongtype

def sinterSets (db : AggDb F) : List Sds → SinterSets
  | [] => .sets []
  | key :: rest =>
    match db.lookup key with
    | none => .missing
    | some (.set xs) =>
      match sinterSets db rest with
      | .sets sets => .sets ((key,xs) :: sets)
      | r => r
    | some _ => .wrongtype

def sinterOf (sets : List (Sds × Finset Sds)) : Finset Sds :=
  match sets.insertionSort fun a b => a.2.card ≤ b.2.card with
  | [] => ∅
  | first :: others =>
    first.2.filter fun ele => others.all fun o => o.1 = first.1 || decide (ele ∈ o.2)

def sinterstoreCommand (dstkey : Sds) (keys : List Sds) : Outcome F :=
  match sinterSets db keys with
  | .missing => (dbDelete db dstkey,.czero)
  | .wrongtype => (db,.wrongtypeerr)
  | .sets sets => storeSet db dstkey (sinterOf sets)

def sunionOf (sets : List (Sds × Option (Finset Sds))) : Finset Sds :=
  sets.foldl (fun acc o => acc ∪ o.2.getD ∅) ∅

/-- The second way to a difference stops when nothing is left. -/
def sdiffLoop : List (Sds × Option (Finset Sds)) → Finset Sds → Finset Sds
  | [], acc => acc
  | (_,none) :: rest, acc => sdiffLoop rest acc
  | (_,some xs) :: rest, acc => if acc \ xs = ∅ then ∅ else sdiffLoop rest (acc \ xs)

def sdiffAlgoTwo (first : Finset Sds) (sets : List (Sds × Option (Finset Sds))) : Bool :=
  let present := sets.filterMap (·.2)
  (first.card * (present.length + 1)) / 2 > first.card + (present.map Finset.card).sum

def sdiffOf : List (Sds × Option (Finset Sds)) → Finset Sds
  | (key,some first) :: others =>
    if sdiffAlgoTwo first others then if first = ∅ then ∅ else sdiffLoop others first
    else
      first.filter fun ele =>
        others.all fun o => o.2.all fun xs => o.1 ≠ key && decide (ele ∉ xs)
  | _ => ∅

def sunionDiffGenericCommand (op : List (Sds × Option (Finset Sds)) → Finset Sds)
    (db : AggDb F) (dstkey : Sds) (keys : List Sds) : Outcome F :=
  match lookupSets db keys with
  | none => (db,.wrongtypeerr)
  | some sets => storeSet db dstkey (op sets)

def sunionstoreCommand (dstkey : Sds) (keys : List Sds) : Outcome F :=
  sunionDiffGenericCommand sunionOf db dstkey keys

def sdiffstoreCommand (dstkey : Sds) (keys : List Sds) : Outcome F :=
  sunionDiffGenericCommand sdiffOf db dstkey keys

structure ZaddFlags where
  nx : Bool
  xx : Bool
  ch : Bool
  incr : Bool
  deriving DecidableEq

def zaddOptions : ZaddFlags → List Sds → ZaddFlags × List Sds
  | flags, opt :: rest =>
    if strcasecmp opt [110,120] then zaddOptions { flags with nx := true } rest
    else if strcasecmp opt [120,120] then zaddOptions { flags with xx := true } rest
    else if strcasecmp opt [99,104] then zaddOptions { flags with ch := true } rest
    else if strcasecmp opt [105,110,99,114] then zaddOptions { flags with incr := true } rest
    else (flags,opt :: rest)
  | flags, [] => (flags,[])

/-- Elements are ordered by score, those with one score by their bytes. -/
def zslInsert (score : F) (ele : Sds) : List (F × Sds) → List (F × Sds)
  | [] => [(score,ele)]
  | z :: rest =>
    if D.lt z.1 score || D.eq z.1 score && decide (z.2 < ele) then z :: zslInsert score ele rest
    else (score,ele) :: z :: rest

def zslRemove (ele : Sds) (zs : List (F × Sds)) : List (F × Sds) := zs.filter (·.2 ≠ ele)

inductive ZaddRes (F : Type) where
  | nan
  | nop
  | same (score : F)
  | updated (zs : List (F × Sds)) (score : F)
  | added (zs : List (F × Sds)) (score : F)

def zsetAdd (flags : ZaddFlags) (zs : List (F × Sds)) (score : F) (ele : Sds) : ZaddRes F :=
  if D.isnan score then .nan
  else
    match zs.find? (·.2 = ele) with
    | some (curscore,_) =>
      if flags.nx then .nop
      else
        let score := if flags.incr then D.add score curscore else score
        if flags.incr && D.isnan score then .nan
        else if D.eq score curscore then .same score
        else .updated (zslInsert D score ele (zslRemove ele zs)) score
    | none => if flags.xx then .nop else .added (zslInsert D score ele zs) score

structure ZaddState (F : Type) where
  zs : List (F × Sds)
  added : Nat
  updated : Nat
  processed : Nat
  score : F

/-- The loop over the pairs; the flag tells that it ended at a score that is not a number. -/
def zaddLoop (flags : ZaddFlags) : List (F × Sds) → ZaddState F → ZaddState F × Bool
  | [], z => (z,false)
  | (score,ele) :: rest, z =>
    match zsetAdd D flags z.zs score ele with
    | .nan => (z,true)
    | .nop => zaddLoop flags rest z
    | .same score => zaddLoop flags rest { z with processed := z.processed + 1, score := score }
    | .updated zs score =>
      zaddLoop flags rest
        { z with zs := zs, updated := z.updated + 1, processed := z.processed + 1, score := score }
    | .added zs score =>
      zaddLoop flags rest
        { z with zs := zs, added := z.added + 1, processed := z.processed + 1, score := score }

def zaddPairs : List Sds → Option (List (F × Sds))
  | score :: ele :: rest =>
    match D.getFloatFromObject score with
    | none => none
    | some score => (zaddPairs rest).map ((score,ele) :: ·)
  | _ => some []

def zaddReply (flags : ZaddFlags) (z : ZaddState F) : AggReply F :=
  if flags.incr then if z.processed > 0 then .double z.score else .null
  else .integer (if flags.ch then z.added + z.updated else z.added)

def zaddTo (flags : ZaddFlags) (pairs : List (F × Sds)) (db : AggDb F) (key : Sds)
    (zs : List (F × Sds)) : Outcome F :=
  let r := zaddLoop D flags pairs ⟨zs,0,0,0,D.zero⟩
  (db.insert key (.zset r.1.zs),
    if r.2 then .error "-ERR resulting score is not a number (NaN)" else zaddReply flags r.1)

def zaddGenericCommand (incr : Bool) (db : AggDb F) (key : Sds) (args : List Sds) : Outcome F :=
  let (flags,rest) := zaddOptions ⟨false,false,false,incr⟩ args
  if rest.length % 2 = 1 ∨ rest = [] then (db,.syntaxerr)
  else if flags.nx && flags.xx then
    (db,.error "-ERR XX and NX options at the same time are not compatible")
  else if flags.incr && decide (rest.length / 2 > 1) then
    (db,.error "-ERR INCR option supports a single increment-element pair")
  else
    match zaddPairs D rest with
    | none => (db,.notAFloat)
    | some pairs =>
      match db.lookup key with
      | none =>
        if flags.xx then (db,zaddReply flags ⟨[],0,0,0,D.zero⟩) else zaddTo D flags pairs db key []
      | some (.zset zs) => zaddTo D flags pairs db key zs
      | some _ => (db,.wrongtypeerr)

def zaddCommand (args : List Sds) : Outcome F :=
  zaddGenericCommand D false db key args

def zincrbyCommand (args : List Sds) : Outcome F :=
  zaddGenericCommand D true db key args

/-- The loop of `ZREM` looks at the length after every element, deleted or not. -/
def zsetDelAll : List Sds → List (F × Sds) → Nat → List (F × Sds) × Nat × Bool
  | [], zs, deleted => (zs,deleted,false)
  | ele :: rest, zs, deleted =>
    let deleted := if zs.any (·.2 = ele) then deleted + 1 else deleted
    match zslRemove ele zs with
    | [] => ([],deleted,true)
    | z :: left => zsetDelAll rest (z :: left) deleted

def zremCommand (eles : List Sds) : Outcome F :=
  match db.lookup key with
  | none => (db,.czero)
  | some (.zset zs) =>
    let r := zsetDelAll eles zs 0
    (if r.2.2 then dbDelete db key else db.insert key (.zset r.1),.integer r.2.1)
  | some _ => (db,.wrongtypeerr)

end

def zslParseRangeItem (item : Sds) : Option (F × Bool) :=
  let ex : Bool := (cstr item).head? = some 40
  let text := if ex then (cstr item).tail else cstr item
  let r := D.strto text
  if r.2.1 ≠ text.length || D.isnan r.1 then none else some (r.1,ex)

inductive LexBound where
  | minstring
  | maxstring
  | str (s : Sds) (ex : Bool)
  deriving DecidableEq

def zslParseLexRangeItem : Sds → Option LexBound
  | 43 :: rest => if cstr rest = [] then some .maxstring else none
  | 45 :: rest => if cstr rest = [] then some .minstring else none
  | 40 :: rest => some (.str rest true)
  | 91 :: rest => some (.str rest false)
  | _ => none

def zslLexValueGteMin (value : Sds) : LexBound → Bool
  | .minstring => true
  | .maxstring => false
  | .str s ex => if ex then s < value else s < value ∨ s = value

def zslLexValueLteMax (value : Sds) : LexBound → Bool
  | .minstring => false
  | .maxstring => true
  | .str s ex => if ex then value < s else value < s ∨ value = s

inductive ZRange (F : Type) where
  | rank (start stop : Int)
  | score (min max : F × Bool)
  | lex (min max : LexBound)

inductive ZRangeType where
  | rank
  | score
  | lex
  deriving DecidableEq

def zremrangeParse (type : ZRangeType) (min max : Sds) : Except String (ZRange F) :=
  match type with
  | .rank => do
    let start ← getLongFromObjectOrReply min
    let stop ← getLongFromObjectOrReply max
    return .rank start stop
  | .score =>
    match zslParseRangeItem D min, zslParseRangeItem D max with
    | some min, some max => .ok (.score min max)
    | _, _ => .error "-ERR min or max is not a float"
  | .lex =>
    match zslParseLexRangeItem min, zslParseLexRangeItem max with
    | some min, some max => .ok (.lex min max)
    | _, _ => .error "-ERR min or max not valid string range item"

/-- Skips the elements below the range and deletes from there on while in range. -/
def zslDeleteRange (gteMin lteMax : F × Sds → Bool) (zs : List (F × Sds)) : List (F × Sds) :=
  zs.takeWhile (! gteMin ·) ++ (zs.dropWhile (! gteMin ·)).dropWhile lteMax

/-- What is left after the deletion, or `none` when the indexes are of an empty range. -/
def zremrangeDelete (zs : List (F × Sds)) : ZRange F → Option (List (F × Sds))
  | .rank start stop =>
    let llen : Int := zs.length
    let start := if start < 0 then llen + start else start
    let stop := if stop < 0 then llen + stop else stop
    let start := if start < 0 then 0 else start
    if start > stop ∨ start ≥ llen then none
    else
      let stop := if stop ≥ llen then llen - 1 else stop
      some (zs.take start.toNat ++ zs.drop (stop.toNat + 1))
  | .score min max =>
    some (zslDeleteRange (fun z => if min.2 then D.lt min.1 z.1 else D.le min.1 z.1)
      (fun z => if max.2 then D.lt z.1 max.1 else D.le z.1 max.1) zs)
  | .lex min max =>
    some (zslDeleteRange (fun z => zslLexValueGteMin z.2 min)
      (fun z => zslLexValueLteMax z.2 max) zs)

def zremrangeGenericCommand (type : ZRangeType) (db : AggDb F) (key min max : Sds) : Outcome F :=
  match zremrangeParse D type min max with
  | .error msg => (db,.error msg)
  | .ok range =>
    match db.lookup key with
    | none => (db,.czero)
    | some (.zset zs) =>
      match zremrangeDelete D zs range with
      | none => (db,.czero)
      | some [] => (dbDelete db key,.integer zs.length)
      | some (z :: left) =>
        (db.insert key (.zset (z :: left)),.integer (zs.length - (left.length + 1)))
    | some _ => (db,.wrongtypeerr)

end AggDb

inductive AggCommand where
  | hset
  | hmset
  | hsetnx
  | hincrby
  | hincrbyfloat
  | hdel
  | sadd
  | srem
  | smove
  | spop
  | sinterstore
  | sunionstore
  | sdiffstore
  | zadd
  | zincrby
  | zrem
  | zremrangebyrank
  | zremrangebyscore
  | zremrangebylex
  deriving DecidableEq

namespace AggCommand

def name : AggCommand → String
  | .hset => "hset"
  | .hmset => "hmset"
  | .hsetnx => "hsetnx"
  | .hincrby => "hincrby"
  | .hincrbyfloat => "hincrbyfloat"
  | .hdel => "hdel"
  | .sadd => "sadd"
  | .srem => "srem"
  | .smove => "smove"
  | .spop => "spop"
  | .sinterstore => "sinterstore"
  | .sunionstore => "sunionstore"
  | .sdiffstore => "sdiffstore"
  | .zadd => "zadd"
  | .zincrby => "zincrby"
  | .zrem => "zrem"
  | .zremrangebyrank => "zremrangebyrank"
  | .zremrangebyscore => "zremrangebyscore"
  | .zremrangebylex => "zremrangebylex"

/-- As in the command table: a negative arity is a least number of arguments. -/
def arity : AggCommand → Int
  | .hset | .hmset | .zadd => -4
  | .hdel | .sadd | .srem | .sinterstore | .sunionstore | .sdiffstore | .zrem => -3
  | .spop => -2
  | _ => 4

/-- The check of `processCommand`; `args` are the arguments after the name. -/
def arityFits (cmd : AggCommand) (args : List Sds) : Bool :=
  if cmd.arity > 0 then cmd.arity = args.length + 1 else -cmd.arity ≤ args.length + 1

def arityError (cmd : AggCommand) : String :=
  "-ERR wrong number of arguments for '" ++ cmd.name ++ "' command"

end AggCommand

structure AggAct (n : Nat) where
  db : Fin (n+1)
  cmd : AggCommand
  args : List Sds
  draws : List Sds

structure AggServer (n : Nat) (F : Type) where
  dbs : Fin (n+1) → AggDb F
  reply : Option (AggReply F)

namespace AggServer
variable {n : Nat} {E F : Type} (D : FloatType F) (L : FloatType E)

/-- `none` where the elements drawn are not those that the command could draw, or where the
arity has not been checked. -/
def proc (draws : List Sds) (db : AggDb F) : AggCommand → List Sds → Option (AggDb.Outcome F)
  | .hset, key :: rest => some (db.hsetCommand false key rest)
  | .hmset, key :: rest => some (db.hsetCommand true key rest)
  | .hsetnx, [key,field,value] => some (db.hsetnxCommand key field value)
  | .hincrby, [key,field,incr] => some (db.hincrbyCommand key field incr)
  | .hincrbyfloat, [key,field,incr] => some (db.hincrbyfloatCommand L key field incr)
  | .hdel, key :: fields => some (db.hdelCommand key fields)
  | .sadd, key :: eles => some (db.saddCommand key eles)
  | .srem, key :: eles => some (db.sremCommand key eles)
  | .smove, [src,dst,ele] => some (db.smoveCommand src dst ele)
  | .spop, key :: rest => db.spopCommand draws key rest
  | .sinterstore, dstkey :: keys => some (db.sinterstoreCommand dstkey keys)
  | .sunionstore, dstkey :: keys => some (db.sunionstoreCommand dstkey keys)
  | .sdiffstore, dstkey :: keys => some (db.sdiffstoreCommand dstkey keys)
  | .zadd, key :: args => some (db.zaddCommand D key args)
  | .zincrby, key :: args => some (db.zincrbyCommand D key args)
  | .zrem, key :: eles => some (db.zremCommand key eles)
  | .zremrangebyrank, [key,min,max] => some (db.zremrangeGenericCommand D .rank key min max)
  | .zremrangebyscore, [key,min,max] => some (db.zremrangeGenericCommand D .score key min max)
  | .zremrangebylex, [key,min,max] => some (db.zremrangeGenericCommand D .lex key min max)
  | _, _ => none

def step (s : AggServer n F) (a : AggAct n) : Option (Except Empty (AggServer n F)) :=
  if a.cmd.arityFits a.args then
    (proc D L a.draws (s.dbs a.db) a.cmd a.args).map fun r =>
      .ok ⟨Function.update s.dbs a.db r.1,some r.2⟩
  else some (.ok { s with reply := some (.error a.cmd.arityError) })

end AggServer

def aggServer {E F : Type} (D : FloatType F) (L : FloatType E) (n : Nat) :
    Machine (AggServer n F) (AggAct n) Empty where
  init := ⟨fun _ => ∅,none⟩
  step := AggServer.step D L

end RedRock
