import RedRock.Lib.Decimal
import RedRock.Protocol

/-!
`sort.c`: the weights and the results of SORT are taken from the values of keys whose names are
made from the BY and GET patterns and the elements, which `cmdCheckRockForOneKey` does not look
at.
-/

namespace RedRock
open Lib

inductive StrObj where
  | raw (s : Bytes)
  | int (v : Int)
  deriving DecidableEq

def ll2string (v : Int) : Bytes :=
  if v < 0 then 45 :: decimal v.natAbs else decimal v.natAbs

/-- `getDecodedObject`. -/
def StrObj.text : StrObj → Bytes
  | .raw s => s
  | .int v => ll2string v

/-- Sets are in the order of their iterator, sorted sets have their skiplist from the lowest
rank up and their dictionary in the order of its iterator. -/
inductive SortVal where
  | str (o : StrObj)
  | hash (fields : List (Sds × StrObj))
  | list (xs : List StrObj)
  | set (xs : List Bytes)
  | zset (zsl dict : List Bytes)
  | stream
  deriving DecidableEq

inductive SortRobj where
  | val (v : SortVal)
  | valueInRock
  deriving DecidableEq

inductive SortFound where
  | own (o : StrObj)
  | valueInRock
  deriving DecidableEq

/-- `shared.valueInRock` has `OBJ_ENCODING_INT` and `ptr` 250. -/
def SortFound.obj : SortFound → StrObj
  | .own o => o
  | .valueInRock => .int 250

structure SortDb where
  dict : Sds → Option SortVal
  onDisk : Sds → Bool

def SortDb.lookupKey (db : SortDb) (key : Sds) : Option SortRobj :=
  (db.dict key).map fun v => if db.onDisk key then .valueInRock else .val v

def strstr (bs needle : Bytes) : Option Nat :=
  (cstr bs).tails.findIdx? (needle.isPrefixOf ·)

/-- The key that `lookupKeyByPattern` makes of a pattern and an element, and the field of a
hash dereference. -/
def patternKey (spat ssub : Bytes) : Option (Sds × Option Sds) :=
  match strchr spat 42 with
  | none => none
  | some prefixlen =>
    let rest := spat.drop (prefixlen+1)
    match strstr rest [45,62] with
    | none => some (spat.take prefixlen ++ ssub ++ rest,none)
    | some f =>
      let field := rest.drop (f+2)
      if field.headD 0 ≠ 0 then
        some (spat.take prefixlen ++ ssub ++ rest.take f,some field)
      else some (spat.take prefixlen ++ ssub ++ rest,none)

/-- The type of the object is checked, and for the placeholder that is the type of strings. -/
def dereference : SortRobj → Option Sds → Option SortFound
  | .val (.hash fields), some field => (fields.lookup field).map .own
  | .val (.str o), none => some (.own o)
  | .valueInRock, none => some .valueInRock
  | _, _ => none

def SortDb.lookupKeyByPattern (db : SortDb) (pattern : Bytes) (subst : StrObj) : Option SortFound :=
  if cstr pattern = [35] then some (.own subst)
  else
    match patternKey pattern subst.text with
    | none => none
    | some (key,field) => (db.lookupKey key).bind fun o => dereference o field

structure SortOptions where
  desc : Bool
  alpha : Bool
  limitStart : Int
  limitCount : Int
  storekey : Option Sds
  sortby : Option Sds
  dontsort : Bool
  operations : List Sds

def sortSyntaxErr : String := "-ERR syntax error"
def sortByDenied : String := "-ERR BY option of SORT denied in Cluster mode."
def sortGetDenied : String := "-ERR GET option of SORT denied in Cluster mode."
def sortWrongType : String :=
  "-WRONGTYPE Operation against a key holding the wrong kind of value"
def sortNotDouble : String := "-ERR One or more scores can't be converted into double"

def sortOptions (clusterEnabled : Bool) : List Sds → SortOptions → Except String SortOptions
  | [], o => .ok o
  | arg :: rest, o =>
    if strcasecmp arg [97,115,99] then sortOptions clusterEnabled rest { o with desc := false }
    else if strcasecmp arg [100,101,115,99] then
      sortOptions clusterEnabled rest { o with desc := true }
    else if strcasecmp arg [97,108,112,104,97] then
      sortOptions clusterEnabled rest { o with alpha := true }
    else
      match rest with
      | [] => .error sortSyntaxErr
      | val :: rest =>
        if strcasecmp arg [108,105,109,105,116] then
          match rest with
          | [] => .error sortSyntaxErr
          | count :: rest =>
            match getLongFromObjectOrReply val, getLongFromObjectOrReply count with
            | .ok limitStart, .ok limitCount =>
              sortOptions clusterEnabled rest
                { o with limitStart := limitStart, limitCount := limitCount }
            | .error e, _ => .error e
            | _, .error e => .error e
        else if strcasecmp arg [115,116,111,114,101] then
          sortOptions clusterEnabled rest { o with storekey := some val }
        else if strcasecmp arg [98,121] then
          if (strchr val 42).isNone then
            sortOptions clusterEnabled rest { o with sortby := some val, dontsort := true }
          else if clusterEnabled then .error sortByDenied
          else sortOptions clusterEnabled rest { o with sortby := some val }
        else if strcasecmp arg [103,101,116] then
          if clusterEnabled then .error sortGetDenied
          else sortOptions clusterEnabled rest { o with operations := o.operations ++ [val] }
        else .error sortSyntaxErr

/-- The failing assertions of `sortCommand`, and the overflow of a signed addition. -/
inductive SortFault where
  | overflow
  | assertion
  deriving DecidableEq

def sortRange (o : SortOptions) (vectorlen : Int) : Except SortFault (Int × Int) :=
  let start := if o.limitStart < 0 then 0 else o.limitStart
  if 0 ≤ o.limitCount ∧ 2^63 ≤ start + o.limitCount then .error .overflow
  else
    let stop := if o.limitCount < 0 then vectorlen - 1 else start + o.limitCount - 1
    if start ≥ vectorlen then .ok (vectorlen - 1,vectorlen - 2)
    else .ok (start,if stop ≥ vectorlen then vectorlen - 1 else stop)

structure SortPlan extends SortOptions where
  vector : List StrObj
  start : Int
  stop : Int

def SortVal.length : SortVal → Option Nat
  | .list xs => some xs.length
  | .set xs => some xs.length
  | .zset _ dict => some dict.length
  | _ => none

def loadRange (desc : Bool) (xs : List StrObj) (start : Int) (vectorlen : Nat) : List StrObj :=
  ((if desc then xs.reverse else xs).drop start.toNat).take vectorlen

/-- Loads the vector. `vectorlen` is smaller than the value only for a LIMIT without sorting. -/
def loadVector (o : SortOptions) (v : SortVal) (len : Nat) (start stop : Int) :
    Except SortFault SortPlan :=
  let vectorlen :=
    if o.dontsort ∧ (start ≠ 0 ∨ stop ≠ len - 1) then (stop - start + 1).toNat else len
  match v with
  | .list xs =>
    if o.dontsort then
      if start ≤ stop then
        let vector := loadRange o.desc xs start vectorlen
        if vector.length = vectorlen then .ok ⟨o,vector,0,stop - start⟩ else .error .assertion
      else if vectorlen = 0 then .ok ⟨o,[],start,stop⟩ else .error .assertion
    else .ok ⟨o,xs,start,stop⟩
  | .zset zsl dict =>
    if o.dontsort then
      let vector := loadRange o.desc (zsl.map .raw) start vectorlen
      if vector.length = vectorlen then .ok ⟨o,vector,0,stop - start⟩ else .error .assertion
    else .ok ⟨o,dict.map .raw,start,stop⟩
  | .set xs => .ok ⟨o,xs.map .raw,start,stop⟩
  | _ => .error .assertion

/-- A set that is not sorted is sorted anyway for STORE and for scripts. -/
def forceAlpha (lua : Bool) (o : SortOptions) : SortVal → SortOptions
  | .set _ =>
    if o.dontsort && (o.storekey.isSome || lua) then
      { o with dontsort := false, alpha := true, sortby := none }
    else o
  | _ => o

/-- What `sortCommand` does before it looks at other keys. The inner error is a reply. -/
def sortPlan (clusterEnabled lua : Bool) (sortval : Option SortRobj) (argv : List Sds) :
    Except SortFault (Except String SortPlan) :=
  match sortOptions clusterEnabled argv ⟨false,false,0,-1,none,none,false,[]⟩ with
  | .error e => .ok (.error e)
  | .ok o =>
    match sortval.getD (.val (.list [])) with
    | .valueInRock => .ok (.error sortWrongType)
    | .val v =>
      match v.length with
      | none => .ok (.error sortWrongType)
      | some len => do
        let o := forceAlpha lua o v
        let (start,stop) ← sortRange o len
        let p ← loadVector o v len start stop
        return .ok p

/-- `redisSortObject`: the union `u` is `score` for numbers and `cmpobj` for ALPHA. -/
structure SortObject (F : Type) where
  obj : StrObj
  score : F
  cmpobj : Option Bytes

/-- The C library: `strtod` returns the value, the text at `eptr` and whether it sets `errno` to
`ERANGE`. `qsort` and `pqsort` get the comparison, `pqsort` also the range. -/
structure SortLib (F : Type) where
  strtod : Bytes → F × Bytes × Bool
  ofLong : Int → F
  lt : F → F → Bool
  isnan : F → Bool
  zero : F
  strcoll : Bytes → Bytes → Int
  qsort : (SortObject F → SortObject F → Int) → List (SortObject F) → List (SortObject F)
  pqsort : (SortObject F → SortObject F → Int) → Int → Int → List (SortObject F) →
    List (SortObject F)

def memcmp : Bytes → Bytes → Int
  | a :: as, b :: bs => if a = b then memcmp as bs else (a.toNat : Int) - b.toNat
  | _, _ => 0

def compareStrings (a b : Bytes) : Int :=
  if memcmp a b = 0 then (a.length : Int) - b.length else memcmp a b

section
variable {F : Type} (lib : SortLib F)

def collateStrings (a b : Bytes) : Int := lib.strcoll (cstr a) (cstr b)

def sortCompareAsc (p : SortPlan) (a b : SortObject F) : Int :=
  if !p.alpha then
    if lib.lt b.score a.score then 1
    else if lib.lt a.score b.score then -1
    else compareStrings a.obj.text b.obj.text
  else if p.sortby.isSome then
    match a.cmpobj, b.cmpobj with
    | none, none => 0
    | none, some _ => -1
    | some _, none => 1
    | some x, some y =>
      if p.storekey.isSome then compareStrings x y else collateStrings lib x y
  else if p.storekey.isSome then compareStrings a.obj.text b.obj.text
  else collateStrings lib a.obj.text b.obj.text

def sortCompare (p : SortPlan) (a b : SortObject F) : Int :=
  if p.desc then -sortCompareAsc lib p a b else sortCompareAsc lib p a b

structure ConvState where
  erange : Bool
  failed : Bool

def loadScore (c : ConvState) : Option StrObj → F × ConvState
  | none => (lib.zero,c)
  | some (.int v) => (lib.ofLong v,c)
  | some (.raw s) =>
    let r := lib.strtod (cstr s)
    let erange := c.erange || r.2.2
    (r.1,⟨erange,c.failed || !r.2.1.isEmpty || erange || lib.isnan r.1⟩)

variable (look : Bytes → StrObj → Option SortFound) (p : SortPlan)

def loadWeight (c : ConvState) (obj : StrObj) : SortObject F × ConvState :=
  match p.sortby with
  | some pattern =>
    let byval := (look pattern obj).map SortFound.obj
    if p.alpha then (⟨obj,lib.zero,byval.map StrObj.text⟩,c)
    else
      let r := loadScore lib c byval
      (⟨obj,r.1,none⟩,r.2)
  | none =>
    if p.alpha then (⟨obj,lib.zero,none⟩,c)
    else
      let r := loadScore lib c (some obj)
      (⟨obj,r.1,none⟩,r.2)

def loadWeights (p : SortPlan) : ConvState → List StrObj → List (SortObject F) × ConvState
  | c, [] => ([],c)
  | c, obj :: objs =>
    let r := loadWeight lib look p c obj
    let rs := loadWeights p r.2 objs
    (r.1 :: rs.1,rs.2)

def sortedRange (erange : Bool) (p : SortPlan) : List StrObj × Bool :=
  let range := fun objs : List StrObj =>
    (objs.drop p.start.toNat).take (p.stop - p.start + 1).toNat
  if p.dontsort then (range p.vector,false)
  else
    let r := loadWeights lib look p ⟨erange,false⟩ p.vector
    let sorted :=
      if p.sortby.isSome ∧ (p.start ≠ 0 ∨ p.stop ≠ p.vector.length - 1) then
        lib.pqsort (sortCompare lib p) p.start p.stop r.1
      else lib.qsort (sortCompare lib p) r.1
    (range (sorted.map SortObject.obj),r.2.failed)

inductive SortReply where
  | error (e : String)
  | array (len : Nat) (items : List (Option Bytes))
  | integer (v : Nat)
  deriving DecidableEq

/-- The reply, and for STORE the key with the list it is set to, or `none` if it is deleted. -/
structure SortResult where
  reply : SortReply
  store : Option (Sds × Option (List Bytes))
  deriving DecidableEq

/-- `unsigned int outputlen`. -/
def SortPlan.outputlen : Nat :=
  let n := p.stop - p.start + 1
  ((if p.operations = [] then n else p.operations.length * n) % 2^32).toNat

def outputElement (obj : StrObj) : List (Option Bytes) :=
  if p.operations = [] then [some obj.text]
  else p.operations.map fun pattern => (look pattern obj).map fun o => o.obj.text

def sortOutput (r : List StrObj × Bool) : SortResult :=
  if r.2 then ⟨.error sortNotDouble,none⟩
  else
    let items := r.1.flatMap (outputElement look p)
    match p.storekey with
    | none => ⟨.array p.outputlen items,none⟩
    | some storekey =>
      ⟨.integer p.outputlen,
        some (storekey,if p.outputlen ≠ 0 then some (items.map (·.getD [])) else none)⟩

def weightLookups : List (Bytes × StrObj) :=
  if p.dontsort then [] else p.sortby.toList.flatMap fun pattern => p.vector.map (pattern,·)

def getLookups (r : List StrObj × Bool) : List (Bytes × StrObj) :=
  if r.2 then [] else r.1.flatMap fun obj => p.operations.map (·,obj)

end

/-- `clusterEnabled` is the configuration, `lua` the flag of the client and `erange` whether
`errno` is `ERANGE` when the command starts. -/
structure SortEnv (F : Type) where
  lib : SortLib F
  clusterEnabled : Bool
  lua : Bool
  erange : Bool

namespace SortEnv
variable {F : Type} (env : SortEnv F)

def sortCommand (db : SortDb) (key : Sds) (argv : List Sds) : Except SortFault SortResult := do
  match ← sortPlan env.clusterEnabled env.lua (db.lookupKey key) argv with
  | .error e => return ⟨.error e,none⟩
  | .ok p =>
    return sortOutput db.lookupKeyByPattern p
      (sortedRange env.lib db.lookupKeyByPattern env.erange p)

def lookups (db : SortDb) (key : Sds) (argv : List Sds) : List (Bytes × StrObj) :=
  match sortPlan env.clusterEnabled env.lua (db.lookupKey key) argv with
  | .ok (.ok p) =>
    weightLookups p ++ getLookups p (sortedRange env.lib db.lookupKeyByPattern env.erange p)
  | _ => []

end SortEnv
end RedRock
