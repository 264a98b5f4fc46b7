import RedRock.Basic

namespace RedRock
open Lib List

def OBJ_SHARED_REFCOUNT : Nat := 2147483647
def OBJ_SHARED_INTEGERS : Nat := 10000
def OBJ_ENCODING_EMBSTR_SIZE_LIMIT : Nat := 44

/-- `length` integers of `encoding` bytes each. The product is the 32-bit one
that `intset.c` and `rock_serdes.c` compute. -/
structure Intset where
  encoding : Nat
  length : Nat
  contents : Bytes
  encoding_lt : encoding < 256 ^ 4
  length_lt : length < 256 ^ 4
  size : contents.length = encoding * length % 256 ^ 4
  deriving DecidableEq

/-- A ziplist blob starts with its own total length in four bytes. -/
structure Ziplist where
  body : Bytes
  small : body.length + 4 < 256 ^ 4
  deriving DecidableEq

def Ziplist.blobLen (zl : Ziplist) : Nat := zl.body.length + 4
def Ziplist.blob (zl : Ziplist) : Bytes := leBytes 4 zl.blobLen ++ zl.body

structure SetHt where
  elems : List (Blob 8)
  nodup : elems.Nodup
  count_lt : elems.length < 256 ^ 8
  deriving DecidableEq

structure HashHt where
  fields : List (Blob 8 × Blob 8)
  nodup : (fields.map Prod.fst).Nodup
  count_lt : fields.length < 256 ^ 8
  deriving DecidableEq

def isnan (s : BitVec 64) : Bool := decide (0x7ff0000000000000 < s.toNat % 2 ^ 63)

/-- `zslInsert` asserts that a score is a number. -/
structure ZskiplistNode where
  score : BitVec 64
  ele : Blob 8
  number : isnan score = false
  deriving DecidableEq

/-- The order of the doubles with the given bits, NaN aside: both zeros are
equal, and negative numbers count down with their magnitude. -/
def scoreKey (s : BitVec 64) : ℤ :=
  if s.msb then -((s.toNat % 2 ^ 63 : ℕ) : ℤ) else ((s.toNat % 2 ^ 63 : ℕ) : ℤ)

def ZskiplistNode.key (x : ZskiplistNode) : ℤ ×ₗ List ℕ :=
  toLex (scoreKey x.score,x.ele.val.map UInt8.toNat)

def zslLe (x y : ZskiplistNode) : Prop := x.key ≤ y.key

instance : DecidableRel zslLe := fun x y => inferInstanceAs (Decidable (x.key ≤ y.key))
instance : Std.Total zslLe := ⟨fun x y => le_total x.key y.key⟩
instance : IsTrans ZskiplistNode zslLe := ⟨fun _ _ _ => le_trans⟩

structure Zskiplist where
  nodes : List ZskiplistNode
  sorted : nodes.Pairwise zslLe
  length_lt : nodes.length < 256 ^ 8
  deriving DecidableEq

/-- What `o->type`, `o->encoding` and `o->ptr` say together. -/
inductive Content where
  | int (v : BitVec 64)
  | raw (s : Bytes)
  | embstr (s : {s : Bytes // s.length ≤ OBJ_ENCODING_EMBSTR_SIZE_LIMIT})
  | quicklist (l : List (Blob 4))
  | intset (is : Intset)
  | setHt (s : SetHt)
  | hashZiplist (zl : Ziplist)
  | hashHt (h : HashHt)
  | zsetZiplist (zl : Ziplist)
  | zsetSkiplist (z : Zskiplist)
  | stream (payload : Bytes)
  | module (payload : Bytes)
  deriving DecidableEq

inductive ObjType where
  | string
  | list
  | set
  | zset
  | hash
  | module
  | stream
  deriving DecidableEq, Repr

def Content.type : Content → ObjType
  | .int _ | .raw _ | .embstr _ => .string
  | .quicklist _ => .list
  | .intset _ | .setHt _ => .set
  | .hashZiplist _ | .hashHt _ => .hash
  | .zsetZiplist _ | .zsetSkiplist _ => .zset
  | .stream _ => .stream
  | .module _ => .module

structure Robj where
  content : Content
  lru : BitVec 24
  refcount : Nat
  deriving DecidableEq

def Robj.type (o : Robj) : ObjType := o.content.type

/-- `maxmemory` and `maxmemory_policy & MAXMEMORY_FLAG_NO_SHARED_INTEGERS` decide
whether small integers are shared; `lazyfree_lazy_server_del` is read by `dbDelete`. -/
structure Config where
  maxmemory : Nat
  noSharedIntegers : Bool
  lazyfreeLazyServerDel : Bool
  deriving DecidableEq

def createStringObjectFromLongLongForValue (cfg : Config) (v : BitVec 64) (lru : BitVec 24) :
    Robj :=
  let valueobj := !(cfg.maxmemory == 0 || !cfg.noSharedIntegers)
  if 0 ≤ v.toInt ∧ v.toInt < OBJ_SHARED_INTEGERS ∧ valueobj = false then
    ⟨.int v,lru,OBJ_SHARED_REFCOUNT⟩
  else ⟨.int v,lru,1⟩

def isSharedInteger (cfg : Config) : Content → Bool
  | .int v => decide (0 ≤ v.toInt ∧ v.toInt < OBJ_SHARED_INTEGERS) &&
      (cfg.maxmemory == 0 || !cfg.noSharedIntegers)
  | _ => false

lemma longLongForValue_eq (cfg : Config) (v : BitVec 64)
    (lru : BitVec 24) : createStringObjectFromLongLongForValue cfg v lru =
      ⟨.int v,lru,if isSharedInteger cfg (.int v) then OBJ_SHARED_REFCOUNT else 1⟩ := by
  unfold createStringObjectFromLongLongForValue isSharedInteger
  by_cases hs : (cfg.maxmemory == 0 || !cfg.noSharedIntegers) = true
  · by_cases hv : 0 ≤ v.toInt ∧ v.toInt < OBJ_SHARED_INTEGERS
    · simp [hs,hv]
    rw [if_neg (fun h => hv ⟨h.1,h.2.1⟩)]
    simp [hv]
  · simp [hs]

/-- `zslInsert`: before the first node that is not smaller. -/
def zslInsert (l : List ZskiplistNode) (x : ZskiplistNode) : List ZskiplistNode :=
  l.orderedInsert zslLe x

lemma foldl_zslInsert_sorted (xs l : List ZskiplistNode) (h : l.Pairwise zslLe) :
    (xs.foldl zslInsert l).Pairwise zslLe := by
  induction xs generalizing l with
  | nil => exact h
  | cons x xs ih => exact ih _ (h.orderedInsert x l)

lemma foldl_zslInsert_length (xs l : List ZskiplistNode) :
    (xs.foldl zslInsert l).length = xs.length + l.length := by
  induction xs generalizing l with
  | nil => simp
  | cons x xs ih =>
    rw [foldl_cons,ih,zslInsert,orderedInsert_length,length_cons]
    omega

/-- Inserting the nodes of a sorted list from the last to the first puts each of
them at the head. -/
theorem foldl_zslInsert_reverse (xs : List ZskiplistNode) (h : xs.Pairwise zslLe) :
    xs.reverse.foldl zslInsert [] = xs := by
  induction xs with
  | nil => rfl
  | cons x xs ih =>
    rw [reverse_cons,foldl_append,ih h.of_cons]
    cases xs with
    | nil => rfl
    | cons y ys =>
      have hxy : zslLe x y := rel_of_pairwise_cons h (by simp)
      simp [zslInsert,hxy]

end RedRock
