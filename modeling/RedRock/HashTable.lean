import RedRock.Lib.Machine

/-!
The hash table of `dict.c`. It grows and shrinks by moving its entries from one table to
another, a bucket at a time, while it is in use.
-/

namespace RedRock
open Lib

/-- A table of chains. Its size is a power of two, or zero when there is no table yet. -/
structure Dictht (κ α : Type) where
  table : Nat → List (κ × α)
  size : Nat
  used : Nat

/-- An access past the end of a table, the assertion on `rehashidx`, and an entry that is
`NULL` where it is written. -/
inductive DictFault where
  | outOfBounds
  | rehashidx
  | nullEntry
  deriving DecidableEq

namespace Dictht
variable {κ α : Type}

def reset : Dictht κ α := ⟨fun _ => [],0,0⟩

variable (t : Dictht κ α)

/-- `_dictReset` sets the mask to zero. -/
def sizemask : Nat := t.size - 1

def index (hash : BitVec 64) : Nat := hash.toNat &&& t.sizemask

/-- How many buckets there is memory for: the product with the size of a pointer is taken in
64 bits. -/
def allocated : Nat := t.size * 8 % 2 ^ 64 / 8

def bucket (i : Nat) : Except DictFault (List (κ × α)) :=
  if i < t.allocated then .ok (t.table i) else .error .outOfBounds

def setBucket (i : Nat) (chain : List (κ × α)) (used : Nat) : Dictht κ α :=
  { t with table := Function.update t.table i chain, used := used }

def push (i : Nat) (e : κ × α) : Dictht κ α :=
  t.setBucket i (e :: t.table i) (t.used + 1)

end Dictht

/-- `canResize` is the global `dict_can_resize`. -/
structure HashDict (κ α : Type) where
  ht0 : Dictht κ α
  ht1 : Dictht κ α
  rehashidx : Option Nat
  iterators : Nat
  canResize : Bool

def dictHtInitialSize : Nat := 4

def dictForceResizeRatio : Nat := 5

def nextPowerFrom : Nat → Nat → Nat → Nat
  | 0, i, _ => i
  | fuel+1, i, size => if i ≥ size then i else nextPowerFrom fuel (i * 2) size

def dictNextPower (size : Nat) : Nat :=
  if size ≥ 2 ^ 63 - 1 then 2 ^ 63 else nextPowerFrom 62 dictHtInitialSize size

namespace HashDict
variable {κ α : Type} [DecidableEq κ] (hash : κ → BitVec 64) (d : HashDict κ α)

def dictIsRehashing : Bool := d.rehashidx.isSome

def dictSize : Nat := d.ht0.used + d.ht1.used

/-- The flag is `DICT_OK`. -/
def dictExpand (size : Nat) : Bool × HashDict κ α :=
  if d.dictIsRehashing ∨ d.ht0.used > size then (false,d)
  else
    let realsize := dictNextPower size
    if realsize = d.ht0.size then (false,d)
    else
      let n : Dictht κ α := ⟨fun _ => [],realsize,0⟩
      if d.ht0.size = 0 then (true,{ d with ht0 := n })
      else (true,{ d with ht1 := n, rehashidx := some 0 })

/-- Looks for a bucket that is not empty. The flag tells that it has visited as many empty
ones as it may. -/
def skipEmpty (t : Dictht κ α) : Nat → Nat → Int → Except DictFault (Nat × Int × Bool)
  | 0, _, _ => .error .outOfBounds
  | fuel+1, idx, emptyVisits => do
    let chain ← t.bucket idx
    if ¬chain.isEmpty then return (idx,emptyVisits,false)
    else if emptyVisits - 1 = 0 then return (idx+1,0,true)
    else skipEmpty t fuel (idx+1) (emptyVisits - 1)

def moveChain : List (κ × α) → Dictht κ α → Except DictFault (Dictht κ α)
  | [], t => .ok t
  | e :: rest, t => do
    let h := t.index (hash e.1)
    let _ ← t.bucket h
    moveChain rest (t.push h e)

def moveBucket (idx : Nat) : Except DictFault (HashDict κ α) := do
  let chain := d.ht0.table idx
  let ht1 ← moveChain hash chain d.ht1
  return { d with
    ht0 := d.ht0.setBucket idx [] (d.ht0.used - chain.length)
    ht1 := ht1 }

/-- The loop of `dictRehash`; the flag tells that it has returned early. -/
def rehashLoop : Nat → Int → Nat → HashDict κ α → Except DictFault (Bool × HashDict κ α)
  | 0, _, idx, d => .ok (false,{ d with rehashidx := some idx })
  | n+1, emptyVisits, idx, d =>
    if d.ht0.used = 0 then .ok (false,{ d with rehashidx := some idx })
    else if d.ht0.size ≤ idx then .error .rehashidx
    else do
      let (idx,emptyVisits,stop) ← skipEmpty d.ht0 (d.ht0.allocated + 1) idx emptyVisits
      if stop then return (true,{ d with rehashidx := some idx })
      else
        let d ← d.moveBucket hash idx
        rehashLoop n emptyVisits (idx+1) d

/-- The flag tells that there is more to move. -/
def dictRehash (n : Nat) : Except DictFault (Bool × HashDict κ α) :=
  match d.rehashidx with
  | none => .ok (false,d)
  | some idx => do
    let (early,d) ← rehashLoop hash n (BitVec.ofNat 32 (n * 10)).toInt idx d
    if early then return (true,d)
    else if d.ht0.used = 0 then
      return (false,{ d with ht0 := d.ht1, ht1 := Dictht.reset, rehashidx := none })
    else return (true,d)

/-- Steps are left out while a safe iterator runs. -/
def dictRehashStep : Except DictFault (HashDict κ α) :=
  if d.dictIsRehashing ∧ d.iterators = 0 then do
    let r ← d.dictRehash hash 1
    return r.2
  else .ok d

def findIn (t : Dictht κ α) (key : κ) : Except DictFault (Option α) := do
  let chain ← t.bucket (t.index (hash key))
  return (chain.find? (·.1 = key)).map Prod.snd

variable (key : κ)

def dictFind : Except DictFault (Option α × HashDict κ α) :=
  if d.ht0.used + d.ht1.used = 0 then .ok (none,d)
  else do
    let d ← d.dictRehashStep hash
    match ← findIn hash d.ht0 key with
    | some v => return (some v,d)
    | none => if d.dictIsRehashing then return (← findIn hash d.ht1 key,d) else return (none,d)

def dictExpandIfNeeded : Bool × HashDict κ α :=
  if d.dictIsRehashing then (true,d)
  else if d.ht0.size = 0 then d.dictExpand dictHtInitialSize
  else if d.ht0.used ≥ d.ht0.size ∧
      (d.canResize ∨ d.ht0.used / d.ht0.size > dictForceResizeRatio) then
    d.dictExpand (d.ht0.used * 2)
  else (true,d)

/-- An index, the entry that has the key, in the second table or not, or a failed expansion. -/
inductive KeyIndex where
  | free (idx : Nat)
  | existing (second : Bool)
  | failed

def dictKeyIndex : Except DictFault (KeyIndex × HashDict κ α) :=
  match d.dictExpandIfNeeded with
  | (false,d) => .ok (.failed,d)
  | (true,d) => do
    match ← findIn hash d.ht0 key with
    | some _ => return (.existing false,d)
    | none =>
      if d.dictIsRehashing then
        match ← findIn hash d.ht1 key with
        | some _ => return (.existing true,d)
        | none => return (.free (d.ht1.index (hash key)),d)
      else return (.free (d.ht0.index (hash key)),d)

/-- A new entry has the value that the callers store in it; `none` tells that it was added. -/
def dictAddRaw (val : α) : Except DictFault (Option KeyIndex × HashDict κ α) := do
  let d ← d.dictRehashStep hash
  match ← d.dictKeyIndex hash key with
  | (.free idx,d) =>
    if d.dictIsRehashing then return (none,{ d with ht1 := d.ht1.push idx (key,val) })
    else return (none,{ d with ht0 := d.ht0.push idx (key,val) })
  | (r,d) => return (some r,d)

def dictAdd (val : α) : Except DictFault (Bool × HashDict κ α) := do
  let (r,d) ← d.dictAddRaw hash key val
  return (r.isNone,d)

def setVal (key : κ) (val : α) : List (κ × α) → List (κ × α)
  | [] => []
  | e :: rest => if e.1 = key then (e.1,val) :: rest else e :: setVal key val rest

def setValIn (t : Dictht κ α) (key : κ) (val : α) : Dictht κ α :=
  t.setBucket (t.index (hash key)) (setVal key val (t.table (t.index (hash key)))) t.used

def dictReplace (val : α) : Except DictFault (Bool × HashDict κ α) := do
  match ← d.dictAddRaw hash key val with
  | (none,d) => return (true,d)
  | (some (.existing false),d) => return (false,{ d with ht0 := setValIn hash d.ht0 key val })
  | (some (.existing true),d) => return (false,{ d with ht1 := setValIn hash d.ht1 key val })
  | (some _,_) => throw .nullEntry

def removeIn (t : Dictht κ α) (key : κ) : Dictht κ α :=
  t.setBucket (t.index (hash key)) ((t.table (t.index (hash key))).eraseP (·.1 = key)) (t.used - 1)

def dictGenericDelete : Except DictFault (Option α × HashDict κ α) :=
  if d.ht0.used = 0 ∧ d.ht1.used = 0 then .ok (none,d)
  else do
    let d ← d.dictRehashStep hash
    match ← findIn hash d.ht0 key with
    | some v => return (some v,{ d with ht0 := removeIn hash d.ht0 key })
    | none =>
      if d.dictIsRehashing then
        match ← findIn hash d.ht1 key with
        | some v => return (some v,{ d with ht1 := removeIn hash d.ht1 key })
        | none => return (none,d)
      else return (none,d)

end HashDict

inductive DictOp (κ α : Type) where
  | add (key : κ) (val : α)
  | replace (key : κ) (val : α)
  | find (key : κ)
  | delete (key : κ)
  | expand (size : Nat)
  | rehash (n : Nat)
  | iterate
  | release
  | canResize (flag : Bool)

inductive DictRes (α : Type) where
  | flag (b : Bool)
  | val (v : Option α)
  deriving DecidableEq

structure DictRun (κ α : Type) where
  dict : HashDict κ α
  results : List (DictRes α)

namespace DictRun
variable {κ α : Type} [DecidableEq κ] (hash : κ → BitVec 64)

def withFlag (s : DictRun κ α) (r : Except DictFault (Bool × HashDict κ α)) :
    Except DictFault (DictRun κ α) := do
  let (b,d) ← r
  return ⟨d,s.results ++ [.flag b]⟩

def withVal (s : DictRun κ α) (r : Except DictFault (Option α × HashDict κ α)) :
    Except DictFault (DictRun κ α) := do
  let (v,d) ← r
  return ⟨d,s.results ++ [.val v]⟩

def step (s : DictRun κ α) : DictOp κ α → Option (Except DictFault (DictRun κ α))
  | .add key val => some (s.withFlag (s.dict.dictAdd hash key val))
  | .replace key val => some (s.withFlag (s.dict.dictReplace hash key val))
  | .find key => some (s.withVal (s.dict.dictFind hash key))
  | .delete key => some (s.withVal (s.dict.dictGenericDelete hash key))
  | .expand size => some (.ok { s with dict := (s.dict.dictExpand size).2 })
  | .rehash n => some (do
      let r ← s.dict.dictRehash hash n
      return { s with dict := r.2 })
  | .iterate => some (.ok { s with dict := { s.dict with iterators := s.dict.iterators + 1 } })
  | .release =>
    if s.dict.iterators = 0 then none
    else some (.ok { s with dict := { s.dict with iterators := s.dict.iterators - 1 } })
  | .canResize flag => some (.ok { s with dict := { s.dict with canResize := flag } })

end DictRun

def hashDict {κ : Type} [DecidableEq κ] (α : Type) (hash : κ → BitVec 64) :
    Machine (DictRun κ α) (DictOp κ α) DictFault where
  init := ⟨⟨Dictht.reset,Dictht.reset,none,0,true⟩,[]⟩
  step := DictRun.step hash

end RedRock
