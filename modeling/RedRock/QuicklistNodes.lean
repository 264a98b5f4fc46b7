import RedRock.Lib.Machine

/-!
The nodes of a quicklist, the compression of the inner ones, and the list commands. A node that
is looked at is decompressed and remembers, in `recompress`, that it was compressed.
-/

namespace RedRock
open Lib

/-- What a quicklist uses of its ziplists. The bytes of a ziplist depend on how it was made, so
its entries do not give its length. -/
structure ZiplistOps (Z V : Type) where
  entries : Z → List V
  single : V → Z
  insert : Z → Nat → V → Z
  deleteRange : Z → Nat → Nat → Z
  merge : Z → Z → Z
  blobLen : Z → Nat
  /-- The length of the compressed bytes, when there are fewer of them. -/
  lzfCompress : Z → Option Nat
  valueLen : V → Nat
  entries_single : ∀ v, entries (single v) = [v]
  entries_insert : ∀ z i v, entries (insert z i v) = (entries z).insertIdx i v
  entries_deleteRange : ∀ z i n,
    entries (deleteRange z i n) = (entries z).take i ++ (entries z).drop (i + n)
  entries_merge : ∀ a b, entries (merge a b) = entries a ++ entries b

structure QuicklistNode (Z : Type) where
  zl : Z
  lzf : Bool
  recompress : Bool

structure Quicklist (Z : Type) where
  nodes : List (QuicklistNode Z)
  fill : Int
  compress : Nat

inductive QuicklistFault where
  | notZiplist
  deriving DecidableEq

inductive QuicklistWhere where
  | head
  | tail
  deriving DecidableEq

namespace QuicklistNode
variable {Z V : Type} (zs : ZiplistOps Z V) (n : QuicklistNode Z)

def quicklistCreateNode (z : Z) : QuicklistNode Z := ⟨z,false,false⟩

def count : Nat := (zs.entries n.zl).length

def minCompressBytes : Nat := 48

def minCompressImprove : Nat := 8

/-- The hint is taken back only when the node gets smaller. -/
def quicklistCompressNode : QuicklistNode Z :=
  if n.lzf then n
  else if zs.blobLen n.zl < minCompressBytes then n
  else
    match zs.lzfCompress n.zl with
    | none => n
    | some sz =>
      if sz + minCompressImprove ≥ zs.blobLen n.zl then n
      else { n with lzf := true, recompress := false }

def quicklistDecompressNode : QuicklistNode Z := { n with lzf := false }

def quicklistDecompressNodeForUse : QuicklistNode Z :=
  if n.lzf then { n with lzf := false, recompress := true } else n

def quicklistRecompressOnly : QuicklistNode Z :=
  if n.recompress then n.quicklistCompressNode zs else n

/-- `node->zl`, where the code takes it for a ziplist. -/
def ziplist : Except QuicklistFault Z := if n.lzf then .error .notZiplist else .ok n.zl

def optimizationLevel : List Nat := [4096,8192,16384,32768,65536]

def sizeSafetyLimit : Nat := 8192

def sizeMeetsOptimizationRequirement (sz : Nat) (fill : Int) : Bool :=
  if fill ≥ 0 then false
  else
    match optimizationLevel[(-fill - 1).toNat]? with
    | some level => sz ≤ level
    | none => false

/-- The sum is an unsigned int. -/
def sizeAllowed (sz entries : Nat) (fill : Int) : Bool :=
  let sz := sz % 2 ^ 32
  if sizeMeetsOptimizationRequirement sz fill then true
  else if ¬sz ≤ sizeSafetyLimit then false
  else (entries : Int) ≤ fill

def ziplistOverhead (sz : Nat) : Nat :=
  (if sz < 254 then 1 else 5) + (if sz < 64 then 1 else if sz < 16384 then 2 else 5)

def quicklistNodeAllowInsert (fill : Int) (v : V) : Bool :=
  sizeAllowed (zs.blobLen n.zl + zs.valueLen v + ziplistOverhead (zs.valueLen v))
    (n.count zs + 1) fill

def quicklistNodeAllowMerge (a b : QuicklistNode Z) (fill : Int) : Bool :=
  sizeAllowed (zs.blobLen a.zl + zs.blobLen b.zl - 11) (a.count zs + b.count zs) fill

end QuicklistNode

namespace Quicklist
variable {Z V : Type} (zs : ZiplistOps Z V) (q : Quicklist Z)

def modify (i : Nat) (f : QuicklistNode Z → QuicklistNode Z) : Quicklist Z :=
  { q with nodes := q.nodes.modify i f }

def modifyZl (i : Nat) (f : Z → Z) : Quicklist Z := q.modify i fun n => { n with zl := f n.zl }

def setZl (i : Nat) (z : Z) : Quicklist Z := q.modifyZl i fun _ => z

def quicklistCount : Nat := (q.nodes.map (·.count zs)).sum

/-- Decompresses the nodes at both ends down to the compress depth. The flag tells whether the
node is one of them; it is missing where the two ends meet. -/
def depthLoop (node : Option Nat) :
    Nat → Nat → Bool → List (QuicklistNode Z) → List (QuicklistNode Z) × Option Bool
  | 0, _, inDepth, nodes => (nodes,some inDepth)
  | depth+1, i, inDepth, nodes =>
    let last := nodes.length - 1 - i
    let nodes := (nodes.modify i (·.quicklistDecompressNode)).modify last
      (·.quicklistDecompressNode)
    let inDepth := inDepth || node == some i || node == some last
    if i = last then (nodes,none) else depthLoop node depth (i+1) inDepth nodes

/-- `__quicklistCompress`. The callers pass the length that the quicklist has on record, which
is not yet updated while a node comes or goes. -/
def compressDepth (len : Nat) (node : Option Nat) : Quicklist Z :=
  if q.compress = 0 ∨ len < q.compress * 2 then q
  else
    match depthLoop node q.compress 0 false q.nodes with
    | (nodes,none) => { q with nodes := nodes }
    | (nodes,some inDepth) =>
      let q : Quicklist Z := { q with nodes := nodes }
      let q := match node with
        | some i => if inDepth then q else q.modify i (·.quicklistCompressNode zs)
        | none => q
      if q.compress ≥ 2 then
        (q.modify q.compress (·.quicklistCompressNode zs)).modify
          (q.nodes.length - 1 - q.compress) (·.quicklistCompressNode zs)
      else q

def quicklistCompress (len i : Nat) : Quicklist Z :=
  match q.nodes[i]? with
  | none => q
  | some n =>
    if n.recompress then q.modify i (·.quicklistCompressNode zs)
    else q.compressDepth zs len (some i)

def recompressOnly (i : Nat) : Quicklist Z := q.modify i (·.quicklistRecompressOnly zs)

def decompressForUse (i : Nat) : Quicklist Z := q.modify i (·.quicklistDecompressNodeForUse)

def quicklistInsertNode (old : Nat) (new : QuicklistNode Z) (after : Bool) : Quicklist Z :=
  let q' : Quicklist Z := { q with nodes := q.nodes.insertIdx (if after then old + 1 else old) new }
  q'.quicklistCompress zs q.nodes.length (if after then old else old + 1)

def quicklistDelNode (i : Nat) : Quicklist Z :=
  Quicklist.compressDepth zs { q with nodes := q.nodes.eraseIdx i } q.nodes.length none

def endIndex : QuicklistWhere → Nat
  | .head => 0
  | .tail => q.nodes.length - 1

def endOffset (side : QuicklistWhere) (len : Nat) : Nat :=
  match side with
  | .head => 0
  | .tail => len

def quicklistPush (side : QuicklistWhere) (v : V) : Except QuicklistFault (Quicklist Z) :=
  match q.nodes[q.endIndex side]? with
  | none => .ok { q with nodes := [QuicklistNode.quicklistCreateNode (zs.single v)] }
  | some n =>
    if n.quicklistNodeAllowInsert zs q.fill v then do
      let z ← n.ziplist
      return q.setZl (q.endIndex side) (zs.insert z (endOffset side (n.count zs)) v)
    else
      .ok (q.quicklistInsertNode zs (q.endIndex side)
        (QuicklistNode.quicklistCreateNode (zs.single v)) (side = .tail))

/-- Keeps the node unless its ziplist is empty. The flag tells that the node is gone. -/
def setOrDelNode (i : Nat) (z : Z) : Bool × Quicklist Z :=
  if (zs.entries z).isEmpty then (true,q.quicklistDelNode zs i) else (false,q.setZl i z)

def quicklistPopCustom (side : QuicklistWhere) : Except QuicklistFault (Option V × Quicklist Z) :=
  match q.nodes[q.endIndex side]? with
  | none => .ok (none,q)
  | some n => do
    let z ← n.ziplist
    let pos := endOffset side (n.count zs - 1)
    match (zs.entries z)[pos]? with
    | none => return (none,q)
    | some v => return (some v,(q.setOrDelNode zs (q.endIndex side) (zs.deleteRange z pos 1)).2)

def locate : List Nat → Nat → Option (Nat × Nat)
  | [], _ => none
  | c :: counts, index =>
    if c > index then some (0,index)
    else (locate counts (index - c)).map fun p => (p.1 + 1,p.2)

/-- An entry that is counted from the tail has a negative offset. -/
def find (idx : Int) : Option (Nat × Int) :=
  let counts := q.nodes.map (·.count zs)
  if idx < 0 then
    (locate counts.reverse (-idx - 1).toNat).map fun p =>
      (q.nodes.length - 1 - p.1,-(p.2 : Int) - 1)
  else (locate counts idx.toNat).map fun p => (p.1,(p.2 : Int))

def quicklistIndex (idx : Int) : Option (Nat × Int) × Quicklist Z :=
  match q.find zs idx with
  | none => (none,q)
  | some p => (some p,q.decompressForUse p.1)

def position (offset : Int) (len : Nat) : Nat :=
  if offset < 0 then len - (-offset).toNat else offset.toNat

def entriesAt (i : Nat) : List V :=
  match q.nodes[i]? with
  | none => []
  | some n => zs.entries n.zl

def lookup (idx : Int) : Option V × Quicklist Z :=
  match q.quicklistIndex zs idx with
  | (none,q) => (none,q)
  | (some (i,offset),q) =>
    ((q.entriesAt zs i)[position offset (q.entriesAt zs i).length]?,q)

def quicklistReplaceAtIndex (idx : Int) (v : V) : Bool × Quicklist Z :=
  match q.quicklistIndex zs idx with
  | (none,q) => (false,q)
  | (some (i,offset),q) =>
    let pos := position offset (q.entriesAt zs i).length
    let q := q.modifyZl i fun z => zs.insert (zs.deleteRange z pos 1) pos v
    (true,q.quicklistCompress zs q.nodes.length i)

/-- `quicklistNext` as often as there are elements to take. A node is decompressed when it is
entered, and given back when the element after its last one is asked for. -/
def rangeLoop : Nat → Nat → Nat → Nat → Quicklist Z → List V × Quicklist Z
  | 0, _, _, _, q => ([],q)
  | nodes+1, i, offset, len, q =>
    let q := q.decompressForUse i
    let vals := (q.entriesAt zs i).drop offset
    if len ≤ vals.length then (vals.take len,q)
    else
      let r := rangeLoop nodes (i+1) 0 (len - vals.length) (q.quicklistCompress zs q.nodes.length i)
      (vals ++ r.1,r.2)

/-- `quicklistGetIteratorAtIdx` and then `quicklistNext`. -/
def range (start len : Nat) : List V × Quicklist Z :=
  match q.quicklistIndex zs start with
  | (none,q) => ([],q)
  | (some (i,offset),q) => q.rangeLoop zs (q.nodes.length - i) i offset.toNat len

/-- The left one of two neighbours is at `i`. The longer ziplist is kept, and it is at `i`
afterwards. -/
def quicklistZiplistMerge (i : Nat) : Quicklist Z :=
  let q := (q.modify i (·.quicklistDecompressNode)).modify (i+1) (·.quicklistDecompressNode)
  match q.nodes[i]?, q.nodes[i+1]? with
  | some a, some b =>
    let z := zs.merge a.zl b.zl
    let q := if a.count zs ≥ b.count zs then (q.setZl i z).quicklistDelNode zs (i+1)
      else (q.setZl (i+1) z).quicklistDelNode zs i
    q.quicklistCompress zs q.nodes.length i
  | _, _ => q

def mergeIfAllowed (i : Nat) : Bool × Quicklist Z :=
  match q.nodes[i]?, q.nodes[i+1]? with
  | some a, some b =>
    if a.quicklistNodeAllowMerge zs b q.fill then (true,q.quicklistZiplistMerge zs i)
    else (false,q)
  | _, _ => (false,q)

/-- Both nodes before the center, both after it, the one before with the center, and the center
with the one after. -/
def quicklistMergeNodes (center : Nat) : Quicklist Z :=
  let (merged,q) := if center ≥ 2 then q.mergeIfAllowed zs (center - 2) else (false,q)
  let center := if merged then center - 1 else center
  let q := (q.mergeIfAllowed zs (center + 1)).2
  let (merged,q) := if center ≥ 1 then q.mergeIfAllowed zs (center - 1) else (false,q)
  let target := if merged then center - 1 else center
  (q.mergeIfAllowed zs target).2

def insertPrev (i : Nat) (v : V) : Quicklist Z :=
  let q := q.decompressForUse (i - 1)
  let q := q.modifyZl (i - 1) fun z => zs.insert z (zs.entries z).length v
  q.recompressOnly zs (i - 1)

def quicklistSplitNode (i offset : Nat) (v : V) (after : Bool) : Quicklist Z :=
  match q.nodes[i]? with
  | none => q
  | some n =>
    let rest := n.count zs - offset
    let new := if after then zs.insert (zs.deleteRange n.zl 0 (offset + 1)) 0 v
      else zs.insert (zs.deleteRange n.zl offset rest) offset v
    let q := q.setZl i (if after then zs.deleteRange n.zl (offset + 1) rest
      else zs.deleteRange n.zl 0 offset)
    let q := q.quicklistInsertNode zs i (QuicklistNode.quicklistCreateNode new) after
    q.quicklistMergeNodes zs (if after then i else i + 1)

def allowInsertAt (i : Nat) (v : V) : Bool :=
  match q.nodes[i]? with
  | none => false
  | some n => n.quicklistNodeAllowInsert zs q.fill v

/-- A node that is full is split, except before its first entry when there is a node before. The
flag `at_tail` of the source needs an offset that no entry has. -/
def splits (i offset : Nat) (v : V) (after : Bool) : Bool :=
  ¬q.allowInsertAt zs i v ∧ ¬(¬after ∧ offset = 0 ∧ i ≠ 0)

/-- `_quicklistInsert`, with the entry in the node at `i`. -/
def insertEntry (i offset : Nat) (v : V) (after : Bool) : Quicklist Z :=
  if q.allowInsertAt zs i v then
    let q := q.modifyZl i fun z => zs.insert z (if after then offset + 1 else offset) v
    q.recompressOnly zs i
  else if q.splits zs i offset v after then q.quicklistSplitNode zs i offset v after
  else if q.allowInsertAt zs (i - 1) v then q.insertPrev zs i v
  else q.quicklistInsertNode zs i (QuicklistNode.quicklistCreateNode (zs.single v)) after

variable [DecidableEq V]

def seekPivot (pivot : V) : Nat → Nat → Quicklist Z → Option (Nat × Nat) × Quicklist Z
  | 0, _, q => (none,q)
  | nodes+1, i, q =>
    let q := q.decompressForUse i
    match (q.entriesAt zs i).findIdx? (· = pivot) with
    | some offset => (some (i,offset),q)
    | none => seekPivot pivot nodes (i+1) (q.quicklistCompress zs q.nodes.length i)

def insertCommand (pivot v : V) (after : Bool) : Bool × Quicklist Z :=
  match q.seekPivot zs pivot q.nodes.length 0 with
  | (none,q) => (false,q)
  | (some (i,offset),q) => (true,q.insertEntry zs i offset v after)

/-- The entries of one node, in the order of the iteration, and those of them removed that
are the value. The flag tells that enough have been removed. -/
def remEntries (v : V) (toremove : Nat) (back : Bool) : List V → Nat → Z → Nat → Z × Nat × Bool
  | [], _, z, removed => (z,removed,false)
  | e :: es, offset, z, removed =>
    if e = v then
      let z := zs.deleteRange z (if back then es.length else offset) 1
      if toremove ≠ 0 ∧ removed + 1 = toremove then (z,removed + 1,true)
      else remEntries v toremove back es offset z (removed + 1)
    else remEntries v toremove back es (offset + 1) z removed

/-- As many nodes as the iterator has before it. -/
def remLoop (v : V) (toremove : Nat) (back : Bool) :
    Nat → Nat → Nat → Quicklist Z → Nat × Quicklist Z
  | 0, _, removed, q => (removed,q)
  | nodes+1, i, removed, q =>
    let q := q.decompressForUse i
    match q.nodes[i]? with
    | none => (removed,q)
    | some n =>
      let es := zs.entries n.zl
      let (z,removed,stop) := remEntries zs v toremove back (if back then es.reverse else es) 0
        n.zl removed
      let (gone,q) := q.setOrDelNode zs i z
      if stop then (removed,q)
      else
        let q := if gone then q else q.quicklistCompress zs q.nodes.length i
        remLoop v toremove back nodes (if back then i - 1 else if gone then i else i + 1) removed q

def remCommand (toremove : Int) (v : V) : Nat × Quicklist Z :=
  let back := toremove < 0
  match q.quicklistIndex zs (if back then -1 else 0) with
  | (none,q) => (0,q)
  | (some (i,_),q) =>
    q.remLoop zs v toremove.natAbs back (if back then i + 1 else q.nodes.length - i) i 0

omit [DecidableEq V]

/-- The loop of `quicklistDelRange`; the extent is at most what there is. -/
def delRangeLoop : Nat → Nat → Int → Nat → Quicklist Z → Quicklist Z
  | 0, _, _, _, q => q
  | nodes+1, i, offset, extent, q =>
    if extent = 0 then q
    else
      match q.nodes[i]? with
      | none => q
      | some n =>
        let count := n.count zs
        if offset = 0 ∧ extent ≥ count then
          delRangeLoop nodes i 0 (extent - count) (q.quicklistDelNode zs i)
        else
          let del := if offset ≥ 0 ∧ extent ≥ count then count - offset.toNat
            else if offset < 0 then min (-offset).toNat extent else extent
          let (gone,q) := (q.decompressForUse i).setOrDelNode zs i
            (zs.deleteRange n.zl (position offset count) del)
          if gone then delRangeLoop nodes i 0 (extent - del) q
          else delRangeLoop nodes (i+1) 0 (extent - del) (q.recompressOnly zs i)

def quicklistDelRange (start : Int) (count : Nat) : Quicklist Z :=
  if count = 0 then q
  else
    let extent := if start ≥ 0 then min count (q.quicklistCount zs - start.toNat)
      else min count (-start).toNat
    match q.quicklistIndex zs start with
    | (none,q) => q
    | (some (i,offset),q) => q.delRangeLoop zs (q.nodes.length - i) i offset extent

/-- The first element and the last one of a range, with negative indexes counted from the end;
`none` for an empty range. -/
def clampRange (llen start stop : Int) : Option (Int × Int) :=
  let start := max (if start < 0 then llen + start else start) 0
  let stop := if stop < 0 then llen + stop else stop
  if start > stop ∨ start ≥ llen then none else some (start,min stop (llen - 1))

def rangeCommand (start stop : Int) : List V × Quicklist Z :=
  match clampRange (q.quicklistCount zs) start stop with
  | none => ([],q)
  | some (start,stop) => q.range zs start.toNat (stop - start + 1).toNat

def trimCommand (start stop : Int) : Quicklist Z :=
  let llen := q.quicklistCount zs
  let (ltrim,rtrim) := match clampRange llen start stop with
    | none => (llen,0)
    | some (start,stop) => (start.toNat,(llen - stop - 1).toNat)
  (q.quicklistDelRange zs 0 ltrim).quicklistDelRange zs (-(rtrim : Int)) rtrim

end Quicklist

/-- The commands on one list. A command with several elements pushes them one after the other. -/
inductive ListCommand (V : Type) where
  | push (side : QuicklistWhere) (v : V)
  | pop (side : QuicklistWhere)
  | index (idx : Int)
  | set (idx : Int) (v : V)
  | range (start stop : Int)
  | insert (after : Bool) (pivot v : V)
  | rem (toremove : Int) (v : V)
  | trim (start stop : Int)

inductive ListReply (V : Type) where
  | none
  | num (n : Nat)
  | value (v : Option V)
  | flag (b : Bool)
  | values (vs : List V)
  deriving DecidableEq

structure QuicklistRun (Z V : Type) where
  list : Quicklist Z
  replies : List (ListReply V)

namespace QuicklistRun
variable {Z V : Type} [DecidableEq V] (zs : ZiplistOps Z V)

def reply (s : QuicklistRun Z V) (r : ListReply V) (q : Quicklist Z) : QuicklistRun Z V :=
  ⟨q,s.replies ++ [r]⟩

def exec (s : QuicklistRun Z V) : ListCommand V → Except QuicklistFault (QuicklistRun Z V)
  | .push side v => do
    let q ← s.list.quicklistPush zs side v
    return s.reply (.num (q.quicklistCount zs)) q
  | .pop side => do
    let (v,q) ← s.list.quicklistPopCustom zs side
    return s.reply (.value v) q
  | .index idx => .ok (s.reply (.value (s.list.lookup zs idx).1) (s.list.lookup zs idx).2)
  | .set idx v =>
    let (b,q) := s.list.quicklistReplaceAtIndex zs idx v
    .ok (s.reply (.flag b) q)
  | .range start stop =>
    let (vs,q) := s.list.rangeCommand zs start stop
    .ok (s.reply (.values vs) q)
  | .insert after pivot v =>
    let (b,q) := s.list.insertCommand zs pivot v after
    .ok (s.reply (if b then .num (q.quicklistCount zs) else .flag false) q)
  | .rem toremove v =>
    let (n,q) := s.list.remCommand zs toremove v
    .ok (s.reply (.num n) q)
  | .trim start stop => .ok (s.reply .none (s.list.trimCommand zs start stop))

end QuicklistRun

def quicklistMachine {Z V : Type} [DecidableEq V] (zs : ZiplistOps Z V) (fill : Int)
    (compress : Nat) : Machine (QuicklistRun Z V) (ListCommand V) QuicklistFault where
  init := ⟨⟨[],fill,compress⟩,[]⟩
  step s c := some (s.exec zs c)

end RedRock
