import RedRock.QuicklistNodes

/-!
The quicklist with compression off, and the counts that it keeps beside its ziplists: one in each
node, the number of elements and the number of nodes.
-/

namespace RedRock
open Lib List Option Quicklist QuicklistNode

structure RawQuicklist.Node (Z : Type) where
  zl : Z
  count : Nat

structure RawQuicklist (Z : Type) where
  nodes : List (RawQuicklist.Node Z)
  count : Nat
  len : Nat
  fill : Int

namespace RawQuicklist

/-- `zi` is the place in the ziplist; the offset counts from its end when it is negative. -/
structure Entry where
  node : Nat
  zi : Nat
  offset : Int
  deriving DecidableEq

structure Iter where
  current : Option Nat
  offset : Int
  zi : Option Nat
  forward : Bool

def ziplistIndex (len : Nat) (offset : Int) : Option Nat :=
  if offset < 0 then if -offset ≤ len then some (len - (-offset).toNat) else none
  else if offset < len then some offset.toNat else none

def startOffset (forward : Bool) : Int := if forward then 0 else -1

variable {Z V : Type} (zs : ZiplistOps Z V) (q : RawQuicklist Z)

/-- The number is unsigned, so a negative one is more than a ziplist can hold. -/
def ziplistDeleteRange (z : Z) (index num : Int) : Z :=
  match ziplistIndex (zs.entries z).length index with
  | none => z
  | some i => zs.deleteRange z i (if num < 0 then (zs.entries z).length else num.toNat)

namespace Node
variable (n : Node Z)

def allowInsert (fill : Int) (v : V) : Bool :=
  sizeAllowed
    (zs.blobLen n.zl + zs.valueLen v + ziplistOverhead (zs.valueLen v))
    (n.count + 1) fill

def insertAt (p : Nat) (v : V) : Node Z := ⟨zs.insert n.zl p v,n.count + 1⟩

def push (side : QuicklistWhere) (v : V) : Node Z :=
  n.insertAt zs (endOffset side (zs.entries n.zl).length) v

end Node

/-- The links around `k` nodes from `i` on lead to the given nodes instead. -/
def splice (i k : Nat) (ns : List (Node Z)) : RawQuicklist Z :=
  { q with nodes := q.nodes.take i ++ ns ++ q.nodes.drop (i + k) }

def insertNode (old : Nat) (new : Node Z) (after : Bool) : RawQuicklist Z :=
  { q.splice (if after then old + 1 else old) 0 [new] with len := q.len + 1 }

def grow : RawQuicklist Z := { q with count := q.count + 1 }

def endIndex : QuicklistWhere → Nat
  | .head => 0
  | .tail => q.nodes.length - 1

def quicklistPush (side : QuicklistWhere) (v : V) : RawQuicklist Z :=
  match q.nodes[q.endIndex side]?.filter (·.allowInsert zs q.fill v) with
  | some n => (q.splice (q.endIndex side) 1 [n.push zs side v]).grow
  | none => (q.insertNode (q.endIndex side) ⟨zs.single v,1⟩ (side = .tail)).grow

def ziplistGet (z : Z) (offset : Int) : Option (Nat × V) := do
  let p ← ziplistIndex (zs.entries z).length offset
  let v ← (zs.entries z)[p]?
  return (p,v)

def find (idx : Int) : Option (Nat × Int) :=
  let counts := q.nodes.map (·.count)
  if idx < 0 then
    if (-idx - 1).toNat ≥ q.count then none
    else (locate counts.reverse (-idx - 1).toNat).map fun p =>
      (q.nodes.length - 1 - p.1,-(p.2 : Int) - 1)
  else if idx.toNat ≥ q.count then none
  else (locate counts idx.toNat).map fun p => (p.1,(p.2 : Int))

def quicklistIndex (idx : Int) : Option (Entry × V) := do
  let (i,offset) ← q.find idx
  let n ← q.nodes[i]?
  let (p,v) ← ziplistGet zs n.zl offset
  return (⟨i,p,offset⟩,v)

def quicklistGetIteratorAtIdx (forward : Bool) (idx : Int) : Option Iter :=
  (q.quicklistIndex zs idx).map fun (e,_) => ⟨some e.node,e.offset,none,forward⟩

/-- The iterator at the node after or before the one at `i`. -/
def Iter.leave (it : Iter) (i next : Nat) : Iter :=
  { it with
    current := if it.forward then if next < q.nodes.length then some next else none
      else if i = 0 then none else some (i - 1)
    offset := startOffset it.forward
    zi := none }

def Iter.advance (it : Iter) (len : Nat) : Iter :=
  match it.zi with
  | none => { it with zi := ziplistIndex len it.offset }
  | some p =>
    if it.forward then
      { it with zi := if p + 1 < len then some (p + 1) else none, offset := it.offset + 1 }
    else { it with zi := if p = 0 then none else some (p - 1), offset := it.offset - 1 }

/-- `quicklistNext`, with the number of nodes that it may go through. -/
def nextLoop : Nat → Iter → Option (Entry × V) × Iter
  | 0, it => (none,it)
  | nodes+1, it =>
    match it.current with
    | none => (none,it)
    | some i =>
      match q.nodes[i]? with
      | none => (none,it)
      | some n =>
        let it := it.advance (zs.entries n.zl).length
        match it.zi.bind fun p => (zs.entries n.zl)[p]?.map (p,·) with
        | some (p,v) => (some (⟨i,p,it.offset⟩,v),it)
        | none => nextLoop nodes (it.leave q i (i + 1))

def quicklistNext (it : Iter) : Option (Entry × V) × Iter := q.nextLoop zs (q.nodes.length + 1) it

/-! The elements, and the counts that fit them. -/

def contents (ns : List (Node Z)) : List V := ns.flatMap fun n => zs.entries n.zl

def elements : List V := contents zs q.nodes

structure Node.Sound (n : Node Z) : Prop where
  count : n.count = (zs.entries n.zl).length
  pos : 0 < n.count

/-- The nodes, without the number of elements, which is behind while one is put in. -/
structure Shaped : Prop where
  nodes : ∀ n ∈ q.nodes, n.Sound zs
  len : q.len = q.nodes.length

structure Sound : Prop extends q.Shaped zs where
  count : q.count = (q.elements zs).length

/-- The entry is the element `v` at place `k`. -/
def EntryAt (e : Entry) (k : Nat) (v : V) : Prop :=
  ∃ as n bs, q.nodes = as ++ [n] ++ bs ∧ as.length = e.node ∧
    ziplistIndex (zs.entries n.zl).length e.offset = some e.zi ∧
    (contents zs as).length + e.zi = k ∧ (zs.entries n.zl)[e.zi]? = some v

variable {zs q} {q' : RawQuicklist Z} {as bs ms ns : List (Node Z)} {n : Node Z} {i p : Nat}

@[simp] lemma contents_nil : contents zs [] = [] := rfl

@[simp] lemma contents_cons : contents zs (n :: ns) = zs.entries n.zl ++ contents zs ns := rfl

@[simp] lemma contents_append :
    contents zs (ms ++ ns) = contents zs ms ++ contents zs ns := by simp [contents]

variable {len : Nat}

lemma ziplistIndex_some {offset : Int} (h : ziplistIndex len offset = some p) :
    p < len ∧ (p : Int) = if offset < 0 then len + offset else offset := by
  unfold ziplistIndex at h
  split_ifs at h ⊢ with h1 h2 h2
  all_goals
    cases h
    omega

lemma ziplistGet_eq {z : Z} {offset : Int}
    (h : ziplistIndex (zs.entries z).length offset = some p) :
    ∃ v, (zs.entries z)[p]? = some v ∧ ziplistGet zs z offset = some (p,v) := by
  have hp := (ziplistIndex_some h).1
  exact ⟨_,getElem?_eq_getElem hp,by simp [ziplistGet,h,hp]⟩

lemma Shaped.change (h : q.Shaped zs) (hq : q.nodes = as ++ ms ++ bs)
    (hq' : q'.nodes = as ++ ns ++ bs) (hns : ∀ n ∈ ns, n.Sound zs)
    (hlen : q'.len + ms.length = q.len + ns.length) : q'.Shaped zs ∧
      q.elements zs = contents zs as ++ contents zs ms ++ contents zs bs ∧
      q'.elements zs = contents zs as ++ contents zs ns ++ contents zs bs := by
  refine ⟨⟨fun n hn => ?_,?_⟩,by simp [elements,hq],by simp [elements,hq']⟩
  · rw [hq',mem_append,mem_append] at hn
    rcases hn with (hn | hn) | hn
    · exact h.nodes n (by simp [hq,hn])
    · exact hns n hn
    · exact h.nodes n (by simp [hq,hn])
  have hl := h.len
  simp only [hq,hq',length_append] at hl ⊢
  omega

variable {k : Nat}

lemma locate_nodes (hs : ∀ n ∈ ns, n.Sound zs) (hk : k < (contents zs ns).length) :
    ∃ as n bs r, ns = as ++ [n] ++ bs ∧ locate (ns.map (·.count)) k = some (as.length,r) ∧
      (contents zs as).length + r = k ∧ r < (zs.entries n.zl).length := by
  induction ns generalizing k with
  | nil => simp at hk
  | cons n ns ih =>
    have hn := (hs n (by simp)).count
    simp only [contents_cons,length_append] at hk
    by_cases hlt : n.count > k
    · exact ⟨[],n,ns,k,by simp,by simp [locate,hlt],by simp,by omega⟩
    obtain ⟨as,m,bs,r,rfl,hl,hr,hlt'⟩ := ih (fun m hm => hs m (by simp [hm]))
      (show k - n.count < _ by omega)
    refine ⟨n :: as,m,bs,r,by simp,?_,?_,hlt'⟩
    · rw [map_cons,locate,if_neg hlt,hl]
      rfl
    simp only [contents_cons,length_append]
    omega

variable {idx : Int}

lemma Sound.find (h : q.Sound zs)
    (hk : ziplistIndex (q.elements zs).length idx = some k) : ∃ as n bs o p,
      q.nodes = as ++ [n] ++ bs ∧ q.find idx = some (as.length,o) ∧ (o < 0 ↔ idx < 0) ∧
      ziplistIndex (zs.entries n.zl).length o = some p ∧ (contents zs as).length + p = k := by
  obtain ⟨hlt,hpos⟩ := ziplistIndex_some hk
  have hcount := h.count
  unfold RawQuicklist.find
  by_cases hneg : idx < 0
  · rw [if_pos hneg] at hpos
    have hlen : (contents zs q.nodes.reverse).length = (q.elements zs).length := by
      simp [contents,elements,length_flatMap,map_reverse,sum_reverse]
    obtain ⟨as,n,bs,r,hq,hl,hr,hrn⟩ := locate_nodes (k := (-idx - 1).toNat)
      (fun n (hn : n ∈ q.nodes.reverse) => h.nodes n (mem_reverse.mp hn)) (by omega)
    have hq' : q.nodes = bs.reverse ++ [n] ++ as.reverse := by
      simpa using congrArg List.reverse hq
    have hsum : (q.elements zs).length =
        (contents zs bs.reverse).length + (zs.entries n.zl).length + (contents zs as).length := by
      rw [← hlen,hq]
      simp [contents,length_flatMap,map_reverse,sum_reverse]
      omega
    refine ⟨bs.reverse,n,as.reverse,-(r : Int) - 1,(zs.entries n.zl).length - 1 - r,hq',?_,?_,?_,
      by omega⟩
    · rw [if_pos hneg,if_neg (by omega),← map_reverse,hl]
      simp [hq']
    · omega
    · rw [ziplistIndex,if_pos (by omega),if_pos (by omega)]
      congr 1
      omega
  rw [if_neg hneg] at hpos
  obtain ⟨as,n,bs,r,hq,hl,hr,hrn⟩ := locate_nodes (k := idx.toNat) h.nodes
    (show _ < (q.elements zs).length by omega)
  refine ⟨as,n,bs,r,r,hq,?_,by omega,?_,by omega⟩
  · rw [if_neg hneg,if_neg (by omega),hl]
    rfl
  rw [ziplistIndex,if_neg (by omega),if_pos (by omega)]
  simp

lemma Sound.index (h : q.Sound zs) (hk : ziplistIndex (q.elements zs).length idx = some k) : ∃ e v,
      q.quicklistIndex zs idx = some (e,v) ∧ q.EntryAt zs e k v ∧ (e.offset < 0 ↔ idx < 0) := by
  obtain ⟨as,n,bs,o,p,hq,hf,ho,hp,hpk⟩ := h.find hk
  obtain ⟨v,hv,hget⟩ := ziplistGet_eq hp
  refine ⟨⟨as.length,p,o⟩,v,?_,⟨as,n,bs,hq,rfl,hp,hpk,hv⟩,ho⟩
  simp [quicklistIndex,hf,hq,hget]

lemma EntryAt.value {e : Entry} {v : V} (h : q.EntryAt zs e k v) :
    (q.elements zs)[k]? = some v := by
  obtain ⟨as,n,bs,hq,_,hz,rfl,hv⟩ := h
  have hp := (ziplistIndex_some hz).1
  rw [elements,hq,contents_append,contents_append,append_assoc,
    getElem?_append_right (by omega),Nat.add_sub_cancel_left,contents_cons,contents_nil,
    List.append_nil,getElem?_append_left hp,hv]

/-! An iterator stands in a gap between two elements. -/

def Iter.gap (it : Iter) (len : Nat) : Nat :=
  match it.zi with
  | some p => if it.forward then p + 1 else p
  | none =>
    match ziplistIndex len it.offset with
    | some p => if it.forward then p else p + 1
    | none => if it.forward then len else 0

/-- The place of the element that comes next, for a gap in a list. -/
def Iter.target (it : Iter) (g len : Nat) : Option Nat :=
  if it.forward then if g < len then some g else none else if g = 0 then none else some (g - 1)

variable (zs q) in
inductive Iter.At (it : Iter) : Nat → Prop where
  | finished (hc : it.current = none) : At it (if it.forward then (q.elements zs).length else 0)
  | within {as n bs : _} (hq : q.nodes = as ++ [n] ++ bs) (hc : it.current = some as.length)
      (hz : ∀ p, it.zi = some p → ziplistIndex (zs.entries n.zl).length it.offset = some p) :
      At it ((contents zs as).length + it.gap (zs.entries n.zl).length)

variable {it : Iter}

lemma Iter.advance_spec (hz : ∀ p, it.zi = some p → ziplistIndex len it.offset = some p) :
    (it.advance len).forward = it.forward ∧ (it.advance len).current = it.current ∧
    (it.advance len).zi = it.target (it.gap len) len ∧
    ∀ p, (it.advance len).zi = some p → ziplistIndex len (it.advance len).offset = some p := by
  rcases it with ⟨c,o,_ | p,f⟩
  · refine ⟨rfl,rfl,?_,fun p hp => hp⟩
    rcases ho : ziplistIndex len o with _ | p
    · cases f <;> simp [advance,gap,target,ho]
    · cases f <;> simp [advance,gap,target,ho,(ziplistIndex_some ho).1]
  obtain ⟨hp,ho⟩ := ziplistIndex_some (hz p rfl)
  cases f
  · refine ⟨rfl,rfl,by simp [advance,gap,target],fun r hr => ?_⟩
    simp only [advance,Bool.false_eq_true,if_false,ziplistIndex] at hr ho ⊢
    split_ifs at hr ho ⊢ <;> simp only [some.injEq] at hr ⊢ <;> omega
  refine ⟨rfl,rfl,by simp [advance,gap,target],fun r hr => ?_⟩
  simp only [advance,if_true,ziplistIndex] at hr ho ⊢
  split_ifs at hr ho ⊢ <;> simp only [some.injEq] at hr ⊢ <;> omega

lemma Iter.gap_le
    (hz : ∀ p, it.zi = some p → ziplistIndex len it.offset = some p) : it.gap len ≤ len := by
  rcases it with ⟨c,o,_ | p,f⟩
  · rcases ho : ziplistIndex len o with _ | p
    · cases f <;> simp [gap,ho]
    have hp := (ziplistIndex_some ho).1
    cases f <;> simp [gap,ho] <;> omega
  have hp := (ziplistIndex_some (hz p rfl)).1
  cases f <;> simp [gap] <;> omega

lemma Iter.target_node (it : Iter) {a len b : Nat}
    (hz : ∀ p, it.zi = some p → ziplistIndex len it.offset = some p) :
    match it.target (it.gap len) len with
    | some p => it.target (a + it.gap len) (a + len + b) = some (a + p)
    | none => it.gap len = if it.forward then len else 0 := by
  have hle := gap_le hz
  unfold target
  split_ifs <;> simp only [some.injEq] <;> omega

section Next
variable {it : Iter} {g k r : Nat} (hq : q.nodes = as ++ [n] ++ bs)
  (hc : it.current = some as.length)
  (hz : ∀ p, it.zi = some p → ziplistIndex (zs.entries n.zl).length it.offset = some p)
include hq hc hz

lemma nextLoop_within
    (hp : it.target (it.gap (zs.entries n.zl).length) (zs.entries n.zl).length = some p) :
    ∃ e v, q.nextLoop zs (k+1) it = (some (e,v),⟨some e.node,e.offset,some e.zi,it.forward⟩) ∧
      q.EntryAt zs e ((contents zs as).length + p) v := by
  obtain ⟨hf,hcur,hzi,hoff⟩ := Iter.advance_spec hz
  rw [hp] at hzi
  have ho := hoff p hzi
  have hv := getElem?_eq_getElem (ziplistIndex_some ho).1
  refine ⟨⟨as.length,p,_⟩,_,?_,⟨as,n,bs,hq,rfl,ho,rfl,hv⟩⟩
  have hn : q.nodes[as.length]? = some n := by simp [hq]
  simp only [nextLoop,hc,hn,hzi,bind_some,hv,map_some]
  rw [← hf,← hc,← hcur,← hzi]

lemma nextLoop_beyond
    (hp : it.target (it.gap (zs.entries n.zl).length) (zs.entries n.zl).length = none) :
    q.nextLoop zs (k+1) it = q.nextLoop zs k (it.leave q as.length (as.length + 1)) := by
  obtain ⟨hf,_,hzi,_⟩ := Iter.advance_spec hz
  have hn : q.nodes[as.length]? = some n := by simp [hq]
  simp only [nextLoop,hc,hn,hzi,hp,bind_none,Iter.leave,hf]

end Next

lemma Shaped.leave (h : q.Shaped zs) (hq : q.nodes = as ++ ms ++ bs) (it : Iter) :
    ((it.leave q as.length (as.length + ms.length)).current = none ∧
      if it.forward then bs = [] else as = []) ∨
    ∃ as' m bs', q.nodes = as' ++ [m] ++ bs' ∧
      (it.leave q as.length (as.length + ms.length)).current = some as'.length ∧
      (contents zs as').length +
        (it.leave q as.length (as.length + ms.length)).gap (zs.entries m.zl).length =
          (contents zs as).length + (if it.forward then (contents zs ms).length else 0) ∧
      (it.leave q as.length (as.length + ms.length)).target
        ((it.leave q as.length (as.length + ms.length)).gap (zs.entries m.zl).length)
        (zs.entries m.zl).length ≠ none := by
  have hpos : ∀ m ∈ q.nodes, 0 < (zs.entries m.zl).length := by
    intro m hm
    rw [← (h.nodes m hm).count]
    exact (h.nodes m hm).pos
  rcases it with ⟨c,o,z,f⟩
  cases f with
  | true =>
    rcases bs with _ | ⟨m,bs⟩
    · exact .inl ⟨by simp [Iter.leave,hq],rfl⟩
    have hm := hpos m (by simp [hq])
    refine .inr ⟨as ++ ms,m,bs,by simp [hq],by simp [Iter.leave,hq],?_,?_⟩
    all_goals simp [Iter.leave,Iter.gap,Iter.target,startOffset,ziplistIndex,hm]
  | false =>
    rcases eq_nil_or_concat as with rfl | ⟨as,m,rfl⟩
    · exact .inl ⟨by simp [Iter.leave],rfl⟩
    have hm := hpos m (by simp [hq])
    have hle : (1 : Int) ≤ (zs.entries m.zl).length := by omega
    refine .inr ⟨as,m,ms ++ bs,by simp [hq],by simp [Iter.leave],?_,?_⟩
    all_goals simp [Iter.leave,Iter.gap,Iter.target,startOffset,ziplistIndex,hle]
    all_goals omega

lemma Sound.next (h : q.Sound zs) {g : Nat} (hat : it.At zs q g) :
    match it.target g (q.elements zs).length with
    | some k => ∃ e v, q.quicklistNext zs it =
        (some (e,v),⟨some e.node,e.offset,some e.zi,it.forward⟩) ∧ q.EntryAt zs e k v
    | none => ∃ it', q.quicklistNext zs it = (none,it') ∧ it'.At zs q g ∧
        it'.forward = it.forward := by
  have hlen : ∀ {as n bs}, q.nodes = as ++ [n] ++ bs → (q.elements zs).length =
      (contents zs as).length + (zs.entries n.zl).length + (contents zs bs).length := by
    intro as n bs hq
    simp [elements,hq,add_assoc]
  have hend : it.target (if it.forward then (q.elements zs).length else 0)
      (q.elements zs).length = none := by
    unfold Iter.target
    split_ifs <;> simp_all
  cases hat with
  | finished hc =>
    rw [hend]
    exact ⟨it,by simp [quicklistNext,nextLoop,hc],.finished hc,rfl⟩
  | @within as n bs hq hc hz =>
    obtain ⟨k,hk⟩ : ∃ k, q.nodes.length = k + 1 := ⟨as.length + bs.length,by simp [hq]; omega⟩
    have ht := it.target_node (a := (contents zs as).length) (b := (contents zs bs).length) hz
    rw [quicklistNext,hk]
    cases hp : it.target (it.gap (zs.entries n.zl).length) (zs.entries n.zl).length with
    | some p =>
      rw [hp,← hlen hq] at ht
      rw [ht]
      exact nextLoop_within hq hc hz hp
    | none =>
      rw [hp] at ht
      rw [nextLoop_beyond hq hc hz hp,ht]
      have hl := h.leave hq it
      simp only [length_singleton,contents_cons,contents_nil,List.append_nil] at hl
      rcases hl with ⟨hcur,hside⟩ | ⟨as',m,bs',hq',hcur,hgap,htar⟩
      · have hg : (contents zs as).length + (if it.forward then (zs.entries n.zl).length else 0) =
            if it.forward then (q.elements zs).length else 0 := by
          rw [hlen hq]
          split_ifs at hside ⊢ <;> simp [hside]
        rw [hg,hend]
        exact ⟨it.leave q as.length (as.length + 1),by simp [nextLoop,hcur],.finished hcur,rfl⟩
      obtain ⟨p,hp'⟩ := ne_none_iff_exists'.mp htar
      have hz' : ∀ p, (it.leave q as.length (as.length + 1)).zi = some p → ziplistIndex
          (zs.entries m.zl).length (it.leave q as.length (as.length + 1)).offset = some p :=
        fun p hp => by cases hp
      have ht' := Iter.target_node _ (a := (contents zs as').length)
        (b := (contents zs bs').length) hz'
      rw [hp',hgap,← hlen hq'] at ht'
      rw [show it.target = (it.leave q as.length (as.length + 1)).target from rfl,ht']
      exact nextLoop_within hq' hcur hz' hp'

lemma EntryAt.iterAt {e : Entry} {k : Nat} {v : V} (h : q.EntryAt zs e k v) (forward : Bool) :
    Iter.At zs q ⟨some e.node,e.offset,some e.zi,forward⟩ (if forward then k + 1 else k) := by
  obtain ⟨as,n,bs,hq,hn,hz,rfl,_⟩ := h
  have hat : Iter.At zs q ⟨some e.node,e.offset,some e.zi,forward⟩ _ :=
    .within hq (congrArg some hn.symm) (fun p hp => by cases hp; exact hz)
  convert hat using 1
  cases forward <;> simp [Iter.gap,add_assoc]

lemma Sound.iteratorAt (h : q.Sound zs) (forward : Bool)
    (hk : ziplistIndex (q.elements zs).length idx = some k) :
    ∃ it, q.quicklistGetIteratorAtIdx zs forward idx = some it ∧ it.forward = forward ∧
      it.At zs q (if forward then k else k + 1) := by
  obtain ⟨e,v,he,⟨as,n,bs,hq,hn,hz,rfl,_⟩,_⟩ := h.index hk
  refine ⟨⟨some e.node,e.offset,none,forward⟩,by simp [quicklistGetIteratorAtIdx,he],rfl,?_⟩
  have hat : Iter.At zs q ⟨some e.node,e.offset,none,forward⟩ _ :=
    .within hq (congrArg some hn.symm) (fun p hp => by cases hp)
  convert hat using 1
  cases forward <;> simp [Iter.gap,hz,add_assoc]

end RawQuicklist
end RedRock
