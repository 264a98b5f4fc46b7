import RedRock.QuicklistRuns
import RedRock.RawQuicklist

/-!
Range deletion in a quicklist, and the commands LRANGE and LTRIM.
-/

namespace RedRock
open Lib List Option Quicklist

namespace RawQuicklist
variable {Z V : Type} (zs : ZiplistOps Z V) (q : RawQuicklist Z)

/-- The nodes from the current one on, what is taken off the number of elements, and off that of
the nodes. When the nodes run out first, the code goes on from a null pointer. -/
def delRangeLoop : List (Node Z) → Int → Nat → Option (List (Node Z) × Nat × Nat)
  | [], _, extent => if extent = 0 then some ([],0,0) else none
  | n :: ns, offset, extent =>
    if extent = 0 then some (n :: ns,0,0)
    else if offset = 0 ∧ extent ≥ n.count then
      (delRangeLoop ns 0 (extent - n.count)).map fun r => (r.1,r.2.1 + n.count,r.2.2 + 1)
    else
      let del := if offset ≥ 0 ∧ extent ≥ n.count then n.count - offset.toNat
        else if offset < 0 then min (-offset).toNat extent else extent
      let m : Node Z := ⟨ziplistDeleteRange zs n.zl offset del,n.count - del⟩
      (delRangeLoop ns 0 (extent - del)).map fun r =>
        if m.count = 0 then (r.1,r.2.1 + del,r.2.2 + 1) else (m :: r.1,r.2.1 + del,r.2.2)

def quicklistDelRange (start count : Int) : Option (Bool × RawQuicklist Z) :=
  if count ≤ 0 then some (false,q)
  else
    let extent := if start ≥ 0 then min count.toNat (q.count - start.toNat)
      else min count.toNat (-start).toNat
    match q.quicklistIndex zs start with
    | none => some (false,q)
    | some (e,_) =>
      (delRangeLoop zs (q.nodes.drop e.node) e.offset extent).map fun r =>
        (true,⟨q.nodes.take e.node ++ r.1,q.count - r.2.1,q.len - r.2.2,q.fill⟩)

def place (start : Int) : Nat := (if start < 0 then q.count + start else start).toNat

def rangeEnd (start : Int) (count : Nat) : Nat := min (q.place start + count) q.count

/-- The elements from the start up to the end are gone and no others, and the counts fit. -/
def DelRangeExact (start : Int) (count : Nat) : Prop :=
  ∃ q', q.quicklistDelRange zs start count =
      some (decide (q.place start < q.rangeEnd start count),q') ∧
    q'.elements zs = (q.elements zs).take (q.place start) ++
      (q.elements zs).drop (q.rangeEnd start count) ∧
    q'.count = (q'.elements zs).length ∧ ∀ n ∈ q'.nodes, n.count = (zs.entries n.zl).length

/-- From a place counted from the head, the range goes beyond the node that it starts in, and is
shorter than this node. -/
def shortBeyondNode (start : Int) (count : Nat) : Bool :=
  match q.quicklistIndex zs start with
  | none => false
  | some (e,_) =>
    let extent := q.rangeEnd start count - q.place start
    q.nodes[e.node]?.any fun n => extent < n.count && n.count < e.offset + extent

variable {zs q} {n : Node Z} {ns : List (Node Z)} {o : Int} {p extent : Nat}

lemma delRangeLoop_cons (hn : n.Sound zs) (ho : ziplistIndex (zs.entries n.zl).length o = some p)
    (hx : ¬(extent < n.count ∧ (n.count : Int) < o + extent)) (he : extent ≠ 0) :
    ∃ keep gone, (∀ m ∈ keep, m.Sound zs) ∧ keep.length + gone = 1 ∧
      contents zs keep = (zs.entries n.zl).take p ++
        (zs.entries n.zl).drop (p + min (n.count - p) extent) ∧
      ∀ ns, delRangeLoop zs (n :: ns) o extent =
        (delRangeLoop zs ns 0 (extent - min (n.count - p) extent)).map fun r =>
          (keep ++ r.1,r.2.1 + min (n.count - p) extent,r.2.2 + gone) := by
  obtain ⟨hp,hpo⟩ := ziplistIndex_some ho
  have hc := hn.count
  by_cases hall : o = 0 ∧ extent ≥ n.count
  · obtain ⟨rfl,hle⟩ := hall
    have hp0 : p = 0 := by simpa using hpo
    subst hp0
    rw [Nat.sub_zero,min_eq_left hle]
    refine ⟨[],1,by simp,rfl,by simp [hc],fun ns => ?_⟩
    rw [delRangeLoop,if_neg he,if_pos ⟨rfl,hle⟩]
    rfl
  have hdel : (if o ≥ 0 ∧ extent ≥ n.count then n.count - o.toNat
      else if o < 0 then min (-o).toNat extent else extent) = min (n.count - p) extent := by
    split_ifs at hpo ⊢ <;> omega
  have hent : zs.entries (ziplistDeleteRange zs n.zl o (min (n.count - p) extent : Nat)) =
      (zs.entries n.zl).take p ++ (zs.entries n.zl).drop (p + min (n.count - p) extent) := by
    simp only [ziplistDeleteRange,ho,zs.entries_deleteRange,Int.toNat_natCast,
      if_neg (Int.not_lt.mpr (Int.natCast_nonneg _))]
  have hlen : ((zs.entries n.zl).take p ++
      (zs.entries n.zl).drop (p + min (n.count - p) extent)).length =
        n.count - min (n.count - p) extent := by
    simp only [length_append,length_take,length_drop]
    omega
  by_cases hz : n.count - min (n.count - p) extent = 0
  · refine ⟨[],1,by simp,rfl,(length_eq_zero_iff.mp (hlen.trans hz)).symm,fun ns => ?_⟩
    rw [delRangeLoop,if_neg he,if_neg hall]
    simp only [hdel,hz,if_true]
    rfl
  refine ⟨[⟨ziplistDeleteRange zs n.zl o (min (n.count - p) extent : Nat),
    n.count - min (n.count - p) extent⟩],0,?_,rfl,by simpa using hent,fun ns => ?_⟩
  · simp only [mem_singleton,forall_eq]
    exact ⟨by rw [hent,hlen],Nat.pos_of_ne_zero hz⟩
  · rw [delRangeLoop,if_neg he,if_neg hall]
    simp only [hdel,hz,if_false]
    rfl

lemma delRangeLoop_zero (hs : ∀ n ∈ ns, n.Sound zs) (he : extent ≤ (contents zs ns).length) :
    ∃ ms gone, delRangeLoop zs ns 0 extent = some (ms,extent,gone) ∧ (∀ n ∈ ms, n.Sound zs) ∧
      ms.length + gone = ns.length ∧ contents zs ms = (contents zs ns).drop extent := by
  induction ns generalizing extent with
  | nil =>
    have hz : extent = 0 := by simpa using he
    exact ⟨[],0,by simp [delRangeLoop,hz],by simp,rfl,by simp⟩
  | cons n ns ih =>
    by_cases hz : extent = 0
    · exact ⟨n :: ns,0,by simp [delRangeLoop,hz],hs,rfl,by simp [hz]⟩
    have hn := hs n (by simp)
    have hpos := hn.pos
    have hc := hn.count
    rw [contents_cons,length_append] at he
    obtain ⟨keep,gone,hk,hlen,hcont,heq⟩ := delRangeLoop_cons (p := 0) (o := 0) hn
      (by rw [ziplistIndex,if_neg (by omega),if_pos (by omega)]; rfl) (by omega) hz
    obtain ⟨ms,gone',hl,hms,hlen',hcont'⟩ := ih (fun m hm => hs m (by simp [hm]))
      (show extent - min (n.count - 0) extent ≤ _ by omega)
    refine ⟨keep ++ ms,gone' + gone,?_,?_,?_,?_⟩
    · simp only [heq,hl,map_some,Nat.sub_add_cancel (min_le_right _ _)]
    · intro m hm
      exact (mem_append.mp hm).elim (hk m) (hms m)
    · simp only [length_append,length_cons]
      omega
    rw [contents_append,hcont,hcont',contents_cons,drop_append,hc]
    by_cases hle : (zs.entries n.zl).length ≤ extent
    · simp [min_eq_left hle,drop_eq_nil_of_le hle]
    have hsub : extent - (zs.entries n.zl).length = 0 := by omega
    simp [min_eq_right (Nat.le_of_not_le hle),hsub]

lemma delRangeLoop_nil : delRangeLoop zs ns o 0 = some (ns,0,0) := by
  cases ns <;> simp [delRangeLoop]

lemma cut_range (a e b : List V) {p : Nat} (hp : p ≤ e.length) (extent : Nat) :
    a ++ (e.take p ++ e.drop (p + min (e.length - p) extent) ++
        b.drop (extent - min (e.length - p) extent)) =
      (a ++ (e ++ b)).take (a.length + p) ++ (a ++ (e ++ b)).drop (a.length + p + extent) := by
  rw [add_assoc,take_length_add_append,drop_length_add_append,
    take_append_of_le_length hp,drop_append,append_assoc,append_assoc]
  by_cases hle : extent ≤ e.length - p
  · rw [min_eq_right hle,Nat.sub_self,show p + extent - e.length = 0 by omega]
  rw [min_eq_left (by omega),drop_eq_nil_of_le (by omega),
    drop_eq_nil_of_le (show e.length ≤ p + extent by omega)]
  congr 4
  omega

section Range
variable {start : Int} {count : Nat}

lemma Sound.indexPlace (h : q.Sound zs) (hlo : -(q.count : Int) ≤ start)
    (hhi : start < q.count) : ∃ e v, q.quicklistIndex zs start = some (e,v) ∧
      q.EntryAt zs e (q.place start) v ∧ (e.offset < 0 ↔ start < 0) := by
  have hk : ziplistIndex (q.elements zs).length start = some (q.place start) := by
    rw [← h.count,ziplistIndex,place]
    split_ifs <;> first | omega | (congr 1; omega) | rfl
  exact h.index hk

lemma quicklistDelRange_eq {e : Entry} {v : V} (he : q.quicklistIndex zs start = some (e,v))
    (hlo : -(q.count : Int) ≤ start) (hc : count ≠ 0) : q.quicklistDelRange zs start count =
      (delRangeLoop zs (q.nodes.drop e.node) e.offset
        (q.rangeEnd start count - q.place start)).map fun r =>
          (true,⟨q.nodes.take e.node ++ r.1,q.count - r.2.1,q.len - r.2.2,q.fill⟩) := by
  have hext : (if start ≥ 0 then min (count : Int).toNat (q.count - start.toNat)
      else min (count : Int).toNat (-start).toNat) = q.rangeEnd start count - q.place start := by
    unfold rangeEnd place
    split_ifs <;> omega
  rw [quicklistDelRange,if_neg (by omega)]
  simp only [hext,he]

lemma Sound.delRange (h : q.Sound zs) (hlo : -(q.count : Int) ≤ start) (hhi : start < q.count)
    (hx : q.shortBeyondNode zs start count = false) :
    ∃ q', q.quicklistDelRange zs start count =
        some (decide (q.place start < q.rangeEnd start count),q') ∧ q'.Sound zs ∧
      q'.elements zs = (q.elements zs).take (q.place start) ++
        (q.elements zs).drop (q.rangeEnd start count) := by
  by_cases hc : count = 0
  · subst hc
    have hend : q.rangeEnd start 0 = q.place start := by
      unfold rangeEnd place
      split_ifs <;> omega
    exact ⟨q,by simp [quicklistDelRange,hend],h,by rw [hend,take_append_drop]⟩
  obtain ⟨e,v,he,⟨as,n,bs,hq,hn,hz,hp,_⟩,_⟩ := h.indexPlace hlo hhi
  have hns := h.nodes n (by simp [hq])
  have hcount := h.count
  have hel : q.elements zs = contents zs as ++ (zs.entries n.zl ++ contents zs bs) := by
    simp [elements,hq]
  have hlen := congrArg List.length hel
  simp only [length_append] at hlen
  have hzi := (ziplistIndex_some hz).1
  have heq := quicklistDelRange_eq he hlo hc
  generalize hx' : q.rangeEnd start count - q.place start = extent at heq
  have hext : 0 < extent ∧ q.rangeEnd start count = q.place start + extent ∧
      q.place start + extent ≤ q.count := by
    unfold rangeEnd at hx' ⊢
    omega
  have hcross : ¬(extent < n.count ∧ (n.count : Int) < e.offset + extent) := by
    simpa [shortBeyondNode,he,hq,← hn,hx'] using hx
  obtain ⟨keep,gone,hk,hklen,hkc,hcons⟩ := delRangeLoop_cons hns hz hcross (by omega)
  rw [hns.count] at hkc hcons
  have hrest : extent - min ((zs.entries n.zl).length - e.zi) extent ≤
      (contents zs bs).length := by omega
  obtain ⟨ms,gone',hl,hms,hmslen,hmsc⟩ :=
    delRangeLoop_zero (fun m hm => h.nodes m (by simp [hq,hm])) hrest
  have hnodes : q.nodes.drop e.node = n :: bs ∧ q.nodes.take e.node = as := by simp [hq,← hn]
  rw [hnodes.1,hnodes.2,hcons,hl] at heq
  simp only [map_some,Nat.sub_add_cancel (min_le_right _ _)] at heq
  have hsplit : q.nodes = as ++ (n :: bs) ++ [] := by simp [hq]
  have hlen' : q.len - (gone' + gone) + (n :: bs).length = q.len + (keep ++ ms).length := by
    have hl := h.len
    simp only [hq,length_append,length_cons,length_nil] at hl ⊢
    omega
  obtain ⟨q',hq'⟩ : ∃ q' : RawQuicklist Z, q' =
      ⟨as ++ (keep ++ ms),q.count - extent,q.len - (gone' + gone),q.fill⟩ := ⟨_,rfl⟩
  have hshape := (h.toShaped.change hsplit (show q'.nodes = as ++ (keep ++ ms) ++ [] by simp [hq'])
    (fun m hm => (mem_append.mp hm).elim (hk m) (hms m)) (by rw [hq']; exact hlen')).1
  have hres : q'.elements zs = (q.elements zs).take (q.place start) ++
      (q.elements zs).drop (q.rangeEnd start count) := by
    rw [hext.2.1,← hp,hel,← cut_range _ _ _ (le_of_lt hzi),← hkc,← hmsc]
    simp [elements,hq']
  refine ⟨q',heq.trans (by simp [hext,hq']),⟨hshape,?_⟩,hres⟩
  rw [hres,length_append,length_take,length_drop,hq']
  simp only
  omega

/-- The range is removed exactly, unless it starts inside a node, counted from the head, is
shorter than the node and goes beyond it: then the loop asks the ziplist for the whole range. -/
theorem delRange_exact_iff (h : q.Sound zs) (hlo : -(q.count : Int) ≤ start)
    (hhi : start < q.count) (count : Nat) :
    q.DelRangeExact zs start count ↔ q.shortBeyondNode zs start count = false := by
  constructor
  · rintro ⟨q',hq',_,_,hnodes⟩
    by_contra hx
    obtain ⟨e,v,he,⟨as,n,bs,hq,hn,hz,hp,_⟩,_⟩ := h.indexPlace hlo hhi
    have hcount := (h.nodes n (by simp [hq])).count
    obtain ⟨hzi,hoff⟩ := ziplistIndex_some hz
    generalize hx' : q.rangeEnd start count - q.place start = extent at hq'
    have hcross : extent < n.count ∧ (n.count : Int) < e.offset + extent := by
      simpa [shortBeyondNode,he,hq,← hn,hx'] using hx
    have hc : count ≠ 0 := by
      rintro rfl
      unfold rangeEnd at hx'
      split_ifs at hoff <;> omega
    have hdrop : q.nodes.drop e.node = n :: bs := by simp [hq,← hn]
    have hpos : (e.zi : Int) = e.offset := by split_ifs at hoff <;> omega
    rw [quicklistDelRange_eq he hlo hc,hx',hdrop,delRangeLoop,if_neg (by omega),if_neg (by omega)]
      at hq'
    simp only [if_neg (show ¬(e.offset ≥ 0 ∧ extent ≥ n.count) by omega),
      if_neg (show ¬e.offset < 0 by omega),if_neg (show ¬n.count - extent = 0 by omega),
      Nat.sub_self,delRangeLoop_nil,map_some,some.injEq,Prod.mk.injEq] at hq'
    have hm := hnodes ⟨ziplistDeleteRange zs n.zl e.offset extent,n.count - extent⟩
      (by simp [← hq'.2])
    simp only [ziplistDeleteRange,hz,zs.entries_deleteRange,Int.toNat_natCast,
      if_neg (Int.not_lt.mpr (Int.natCast_nonneg _)),length_append,length_take,
      length_drop] at hm
    omega
  · intro hx
    obtain ⟨q',hq',hs,hel⟩ := h.delRange hlo hhi hx
    exact ⟨q',hq',hel,hs.count,fun n hn => (hs.nodes n hn).count⟩

end Range

end RawQuicklist

open QuicklistRun.Sample (ziplist)

def Sample.sixElements : RawQuicklist (List Bytes) :=
  [[1],[2],[3],[4],[5],[6]].foldl (fun q v => q.quicklistPush ziplist .tail v) ⟨[],0,0,5⟩

namespace RawQuicklist

lemma sixElements_sound : Sample.sixElements.Sound ziplist where
  nodes := by
    have hall : ∀ n ∈ Sample.sixElements.nodes,
        n.count = (ziplist.entries n.zl).length ∧ 0 < n.count := by decide
    exact fun n hn => ⟨(hall n hn).1,(hall n hn).2⟩
  len := by decide
  count := by decide

/-- Three elements from the fourth on: the sixth stays, and both counts are one too low. -/
theorem delRange_leaves_element : Sample.sixElements.Sound ziplist ∧
    ¬Sample.sixElements.DelRangeExact ziplist 3 3 := by
  refine ⟨sixElements_sound,?_⟩
  rintro ⟨q',hq',_,hcount,_⟩
  have hres := congrArg (Option.map fun r => (r.2.count,(r.2.elements ziplist).length)) hq'
  have hfour : (Sample.sixElements.quicklistDelRange ziplist 3 3).map
      (fun r => (r.2.count,(r.2.elements ziplist).length)) = some (3,4) := by decide
  rw [Nat.cast_ofNat,hfour] at hres
  simp only [map_some,some.injEq,Prod.mk.injEq] at hres
  omega

theorem delRange_exact_from_tail : Sample.sixElements.DelRangeExact ziplist (-4) 3 :=
  (delRange_exact_iff sixElements_sound (by decide) (by decide) 3).mpr (by decide)

variable {Z V : Type} {zs : ZiplistOps Z V} {q : RawQuicklist Z}

lemma Sound.delHead (h : q.Sound zs) {count : Nat} (hle : count ≤ q.count) :
    ∃ b q', q.quicklistDelRange zs 0 count = some (b,q') ∧ q'.Sound zs ∧
      q'.elements zs = (q.elements zs).drop count := by
  by_cases hz : q.count = 0
  · have hc : count = 0 := by omega
    exact ⟨false,q,by simp [quicklistDelRange,hc],h,by simp [hc]⟩
  have hx : q.shortBeyondNode zs 0 count = false := by
    obtain ⟨e,v,he,⟨as,n,bs,hq,hn,hz,hp,_⟩,hneg⟩ :=
      h.indexPlace (show -(q.count : Int) ≤ 0 by omega) (by omega)
    have hoff := (ziplistIndex_some hz).2
    have hzero : e.zi = 0 := by simpa [place] using Nat.eq_zero_of_add_eq_zero_left hp
    rw [if_neg (by omega)] at hoff
    simp [shortBeyondNode,he,hq,← hn,← hoff,hzero]
    omega
  obtain ⟨q',hq',hs,hel⟩ := h.delRange (show -(q.count : Int) ≤ 0 by omega) (by omega) hx
  refine ⟨_,q',hq',hs,?_⟩
  rw [hel]
  simp [place,rangeEnd,min_eq_left hle]

lemma Sound.delTail (h : q.Sound zs) {count : Nat} (hle : count ≤ q.count) :
    ∃ b q', q.quicklistDelRange zs (-(count : Int)) count = some (b,q') ∧ q'.Sound zs ∧
      q'.elements zs = (q.elements zs).take (q.count - count) := by
  by_cases hz : count = 0
  · exact ⟨false,q,by simp [quicklistDelRange,hz],h,by simp [hz,h.count]⟩
  have hx : q.shortBeyondNode zs (-(count : Int)) count = false := by
    obtain ⟨e,v,he,⟨as,n,bs,hq,hn,hz,hp,_⟩,hneg⟩ :=
      h.indexPlace (show -(q.count : Int) ≤ -(count : Int) by omega) (by omega)
    simp [shortBeyondNode,he,hq,← hn]
    omega
  obtain ⟨q',hq',hs,hel⟩ :=
    h.delRange (show -(q.count : Int) ≤ -(count : Int) by omega) (by omega) hx
  refine ⟨_,q',hq',hs,?_⟩
  have hplace : q.place (-(count : Int)) = q.count - count := by
    rw [place,if_pos (by omega)]
    omega
  have hend : q.rangeEnd (-(count : Int)) count = q.count := by
    rw [rangeEnd,hplace]
    omega
  rw [hel,hplace,hend,h.count,drop_length,List.append_nil]

variable (zs q)

def rangeLoop : Nat → Iter → List V
  | 0, _ => []
  | k+1, it =>
    match q.quicklistNext zs it with
    | (none,_) => []
    | (some (_,v),it) => v :: rangeLoop k it

/-- The reply, for the list at the key. -/
def lrangeCommand (o : Option (RawQuicklist Z)) (start stop : Int) : List V :=
  match o with
  | none => []
  | some q =>
    match clampRange q.count start stop with
    | none => []
    | some (start,stop) =>
      match q.quicklistGetIteratorAtIdx zs true start with
      | none => []
      | some it => q.rangeLoop zs (stop - start + 1).toNat it

/-- What is at the key afterwards. -/
def ltrimCommand (o : Option (RawQuicklist Z)) (start stop : Int) :
    Option (Option (RawQuicklist Z)) :=
  match o with
  | none => some none
  | some q => do
    let (ltrim,rtrim) : Int × Int := match clampRange q.count start stop with
      | none => (q.count,0)
      | some (start,stop) => (start,q.count - stop - 1)
    let (_,q) ← q.quicklistDelRange zs 0 ltrim
    let (_,q) ← q.quicklistDelRange zs (-rtrim) rtrim
    return if q.count = 0 then none else some q

def listElements (o : Option (RawQuicklist Z)) : List V := o.elim [] (elements zs)

variable {zs q}

lemma Sound.rangeLoop (h : q.Sound zs) {it : Iter} {g k : Nat} (hf : it.forward = true)
    (hat : it.At zs q g) (hle : g + k ≤ (q.elements zs).length) :
    q.rangeLoop zs k it = ((q.elements zs).drop g).take k := by
  induction k generalizing it g with
  | zero => simp [RawQuicklist.rangeLoop]
  | succ k ih =>
    have hn := h.next hat
    rw [Iter.target,hf,if_pos rfl,if_pos (by omega)] at hn
    obtain ⟨e,v,hnext,he⟩ := hn
    obtain ⟨hg,hv⟩ := List.getElem?_eq_some_iff.mp he.value
    rw [RawQuicklist.rangeLoop,hnext,drop_eq_getElem_cons hg,take_succ_cons,hv]
    exact congrArg _ (ih rfl (he.iterAt true) (by rw [if_pos rfl]; omega))

lemma clampRange_some {llen start stop a b : Int}
    (h : clampRange llen start stop = some (a,b)) : 0 ≤ a ∧ a ≤ b ∧ b < llen := by
  simp only [clampRange,ite_none_left_eq_some,some.injEq,Prod.mk.injEq] at h
  omega

theorem ltrim_keeps_lrange (h : q.Sound zs) (start stop : Int) :
    ∃ o, ltrimCommand zs (some q) start stop = some o ∧
      listElements zs o = lrangeCommand zs (some q) start stop ∧
      (o = none ↔ lrangeCommand zs (some q) start stop = []) := by
  have hcount := h.count
  cases hc : clampRange q.count start stop with
  | none =>
    obtain ⟨b,q₁,hq₁,hs₁,hel₁⟩ := h.delHead (le_refl q.count)
    have hz : q₁.count = 0 := by
      rw [hs₁.count,hel₁,length_drop]
      omega
    refine ⟨none,?_,by simp [listElements,lrangeCommand,hc],by simp [lrangeCommand,hc]⟩
    have hq₂ : q₁.quicklistDelRange zs 0 0 = some (false,q₁) := by simp [quicklistDelRange]
    simp [ltrimCommand,hc,hq₁,hq₂,hz]
  | some ab =>
    obtain ⟨a,b⟩ := ab
    obtain ⟨ha,hab,hb⟩ := clampRange_some hc
    lift a to Nat using ha
    lift b to Nat using by omega
    obtain ⟨_,q₁,hq₁,hs₁,hel₁⟩ := h.delHead (show a ≤ q.count by omega)
    have hcount₁ := hs₁.count
    rw [hel₁,length_drop] at hcount₁
    obtain ⟨_,q₂,hq₂,hs₂,hel₂⟩ := hs₁.delTail (show q.count - b - 1 ≤ q₁.count by omega)
    have hres : q₂.elements zs = ((q.elements zs).drop a).take (b - a + 1) := by
      rw [hel₂,hel₁,show q₁.count - (q.count - b - 1) = b - a + 1 by omega]
    have hlen : (q₂.elements zs).length = b - a + 1 := by
      rw [hres,length_take,length_drop]
      omega
    have hk : ziplistIndex (q.elements zs).length a = some a := by
      rw [ziplistIndex,if_neg (by omega),if_pos (by omega)]
      simp
    obtain ⟨it,hit,hf,hat⟩ := h.iteratorAt true hk
    have hrange : lrangeCommand zs (some q) start stop = q₂.elements zs := by
      have hlong : ((b : Int) - a + 1).toNat = b - a + 1 := by omega
      simp only [lrangeCommand,hc,hit,hlong]
      rw [hres]
      exact h.rangeLoop hf hat (by omega)
    have hr : (q.count : Int) - b - 1 = (q.count - b - 1 : Nat) := by omega
    refine ⟨some q₂,?_,hrange.symm,?_⟩
    · simp [ltrimCommand,hc,hq₁,hr,hq₂,hs₂.count,hlen]
    rw [hrange,← length_eq_zero_iff,hlen]
    simp

theorem ltrim_keeps_lrange_six :
    ∃ o, ltrimCommand ziplist (some Sample.sixElements) 1 (-2) = some o ∧
      listElements ziplist o = [[2],[3],[4],[5]] := by
  obtain ⟨o,ho,hel,_⟩ := ltrim_keeps_lrange sixElements_sound 1 (-2)
  exact ⟨o,ho,hel.trans (by decide)⟩

lemma Sound.walk (h : q.Sound zs) {it : Iter} {g : Nat} (hat : it.At zs q g) (m : Nat) :
    q.rangeLoop zs m it = (if it.forward then (q.elements zs).drop g
      else ((q.elements zs).take g).reverse).take m := by
  induction m generalizing it g with
  | zero => simp [RawQuicklist.rangeLoop]
  | succ m ih =>
    have hn := h.next hat
    rw [RawQuicklist.rangeLoop]
    cases ht : it.target g (q.elements zs).length with
    | none =>
      rw [ht] at hn
      obtain ⟨it',hnext,_⟩ := hn
      rw [hnext]
      unfold Iter.target at ht
      split_ifs at ht ⊢ <;> simp_all
    | some k =>
      rw [ht] at hn
      obtain ⟨e,v,hnext,he⟩ := hn
      obtain ⟨hk,rfl⟩ := List.getElem?_eq_some_iff.mp he.value
      rw [hnext]
      simp only [ih (he.iterAt it.forward)]
      unfold Iter.target at ht
      split_ifs at ht ⊢
      · cases ht
        rw [drop_eq_getElem_cons hk,take_succ_cons]
      · obtain ⟨rfl⟩ : g = k + 1 := by simp at ht; omega
        rw [take_succ_eq_append_getElem hk,reverse_append]
        rfl

/-- From every index and in both directions `quicklistNext` returns the elements in order, across
the nodes. -/
theorem iteration_exact (h : q.Sound zs) {idx : Int} {k : Nat} (forward : Bool) (m : Nat)
    (hk : ziplistIndex (q.elements zs).length idx = some k) :
    ∃ it, q.quicklistGetIteratorAtIdx zs forward idx = some it ∧ q.rangeLoop zs m it =
      (if forward then (q.elements zs).drop k else ((q.elements zs).take (k+1)).reverse).take m := by
  obtain ⟨it,hit,rfl,hat⟩ := h.iteratorAt forward hk
  refine ⟨it,hit,(h.walk hat m).trans ?_⟩
  split_ifs <;> rfl

theorem iteration_exact_back : ∃ it,
    Sample.sixElements.quicklistGetIteratorAtIdx ziplist false (-1) = some it ∧
      Sample.sixElements.rangeLoop ziplist 3 it = [[6],[5],[4]] :=
  iteration_exact sixElements_sound false 3 (by decide : _ = some 5)

end RawQuicklist
end RedRock
