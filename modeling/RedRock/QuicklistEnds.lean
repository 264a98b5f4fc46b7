import RedRock.QuicklistNodes

namespace RedRock
open Lib List Option Quicklist QuicklistNode Bool

namespace QuicklistNode
variable {Z V : Type} (zs : ZiplistOps Z V) (n : QuicklistNode Z)

@[simp] lemma compressNode_zl : (n.quicklistCompressNode zs).zl = n.zl := by
  unfold quicklistCompressNode
  repeat' split
  all_goals rfl

lemma compressNode_hint (h : (n.quicklistCompressNode zs).recompress = true) :
    n.recompress = true := by
  unfold quicklistCompressNode at h
  repeat' split at h
  all_goals first | exact h | cases h

@[simp] lemma decompress_zl : n.quicklistDecompressNodeForUse.zl = n.zl := by
  unfold quicklistDecompressNodeForUse
  split <;> rfl

@[simp] lemma decompress_lzf : n.quicklistDecompressNodeForUse.lzf = false := by
  unfold quicklistDecompressNodeForUse
  split
  · rfl
  rename_i h
  simpa using h

@[simp] lemma recompressOnly_zl : (n.quicklistRecompressOnly zs).zl = n.zl := by
  unfold quicklistRecompressOnly
  split
  · exact n.compressNode_zl zs
  · rfl

end QuicklistNode

lemma map_modify_comm {α β : Type} {f : α → α} {k : β → β} {g : α → β} (l : List α) (i : Nat)
    (h : ∀ a, g (f a) = k (g a)) : (l.modify i f).map g = (l.map g).modify i k := by
  apply ext_getElem?
  intro j
  rw [getElem?_map,getElem?_modify,getElem?_modify,getElem?_map]
  cases l[j]? with
  | none => rfl
  | some a =>
    simp only [Option.map_eq_map,map_some]
    split
    · rw [h]
    · rfl

lemma modify_of_fixed {α : Type} {f : α → α} {l : List α} {i : Nat}
    (h : ∀ a, l[i]? = some a → f a = a) : l.modify i f = l := by
  apply ext_getElem?
  intro j
  rw [getElem?_modify]
  cases hj : l[j]? with
  | none => rfl
  | some a =>
    simp only [Option.map_eq_map,map_some,ite_eq_right_iff,some.injEq]
    rintro rfl
    exact h a hj

section Nodes
variable {Z V : Type} {zs : ZiplistOps Z V} {ns ns' : List (QuicklistNode Z)} {c i j : Nat}
  {f : QuicklistNode Z → QuicklistNode Z}

def RawAt (ns : List (QuicklistNode Z)) (i : Nat) : Prop :=
  ∀ n, ns[i]? = some n → n.lzf = false

def HintAt (ns : List (QuicklistNode Z)) (i : Nat) : Prop :=
  ∃ n, ns[i]? = some n ∧ n.recompress = true

/-- A node that may be compressed: it is not at an end, and the list is long enough. -/
def Inner (c len i : Nat) : Prop := i ≠ 0 ∧ i + 1 ≠ len ∧ 2 * c ≤ len

/-- The ends are not compressed, and no node of a short list is. -/
structure EndsRaw (c : Nat) (ns : List (QuicklistNode Z)) : Prop where
  first : RawAt ns 0
  last : RawAt ns (ns.length - 1)
  short : ns.length < 2 * c → ∀ i, RawAt ns i

lemma getElem?_modify_eq {n : QuicklistNode Z} (h : (ns.modify i f)[j]? = some n) :
    ∃ m, ns[j]? = some m ∧ n = if i = j then f m else m := by
  rw [getElem?_modify] at h
  obtain ⟨m,hm,rfl⟩ := map_eq_some_iff.mp h
  exact ⟨m,hm,rfl⟩

lemma RawAt.modify (h : RawAt ns j) (hf : ∀ n, n.lzf = false → (f n).lzf = false) :
    RawAt (ns.modify i f) j := by
  intro n hn
  obtain ⟨m,hm,rfl⟩ := getElem?_modify_eq hn
  split
  · exact hf m (h m hm)
  · exact h m hm

lemma RawAt.modify_ne (h : RawAt ns j) (hij : i ≠ j) : RawAt (ns.modify i f) j := by
  intro n hn
  obtain ⟨m,hm,rfl⟩ := getElem?_modify_eq hn
  rw [if_neg hij]
  exact h m hm

lemma rawAt_modify_self (hf : ∀ n, (f n).lzf = false) : RawAt (ns.modify i f) i := by
  intro n hn
  obtain ⟨m,hm,rfl⟩ := getElem?_modify_eq hn
  rw [if_pos rfl]
  exact hf m

lemma EndsRaw.inner (h : EndsRaw c ns) {n : QuicklistNode Z} (hn : ns[i]? = some n)
    (hl : n.lzf = true) : Inner c ns.length i := by
  have hne : ∀ j, RawAt ns j → i ≠ j := by
    intro j hj hij
    subst hij
    rw [hj n hn] at hl
    cases hl
  refine ⟨hne 0 h.first,fun hi => hne (ns.length - 1) h.last (by omega),?_⟩
  by_contra hlt
  exact hne i (h.short (by omega) i) rfl

lemma EndsRaw.modify (h : EndsRaw c ns) (hf : ∀ n, n.lzf = false → (f n).lzf = false) :
    EndsRaw c (ns.modify i f) where
  first := h.first.modify hf
  last := by
    rw [length_modify]
    exact h.last.modify hf
  short := by
    intro hl j
    rw [length_modify] at hl
    exact (h.short hl j).modify hf

lemma EndsRaw.modify_inner (h : EndsRaw c ns) (hi : Inner c ns.length i) :
    EndsRaw c (ns.modify i f) where
  first := h.first.modify_ne hi.1
  last := by
    rw [length_modify]
    refine h.last.modify_ne fun he => hi.2.1 ?_
    have hpos : 0 < i := Nat.pos_of_ne_zero hi.1
    omega
  short := by
    intro hl
    rw [length_modify] at hl
    have hle := hi.2.2
    omega

lemma endsRaw_of_all (h : ∀ i, RawAt ns i) : EndsRaw c ns := ⟨h 0,h _,fun _ => h⟩

structure Recoded (ns ns' : List (QuicklistNode Z)) : Prop where
  zls : ns'.map (·.zl) = ns.map (·.zl)
  hints : ∀ i, HintAt ns' i → HintAt ns i

lemma Recoded.refl (ns : List (QuicklistNode Z)) : Recoded ns ns := ⟨rfl,fun _ => id⟩

lemma Recoded.trans {ns'' : List (QuicklistNode Z)} (h : Recoded ns ns')
    (h' : Recoded ns' ns'') : Recoded ns ns'' :=
  ⟨h'.zls.trans h.zls,fun i hi => h.hints i (h'.hints i hi)⟩

lemma Recoded.length (h : Recoded ns ns') : ns'.length = ns.length := by
  have hl := congrArg List.length h.zls
  simpa using hl

lemma map_zl_modify (hz : ∀ n, (f n).zl = n.zl) : (ns.modify i f).map (·.zl) = ns.map (·.zl) :=
  (map_modify_comm (k := id) ns i hz).trans (modify_id _ _)

lemma recoded_modify (hz : ∀ n, (f n).zl = n.zl)
    (hh : ∀ n, (f n).recompress = true → n.recompress = true) : Recoded ns (ns.modify i f) where
  zls := map_zl_modify hz
  hints := by
    intro j ⟨n,hn,hr⟩
    obtain ⟨m,hm,rfl⟩ := getElem?_modify_eq hn
    refine ⟨m,hm,?_⟩
    split at hr
    · exact hh m hr
    · exact hr

section
variable (ns)

lemma recoded_compress : Recoded ns (ns.modify i (·.quicklistCompressNode zs)) :=
  recoded_modify (fun n => n.compressNode_zl zs) fun n => n.compressNode_hint zs

lemma recoded_decompress (i : Nat) : Recoded ns (ns.modify i (·.quicklistDecompressNode)) :=
  recoded_modify (fun _ => rfl) fun _ => id

end

def Peeled (i : Nat) (ns : List (QuicklistNode Z)) : Prop :=
  ∀ j, j < i ∨ ns.length ≤ j + i → RawAt ns j

lemma depthLoop_spec {node : Option Nat} {depth : Nat} {inDepth : Bool}
    {o : Option Bool} (h : Peeled i ns)
    (hr : depthLoop node depth i inDepth ns = (ns',o)) :
    Recoded ns ns' ∧ match o with
      | none => ∀ j, RawAt ns' j
      | some flag => Peeled (i + depth) ns' ∧ (∀ j, i ≤ j → j < i + depth → ns.length ≠ 2 * j + 1) ∧
          (flag = false → inDepth = false ∧ ∀ j, i ≤ j → j < i + depth →
            node ≠ some j ∧ node ≠ some (ns.length - 1 - j)) := by
  induction depth generalizing i ns inDepth with
  | zero =>
    cases hr
    exact ⟨.refl _,h,fun j _ _ => by omega,fun hf => ⟨hf,fun j _ _ => by omega⟩⟩
  | succ depth ih =>
    rw [depthLoop] at hr
    generalize hm : (ns.modify i (·.quicklistDecompressNode)).modify (ns.length - 1 - i)
      (·.quicklistDecompressNode) = ms at hr
    have hrec : Recoded ns ms := by
      rw [← hm]
      exact (recoded_decompress ns i).trans (recoded_decompress _ _)
    have hlen := hrec.length
    have hpeel : Peeled (i + 1) ms := by
      intro j hj
      rw [hlen] at hj
      rw [← hm]
      by_cases hlast : j = ns.length - 1 - i
      · rw [hlast]
        exact rawAt_modify_self fun _ => rfl
      by_cases hi : j = i
      · rw [hi]
        exact (rawAt_modify_self fun _ => rfl).modify fun _ _ => rfl
      · exact ((h j (by omega)).modify fun _ _ => rfl).modify fun _ _ => rfl
    split at hr
    · rename_i hmeet
      cases hr
      refine ⟨hrec,fun j => hpeel j ?_⟩
      rw [hlen]
      omega
    rename_i hmeet
    obtain ⟨hrec',hspec⟩ := ih hpeel hr
    refine ⟨hrec.trans hrec',?_⟩
    cases o with
    | none => exact hspec
    | some flag =>
      obtain ⟨hp,hodd,hflag⟩ := hspec
      rw [hlen] at hodd hflag
      rw [add_assoc,add_comm 1] at hp
      refine ⟨hp,fun j hj hlt => ?_,fun hf => ?_⟩
      · by_cases hi : j = i
        · omega
        · exact hodd j (by omega) (by omega)
      obtain ⟨hin,hall⟩ := hflag hf
      simp only [or_eq_false_iff,beq_eq_false_iff_ne] at hin
      refine ⟨hin.1.1,fun j hj hlt => ?_⟩
      by_cases hi : j = i
      · rw [hi]
        exact ⟨hin.1.2,hin.2⟩
      · exact hall j (by omega) (by omega)

lemma RawAt.eraseIdx (h : ∀ i, RawAt ns i) : RawAt (ns.eraseIdx i) j := by
  intro n hn
  rw [getElem?_eraseIdx] at hn
  split at hn
  · exact h j n hn
  · exact h (j+1) n hn

lemma HintAt.eraseIdx (h : HintAt (ns.eraseIdx i) j) :
    j < i ∧ HintAt ns j ∨ i ≤ j ∧ HintAt ns (j+1) := by
  obtain ⟨n,hn,hr⟩ := h
  rw [getElem?_eraseIdx] at hn
  split at hn
  · exact .inl ⟨‹_›,n,hn,hr⟩
  · exact .inr ⟨by omega,n,hn,hr⟩

variable {new : QuicklistNode Z}

lemma RawAt.insertIdx (hnew : new.lzf = false)
    (h : ∀ k, k = j ∧ j < i ∨ k + 1 = j ∧ i < j → RawAt ns k) : RawAt (ns.insertIdx i new) j := by
  intro n hn
  rw [getElem?_insertIdx] at hn
  split at hn
  · exact h j (.inl ⟨rfl,‹_›⟩) n hn
  split at hn
  · rw [ite_none_right_eq_some] at hn
    cases hn.2
    exact hnew
  · exact h (j-1) (.inr ⟨by omega,by omega⟩) n hn

lemma HintAt.insertIdx (hnew : new.recompress = false)
    (h : HintAt (ns.insertIdx i new) j) : j < i ∧ HintAt ns j ∨ i < j ∧ HintAt ns (j-1) := by
  obtain ⟨n,hn,hr⟩ := h
  rw [getElem?_insertIdx] at hn
  split at hn
  · exact .inl ⟨‹_›,n,hn,hr⟩
  split at hn
  · rw [ite_none_right_eq_some] at hn
    cases hn.2
    rw [hnew] at hr
    cases hr
  · exact .inr ⟨by omega,n,hn,hr⟩

lemma EndsRaw.insertIdx (h : EndsRaw c ns) (hnew : new.lzf = false)
    (hi : i ≤ ns.length) : EndsRaw c (ns.insertIdx i new) where
  first := by
    refine .insertIdx hnew fun k hk => ?_
    have h0 : k = 0 := by omega
    rw [h0]
    exact h.first
  last := by
    rw [length_insertIdx_of_le_length hi]
    refine .insertIdx hnew fun k hk => ?_
    have hlast : k = ns.length - 1 := by omega
    rw [hlast]
    exact h.last
  short := by
    intro hl j
    rw [length_insertIdx_of_le_length hi] at hl
    exact .insertIdx hnew fun k _ => h.short (by omega) k

end Nodes

namespace Quicklist
variable {Z V : Type} (zs : ZiplistOps Z V) {q : Quicklist Z} {i len : Nat}
variable {back : Bool} {q' : Quicklist Z} {p : Nat × Int} {after : Bool}

structure Sound (q : Quicklist Z) : Prop where
  depth : 0 < q.compress
  ends : EndsRaw q.compress q.nodes

def Settled (q : Quicklist Z) : Prop :=
  ∀ i, HintAt q.nodes i → Inner q.compress q.nodes.length i

def HintFree (q : Quicklist Z) : Prop := ∀ i, ¬HintAt q.nodes i

structure Same (q q' : Quicklist Z) : Prop where
  nodes : Recoded q.nodes q'.nodes
  fill : q'.fill = q.fill
  compress : q'.compress = q.compress

lemma Same.refl (q : Quicklist Z) : Same q q := ⟨.refl _,rfl,rfl⟩

lemma Same.trans {q' q'' : Quicklist Z} (h : Same q q') (h' : Same q' q'') : Same q q'' :=
  ⟨h.nodes.trans h'.nodes,h'.fill.trans h.fill,h'.compress.trans h.compress⟩

lemma Same.settled (h : Same q q') (hs : q.Settled) : q'.Settled := by
  intro i hi
  rw [h.compress,h.nodes.length]
  exact hs i (h.nodes.hints i hi)

lemma Same.hintFree (h : Same q q') (hs : q.HintFree) : q'.HintFree :=
  fun i hi => hs i (h.nodes.hints i hi)

section
variable (q)

lemma same_compress (i : Nat) :
    Same q (q.modify i (·.quicklistCompressNode zs)) := ⟨recoded_compress _,rfl,rfl⟩

lemma peeled_zero (ns : List (QuicklistNode Z)) : Peeled 0 ns := by
  intro j hj n hn
  rw [getElem?_eq_none (by omega)] at hn
  cases hn

def compressInner (node : Option Nat) (inDepth : Bool) (q : Quicklist Z) : Quicklist Z :=
  match node with
  | some i => if inDepth then q else q.modify i (·.quicklistCompressNode zs)
  | none => q

lemma compressInner_same (node : Option Nat) (inDepth : Bool) (q : Quicklist Z) :
    Same q (compressInner zs node inDepth q) := by
  unfold compressInner
  split
  · split
    · exact .refl q
    · exact same_compress zs q _
  · exact .refl q

def compressBeyond (q : Quicklist Z) : Quicklist Z :=
  if q.compress ≥ 2 then
    (q.modify q.compress (·.quicklistCompressNode zs)).modify
      (q.nodes.length - 1 - q.compress) (·.quicklistCompressNode zs)
  else q

lemma compressBeyond_same : Same q (compressBeyond zs q) := by
  unfold compressBeyond
  split
  · exact (same_compress zs q _).trans (same_compress zs _ _)
  · exact .refl q

lemma compressDepth_eq (node : Option Nat) :
    q.compressDepth zs len node = if q.compress = 0 ∨ len < q.compress * 2 then q
      else match depthLoop node q.compress 0 false q.nodes with
        | (nodes,none) => { q with nodes := nodes }
        | (nodes,some inDepth) =>
          compressBeyond zs (compressInner zs node inDepth { q with nodes := nodes }) := rfl

lemma compressDepth_same (len : Nat) (node : Option Nat) :
    Same q (q.compressDepth zs len node) := by
  rw [compressDepth_eq]
  split
  · exact .refl q
  split
  · rename_i nodes hloop
    exact ⟨(depthLoop_spec (peeled_zero _) hloop).1,rfl,rfl⟩
  rename_i nodes inDepth hloop
  have hloop : Same q { q with nodes := nodes } :=
    ⟨(depthLoop_spec (peeled_zero _) hloop).1,rfl,rfl⟩
  exact hloop.trans ((compressInner_same zs node inDepth _).trans (compressBeyond_same zs _))

end

lemma Sound.compress_inner (h : q.Sound) (hi : Inner q.compress q.nodes.length i) :
    (q.modify i (·.quicklistCompressNode zs)).Sound := ⟨h.depth,h.ends.modify_inner hi⟩

lemma Sound.compressBeyond (h : q.Sound) (hl : 2 * q.compress ≤ q.nodes.length) :
    (compressBeyond zs q).Sound := by
  unfold Quicklist.compressBeyond
  split
  · rename_i h2
    have hfirst := h.compress_inner zs (i := q.compress) ⟨by omega,by omega,hl⟩
    refine hfirst.compress_inner zs ?_
    rw [(same_compress zs q q.compress).nodes.length,(same_compress zs q q.compress).compress]
    exact ⟨by omega,by omega,hl⟩
  · exact h

lemma compressDepth_sound (hc : 0 < q.compress) (hl : q.compress * 2 ≤ len)
    (hn : q.compress * 2 ≤ q.nodes.length + 1) (node : Option Nat) :
    (q.compressDepth zs len node).Sound := by
  rw [compressDepth_eq,if_neg (by omega)]
  split
  · rename_i nodes hloop
    exact ⟨hc,endsRaw_of_all (depthLoop_spec (peeled_zero _) hloop).2⟩
  rename_i nodes inDepth hloop
  obtain ⟨hrec,hp,hodd,hflag⟩ := depthLoop_spec (peeled_zero _) hloop
  have hlen := hrec.length
  have hodd' := hodd (q.compress - 1) (by omega) (by omega)
  have hlong : 2 * q.compress ≤ nodes.length := by omega
  rw [zero_add] at hp
  have hsound : Sound { q with nodes := nodes } := by
    refine ⟨hc,hp 0 (.inl hc),hp _ (.inr ?_),fun hs => ?_⟩
    · simp only
      omega
    simp only at hs
    omega
  have hinner : (compressInner zs node inDepth { q with nodes := nodes }).Sound := by
    unfold compressInner
    split
    · rename_i i
      split
      · exact hsound
      rename_i hin
      have hout := (hflag (by simpa using hin)).2
      refine hsound.compress_inner zs ⟨?_,fun hlast => ?_,hlong⟩
      · intro h0
        exact (hout 0 (le_refl 0) (by omega)).1 (by rw [h0])
      simp only at hlast
      exact (hout 0 (le_refl 0) (by omega)).2 (congrArg some (by omega))
    · exact hsound
  apply hinner.compressBeyond
  have hsame := compressInner_same zs node inDepth { q with nodes := nodes }
  rw [hsame.nodes.length,hsame.compress]
  exact hlong

lemma Sound.compressDepth (h : q.Sound) (node : Option Nat) :
    (q.compressDepth zs q.nodes.length node).Sound := by
  by_cases hl : q.compress * 2 ≤ q.nodes.length
  · exact compressDepth_sound zs h.depth hl (by omega) node
  rw [compressDepth_eq,if_pos (.inr (by omega))]
  exact h

lemma compress_same (q : Quicklist Z) (len i : Nat) : Same q (q.quicklistCompress zs len i) := by
  unfold quicklistCompress
  split
  · exact .refl q
  split
  · exact same_compress zs q i
  · exact compressDepth_same zs q len _

lemma Sound.quicklistCompress (h : q.Sound)
    (hi : HintAt q.nodes i → Inner q.compress q.nodes.length i) :
    (q.quicklistCompress zs q.nodes.length i).Sound := by
  unfold Quicklist.quicklistCompress
  split
  · exact h
  rename_i n hn
  split
  · exact h.compress_inner zs (hi ⟨n,hn,‹_›⟩)
  · exact h.compressDepth zs _

lemma recompressOnly_same (q : Quicklist Z) (i : Nat) : Same q (q.recompressOnly zs i) := by
  refine ⟨recoded_modify (fun n => n.recompressOnly_zl zs) fun n hn => ?_,rfl,rfl⟩
  unfold quicklistRecompressOnly at hn
  split at hn
  · assumption
  · exact hn

lemma Sound.recompressOnly (h : q.Sound)
    (hi : HintAt q.nodes i → Inner q.compress q.nodes.length i) :
    (q.recompressOnly zs i).Sound := by
  by_cases hh : HintAt q.nodes i
  · exact ⟨h.depth,h.ends.modify_inner (hi hh)⟩
  rw [Quicklist.recompressOnly,Quicklist.modify,modify_of_fixed]
  · exact h
  intro n hn
  have hr : n.recompress ≠ true := fun hr => hh ⟨n,hn,hr⟩
  rw [quicklistRecompressOnly,if_neg hr]

lemma Sound.modifyZl (h : q.Sound) (i : Nat) (f : Z → Z) : (q.modifyZl i f).Sound :=
  ⟨h.depth,h.ends.modify fun _ => id⟩

lemma Sound.decompressForUse (h : q.Sound) (i : Nat) :
    (q.decompressForUse i).Sound ∧ ∀ j, HintAt (q.decompressForUse i).nodes j →
      HintAt q.nodes j ∨ j = i ∧ Inner q.compress q.nodes.length i := by
  refine ⟨⟨h.depth,h.ends.modify fun n _ => n.decompress_lzf⟩,fun j ⟨n,hn,hr⟩ => ?_⟩
  obtain ⟨m,hm,rfl⟩ := getElem?_modify_eq hn
  split at hr
  · rename_i hij
    subst hij
    unfold quicklistDecompressNodeForUse at hr
    split at hr
    · exact .inr ⟨rfl,h.ends.inner hm ‹_›⟩
    · exact .inl ⟨m,hm,hr⟩
  · exact .inl ⟨m,hm,hr⟩

@[simp] lemma modify_length (f : QuicklistNode Z → QuicklistNode Z) :
    (q.modify i f).nodes.length = q.nodes.length := by
  simp [modify]

@[simp] lemma modify_compress
    (f : QuicklistNode Z → QuicklistNode Z) : (q.modify i f).compress = q.compress := rfl

lemma Sound.settled_forUse (h : q.Sound) (hs : q.Settled) (i : Nat) :
    (q.decompressForUse i).Settled := by
  intro j hj
  rw [Quicklist.decompressForUse,modify_length,modify_compress]
  rcases (h.decompressForUse i).2 j hj with hj | ⟨rfl,hi⟩
  · exact hs j hj
  · exact hi

lemma hintAt_modifyZl {f : Z → Z} {j : Nat} (h : HintAt (q.modifyZl i f).nodes j) :
    HintAt q.nodes j := by
  obtain ⟨n,hn,hr⟩ := h
  obtain ⟨m,hm,rfl⟩ := getElem?_modify_eq hn
  refine ⟨m,hm,?_⟩
  split at hr
  · exact hr
  · exact hr

lemma Settled.modifyZl (h : q.Settled) (i : Nat) (f : Z → Z) : (q.modifyZl i f).Settled := by
  intro j hj
  rw [Quicklist.modifyZl,modify_length,modify_compress]
  exact h j (hintAt_modifyZl hj)

section InsertNode
variable {old : Nat} {new : QuicklistNode Z}

lemma getElem?_insert_old (ns : List (QuicklistNode Z))
    :
    (ns.insertIdx (if after then old + 1 else old) new)[if after then old else old + 1]? =
      ns[old]? := by
  rw [getElem?_insertIdx]
  cases after with
  | true => simp
  | false =>
    have hlt : ¬old + 1 < old := by omega
    simp [hlt]

lemma Sound.insertNode (h : q.Sound) (hnew : new.lzf = false) (hold : old < q.nodes.length)
    (after : Bool) (hi : HintAt q.nodes old →
      Inner q.compress (q.nodes.length + 1) (if after then old else old + 1)) :
    (q.quicklistInsertNode zs old new after).Sound := by
  have hat : (if after then old + 1 else old) ≤ q.nodes.length := by
    split <;> omega
  have hlen := length_insertIdx_of_le_length hat new
  have hs : Sound { q with nodes := q.nodes.insertIdx (if after then old + 1 else old) new } :=
    ⟨h.depth,h.ends.insertIdx hnew hat⟩
  simp only [quicklistInsertNode,Quicklist.quicklistCompress,getElem?_insert_old]
  split
  · exact hs
  rename_i n hn
  split
  · apply hs.compress_inner
    simp only
    rw [hlen]
    exact hi ⟨n,hn,‹_›⟩
  by_cases hl : q.compress * 2 ≤ q.nodes.length
  · refine compressDepth_sound zs hs.depth hl ?_ _
    simp only
    omega
  rw [compressDepth_eq,if_pos (.inr (by simp only; omega))]
  exact hs

lemma HintFree.insertNode (h : q.HintFree) (hnew : new.recompress = false) (after : Bool) :
    (q.quicklistInsertNode zs old new after).HintFree := by
  refine (compress_same zs _ _ _).hintFree fun j hj => ?_
  rcases hj.insertIdx hnew with ⟨_,hj⟩ | ⟨_,hj⟩
  · exact h _ hj
  · exact h _ hj

end InsertNode

lemma Sound.delNode (h : q.Sound) (i : Nat) : (q.quicklistDelNode zs i).Sound := by
  have hlen : q.nodes.length ≤ (q.nodes.eraseIdx i).length + 1 := by
    rw [length_eraseIdx]
    split <;> omega
  by_cases hl : q.compress * 2 ≤ q.nodes.length
  · refine compressDepth_sound zs (q := { q with nodes := q.nodes.eraseIdx i }) h.depth hl ?_ none
    simp only
    omega
  rw [quicklistDelNode,compressDepth_eq,if_pos (.inr (by simp only; omega))]
  exact ⟨h.depth,endsRaw_of_all fun j => .eraseIdx (h.ends.short (by omega))⟩

lemma hintAt_delNode {j : Nat} (h : HintAt (q.quicklistDelNode zs i).nodes j) :
    j < i ∧ HintAt q.nodes j ∨ i ≤ j ∧ HintAt q.nodes (j+1) :=
  ((compressDepth_same zs _ _ _).nodes.hints j h).eraseIdx

lemma HintFree.delNode (h : q.HintFree) (i : Nat) : (q.quicklistDelNode zs i).HintFree := by
  intro j hj
  rcases hintAt_delNode zs hj with ⟨_,hj⟩ | ⟨_,hj⟩
  · exact h _ hj
  · exact h _ hj

lemma setOrDelNode_cases (q : Quicklist Z) (i : Nat) (z : Z) :
    q.setOrDelNode zs i z = (true,q.quicklistDelNode zs i) ∨
      zs.entries z ≠ [] ∧ q.setOrDelNode zs i z = (false,q.setZl i z) := by
  unfold Quicklist.setOrDelNode
  split
  · exact .inl rfl
  rename_i hz
  exact .inr ⟨fun hn => hz (isEmpty_iff.mpr hn),rfl⟩

def Filled (q : Quicklist Z) : Prop := ∀ n ∈ q.nodes, zs.entries n.zl ≠ []

lemma Filled.of_zls (h : q.Filled zs) (hz : q'.nodes.map (·.zl) = q.nodes.map (·.zl)) :
    q'.Filled zs := by
  intro n hn
  have hm : n.zl ∈ q.nodes.map (·.zl) := by
    rw [← hz]
    exact mem_map_of_mem hn
  obtain ⟨m,hm,hzl⟩ := mem_map.mp hm
  rw [← hzl]
  exact h m hm

lemma entries_single_ne_nil (v : V) : zs.entries (zs.single v) ≠ [] := by
  rw [zs.entries_single]
  simp

lemma entries_insert_ne_nil {z : Z} (h : zs.entries z ≠ []) (i : Nat) (v : V) :
    zs.entries (zs.insert z i v) ≠ [] := by
  rw [zs.entries_insert,← length_pos_iff]
  rw [← length_pos_iff] at h
  rw [length_insertIdx]
  split <;> omega

lemma entries_insert_of_le {z : Z} (h : i ≤ (zs.entries z).length) (v : V) :
    zs.entries (zs.insert z i v) ≠ [] := by
  rw [zs.entries_insert,← length_pos_iff,length_insertIdx_of_le_length h]
  omega

structure Whole (q : Quicklist Z) : Prop extends Sound q where
  filled : q.Filled zs

namespace Whole

section
variable (h : q.Whole zs)
include h

lemma recode (hs : q'.Sound) (hq : Same q q') : q'.Whole zs :=
  ⟨hs,h.filled.of_zls zs hq.nodes.zls⟩

lemma compress (hi : HintAt q.nodes i → Inner q.compress q.nodes.length i) :
    (q.quicklistCompress zs q.nodes.length i).Whole zs :=
  h.recode zs (h.quicklistCompress zs hi) (compress_same zs q _ i)

lemma recompress (hi : HintAt q.nodes i → Inner q.compress q.nodes.length i) :
    (q.recompressOnly zs i).Whole zs :=
  h.recode zs (h.recompressOnly zs hi) (recompressOnly_same zs q i)

lemma forUse (i : Nat) : (q.decompressForUse i).Whole zs :=
  ⟨(h.decompressForUse i).1,h.filled.of_zls zs (map_zl_modify fun n => n.decompress_zl)⟩

lemma change {f : Z → Z}
    (hf : ∀ n, q.nodes[i]? = some n → zs.entries (f n.zl) ≠ []) : (q.modifyZl i f).Whole zs := by
  refine ⟨h.modifyZl i f,fun n hn => ?_⟩
  obtain ⟨j,hj⟩ := mem_iff_getElem?.mp hn
  obtain ⟨m,hm,rfl⟩ := getElem?_modify_eq hj
  split
  · rename_i hij
    subst hij
    exact hf m hm
  · exact h.filled m (mem_of_getElem? hm)

lemma setZl (i : Nat) {z : Z} (hz : zs.entries z ≠ []) :
    (q.setZl i z).Whole zs := h.change zs fun _ _ => hz

lemma insert (f : Z → Nat) (v : V) : (q.modifyZl i fun z => zs.insert z (f z) v).Whole zs :=
  h.change zs fun n hn => entries_insert_ne_nil zs (h.filled n (mem_of_getElem? hn)) _ v

lemma addNode {old : Nat} {new : QuicklistNode Z}
    (hs : (q.quicklistInsertNode zs old new after).Sound) (hnew : zs.entries new.zl ≠ []) :
    (q.quicklistInsertNode zs old new after).Whole zs := by
  refine ⟨hs,Filled.of_zls zs ?_ (compress_same zs _ _ _).nodes.zls⟩
  intro n hn
  rcases eq_or_mem_of_mem_insertIdx hn with rfl | hn
  · exact hnew
  · exact h.filled n hn

lemma dropNode (i : Nat) : (q.quicklistDelNode zs i).Whole zs := by
  refine ⟨h.delNode zs i,Filled.of_zls zs ?_ (compressDepth_same zs _ _ _).nodes.zls⟩
  exact fun n hn => h.filled n (mem_of_mem_eraseIdx hn)

lemma setOrDelNode (i : Nat) (z : Z) : (q.setOrDelNode zs i z).2.Whole zs := by
  rcases setOrDelNode_cases zs q i z with hz | ⟨hne,hz⟩
  · rw [hz]
    exact h.dropNode zs i
  rw [hz]
  exact h.setZl zs i hne

end

end Whole

lemma Sound.endIndex_raw (h : q.Sound) (side : QuicklistWhere) : RawAt q.nodes (q.endIndex side) := by
  cases side with
  | head => exact h.ends.first
  | tail => exact h.ends.last

lemma Settled.endIndex (h : q.Settled) (side : QuicklistWhere) :
    ¬HintAt q.nodes (q.endIndex side) := by
  intro hh
  have hi := h _ hh
  obtain ⟨n,hn,_⟩ := hh
  have hlt := (List.getElem?_eq_some_iff.mp hn).1
  cases side with
  | head => exact hi.1 rfl
  | tail =>
    refine hi.2.1 ?_
    unfold Quicklist.endIndex at hlt ⊢
    simp only at hlt ⊢
    omega

namespace Whole

lemma push (h : q.Whole zs) (hs : q.Settled) (side : QuicklistWhere) (v : V) :
    ∃ q', q.quicklistPush zs side v = .ok q' ∧ q'.Whole zs := by
  unfold quicklistPush
  split
  · refine ⟨_,rfl,⟨h.depth,endsRaw_of_all fun i n hn => ?_⟩,fun n hn => ?_⟩
    · cases i with
      | zero =>
        cases hn
        rfl
      | succ i => cases hn
    cases mem_singleton.mp hn
    exact entries_single_ne_nil zs v
  rename_i n hn
  have hlt := (List.getElem?_eq_some_iff.mp hn).1
  split
  · refine ⟨q.setZl (q.endIndex side) (zs.insert n.zl (endOffset side (n.count zs)) v),?_,
      h.setZl zs _ ?_⟩
    · rw [ziplist,h.endIndex_raw side n hn]
      rfl
    · exact entries_insert_ne_nil zs (h.filled n (mem_of_getElem? hn)) _ v
  exact ⟨_,rfl,h.addNode zs (h.insertNode zs rfl hlt _ fun hh => absurd hh (hs.endIndex side))
    (entries_single_ne_nil zs v)⟩

lemma pop (h : q.Whole zs) (side : QuicklistWhere) :
    ∃ v q', q.quicklistPopCustom zs side = .ok (v,q') ∧ q'.Whole zs := by
  unfold quicklistPopCustom
  split
  · exact ⟨none,q,rfl,h⟩
  rename_i n hn
  rw [ziplist,h.endIndex_raw side n hn]
  simp only [false_eq_true,if_false,bind,Except.bind]
  split
  · exact ⟨none,q,rfl,h⟩
  · exact ⟨_,_,rfl,h.setOrDelNode zs _ _⟩

lemma index (h : q.Whole zs) (idx : Int) : (q.quicklistIndex zs idx).2.Whole zs := by
  unfold quicklistIndex
  split
  · exact h
  · exact h.forUse zs _

lemma lookup (h : q.Whole zs) (idx : Int) : (q.lookup zs idx).2.Whole zs := by
  have hi := h.index zs idx
  unfold Quicklist.lookup
  split
  · rename_i he
    rw [he] at hi
    exact hi
  rename_i he
  rw [he] at hi
  exact hi

end Whole

lemma Sound.settled_index (h : q.Sound) (hs : q.Settled) (idx : Int) :
    (q.quicklistIndex zs idx).2.Settled := by
  unfold quicklistIndex
  split
  · exact hs
  · exact h.settled_forUse hs _

lemma entries_replace_ne_nil {z : Z} (h : zs.entries z ≠ []) (pos : Nat) (v : V) :
    zs.entries (zs.insert (zs.deleteRange z pos 1) pos v) ≠ [] := by
  have hpos := length_pos_iff.mpr h
  rcases lt_or_ge pos (zs.entries z).length with hlt | hge
  · apply entries_insert_of_le
    rw [zs.entries_deleteRange,length_append,length_take,length_drop]
    omega
  apply entries_insert_ne_nil
  rw [zs.entries_deleteRange,take_of_length_le hge]
  exact append_ne_nil_of_left_ne_nil h _

namespace Whole

lemma replace (h : q.Whole zs) (hs : q.Settled) (idx : Int) (v : V) :
    (q.quicklistReplaceAtIndex zs idx v).2.Whole zs := by
  have hi := h.index zs idx
  have hsi := h.settled_index zs hs idx
  unfold quicklistReplaceAtIndex
  split
  · rename_i he
    rw [he] at hi
    exact hi
  rename_i q' he
  rw [he] at hi hsi
  refine Whole.compress zs (hi.change zs fun n hn => ?_) ((hsi.modifyZl _ _) _)
  exact entries_replace_ne_nil zs (hi.filled n (mem_of_getElem? hn)) _ v

lemma leave (h : q.Whole zs) (hs : q.Settled) (i : Nat) :
    (q.quicklistCompress zs q.nodes.length i).Whole zs ∧
      (q.quicklistCompress zs q.nodes.length i).Settled :=
  ⟨h.compress zs (hs i),(compress_same zs q _ i).settled hs⟩

lemma rangeLoop (h : q.Whole zs) (hs : q.Settled) (nodes i offset len : Nat) :
    (q.rangeLoop zs nodes i offset len).2.Whole zs := by
  induction nodes generalizing q i offset len with
  | zero => exact h
  | succ nodes ih =>
    have hu := h.forUse zs i
    have hsu := h.settled_forUse hs i
    rw [Quicklist.rangeLoop]
    split
    · exact hu
    obtain ⟨hl,hsl⟩ := hu.leave zs hsu i
    exact ih hl hsl _ _ _

lemma rangeCommand (h : q.Whole zs) (hs : q.Settled) (start stop : Int) :
    (q.rangeCommand zs start stop).2.Whole zs := by
  unfold Quicklist.rangeCommand
  split
  · exact h
  rename_i start _ _
  have hi := h.index zs start.toNat
  have hsi := h.settled_index zs hs start.toNat
  unfold range
  split
  · rename_i he
    rw [he] at hi
    exact hi
  rename_i he
  rw [he] at hi hsi
  exact hi.rangeLoop zs hsi _ _ _ _

end Whole

structure Clean (q : Quicklist Z) : Prop where
  sound : q.Sound
  free : q.HintFree

structure Tidy (q : Quicklist Z) : Prop extends Clean q where
  filled : q.Filled zs

namespace Tidy

lemma of_whole (h : q.Whole zs) (hf : q.HintFree) : q.Tidy zs := ⟨⟨h.toSound,hf⟩,h.filled⟩

section
variable (h : q.Tidy zs)
include h

lemma whole : q.Whole zs := ⟨h.sound,h.filled⟩

lemma recode (hs : q'.Sound) (hq : Same q q') : q'.Tidy zs :=
  of_whole zs (h.whole.recode zs hs hq) (hq.hintFree h.free)

lemma decompress (i : Nat) : (q.modify i (·.quicklistDecompressNode)).Tidy zs :=
  h.recode zs ⟨h.sound.depth,h.sound.ends.modify fun _ _ => rfl⟩ ⟨recoded_decompress _ _,rfl,rfl⟩

lemma setZl (i : Nat) {z : Z} (hz : zs.entries z ≠ []) : (q.setZl i z).Tidy zs :=
  of_whole zs (h.whole.setZl zs i hz) fun j hj => h.free j (hintAt_modifyZl hj)

lemma delNode (i : Nat) : (q.quicklistDelNode zs i).Tidy zs :=
  of_whole zs (h.whole.dropNode zs i) (h.free.delNode zs i)

lemma compress (i : Nat) : (q.quicklistCompress zs q.nodes.length i).Tidy zs :=
  h.recode zs (h.sound.quicklistCompress zs fun hi => absurd hi (h.free i)) (compress_same zs q _ i)

lemma ziplistMerge (i : Nat) : (q.quicklistZiplistMerge zs i).Tidy zs := by
  have hd := (h.decompress zs i).decompress zs (i+1)
  simp only [quicklistZiplistMerge]
  split
  · rename_i a b ha hb
    have hz : zs.entries (zs.merge a.zl b.zl) ≠ [] := by
      rw [zs.entries_merge]
      exact append_ne_nil_of_left_ne_nil (hd.filled a (mem_of_getElem? ha)) _
    split <;> exact ((hd.setZl zs _ hz).delNode zs _).compress zs i
  · exact hd

lemma mergeIfAllowed (i : Nat) : (q.mergeIfAllowed zs i).2.Tidy zs := by
  unfold Quicklist.mergeIfAllowed
  split
  · split
    · exact h.ziplistMerge zs i
    · exact h
  · exact h

lemma mergeNodes (center : Nat) : (q.quicklistMergeNodes zs center).Tidy zs := by
  have hif : ∀ {q : Quicklist Z} (p : Prop) [Decidable p] (i : Nat), q.Tidy zs →
      (if p then q.mergeIfAllowed zs i else (false,q)).2.Tidy zs := by
    intro q p _ i hq
    split
    · exact hq.mergeIfAllowed zs i
    · exact hq
  exact Tidy.mergeIfAllowed zs (hif _ _ ((hif _ _ h).mergeIfAllowed zs _)) _

lemma insertNode {old : Nat} {new : QuicklistNode Z} (hl : new.lzf = false)
    (hr : new.recompress = false) (hz : zs.entries new.zl ≠ []) (hold : old < q.nodes.length)
    (after : Bool) : (q.quicklistInsertNode zs old new after).Tidy zs :=
  of_whole zs (h.whole.addNode zs
    (h.sound.insertNode zs hl hold after fun hi => absurd hi (h.free old)) hz)
    (h.free.insertNode zs hr after)

end

end Tidy

variable {offset : Nat}

lemma lt_entriesAt (h : offset < (q.entriesAt zs i).length) :
    ∃ n, q.nodes[i]? = some n ∧ offset < (zs.entries n.zl).length := by
  unfold entriesAt at h
  split at h
  · cases h
  · exact ⟨_,‹_›,h⟩

lemma Tidy.splitNode (h : q.Tidy zs) (ho : offset < (q.entriesAt zs i).length)
    (v : V) (after : Bool) : (q.quicklistSplitNode zs i offset v after).Tidy zs := by
  obtain ⟨n,hn,ho⟩ := lt_entriesAt zs ho
  have hlt := (List.getElem?_eq_some_iff.mp hn).1
  simp only [quicklistSplitNode,hn,QuicklistNode.count]
  refine Tidy.mergeNodes zs (Tidy.insertNode zs (h.setZl zs i ?_) rfl rfl ?_
    (by simpa [Quicklist.setZl,modifyZl] using hlt) after) _
  · cases after with
    | true =>
      rw [if_pos rfl,zs.entries_deleteRange,← length_pos_iff,length_append,length_take]
      omega
    | false =>
      rw [if_neg (by simp),zs.entries_deleteRange,← length_pos_iff,length_append,length_drop]
      omega
  · cases after with
    | true => exact entries_insert_of_le zs (Nat.zero_le _) v
    | false =>
      apply entries_insert_of_le
      rw [zs.entries_deleteRange,length_append,length_take]
      omega

lemma Whole.insertEntry {v : V} (h : q.Whole zs) (hs : q.Settled)
    (ho : offset < (q.entriesAt zs i).length)
    (hsplit : q.splits zs i offset v after = true → q.HintFree) :
    (q.insertEntry zs i offset v after).Whole zs := by
  unfold Quicklist.insertEntry
  split
  · exact (h.insert zs (fun _ => if after then offset + 1 else offset) v).recompress zs
      ((hs.modifyZl _ _) _)
  split
  · exact ((Tidy.of_whole zs h (hsplit ‹_›)).splitNode zs ho v after).whole
  split
  · have hu := h.forUse zs (i - 1)
    have hsu := h.settled_forUse hs (i - 1)
    exact (hu.insert zs (fun z => (zs.entries z).length) v).recompress zs ((hsu.modifyZl _ _) _)
  obtain ⟨n,hn,_⟩ := lt_entriesAt zs ho
  have hi := (List.getElem?_eq_some_iff.mp hn).1
  refine h.addNode zs (h.insertNode zs rfl hi after fun hh => ?_) (entries_single_ne_nil zs v)
  obtain ⟨h0,h1,hl⟩ := hs i hh
  refine ⟨?_,?_,by omega⟩
  · split <;> omega
  · split <;> omega

variable [DecidableEq V]

lemma Whole.seekPivot (h : q.Whole zs) (hs : q.Settled) (pivot : V) (nodes i : Nat) :
    (q.seekPivot zs pivot nodes i).2.Whole zs ∧ (q.seekPivot zs pivot nodes i).2.Settled ∧
      ∀ p, (q.seekPivot zs pivot nodes i).1 = some p →
        p.2 < ((q.seekPivot zs pivot nodes i).2.entriesAt zs p.1).length := by
  induction nodes generalizing q i with
  | zero => exact ⟨h,hs,fun p hp => by cases hp⟩
  | succ nodes ih =>
    have hu := h.forUse zs i
    have hsu := h.settled_forUse hs i
    rw [Quicklist.seekPivot]
    split
    · rename_i offset hfound
      refine ⟨hu,hsu,fun p hp => ?_⟩
      cases hp
      exact (findIdx?_eq_some_iff_getElem.mp hfound).1
    obtain ⟨hl,hsl⟩ := hu.leave zs hsu i
    exact ih hl hsl (i+1)

lemma Whole.insertCommand (h : q.Whole zs) (hs : q.Settled) {pivot v : V}
    (hsplit : ∀ i offset q', q.seekPivot zs pivot q.nodes.length 0 = (some (i,offset),q') →
      q'.splits zs i offset v after = true → q'.HintFree) :
    (q.insertCommand zs pivot v after).2.Whole zs := by
  obtain ⟨hq,hsq,hlt⟩ := h.seekPivot zs hs pivot q.nodes.length 0
  unfold Quicklist.insertCommand
  split
  · rename_i he
    rw [he] at hq
    exact hq
  rename_i i offset q' he
  rw [he] at hq hsq hlt
  exact hq.insertEntry zs hsq (hlt _ rfl) (hsplit i offset q' he)

omit [DecidableEq V]

def Ahead (back : Bool) (i : Nat) (q : Quicklist Z) : Prop :=
  ∀ j, (if back then j ≤ i else i ≤ j) → HintAt q.nodes j →
    j = i ∧ Inner q.compress q.nodes.length i

lemma HintFree.ahead (h : q.HintFree) : q.Ahead back i :=
  fun j _ hj => absurd hj (h j)

lemma Sound.ahead_forUse (h : q.Sound) (ha : q.Ahead back i) :
    (q.decompressForUse i).Ahead back i := by
  intro j hj hh
  rw [Quicklist.decompressForUse,modify_length,modify_compress]
  rcases (h.decompressForUse i).2 j hh with hh | hi
  · exact ha j hj hh
  · exact hi

section
variable (h : q.Ahead back i)
include h

lemma Ahead.inner (hi : HintAt q.nodes i) : Inner q.compress q.nodes.length i := by
  refine (h i ?_ hi).2
  split <;> exact le_refl i

lemma Ahead.setZl (z : Z) : (q.setZl i z).Ahead back i := by
  intro j hj hh
  rw [Quicklist.setZl,modifyZl,modify_length,modify_compress]
  exact h j hj (hintAt_modifyZl hh)

lemma Ahead.same (hq : Same q q') : q'.Ahead back i := by
  intro j hj hh
  rw [hq.compress,hq.nodes.length]
  exact h j hj (hq.nodes.hints j hh)

lemma Ahead.next (hi : back = true → 0 < i) : q.Ahead back (if back then i - 1 else i + 1) := by
  intro j hj hh
  have hne : j ≠ i := by
    cases back with
    | true =>
      have hpos := hi rfl
      simp only [if_true] at hj
      omega
    | false =>
      simp only [false_eq_true,if_false] at hj
      omega
  refine absurd (h j ?_ hh).1 hne
  cases back with
  | true =>
    simp only [if_true] at hj ⊢
    omega
  | false =>
    simp only [false_eq_true,if_false] at hj ⊢
    omega

lemma Ahead.delNode (hi : back = true → 0 < i) :
    (q.quicklistDelNode zs i).Ahead back (if back then i - 1 else i) := by
  intro j hj hh
  cases back with
  | true =>
    have hpos := hi rfl
    simp only [if_true] at hj
    obtain ⟨_,hh⟩ := (hintAt_delNode zs hh).resolve_right fun hc => by omega
    have hji := (h j (by simp only [if_true]; omega) hh).1
    omega
  | false =>
    simp only [false_eq_true,if_false] at hj
    obtain ⟨_,hh⟩ := (hintAt_delNode zs hh).resolve_left fun hc => by omega
    have hji := (h (j+1) (by simp only [false_eq_true,if_false]; omega) hh).1
    omega

end

lemma Tidy.index (h : q.Tidy zs) {idx : Int} (back : Bool)
    (he : q.quicklistIndex zs idx = (some p,q')) : q'.Whole zs ∧ q'.Ahead back p.1 := by
  unfold quicklistIndex at he
  split at he
  · cases he
  cases he
  exact ⟨h.whole.forUse zs _,h.sound.ahead_forUse (h.free.ahead)⟩

lemma Whole.remLoop [DecidableEq V] {v : V} {toremove removed nodes : Nat} (h : q.Whole zs)
    (ha : 0 < nodes → q.Ahead back i) (hn : back = true → nodes ≤ i + 1) :
    (q.remLoop zs v toremove back nodes i removed).2.Whole zs := by
  induction nodes generalizing q i removed with
  | zero => exact h
  | succ nodes ih =>
    have hu := h.forUse zs i
    have hau := h.ahead_forUse (ha (by omega))
    rw [Quicklist.remLoop]
    generalize q.decompressForUse i = q at hu hau
    split
    · exact hu
    rename_i n hnode
    simp only
    generalize remEntries zs v toremove back
      (if back then (zs.entries n.zl).reverse else zs.entries n.zl) 0 n.zl removed = r
    -- the node is deleted, or it is kept with fewer entries
    rcases setOrDelNode_cases zs q i r.1 with hz | ⟨hne,hz⟩
    · rw [hz]
      simp only [if_true]
      split
      · exact hu.dropNode zs i
      exact ih (hu.dropNode zs i) (fun hpos => hau.delNode zs fun hb => by have hle := hn hb; omega)
        (fun hb => by rw [hb] at hn ⊢; have hle := hn rfl; simp only [if_true]; omega)
    rw [hz]
    simp only [false_eq_true,if_false]
    have hcut := hu.setZl zs i hne
    split
    · exact hcut
    have hset := hau.setZl r.1
    refine ih (hcut.compress zs hset.inner) (fun hpos => ?_) fun hb => ?_
    · exact (hset.same (compress_same zs _ _ i)).next fun hb => by have hle := hn hb; omega
    rw [hb] at hn ⊢
    have hle := hn rfl
    simp only [if_true]
    omega

lemma Tidy.remCommand [DecidableEq V] (h : q.Tidy zs) (toremove : Int) (v : V) :
    (q.remCommand zs toremove v).2.Whole zs := by
  have hi := h.whole.index zs (if toremove < 0 then -1 else 0)
  unfold Quicklist.remCommand
  simp only
  split
  · rename_i he
    rw [he] at hi
    exact hi
  rename_i i offset q' he
  obtain ⟨hs,ha⟩ := h.index zs (toremove < 0) he
  refine hs.remLoop zs (fun _ => ha) fun hb => ?_
  exact le_of_eq (if_pos (of_decide_eq_true hb))

lemma Whole.delRangeLoop {nodes extent : Nat} {offset : Int} (h : q.Whole zs)
    (ha : q.Ahead false i) : (q.delRangeLoop zs nodes i offset extent).Whole zs := by
  induction nodes generalizing q i offset extent with
  | zero => exact h
  | succ nodes ih =>
    rw [Quicklist.delRangeLoop]
    split
    · exact h
    split
    · exact h
    rename_i n hn
    simp only
    split
    · exact ih (h.dropNode zs i) (ha.delNode zs (by simp))
    have hu := h.forUse zs i
    have hau := h.ahead_forUse ha
    generalize (if offset ≥ 0 ∧ extent ≥ n.count zs then n.count zs - offset.toNat
      else if offset < 0 then min (-offset).toNat extent else extent) = del
    generalize zs.deleteRange n.zl (position offset (n.count zs)) del = z
    rcases setOrDelNode_cases zs (q.decompressForUse i) i z with hz | ⟨hne,hz⟩
    · rw [hz]
      exact ih (hu.dropNode zs i) (hau.delNode zs (by simp))
    rw [hz]
    have hset := hau.setZl z
    refine ih (Whole.recompress zs (hu.setZl zs i hne) hset.inner) ?_
    exact (hset.same (recompressOnly_same zs _ i)).next (by simp)

lemma Tidy.delRange (h : q.Tidy zs) (start : Int) (count : Nat) :
    (q.quicklistDelRange zs start count).Whole zs := by
  have hi := h.whole.index zs start
  unfold quicklistDelRange
  split
  · exact h.whole
  simp only
  split
  · rename_i he
    rw [he] at hi
    exact hi
  rename_i i offset q' he
  obtain ⟨hs,ha⟩ := h.index zs false he
  exact hs.delRangeLoop zs ha

lemma Tidy.forUse_head (h : q.Tidy zs) : (q.decompressForUse 0).Tidy zs := by
  refine .of_whole zs (h.whole.forUse zs 0) fun j hj => ?_
  rcases (h.sound.decompressForUse 0).2 j hj with hj | ⟨_,hi⟩
  · exact h.free j hj
  · exact hi.1 rfl

lemma Tidy.delRangeLoop (h : q.Tidy zs) (nodes extent : Nat) :
    (q.delRangeLoop zs nodes 0 0 extent).Tidy zs := by
  induction nodes generalizing q extent with
  | zero => exact h
  | succ nodes ih =>
    rw [Quicklist.delRangeLoop]
    split
    · exact h
    split
    · exact h
    rename_i n hn
    simp only
    split
    · exact ih (h.delNode zs 0) _
    rename_i hpart
    have hlt : ¬((0 : Int) ≥ 0 ∧ extent ≥ n.count zs) := by
      simpa using hpart
    have hneg : ¬(0 : Int) < 0 := by omega
    rw [if_neg hlt,if_neg hneg]
    have hu := h.forUse_head zs
    generalize zs.deleteRange n.zl (position 0 (n.count zs)) extent = z
    rw [Nat.sub_self]
    rcases setOrDelNode_cases zs (q.decompressForUse 0) 0 z with hz | ⟨hne,hz⟩
    · rw [hz]
      exact ih (hu.delNode zs 0) 0
    rw [hz]
    have hset := hu.setZl zs 0 hne
    have hre := hset.recode zs (hset.sound.recompressOnly zs fun hi => absurd hi (hset.free 0))
      (recompressOnly_same zs _ 0)
    -- nothing is left to delete
    cases nodes with
    | zero => exact hre
    | succ nodes =>
      simp only [false_eq_true,if_false,Quicklist.delRangeLoop,if_true]
      exact hre

lemma find_zero (h : q.Filled zs) (hp : q.find zs 0 = some p) : p = (0,0) := by
  unfold find at hp
  rw [if_neg (by omega)] at hp
  obtain ⟨p',hp',rfl⟩ := map_eq_some_iff.mp hp
  cases hn : q.nodes with
  | nil =>
    rw [hn] at hp'
    cases hp'
  | cons n ns =>
    have hpos : n.count zs > 0 := length_pos_of_ne_nil (h n (by rw [hn]; simp))
    rw [hn,map_cons,locate,Int.toNat_zero,if_pos hpos] at hp'
    cases hp'
    rfl

lemma Tidy.delRange_zero (h : q.Tidy zs) (count : Nat) :
    (q.quicklistDelRange zs 0 count).Tidy zs := by
  unfold quicklistDelRange
  split
  · exact h
  simp only [quicklistIndex]
  cases hfind : q.find zs 0 with
  | none => exact h
  | some p =>
    cases find_zero zs h.filled hfind
    exact (h.forUse_head zs).delRangeLoop zs _ _

lemma Tidy.trimCommand (h : q.Tidy zs) (start stop : Int) :
    (q.trimCommand zs start stop).Whole zs := by
  unfold Quicklist.trimCommand
  simp only
  exact (h.delRange_zero zs _).delRange zs _ _

end Quicklist
end RedRock
