import RedRock.QuicklistEnds

/-!
What a compressed list holds is what the list without compression holds.
-/

namespace RedRock
open Lib List Option QuicklistNode

namespace Quicklist
variable {Z V : Type} (zs : ZiplistOps Z V) {q q' : Quicklist Z} {i : Nat}
variable {side : QuicklistWhere} {n : QuicklistNode Z} {z : Z} {v : Option V} {offset : Nat}

def erase (q : Quicklist Z) : Quicklist Z :=
  ⟨q.nodes.map fun n => .quicklistCreateNode n.zl,q.fill,0⟩

lemma erase_of_zls (hz : q'.nodes.map (·.zl) = q.nodes.map (·.zl)) (hf : q'.fill = q.fill) :
    q'.erase = q.erase := by
  have hz := congrArg (List.map quicklistCreateNode) hz
  rw [List.map_map,List.map_map] at hz
  simp only [Quicklist.erase,hf]
  exact congrArg (fun ns => (⟨ns,q.fill,0⟩ : Quicklist Z)) hz

lemma Same.erase (h : Same q q') : q'.erase = q.erase := erase_of_zls h.nodes.zls h.fill

lemma erase_nodes_raw (h : q.erase.nodes[i]? = some n) : n.lzf = false ∧ n.recompress = false := by
  obtain ⟨m,_,rfl⟩ := List.mem_map.mp (mem_of_getElem? h)
  exact ⟨rfl,rfl⟩

section
variable (i)

@[simp] lemma decompressForUse_erase : q.erase.decompressForUse i = q.erase := by
  rw [decompressForUse,modify,modify_of_fixed]
  intro n hn
  simp [quicklistDecompressNodeForUse,(erase_nodes_raw hn).1]

@[simp] lemma decompress_erase : q.erase.modify i (·.quicklistDecompressNode) = q.erase := by
  rw [modify,modify_of_fixed]
  rintro ⟨z,lzf,r⟩ hn
  cases (erase_nodes_raw hn).1
  rfl

@[simp] lemma recompressOnly_erase : q.erase.recompressOnly zs i = q.erase := by
  rw [recompressOnly,modify,modify_of_fixed]
  intro n hn
  simp [quicklistRecompressOnly,(erase_nodes_raw hn).2]

@[simp] lemma compressDepth_erase (len : Nat) (node : Option Nat) :
    q.erase.compressDepth zs len node = q.erase := by
  rw [compressDepth,if_pos (.inl rfl)]

@[simp] lemma compress_erase (len i : Nat) : q.erase.quicklistCompress zs len i = q.erase := by
  unfold quicklistCompress
  split
  · rfl
  rename_i n hn
  rw [(erase_nodes_raw hn).2]
  exact compressDepth_erase zs len (some i)

@[simp] lemma erase_decompressForUse : (q.decompressForUse i).erase = q.erase :=
  erase_of_zls (map_zl_modify fun n => n.decompress_zl) rfl

@[simp] lemma erase_quicklistCompress (len i : Nat) :
    (q.quicklistCompress zs len i).erase = q.erase := (compress_same zs q len i).erase

@[simp] lemma erase_recompressOnly : (q.recompressOnly zs i).erase = q.erase :=
  (recompressOnly_same zs q i).erase

@[simp] lemma erase_modifyZl (f : Z → Z) : (q.modifyZl i f).erase = q.erase.modifyZl i f := by
  exact congrArg (fun ns => (⟨ns,q.fill,0⟩ : Quicklist Z)) (map_modify_comm q.nodes i fun _ => rfl)

@[simp] lemma erase_setZl (z : Z) : (q.setZl i z).erase = q.erase.setZl i z := erase_modifyZl i _

@[simp] lemma erase_length : q.erase.nodes.length = q.nodes.length := by
  simp [erase]

lemma erase_getElem? :
    q.erase.nodes[i]? = q.nodes[i]?.map fun n => .quicklistCreateNode n.zl := by
  simp [erase]

@[simp] lemma erase_endIndex (side : QuicklistWhere) :
    q.erase.endIndex side = q.endIndex side := by
  cases side with
  | head => rfl
  | tail => simp [endIndex]

@[simp] lemma erase_entriesAt : q.erase.entriesAt zs i = q.entriesAt zs i := by
  rw [entriesAt,erase_getElem?,entriesAt]
  cases q.nodes[i]? with
  | none | some => rfl

lemma erase_counts : q.erase.nodes.map (·.count zs) = q.nodes.map (·.count zs) := by
  simp [erase,QuicklistNode.count,QuicklistNode.quicklistCreateNode,Function.comp_def]

@[simp] lemma erase_quicklistCount : q.erase.quicklistCount zs = q.quicklistCount zs := by
  rw [quicklistCount,erase_counts,quicklistCount]

@[simp] lemma erase_find (idx : Int) : q.erase.find zs idx = q.find zs idx := by
  simp only [find,erase_counts,erase_length]

@[simp] lemma erase_allowInsertAt (v : V) :
    q.erase.allowInsertAt zs i v = q.allowInsertAt zs i v := by
  rw [allowInsertAt,erase_getElem?,allowInsertAt]
  cases q.nodes[i]? with
  | none | some => rfl

@[simp] lemma erase_splits (i offset : Nat) (v : V) (after : Bool) :
    q.erase.splits zs i offset v after = q.splits zs i offset v after := by
  simp only [splits,erase_allowInsertAt]

lemma erase_insertNode (old : Nat) (new : QuicklistNode Z) (after : Bool) :
    (q.quicklistInsertNode zs old new after).erase =
      q.erase.quicklistInsertNode zs old (.quicklistCreateNode new.zl) after := by
  have hins : ∀ k, ({ q.erase with
      nodes := q.erase.nodes.insertIdx k (.quicklistCreateNode new.zl) } : Quicklist Z) =
        ({ q with nodes := q.nodes.insertIdx k new } : Quicklist Z).erase := by
    intro k
    simp only [erase]
    rw [map_insertIdx]
  simp only [quicklistInsertNode,erase_quicklistCompress]
  rw [hins,compress_erase]

lemma erase_delNode : (q.quicklistDelNode zs i).erase = q.erase.quicklistDelNode zs i := by
  have hdel : ({ q.erase with nodes := q.erase.nodes.eraseIdx i } : Quicklist Z) =
      ({ q with nodes := q.nodes.eraseIdx i } : Quicklist Z).erase := by
    simp only [erase]
    rw [eraseIdx_map]
  rw [quicklistDelNode,quicklistDelNode,hdel,compressDepth_erase]
  exact (compressDepth_same zs _ _ _).erase

lemma erase_setOrDelNode (z : Z) : q.erase.setOrDelNode zs i z =
    (q.setOrDelNode zs i z).map id erase := by
  unfold setOrDelNode
  split
  · rw [Prod.map,erase_delNode]
    rfl
  rw [Prod.map,erase_setZl]
  rfl

lemma create_zl (z : Z) : (quicklistCreateNode z).zl = z := (rfl)

lemma create_count (n : QuicklistNode Z) :
    (quicklistCreateNode n.zl).count zs = n.count zs := (rfl)

lemma ziplist_ok (h : n.ziplist = .ok z) : z = n.zl := by
  unfold ziplist at h
  split at h
  · cases h
  cases h
  rfl

lemma erase_push {v : V} (h : q.quicklistPush zs side v = .ok q') :
    q.erase.quicklistPush zs side v = .ok q'.erase := by
  unfold quicklistPush at h ⊢
  rw [erase_endIndex,erase_getElem?]
  cases hn : q.nodes[q.endIndex side]? with
  | none =>
    simp only [hn] at h
    cases h
    rfl
  | some n =>
    simp only [hn] at h
    simp only [map_some]
    split at h
    · rename_i hroom
      obtain ⟨z,hz,h⟩ := bind_ok.mp h
      cases ziplist_ok hz
      cases h
      rw [if_pos (by exact hroom),erase_setZl]
      rfl
    rename_i hroom
    cases h
    rw [if_neg (by exact hroom),erase_insertNode]
    rfl

lemma erase_pop (h : q.quicklistPopCustom zs side = .ok (v,q')) :
    q.erase.quicklistPopCustom zs side = .ok (v,q'.erase) := by
  unfold quicklistPopCustom at h ⊢
  rw [erase_endIndex,erase_getElem?]
  cases hn : q.nodes[q.endIndex side]? with
  | none =>
    simp only [hn] at h
    cases h
    rfl
  | some n =>
    simp only [hn] at h
    simp only [map_some]
    obtain ⟨z,hz,h⟩ := bind_ok.mp h
    cases ziplist_ok hz
    have hplain : (quicklistCreateNode n.zl).ziplist = .ok n.zl := rfl
    rw [hplain,create_count]
    simp only [bind,Except.bind]
    split at h
    · cases h
      rfl
    cases h
    rw [erase_setOrDelNode]
    rfl

lemma erase_index (idx : Int) : q.erase.quicklistIndex zs idx =
    (q.quicklistIndex zs idx).map id erase := by
  unfold quicklistIndex
  rw [erase_find]
  cases q.find zs idx with
  | none => rfl
  | some p => simp

lemma erase_lookup (idx : Int) : q.erase.lookup zs idx = (q.lookup zs idx).map id erase := by
  unfold lookup
  rw [erase_index]
  rcases q.quicklistIndex zs idx with ⟨_ | p,q₁⟩
  · rfl
  · simp

lemma erase_replace (idx : Int) (v : V) : q.erase.quicklistReplaceAtIndex zs idx v =
    (q.quicklistReplaceAtIndex zs idx v).map id erase := by
  unfold quicklistReplaceAtIndex
  rw [erase_index]
  rcases q.quicklistIndex zs idx with ⟨_ | p,q₁⟩
  · rfl
  · simp [← erase_modifyZl]

lemma erase_used : q.erase = ((q.decompressForUse i).quicklistCompress zs
    (q.decompressForUse i).nodes.length i).erase := by simp

lemma entriesAt_erase_used : q.erase.entriesAt zs i = (q.decompressForUse i).entriesAt zs i := by
  rw [← erase_decompressForUse i,erase_entriesAt]

lemma erase_rangeLoop (nodes i offset len : Nat) : q.erase.rangeLoop zs nodes i offset len =
    (q.rangeLoop zs nodes i offset len).map id erase := by
  induction nodes generalizing q i offset len with
  | zero => rfl
  | succ nodes ih =>
    rw [rangeLoop,rangeLoop,decompressForUse_erase,compress_erase]
    rw [entriesAt_erase_used,erase_used]
    split
    · simp
    rw [ih]
    rfl

lemma erase_rangeCommand (start stop : Int) : q.erase.rangeCommand zs start stop =
    (q.rangeCommand zs start stop).map id erase := by
  unfold rangeCommand
  rw [erase_quicklistCount]
  split
  · rfl
  unfold range
  rw [erase_index]
  rcases q.quicklistIndex zs _ with ⟨_ | p,q₁⟩
  · rfl
  · simp [erase_rangeLoop]

lemma erase_ziplistMerge :
    (q.quicklistZiplistMerge zs i).erase = q.erase.quicklistZiplistMerge zs i := by
  have hraw : ∀ (q : Quicklist Z) j, (q.modify j (·.quicklistDecompressNode)).erase = q.erase :=
    fun q j => Same.erase ⟨recoded_decompress _ _,rfl,rfl⟩
  have hq : ((q.modify i (·.quicklistDecompressNode)).modify (i+1)
      (·.quicklistDecompressNode)).erase = q.erase := (hraw _ _).trans (hraw q i)
  simp only [quicklistZiplistMerge,decompress_erase]
  rw [← hq,erase_getElem?,erase_getElem?]
  generalize (q.modify i (·.quicklistDecompressNode)).modify (i+1) (·.quicklistDecompressNode) = q₁
  cases q₁.nodes[i]? with
  | none => rfl
  | some a =>
    cases q₁.nodes[i+1]? with
    | none => rfl
    | some b =>
      simp only [map_some,erase_quicklistCompress,create_count,create_zl]
      split <;> rw [erase_delNode,← erase_setZl,← erase_delNode,compress_erase]

lemma erase_mergeIfAllowed : q.erase.mergeIfAllowed zs i =
    (q.mergeIfAllowed zs i).map id erase := by
  unfold mergeIfAllowed
  rw [erase_getElem?,erase_getElem?]
  cases q.nodes[i]? with
  | none => rfl
  | some a =>
    cases q.nodes[i+1]? with
    | none => rfl
    | some b =>
      have hallow : (quicklistCreateNode a.zl).quicklistNodeAllowMerge zs
        (quicklistCreateNode b.zl) q.erase.fill =
          a.quicklistNodeAllowMerge zs b q.fill := rfl
      simp only [map_some,hallow]
      split
      · rw [Prod.map,erase_ziplistMerge]
        rfl
      · rfl

end

lemma erase_mergeNodes (center : Nat) :
    (q.quicklistMergeNodes zs center).erase = q.erase.quicklistMergeNodes zs center := by
  have hif : ∀ (q : Quicklist Z) (p : Prop) [Decidable p] (i : Nat),
      (if p then q.erase.mergeIfAllowed zs i else (false,q.erase)) =
        (if p then q.mergeIfAllowed zs i else (false,q)).map id erase := by
    intro q p _ i
    split
    · exact erase_mergeIfAllowed zs i
    · rfl
  unfold quicklistMergeNodes
  rw [hif]
  generalize (if center ≥ 2 then q.mergeIfAllowed zs (center - 2) else (false,q)) = r
  simp only [Prod.map,id]
  generalize (if r.1 then center - 1 else center) = center
  rw [erase_mergeIfAllowed]
  simp only [Prod.map,id]
  rw [hif,Prod.map,erase_mergeIfAllowed]
  rfl

lemma erase_splitNode (i offset : Nat) (v : V) (after : Bool) :
    (q.quicklistSplitNode zs i offset v after).erase =
      q.erase.quicklistSplitNode zs i offset v after := by
  unfold quicklistSplitNode
  rw [erase_getElem?]
  cases q.nodes[i]? with
  | none => rfl
  | some n =>
    simp only [map_some,erase_mergeNodes,erase_insertNode,erase_setZl]
    rfl

lemma erase_insertEntry (i offset : Nat) (v : V) (after : Bool) :
    (q.insertEntry zs i offset v after).erase = q.erase.insertEntry zs i offset v after := by
  unfold insertEntry
  simp only [erase_allowInsertAt,erase_splits]
  split
  · rw [erase_recompressOnly,← erase_modifyZl,recompressOnly_erase]
  split
  · exact erase_splitNode zs i offset v after
  split
  · simp only [insertPrev,erase_recompressOnly,erase_modifyZl,erase_decompressForUse,
      decompressForUse_erase]
    rw [← erase_modifyZl,recompressOnly_erase]
  rw [erase_insertNode]
  rfl

section Values
variable [DecidableEq V]

lemma erase_seekPivot (pivot : V) (nodes i : Nat) : q.erase.seekPivot zs pivot nodes i =
    (q.seekPivot zs pivot nodes i).map id erase := by
  induction nodes generalizing q i with
  | zero => rfl
  | succ nodes ih =>
    rw [seekPivot,seekPivot,decompressForUse_erase,compress_erase]
    rw [entriesAt_erase_used,erase_used]
    split
    · simp
    · rw [ih]

lemma erase_insertCommand (pivot v : V) (after : Bool) : q.erase.insertCommand zs pivot v after =
    (q.insertCommand zs pivot v after).map id erase := by
  unfold insertCommand
  rw [erase_length,erase_seekPivot]
  rcases q.seekPivot zs pivot q.nodes.length 0 with ⟨_ | p,q₁⟩
  · rfl
  · simp [erase_insertEntry]

lemma erase_remLoop (v : V) (toremove : Nat) (back : Bool) (nodes i removed : Nat) :
    q.erase.remLoop zs v toremove back nodes i removed =
    (q.remLoop zs v toremove back nodes i removed).map id erase := by
  induction nodes generalizing q i removed with
  | zero => rfl
  | succ nodes ih =>
    rw [remLoop,remLoop,decompressForUse_erase]
    have hq : q.erase = (q.decompressForUse i).erase := by simp
    rw [hq,erase_getElem?]
    generalize q.decompressForUse i = q
    cases q.nodes[i]? with
    | none => rfl
    | some n =>
      simp only [map_some,create_zl]
      generalize remEntries zs v toremove back
        (if back then (zs.entries n.zl).reverse else zs.entries n.zl) 0 n.zl removed = r
      rw [erase_setOrDelNode]
      generalize q.setOrDelNode zs i r.1 = d
      have hd : (if d.1 then d.2.erase else d.2.erase) =
          (if d.1 then d.2 else d.2.quicklistCompress zs d.2.nodes.length i).erase := by
        split
        · rfl
        · rw [erase_quicklistCompress]
      simp only [Prod.map,id,compress_erase]
      split
      · rfl
      rw [hd,ih]
      rfl

lemma erase_remCommand (toremove : Int) (v : V) : q.erase.remCommand zs toremove v =
    (q.remCommand zs toremove v).map id erase := by
  unfold remCommand
  simp only [erase_index]
  rcases q.quicklistIndex zs _ with ⟨_ | p,q₁⟩
  · rfl
  · simp [erase_remLoop]

end Values

lemma erase_delRangeLoop (nodes i : Nat) (offset : Int) (extent : Nat) :
    (q.delRangeLoop zs nodes i offset extent).erase =
      q.erase.delRangeLoop zs nodes i offset extent := by
  induction nodes generalizing q i offset extent with
  | zero => rfl
  | succ nodes ih =>
    rw [delRangeLoop,delRangeLoop,erase_getElem?]
    split
    · rfl
    cases q.nodes[i]? with
    | none => rfl
    | some n =>
      simp only [map_some,create_count,create_zl,decompressForUse_erase]
      split
      · rw [ih,erase_delNode]
      have hq : q.erase = (q.decompressForUse i).erase := by simp
      rw [hq,erase_setOrDelNode]
      generalize (q.decompressForUse i).setOrDelNode zs i _ = d
      simp only [Prod.map,id,recompressOnly_erase]
      split
      · exact ih _ _ _
      · rw [ih,erase_recompressOnly]

lemma erase_delRange (start : Int) (count : Nat) :
    (q.quicklistDelRange zs start count).erase = q.erase.quicklistDelRange zs start count := by
  unfold quicklistDelRange
  split
  · rfl
  simp only [erase_index,erase_quicklistCount]
  rcases q.quicklistIndex zs start with ⟨_ | p,q₁⟩
  · rfl
  · simp [erase_delRangeLoop]

lemma erase_trimCommand (start stop : Int) :
    (q.trimCommand zs start stop).erase = q.erase.trimCommand zs start stop := by
  simp only [trimCommand,erase_delRange,erase_quicklistCount]

end Quicklist
end RedRock
