import RedRock.Lib.Bytes
import RedRock.QuicklistPlain

/-!
Runs of the list commands on a compressed list. The ends stay uncompressed as long as no hint
to compress is acted on where it does not belong.
-/

namespace RedRock
open Lib List Quicklist

namespace Quicklist
variable {Z V : Type} (zs : ZiplistOps Z V) {q : Quicklist Z}

def endsRaw (q : Quicklist Z) : Bool :=
  (q.nodes.head?.all fun n => !n.lzf) && q.nodes.getLast?.all fun n => !n.lzf

def settled (q : Quicklist Z) : Bool :=
  q.nodes.zipIdx.all fun (n,i) =>
    !n.recompress || (i ≠ 0 && i + 1 ≠ q.nodes.length && 2 * q.compress ≤ q.nodes.length)

def hintFree (q : Quicklist Z) : Bool := q.nodes.all fun n => !n.recompress

lemma settled_of_check (h : q.settled = true) : q.Settled := by
  intro i hi
  obtain ⟨n,hn,hr⟩ := hi
  have hm := all_eq_true.mp h (n,i) (mem_zipIdx_iff_getElem?.mpr hn)
  simp only [hr,Bool.not_true,Bool.false_or,Bool.and_eq_true,decide_eq_true_eq] at hm
  exact ⟨hm.1.1,hm.1.2,hm.2⟩

lemma hintFree_of_check (h : q.hintFree = true) : q.HintFree := by
  intro i hi
  obtain ⟨n,hn,hr⟩ := hi
  have hm := all_eq_true.mp h n (mem_of_getElem? hn)
  simp [hr] at hm

lemma Sound.endsRaw (h : q.Sound) : q.endsRaw = true := by
  have hall : ∀ i, RawAt q.nodes i → (q.nodes[i]?.all fun n => !n.lzf) = true := by
    intro i hi
    cases hn : q.nodes[i]? with
    | none => rfl
    | some n => simp [hi n hn]
  rw [Quicklist.endsRaw,head?_eq_getElem?,getLast?_eq_getElem?,
    hall 0 h.ends.first,hall _ h.ends.last]
  rfl

end Quicklist

namespace QuicklistRun
variable {Z V : Type} [DecidableEq V] (zs : ZiplistOps Z V)

/-- No hint is acted on at an end of the list: a push, a replacement and an iteration may find
hints on inner nodes only, a removal and a trim none. An insertion that has to split the node of
the pivot finds none either, that of this node included. -/
def hintsIdle (s : QuicklistRun Z V) : ListCommand V → Bool
  | .pop _ | .index _ => true
  | .push _ _ | .set _ _ | .range _ _ => s.list.settled
  | .insert after pivot v => s.list.settled &&
    match s.list.seekPivot zs pivot s.list.nodes.length 0 with
    | (none,_) => true
    | (some (i,offset),q) => !q.splits zs i offset v after || q.hintFree
  | .rem _ _ | .trim _ _ => s.list.hintFree

def erase (s : QuicklistRun Z V) : QuicklistRun Z V := ⟨s.list.erase,s.replies⟩

structure Good (s : QuicklistRun Z V) : Prop where
  sound : s.list.Sound
  filled : s.list.Filled zs

variable {zs} {s : QuicklistRun Z V}

lemma hintsIdle_insert {after : Bool} {pivot v : V}
    (h : s.hintsIdle zs (.insert after pivot v) = true) :
    s.list.Settled ∧ ∀ i offset q',
      s.list.seekPivot zs pivot s.list.nodes.length 0 = (some (i,offset),q') →
      q'.splits zs i offset v after = true → q'.HintFree := by
  rw [hintsIdle,Bool.and_eq_true] at h
  refine ⟨settled_of_check h.1,fun i offset q' he hsplit => ?_⟩
  have h := h.2
  rw [he] at h
  simp only [hsplit,Bool.not_true,Bool.false_or] at h
  exact hintFree_of_check h

omit [DecidableEq V] in
lemma Good.of_whole (h : s.list.Whole zs) : s.Good zs := ⟨h.toSound,h.filled⟩

/-- What a command does to a good list it does to the list without compression. -/
theorem Good.exec (h : s.Good zs) (c : ListCommand V) (hc : s.hintsIdle zs c = true) :
    ∃ t, s.exec zs c = .ok t ∧ t.Good zs ∧ s.erase.exec zs c = .ok t.erase := by
  have hwhole : s.list.Whole zs := ⟨h.sound,h.filled⟩
  cases c with
  | push side v =>
    obtain ⟨q,hq,hs⟩ := hwhole.push zs (settled_of_check hc) side v
    refine ⟨s.reply (.num (q.quicklistCount zs)) q,?_,.of_whole hs,?_⟩
    · rw [QuicklistRun.exec,hq]
      rfl
    rw [QuicklistRun.exec,erase,erase_push zs hq]
    simp only [bind,Except.bind,erase_quicklistCount]
    rfl
  | pop side =>
    obtain ⟨v,q,hq,hs⟩ := hwhole.pop zs side
    refine ⟨s.reply (.value v) q,?_,.of_whole hs,?_⟩
    · rw [QuicklistRun.exec,hq]
      rfl
    rw [QuicklistRun.exec,erase,erase_pop zs hq]
    rfl
  | index idx =>
    refine ⟨_,rfl,.of_whole (hwhole.lookup zs idx),?_⟩
    rw [QuicklistRun.exec,erase,erase_lookup]
    rfl
  | set idx v =>
    refine ⟨_,rfl,.of_whole (hwhole.replace zs (settled_of_check hc) idx v),?_⟩
    rw [QuicklistRun.exec,erase,erase_replace]
    rfl
  | range start stop =>
    refine ⟨_,rfl,.of_whole (hwhole.rangeCommand zs (settled_of_check hc) start stop),?_⟩
    rw [QuicklistRun.exec,erase,erase_rangeCommand]
    rfl
  | insert after pivot v =>
    obtain ⟨hsettled,hsplit⟩ := hintsIdle_insert hc
    refine ⟨_,rfl,.of_whole (hwhole.insertCommand zs hsettled hsplit),?_⟩
    rw [QuicklistRun.exec,erase,erase_insertCommand]
    simp only [Prod.map,erase_quicklistCount]
    rfl
  | rem toremove v =>
    have htidy := Tidy.of_whole zs hwhole (hintFree_of_check hc)
    refine ⟨_,rfl,.of_whole (htidy.remCommand zs toremove v),?_⟩
    rw [QuicklistRun.exec,erase,erase_remCommand]
    rfl
  | trim start stop =>
    have htidy := Tidy.of_whole zs hwhole (hintFree_of_check hc)
    refine ⟨_,rfl,.of_whole (htidy.trimCommand zs start stop),?_⟩
    rw [QuicklistRun.exec,erase,← erase_trimCommand]
    rfl

lemma good_init {compress : Nat} (hd : 0 < compress) (fill : Int) :
    (quicklistMachine zs fill compress).init.Good zs := by
  refine ⟨⟨hd,?_,?_,?_⟩,?_⟩
  · intro n hn
    cases hn
  · intro n hn
    cases hn
  · intro _ i n hn
    cases hn
  intro n hn
  cases hn

/-- The runs of the list with and without compression go together. -/
theorem Good.run {fill : Int} {compress : Nat} (cs : List (ListCommand V))
    {r : Except QuicklistFault (QuicklistRun Z V)} (h : s.Good zs)
    (hg : (quicklistMachine zs fill compress).Guarded (fun s c => s.hintsIdle zs c = true) s cs)
    (hr : (quicklistMachine zs fill compress).runFrom s cs = some r) :
    ∃ t, r = .ok t ∧ t.Good zs ∧
      (quicklistMachine zs fill 0).runFrom s.erase cs = some (.ok t.erase) := by
  induction cs generalizing s with
  | nil =>
    cases hr
    exact ⟨s,rfl,h,rfl⟩
  | cons c cs ih =>
    obtain ⟨t,ht,hgood,he⟩ := h.exec c hg.1
    have hstep : (quicklistMachine zs fill compress).step s c = some (.ok t) := congrArg some ht
    have hplain : (quicklistMachine zs fill 0).step s.erase c = some (.ok t.erase) :=
      congrArg some he
    simp only [Machine.runFrom,hstep] at hr
    simp only [Machine.runFrom,hplain]
    exact ih hgood (hg.2 t hstep) hr

/-- The ends of a list are RAW after every command, and the commands answer and leave what they
would without compression, in every run that does not act on a hint at an end of the list. -/
theorem ends_never_compressed (fill : Int) {compress : Nat} (hd : 0 < compress)
    (cs : List (ListCommand V)) (r : Except QuicklistFault (QuicklistRun Z V))
    (hg : (quicklistMachine zs fill compress).Guarded (fun s c => s.hintsIdle zs c = true)
      (quicklistMachine zs fill compress).init cs)
    (hr : (quicklistMachine zs fill compress).run cs = some r) :
    ∃ s, r = .ok s ∧ s.list.endsRaw = true ∧
      (quicklistMachine zs fill 0).run cs = some (.ok s.erase) := by
  obtain ⟨s,hs,hgood,hplain⟩ := Good.run cs (good_init hd fill) hg hr
  exact ⟨s,hs,hgood.sound.endsRaw,hplain⟩

/-- Ziplists of elements that repeat one byte, so that lzf leaves little of them. -/
def Sample.ziplist : ZiplistOps (List Bytes) Bytes where
  entries := id
  single v := [v]
  insert z i v := z.insertIdx i v
  deleteRange z i n := z.take i ++ z.drop (i + n)
  merge a b := a ++ b
  blobLen z := 11 + (z.map fun v => v.length + 3).sum
  lzfCompress z := some (12 * z.length + 11)
  valueLen v := v.length
  entries_single _ := rfl
  entries_insert _ _ _ := rfl
  entries_deleteRange _ _ _ := rfl
  entries_merge _ _ := rfl

def Sample.element (b : UInt8) : Bytes := List.replicate 100 b

/-- The lookup leaves a hint on an inner node, the range takes it back. -/
def Sample.listCommands : List (ListCommand Bytes) :=
  [.push .tail (Sample.element 97),.push .tail (Sample.element 98),.push .tail (Sample.element 99),
    .push .tail (Sample.element 100),.index 1,.set 2 (Sample.element 101),.range 0 3,
    .insert true (Sample.element 97) (Sample.element 102),.pop .head]

open Sample

theorem ends_never_compressed_lookup :
    ∃ s, (quicklistMachine Sample.ziplist 1 1).run Sample.listCommands = some (.ok s) ∧
      s.list.nodes.map (·.lzf) = [false,true,true,false] ∧ s.list.endsRaw = true ∧
        (quicklistMachine Sample.ziplist 1 0).run Sample.listCommands = some (.ok s.erase) := by
  refine Machine.exists_run_and _ (by decide) fun s hs _ => ?_
  obtain ⟨t,ht,hends,hplain⟩ := ends_never_compressed 1 (Nat.one_pos) listCommands (.ok s)
    (Machine.guarded_check _ _ _ _ (by decide)) hs
  cases ht
  exact ⟨hends,hplain⟩

/-- A lookup decompresses the second of three nodes, a pop makes it the head, and the replacement
of its entry compresses it: the next pop reads compressed bytes as a ziplist. -/
theorem lookup_then_pop_compresses_head : ∃ cs : List (ListCommand Bytes),
      (∃ s, (quicklistMachine Sample.ziplist 1 1).run cs = some (.ok s) ∧ s.list.endsRaw = false) ∧
      ((quicklistMachine Sample.ziplist 1 1).run (cs ++ [.pop .head])).map
          (Except.map QuicklistRun.replies) = some (.error .notZiplist) := by
  refine ⟨[.push .tail (element 97),.push .tail (element 98),
    .push .tail (element 99),.index 1,.pop .head,.set 0 (element 100)],?_,?_⟩
  · apply (quicklistMachine ziplist 1 1).observed
    decide
  · decide

end QuicklistRun
end RedRock
