import RedRock.Lib.Bytes

/-!
The difference buffer of an AOF rewrite. What the server appends to its file while a child writes
a new one is kept in blocks, of which the first is being sent to the child.
-/

namespace RedRock
open Lib List

def AOF_RW_BUF_BLOCK_SIZE : Nat := 1024 * 1024 * 10

/-- Of the memory of a block, `buf` is what is in use. -/
structure AofRwBlock where
  used : Nat
  free : Nat
  buf : Bytes

namespace AofRwBlock

def zmalloc : AofRwBlock := ⟨0,AOF_RW_BUF_BLOCK_SIZE,[]⟩

def append (b : AofRwBlock) (s : Bytes) : AofRwBlock :=
  ⟨b.used + s.length,b.free - s.length,b.buf ++ s⟩

def shift (b : AofRwBlock) (nwritten : Nat) : AofRwBlock :=
  ⟨b.used - nwritten,b.free + nwritten,b.buf.drop nwritten⟩

end AofRwBlock

structure AofDiff where
  blocks : List AofRwBlock
  stopSendingDiff : Bool
  sent : Bytes

/-- The loop of `aofRewriteBufferAppend`. -/
def appendBlocks : Nat → List AofRwBlock → Bytes → List AofRwBlock
  | 0, blocks, _ => blocks
  | fuel+1, blocks, s =>
    if s = [] then blocks
    else
      let (blocks,s) := match blocks.getLast? with
        | none => (blocks,s)
        | some b => (blocks.dropLast ++ [b.append (s.take b.free)],s.drop b.free)
      if s = [] then blocks else appendBlocks fuel (blocks ++ [.zmalloc]) s

def aofRewriteBufferAppend (s : Bytes) (x : AofDiff) : AofDiff :=
  { x with blocks := appendBlocks (s.length + 1) x.blocks s }

/-- The results of the calls of `write` are given; zero stands for those that are not positive. -/
def aofChildWriteDiffData : List Nat → AofDiff → AofDiff
  | [], x => x
  | nwritten :: writes, x =>
    if x.stopSendingDiff then x
    else
      match x.blocks.dropWhile (·.used = 0) with
      | [] => { x with blocks := [] }
      | b :: blocks =>
        if nwritten = 0 then { x with blocks := b :: blocks }
        else
          let n := min nwritten b.used
          aofChildWriteDiffData writes { x with
            blocks := if b.used = n then blocks else b.shift n :: blocks
            sent := x.sent ++ b.buf.take n }

/-- What is written to the file, and the result unless it is -1. -/
def aofRewriteBufferWrite : List AofRwBlock → List Nat → Bytes × Option Nat
  | [], _ => ([],some 0)
  | b :: blocks, writes =>
    if b.used = 0 then aofRewriteBufferWrite blocks writes
    else
      match writes with
      | [] => ([],none)
      | nwritten :: writes =>
        if nwritten ≠ b.used then (b.buf.take nwritten,none)
        else
          let (out,count) := aofRewriteBufferWrite blocks writes
          (b.buf ++ out,count.map (b.used + ·))

inductive DiffAct where
  | append (s : Bytes)
  | writable (writes : List Nat)
  | stop

def DiffAct.data : DiffAct → Bytes
  | .append s => s
  | _ => []

namespace AofDiff

def step (x : AofDiff) : DiffAct → AofDiff
  | .append s => aofRewriteBufferAppend s x
  | .writable writes => aofChildWriteDiffData writes x
  | .stop => { x with stopSendingDiff := true }

def run (acts : List DiffAct) : AofDiff := acts.foldl step ⟨[],false,[]⟩

def unsent (x : AofDiff) : Bytes := x.blocks.flatMap AofRwBlock.buf

end AofDiff

structure AofRwBlock.Ok (b : AofRwBlock) : Prop where
  size : b.used + b.free = AOF_RW_BUF_BLOCK_SIZE
  length : b.buf.length = b.used

variable {blocks : List AofRwBlock}

lemma fillLast_ok {b : AofRwBlock} (s : Bytes) (h : ∀ b ∈ blocks, b.Ok)
    (hb : blocks.getLast? = some b) : (∀ c ∈ blocks.dropLast ++ [b.append (s.take b.free)], c.Ok) ∧
      (blocks.dropLast ++ [b.append (s.take b.free)]).flatMap AofRwBlock.buf ++ s.drop b.free =
        blocks.flatMap AofRwBlock.buf ++ s := by
  rw [← dropLast_append_getLast? b hb] at h
  simp only [mem_append,mem_singleton,or_imp,forall_and,forall_eq] at h ⊢
  have hsize := h.2.size
  refine ⟨⟨h.1,?_,?_⟩,?_⟩
  · simp [AofRwBlock.append]
    omega
  · simp [AofRwBlock.append,h.2.length]
  conv => rhs; rw [← dropLast_append_getLast? b hb]
  simp [AofRwBlock.append]

lemma appendBlocks_ok {fuel : Nat} {s : Bytes} (h : ∀ b ∈ blocks, b.Ok)
    (hf : s.length < fuel ∨ s.length ≤ fuel ∧ ∃ b, blocks.getLast? = some b ∧ 0 < b.free) :
    (∀ b ∈ appendBlocks fuel blocks s, b.Ok) ∧
      (appendBlocks fuel blocks s).flatMap AofRwBlock.buf = blocks.flatMap AofRwBlock.buf ++ s := by
  induction fuel generalizing blocks s with
  | zero =>
    have hnil : s = [] := length_eq_zero_iff.mp (by omega)
    simpa [appendBlocks,hnil] using h
  | succ fuel ih =>
    have hfresh : ∀ (bs : List AofRwBlock) (s' : Bytes), (∀ b ∈ bs, b.Ok) → s'.length ≤ fuel →
        (∀ b ∈ appendBlocks fuel (bs ++ [.zmalloc]) s', b.Ok) ∧
          (appendBlocks fuel (bs ++ [.zmalloc]) s').flatMap AofRwBlock.buf =
            bs.flatMap AofRwBlock.buf ++ s' := by
      intro bs s' hbs hlen
      have hz : AofRwBlock.zmalloc.Ok := ⟨zero_add _,rfl⟩
      have hnew := @ih (bs ++ [.zmalloc]) s'
        (by simpa [or_imp,forall_and,hz] using hbs) (.inr ⟨hlen,.zmalloc,by simp,by decide⟩)
      simpa [AofRwBlock.zmalloc] using hnew
    rw [appendBlocks]
    by_cases hs : s = []
    · simpa [hs] using h
    have hpos := length_pos_iff.mpr hs
    cases hb : blocks.getLast? with
    | none =>
      simp only [hs,if_false]
      exact hfresh blocks s h (by simp [hb] at hf; omega)
    | some b =>
      obtain ⟨hok,hbuf⟩ := fillLast_ok s h hb
      simp only [hs,if_false,← hbuf]
      split
      · rename_i hdone
        exact ⟨hok,by simp [hdone]⟩
      · exact hfresh _ _ hok (by simp [hb] at hf ⊢; omega)

lemma dropWhile_unused (h : ∀ b ∈ blocks, b.Ok) : (∀ b ∈ blocks.dropWhile (·.used = 0), b.Ok) ∧
      (blocks.dropWhile (·.used = 0)).flatMap AofRwBlock.buf = blocks.flatMap AofRwBlock.buf := by
  induction blocks with
  | nil => simp
  | cons b blocks ih =>
    simp only [mem_cons,forall_eq_or_imp] at h
    by_cases hb : b.used = 0
    · have hnil : b.buf = [] := length_eq_zero_iff.mp (h.1.length.trans hb)
      simpa [hb,hnil] using ih h.2
    · simpa [hb] using h

lemma aofChildWriteDiffData_ok {x : AofDiff} (h : ∀ b ∈ x.blocks, b.Ok) (writes : List Nat) :
    (∀ b ∈ (aofChildWriteDiffData writes x).blocks, b.Ok) ∧
      (aofChildWriteDiffData writes x).sent ++ (aofChildWriteDiffData writes x).unsent =
        x.sent ++ x.unsent := by
  induction writes generalizing x with
  | nil => exact ⟨h,rfl⟩
  | cons nwritten writes ih =>
    obtain ⟨hok,hbuf⟩ := dropWhile_unused h
    have hx : x.unsent = (x.blocks.dropWhile (·.used = 0)).flatMap AofRwBlock.buf := hbuf.symm
    rw [aofChildWriteDiffData]
    split
    · exact ⟨h,rfl⟩
    split
    · rename_i hnil
      rw [hx,hnil]
      exact ⟨by simp,rfl⟩
    rename_i b blocks hcons
    rw [hcons] at hok hx
    rw [hx]
    split
    · exact ⟨hok,rfl⟩
    simp only [mem_cons,forall_eq_or_imp] at hok
    have hsize := hok.1.size
    have hlen := hok.1.length
    have hshift : (b.shift (min nwritten b.used)).Ok := by
      constructor <;> simp [AofRwBlock.shift] <;> omega
    simp only
    split
    · rename_i hall
      have hrest := ih (x := ⟨blocks,x.stopSendingDiff,x.sent ++ b.buf.take (min nwritten b.used)⟩)
        hok.2
      refine ⟨hrest.1,hrest.2.trans ?_⟩
      rw [← hall,← hlen,take_length,append_assoc]
      rfl
    have hrest := ih (x := ⟨b.shift (min nwritten b.used) :: blocks,x.stopSendingDiff,
      x.sent ++ b.buf.take (min nwritten b.used)⟩) (by simpa using ⟨hshift,hok.2⟩)
    refine ⟨hrest.1,hrest.2.trans ?_⟩
    simp only [AofDiff.unsent,flatMap_cons,AofRwBlock.shift,append_assoc]
    rw [← append_assoc (b.buf.take _),take_append_drop]

lemma aofRewriteBufferWrite_ok (h : ∀ b ∈ blocks, b.Ok) {writes : List Nat} {out : Bytes}
    {n : Nat} (hw : aofRewriteBufferWrite blocks writes = (out,some n)) :
    out = blocks.flatMap AofRwBlock.buf ∧ n = out.length := by
  induction blocks generalizing writes out n with
  | nil =>
    cases hw
    simp
  | cons b blocks ih =>
    simp only [mem_cons,forall_eq_or_imp] at h
    unfold aofRewriteBufferWrite at hw
    split at hw
    · rename_i h0
      have hnil : b.buf = [] := length_eq_zero_iff.mp (h.1.length.trans h0)
      simpa [hnil] using ih h.2 hw
    cases writes with
    | nil => cases hw
    | cons nwritten writes =>
      simp only at hw
      split at hw
      · cases hw
      rcases hr : aofRewriteBufferWrite blocks writes with ⟨out',_ | m⟩
      · simp [hr] at hw
      rw [hr] at hw
      cases hw
      obtain ⟨hout,hm⟩ := ih h.2 hr
      simp [hout,hm,h.1.length]

namespace AofDiff

lemma run_ok (acts : List DiffAct) : (∀ b ∈ (run acts).blocks, b.Ok) ∧
    (run acts).sent ++ (run acts).unsent = acts.flatMap DiffAct.data := by
  induction acts using List.reverseRecOn with
  | nil => simp [run,unsent]
  | append_singleton acts a ih =>
    obtain ⟨hok,hsum⟩ := ih
    have hrun : run (acts ++ [a]) = (run acts).step a := by simp [run]
    rw [hrun,flatMap_append,flatMap_singleton,← hsum]
    cases a with
    | append s =>
      obtain ⟨hblocks,hbuf⟩ := appendBlocks_ok hok (.inl (Nat.lt_succ_self s.length))
      exact ⟨hblocks,by simp [step,aofRewriteBufferAppend,unsent,hbuf,DiffAct.data]⟩
    | writable writes => simpa [step,DiffAct.data] using aofChildWriteDiffData_ok hok writes
    | stop => simpa [step,DiffAct.data,unsent] using hok

/-- What was sent to the child and what the blocks hold is what was appended, and the final write
of the blocks writes what was not sent. -/
theorem diff_conserved (acts : List DiffAct) :
    (run acts).sent ++ (run acts).unsent = acts.flatMap DiffAct.data ∧
      (∀ b ∈ (run acts).blocks, b.used + b.free = AOF_RW_BUF_BLOCK_SIZE) ∧
      ∀ writes out n, aofRewriteBufferWrite (run acts).blocks writes = (out,some n) →
        out = (run acts).unsent ∧ n = out.length := by
  obtain ⟨hok,hsum⟩ := run_ok acts
  exact ⟨hsum,fun b hb => (hok b hb).size,fun _ _ _ hw => aofRewriteBufferWrite_ok hok hw⟩

end AofDiff
end RedRock
