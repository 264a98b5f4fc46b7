import RedRock.AofFile

/-!
`readSyncBulkPayload` of `replication.c` while a replica receives the dump of its master into
a file: a header with the size or with the mark at the end of the stream, then the bytes in
the pieces that the socket gives.
-/

namespace RedRock
open Lib List

abbrev CONFIG_RUN_ID_SIZE : Nat := 40

/-- The static variables, `repl_transfer_size` and `repl_transfer_read`, and the file. -/
structure BulkTransfer where
  eofmark : Bytes
  lastbytes : Bytes
  usemark : Bool
  size : Int
  read : Nat
  file : Bytes

/-- What a call gets from the socket, and whether `write` and `ftruncate` succeed. -/
structure BulkInput where
  data : Option Bytes
  written : Bool
  truncated : Bool

inductive BulkResult where
  | more
  | complete
  | failed
  deriving DecidableEq

namespace BulkTransfer
variable (t : BulkTransfer)

/-- The line ends at its first zero byte. An empty one is a ping. -/
def readHeader (line : Bytes) : BulkResult × BulkTransfer :=
  match cstr line with
  | [] => (.more,t)
  | c :: buf =>
    if c ≠ 36 then (.failed,t)
    else if buf.take 4 = [69,79,70,58] ∧ CONFIG_RUN_ID_SIZE ≤ (buf.drop 4).length then
      (.more,{ t with
        usemark := true, eofmark := (buf.drop 4).take CONFIG_RUN_ID_SIZE,
        lastbytes := replicate CONFIG_RUN_ID_SIZE 0, size := 0 })
    else (.more,{ t with usemark := false, size := strtol buf })

def updateLastbytes (buf : Bytes) : Bytes :=
  if CONFIG_RUN_ID_SIZE ≤ buf.length then buf.drop (buf.length - CONFIG_RUN_ID_SIZE)
  else t.lastbytes.drop buf.length ++ buf

def readPayload (buf : Bytes) (i : BulkInput) : BulkResult × BulkTransfer :=
  let t := { t with lastbytes := if t.usemark then t.updateLastbytes buf else t.lastbytes }
  let eof := t.usemark ∧ t.lastbytes = t.eofmark
  if !i.written then (.failed,t)
  else
    let t := { t with file := t.file ++ buf, read := t.read + buf.length }
    if eof then
      if i.truncated then (.complete,{ t with file := t.file.take (t.read - CONFIG_RUN_ID_SIZE) })
      else (.failed,t)
    else if !t.usemark ∧ t.size = t.read then (.complete,t)
    else (.more,t)

def readlen : Nat := if t.usemark then 4096 else min (t.size - t.read).toNat 4096

def readSyncBulkPayload (i : BulkInput) : BulkResult × BulkTransfer :=
  match i.data with
  | none => (.failed,t)
  | some data =>
    if t.size = -1 then t.readHeader data
    else if data.take t.readlen = [] then (.failed,t)
    else t.readPayload (data.take t.readlen) i

/-- The calls until the transfer ends, and the input that is left then. -/
def receive : BulkTransfer → List BulkInput → BulkResult × BulkTransfer × List BulkInput
  | t, [] => (.more,t,[])
  | t, i :: is =>
    let r := t.readSyncBulkPayload i
    if r.1 = .more then receive r.2 is else (r.1,r.2,is)

/-- The transfer after the bytes `s`: the window is the end of them behind forty zeros. -/
def receiving (mark s : Bytes) : BulkTransfer :=
  ⟨mark,(replicate 40 0 ++ s).drop s.length,true,0,s.length,s⟩

def got (buf : Bytes) : BulkInput := ⟨some buf,true,true⟩

variable {mark s buf payload : Bytes} {bufs : List Bytes}

lemma lastbytes_receiving :
    (receiving mark s).updateLastbytes buf = (receiving mark (s ++ buf)).lastbytes := by
  simp only [updateLastbytes,receiving,CONFIG_RUN_ID_SIZE,length_append,← append_assoc]
  have hl : (replicate 40 (0 : UInt8) ++ s).length = 40 + s.length := by
    rw [length_append,length_replicate]
  generalize replicate 40 (0 : UInt8) ++ s = l at hl ⊢
  split
  · rw [drop_append,drop_eq_nil_of_le (hl.le.trans (by omega)),nil_append,hl]
    congr 1
    omega
  · rw [drop_drop,drop_append_of_le_length (by omega)]

section
variable (hm : mark.length = 40) (h0 : 0 ∉ mark)
include hm h0

lemma window_eq_mark_iff : (receiving mark s).lastbytes = mark ↔ mark <:+ s := by
  simp only [receiving]
  constructor
  · intro h
    by_cases hs : 40 ≤ s.length
    · rw [drop_append,drop_eq_nil_of_le (by simpa using hs),nil_append] at h
      exact h ▸ drop_suffix _ s
    refine absurd ?_ h0
    rw [← h,drop_append_of_le_length (by simp; omega),drop_replicate]
    exact mem_append_left _ (mem_replicate.mpr ⟨by omega,rfl⟩)
  · rintro ⟨r,rfl⟩
    rw [← append_assoc]
    exact drop_left' (by simp [hm])

lemma readBulk_receiving (hbuf : buf ≠ [] ∧ buf.length ≤ 4096) :
    (receiving mark s).readSyncBulkPayload (got buf) = if mark <:+ s ++ buf then
        (.complete,{ receiving mark (s ++ buf) with file := (s ++ buf).take ((s ++ buf).length - 40) })
      else (.more,receiving mark (s ++ buf)) := by
  have htake : buf.take (receiving mark s).readlen = buf := take_of_length_le hbuf.2
  have hlast : (receiving mark s).updateLastbytes buf = _ := lastbytes_receiving
  rw [readSyncBulkPayload]
  simp only [got,htake,hbuf.1,readPayload,← window_eq_mark_iff hm h0]
  simp [receiving,CONFIG_RUN_ID_SIZE] at hlast ⊢
  simp [hlast]

lemma receive_receiving (hbufs : ∀ buf ∈ bufs, buf ≠ [] ∧ buf.length ≤ 4096)
    (hs : s ++ bufs.flatten = payload ++ mark) (hlt : s.length < (payload ++ mark).length)
    (honce : ∀ k < (payload ++ mark).length, ¬mark <:+ (payload ++ mark).take k) :
    receive (receiving mark s) (bufs.map got) =
      (.complete,{ receiving mark (payload ++ mark) with file := payload },[]) := by
  induction bufs generalizing s with
  | nil =>
    rw [flatten_nil,append_nil] at hs
    exact absurd (hs ▸ hlt) (lt_irrefl _)
  | cons buf bufs ih =>
    rw [flatten_cons,← append_assoc] at hs
    have hstep := readBulk_receiving hm h0 (s := s) (hbufs buf mem_cons_self)
    rw [map_cons,receive]
    by_cases hend : (s ++ buf).length < (payload ++ mark).length
    · have hnot : ¬mark <:+ s ++ buf := by
        have h := honce _ hend
        rwa [← hs,take_left] at h
      rw [hstep,if_neg hnot]
      exact ih (fun b hb => hbufs b (mem_cons_of_mem _ hb)) hs hend
    have hnil : bufs = [] := by
      cases bufs with
      | nil => rfl
      | cons b bufs =>
        have hb := length_pos_iff.mpr (hbufs b (by simp)).1
        have hl := congrArg length hs
        simp at hl hend
        omega
    subst hnil
    rw [flatten_nil,append_nil] at hs
    rw [hs,if_pos (suffix_append _ _)] at hstep
    rw [hstep]
    simp [hm]

end

lemma readHeader_mark (hm : mark.length = 40) (h0 : 0 ∉ mark) (hr : t.read = 0)
    (hf : t.file = []) : t.readHeader ([36,69,79,70,58] ++ mark) = (.more,receiving mark []) := by
  have hline : cstr ([36,69,79,70,58] ++ mark) = 36 :: 69 :: 79 :: 70 :: 58 :: mark := by
    refine takeWhile_eq_self_iff.mpr fun b hb => ?_
    rcases mem_append.mp hb with hb | hb
    · fin_cases hb <;> decide
    · simpa using ne_of_mem_of_not_mem hb h0
  have htake : mark.take 40 = mark := take_of_length_le hm.le
  rw [readHeader,hline]
  simp [hm,htake,receiving,hr,hf,CONFIG_RUN_ID_SIZE]

/-- The transfer is complete with the read that has the last byte of the mark, when the mark
is not seen in the stream before its end. -/
theorem complete_at_mark (hs : t.size = -1) (hr : t.read = 0) (hf : t.file = [])
    (hm : mark.length = 40) (h0 : 0 ∉ mark)
    (hbufs : ∀ buf ∈ bufs, buf ≠ [] ∧ buf.length ≤ 4096) (hstream : bufs.flatten = payload ++ mark)
    (honce : ∀ k < (payload ++ mark).length, ¬mark <:+ (payload ++ mark).take k) :
    ∃ u, t.receive (got ([36,69,79,70,58] ++ mark) :: bufs.map got) = (.complete,u,[]) ∧
      u.file = payload := by
  have hheader : t.readSyncBulkPayload (got ([36,69,79,70,58] ++ mark)) =
      (.more,receiving mark []) := by
    rw [readSyncBulkPayload]
    simp only [got,hs,if_true,t.readHeader_mark hm h0 hr hf]
  rw [receive,hheader]
  exact ⟨_,receive_receiving hm h0 hbufs hstream (by simp [hm]) honce,rfl⟩

def noTransfer : BulkTransfer := ⟨[],[],false,-1,0,[]⟩

theorem complete_at_mark_split : ∃ u, noTransfer.receive (got ([36,69,79,70,58] ++
      98 :: replicate 39 97) :: [[7,98],replicate 38 97,[97]].map got) = (.complete,u,[]) ∧
    u.file = [7] :=
  noTransfer.complete_at_mark rfl rfl rfl rfl (by decide) (by decide) rfl (by decide)

/-- A mark of forty times the same byte is seen one byte early after a payload that ends with
this byte. -/
theorem complete_before_mark : ¬replicate 40 97 <:+: ([97] : Bytes) ∧
    ∃ u, noTransfer.receive (got ([36,69,79,70,58] ++ replicate 40 97) ::
      [replicate 40 97,[97]].map got) = (.complete,u,[got [97]]) ∧ u.file = [] :=
  ⟨by decide,_,rfl,rfl⟩

end BulkTransfer
end RedRock
