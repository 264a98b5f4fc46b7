import RedRock.Protocol
import RedRock.Lib.Rax

/-!
What a stream is for: a log of entries in the order of their identifiers.
-/

namespace RedRock
open Lib List BitVec

structure StreamID where
  ms : BitVec 64
  seq : BitVec 64

namespace StreamID
variable {a b : StreamID}

/-- `streamEncodeID` writes both numbers in big endian, so that the order of the bytes is that
of the pairs. -/
def key (id : StreamID) : Nat ×ₗ Nat := toLex (id.ms.toNat,id.seq.toNat)

lemma key_injective : Function.Injective key := by
  intro a b h
  obtain ⟨ams,aseq⟩ := a
  obtain ⟨bms,bseq⟩ := b
  have hp : (ams.toNat,aseq.toNat) = (bms.toNat,bseq.toNat) := toLex.injective h
  injection hp with hms hseq
  rw [eq_of_toNat_eq hms,eq_of_toNat_eq hseq]

instance : LinearOrder StreamID := LinearOrder.lift' key key_injective

def code (id : StreamID) : Nat := id.ms.toNat * 2 ^ 64 + id.seq.toNat

lemma lt_iff : a < b ↔ a.code < b.code := by
  have ha := a.seq.isLt
  have hb := b.seq.isLt
  have hlex : a < b ↔ a.ms.toNat < b.ms.toNat ∨
      a.ms.toNat = b.ms.toNat ∧ a.seq.toNat < b.seq.toNat := Prod.Lex.toLex_lt_toLex
  rw [hlex,code,code]
  omega

lemma le_iff : a ≤ b ↔ a.code ≤ b.code := by
  rw [← not_lt,lt_iff]
  omega

def zero : StreamID := ⟨0,0⟩

def max : StreamID := ⟨allOnes 64,allOnes 64⟩

lemma zero_le (id : StreamID) : zero ≤ id := by
  rw [le_iff]
  have hzero : zero.code = 0 := by simp [zero,code]
  omega

lemma le_max (id : StreamID) : id ≤ max := by
  rw [le_iff]
  have h₁ := id.ms.isLt
  have h₂ := id.seq.isLt
  have hmax : max.code = (2 ^ 64 - 1) * 2 ^ 64 + (2 ^ 64 - 1) := by
    rw [code,max,toNat_allOnes]
  rw [hmax,code]
  omega

def streamCompareID (a b : StreamID) : Int :=
  if a.ms.toNat > b.ms.toNat then 1
  else if a.ms.toNat < b.ms.toNat then -1
  else if a.seq.toNat > b.seq.toNat then 1
  else if a.seq.toNat < b.seq.toNat then -1
  else 0

lemma streamCompareID_nonpos_iff : streamCompareID a b ≤ 0 ↔ a ≤ b := by
  rw [le_iff,code,code,streamCompareID]
  have ha := a.seq.isLt
  have hb := b.seq.isLt
  split_ifs <;> omega

def streamIncrID (id : StreamID) : StreamID :=
  if id.seq = allOnes 64 then
    if id.ms = allOnes 64 then zero else ⟨id.ms + 1,0⟩
  else ⟨id.ms,id.seq + 1⟩

lemma toNat_add_one {x : BitVec 64} (h : x ≠ allOnes 64) :
    (x + 1).toNat = x.toNat + 1 := by
  have hx := x.isLt
  have hne : x.toNat ≠ 2 ^ 64 - 1 := by
    intro he
    exact h (eq_of_toNat_eq (by rw [he,toNat_allOnes]))
  simp only [toNat_add,ofNat_eq_ofNat,toNat_ofNat]
  omega

lemma code_streamIncrID {id : StreamID} (h : id ≠ max) :
    (streamIncrID id).code = id.code + 1 := by
  unfold streamIncrID
  split
  · rename_i hs
    have hseq : id.seq.toNat = 2 ^ 64 - 1 := by rw [hs,toNat_allOnes]
    have hms : id.ms ≠ allOnes 64 := by
      intro hm
      apply h
      cases id
      simp only at hs hm
      rw [hs,hm]
      rfl
    rw [if_neg hms,code,code,toNat_add_one hms,hseq]
    simp only [ofNat_eq_ofNat,toNat_ofNat]
    omega
  rename_i hs
  simp only [code,toNat_add_one hs]
  omega

def streamNextID (ms : BitVec 64) (last : StreamID) : StreamID :=
  if ms.toNat > last.ms.toNat then ⟨ms,0⟩ else streamIncrID last

lemma lt_streamNextID {last : StreamID} (h : last ≠ max) (ms : BitVec 64) :
    last < streamNextID ms last := by
  unfold streamNextID
  split
  · have := last.seq.isLt
    rw [lt_iff,code,code]
    simp only [ofNat_eq_ofNat,toNat_ofNat]
    omega
  rw [lt_iff,code_streamIncrID h]
  omega

end StreamID

abbrev StreamFields := List (Sds × Sds)

structure StreamLog where
  entries : List (StreamID × StreamFields)
  lastId : StreamID
  sorted : entries.Pairwise fun a b => a.1 < b.1
  bounded : ∀ e ∈ entries, e.1 ≤ lastId

namespace StreamLog

lemma ext {l l' : StreamLog} (he : l.entries = l'.entries) (hl : l.lastId = l'.lastId) :
    l = l' := by
  obtain ⟨_,_,_,_⟩ := l
  obtain ⟨_,_,_,_⟩ := l'
  simp only at he hl
  subst he hl
  rfl

def empty : StreamLog := ⟨[],StreamID.zero,.nil,fun _ h => absurd h not_mem_nil⟩

def append (l : StreamLog) (id : StreamID) (fields : StreamFields) : StreamLog :=
  if h : l.lastId < id then
    { entries := l.entries ++ [(id,fields)]
      lastId := id
      sorted := by
        rw [pairwise_append]
        refine ⟨l.sorted,pairwise_singleton _ _,fun a ha b hb => ?_⟩
        cases mem_singleton.mp hb
        exact lt_of_le_of_lt (l.bounded a ha) h
      bounded := by
        intro e he
        rcases mem_append.mp he with he | he
        · exact ((l.bounded e he).trans_lt h).le
        cases mem_singleton.mp he
        exact le_rfl }
  else l

def delete (l : StreamLog) (id : StreamID) : StreamLog where
  entries := l.entries.filter (·.1 ≠ id)
  lastId := l.lastId
  sorted := l.sorted.filter _
  bounded e he := l.bounded e (mem_filter.mp he).1

def trim (l : StreamLog) (keep : Nat) : StreamLog where
  entries := l.entries.drop (l.entries.length - keep)
  lastId := l.lastId
  sorted := l.sorted.sublist (drop_sublist _ _)
  bounded e he := l.bounded e (mem_of_mem_drop he)

def has (l : StreamLog) (id : StreamID) : Bool := l.entries.any (·.1 = id)

end StreamLog
end RedRock
