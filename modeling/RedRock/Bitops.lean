import RedRock.Quicklist

/-!
`bitops.c`: the offset of a bit. BITFIELD also takes `#N`, the place of the field number `N`;
the product with the width is made before the range is checked.
-/

namespace RedRock
variable {bits : Nat} {o : Sds} {v : Int} {off : Nat}

def bitOffsetError : String := "-ERR bit offset is not an integer or out of range"

/-- The limit is 512 MB in bytes. -/
def limitOffset (loffset : Int) : Except String Nat :=
  if loffset < 0 ∨ loffset.toNat / 2^3 ≥ 512*1024*1024 then .error bitOffsetError
  else .ok loffset.toNat

/-- The signed product wraps where it overflows. -/
def getBitOffsetFromArgument (o : Sds) (hash : Bool) (bits : Nat) : Except String Nat :=
  let usehash := o.head? = some 35 ∧ hash ∧ 0 < bits
  match string2ll (o.drop (if usehash then 1 else 0)) with
  | none => .error bitOffsetError
  | some loffset => limitOffset (if usehash then (loffset * bits).bmod (2^64) else loffset)

/-- What an offset in fields of `bits` bits stands for, as an exact number. -/
def bitOffset (bits : Nat) : Sds → Option Int
  | 35 :: o => (string2ll o).map (· * bits)
  | o => string2ll o

lemma limitOffset_ok_iff : limitOffset v = .ok off ↔ v = off ∧ off < 2^32 := by
  unfold limitOffset
  split
  · simp only [reduceCtorEq,false_iff]
    omega
  rw [Except.ok.injEq]
  omega

lemma getBitOffset_eq (hb : 0 < bits) : getBitOffsetFromArgument o true bits =
    (bitOffset bits o).elim (.error bitOffsetError) fun v => limitOffset (v.bmod (2^64)) := by
  by_cases ho : o.head? = some 35
  · obtain ⟨s,rfl⟩ := List.head?_eq_some_iff.mp ho
    cases hv : string2ll s <;> simp [getBitOffsetFromArgument,bitOffset,hb,hv]
  have hplain : bitOffset bits o = string2ll o := by
    unfold bitOffset
    split
    · exact absurd rfl ho
    · rfl
  rw [hplain]
  cases hv : string2ll o with
  | none => simp [getBitOffsetFromArgument,ho,hv]
  | some v =>
    obtain ⟨hl,hu⟩ := string2ll_range hv
    have hw : v.bmod (2^64) = v := Int.bmod_eq_of_le (by omega) (by omega)
    simp only [getBitOffsetFromArgument,ho,false_and,if_false,List.drop_zero,hv,Option.elim_some,hw]

/-- Exactly the offsets below `2^32` are accepted where the product does not wrap into them. -/
theorem bit_offset_exact_iff (hb : 0 < bits) :
    (∀ off : Nat, getBitOffsetFromArgument o true bits = .ok off ↔
      bitOffset bits o = some (off : Int) ∧ off < 2^32) ↔
    ∀ v, bitOffset bits o = some v → -2^63 ≤ v ∧ v < 2^63 ∨
      v.bmod (2^64) < 0 ∨ 2^32 ≤ v.bmod (2^64) := by
  rw [getBitOffset_eq hb]
  cases bitOffset bits o with
  | none => simp
  | some v =>
    simp only [Option.elim_some,limitOffset_ok_iff,Option.some.injEq,forall_eq']
    constructor
    · intro h
      by_contra hc
      have hw := (h (v.bmod (2^64)).toNat).mp ⟨by omega,by omega⟩
      omega
    intro h off
    have hb : -2^63 ≤ v ∧ v < 2^63 → v.bmod (2^64) = v := fun hv =>
      Int.bmod_eq_of_le (by omega) (by omega)
    omega

theorem bit_offset_exact_plain : (0 < 8) ∧ ∀ off : Nat,
    getBitOffsetFromArgument [35,51] true 8 = .ok off ↔
      bitOffset 8 [35,51] = some (off : Int) ∧ off < 2^32 := by
  refine ⟨by decide,(bit_offset_exact_iff (by decide)).mpr ?_⟩
  intro v hv
  cases hv
  decide

/-- `#4611686018427387904` of fields of 8 bits is taken for offset 0. -/
theorem bit_offset_wraps : getBitOffsetFromArgument (35 :: sdsfromlonglong (2^62)) true 8 = .ok 0 ∧
      bitOffset 8 (35 :: sdsfromlonglong (2^62)) = some (2^65) := by
  have h := string2ll_sdsfromlonglong (v := 2^62) (by decide) (by decide)
  have hb : bitOffset 8 (35 :: sdsfromlonglong (2^62)) = some (2^65) := by
    rw [bitOffset,h]
    rfl
  refine ⟨?_,hb⟩
  rw [getBitOffset_eq (by decide),hb]
  decide

end RedRock
