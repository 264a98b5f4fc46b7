import Mathlib

/-!
The order of bit vectors by their reversed bits. The vectors that agree on their low bits are
an interval of it.
-/

namespace RedRock.Lib
open Nat BitVec

variable {w k l : Nat}

def revNat (x : BitVec w) : Nat := x.reverse.toNat

lemma revNat_lt (x : BitVec w) : revNat x < 2 ^ w := x.reverse.isLt

lemma testBit_revNat (x : BitVec w) (i : Nat) :
    (revNat x).testBit i = (decide (i < w) && x.getLsbD (w - 1 - i)) := by
  rw [revNat,testBit_toNat,getLsbD_reverse,BitVec.getMsbD]

@[simp] lemma revNat_zero : revNat (0 : BitVec w) = 0 := by
  apply eq_of_testBit_eq
  intro i
  simp [testBit_revNat]

lemma revNat_eq_zero_iff (x : BitVec w) : revNat x = 0 ↔ x = 0 := by
  constructor
  · intro h
    have hr : x.reverse = 0 := eq_of_toNat_eq (by simpa [revNat] using h)
    rw [← reverse_reverse_eq (x := x),hr]
    exact eq_of_toNat_eq (by simpa [revNat] using revNat_zero (w := w))
  intro h
  rw [h,revNat_zero]

lemma revNat_div_eq_iff (hk : k ≤ w) (x y : BitVec w) :
    revNat x / 2 ^ (w - k) = revNat y / 2 ^ (w - k) ↔ x.toNat % 2 ^ k = y.toNat % 2 ^ k := by
  constructor
  · intro h
    apply eq_of_testBit_eq
    intro i
    rw [testBit_mod_two_pow,testBit_mod_two_pow]
    by_cases hi : i < k
    · have hb := congrArg (Nat.testBit · (k - 1 - i)) h
      simp only [testBit_div_two_pow,testBit_revNat] at hb
      have he : w - 1 - (k - 1 - i + (w - k)) = i := by omega
      have hlt : k - 1 - i + (w - k) < w := by omega
      simpa [he,hlt,hi,testBit_toNat] using hb
    · simp [hi]
  intro h
  apply eq_of_testBit_eq
  intro i
  rw [testBit_div_two_pow,testBit_div_two_pow,testBit_revNat,testBit_revNat]
  by_cases hi : i + (w - k) < w
  · have hb := congrArg (Nat.testBit · (w - 1 - (i + (w - k)))) h
    have hlt : w - 1 - (i + (w - k)) < k := by omega
    simp only [testBit_mod_two_pow,hlt,decide_true,Bool.true_and,testBit_toNat] at hb
    rw [hb]
  · simp [hi]

lemma toNat_lt_iff_dvd (hk : k ≤ w) (x : BitVec w) :
    x.toNat < 2 ^ k ↔ 2 ^ (w - k) ∣ revNat x := by
  constructor
  · intro h
    apply dvd_of_mod_eq_zero
    apply eq_of_testBit_eq
    intro i
    rw [testBit_mod_two_pow,testBit_revNat,zero_testBit]
    by_cases hi : i < w - k
    · have hb : x.toNat.testBit (w - 1 - i) = false := by
        apply testBit_lt_two_pow
        exact lt_of_lt_of_le h (Nat.pow_le_pow_right (by omega) (by omega))
      rw [testBit_toNat] at hb
      simp [hb]
    · simp [hi]
  intro h
  apply lt_pow_two_of_testBit
  intro i hi
  by_cases hw : i < w
  · have hb := congrArg (Nat.testBit · (w - 1 - i)) (mod_eq_zero_of_dvd h)
    simp only [testBit_mod_two_pow,testBit_revNat,zero_testBit] at hb
    have h1 : w - 1 - i < w - k := by omega
    have h2 : w - 1 - i < w := by omega
    have h3 : w - 1 - (w - 1 - i) = i := by omega
    simpa [h1,h2,h3,testBit_toNat] using hb
  rw [testBit_toNat]
  exact getLsbD_of_ge x i (by omega)

def lowMask (w k : Nat) : BitVec w := BitVec.ofNat w (2 ^ k - 1)

lemma getLsbD_lowMask (w k i : Nat) :
    (lowMask w k).getLsbD i = (decide (i < w) && decide (i < k)) := by
  rw [lowMask,getLsbD_ofNat,testBit_two_pow_sub_one]

lemma and_lowMask_xor_eq_zero_iff (hkl : k ≤ l) (hl : l ≤ w) {x : BitVec w}
    (hx : 2 ^ (w - l) ∣ revNat x) :
    x &&& (lowMask w k ^^^ lowMask w l) = 0 ↔ 2 ^ (w - k) ∣ revNat x := by
  rw [← toNat_lt_iff_dvd hl] at hx
  rw [← toNat_lt_iff_dvd (le_trans hkl hl)]
  constructor
  · intro h
    apply lt_pow_two_of_testBit
    intro i hi
    by_cases hil : i < l
    · have hb := congrArg (BitVec.getLsbD · i) h
      have hw : i < w := by omega
      have hik : ¬i < k := by omega
      simp only [getLsbD_and,getLsbD_xor,getLsbD_lowMask,hil,hw,hik,decide_true,
        decide_false,Bool.and_true,Bool.and_false,Bool.false_xor] at hb
      rw [testBit_toNat,hb]
      exact getLsbD_zero
    apply testBit_lt_two_pow
    exact lt_of_lt_of_le hx (Nat.pow_le_pow_right (by omega) (by omega))
  intro h
  apply eq_of_getLsbD_eq
  intro i hw
  rw [getLsbD_and,getLsbD_xor,getLsbD_lowMask,getLsbD_lowMask]
  by_cases hi : i < k
  · have hil : i < l := by omega
    simp [hi,hil]
  have hb : x.toNat.testBit i = false := by
    apply testBit_lt_two_pow
    exact lt_of_lt_of_le h (Nat.pow_le_pow_right (by omega) (by omega))
  rw [testBit_toNat] at hb
  simp [hb]

lemma or_two_pow_sub_one (n j : Nat) : n ||| (2 ^ j - 1) = n / 2 ^ j * 2 ^ j + (2 ^ j - 1) := by
  have hlt : 2 ^ j - 1 < 2 ^ j := by
    have hpos := Nat.two_pow_pos j
    omega
  rw [← Nat.shiftLeft_eq,shiftLeft_add_eq_or_of_lt hlt]
  apply eq_of_testBit_eq
  intro i
  rw [testBit_or,testBit_or,testBit_shiftLeft,testBit_two_pow_sub_one,
    testBit_div_two_pow]
  by_cases hi : i < j
  · simp [hi]
  have hge : j ≤ i := by omega
  simp [hi,hge]

/-- Counting up in the reversed order, on the low bits only. -/
def revNext (mask x : BitVec w) : BitVec w := ((x ||| ~~~mask).reverse + 1).reverse

lemma revNat_revNext (hk : k ≤ w) (x : BitVec w) :
    revNat (revNext (lowMask w k) x) = (revNat x / 2 ^ (w - k) + 1) * 2 ^ (w - k) % 2 ^ w := by
  have hor : revNat (x ||| ~~~lowMask w k) = revNat x ||| (2 ^ (w - k) - 1) := by
    apply eq_of_testBit_eq
    intro i
    rw [testBit_or,testBit_revNat,testBit_revNat,testBit_two_pow_sub_one,
      getLsbD_or,getLsbD_not,getLsbD_lowMask]
    by_cases hi : i < w
    · have h1 : w - 1 - i < w := by omega
      have h2 : w - 1 - i < k ↔ ¬i < w - k := by omega
      simp only [hi,h1,h2,decide_true,Bool.true_and,decide_not,Bool.not_not]
    have h2 : ¬i < w - k := by omega
    simp [hi,h2]
  have hpos := Nat.two_pow_pos (w - k)
  have hone : (1 : BitVec w) = BitVec.ofNat w 1 := rfl
  rw [revNext,revNat,reverse_reverse_eq,toNat_add,← revNat,hor,hone,
    or_two_pow_sub_one,Nat.add_mul,Nat.one_mul,toNat_ofNat,add_mod_mod,Nat.add_assoc]
  congr 2
  omega

end RedRock.Lib
