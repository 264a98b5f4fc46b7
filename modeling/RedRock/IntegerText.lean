import RedRock.Quicklist

/-!
`util.c`: the text of an integer as `string2ll` reads it and `ll2string` writes it, with the
checks and the buffer of the code. `string2ll` and `sdsfromlonglong` of the other modules say
what they compute.
-/

namespace RedRock.Util
open RedRock.Lib List

/-- The digits after the first one. -/
def string2llLoop : Nat → Bytes → Option Nat
  | v, [] => some v
  | v, b :: p =>
    if isDigit b then
      if v > (2^64-1) / 10 then none
      else
        let v := v*10 % 2^64
        if v > 2^64-1 - (b.toNat - 48) then none
        else string2llLoop ((v + (b.toNat - 48)) % 2^64) p
    else none

def toLongLong (negative : Bool) (v : Nat) : Option Int :=
  if negative then if v > 2^63 then none else some ((-v : Int).bmod (2^64))
  else if v > 2^63-1 then none else some v

def string2llDigits (negative : Bool) : Bytes → Option Int
  | [] => none
  | b :: p =>
    if 49 ≤ b && b ≤ 57 then (string2llLoop (b.toNat - 48) p).bind (toLongLong negative) else none

def string2ll : Bytes → Option Int
  | [48] => some 0
  | 45 :: p => string2llDigits true p
  | p => string2llDigits false p

def digits10 (v : Nat) : Nat :=
  if v < 10 then 1
  else if v < 100 then 2
  else if v < 1000 then 3
  else if v < 10^12 then
    if v < 10^8 then
      if v < 10^6 then if v < 10^4 then 4 else 5 + if v ≥ 10^5 then 1 else 0
      else 7 + if v ≥ 10^7 then 1 else 0
    else if v < 10^10 then 9 + if v ≥ 10^9 then 1 else 0
    else 11 + if v ≥ 10^11 then 1 else 0
  else 12 + digits10 (v / 10^12)

/-- The two digits of each number below 100. -/
def digits : Bytes := (range 100).flatMap fun i => [digitByte (i/10),digitByte (i%10)]

/-- `text` is what was written, from `next + 1` to the end. -/
def writeDigits (text : Bytes) (value : Nat) : Bytes :=
  if value ≥ 100 then
    let i := value % 100 * 2
    writeDigits (digits.getD i 0 :: digits.getD (i+1) 0 :: text) (value/100)
  else if value < 10 then digitByte value :: text
  else digits.getD (value*2) 0 :: digits.getD (value*2+1) 0 :: text

/-- The buffer after the call, and the length of the text in it. -/
def ll2string (dst : Bytes) (svalue : Int) : Bytes × Nat :=
  let negative := svalue < 0
  let value := if negative then if svalue ≠ -2^63 then (-svalue).toNat else 2^63-1+1
    else svalue.toNat
  let length := digits10 value + if negative then 1 else 0
  if length ≥ dst.length then (dst,0)
  else
    let text := writeDigits [] value
    let dst := dst.take (length - text.length) ++ text ++ 0 :: dst.drop (length+1)
    (if negative then dst.set 0 45 else dst,length)

def LONG_STR_SIZE : Nat := 21

variable {v : Nat} {p s dst : Bytes} {b : UInt8}

lemma le_foldl_digits (v : Nat) (p : Bytes) : v ≤ p.foldl (fun v b => v*10 + (b.toNat - 48)) v := by
  induction p generalizing v with
  | nil => exact le_refl v
  | cons b p ih =>
    have h := ih (v*10 + (b.toNat - 48))
    rw [foldl_cons]
    omega

lemma string2llLoop_eq (hv : v < 2^64) : string2llLoop v p =
    if p.all isDigit ∧ p.foldl (fun v b => v*10 + (b.toNat - 48)) v < 2^64 then
      some (p.foldl (fun v b => v*10 + (b.toNat - 48)) v) else none := by
  induction p generalizing v with
  | nil => simp only [string2llLoop,all_nil,foldl_nil,hv,and_self,if_true]
  | cons b p ih =>
    have hle := le_foldl_digits (v*10 + (b.toNat - 48)) p
    rw [string2llLoop,foldl_cons,all_cons]
    by_cases hd : isDigit b
    · have hb := (isDigit_iff.mp hd).toNat
      rw [if_pos hd,hd,Bool.true_and]
      by_cases hw : v*10 + (b.toNat - 48) < 2^64
      · rw [← ih hw,if_neg (by omega),Nat.mod_eq_of_lt (by omega),if_neg (by omega),
          Nat.mod_eq_of_lt hw]
      rw [if_neg (c := _ ∧ _) (by omega)]
      split
      · rfl
      · rw [Nat.mod_eq_of_lt (by omega),if_pos (by omega)]
    · simp [hd]

lemma toLongLong_eq (neg : Bool) (v : Nat) : toLongLong neg v =
    if neg then if v ≤ 2^63 then some (-(v : Int)) else none
    else if v < 2^63 then some (v : Int) else none := by
  have hm : v ≤ 2^63 → (-v : Int).bmod (2^64) = -v := fun h =>
    Int.bmod_eq_of_le (by omega) (by omega)
  grind [toLongLong]

lemma toLongLong_of_le (neg : Bool) (h : 2^64 ≤ v) : toLongLong neg v = none := by
  unfold toLongLong
  split <;> exact if_pos (by omega)

lemma string2llDigits_eq (neg : Bool) (p : Bytes) :
    string2llDigits neg p = RedRock.string2llDigits neg p := by
  cases p with
  | nil => rfl
  | cons b p =>
    have hval : digitsVal (b :: p) = p.foldl (fun v b => v*10 + (b.toNat - 48)) (b.toNat - 48) := by
      simp [digitsVal]
    have hb := b.toNat_lt
    simp only [string2llDigits,RedRock.string2llDigits,string2llLoop_eq (v := b.toNat - 48) (by omega),
      ← toLongLong_eq,hval]
    generalize p.foldl _ _ = w
    by_cases hw : w < 2^64
    · simp only [hw,and_true]
      cases (49 ≤ b && b ≤ 57 : Bool) <;> cases p.all isDigit <;> simp
    simp only [hw,and_false,if_false,toLongLong_of_le neg (Nat.not_lt.mp hw)]
    simp

lemma string2ll_eq (s : Bytes) : string2ll s = RedRock.string2ll s := by
  have h : string2llDigits = RedRock.string2llDigits := funext₂ string2llDigits_eq
  unfold string2ll RedRock.string2ll
  rewrite [h]
  rfl

lemma digits10_eq (v : Nat) : digits10 v = (decimal v).length := by
  induction v using Nat.strong_induction_on with
  | _ v ih =>
    rw [digits10]
    by_cases h10 : v < 10
    · rw [if_pos h10,decimal_of_lt h10]
      rfl
    rw [if_neg h10]
    by_cases hbig : v < 10^12
    · rw [if_pos hbig]
      split_ifs <;> exact (decimal_length_of _ (by omega) (by omega)).symm
    rw [if_neg (by omega),if_neg (by omega),if_neg hbig,ih _ (by omega),
      decimal_length_div (n := v) 12 (by omega),add_comm]

lemma digits_getD : ∀ i < 100, digits.getD (i*2) 0 = digitByte (i/10) ∧
    digits.getD (i*2+1) 0 = digitByte (i%10) := by
  decide

lemma writeDigits_eq (text : Bytes) (v : Nat) : writeDigits text v = decimal v ++ text := by
  induction v using Nat.strong_induction_on generalizing text with
  | _ v ih =>
    rw [writeDigits]
    by_cases h10 : v < 10
    · rw [if_neg (by omega),if_pos h10,decimal_of_lt h10,singleton_append]
    by_cases h100 : v < 100
    · obtain ⟨ha,hb⟩ := digits_getD v h100
      rw [if_neg (by omega),if_neg h10,ha,hb,decimal_split (by omega),decimal_of_lt (by omega)]
      rfl
    obtain ⟨ha,hb⟩ := digits_getD (v % 100) (by omega)
    rw [if_pos (by omega),ih _ (by omega),ha,hb,decimal_split (n := v) (by omega),
      decimal_split (n := v/10) (by omega),show v % 100 / 10 = v / 10 % 10 by omega,
      show v % 100 % 10 = v % 10 by omega,Nat.div_div_eq_div_mul]
    simp

lemma ll2string_eq {w : Int} (hd : LONG_STR_SIZE ≤ dst.length) (hl : -2^63 ≤ w) (hu : w < 2^63) :
    (ll2string dst w).1.take (ll2string dst w).2 = sdsfromlonglong w := by
  have hval : (if w < 0 then if w ≠ -2^63 then (-w).toNat else 2^63-1+1 else w.toNat) = w.natAbs := by
    split_ifs <;> omega
  have hlen := sdsfromlonglong_length hl hu
  rw [LONG_STR_SIZE] at hd
  simp only [ll2string,hval,digits10_eq,writeDigits_eq,append_nil]
  unfold sdsfromlonglong at hlen ⊢
  split at hlen
  · rename_i hneg
    rw [length_cons] at hlen
    cases dst with
    | nil => simp at hd
    | cons x dst =>
      rw [length_cons] at hd
      simp [hneg,show ¬dst.length ≤ (decimal w.natAbs).length by omega]
  · rename_i hneg
    simp [hneg,show ¬dst.length ≤ (decimal w.natAbs).length by omega]

/-- `string2ll` reads the texts that `ll2string` writes, and no other. -/
theorem string2ll_iff_ll2string (hd : LONG_STR_SIZE ≤ dst.length) (s : Bytes) (v : BitVec 64) :
    string2ll s = some v.toInt ↔ (ll2string dst v.toInt).1.take (ll2string dst v.toInt).2 = s := by
  have hl := v.le_toInt
  have hu := v.toInt_lt
  rw [string2ll_eq,ll2string_eq hd (by omega) (by omega)]
  constructor
  · exact sdsfromlonglong_of_string2ll
  rintro rfl
  exact string2ll_sdsfromlonglong (by omega) (by omega)

theorem ll2string_min : let dst := replicate LONG_STR_SIZE 0
    (ll2string dst (BitVec.intMin 64).toInt).1.take (ll2string dst (BitVec.intMin 64).toInt).2 =
      [45,57,50,50,51,51,55,50,48,51,54,56,53,52,55,55,53,56,48,56] :=
  (string2ll_iff_ll2string (by decide) _ _).mp (by decide)

end RedRock.Util
