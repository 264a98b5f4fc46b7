import RedRock.Lib.Bytes

/-!
Decimal numerals in ASCII: what is printed is read back, and a numeral without a leading
zero is the one that is printed for its value.
-/

namespace RedRock.Lib
open List Nat UInt8
variable {s : Bytes} {d n : Nat} {b : UInt8}

def IsDigit (b : UInt8) : Prop := 48 ≤ b ∧ b ≤ 57

instance : DecidablePred IsDigit := fun b => inferInstanceAs (Decidable (48 ≤ b ∧ b ≤ 57))

def digitByte (d : Nat) : UInt8 := ofNat (48 + d)

def digitVal (b : UInt8) : Nat := b.toNat - 48

def decimal (n : Nat) : Bytes :=
  if n = 0 then [48] else ((digits 10 n).map digitByte).reverse

/-- Digits without a leading zero. -/
def Numeral : Bytes → Prop
  | [] => False
  | b :: s => b ≠ 48 ∧ ∀ c ∈ b :: s, IsDigit c

def decimalVal (s : Bytes) : Nat := s.foldl (fun v b => v * 10 + digitVal b) 0

lemma digitByte_toNat (hd : d < 10) : (digitByte d).toNat = 48 + d := by
  rw [digitByte,toNat_ofNat']
  omega

lemma digitVal_digitByte (hd : d < 10) : digitVal (digitByte d) = d := by
  rw [digitVal,digitByte_toNat hd]
  omega

lemma digitByte_isDigit (hd : d < 10) : IsDigit (digitByte d) := by
  have h := digitByte_toNat hd
  constructor
  · rw [le_iff_toNat_le,h]
    exact le_add_right 48 d
  rw [le_iff_toNat_le,h]
  change 48 + d ≤ 57
  omega

lemma IsDigit.toNat (hb : IsDigit b) : 48 ≤ b.toNat ∧ b.toNat ≤ 57 :=
  ⟨le_iff_toNat_le.mp hb.1,le_iff_toNat_le.mp hb.2⟩

lemma digitByte_digitVal (hb : IsDigit b) : digitByte (digitVal b) = b := by
  obtain ⟨hl,hu⟩ := hb.toNat
  apply UInt8.toNat_inj.mp
  rw [digitVal,digitByte_toNat (by omega)]
  omega

lemma decimalVal_eq_ofDigits (s : Bytes) :
    decimalVal s = ofDigits 10 (s.map digitVal).reverse := by
  rw [ofDigits_eq_foldr,foldr_reverse,foldl_map,decimalVal]
  congr 1
  funext v b
  simp
  omega

lemma decimalVal_decimal (n : Nat) : decimalVal (decimal n) = n := by
  unfold decimal
  split
  · rename_i h
    subst h
    rfl
  have hid : (digits 10 n).map (digitVal ∘ digitByte) = digits 10 n := by
    conv_rhs => rw [← map_id (digits 10 n)]
    exact map_congr_left fun d hd =>
      digitVal_digitByte (digits_lt_base (by decide) hd)
  rw [decimalVal_eq_ofDigits,map_reverse,reverse_reverse,map_map,hid,ofDigits_digits]

lemma decimal_isDigit (n : Nat) : ∀ b ∈ decimal n, IsDigit b := by
  intro b hb
  unfold decimal at hb
  split at hb
  · rw [mem_singleton.mp hb]
    decide
  rw [mem_reverse,mem_map] at hb
  obtain ⟨d,hd,rfl⟩ := hb
  exact digitByte_isDigit (digits_lt_base (by decide) hd)

lemma decimal_ne_nil (n : Nat) : decimal n ≠ [] := by
  unfold decimal
  split
  · simp
  rename_i h
  simpa using digits_ne_nil_iff_ne_zero.mpr h

lemma Numeral.decimal_decimalVal (h : Numeral s) : decimal (decimalVal s) = s := by
  cases s with
  | nil => exact h.elim
  | cons b s =>
    obtain ⟨hb,hs⟩ := h
    have hlt : ∀ d ∈ ((b :: s).map digitVal).reverse, d < 10 := by
      intro d hd
      rw [mem_reverse,mem_map] at hd
      obtain ⟨c,hc,rfl⟩ := hd
      have hu := (hs c hc).toNat
      unfold digitVal
      omega
    have hlead : digitVal b ≠ 0 := by
      intro h0
      have h48 := digitByte_digitVal (hs b (by simp))
      rw [h0] at h48
      exact hb h48.symm
    have hdigits : digits 10 (decimalVal (b :: s)) = ((b :: s).map digitVal).reverse := by
      rw [decimalVal_eq_ofDigits,digits_ofDigits 10 (by decide) _ hlt]
      intro _
      simpa using hlead
    have hne : decimalVal (b :: s) ≠ 0 := by
      intro h0
      rw [h0] at hdigits
      simp at hdigits
    have hid : (b :: s).map (digitByte ∘ digitVal) = b :: s := by
      conv_rhs => rw [← map_id (b :: s)]
      exact map_congr_left fun c hc => digitByte_digitVal (hs c hc)
    rw [decimal,if_neg hne,hdigits,← map_reverse,reverse_reverse,map_map,hid]

lemma numeral_decimal {n : Nat} (hn : n ≠ 0) : Numeral (decimal n) := by
  have hdigits := decimal_isDigit n
  cases hd : decimal n with
  | nil => exact absurd hd (decimal_ne_nil n)
  | cons b s =>
    rw [hd] at hdigits
    refine ⟨?_,hdigits⟩
    -- the first digit printed is the last one of `Nat.digits`
    rintro rfl
    rw [decimal,if_neg hn] at hd
    have hhead := congrArg List.head? hd
    rw [head?_reverse,getLast?_map,head?_cons] at hhead
    obtain ⟨d,hlast,he⟩ := Option.map_eq_some_iff.mp hhead
    have hlt : d < 10 := digits_lt_base (by decide) (mem_of_getLast? hlast)
    have hz : d = 0 := by
      rw [← digitVal_digitByte hlt,he]
      rfl
    rw [getLast?_eq_some_getLast (digits_ne_nil_iff_ne_zero.mpr hn),hz] at hlast
    exact getLast_digit_ne_zero 10 hn (Option.some.inj hlast)

lemma Numeral.decimalVal_ne_zero (h : Numeral s) : decimalVal s ≠ 0 := by
  intro h0
  have hs := h.decimal_decimalVal
  rw [h0] at hs
  rw [← hs] at h
  exact h.1 rfl

lemma Numeral.take (h : Numeral s) (k : Nat) : Numeral (s.take (k + 1)) := by
  cases s with
  | nil => exact h
  | cons b s =>
    refine ⟨h.1,fun c hc => h.2 c ?_⟩
    rw [← take_succ_cons] at hc
    exact mem_of_mem_take hc

lemma decimalVal_append (s t : Bytes) :
    decimalVal (s ++ t) = decimalVal s * 10 ^ t.length + decimalVal t := by
  simp only [decimalVal_eq_ofDigits,map_append,reverse_append,ofDigits_append,
    length_reverse,length_map]
  ring

lemma decimalVal_take_le (s : Bytes) (k : Nat) : decimalVal (s.take k) ≤ decimalVal s := by
  have h := decimalVal_append (s.take k) (s.drop k)
  rw [take_append_drop] at h
  have hpos : 0 < 10 ^ (s.drop k).length := Nat.pow_pos (by decide)
  have hmul := Nat.le_mul_of_pos_right (decimalVal (s.take k)) hpos
  omega

lemma decimal_length_le {n k : Nat} (hk : 0 < k) (hn : n < 10 ^ k) : (decimal n).length ≤ k := by
  unfold decimal
  split
  · exact hk
  rw [length_reverse,length_map]
  exact (digits_length_le_iff (by decide) n).mpr hn

lemma decimal_of_lt (h : n < 10) : decimal n = [digitByte n] := by
  unfold decimal
  split
  · simp [*,digitByte]
  · simp [digits_of_lt 10 n ‹_› h]

lemma decimal_split (h : 10 ≤ n) : decimal n = decimal (n/10) ++ [digitByte (n%10)] := by
  rw [decimal,decimal,if_neg (by omega),if_neg (by omega),digits_def' (by decide) (by omega)]
  simp

lemma decimal_length_div (k : Nat) (h : 10^k ≤ n) :
    (decimal n).length = (decimal (n / 10^k)).length + k := by
  induction k with
  | zero => simp
  | succ k ih =>
    rw [pow_succ] at h ⊢
    have hk : 10 ≤ n / 10^k := (Nat.le_div_iff_mul_le (Nat.pow_pos (by decide))).mpr (by omega)
    rw [ih (by omega),decimal_split hk,Nat.div_div_eq_div_mul]
    simp
    omega

lemma decimal_length_of (k : Nat) (hl : 10^k ≤ n) (hu : n < 10^k * 10) :
    (decimal n).length = k+1 := by
  rw [decimal_length_div k hl,decimal_of_lt (Nat.div_lt_of_lt_mul hu)]
  exact add_comm 1 k

end RedRock.Lib
