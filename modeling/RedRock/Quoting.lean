import RedRock.Protocol

/-! `sds.c`: the quoted form that `sdscatrepr` writes and `sdssplitargs` reads. -/

namespace RedRock
open Lib List

def isprint (b : UInt8) : Bool := 32 ≤ b ∧ b ≤ 126

/-- A digit of `%02x`. -/
def hexDigit (d : UInt8) : UInt8 := if d < 10 then 48 + d else 87 + d

def reprByte (b : UInt8) : Bytes :=
  if b = 92 ∨ b = 34 then [92,b]
  else if b = 10 then [92,110]
  else if b = 13 then [92,114]
  else if b = 9 then [92,116]
  else if b = 7 then [92,97]
  else if b = 8 then [92,98]
  else if isprint b then [b]
  else [92,120,hexDigit (b/16),hexDigit (b%16)]

def sdscatrepr (s : Sds) (p : Bytes) : Sds := s ++ [34] ++ p.flatMap reprByte ++ [34]

variable {current rest : Bytes} {b x : UInt8}

lemma hexDigit_read (b : UInt8) : isHexDigit (hexDigit (b/16)) ∧ isHexDigit (hexDigit (b%16)) ∧
    hexDigitToInt (hexDigit (b/16)) * 16 + hexDigitToInt (hexDigit (b%16)) = b := by
  have h : ∀ n < 256, let b := UInt8.ofNat n
    isHexDigit (hexDigit (b/16)) ∧ isHexDigit (hexDigit (b%16)) ∧
    hexDigitToInt (hexDigit (b/16)) * 16 + hexDigitToInt (hexDigit (b%16)) = b := by decide +kernel
  simpa using h b.toNat b.toNat_lt

lemma inq_escape (hx : x ≠ 120) : splitargsFrom .inq current (92 :: x :: rest) =
    splitargsFrom .inq (current ++ [unescape x]) rest := by
  rcases rest with _ | ⟨a,_ | ⟨b,rest⟩⟩ <;> simp [splitargsFrom,hx]

lemma inq_reprByte (b : UInt8) : splitargsFrom .inq current (reprByte b ++ rest) =
    splitargsFrom .inq (current ++ [b]) rest := by
  unfold reprByte
  split_ifs with h
  · rcases h with rfl | rfl <;> exact inq_escape (by decide)
  any_goals
    subst b
    exact inq_escape (by decide)
  · rw [not_or] at h
    rw [singleton_append,splitargsFrom.eq_def]
    simp [h]
  · obtain ⟨ha,hb,hv⟩ := hexDigit_read b
    simp [splitargsFrom,ha,hb,hv]

lemma inq_repr (p : Bytes) : splitargsFrom .inq current (p.flatMap reprByte ++ 34 :: rest) =
    if closes rest then (splitargsFrom .blank [] rest).map ((current ++ p) :: ·) else none := by
  induction p generalizing current with
  | nil =>
    rw [flatMap_nil,nil_append,splitargsFrom.eq_def]
    simp
  | cons b p ih => rw [flatMap_cons,append_assoc,inq_reprByte,ih,append_assoc,singleton_append]

lemma blank_repr (p : Bytes) : splitargsFrom .blank current (sdscatrepr [] p ++ rest) =
    if closes rest then (splitargsFrom .blank [] rest).map (p :: ·) else none := by
  have h : splitargsFrom .inq [] (p.flatMap reprByte ++ 34 :: rest) = _ := inq_repr p
  rw [nil_append] at h
  rw [← h]
  simp [sdscatrepr,splitargsFrom,unquoted,isspace]

lemma zero_notMem_repr (p : Bytes) : 0 ∉ sdscatrepr [] p := by
  have h : ∀ n < 256, 0 ∉ reprByte (UInt8.ofNat n) := by decide +kernel
  have hb : ∀ b, 0 ∉ reprByte b := fun b => by simpa using h b.toNat b.toNat_lt
  simp [sdscatrepr,hb]

/-- The quoted forms of the arguments, with single blanks between them, are split into them. -/
theorem splitargs_repr (args : List Bytes) :
    sdssplitargs ([32].intercalate (args.map (sdscatrepr []))) = some args := by
  have hsplit : 0 ∉ [32].intercalate (args.map (sdscatrepr [])) ∧
      splitargsFrom .blank [] ([32].intercalate (args.map (sdscatrepr []))) = some args := by
    induction args with
    | nil => exact ⟨by simp,rfl⟩
    | cons p args ih =>
      have hp := zero_notMem_repr p
      cases args with
      | nil =>
        have h : splitargsFrom .blank [] (sdscatrepr [] p ++ []) = _ := blank_repr p
        rw [append_nil] at h
        exact ⟨by simpa using hp,by simpa [closes,splitargsFrom] using h⟩
      | cons q args =>
        rw [map_cons] at ih
        rw [map_cons,map_cons,intercalate_cons_cons,append_assoc,singleton_append,blank_repr,
          if_pos (by rfl),splitargsFrom,if_pos (by decide),ih.2]
        exact ⟨by simp [hp,ih.1],rfl⟩
  rw [sdssplitargs,cstr,takeWhile_eq_self_iff.mpr ?_]
  · exact hsplit.2
  · intro c hc
    simpa using ne_of_mem_of_not_mem hc hsplit.1

end RedRock
