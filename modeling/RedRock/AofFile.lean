import RedRock.Protocol
import RedRock.Quicklist

/-!
The commands of an append only file. `catAppendOnlyGenericCommand` writes one command, and
`loadAppendOnlyFile` reads one with the calls of the C library. What is written is read
back, and a file that ends inside a command is seen to end there.
-/

namespace RedRock
open Lib List Nat
variable {k : Nat} {s : Bytes} {argv : List Bytes} {l : Bytes} {a : Bytes}

def lengthLine (mark : UInt8) (n : Nat) : Bytes := mark :: (decimal n ++ [13,10])

def catBulk (a : Bytes) : Bytes := lengthLine 36 a.length ++ a ++ [13,10]

def catAppendOnlyGenericCommand (argv : List Bytes) : Bytes :=
  lengthLine 42 argv.length ++ argv.flatMap catBulk

/-- A line of at most `n` bytes, the rest, and whether the end of the file was met. -/
def takeLine : Nat → Bytes → Bytes × Bytes × Bool
  | 0, s => ([],s,false)
  | _ + 1, [] => ([],[],true)
  | n + 1, b :: s =>
    if b = 10 then ([b],s,false)
    else
      let (line,rest,feof) := takeLine n s
      (b :: line,rest,feof)

def fgets (size : Nat) (s : Bytes) : Option (Bytes × Bytes × Bool) :=
  if s = [] then none else some (takeLine (size - 1) s)

def fread (len : Nat) (s : Bytes) : Option (Bytes × Bytes) :=
  if len ≤ s.length then some (s.take len,s.drop len) else none

/-- The leading number of a C string, within the range of `long`. -/
def strtol (s : Bytes) : Int :=
  match (cstr s).dropWhile isspace with
  | 45 :: ds => max (-(decimalVal (ds.takeWhile isDigit) : Int)) (-2 ^ 63)
  | 43 :: ds => min (decimalVal (ds.takeWhile isDigit) : Int) (2 ^ 63 - 1)
  | ds => min (decimalVal (ds.takeWhile isDigit) : Int) (2 ^ 63 - 1)

def atoi (s : Bytes) : Int := (BitVec.ofInt 32 (strtol s)).toInt

/-- What came of reading: a value and the rest of the file, or the label jumped to.
A length that is negative asks for more memory than there is. -/
inductive AofRead (α : Type) where
  | done (a : α) (rest : Bytes)
  | readerr (feof : Bool)
  | fmterr
  | outOfMemory
  deriving DecidableEq

def readArgument (s : Bytes) : AofRead Bytes :=
  match fgets 128 s with
  | none => .readerr true
  | some (buf,s,_) =>
    if buf.head? ≠ some 36 then .fmterr
    else
      let len := strtol (buf.drop 1)
      if len < 0 then .outOfMemory
      else
        match fread len.toNat s with
        | none => .readerr true
        | some (argsds,s) =>
          match fread 2 s with
          | none => .readerr true
          | some (_,s) => .done argsds s

def readArguments : Nat → Bytes → AofRead (List Bytes)
  | 0, s => .done [] s
  | argc + 1, s =>
    match readArgument s with
    | .done a s =>
      match readArguments argc s with
      | .done argv s => .done (a :: argv) s
      | r => r
    | .readerr feof => .readerr feof
    | .fmterr => .fmterr
    | .outOfMemory => .outOfMemory

def readCommand (s : Bytes) : Option (AofRead (List Bytes)) :=
  match fgets 128 s with
  | none => none
  | some (buf,s,feof) =>
    if buf.head? ≠ some 42 then some .fmterr
    else if (buf.drop 1).headD 0 = 0 then some (.readerr feof)
    else
      let argc := atoi (buf.drop 1)
      if argc < 1 then some .fmterr else some (readArguments argc.toNat s)

lemma takeLine_append (hl : (10 : UInt8) ∉ l) (rest : Bytes) (n : Nat) :
    takeLine (l.length + n) (l ++ rest) = (l ++ (takeLine n rest).1,(takeLine n rest).2) := by
  induction l with
  | nil => simp
  | cons b l ih =>
    rw [mem_cons,not_or] at hl
    rw [length_cons,add_right_comm]
    simp only [cons_append,takeLine,if_neg (Ne.symm hl.1),ih hl.2]

lemma takeLine_newline (hl : (10 : UInt8) ∉ l) (rest : Bytes) {n : Nat} (hn : l.length < n) :
    takeLine n (l ++ 10 :: rest) = (l ++ [10],rest,false) := by
  obtain ⟨n,rfl⟩ := Nat.exists_eq_add_of_lt hn
  exact takeLine_append hl (10 :: rest) (n + 1)

lemma takeLine_end (hl : (10 : UInt8) ∉ l) {n : Nat} (hn : l.length < n) :
    takeLine n l = (l,[],true) := by
  obtain ⟨n,rfl⟩ := Nat.exists_eq_add_of_lt hn
  simpa [takeLine,add_assoc] using takeLine_append hl [] (n + 1)

lemma prefix_crlf {tail : Bytes} (h : tail <+: [13,10]) :
    tail = [] ∨ tail = [13] ∨ tail = [13,10] := by
  rcases prefix_cons_iff.mp h with h | ⟨t,rfl,ht⟩
  · exact .inl h
  rcases prefix_cons_iff.mp ht with rfl | ⟨u,rfl,hu⟩
  · exact .inr (.inl rfl)
  rw [prefix_nil.mp hu]
  exact .inr (.inr rfl)

lemma isspace_of_isDigit {b : UInt8} (hb : IsDigit b) : isspace b = false := by
  obtain ⟨hlo,hhi⟩ := hb.toNat
  simp only [isspace,decide_eq_false_iff_not,UInt8.le_iff_toNat_le,← UInt8.toNat_inj]
  change ¬ (b.toNat = 32 ∨ 9 ≤ b.toNat ∧ b.toNat ≤ 13)
  omega

lemma strtol_digits {ds tail : Bytes} (hne : ds ≠ []) (hd : ∀ b ∈ ds, IsDigit b)
    (htail : tail <+: [13,10]) (hv : decimalVal ds < 2 ^ 63) :
    strtol (ds ++ tail) = decimalVal ds := by
  have hnul : ∀ b ∈ ds ++ tail, b ≠ 0 := by
    intro b hb
    rcases mem_append.mp hb with hb | hb
    · rintro rfl
      exact absurd (hd 0 hb) (by decide)
    rintro rfl
    exact absurd (htail.subset hb) (by decide)
  have hcstr : cstr (ds ++ tail) = ds ++ tail := by
    apply takeWhile_eq_self_iff.mpr
    simpa using hnul
  have htake : (ds ++ tail).takeWhile isDigit = ds := by
    rw [takeWhile_append_of_pos fun b hb => isDigit_iff.mpr (hd b hb)]
    rcases prefix_crlf htail with rfl | rfl | rfl
    all_goals exact List.append_nil ds
  unfold strtol
  rw [hcstr]
  cases ds with
  | nil => exact absurd rfl hne
  | cons d ds =>
    have hdig := hd d (by simp)
    rw [cons_append,dropWhile_cons_of_neg (by simp [isspace_of_isDigit hdig])]
    split
    · rename_i he
      obtain ⟨rfl,_⟩ := List.cons.inj he
      exact absurd hdig (by decide)
    · rename_i he
      obtain ⟨rfl,_⟩ := List.cons.inj he
      exact absurd hdig (by decide)
    rw [← cons_append,htake]
    omega

lemma strtol_of_string2ll {v : Int} (h : string2ll s = some v) : strtol s = v := by
  rcases string2ll_some.mp h with ⟨rfl,rfl⟩ | ⟨t,rfl,ht⟩ | ht
  · rfl
  · obtain ⟨hnum,hv,hle⟩ := string2llDigits_some.mp ht
    have hdig : ∀ b ∈ t, IsDigit b := by
      cases t with
      | nil => exact hnum.elim
      | cons b t => exact hnum.2
    have hnul : ∀ b ∈ (45 :: t : Bytes), b ≠ 0 := by
      rw [forall_mem_cons]
      refine ⟨by decide,?_⟩
      rintro b hb rfl
      exact absurd (hdig 0 hb) (by decide)
    have hcstr : cstr (45 :: t) = 45 :: t := by
      apply takeWhile_eq_self_iff.mpr
      simpa using hnul
    have htake : t.takeWhile isDigit = t :=
      takeWhile_eq_self_iff.mpr fun b hb => isDigit_iff.mpr (hdig b hb)
    have hspace : (45 :: t : Bytes).dropWhile isspace = 45 :: t := dropWhile_cons_of_neg (by decide)
    rw [strtol,hcstr,hspace]
    simp only [htake]
    omega
  obtain ⟨hnum,hv,hlt⟩ := string2llDigits_some.mp ht
  have hne : s ≠ [] := by
    rintro rfl
    exact hnum
  have hdig : ∀ b ∈ s, IsDigit b := by
    cases s with
    | nil => exact hnum.elim
    | cons b t => exact hnum.2
  have hs := strtol_digits hne hdig ( nil_prefix (l := [13,10])) hlt
  rw [List.append_nil] at hs
  rw [hs,hv]

section
variable (mark : UInt8) {n : Nat}

lemma lengthLine_length (hn : n < 2 ^ 63) : (lengthLine mark n).length ≤ 22 := by
  have hd : (decimal n).length ≤ 19 := decimal_length_le (by decide) (by omega)
  simp only [lengthLine,length_cons,length_append,length_nil]
  omega

lemma lengthLine_eq (n : Nat) : lengthLine mark n = mark :: (decimal n ++ [13]) ++ [10] := by
  simp [lengthLine]

lemma newline_not_mem (hm : mark ≠ 10) : (10 : UInt8) ∉ mark :: (decimal n ++ [13]) := by
  intro h
  rcases mem_cons.mp h with h | h
  · exact hm h.symm
  rcases mem_append.mp h with h | h
  · exact absurd (decimal_isDigit n 10 h) (by decide)
  · exact absurd h (by decide)

lemma fgets_lengthLine (hm : mark ≠ 10) (hn : n < 2 ^ 63) (rest : Bytes) :
    fgets 128 (lengthLine mark n ++ rest) = some (lengthLine mark n,rest,false) := by
  have hlen := lengthLine_length mark hn
  rw [lengthLine_eq,length_append,length_singleton] at hlen
  rw [fgets,if_neg (by simp [lengthLine]),lengthLine_eq,append_assoc,singleton_append,
    takeLine_newline (newline_not_mem mark hm) rest (by omega)]

lemma fgets_take_lengthLine (hm : mark ≠ 10) (hn : n < 2 ^ 63) (h0 : k ≠ 0)
    (hk : k < (lengthLine mark n).length) :
    fgets 128 ((lengthLine mark n).take k) = some ((lengthLine mark n).take k,[],true) := by
  have hlen := lengthLine_length mark hn
  have hnl : (10 : UInt8) ∉ (lengthLine mark n).take k := by
    intro h
    rw [lengthLine_eq] at h hk
    rw [length_append,length_singleton] at hk
    rw [take_append_of_le_length (by omega)] at h
    exact newline_not_mem mark hm (mem_of_mem_take h)
  have hne : (lengthLine mark n).take k ≠ [] := by
    rw [← length_pos_iff,length_take]
    omega
  rw [fgets,if_neg hne,takeLine_end hnl (by rw [length_take]; omega)]

lemma strtol_lengthLine (hn : n < 2 ^ 63) : strtol ((lengthLine mark n).drop 1) = n := by
  have h : strtol (decimal n ++ [13,10]) = decimalVal (decimal n) :=
    strtol_digits (decimal_ne_nil n) (decimal_isDigit n) (prefix_refl _)
      (by rw [decimalVal_decimal]; exact hn)
  rw [decimalVal_decimal] at h
  exact h

lemma strtol_take_lengthLine (hn : n < 2 ^ 63) (k : Nat) :
    strtol (((lengthLine mark n).take (k + 2)).drop 1) = decimalVal ((decimal n).take (k + 1)) := by
  have hdrop : ((lengthLine mark n).take (k + 2)).drop 1 =
      (decimal n).take (k + 1) ++ [13,10].take (k + 1 - (decimal n).length) := by
    rw [lengthLine,take_succ_cons,drop_succ_cons,drop_zero,take_append]
  have hle : decimalVal ((decimal n).take (k + 1)) ≤ n := by
    conv_rhs => rw [← decimalVal_decimal n]
    exact decimalVal_take_le _ _
  rw [hdrop]
  apply strtol_digits
  · simpa using decimal_ne_nil n
  · exact fun b hb => decimal_isDigit n b (mem_of_mem_take hb)
  · exact take_prefix _ _
  · omega

end

lemma fread_append (a rest : Bytes) : fread a.length (a ++ rest) = some (a,rest) := by
  rw [fread,if_pos (by simp),take_left,drop_left]

lemma fread_short {len : Nat} (h : s.length < len) : fread len s = none :=
  if_neg (not_le.mpr h)

lemma readArgument_nil : readArgument [] = .readerr true := rfl

lemma readArgument_catBulk (ha : a.length < 2 ^ 63) (rest : Bytes) :
    readArgument (catBulk a ++ rest) = .done a rest := by
  have hline : catBulk a ++ rest = lengthLine 36 a.length ++ (a ++ ([13,10] ++ rest)) := by
    simp [catBulk]
  have hcr : fread 2 ([13,10] ++ rest) = some ([13,10],rest) := fread_append [13,10] rest
  rw [hline,readArgument,fgets_lengthLine 36 (by decide) ha]
  simp only [strtol_lengthLine 36 ha,Int.toNat_natCast,fread_append,hcr]
  rw [if_neg (by simp [lengthLine]),if_neg (by omega)]

lemma readArgument_lengthLine_part {n k : Nat} (hn : n < 2 ^ 63)
    (hk : k < (lengthLine 36 n).length) :
    readArgument ((lengthLine 36 n).take k) = .readerr true := by
  rcases k with _ | _ | k
  · rfl
  · rfl
  rw [readArgument,fgets_take_lengthLine 36 (by decide) hn (by omega) hk]
  simp only [strtol_take_lengthLine 36 hn,Int.toNat_natCast]
  rw [if_neg (by simp [lengthLine]),if_neg (by omega)]
  rcases Nat.eq_zero_or_pos (decimalVal ((decimal n).take (k + 1))) with h0 | hpos
  · rw [h0]
    rfl
  · rw [fread_short (by simpa using hpos)]

lemma readArgument_part (ha : a.length < 2 ^ 63) (hk : k < (catBulk a).length) :
    readArgument ((catBulk a).take k) = .readerr true := by
  rw [catBulk,append_assoc] at hk ⊢
  rw [length_append] at hk
  rcases lt_or_ge k (lengthLine 36 a.length).length with hlt | hge
  · rw [take_append_of_le_length (le_of_lt hlt)]
    exact readArgument_lengthLine_part ha hlt
  rw [take_append,take_of_length_le hge]
  generalize hj : k - (lengthLine 36 a.length).length = j
  rw [readArgument,fgets_lengthLine 36 (by decide) ha]
  simp only [strtol_lengthLine 36 ha,Int.toNat_natCast]
  rw [if_neg (by simp [lengthLine]),if_neg (by omega)]
  rcases lt_or_ge j a.length with hpay | hpay
  · rw [fread_short (by rw [length_take]; omega)]
  rw [take_append,take_of_length_le hpay,fread_append]
  simp only
  rw [length_append] at hk
  rw [fread_short (by rw [length_take]; simp at hk; omega)]

lemma readArguments_append (hlen : ∀ a ∈ argv, a.length < 2 ^ 63) (rest : Bytes) :
    readArguments argv.length (argv.flatMap catBulk ++ rest) = .done argv rest := by
  induction argv with
  | nil => rfl
  | cons a argv ih =>
    rw [forall_mem_cons] at hlen
    simp only [length_cons,flatMap_cons,append_assoc,readArguments,
      readArgument_catBulk hlen.1,ih hlen.2]

lemma readArguments_part (hlen : ∀ a ∈ argv, a.length < 2 ^ 63)
    (hk : k < (argv.flatMap catBulk).length) :
    readArguments argv.length ((argv.flatMap catBulk).take k) = .readerr true := by
  induction argv generalizing k with
  | nil => exact absurd hk (not_lt_zero k)
  | cons a argv ih =>
    rw [forall_mem_cons] at hlen
    rw [flatMap_cons,length_append] at hk
    rw [flatMap_cons,length_cons,readArguments]
    rcases lt_or_ge k (catBulk a).length with hlt | hge
    · rw [take_append_of_le_length (le_of_lt hlt),readArgument_part hlen.1 hlt]
    rw [take_append,take_of_length_le hge]
    simp only [readArgument_catBulk hlen.1,ih hlen.2 (k := k - (catBulk a).length) (by omega)]

/-- An argument vector that can be written: `argc` is an `int`, the lengths are `size_t`. -/
structure Argv where
  argv : List Bytes
  ne_nil : argv ≠ []
  argc_lt : argv.length < 2 ^ 31
  length_lt : ∀ a ∈ argv, a.length < 2 ^ 63
  deriving DecidableEq

namespace Argv

variable (c : Argv)

def bytes : Bytes := catAppendOnlyGenericCommand c.argv

lemma bytes_ne_nil : c.bytes ≠ [] := by
  simp [bytes,catAppendOnlyGenericCommand,lengthLine]

lemma argc_pos : 0 < c.argv.length := length_pos_iff.mpr c.ne_nil

lemma atoi_count {v : Nat} (h : strtol s = v) (hv : v < 2 ^ 31) : atoi s = v := by
  rw [atoi,h,BitVec.toInt_ofInt]
  exact Int.bmod_eq_of_le (by omega) (by omega)

lemma readCommand_count {s buf rest : Bytes} {feof : Bool} {d : UInt8} {v : Nat}
    (hline : fgets 128 s = some (buf,rest,feof)) (hmark : buf.head? = some 42)
    (hdigit : (buf.drop 1).head? = some d) (hd : IsDigit d) (hcount : strtol (buf.drop 1) = v)
    (hpos : 1 ≤ v) (hlt : v < 2 ^ 31) : readCommand s = some (readArguments v rest) := by
  have hnul : (buf.drop 1).headD 0 ≠ 0 := by
    rw [headD_eq_head?_getD,hdigit]
    rintro rfl
    exact absurd hd (by decide)
  rw [readCommand,hline]
  simp only [hmark,atoi_count hcount hlt,if_neg hnul,Int.toNat_natCast]
  rw [if_neg (by simp),if_neg (by omega)]

lemma decimal_head (n : Nat) : ∃ d ds, decimal n = d :: ds ∧ IsDigit d := by
  have hd := decimal_isDigit n
  cases he : decimal n with
  | nil => exact absurd he (decimal_ne_nil n)
  | cons d ds =>
    rw [he] at hd
    exact ⟨d,ds,rfl,hd d (by simp)⟩

lemma readCommand_lengthLine (rest : Bytes) : readCommand (lengthLine 42 c.argv.length ++ rest) =
      some (readArguments c.argv.length rest) := by
  have hlt := c.argc_lt
  obtain ⟨d,ds,he,hd⟩ := decimal_head c.argv.length
  refine readCommand_count (fgets_lengthLine 42 (by decide) (by omega) rest) rfl (d := d) ?_ hd
    (strtol_lengthLine 42 (by omega)) c.argc_pos hlt
  simp [lengthLine,he]

lemma readCommand_bytes (rest : Bytes) :
    readCommand (c.bytes ++ rest) = some (.done c.argv rest) := by
  rw [bytes,catAppendOnlyGenericCommand,append_assoc,c.readCommand_lengthLine,
    readArguments_append c.length_lt]

lemma readCommand_lengthLine_part {n k : Nat} (hn : n ≠ 0) (hlt : n < 2 ^ 31) (h0 : k ≠ 0)
    (hk : k < (lengthLine 42 n).length) :
    readCommand ((lengthLine 42 n).take k) = some (.readerr true) := by
  rcases k with _ | _ | k
  · exact absurd rfl h0
  · rfl
  obtain ⟨d,ds,he,hd⟩ := decimal_head n
  have hnum := (numeral_decimal hn).take k
  have hle := decimalVal_take_le (decimal n) (k + 1)
  rw [decimalVal_decimal] at hle
  have hpos := pos_of_ne_zero hnum.decimalVal_ne_zero
  obtain ⟨v,hv⟩ := exists_eq_succ_of_ne_zero (ne_of_gt hpos)
  rw [readCommand_count (fgets_take_lengthLine 42 (by decide) (by omega) h0 hk) rfl (d := d)
    (by simp [lengthLine,he]) hd (strtol_take_lengthLine 42 (by omega) k) hpos (by omega),hv]
  rfl

lemma readCommand_part (h0 : k ≠ 0) (hk : k < c.bytes.length) :
    readCommand (c.bytes.take k) = some (.readerr true) := by
  rw [bytes,catAppendOnlyGenericCommand] at hk ⊢
  rw [length_append] at hk
  rcases lt_or_ge k (lengthLine 42 c.argv.length).length with hline | hline
  · rw [take_append_of_le_length (le_of_lt hline)]
    exact readCommand_lengthLine_part (ne_of_gt c.argc_pos) c.argc_lt h0 hline
  rw [take_append,take_of_length_le hline,c.readCommand_lengthLine,
    readArguments_part c.length_lt (by omega)]

end Argv
end RedRock
