import Mathlib

namespace RedRock.Lib
open List
variable {α : Type}

abbrev Bytes : Type := List UInt8

/-- The `w` low bytes of `v`, least significant first. -/
def leBytes : Nat → Nat → Bytes
  | 0, _ => []
  | w+1, v => UInt8.ofNat v :: leBytes w (v / 256)

def leNat : Bytes → Nat
  | [] => 0
  | b :: bs => b.toNat + 256 * leNat bs

@[simp] lemma leBytes_length (w v : Nat) : (leBytes w v).length = w := by
  induction w generalizing v with
  | zero => rfl
  | succ w ih => simp [leBytes,ih]

lemma leNat_lt (bs : Bytes) : leNat bs < 256 ^ bs.length := by
  induction bs with
  | nil => simp [leNat]
  | cons b bs ih =>
    have hb := b.toNat_lt
    simp only [leNat,length_cons,Nat.pow_succ]
    omega

lemma leNat_leBytes (w v : Nat) (h : v < 256 ^ w) : leNat (leBytes w v) = v := by
  induction w generalizing v with
  | zero =>
    simp only [Nat.pow_zero] at h
    simp only [leBytes,leNat]
    omega
  | succ w ih =>
    have hd : v / 256 < 256 ^ w := by
      rw [Nat.pow_succ] at h
      omega
    simp only [leBytes,leNat,ih _ hd,UInt8.toNat_ofNat']
    omega

/-- Read a `w`-byte little-endian number; `none` when fewer bytes are left. -/
def takeLe (w : Nat) (bs : Bytes) : Option (Nat × Bytes) :=
  if bs.length < w then none else some (leNat (bs.take w),bs.drop w)

lemma takeLe_leBytes (w v : Nat) (h : v < 256 ^ w) (rest : Bytes) :
    takeLe w (leBytes w v ++ rest) = some (v,rest) := by
  have hl : ¬ (leBytes w v ++ rest).length < w := by
    simp only [length_append,leBytes_length]
    omega
  rw [takeLe,if_neg hl,take_left' (leBytes_length w v),drop_left' (leBytes_length w v),
    leNat_leBytes w v h]

/-- Byte strings whose length fits in `w` bytes. -/
abbrev Blob (w : Nat) : Type := {s : Bytes // s.length < 256 ^ w}

def putBlob {w : Nat} (s : Blob w) : Bytes := leBytes w s.val.length ++ s.val

lemma putBlob_ne_nil {w : Nat} (hw : 0 < w) (s : Blob w) : putBlob s ≠ [] := by
  intro h
  have hl := congrArg List.length h
  simp only [putBlob,length_append,leBytes_length,length_nil] at hl
  omega

def getBlob (w : Nat) (bs : Bytes) : Option (Blob w × Bytes) :=
  if hw : w ≤ bs.length then
    if leNat (bs.take w) ≤ (bs.drop w).length then
      some (⟨(bs.drop w).take (leNat (bs.take w)),by
        have hn := leNat_lt (bs.take w)
        rw [length_take,min_eq_left hw] at hn
        exact lt_of_le_of_lt (length_take_le _ _) hn⟩,
        (bs.drop w).drop (leNat (bs.take w)))
    else none
  else none

lemma getBlob_putBlob {w : Nat} (s : Blob w) (rest : Bytes) :
    getBlob w (putBlob s ++ rest) = some (s,rest) := by
  have ht : (putBlob s ++ rest).take w = leBytes w s.val.length := by
    rw [putBlob,append_assoc,take_left' (leBytes_length w _)]
  have hd : (putBlob s ++ rest).drop w = s.val ++ rest := by
    rw [putBlob,append_assoc,drop_left' (leBytes_length w _)]
  have hw : w ≤ (putBlob s ++ rest).length := by
    simp only [putBlob,length_append,leBytes_length]
    omega
  have hn : leNat ((putBlob s ++ rest).take w) = s.val.length := by
    rw [ht,leNat_leBytes w _ s.property]
  simp only [getBlob,dif_pos hw,hn,hd]
  simp

/-- Read items until no bytes are left. Every item takes at least one byte, so
the number of bytes bounds the number of rounds. -/
def getMany {α : Type} (get : Bytes → Option (α × Bytes)) : Nat → Bytes → Option (List α)
  | _, [] => some []
  | 0, _ :: _ => none
  | fuel+1, b :: bs => do
    let (a,rest) ← get (b :: bs)
    let as ← getMany get fuel rest
    pure (a :: as)

variable {put : α → Bytes} {get : Bytes → Option (α × Bytes)}

lemma getMany_flatMap (hne : ∀ a, put a ≠ [])
    (hget : ∀ a rest, get (put a ++ rest) = some (a,rest)) (as : List α) (fuel : Nat)
    (hf : as.length ≤ fuel) : getMany get fuel (as.flatMap put) = some as := by
  induction as generalizing fuel with
  | nil => cases fuel <;> rfl
  | cons a as ih =>
    cases fuel with
    | zero => simp at hf
    | succ fuel =>
      have hr := ih fuel (by simpa using hf)
      have ha := hget a (as.flatMap put)
      rw [flatMap_cons]
      cases hb : put a ++ as.flatMap put with
      | nil => exact absurd (append_eq_nil_iff.mp hb).1 (hne a)
      | cons b bs =>
        rw [hb] at ha
        simp [getMany,ha,hr]

lemma length_le_flatMap (hne : ∀ a, put a ≠ []) (as : List α) :
    as.length ≤ (as.flatMap put).length := by
  induction as with
  | nil => simp
  | cons a as ih =>
    have ha := length_pos_iff.mpr (hne a)
    simp only [length_cons,flatMap_cons,length_append]
    omega

def getTimes {α : Type} (get : Bytes → Option (α × Bytes)) : Nat → Bytes → Option (List α × Bytes)
  | 0, bs => some ([],bs)
  | k+1, bs => do
    let (a,rest) ← get bs
    let (as,rest) ← getTimes get k rest
    pure (a :: as,rest)

lemma getTimes_flatMap
    (hget : ∀ a rest, get (put a ++ rest) = some (a,rest)) (as : List α) (rest : Bytes) :
    getTimes get as.length (as.flatMap put ++ rest) = some (as,rest) := by
  induction as with
  | nil => rfl
  | cons a as ih => simp [getTimes,append_assoc,hget,ih]

/-! Bytes in memory. -/

def bytesAt (m : Nat → UInt8) (a w : Nat) : Bytes := (List.range w).map fun i => m (a + i)

def putAt (m : Nat → UInt8) (a : Nat) (bs : Bytes) : Nat → UInt8 :=
  fun x => if a ≤ x then bs.getD (x - a) (m x) else m x

section Memory
variable {m : Nat → UInt8} {a c k n w : Nat} {bs : Bytes}

@[simp] lemma bytesAt_length : (bytesAt m a w).length = w := by simp [bytesAt]

variable (m a bs) in
lemma bytesAt_putAt_self : bytesAt (putAt m a bs) a bs.length = bs := by
  apply ext_getElem (by simp)
  intro i h _
  simp_all [bytesAt,putAt]

lemma bytesAt_putAt_of_disjoint (h : c + w ≤ a ∨ a + bs.length ≤ c) :
    bytesAt (putAt m a bs) c w = bytesAt m c w := by
  apply ext_getElem (by simp)
  intro i hi _
  simp only [bytesAt_length] at hi
  simp only [bytesAt,putAt,getElem_map,getElem_range]
  split
  · have hle : bs.length ≤ c + i - a := by omega
    simp [getElem?_eq_none hle]
  · rfl

lemma bytesAt_putAt_inside {m' : Nat → UInt8} (h : k + w ≤ n) :
    bytesAt (putAt m a (bytesAt m' c n)) (a + k) w = bytesAt m' (c + k) w := by
  apply ext_getElem (by simp)
  intro i hi _
  simp only [bytesAt_length] at hi
  simp [bytesAt,putAt,add_assoc,show k + i < n by omega]

end Memory

end RedRock.Lib
