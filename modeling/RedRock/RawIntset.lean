import RedRock.Lib.Machine
import RedRock.Lib.Bytes

/-!
`intset.c` on the bytes of the set: the elements in increasing order, each in 2, 4 or 8 bytes. The
size of the block that holds them is a product of 32 bits.
-/

namespace RedRock
open Lib List Option Nat

/-- `size` bytes of the contents are allocated. What stands beyond them is not known. -/
structure RawIntset where
  encoding : Nat
  length : Nat
  size : Nat
  contents : Nat → UInt8

namespace RawIntset

def intsetNew : RawIntset := ⟨2,0,0,fun _ => 0⟩

def intsetValueEncoding (v : Int) : Nat :=
  if v < -2 ^ 31 ∨ v > 2 ^ 31 - 1 then 8 else if v < -2 ^ 15 ∨ v > 2 ^ 15 - 1 then 4 else 2

def element (c : Nat → UInt8) (enc pos : Nat) : Int :=
  (BitVec.ofNat (8 * enc) (leNat (bytesAt c (pos * enc) enc))).toInt

def putElement (c : Nat → UInt8) (enc pos : Nat) (v : Int) : Nat → UInt8 :=
  putAt c (pos * enc) (leBytes enc (BitVec.ofInt (8 * enc) v).toNat)

variable (is : RawIntset)

/-- `none` is an access beyond the block. -/
def intsetGetEncoded (pos enc : Nat) : Option Int :=
  if (pos + 1) * enc ≤ is.size then some (element is.contents enc pos) else none

def intsetGet (pos : Nat) : Option Int := is.intsetGetEncoded pos is.encoding

def intsetSet (pos : Nat) (v : Int) : Option RawIntset :=
  if (pos + 1) * is.encoding ≤ is.size then
    some { is with contents := putElement is.contents is.encoding pos v }
  else none

def intsetResize (len : Nat) : RawIntset := { is with size := len * is.encoding % 2 ^ 32 }

/-- The loop ends with `value == cur` only where it breaks off. -/
def searchLoop (value : Int) : Nat → Int → Int → Option (Bool × Nat)
  | 0, min, _ => some (false,min.toNat)
  | fuel+1, min, max =>
    if max < min then some (false,min.toNat)
    else do
      let mid := ((min + max) / 2).toNat
      let cur ← is.intsetGet mid
      if value > cur then searchLoop value fuel (mid + 1) max
      else if value < cur then searchLoop value fuel min (mid - 1)
      else return (true,mid)

def intsetSearch (value : Int) : Option (Bool × Nat) :=
  if is.length = 0 then some (false,0)
  else do
    if value > (← is.intsetGet (is.length - 1)) then return (false,is.length)
    else if value < (← is.intsetGet 0) then return (false,0)
    else is.searchLoop value is.length 0 (is.length - 1 : Nat)

def upgradeLoop (curenc prepend : Nat) : Nat → RawIntset → Option RawIntset
  | 0, is => some is
  | length+1, is => do
    let v ← is.intsetGetEncoded length curenc
    let is ← is.intsetSet (length + prepend) v
    upgradeLoop curenc prepend length is

def intsetUpgradeAndAdd (value : Int) : Option RawIntset := do
  let prepend := if value < 0 then 1 else 0
  let up := { is with encoding := intsetValueEncoding value }.intsetResize (is.length + 1)
  let up ← upgradeLoop is.encoding prepend is.length up
  let up ← up.intsetSet (if value < 0 then 0 else is.length) value
  return { up with length := is.length + 1 }

def intsetMoveTail (src dst : Nat) : Option RawIntset :=
  let bytes := (is.length - src) * is.encoding % 2 ^ 32
  if max src dst * is.encoding + bytes ≤ is.size then
    some { is with
      contents := putAt is.contents (dst * is.encoding)
        (bytesAt is.contents (src * is.encoding) bytes) }
  else none

/-- The block has one more element, and the place of the new one is free. -/
def makeRoom (pos : Nat) : Option RawIntset :=
  let is' := is.intsetResize (is.length + 1)
  if pos < is.length then is'.intsetMoveTail pos (pos + 1) else some is'

def intsetAdd (value : Int) : Option (Bool × RawIntset) :=
  if intsetValueEncoding value > is.encoding then (is.intsetUpgradeAndAdd value).map (true,·)
  else do
    let (found,pos) ← is.intsetSearch value
    if found then return (false,is)
    else
      let is' ← is.makeRoom pos
      let is' ← is'.intsetSet pos value
      return (true,{ is' with length := is.length + 1 })

def intsetRemove (value : Int) : Option (Bool × RawIntset) :=
  if intsetValueEncoding value ≤ is.encoding then do
    let (found,pos) ← is.intsetSearch value
    if found then
      (if pos < is.length - 1 then is.intsetMoveTail (pos + 1) pos else some is).map fun is' =>
        (true,{ is'.intsetResize (is.length - 1) with length := is.length - 1 })
    else some (false,is)
  else some (false,is)

def intsetFind (value : Int) : Option Bool :=
  if intsetValueEncoding value ≤ is.encoding then (is.intsetSearch value).map (·.1) else some false

def Fits (enc : Nat) (x : Int) : Prop := -2 ^ 63 ≤ x ∧ x < 2 ^ 63 ∧ intsetValueEncoding x ≤ enc

/-- The block holds the elements, in order, in the width that the widest of them needed. -/
structure Holds (is : RawIntset) (xs : List Int) : Prop where
  encoding : is.encoding = 2 ∨ is.encoding = 4 ∨ is.encoding = 8
  length : is.length = xs.length
  size : is.size = xs.length * is.encoding
  small : xs.length * is.encoding < 2 ^ 32
  element : ∀ k x, xs[k]? = some x → element is.contents is.encoding k = x
  fits : ∀ x ∈ xs, Fits is.encoding x
  sorted : xs.Pairwise (· < ·)

variable {is} {xs : List Int} {c : Nat → UInt8} {v : Int} {e pos k w : Nat}

lemma valueEncoding_cases (v : Int) : intsetValueEncoding v = 2 ∨ intsetValueEncoding v = 4 ∨
    intsetValueEncoding v = 8 := by
  unfold intsetValueEncoding; split_ifs <;> simp

lemma element_put_self (he : e = 2 ∨ e = 4 ∨ e = 8) (hv : Fits e v) :
    element (putElement c e pos v) e pos = v := by
  have hb := bytesAt_putAt_self c (pos * e) (leBytes e (BitVec.ofInt (8 * e) v).toNat)
  have hlt := (BitVec.ofInt (8 * e) v).isLt
  rw [leBytes_length] at hb
  rw [pow_mul] at hlt
  rw [element,putElement,hb,leNat_leBytes _ _ hlt,BitVec.ofNat_toNat,BitVec.setWidth_eq]
  obtain ⟨hl,hu,hv⟩ := hv
  unfold intsetValueEncoding at hv
  rcases he with rfl | rfl | rfl <;> split_ifs at hv <;> try omega
  all_goals exact BitVec.toInt_ofInt_eq_self (by decide) (by omega) (by omega)

lemma element_put_of_disjoint (h : (k + 1) * w ≤ pos * e ∨ (pos + 1) * e ≤ k * w) :
    element (putElement c e pos v) w k = element c w k := by
  rw [element,putElement,bytesAt_putAt_of_disjoint (by simpa [add_mul] using h),element]

lemma lt_length {x : Int} (h : xs[k]? = some x) : k < xs.length :=
  (List.getElem?_eq_some_iff.mp h).1

lemma Holds.get (h : is.Holds xs) (hk : xs[k]? = some v) : is.intsetGet k = some v := by
  have hlt := lt_length hk
  rw [intsetGet,intsetGetEncoded,if_pos (h.size ▸ mul_le_mul_right _ hlt),h.element k v hk]

lemma Holds.lt (h : is.Holds xs) {i j : Nat} {x y : Int} (hij : i < j) (hx : xs[i]? = some x)
    (hy : xs[j]? = some y) : x < y := by
  obtain ⟨hi,rfl⟩ := List.getElem?_eq_some_iff.mp hx
  obtain ⟨hj,rfl⟩ := List.getElem?_eq_some_iff.mp hy
  exact pairwise_iff_getElem.mp h.sorted i j hi hj hij

/-- The value is above the elements before `lo`, and below those from `hi` on. -/
def Between (xs : List Int) (v lo hi : Int) : Prop :=
  ∀ (k : Nat) x, xs[k]? = some x → (k < lo → x < v) ∧ (hi ≤ k → v < x)

/-- What a search tells: the place of the value, or the one where it belongs. -/
def Found (xs : List Int) (v : Int) (r : Bool × Nat) : Prop :=
  if r.1 then xs[r.2]? = some v else r.2 ≤ xs.length ∧ Between xs v r.2 r.2

lemma Holds.narrow (h : is.Holds xs) {lo hi : Int} {x : Int} (hb : Between xs v lo hi)
    (hx : xs[k]? = some x) : (x < v → Between xs v (k + 1) hi) ∧ (v < x → Between xs v lo k) := by
  refine ⟨fun hlt i y hy => ⟨fun hi => ?_,(hb i y hy).2⟩,
    fun hlt i y hy => ⟨(hb i y hy).1,fun hi => ?_⟩⟩
  · rcases lt_or_eq_of_le (show i ≤ k by omega) with hik | rfl
    · have := h.lt hik hy hx; omega
    · simp_all
  · rcases lt_or_eq_of_le (show k ≤ i by omega) with hik | rfl
    · have := h.lt hik hx hy; omega
    · simp_all

lemma Between.found {n m : Int} (hb : Between xs v n m) (hn : 0 ≤ n) (hm : m = n)
    (hl : n ≤ xs.length) : Found xs v (false,n.toNat) := by
  refine ⟨by simp; omega,?_⟩
  convert hb using 1 <;> simp <;> omega

lemma Holds.searchLoop (h : is.Holds xs) (v : Int) (fuel : Nat) {min max : Int} (hmin : 0 ≤ min)
    (hmm : min ≤ max + 1) (hmax : max < xs.length) (hf : max + 1 - min ≤ fuel)
    (hb : Between xs v min (max + 1)) :
    ∃ r, is.searchLoop v fuel min max = some r ∧ Found xs v r := by
  induction fuel generalizing min max with
  | zero => exact ⟨_,rfl,hb.found hmin (by omega) (by omega)⟩
  | succ fuel ih =>
    rw [RawIntset.searchLoop]
    by_cases hlt : max < min
    · exact ⟨_,if_pos hlt,hb.found hmin (by omega) (by omega)⟩
    have hmid : ((min + max) / 2).toNat < xs.length := by omega
    have hx := getElem?_eq_getElem hmid
    obtain ⟨hl,hu⟩ := h.narrow hb hx
    rw [if_neg hlt]
    simp only [h.get hx,bind_eq_bind,bind_some]
    split_ifs with h1 h2
    · exact ih (by omega) (by omega) hmax (by omega) (hl h1)
    · refine ih hmin (by omega) (by omega) (by omega) ?_
      convert hu h2 using 1; omega
    · exact ⟨_,rfl,by simp [Found,hx]; omega⟩

lemma Holds.search (h : is.Holds xs) (v : Int) :
    ∃ r, is.intsetSearch v = some r ∧ Found xs v r := by
  rw [intsetSearch,h.length]
  by_cases hz : xs.length = 0
  · refine ⟨_,if_pos hz,by simp,fun k x hx => ?_⟩
    simp [length_eq_zero_iff.mp hz] at hx
  have h0 := getElem?_eq_getElem (show 0 < xs.length by omega)
  have hn := getElem?_eq_getElem (show xs.length - 1 < xs.length by omega)
  rw [if_neg hz]
  simp only [h.get h0,h.get hn,bind_eq_bind,bind_some]
  have hb : Between xs v 0 xs.length := fun k x hx => by
    have := lt_length hx
    omega
  split_ifs with h1 h2
  · refine ⟨_,rfl,by simp,?_⟩
    convert (h.narrow hb hn).1 h1 using 1; simp; omega
  · exact ⟨_,rfl,by simp,(h.narrow hb h0).2 h2⟩
  · exact h.searchLoop v _ (by omega) (by omega) (by omega) (by omega) (by convert hb using 1; omega)

lemma mem_iff_of_found {r : Bool × Nat} (h : Found xs v r) : v ∈ xs ↔ r.1 = true := by
  obtain ⟨_ | _,pos⟩ := r
  · refine iff_of_false (fun hv => ?_) (by simp)
    obtain ⟨k,hk⟩ := mem_iff_getElem?.mp hv
    have := h.2 k v hk
    simp only at this
    omega
  · exact iff_of_true (mem_of_getElem? h) rfl

/-! One more element. -/

/-- The elements are where they belong with the new one at `pos`. -/
structure Inserted (c : Nat → UInt8) (e : Nat) (xs : List Int) (pos : Nat) : Prop where
  low : ∀ k x, xs[k]? = some x → k < pos → element c e k = x
  high : ∀ k x, xs[k]? = some x → pos ≤ k → element c e (k + 1) = x

lemma Inserted.holds (h : Inserted c e xs pos) (he : e = 2 ∨ e = 4 ∨ e = 8)
    (hs : xs.Pairwise (· < ·)) (hf : ∀ x ∈ v :: xs, Fits e x) (hp : pos ≤ xs.length)
    (hb : Between xs v pos pos) (hr : (xs.length + 1) * e < 2 ^ 32) :
    Holds ⟨e,xs.length + 1,(xs.length + 1) * e,putElement c e pos v⟩ (xs.insertIdx pos v) where
  encoding := he
  length := (length_insertIdx_of_le_length hp v).symm
  size := by rw [length_insertIdx_of_le_length hp]
  small := by rwa [length_insertIdx_of_le_length hp]
  element k x hk := by
    have hmul : ∀ {i j : Nat}, i ≤ j → i * e ≤ j * e := fun h => mul_le_mul_right _ h
    rw [getElem?_insertIdx] at hk
    split_ifs at hk with h1 h2 h3
    · exact (element_put_of_disjoint (.inl (hmul h1))).trans (h.low k x hk h1)
    · cases hk
      exact h2 ▸ element_put_self he (hf v (by simp))
    have hx := h.high (k - 1) x hk (by omega)
    rw [Nat.sub_add_cancel (by omega)] at hx
    exact (element_put_of_disjoint (.inr (hmul (by omega)))).trans hx
  fits x hx := hf x ((perm_insertIdx v xs hp).mem_iff.mp hx)
  sorted := by
    rw [pairwise_iff_getElem] at hs ⊢
    intro i j hi hj hij
    have hbi := fun k (hk : k < xs.length) => hb k _ (getElem?_eq_getElem hk)
    rw [length_insertIdx_of_le_length hp] at hi hj
    simp only [getElem_insertIdx]
    split_ifs
    all_goals first
      | exact hs _ _ _ _ (by omega)
      | exact (hbi _ _).1 (by omega)
      | exact (hbi _ _).2 (by omega)
      | omega

lemma upgradeLoop_spec (is : RawIntset) (cur p : Nat) (hc : cur ≤ is.encoding) (hp : p ≤ 1)
    (he : is.encoding = 2 ∨ is.encoding = 4 ∨ is.encoding = 8)
    (hsz : is.size = (xs.length + 1) * is.encoding) (hf : ∀ x ∈ xs, Fits is.encoding x)
    (hk : k ≤ xs.length) (hold : ∀ j x, xs[j]? = some x → j < k → element is.contents cur j = x)
    (hnew : ∀ j x, xs[j]? = some x → k ≤ j → element is.contents is.encoding (j + p) = x) :
    ∃ c, upgradeLoop cur p k is = some { is with contents := c } ∧
      ∀ j x, xs[j]? = some x → element c is.encoding (j + p) = x := by
  induction k generalizing is with
  | zero => exact ⟨is.contents,rfl,fun j x hx => hnew j x hx (by omega)⟩
  | succ k ih =>
    have hx := getElem?_eq_getElem (show k < xs.length by omega)
    have hle : ∀ {i j : Nat}, i ≤ j → i * cur ≤ j * is.encoding := fun h => Nat.mul_le_mul h hc
    have hmul : ∀ {i j : Nat}, i ≤ j → i * is.encoding ≤ j * is.encoding :=
      fun h => mul_le_mul_right _ h
    rw [upgradeLoop,intsetGetEncoded,if_pos (hsz ▸ hle (by omega)),hold k _ hx (by omega)]
    simp only [bind_eq_bind,bind_some,intsetSet,
      if_pos (show (k + p + 1) * is.encoding ≤ is.size from hsz ▸ hmul (by omega))]
    refine ih ⟨is.encoding,is.length,is.size,_⟩ hc he hsz hf (by omega)
      (fun j x hj hlt => ?_) fun j x hj hle' => ?_
    · exact (element_put_of_disjoint (.inl (hle (by omega)))).trans (hold j x hj (by omega))
    · rcases lt_or_eq_of_le hle' with hlt | rfl
      · exact (element_put_of_disjoint (.inr (hmul (by omega)))).trans (hnew j x hj hlt)
      cases hx.symm.trans hj
      exact element_put_self he (hf _ (getElem_mem _))

lemma beyond_of_encoding {x : Int} (h : intsetValueEncoding x < intsetValueEncoding v) :
    if v < 0 then v < x else x < v := by
  unfold intsetValueEncoding at h
  split_ifs at h ⊢ <;> omega

lemma moveTail_spec (is : RawIntset) (src dst : Nat)
    (hn : (is.length - src) * is.encoding < 2 ^ 32)
    (hsz : max src dst * is.encoding + (is.length - src) * is.encoding ≤ is.size) :
    ∃ c, is.intsetMoveTail src dst = some { is with contents := c } ∧
      (∀ k < dst, element c is.encoding k = element is.contents is.encoding k) ∧
      ∀ k, src + k < is.length →
        element c is.encoding (dst + k) = element is.contents is.encoding (src + k) := by
  refine ⟨putAt is.contents (dst * is.encoding)
    (bytesAt is.contents (src * is.encoding) ((is.length - src) * is.encoding)),
    by simp only [intsetMoveTail,mod_eq_of_lt hn,if_pos hsz],fun k hk => ?_,fun k hk => ?_⟩
  · have hle := mul_le_mul_right is.encoding (show k + 1 ≤ dst from hk)
    rw [element,bytesAt_putAt_of_disjoint (.inl (by simpa [add_mul] using hle)),element]
  · have hle := mul_le_mul_right is.encoding (show k + 1 ≤ is.length - src by omega)
    rw [element,add_mul dst k,bytesAt_putAt_inside (by simpa [add_mul] using hle),element,
      add_mul src k]

section
variable (h : is.Holds xs)
include h

lemma Holds.upgrade (hv : -2 ^ 63 ≤ v ∧ v < 2 ^ 63) (hgt : is.encoding < intsetValueEncoding v)
    (hr : (xs.length + 1) * intsetValueEncoding v < 2 ^ 32) :
    ∃ is' pos, is.intsetUpgradeAndAdd v = some is' ∧ pos ≤ xs.length ∧
      is'.Holds (xs.insertIdx pos v) := by
  generalize he : intsetValueEncoding v = e at hgt hr
  have hf : ∀ x ∈ v :: xs, Fits e x := by
    simp only [mem_cons,forall_eq_or_imp]
    exact ⟨⟨hv.1,hv.2,he.le⟩,fun x hx => ⟨(h.fits x hx).1,(h.fits x hx).2.1,
      ((h.fits x hx).2.2.trans_lt hgt).le⟩⟩
  have hb : Between xs v (if v < 0 then 0 else xs.length : Nat)
      (if v < 0 then 0 else xs.length : Nat) := by
    intro k x hx
    have hx' := beyond_of_encoding (he ▸ (h.fits x (mem_of_getElem? hx)).2.2.trans_lt hgt)
    have := lt_length hx
    split_ifs at hx' ⊢ <;> omega
  have hsize : (xs.length + 1) * e % 2 ^ 32 = (xs.length + 1) * e := mod_eq_of_lt hr
  obtain ⟨c,hc,hel⟩ := upgradeLoop_spec ⟨e,xs.length,(xs.length + 1) * e,is.contents⟩ is.encoding
    (if v < 0 then 1 else 0) hgt.le (by split_ifs <;> omega) (he ▸ valueEncoding_cases v) rfl
    (fun x hx => hf x (by simp [hx])) (le_refl _) (fun j x hj _ => h.element j x hj)
    (fun j x hj hlt => by have := lt_length hj; omega)
  have hins : Inserted c e xs (if v < 0 then 0 else xs.length) := by
    constructor <;> intro k x hk hlt
    all_goals
      have := lt_length hk
      have hx := hel k x hk
      split_ifs at hx hlt <;> first | exact hx | omega
  have hp : (if v < 0 then 0 else xs.length) ≤ xs.length := by split_ifs <;> omega
  refine ⟨_,_,?_,hp,hins.holds (he ▸ valueEncoding_cases v) h.sorted hf hp hb hr⟩
  simp only [intsetUpgradeAndAdd,intsetResize,he,h.length,hsize,hc,bind_eq_bind,
    bind_some,intsetSet,if_pos (mul_le_mul_right e (succ_le_succ hp))]
  rfl

lemma Holds.makeRoom (hp : pos ≤ xs.length)
    (hr : (xs.length + 1) * is.encoding < 2 ^ 32) : ∃ c, is.makeRoom pos =
      some ⟨is.encoding,xs.length,(xs.length + 1) * is.encoding,c⟩ ∧
        Inserted c is.encoding xs pos := by
  have hsize : (xs.length + 1) * is.encoding % 2 ^ 32 = (xs.length + 1) * is.encoding :=
    mod_eq_of_lt hr
  simp only [RawIntset.makeRoom,intsetResize,h.length,hsize]
  split_ifs with hlt
  · have hle := mul_le_mul_right is.encoding (show xs.length - pos ≤ xs.length + 1 by omega)
    obtain ⟨c,hc,hlow,hhigh⟩ := moveTail_spec
      ⟨is.encoding,xs.length,(xs.length + 1) * is.encoding,is.contents⟩ pos (pos + 1)
      (hle.trans_lt hr) (by
        rw [max_eq_right (le_succ pos),← add_mul]
        exact mul_le_mul_right _ (by simp only; omega))
    refine ⟨c,hc,fun k x hx hk => (hlow k (by omega)).trans (h.element k x hx),fun k x hx hk => ?_⟩
    have := lt_length hx
    have hk' := hhigh (k - pos) (by simp only; omega)
    rw [show pos + 1 + (k - pos) = k + 1 by omega,show pos + (k - pos) = k by omega] at hk'
    exact hk'.trans (h.element k x hx)
  · refine ⟨is.contents,rfl,fun k x hx _ => h.element k x hx,fun k x hx hk => ?_⟩
    have := lt_length hx
    omega

lemma Holds.add (hv : -2 ^ 63 ≤ v ∧ v < 2 ^ 63)
    (hr : (xs.length + 1) * max is.encoding (intsetValueEncoding v) < 2 ^ 32) :
    ∃ is' ys, is.intsetAdd v = some (decide (v ∉ xs),is') ∧ is'.Holds ys ∧
      ys.toFinset = insert v xs.toFinset := by
  have hset : ∀ {pos}, pos ≤ xs.length → (xs.insertIdx pos v).toFinset = insert v xs.toFinset :=
    fun hp => (toFinset_eq_of_perm _ _ (perm_insertIdx v xs hp)).trans (by simp)
  rw [intsetAdd]
  split_ifs with hgt
  · rw [Nat.max_eq_right (by omega)] at hr
    obtain ⟨is',pos,hup,hp,hh⟩ := h.upgrade hv hgt hr
    have hnot : v ∉ xs := fun hm => absurd (h.fits v hm).2.2 (by omega)
    exact ⟨is',_,by simp [hup,hnot],hh,hset hp⟩
  rw [Nat.max_eq_left (by omega)] at hr
  obtain ⟨⟨found,pos⟩,hs,hf⟩ := h.search v
  have hmem := mem_iff_of_found hf
  simp only [hs,bind_eq_bind,bind_some]
  cases found with
  | true => exact ⟨is,xs,by simp [hmem],h,by simp [hmem]⟩
  | false =>
    obtain ⟨c,hc,hins⟩ := h.makeRoom hf.1 hr
    have hfits : ∀ x ∈ v :: xs, Fits is.encoding x := by
      simp only [mem_cons,forall_eq_or_imp]
      exact ⟨⟨hv.1,hv.2,by omega⟩,h.fits⟩
    refine ⟨_,_,?_,hins.holds h.encoding h.sorted hfits hf.1 hf.2 hr,hset hf.1⟩
    simp [hc,hmem,intsetSet,h.length,
      if_pos (Nat.mul_le_mul_right is.encoding (succ_le_succ hf.1))]

lemma Holds.add_overflow (hle : intsetValueEncoding v ≤ is.encoding) (hr : 2 ^ 32 ≤ (xs.length + 1) * is.encoding)
    (hlast : ∀ x ∈ xs, x < v) : is.intsetAdd v = none := by
  obtain ⟨⟨found,pos⟩,hs,hf⟩ := h.search v
  have hsmall := h.small
  cases found with
  | true => exact absurd (hlast v (mem_of_getElem? hf)) (Int.lt_irrefl v)
  | false =>
    have hpos : pos = xs.length := by
      refine Nat.le_antisymm hf.1 (Nat.le_of_not_lt fun hlt => ?_)
      have := (hf.2 pos _ (getElem?_eq_getElem hlt)).2 (by simp)
      have := hlast _ (getElem_mem hlt)
      omega
    have hmod : (xs.length + 1) * is.encoding % 2 ^ 32 < (xs.length + 1) * is.encoding :=
      (mod_lt _ (by decide)).trans_le hr
    rw [intsetAdd,if_neg (by omega)]
    simp only [hs,hpos,RawIntset.makeRoom,intsetResize,h.length,intsetSet,bind_eq_bind,
      bind_some,Bool.false_eq_true,if_false,lt_irrefl,if_neg (Nat.not_le.mpr hmod)]
    rfl

lemma Holds.closeGap (hp : pos < xs.length) : ∃ c,
    (if pos < is.length - 1 then is.intsetMoveTail (pos + 1) pos else some is) =
      some { is with contents := c } ∧
        ∀ k x, (xs.eraseIdx pos)[k]? = some x → RawIntset.element c is.encoding k = x := by
  have hl := h.length
  simp only [getElem?_eraseIdx]
  split_ifs with hlt
  · have hle := mul_le_mul_right is.encoding (show xs.length - (pos + 1) ≤ xs.length by omega)
    obtain ⟨c,hc,hlow,hhigh⟩ := moveTail_spec is (pos + 1) pos (h.length ▸ hle.trans_lt h.small) (by
        rw [h.size,h.length,max_eq_left (le_succ pos),← add_mul]
        exact mul_le_mul_right _ (by omega))
    refine ⟨c,hc,fun k x hx => ?_⟩
    split_ifs at hx with hk
    · exact (hlow k hk).trans (h.element k x hx)
    have := lt_length hx
    have hk' := hhigh (k - pos) (by omega)
    rw [show pos + (k - pos) = k by omega,show pos + 1 + (k - pos) = k + 1 by omega] at hk'
    exact hk'.trans (h.element _ x hx)
  · refine ⟨is.contents,rfl,fun k x hx => ?_⟩
    split_ifs at hx with hk
    · exact h.element k x hx
    have := lt_length hx
    omega

lemma Holds.remove (v : Int) :
    ∃ is' ys, is.intsetRemove v = some (decide (v ∈ xs),is') ∧ is'.Holds ys ∧
      ys.toFinset = xs.toFinset.erase v := by
  obtain ⟨⟨found,pos⟩,hs,hf⟩ := h.search v
  have hmem := mem_iff_of_found hf
  rw [intsetRemove]
  cases found with
  | false => exact ⟨is,xs,by simp [hs,hmem],h,by simp [hmem]⟩
  | true =>
    obtain ⟨hp,hx⟩ : ∃ hp : pos < xs.length, xs[pos] = v := List.getElem?_eq_some_iff.mp hf
    obtain ⟨c,hc,hel⟩ := h.closeGap hp
    have hlen : (xs.eraseIdx pos).length = xs.length - 1 := length_eraseIdx_of_lt hp
    have hsmall := (mul_le_mul_right is.encoding (sub_le xs.length 1)).trans_lt h.small
    have hperm : (v :: xs.eraseIdx pos).Perm xs := hx ▸ getElem_cons_eraseIdx_perm hp
    have hnd : (v :: xs.eraseIdx pos).Nodup := hperm.nodup_iff.mpr (h.sorted.imp fun hlt => hlt.ne)
    refine ⟨⟨is.encoding,xs.length - 1,(xs.length - 1) * is.encoding,c⟩,_,?_,
      ⟨h.encoding,hlen.symm,by rw [hlen],by rwa [hlen],hel,
        fun x hx => h.fits x (mem_of_mem_eraseIdx hx),
        h.sorted.sublist (eraseIdx_sublist xs pos)⟩,?_⟩
    · have hle := (h.fits v (hmem.mpr rfl)).2.2
      simp only [if_pos hle,hs,bind_eq_bind,bind_some,if_true,hc,map_some,
        intsetResize,hmem,decide_true]
      simp only [h.length,mod_eq_of_lt hsmall]
    · rw [← toFinset_eq_of_perm _ _ hperm,toFinset_cons,
        Finset.erase_insert (by simpa using (nodup_cons.mp hnd).1)]

lemma Holds.find (v : Int) : is.intsetFind v = some (decide (v ∈ xs)) := by
  obtain ⟨r,hs,hf⟩ := h.search v
  rw [intsetFind]
  split_ifs with hle
  · simp [hs,mem_iff_of_found hf]
  have hnot : v ∉ xs := fun hm => hle (h.fits v hm).2.2
  simp [hnot]

end

end RawIntset

inductive IntsetOp where
  | add (v : Int64) | remove (v : Int64) | find (v : Int64)

inductive IntsetFault where
  | outOfBounds
deriving DecidableEq

namespace IntsetOp
open RawIntset

def perform (is : RawIntset) : IntsetOp → Option (Bool × RawIntset)
  | .add v => is.intsetAdd v.toInt
  | .remove v => is.intsetRemove v.toInt
  | .find v => (is.intsetFind v.toInt).map (·,is)

/-- The machine keeps the results of the calls. -/
def intsets : Machine (List Bool × RawIntset) IntsetOp IntsetFault where
  init := ([],intsetNew)
  step s op := some <|
    match op.perform s.2 with
    | some (r,is) => .ok (s.1 ++ [r],is)
    | none => .error .outOfBounds

def onSet : IntsetOp → Finset Int → Bool × Finset Int
  | .add v, s => (decide (v.toInt ∉ s),insert v.toInt s)
  | .remove v, s => (decide (v.toInt ∈ s),s.erase v.toInt)
  | .find v, s => (decide (v.toInt ∈ s),s)

def onSets (op : IntsetOp) (x : List Bool × Finset Int) : List Bool × Finset Int :=
  (x.1 ++ [(op.onSet x.2).1],(op.onSet x.2).2)

/-- The block with one more element, each of them in the width of the widest, has less than `2 ^ 32`
bytes. -/
def RoomFor (s : List Bool × RawIntset) : IntsetOp → Prop
  | .add v => (s.2.length + 1) * max s.2.encoding (intsetValueEncoding v.toInt) < 2 ^ 32
  | _ => True

instance (s : List Bool × RawIntset) (op : IntsetOp) : Decidable (RoomFor s op) :=
  match op with
  | .add _ => inferInstanceAs (Decidable (_ < _))
  | .remove _ | .find _ => .isTrue trivial

lemma perform_spec {is : RawIntset} {xs : List Int} {op : IntsetOp} {rs : List Bool}
    (h : is.Holds xs) (hr : RoomFor (rs,is) op) :
    ∃ is' ys, op.perform is = some ((op.onSet xs.toFinset).1,is') ∧ is'.Holds ys ∧
      ys.toFinset = (op.onSet xs.toFinset).2 := by
  cases op with
  | add v =>
    obtain ⟨is',ys,ha,hy⟩ := h.add ⟨v.le_toInt,v.toInt_lt⟩ (h.length ▸ hr)
    exact ⟨is',ys,by simp [perform,onSet,ha],hy⟩
  | remove v =>
    obtain ⟨is',ys,ha,hy⟩ := h.remove v.toInt
    exact ⟨is',ys,by simp [perform,onSet,ha],hy⟩
  | find v => exact ⟨is,xs,by simp [perform,onSet,h.find],h,rfl⟩

lemma holds_new : intsetNew.Holds [] := ⟨.inl rfl,rfl,rfl,by decide,by simp,by simp,.nil⟩

/-- The results are those of the finite set, and the block holds its elements in order. -/
theorem intset_refines (ops : List IntsetOp) (hg : intsets.Guarded RoomFor intsets.init ops) :
    ∃ rs is xs, intsets.run ops = some (.ok (rs,is)) ∧ is.Holds xs ∧
      (rs,xs.toFinset) = Machine.follow onSets ops ([],∅) := by
  have hstep : ∀ (s : List Bool × RawIntset) op x,
      (∃ xs, s.2.Holds xs ∧ (s.1,xs.toFinset) = x) → RoomFor s op →
        ∃ t, intsets.step s op = some (.ok t) ∧ ∃ xs, t.2.Holds xs ∧
          (t.1,xs.toFinset) = op.onSets x := by
    rintro s op _ ⟨xs,hh,rfl⟩ hr
    obtain ⟨is',ys,hp,hy,hset⟩ := perform_spec hh hr
    exact ⟨(s.1 ++ [(op.onSet xs.toFinset).1],is'),by simp [intsets,hp],ys,hy,by simp [onSets,hset]⟩
  obtain ⟨⟨rs,is⟩,hrun,xs,hh,he⟩ := intsets.exists_simulation onSets hstep ops ⟨[],holds_new,rfl⟩ hg
  exact ⟨rs,is,xs,hrun,hh,he⟩

theorem intset_refines_upgrade : ∃ rs is xs,
    intsets.run [.add 7,.add (-70000),.find 7,.remove 7] = some (.ok (rs,is)) ∧ is.Holds xs ∧
      (rs,xs.toFinset) = ([true,true,true,true],{-70000}) := by
  obtain ⟨rs,is,xs,hrun,hh,he⟩ := intset_refines [.add 7,.add (-70000),.find 7,.remove 7]
    (intsets.guarded_check RoomFor _ _ (by decide))
  exact ⟨rs,is,xs,hrun,hh,he.trans (by decide)⟩

def filling (n : Nat) : List IntsetOp := (List.range n).map fun i => .add (Int64.ofNat (2 ^ 32 + i))

lemma filling_succ (n : Nat) :
    filling (n + 1) = filling n ++ [.add (Int64.ofNat (2 ^ 32 + n))] := by
  simp [filling,range_succ]

lemma run_filling (n : Nat) (hn : n < 2 ^ 29) : ∃ rs is xs,
    intsets.runFrom intsets.init (filling n) = some (.ok (rs,is)) ∧ is.Holds xs ∧ xs.length = n ∧
      (∀ x ∈ xs, x < 2 ^ 32 + n) ∧ (0 < n → is.encoding = 8) := by
  induction n with
  | zero => exact ⟨[],intsetNew,[],rfl,holds_new,rfl,by simp,by simp⟩
  | succ n ih =>
    obtain ⟨rs,is,xs,hrun,hh,hlen,hlt,_⟩ := ih (by omega)
    have hv : (Int64.ofNat (2 ^ 32 + n)).toInt = 2 ^ 32 + n := by
      rw [Int64.toInt_ofNat_of_lt (by omega)]; omega
    have henc : intsetValueEncoding (2 ^ 32 + n) = 8 := if_pos (by omega)
    have hnot : (2 ^ 32 + n : Int) ∉ xs := fun hm => absurd (hlt _ hm) (by omega)
    have hmax : max is.encoding 8 = 8 := by have := hh.encoding; omega
    obtain ⟨is',ys,ha,hy,hset⟩ := hh.add (v := 2 ^ 32 + n) ⟨by omega,by omega⟩
      (by rw [henc,hmax]; omega)
    have hcard : ys.length = n + 1 := by
      have hnd {zs : List Int} (h : zs.Pairwise (· < ·)) : zs.toFinset.card = zs.length :=
        toFinset_card_of_nodup (h.imp fun hlt => hlt.ne)
      rw [← hnd hy.sorted,hset,Finset.card_insert_of_notMem (by simpa using hnot),hnd hh.sorted,hlen]
    have hmem : ∀ x, x ∈ ys ↔ x = 2 ^ 32 + n ∨ x ∈ xs := fun x => by
      simpa using congrArg (x ∈ ·) hset
    refine ⟨rs ++ [true],is',ys,?_,hy,hcard,fun x hx => ?_,fun _ => ?_⟩
    · rw [filling_succ,intsets.runFrom_append hrun]
      simp only [Machine.runFrom,intsets,perform,hv,ha,decide_eq_true hnot]
    · rcases (hmem x).mp hx with rfl | hx
      · omega
      · have := hlt x hx; omega
    have := hy.encoding
    have := (hy.fits _ ((hmem _).mpr (.inl rfl))).2.2
    omega

theorem intset_overflow : intsets.run (filling (2 ^ 29)) = some (.error .outOfBounds) := by
  obtain ⟨rs,is,xs,hrun,hh,hlen,hlt,he⟩ := run_filling (2 ^ 29 - 1) (by omega)
  have hadd := hh.add_overflow (v := 2 ^ 32 + (2 ^ 29 - 1)) (he (by omega) ▸ by decide)
    (by rw [hlen,he (by omega)]; omega) fun x hx => by
      have := hlt x hx; omega
  have hv : (Int64.ofNat (2 ^ 32 + (2 ^ 29 - 1))).toInt = 2 ^ 32 + (2 ^ 29 - 1) := by decide
  rw [Machine.run,show 2 ^ 29 = 2 ^ 29 - 1 + 1 from rfl,filling_succ,intsets.runFrom_append hrun]
  simp only [Machine.runFrom,intsets,perform,hv,hadd]

end IntsetOp
end RedRock
