import RedRock.CheckRock
import RedRock.Lib.Decimal

/-!
The entries of a quicklist. A ziplist keeps an entry that is a decimal numeral as an
integer, `serList` writes such an entry as its numeral, and `quicklistPushTail` decides
again how to keep it.
-/

namespace RedRock
open Lib List Option
variable {v : Int} {s : Bytes}

def sdsfromlonglong (v : Int) : Bytes :=
  if v < 0 then 45 :: decimal v.natAbs else decimal v.natAbs

lemma digitsVal_eq (s : Bytes) : digitsVal s = decimalVal s := rfl

lemma isDigit_iff {b : UInt8} : isDigit b = true ↔ IsDigit b := by
  simp [isDigit,IsDigit]

lemma string2llDigits_some {neg : Bool} : string2llDigits neg s = some v ↔ Numeral s ∧
      if neg then v = -(decimalVal s : Int) ∧ decimalVal s ≤ 2 ^ 63
      else v = decimalVal s ∧ decimalVal s < 2 ^ 63 := by
  cases s with
  | nil => simp [string2llDigits,Numeral]
  | cons b t =>
    have hnum : (49 ≤ b && b ≤ 57 && t.all isDigit) = true ↔ Numeral (b :: t) := by
      have hb : (49 ≤ b ∧ b ≤ 57) ↔ b ≠ 48 ∧ IsDigit b := by
        rw [IsDigit,UInt8.le_iff_toNat_le,UInt8.le_iff_toNat_le,UInt8.le_iff_toNat_le,ne_eq,
          ← UInt8.toNat_inj]
        change 49 ≤ b.toNat ∧ b.toNat ≤ 57 ↔ ¬ b.toNat = 48 ∧ 48 ≤ b.toNat ∧ b.toNat ≤ 57
        omega
      simp only [Bool.and_eq_true,decide_eq_true_eq,List.all_eq_true,isDigit_iff,Numeral,
        forall_mem_cons,hb,and_assoc]
    simp only [string2llDigits]
    split
    · rename_i h
      simp only [hnum.mp h,true_and,← digitsVal_eq]
      split <;> rw [ite_none_right_eq_some,some_inj,and_comm,eq_comm]
    rename_i h
    simp [mt hnum.mpr h]

lemma string2ll_some : string2ll s = some v ↔
    s = [48] ∧ v = 0 ∨ (∃ t, s = 45 :: t ∧ string2llDigits true t = some v) ∨
    string2llDigits false s = some v := by
  have hzero : string2llDigits false [48] = none := rfl
  have hminus : ∀ t, string2llDigits false (45 :: t) = none := by
    intro t
    simp [string2llDigits]
  unfold string2ll
  split
  · simp [hzero,eq_comm]
  · rename_i t _
    simp [hminus]
  rename_i h0 h1
  constructor
  · intro h
    exact .inr (.inr h)
  rintro (⟨rfl,_⟩ | ⟨t,rfl,_⟩ | h)
  · exact absurd rfl h0
  · exact absurd rfl (h1 t)
  · exact h

lemma string2ll_range (h : string2ll s = some v) : -2 ^ 63 ≤ v ∧ v < 2 ^ 63 := by
  rcases string2ll_some.mp h with ⟨_,rfl⟩ | ⟨t,_,ht⟩ | ht
  · decide
  · obtain ⟨_,hv,hle⟩ := string2llDigits_some.mp ht
    omega
  obtain ⟨_,hv,hlt⟩ := string2llDigits_some.mp ht
  omega

lemma string2ll_sdsfromlonglong (hl : -2 ^ 63 ≤ v) (hu : v < 2 ^ 63) :
    string2ll (sdsfromlonglong v) = some v := by
  rw [string2ll_some,sdsfromlonglong]
  rcases lt_trichotomy v 0 with hv | rfl | hv
  · rw [if_pos hv]
    refine .inr (.inl ⟨_,rfl,string2llDigits_some.mpr ⟨numeral_decimal (by omega),?_⟩⟩)
    rw [decimalVal_decimal]
    simp only [if_true]
    omega
  · exact .inl ⟨rfl,rfl⟩
  rw [if_neg (by omega)]
  refine .inr (.inr (string2llDigits_some.mpr ⟨numeral_decimal (by omega),?_⟩))
  rw [decimalVal_decimal]
  simp only [Bool.false_eq_true,if_false]
  omega

lemma sdsfromlonglong_of_string2ll (h : string2ll s = some v) : sdsfromlonglong v = s := by
  rcases string2ll_some.mp h with ⟨rfl,rfl⟩ | ⟨t,rfl,ht⟩ | ht
  · rfl
  · obtain ⟨hnum,hv,_⟩ := string2llDigits_some.mp ht
    have hne := hnum.decimalVal_ne_zero
    rw [sdsfromlonglong,if_pos (by omega),hv,Int.natAbs_neg,Int.natAbs_natCast,
      hnum.decimal_decimalVal]
  obtain ⟨hnum,hv,_⟩ := string2llDigits_some.mp ht
  rw [sdsfromlonglong,if_neg (by omega),hv,Int.natAbs_natCast,hnum.decimal_decimalVal]

lemma sdsfromlonglong_length (hl : -2 ^ 63 ≤ v) (hu : v < 2 ^ 63) :
    (sdsfromlonglong v).length ≤ 20 := by
  have hd : (decimal v.natAbs).length ≤ 19 := decimal_length_le (by decide) (by omega)
  unfold sdsfromlonglong
  split
  · rw [length_cons]
    omega
  · omega

inductive QuicklistEntry where
  | value (s : Blob 4)
  | longval (v : BitVec 64)
  deriving DecidableEq

namespace QuicklistEntry

def element : QuicklistEntry → Bytes
  | value s => s.val
  | longval v => sdsfromlonglong v.toInt

lemma element_length (e : QuicklistEntry) : e.element.length < 256 ^ 4 := by
  cases e with
  | value s => exact s.property
  | longval v =>
    have hl := sdsfromlonglong_length (v := v.toInt) (by have h := v.le_toInt; omega)
      (by have h := v.toInt_lt; omega)
    simp only [element]
    omega

def blob (e : QuicklistEntry) : Blob 4 := ⟨e.element,e.element_length⟩

end QuicklistEntry

def zipTryEncoding (s : Bytes) : Option (BitVec 64) :=
  if s.length ≥ 32 ∨ s.length = 0 then none else (string2ll s).map (BitVec.ofInt 64)

def ziplistPush (s : Blob 4) : QuicklistEntry :=
  match zipTryEncoding s.val with
  | some v => .longval v
  | none => .value s

lemma ziplistPush_blob (s : Blob 4) : (ziplistPush s).blob = s := by
  apply Subtype.ext
  unfold ziplistPush
  split
  · rename_i v hv
    unfold zipTryEncoding at hv
    rw [ite_none_left_eq_some] at hv
    obtain ⟨w,hw,rfl⟩ := map_eq_some_iff.mp hv.2
    obtain ⟨hl,hu⟩ := string2ll_range hw
    have hint : (BitVec.ofInt 64 w).toInt = w := by
      rw [BitVec.toInt_ofInt]
      exact Int.bmod_eq_of_le (by omega) (by omega)
    change sdsfromlonglong (BitVec.ofInt 64 w).toInt = s.val
    rw [hint,sdsfromlonglong_of_string2ll hw]
  · rfl

def serEntries (es : List QuicklistEntry) : Bytes :=
  es.flatMap fun
    | .value s => leBytes 4 s.val.length ++ s.val
    | .longval v =>
      let str := sdsfromlonglong v.toInt
      leBytes 4 str.length ++ str

/-- The loop of `desList`, which pushes what it reads. -/
def desEntries (s : Bytes) : Option (List QuicklistEntry) :=
  (getMany (getBlob 4) s.length s).map (List.map ziplistPush)

lemma serEntries_eq (es : List QuicklistEntry) :
    serEntries es = serList (es.map QuicklistEntry.blob) := by
  rw [serList,flatMap_map,serEntries]
  congr 1
  funext e
  cases e with
  | value | longval => rfl

lemma desEntries_serList (l : List (Blob 4)) :
    desEntries (serList l) = some (l.map ziplistPush) := by
  have hne : ∀ a : Blob 4, putBlob a ≠ [] := putBlob_ne_nil (by omega)
  have hl := length_le_flatMap hne l
  rw [desEntries,serList,getMany_flatMap hne getBlob_putBlob l _ hl,map_some]

lemma desEntries_serEntries (es : List QuicklistEntry) :
    ∃ es', desEntries (serEntries es) = some es' ∧
      es'.map QuicklistEntry.blob = es.map QuicklistEntry.blob := by
  refine ⟨_,by rw [serEntries_eq,desEntries_serList],?_⟩
  rw [List.map_map]
  conv_rhs => rw [← List.map_id (es.map QuicklistEntry.blob)]
  exact map_congr_left fun s _ => ziplistPush_blob s

/-- Streams and module values are the ones that are not stored. -/
def Robj.storable (o : Robj) : Bool :=
  match o.type with
  | .stream | .module => false
  | _ => true

lemma serObject_of_storable {o : Robj} (h : o.storable = true) :
    ∃ t, serObjectType o.content = .ok t ∧
      serObject o = .ok (t :: (leBytes 4 o.lru.toNat ++ serContent o.content)) := by
  unfold Robj.storable Robj.type at h
  cases hc : o.content with
  | stream p | module p => simp [hc,Content.type] at h
  | _ => exact ⟨_,rfl,by simp [serObject,hc,serObjectType,serContent]⟩

/-- Every storable object is written, and what is read back is the object: its contents
with their encoding, and its lru bits. The entries of a list may change between string and
integer on the way, its elements do not. -/
theorem serObject_roundTrip (cfg : Config) (o : Robj) (ho : o.storable = true) :
    ∃ buf o', serObject o = .ok buf ∧ desObject cfg buf = .ok o' ∧
      o'.content = o.content ∧ o'.lru = o.lru ∧
      ∀ es : List QuicklistEntry, o.content = .quicklist (es.map QuicklistEntry.blob) →
        buf.drop 5 = serEntries es ∧
        ∃ es', desEntries (buf.drop 5) = some es' ∧
          o'.content = .quicklist (es'.map QuicklistEntry.blob) := by
  obtain ⟨t,_,hser⟩ := serObject_of_storable ho
  refine ⟨_,_,hser,desObject_serObject cfg hser,rfl,rfl,?_⟩
  intro es hes
  have hbody : (t :: (leBytes 4 o.lru.toNat ++ serContent o.content)).drop 5 = serEntries es := by
    rw [drop_succ_cons,drop_left' (leBytes_length 4 _),hes,serEntries_eq,serContent]
  obtain ⟨es',hdes,hsame⟩ := desEntries_serEntries es
  refine ⟨hbody,es',?_,?_⟩
  · rw [hbody,hdes]
  · rw [hes,hsame]

/-- A list with an empty element, an element of arbitrary bytes and an integer. -/
theorem serObject_roundTrip_list : (∃ buf o',
    serObject ⟨.quicklist ([.value ⟨[],by decide⟩,.value ⟨[0,255],by decide⟩,
      .longval (-7)].map QuicklistEntry.blob),5,1⟩ = .ok buf ∧
    desObject ⟨0,false,false⟩ buf = .ok o' ∧ o'.lru = 5) := by
  obtain ⟨buf,o',hser,hdes,_,hlru,_⟩ := serObject_roundTrip ⟨0,false,false⟩
    ⟨.quicklist ([.value ⟨[],by decide⟩,.value ⟨[0,255],by decide⟩,
      .longval (-7)].map QuicklistEntry.blob),5,1⟩ rfl
  exact ⟨buf,o',hser,hdes,hlru⟩

end RedRock
