import RedRock.Lib.Bytes

/-!
`hyperloglog.c`: the loops of `hllSparseToDense` and `hllMerge` over the opcodes of a sparse string.
The register index is an `int`.
-/

namespace RedRock
open Lib List

def HLL_REGISTERS : Nat := 16384

/-- ZERO and XZERO, which differ in the bytes they take, and VAL. -/
inductive HllOp where
  | zero (runlen : Nat)
  | val (regval : Nat) (len : Fin 4)

def HllOp.runlen : HllOp → Nat
  | .zero runlen => runlen
  | .val _ len => len+1

def hllOp (b next : UInt8) : HllOp :=
  if b &&& 0xc0 = 0 then .zero ((b &&& 0x3f).toNat+1)
  else if b &&& 0xc0 = 0x40 then .zero (((b &&& 0x3f).toNat <<< 8 ||| next.toNat)+1)
  else .val ((b >>> 2 &&& 0x1f).toNat+1) (Fin.ofNat 4 (b &&& 3).toNat)

/-- A zero byte follows the last one. -/
def hllOps : Bytes → List HllOp
  | [] => []
  | [b] => [hllOp b 0]
  | b :: next :: p => hllOp b next :: if b &&& 0xc0 = 0x40 then hllOps p else hllOps (next :: p)

structure HllScan where
  idx : Int
  set : List (Int × Nat)
  stopped : Bool

/-- In `hllMerge` the run length is a `long`, and so is the sum that is compared. -/
def hllOverflow (wide : Bool) (idx : Int) (runlen : Nat) : Bool :=
  HLL_REGISTERS < if wide then idx+runlen else (idx+runlen).bmod (2^32)

def HllScan.step (wide : Bool) (s : HllScan) (op : HllOp) : HllScan :=
  if s.stopped then s
  else
    let idx := (s.idx+op.runlen).bmod (2^32)
    match op with
    | .zero _ => { s with idx := idx }
    | .val regval _ =>
      if hllOverflow wide s.idx op.runlen then { s with stopped := true }
      else ⟨idx,s.set ++ (range op.runlen).map fun i : Nat => ((s.idx+i).bmod (2^32),regval),false⟩

/-- The registers that are set, or `C_ERR`. -/
def HllScan.result (s : HllScan) : Option (List (Int × Nat)) :=
  if s.idx = HLL_REGISTERS then some s.set else none

def isHLLObjectOrReply (o : Bytes) : Bool :=
  16 ≤ o.length && o.take 4 = [72,89,76,76] && o.getD 4 0 ≤ 1 &&
    (o.getD 4 0 ≠ 0 || o.length = 16+HLL_REGISTERS*6/8)

def hllSparse (wide : Bool) (o : Bytes) : Option (List (Int × Nat)) :=
  ((hllOps (o.drop 16)).foldl (.step wide) ⟨0,[],false⟩ : HllScan).result

def hllSparseToDense (o : Bytes) : Option (List (Int × Nat)) :=
  if o.getD 4 0 = 0 then some [] else hllSparse false o

def InRange (set : List (Int × Nat)) : Prop := ∀ r ∈ set, 0 ≤ r.1 ∧ r.1 < HLL_REGISTERS

/-- Of a sparse string. -/
def hllMerge (o : Bytes) : Option (List (Int × Nat)) := hllSparse true o

/-- What is to hold of a scan that has come to index `n`. -/
structure IndexExact (wide : Bool) (s : HllScan) (n : Nat) (ops : List HllOp) : Prop where
  index : ∀ k, ((ops.take k).foldl (.step wide) s).stopped = false →
    ((ops.take k).foldl (.step wide) s).idx = n+((ops.take k).map HllOp.runlen).sum
  registers : InRange (ops.foldl (.step wide) s).set
  refused : n+(ops.map HllOp.runlen).sum ≠ HLL_REGISTERS →
    (ops.foldl (.step wide) s).result = none

/-- The exact index stays below `2^31`, and is not the last one where a VAL is too long. -/
def HllFits (wide : Bool) : Nat → List HllOp → Prop
  | _,[] => True
  | n,.zero runlen :: ops => n+runlen < 2^31 ∧ HllFits wide (n+runlen) ops
  | n,.val _ len :: ops =>
    if n+(len+1) > HLL_REGISTERS then n ≠ HLL_REGISTERS ∧ (wide = true ∨ n+(len+1) < 2^31)
    else HllFits wide (n+(len+1)) ops

variable {wide : Bool} {s : HllScan} {n : Nat} {op : HllOp} {ops : List HllOp}

lemma foldl_stopped (h : s.stopped = true) (ops : List HllOp) : ops.foldl (.step wide) s = s := by
  induction ops with
  | nil => rfl
  | cons op ops ih =>
    have hs : s.step wide op = s := if_pos h
    rw [foldl_cons,hs,ih]

lemma indexExact_cons (hs : s.idx = n) : IndexExact wide s n (op :: ops) ↔
    IndexExact wide (s.step wide op) (n+op.runlen) ops := by
  constructor
  · rintro ⟨hi,hr,he⟩
    refine ⟨fun k hk => ?_,hr,fun h => he ?_⟩
    · simpa [Int.add_assoc] using hi (k+1) hk
    · simpa [Nat.add_assoc] using h
  · rintro ⟨hi,hr,he⟩
    refine ⟨fun k hk => ?_,hr,fun h => he ?_⟩
    · cases k with
      | zero => simpa using hs
      | succ k => simpa [Int.add_assoc] using hi k hk
    · simpa [Nat.add_assoc] using h

lemma indexExact_stopped (ho : s.stopped = true) (hn : HLL_REGISTERS < n) (hset : InRange s.set) :
    IndexExact wide s n ops ↔ s.idx ≠ HLL_REGISTERS := by
  have hr : s.result = none ↔ s.idx ≠ HLL_REGISTERS := by simp [HllScan.result]
  rw [← hr]
  constructor
  · intro h
    simpa only [foldl_stopped ho] using h.refused (by omega)
  · intro h
    refine ⟨fun k hk => ?_,?_,fun _ => ?_⟩ <;> simp_all [foldl_stopped]

lemma overflow_iff (wide : Bool) {m : Nat} (hn : n < 2^31) (hm : m ≤ 4) :
    hllOverflow wide n m = true ↔ n+m > HLL_REGISTERS ∧ (wide = true ∨ n+m < 2^31) := by
  simp only [hllOverflow,HLL_REGISTERS,decide_eq_true_eq,Int.bmod_def]
  cases wide <;> simp <;> omega

lemma indexExact_iff (hs : s.idx = n) (hn : n < 2^31) (ho : s.stopped = false) (hset : InRange s.set) :
    IndexExact wide s n ops ↔ HllFits wide n ops := by
  induction ops generalizing s n with
  | nil =>
    refine iff_of_true ⟨fun k _ => ?_,hset,fun h => if_neg ?_⟩ trivial
    · simpa using hs
    · simpa [hs] using h
  | cons op ops ih =>
    -- an opcode that does not end the loop
    have hgo : ∀ i set', s.step wide op = ⟨i,set',false⟩ → i = ((n : Int)+op.runlen).bmod (2^32) →
        (n+op.runlen < 2^31 → InRange set') →
        (IndexExact wide s n (op :: ops) ↔
          n+op.runlen < 2^31 ∧ HllFits wide (n+op.runlen) ops) := by
      intro i set' hst hi hset'
      rw [indexExact_cons hs,hst]
      by_cases h : n+op.runlen < 2^31
      · rw [Int.bmod_eq_of_le (by omega) (by omega)] at hi
        rw [ih (by simpa using hi) h rfl (hset' h),and_iff_right h]
      · refine iff_of_false (fun hx => ?_) (h ·.1)
        have h0 := hx.index 0 rfl
        simp only [take_zero,foldl_nil,map_nil,sum_nil] at h0
        have hlt : ((n : Int)+op.runlen).bmod (2^32) < 2^31 := Int.bmod_lt (by decide)
        omega
    cases op with
    | zero runlen =>
      refine hgo _ s.set ?_ rfl fun _ => hset
      simp [HllScan.step,ho,hs]
    | val regval len =>
      have hlen := len.isLt
      have hb := overflow_iff wide hn (m := len+1) (by omega)
      simp only [HllOp.runlen] at hgo
      simp only [HllFits]
      by_cases hw : hllOverflow wide n (len+1) = true
      · have hst : s.step wide (.val regval len) = { s with stopped := true } := by
          simp [HllScan.step,ho,hs,HllOp.runlen,hw]
        obtain ⟨h,hw⟩ := hb.mp hw
        rw [indexExact_cons hs,if_pos h,hst,and_iff_left hw]
        refine (indexExact_stopped (s := { s with stopped := true }) rfl h hset).trans ?_
        simp [hs]
      rw [hgo _ _ (by simp [HllScan.step,ho,hs,HllOp.runlen,hw]; rfl) rfl]
      · rw [hb] at hw
        split
        · rename_i h
          simp_all
          omega
        · rename_i h
          rw [and_iff_right]
          simp only [HLL_REGISTERS] at h
          omega
      intro h r hr
      rw [hb,not_and_or,not_or] at hw
      simp only [mem_append,mem_map,mem_range] at hr
      rcases hr with hr | ⟨i,hi,rfl⟩
      · exact hset r hr
      simp only [HLL_REGISTERS] at hw ⊢
      rw [Int.bmod_eq_of_le (by omega) (by omega)]
      omega

/-- Both loops keep the exact index, set only registers in range and refuse other sums of runs, iff
the index fits into an `int` and no VAL follows on the last register. -/
theorem hll_index_exact_iff (wide : Bool) (o : Bytes) :
    IndexExact wide ⟨0,[],false⟩ 0 (hllOps (o.drop 16)) ↔ HllFits wide 0 (hllOps (o.drop 16)) :=
  indexExact_iff rfl (by decide) rfl nofun

/-- A VAL after a run of all registers is not noticed. -/
theorem val_after_last_register :
    let o : Bytes := [72,89,76,76,1] ++ replicate 11 0 ++ [0x7f,0xff,0x80]
    isHLLObjectOrReply o = true ∧ ((hllOps (o.drop 16)).map HllOp.runlen).sum = 16385 ∧
      hllSparseToDense o = some [] ∧ hllMerge o = some [] ∧
      ∀ wide, ¬ IndexExact wide ⟨0,[],false⟩ 0 (hllOps (o.drop 16)) := by
  refine ⟨by decide,by decide,by decide,by decide,fun wide h => ?_⟩
  have hnone := h.refused (by decide)
  cases wide <;> exact absurd hnone (by decide)

end RedRock
