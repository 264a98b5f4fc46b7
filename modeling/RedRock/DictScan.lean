import RedRock.HashTableRefines
import RedRock.Lib.BitReverse

/-!
`dictScan` walks the buckets in the order of their reversed indices, so that a cursor keeps its
meaning when the table gets another size.
-/

namespace RedRock
open Lib List Option Nat BitVec Dictht

def revRound (s : Nat) (mask v : BitVec 64) : BitVec 64 :=
  ((v >>> s) &&& mask) ||| ((v <<< s) &&& ~~~mask)

def revLoop : Nat → Nat → BitVec 64 → BitVec 64 → BitVec 64
  | 0, _, _, v => v
  | fuel+1, s, mask, v =>
    if s >>> 1 > 0 then
      let mask := mask ^^^ (mask <<< (s >>> 1))
      revLoop fuel (s >>> 1) mask (revRound (s >>> 1) mask v)
    else v

def rev (v : BitVec 64) : BitVec 64 := revLoop 7 64 (BitVec.allOnes 64) v

/-- Sets the unmasked bits, so that incrementing the reversed cursor operates on the masked
ones. -/
def nextCursor (mask v : BitVec 64) : BitVec 64 := rev (rev (v ||| ~~~mask) + 1)

namespace HashDict
variable {κ α : Type}

def maskOf (t : Dictht κ α) : BitVec 64 := BitVec.ofNat 64 t.sizemask

/-- The buckets of the larger table that expand one bucket of the smaller table, from the
cursor on. -/
def scanLoop (t : Dictht κ α) (m0 : BitVec 64) :
    Nat → BitVec 64 → Except DictFault (List (κ × α) × BitVec 64)
  | 0, v => .ok ([],v)
  | fuel+1, v => do
    let chain ← t.bucket (t.index v)
    let v := nextCursor (maskOf t) v
    if v &&& (m0 ^^^ maskOf t) = 0 then return (chain,v)
    else
      let (rest,v) ← scanLoop t m0 fuel v
      return (chain ++ rest,v)

def scanBoth (t0 t1 : Dictht κ α) (v : BitVec 64) :
    Except DictFault (List (κ × α) × BitVec 64) := do
  let chain ← t0.bucket (t0.index v)
  let (rest,v) ← scanLoop t1 (maskOf t0) t1.size v
  return (chain ++ rest,v)

/-- The entries that are passed to the callback, and the next cursor. -/
def dictScan (d : HashDict κ α) (v : BitVec 64) : Except DictFault (List (κ × α) × BitVec 64) :=
  if d.dictSize = 0 then .ok ([],0)
  else if ¬d.dictIsRehashing then do
    let chain ← d.ht0.bucket (d.ht0.index v)
    return (chain,nextCursor (maskOf d.ht0) v)
  else if d.ht0.size > d.ht1.size then scanBoth d.ht1 d.ht0 v
  else scanBoth d.ht0 d.ht1 v

end HashDict

structure ScanRun (κ α : Type) where
  table : DictRun κ α
  cursor : BitVec 64
  visited : List (κ × α)
  finished : Bool

inductive ScanAct (κ α : Type) where
  | op (op : DictOp κ α)
  | scan

namespace ScanRun
variable {κ α : Type} [DecidableEq κ] (hash : κ → BitVec 64)

def start (table : DictRun κ α) : ScanRun κ α := ⟨table,0,[],false⟩

def scan (s : ScanRun κ α) : Except DictFault (ScanRun κ α) := do
  let (entries,v) ← s.table.dict.dictScan s.cursor
  return { s with cursor := v, visited := s.visited ++ entries, finished := v = 0 }

def step (s : ScanRun κ α) : ScanAct κ α → Option (Except DictFault (ScanRun κ α))
  | .op op => (s.table.step hash op).map (Except.map fun t => { s with table := t })
  | .scan => if s.finished then none else some s.scan

def Holds (key : κ) (s : ScanRun κ α) : Prop := ∃ val, (key,val) ∈ s.table.dict

def inMemory (s : ScanRun κ α) : ScanAct κ α → Bool
  | .op op => s.table.inMemory op
  | .scan => true

end ScanRun

def dictScanner {κ : Type} [DecidableEq κ] (α : Type) (hash : κ → BitVec 64) :
    Machine (ScanRun κ α) (ScanAct κ α) DictFault where
  init := .start (hashDict α hash).init
  step := ScanRun.step hash

lemma getLsbD_revRound {s : Nat} {mask : BitVec 64}
    (hm : ∀ i : Fin 64, if mask.getLsbD i then s + i = i.val ^^^ s
      else s ≤ i ∧ i - s = i.val ^^^ s) (v : BitVec 64) {i : Nat} (hi : i < 64) :
    (revRound s mask v).getLsbD i = v.getLsbD (i ^^^ s) := by
  have h := hm ⟨i,hi⟩
  rw [revRound,getLsbD_or,getLsbD_and,getLsbD_and,getLsbD_not,
    getLsbD_ushiftRight,getLsbD_shiftLeft]
  cases hb : mask.getLsbD i with
  | true =>
    simp only [hb,if_true] at h
    simp [h]
  | false =>
    simp only [hb,Bool.false_eq_true,if_false] at h
    have hlt : ¬i < s := by omega
    simp [hi,hlt,h.2]

lemma rev_eq_reverse (v : BitVec 64) : rev v = v.reverse := by
  have hrounds : rev v = revRound 1 0x5555555555555555 (revRound 2 0x3333333333333333
      (revRound 4 0x0f0f0f0f0f0f0f0f (revRound 8 0x00ff00ff00ff00ff
      (revRound 16 0x0000ffff0000ffff (revRound 32 0x00000000ffffffff v))))) := rfl
  have hlt : ∀ i j, i < 64 → j < 64 → i ^^^ j < 64 :=
    fun i j hi hj => xor_lt_two_pow (n := 6) hi hj
  have hbits : ∀ i : Fin 64, i.val ^^^ 1 ^^^ 2 ^^^ 4 ^^^ 8 ^^^ 16 ^^^ 32 = 64 - 1 - i := by decide
  apply eq_of_getLsbD_eq
  intro i hi
  have h1 := hlt i 1 hi (by omega)
  have h2 := hlt _ 2 h1 (by omega)
  have h4 := hlt _ 4 h2 (by omega)
  have h8 := hlt _ 8 h4 (by omega)
  have h16 := hlt _ 16 h8 (by omega)
  rw [hrounds,getLsbD_revRound (by decide) _ hi,getLsbD_revRound (by decide) _ h1,
    getLsbD_revRound (by decide) _ h2,getLsbD_revRound (by decide) _ h4,
    getLsbD_revRound (by decide) _ h8,getLsbD_revRound (by decide) _ h16,hbits ⟨i,hi⟩,
    getLsbD_reverse,BitVec.getMsbD]
  simp [hi]

lemma nextCursor_eq (mask v : BitVec 64) : nextCursor mask v = revNext mask v := by
  rw [nextCursor,rev_eq_reverse,rev_eq_reverse,revNext]

def nextPlace (k r : Nat) : Nat := (r / 2 ^ (64 - k) + 1) * 2 ^ (64 - k)

section Places
variable {k r p : Nat}

lemma lt_nextPlace : r < nextPlace k r := by
  have hpos := Nat.two_pow_pos (64 - k)
  rw [nextPlace,Nat.add_mul,Nat.one_mul]
  exact lt_div_mul_add hpos

lemma nextPlace_le (hk : k ≤ 64) (hr : r < 2 ^ 64) : nextPlace k r ≤ 2 ^ 64 := by
  have hmul : 2 ^ k * 2 ^ (64 - k) = 2 ^ 64 := by rw [← Nat.pow_add,Nat.add_sub_cancel' hk]
  have hlt : r / 2 ^ (64 - k) < 2 ^ k := by
    rw [Nat.div_lt_iff_lt_mul (Nat.two_pow_pos _),hmul]
    exact hr
  rw [nextPlace,← hmul]
  exact mul_le_mul_right _ hlt

lemma div_eq_of_lt_nextPlace (h : r ≤ p) (hp : p < nextPlace k r) :
    p / 2 ^ (64 - k) = r / 2 ^ (64 - k) := by
  have hle := Nat.div_le_div_right (c := 2 ^ (64 - k)) h
  rw [nextPlace,← Nat.div_lt_iff_lt_mul (Nat.two_pow_pos _)] at hp
  omega

lemma dvd_nextPlace : 2 ^ (64 - k) ∣ nextPlace k r := dvd_mul_left _ _

lemma nextPlace_le_of_dvd (h : 2 ^ (64 - k) ∣ p) (hr : r < p) : nextPlace k r ≤ p := by
  obtain ⟨c,rfl⟩ := h
  have hlt : r / 2 ^ (64 - k) < c := by
    rw [Nat.div_lt_iff_lt_mul (Nat.two_pow_pos _),mul_comm]
    exact hr
  rw [nextPlace,mul_comm _ c]
  exact mul_le_mul_right _ hlt

lemma nextPlace_mono {l : Nat} (hkl : k ≤ l) : nextPlace l r ≤ nextPlace k r := by
  refine nextPlace_le_of_dvd (dvd_trans ?_ dvd_nextPlace) lt_nextPlace
  exact pow_dvd_pow 2 (by omega)

end Places

namespace HashDict
variable {κ α : Type} {hash : κ → BitVec 64} {d : HashDict κ α} {t : Dictht κ α} {e : κ × α}
  {v : BitVec 64} {k l : Nat}

lemma maskOf_eq (hk : t.size = 2 ^ k) : maskOf t = lowMask 64 k := by
  rw [maskOf,sizemask,hk,lowMask]

lemma revNat_nextCursor (hk : t.size = 2 ^ k) (hk' : k ≤ 64) (v : BitVec 64) :
    revNat (nextCursor (maskOf t) v) = nextPlace k (revNat v) % 2 ^ 64 := by
  rw [nextCursor_eq,maskOf_eq hk,revNat_revNext hk',nextPlace]

lemma bucket_at (h : t.Placed hash) (hk : t.size = 2 ^ k) (hk' : k ≤ 64) (v : BitVec 64) :
    ∃ chain, t.bucket (t.index v) = .ok chain ∧ ∀ e ∈ t, revNat v ≤ revNat (hash e.1) →
      revNat (hash e.1) < nextPlace k (revNat v) → e ∈ chain := by
  have hs : t.size ≠ 0 := by
    rw [hk]
    exact Nat.ne_of_gt (Nat.two_pow_pos k)
  refine ⟨t.table (t.index v),h.bucket_ok (index_lt hs v),fun e he hle hlt => ?_⟩
  have hdiv := (revNat_div_eq_iff hk' _ _).mp (div_eq_of_lt_nextPlace hle hlt)
  have hidx : t.index (hash e.1) = t.index v := by
    rw [index,index,sizemask,hk,and_two_pow_sub_one_eq_mod,
      and_two_pow_sub_one_eq_mod,hdiv]
  rw [← hidx]
  exact h.mem_bucket.mp he

lemma scanLoop_ok (h : t.Placed hash) (hl : t.size = 2 ^ l) (hl' : l ≤ 64) (hkl : k ≤ l)
    {fuel : Nat} (hf : nextPlace k (revNat v) ≤ (revNat v / 2 ^ (64 - l) + fuel) * 2 ^ (64 - l)) :
    ∃ es v', scanLoop t (lowMask 64 k) fuel v = .ok (es,v') ∧
      revNat v' = nextPlace k (revNat v) % 2 ^ 64 ∧
      ∀ e ∈ t, revNat v ≤ revNat (hash e.1) → revNat (hash e.1) < nextPlace k (revNat v) →
        e ∈ es := by
  induction fuel generalizing v with
  | zero =>
    have hlt : revNat v < nextPlace k (revNat v) := lt_nextPlace
    have hle := div_mul_le_self (revNat v) (2 ^ (64 - l))
    rw [add_zero] at hf
    omega
  | succ fuel ih =>
    obtain ⟨chain,hchain,hmem⟩ := bucket_at h hl hl' v
    have hnext := revNat_nextCursor hl hl' v
    have hmono : nextPlace l (revNat v) ≤ nextPlace k (revNat v) := nextPlace_mono hkl
    have hend := nextPlace_le (by omega : k ≤ 64) (revNat_lt v)
    rw [scanLoop,hchain,maskOf_eq hl]
    rw [maskOf_eq hl] at hnext
    simp only [bind,Except.bind,pure,Except.pure]
    generalize nextCursor (lowMask 64 l) v = v₁ at hnext ⊢
    have hdvd : ∀ j, 2 ^ (64 - j) ∣ revNat v₁ ↔ 2 ^ (64 - j) ∣ nextPlace l (revNat v) := by
      intro j
      rw [hnext]
      exact dvd_mod_iff (pow_dvd_pow 2 (by omega))
    have hzero := and_lowMask_xor_eq_zero_iff hkl hl' ((hdvd l).mpr dvd_nextPlace)
    rw [hdvd] at hzero
    split
    · rename_i h0
      have he : nextPlace l (revNat v) = nextPlace k (revNat v) :=
        le_antisymm hmono (nextPlace_le_of_dvd (hzero.mp h0) lt_nextPlace)
      rw [he] at hnext hmem
      exact ⟨chain,v₁,rfl,hnext,hmem⟩
    rename_i h0
    have hlt : nextPlace l (revNat v) < nextPlace k (revNat v) := by
      refine lt_of_le_of_ne hmono fun he => h0 (hzero.mpr ?_)
      rw [he]
      exact dvd_nextPlace
    rw [mod_eq_of_lt (lt_of_lt_of_le hlt hend)] at hnext
    -- the interval of the smaller table stays the same
    have hsame : nextPlace k (revNat v₁) = nextPlace k (revNat v) := by
      have hle : revNat v ≤ revNat v₁ := by
        rw [hnext]
        exact le_of_lt lt_nextPlace
      rw [← hnext] at hlt
      rw [nextPlace,div_eq_of_lt_nextPlace hle hlt,nextPlace]
    have hdiv : revNat v₁ / 2 ^ (64 - l) = revNat v / 2 ^ (64 - l) + 1 := by
      rw [hnext,nextPlace,Nat.mul_div_cancel _ (Nat.two_pow_pos _)]
    have hf' : nextPlace k (revNat v₁) ≤ (revNat v₁ / 2 ^ (64 - l) + fuel) * 2 ^ (64 - l) := by
      rw [hsame,hdiv,add_assoc,add_comm 1]
      exact hf
    obtain ⟨es,v',hes,hv',hmem'⟩ := ih hf'
    rw [hsame] at hv' hmem'
    refine ⟨chain ++ es,v',by rw [hes],hv',fun e he hle hb => mem_append.mpr ?_⟩
    rcases lt_or_ge (revNat (hash e.1)) (nextPlace l (revNat v)) with hlo | hhi
    · exact .inl (hmem e he hle hlo)
    · exact .inr (hmem' e he (by omega) hb)

lemma scanBoth_ok {t0 t1 : Dictht κ α} (h0 : t0.Placed hash) (h1 : t1.Placed hash)
    (hk : t0.size = 2 ^ k) (hl : t1.size = 2 ^ l) (hkl : k ≤ l) (hl' : l ≤ 64) (v : BitVec 64) :
    ∃ es v', scanBoth t0 t1 v = .ok (es,v') ∧ revNat v' = nextPlace k (revNat v) % 2 ^ 64 ∧
      ∀ e, e ∈ t0 ∨ e ∈ t1 → revNat v ≤ revNat (hash e.1) →
        revNat (hash e.1) < nextPlace k (revNat v) → e ∈ es := by
  have hk' : k ≤ 64 := le_trans hkl hl'
  obtain ⟨chain,hchain,hmem⟩ := bucket_at h0 hk hk' v
  have hf : nextPlace k (revNat v) ≤ (revNat v / 2 ^ (64 - l) + t1.size) * 2 ^ (64 - l) := by
    have hend := nextPlace_le hk' (revNat_lt v)
    have hmul : 2 ^ l * 2 ^ (64 - l) = 2 ^ 64 := by rw [← Nat.pow_add,Nat.add_sub_cancel' hl']
    rw [hl,Nat.add_mul,hmul]
    omega
  obtain ⟨es,v',hes,hv',hmem'⟩ := scanLoop_ok h1 hl hl' hkl hf
  refine ⟨chain ++ es,v',?_,hv',fun e he hle hlt => mem_append.mpr ?_⟩
  · simp [scanBoth,hchain,maskOf_eq hk,hes,bind,Except.bind,pure,Except.pure]
  · exact he.imp (fun he => hmem e he hle hlt) fun he => hmem' e he hle hlt

structure Scanned (hash : κ → BitVec 64) (d : HashDict κ α) (v : BitVec 64)
    (es : List (κ × α)) (v' : BitVec 64) (b : Nat) : Prop where
  forward : revNat v < b
  bound : b ≤ 2 ^ 64
  cursor : revNat v' = b % 2 ^ 64
  visits : ∀ e ∈ d, revNat v ≤ revNat (hash e.1) → revNat (hash e.1) < b → e ∈ es

lemma dictScan_ok (h : d.WellFormed hash) (v : BitVec 64) :
    ∃ es v' b, d.dictScan v = .ok (es,v') ∧ Scanned hash d v es v' b := by
  unfold dictScan
  split
  · rename_i h0
    refine ⟨[],0,2 ^ 64,rfl,revNat_lt v,le_rfl,revNat_zero,fun e he => ?_⟩
    exact absurd he (notMem_of_dictSize h h0)
  rename_i h0
  have hs0 := h.first_sized h0
  obtain ⟨k,_,hk,hsk⟩ := h.first.size.resolve_left hs0
  have hk' : k ≤ 64 := by omega
  split
  · rename_i hr
    have hr' : d.dictIsRehashing = false := by simpa using hr
    obtain ⟨chain,hchain,hmem⟩ := bucket_at h.first hsk hk' v
    refine ⟨chain,nextCursor (maskOf d.ht0) v,nextPlace k (revNat v),?_,lt_nextPlace,
      nextPlace_le hk' (revNat_lt v),revNat_nextCursor hsk hk' v,fun e he => ?_⟩
    · rw [hchain]
      rfl
    · exact hmem e (he.resolve_right (h.notMem_second hr'))
  rename_i hr
  have hr' : d.rehashidx ≠ none := by
    simpa [dictIsRehashing,isSome_iff_ne_none] using hr
  obtain ⟨l,_,hl,hsl⟩ := h.second.size.resolve_left (h.sized hr').2
  have hl' : l ≤ 64 := by omega
  split
  · rename_i hgt
    rw [hsk,hsl] at hgt
    have hlk : l ≤ k := le_of_lt ((Nat.pow_lt_pow_iff_right (by omega)).mp hgt)
    obtain ⟨es,v',hes,hv',hmem⟩ := scanBoth_ok h.second h.first hsl hsk hlk hk' v
    exact ⟨es,v',_,hes,lt_nextPlace,nextPlace_le hl' (revNat_lt v),hv',fun e he => hmem e he.symm⟩
  rename_i hgt
  rw [hsk,hsl,not_lt] at hgt
  have hkl : k ≤ l := (Nat.pow_le_pow_iff_right (by omega)).mp hgt
  obtain ⟨es,v',hes,hv',hmem⟩ := scanBoth_ok h.first h.second hsk hsl hkl hl' v
  exact ⟨es,v',_,hes,lt_nextPlace,nextPlace_le hk' (revNat_lt v),hv',hmem⟩

end HashDict

namespace ScanRun
variable {κ α : Type} {hash : κ → BitVec 64} {s : ScanRun κ α}

def place (s : ScanRun κ α) : Nat := if s.finished then 2 ^ 64 else revNat s.cursor

lemma place_start (table : DictRun κ α) : (start table).place = 0 := revNat_zero

lemma scan_ok (h : s.table.dict.WellFormed hash) (hf : s.finished = false) :
    ∃ t es, s.scan = .ok t ∧ t.table = s.table ∧ t.visited = s.visited ++ es ∧
      s.place < t.place ∧ t.place ≤ 2 ^ 64 ∧
      ∀ e ∈ s.table.dict, s.place ≤ revNat (hash e.1) → revNat (hash e.1) < t.place → e ∈ es := by
  obtain ⟨es,v,b,hes,hscan⟩ := HashDict.dictScan_ok h s.cursor
  let t : ScanRun κ α := { s with cursor := v, visited := s.visited ++ es, finished := v = 0 }
  have hs : s.place = revNat s.cursor := by rw [place,hf]; rfl
  have ht : t.place = b := by
    have hlt := hscan.forward
    have hle := hscan.bound
    have hv := hscan.cursor
    by_cases h0 : v = 0
    · rw [h0,revNat_zero] at hv
      have hb : b = 2 ^ 64 := by
        by_contra hne
        rw [mod_eq_of_lt (lt_of_le_of_ne hle hne)] at hv
        omega
      have hfin : t.finished = true := decide_eq_true h0
      rw [place,hfin,hb]
      rfl
    have hb : b < 2 ^ 64 := by
      refine lt_of_le_of_ne hle fun he => h0 ((revNat_eq_zero_iff v).mp ?_)
      rw [hv,he,mod_self]
    rw [mod_eq_of_lt hb] at hv
    have hfin : t.finished = false := decide_eq_false h0
    rw [place,hfin,← hv]
    rfl
  refine ⟨t,es,by rw [scan,hes]; rfl,rfl,rfl,?_⟩
  rw [hs,ht]
  exact ⟨hscan.forward,hscan.bound,hscan.visits⟩

def Passed (hash : κ → BitVec 64) (key : κ) (s : ScanRun κ α) : Prop :=
  revNat (hash key) < s.place → ∃ val, (key,val) ∈ s.visited

lemma scan_passed {t : ScanRun κ α} {key : κ} (h : s.table.dict.WellFormed hash)
    (hf : s.finished = false) (hk : s.Holds key) (hp : s.Passed hash key)
    (ht : s.scan = .ok t) : t.Passed hash key := by
  obtain ⟨t',es,ht',_,hvis,_,_,hmem⟩ := scan_ok h hf
  cases ht.symm.trans ht'
  intro hlt
  obtain ⟨val,hval⟩ := hk
  rw [hvis]
  rcases lt_or_ge (revNat (hash key)) s.place with hlo | hhi
  · exact (hp hlo).imp fun v hv => mem_append_left _ hv
  · exact ⟨val,mem_append_right _ (hmem (key,val) hval hhi hlt)⟩

variable [DecidableEq κ]

lemma step_refines {a : ScanAct κ α} {r : Except DictFault (ScanRun κ α)} {x : MapRun κ α}
    (h : s.table.Refines hash x) (hg : s.inMemory a = true)
    (hs : s.step hash a = some r) : ∃ t, r = .ok t ∧ ∃ y, t.table.Refines hash y := by
  cases a with
  | op op =>
    obtain ⟨r',hr',rfl⟩ := map_eq_some_iff.mp hs
    obtain ⟨t,rfl,ht⟩ := DictRun.step_refines h hg hr'
    exact ⟨_,rfl,_,ht⟩
  | scan =>
    rw [step] at hs
    split at hs
    · cases hs
    rename_i hf
    cases hs
    obtain ⟨t,es,ht,htab,_⟩ := scan_ok h.wellFormed (by simpa using hf)
    exact ⟨t,ht,x,htab ▸ h⟩

lemma step_passed {a : ScanAct κ α} {t : ScanRun κ α} {key : κ}
    (h : s.table.dict.WellFormed hash) (hk : s.Holds key) (hp : s.Passed hash key)
    (hs : s.step hash a = some (.ok t)) : t.Passed hash key := by
  cases a with
  | op op =>
    obtain ⟨r',_,hr⟩ := map_eq_some_iff.mp hs
    obtain ⟨t',_,rfl⟩ := map_ok.mp hr
    exact hp
  | scan =>
    rw [step] at hs
    split at hs
    · cases hs
    rename_i hf
    simp only [some.injEq] at hs
    exact scan_passed h (by simpa using hf) hk hp hs

lemma scan_ends (h : s.table.dict.WellFormed hash) (hf : s.finished = false)
    (hp : ∀ e ∈ s.table.dict, revNat (hash e.1) < s.place → e ∈ s.visited) :
    ∃ n t, (dictScanner α hash).runFrom s (List.replicate n .scan) = some (.ok t) ∧
      t.finished = true ∧ ∀ e ∈ s.table.dict, e ∈ t.visited := by
  induction hm : 2 ^ 64 - s.place using Nat.strong_induction_on generalizing s with
  | _ m ih =>
    obtain ⟨t,es,ht,htab,hvis,hlt,hle,hmem⟩ := scan_ok h hf
    have hstep : (dictScanner α hash).step s .scan = some (.ok t) := by
      simp only [dictScanner,step,hf,ht]
      rfl
    have hp' : ∀ e ∈ t.table.dict, revNat (hash e.1) < t.place → e ∈ t.visited := by
      intro e he hb
      rw [htab] at he
      rw [hvis,mem_append]
      rcases lt_or_ge (revNat (hash e.1)) s.place with hlo | hhi
      · exact .inl (hp e he hlo)
      · exact .inr (hmem e he hhi hb)
    cases hfin : t.finished with
    | true =>
      refine ⟨1,t,by simp [Machine.runFrom,hstep],hfin,fun e he => hp' e (htab ▸ he) ?_⟩
      rw [place,hfin]
      exact revNat_lt _
    | false =>
      obtain ⟨n,u,hu,hufin,humem⟩ := ih (2 ^ 64 - t.place) (by omega) (htab ▸ h) hfin hp' rfl
      refine ⟨n+1,u,?_,hufin,htab ▸ humem⟩
      rw [List.replicate_succ]
      exact ((dictScanner α hash).runFrom_cons_ok hstep).mpr hu

/-- In memory, a scan passes every element to the callback that is in the table all the time,
whatever else is done to the table, and it ends when nothing is. -/
theorem scan_visits_all (hash : κ → BitVec 64) (ops : List (DictOp κ α)) (table : DictRun κ α)
    (hg : (hashDict α hash).Guarded (fun s op => s.inMemory op = true) (hashDict α hash).init ops)
    (h : (hashDict α hash).run ops = some (.ok table)) :
    (∀ acts r, (dictScanner α hash).Guarded (fun s a => s.inMemory a = true) (start table) acts →
      (dictScanner α hash).runFrom (start table) acts = some r →
      ∃ s, r = .ok s ∧ ∀ key,
        (dictScanner α hash).Guarded (fun s _ => s.Holds key) (start table) acts →
          s.finished = true → ∃ val, (key,val) ∈ s.visited) ∧
      ∃ n s, (dictScanner α hash).runFrom (start table) (List.replicate n .scan) =
        some (.ok s) ∧ s.finished = true ∧ ∀ e ∈ table.dict, e ∈ s.visited := by
  obtain ⟨table',he,hR⟩ := (hashDict α hash).guarded_simulates mapOp
    (fun s op r x hR hc hst => DictRun.step_refines hR hc hst) ops DictRun.init_refines hg h
  cases he
  constructor
  · intro acts r hga hr
    obtain ⟨s,rfl,_⟩ := (dictScanner α hash).guarded_run_ok
      (I := fun s => ∃ x, s.table.Refines hash x)
      (fun s a r ⟨x,hx⟩ hc hst => step_refines hx hc hst) acts ⟨_,hR⟩ hga hr
    refine ⟨s,rfl,fun key hk hfin => ?_⟩
    obtain ⟨_,hp⟩ := (dictScanner α hash).invariant_from
      (I := fun s => (∃ x, s.table.Refines hash x) ∧ s.Passed hash key)
      (by
        rintro s a t ⟨⟨x,hx⟩,hp⟩ ⟨hc,hk⟩ hst
        obtain ⟨t',he,hy⟩ := step_refines hx hc hst
        cases he
        exact ⟨hy,step_passed hx.wellFormed hk hp hst⟩)
      acts ⟨⟨_,hR⟩,fun hlt => by rw [place_start] at hlt; omega⟩ (hga.and hk) hr
    apply hp
    rw [place,hfin]
    exact revNat_lt _
  · refine scan_ends (s := start table) hR.wellFormed rfl fun e _ hlt => ?_
    rw [place_start] at hlt
    omega

/-- The table is scanned in the middle of a migration. -/
theorem scan_visits_all_growing :
    ∃ table, (hashDict Nat (BitVec.ofNat 64)).run DictRun.Sample.tableOps = some (.ok table) ∧
      table.dict.rehashidx = some 1 ∧
      ∃ n s, (dictScanner Nat (BitVec.ofNat 64)).runFrom (start table)
        (List.replicate n .scan) = some (.ok s) ∧ s.finished = true ∧
          ∀ e ∈ table.dict, e ∈ s.visited := by
  refine Machine.exists_run_and _ (by decide) fun table ht _ => ?_
  exact (scan_visits_all (BitVec.ofNat 64) DictRun.Sample.tableOps table
    (Machine.guarded_check _ _ _ _ (by decide)) ht).2

/-- The second table has been given no memory. -/
theorem scan_reads_nothing :
    ((dictScanner Nat (BitVec.ofNat 64)).run [.op (.add 0 10),.op (.expand (2 ^ 61)),.scan]).map
      (Except.map ScanRun.visited) = some (.error .outOfBounds) := rfl

end ScanRun
end RedRock
