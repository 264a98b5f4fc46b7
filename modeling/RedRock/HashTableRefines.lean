import RedRock.HashTable
import RedRock.Lib.Dict

namespace RedRock
open Lib List Dictht HashDict
variable {size : Nat}

section Chains
variable {κ α : Type} [DecidableEq κ] {chain : List (κ × α)} {key : κ} {val : α} {e : κ × α}

lemma find_chain_iff (hn : (chain.map Prod.fst).Nodup) :
    (chain.find? (·.1 = key)).map Prod.snd = some val ↔ (key,val) ∈ chain := by
  induction chain with
  | nil => simp
  | cons e rest ih =>
    obtain ⟨k,v⟩ := e
    obtain ⟨hk,hn⟩ := nodup_cons.mp hn
    by_cases h : k = key
    · subst h
      have hnot : (k,val) ∉ rest := fun hm => hk (mem_map.mpr ⟨_,hm,rfl⟩)
      simp [hnot,eq_comm]
    · simp [h,ih hn,Ne.symm h]

lemma mem_eraseP_key (hn : (chain.map Prod.fst).Nodup) :
    e ∈ chain.eraseP (·.1 = key) ↔ e ∈ chain ∧ e.1 ≠ key := by
  induction chain with
  | nil => simp
  | cons e' rest ih =>
    obtain ⟨hk,hn⟩ := nodup_cons.mp hn
    by_cases h : e'.1 = key
    · subst h
      have hne : ∀ x ∈ rest, x.1 ≠ e'.1 := fun x hx he => hk (mem_map.mpr ⟨x,hx,he⟩)
      simp only [eraseP_cons,decide_true,cond_true,mem_cons]
      constructor
      · exact fun hm => ⟨.inr hm,hne e hm⟩
      rintro ⟨rfl | hm,hx⟩
      · exact absurd rfl hx
      · exact hm
    simp only [eraseP_cons,h,decide_false,cond_false,mem_cons,ih hn,or_and_right]
    exact or_congr (and_iff_left_of_imp fun he => he ▸ h).symm Iff.rfl

lemma keys_setVal : (setVal key val chain).map Prod.fst = chain.map Prod.fst := by
  induction chain with
  | nil => rfl
  | cons e rest ih =>
    rw [setVal]
    split
    · rfl
    · rw [map_cons,map_cons,ih]

lemma length_setVal : (setVal key val chain).length = chain.length := by
  rw [← length_map Prod.fst,keys_setVal,length_map]

lemma setVal_perm (hk : key ∈ chain.map Prod.fst) :
    (setVal key val chain).Perm ((key,val) :: chain.eraseP (·.1 = key)) := by
  induction chain with
  | nil => simp at hk
  | cons e rest ih =>
    rw [setVal]
    split
    · rename_i h
      simp [h]
    rename_i h
    have hk := (mem_cons.mp hk).resolve_left (Ne.symm h)
    simpa [h] using ((ih hk).cons e).trans (.swap _ _ _)

lemma mem_setVal (hn : (chain.map Prod.fst).Nodup) (hk : key ∈ chain.map Prod.fst) :
    e ∈ setVal key val chain ↔ e = (key,val) ∨ e ∈ chain ∧ e.1 ≠ key := by
  rw [(setVal_perm hk).mem_iff,mem_cons,mem_eraseP_key hn]

end Chains

namespace Dictht
variable {κ α : Type} {hash : κ → BitVec 64} {t : Dictht κ α} {e e' : κ × α} {i : Nat}
  {chain : List (κ × α)} {used : Nat}

instance : Membership (κ × α) (Dictht κ α) := ⟨fun t e => ∃ i, e ∈ t.table i⟩

@[simp] lemma setBucket_size : (t.setBucket i chain used).size = t.size := rfl

@[simp] lemma setBucket_used : (t.setBucket i chain used).used = used := rfl

lemma setBucket_table (j : Nat) :
    (t.setBucket i chain used).table j = if j = i then chain else t.table j := by
  simp [setBucket,Function.update_apply]

lemma mem_setBucket : e ∈ t.setBucket i chain used ↔ e ∈ chain ∨ ∃ j, j ≠ i ∧ e ∈ t.table j := by
  constructor
  · intro ⟨j,hj⟩
    rw [setBucket_table] at hj
    split at hj
    · exact .inl hj
    · exact .inr ⟨j,‹_›,hj⟩
  intro h
  rcases h with h | ⟨j,hji,h⟩
  · exact ⟨i,by simpa [setBucket_table] using h⟩
  · exact ⟨j,by simpa [setBucket_table,hji] using h⟩

lemma mem_split (i : Nat) : e ∈ t ↔ e ∈ t.table i ∨ ∃ j, j ≠ i ∧ e ∈ t.table j := by
  constructor
  · intro ⟨j,hj⟩
    by_cases h : j = i
    · exact .inl (h ▸ hj)
    · exact .inr ⟨j,h,hj⟩
  intro h
  rcases h with h | ⟨j,_,h⟩
  · exact ⟨i,h⟩
  · exact ⟨j,h⟩

lemma mem_push : e ∈ t.push i e' ↔ e = e' ∨ e ∈ t := by
  rw [push,mem_setBucket,mem_split i,mem_cons,or_assoc]

lemma notMem_new : e ∉ (⟨fun _ => [],size,used⟩ : Dictht κ α) := by
  intro ⟨_,he⟩
  exact not_mem_nil he

lemma index_lt (h : t.size ≠ 0) (x : BitVec 64) : t.index x < t.size := by
  have hle : t.index x ≤ t.size - 1 := Nat.and_le_right
  omega

/-- Each entry is in the bucket that its hash gives, no chain has a key twice, and `used`
counts the entries. -/
structure Placed (hash : κ → BitVec 64) (t : Dictht κ α) : Prop where
  size : t.size = 0 ∨ ∃ k, 2 ≤ k ∧ k ≤ 60 ∧ t.size = 2 ^ k
  place : ∀ i e, e ∈ t.table i → i < t.size ∧ i = t.index (hash e.1)
  nodup : ∀ i, ((t.table i).map Prod.fst).Nodup
  used : t.used = ∑ i ∈ Finset.range t.size, (t.table i).length

namespace Placed

lemma reset : Placed hash (Dictht.reset : Dictht κ α) where
  size := .inl rfl
  place := by simp [Dictht.reset]
  nodup := by simp [Dictht.reset]
  used := rfl

lemma empty {k : Nat} (h2 : 2 ≤ k) (hk : k ≤ 60) :
    Placed hash (⟨fun _ => [],2 ^ k,0⟩ : Dictht κ α) where
  size := .inr ⟨k,h2,hk,rfl⟩
  place := by simp
  nodup := by simp
  used := by simp

variable (h : Placed hash t)
include h

lemma size_le : t.size ≤ 2 ^ 60 := by
  rcases h.size with h0 | ⟨k,_,hk,he⟩
  · omega
  rw [he]
  exact Nat.pow_le_pow_right (by omega) hk

lemma allocated_eq : t.allocated = t.size := by
  have hle := h.size_le
  unfold allocated
  omega

lemma bucket_ok (hi : i < t.size) : t.bucket i = .ok (t.table i) := by
  rw [bucket,h.allocated_eq,if_pos hi]

lemma mem_bucket : e ∈ t ↔ e ∈ t.table (t.index (hash e.1)) := by
  constructor
  · intro ⟨i,hi⟩
    rw [← (h.place i e hi).2]
    exact hi
  intro he
  exact ⟨_,he⟩

lemma index_of_mem (he : e ∈ t) : t.index (hash e.1) < t.size :=
  (h.place _ e (h.mem_bucket.mp he)).1

lemma unique (he : e ∈ t) (he' : e' ∈ t) (hk : e.1 = e'.1) : e = e' := by
  have hm := h.mem_bucket.mp he
  have hm' := h.mem_bucket.mp he'
  rw [← hk] at hm'
  exact inj_on_of_nodup_map (h.nodup _) hm hm' hk

lemma notMem_of_empty (h0 : t.size = 0) : e ∉ t := by
  intro he
  have hlt := h.index_of_mem he
  omega

lemma used_of_empty (h0 : t.size = 0) : t.used = 0 := by
  rw [h.used,h0]
  rfl

lemma notMem_of_used (h0 : t.used = 0) : e ∉ t := by
  intro he
  have hs := h.used
  rw [h0,eq_comm,Finset.sum_eq_zero_iff] at hs
  have hl := hs _ (Finset.mem_range.mpr (h.index_of_mem he))
  have hm := h.mem_bucket.mp he
  rw [length_eq_zero_iff.mp hl] at hm
  exact not_mem_nil hm

lemma exists_of_used (h0 : t.used ≠ 0) : ∃ i, i < t.size ∧ t.table i ≠ [] := by
  by_contra hn
  push Not at hn
  apply h0
  rw [h.used]
  refine Finset.sum_eq_zero fun i hi => ?_
  rw [hn i (Finset.mem_range.mp hi)]
  rfl

lemma length_le_used (hi : i < t.size) : (t.table i).length ≤ t.used := by
  rw [h.used]
  exact Finset.single_le_sum (f := fun i => (t.table i).length) (fun _ _ => Nat.zero_le _)
    (Finset.mem_range.mpr hi)

lemma setBucket (hi : i < t.size) (hp : ∀ e ∈ chain, i = t.index (hash e.1))
    (hn : (chain.map Prod.fst).Nodup) (hu : used + (t.table i).length = t.used + chain.length) :
    Placed hash (t.setBucket i chain used) where
  size := h.size
  place := by
    intro j e he
    rw [setBucket_table] at he
    split at he
    · rename_i hj
      subst hj
      exact ⟨hi,hp e he⟩
    · exact h.place j e he
  nodup := by
    intro j
    rw [setBucket_table]
    split
    · exact hn
    · exact h.nodup j
  used := by
    have hold := h.used
    have hr := Finset.mem_range.mpr hi
    rw [← Finset.add_sum_erase _ _ hr] at hold
    rw [setBucket_size,setBucket_used,← Finset.add_sum_erase _ _ hr,setBucket_table,if_pos rfl]
    have hrest : ∑ j ∈ (Finset.range t.size).erase i,((t.setBucket i chain used).table j).length =
        ∑ j ∈ (Finset.range t.size).erase i, (t.table j).length := by
      refine Finset.sum_congr rfl fun j hj => ?_
      rw [setBucket_table,if_neg (Finset.ne_of_mem_erase hj)]
    omega

lemma push (hs : t.size ≠ 0) (hf : ∀ e' ∈ t, e'.1 ≠ e.1) :
    Placed hash (t.push (t.index (hash e.1)) e) := by
  apply h.setBucket (index_lt hs _)
  · intro e' he'
    rcases mem_cons.mp he' with rfl | he'
    · rfl
    · exact (h.place _ e' he').2
  · rw [map_cons,nodup_cons]
    refine ⟨fun hm => ?_,h.nodup _⟩
    obtain ⟨e',he',hk⟩ := mem_map.mp hm
    exact hf e' ⟨_,he'⟩ hk
  simp only [length_cons]
  omega

end Placed
end Dictht

namespace HashDict
variable {κ α : Type} {hash : κ → BitVec 64} {d : HashDict κ α} {t : Dictht κ α} {e : κ × α}

instance : Membership (κ × α) (HashDict κ α) := ⟨fun d e => e ∈ d.ht0 ∨ e ∈ d.ht1⟩

lemma mem_iff : e ∈ d ↔ e ∈ d.ht0 ∨ e ∈ d.ht1 := Iff.rfl

/-- No key is in both tables. The buckets before `rehashidx` are empty, and the second table
is there only while entries move to it. -/
structure WellFormed (hash : κ → BitVec 64) (d : HashDict κ α) : Prop where
  first : d.ht0.Placed hash
  second : d.ht1.Placed hash
  apart : ∀ e ∈ d.ht0, ∀ e' ∈ d.ht1, e.1 ≠ e'.1
  still : d.rehashidx = none → d.ht1.size = 0
  moved : ∀ idx, d.rehashidx = some idx → ∀ i < idx, d.ht0.table i = []
  sized : d.rehashidx ≠ none → d.ht0.size ≠ 0 ∧ d.ht1.size ≠ 0

structure Kept (hash : κ → BitVec 64) (d d' : HashDict κ α) : Prop where
  wellFormed : d'.WellFormed hash
  mem : ∀ e, e ∈ d' ↔ e ∈ d
  size : d'.dictSize = d.dictSize

lemma Kept.refl (h : d.WellFormed hash) : Kept hash d d := ⟨h,fun _ => Iff.rfl,rfl⟩

lemma Kept.flags (h : d.WellFormed hash) (iterators : Nat) (canResize : Bool) :
    Kept hash d { d with iterators := iterators, canResize := canResize } :=
  ⟨⟨h.first,h.second,h.apart,h.still,h.moved,h.sized⟩,fun _ => Iff.rfl,rfl⟩

lemma Kept.trans {d' d'' : HashDict κ α} (h : Kept hash d d') (h' : Kept hash d' d'') :
    Kept hash d d'' := by
  refine ⟨h'.wellFormed,fun e => ?_,h'.size.trans h.size⟩
  rw [h'.mem,h.mem]

namespace WellFormed

lemma setIdle (ht : t.Placed hash) (n : Nat) (b : Bool) :
    WellFormed hash ⟨t,Dictht.reset,none,n,b⟩ where
  first := ht
  second := .reset
  apart := fun _ _ _ he' => absurd he' notMem_new
  still := fun _ => rfl
  moved := by simp
  sized := by simp

section
variable (h : d.WellFormed hash)
include h

lemma unique {e' : κ × α} (he : e ∈ d) (he' : e' ∈ d) (hk : e.1 = e'.1) : e = e' := by
  rcases he with he | he <;> rcases he' with he' | he'
  · exact h.first.unique he he' hk
  · exact absurd hk (h.apart e he e' he')
  · exact absurd hk.symm (h.apart e' he' e he)
  · exact h.second.unique he he' hk

lemma setFirst (ht : t.Placed hash) (hs : t.size = d.ht0.size)
    (hk : ∀ e ∈ t, ∃ e' ∈ d.ht0, e'.1 = e.1) : WellFormed hash { d with ht0 := t } where
  first := ht
  second := h.second
  apart := by
    intro e he e' he'
    obtain ⟨e'',hm,hkey⟩ := hk e he
    rw [← hkey]
    exact h.apart e'' hm e' he'
  still := h.still
  moved := by
    intro idx hidx i hi
    rw [eq_nil_iff_forall_not_mem]
    intro e he
    -- the old entry with this key was in the same bucket, which was empty
    obtain ⟨e',hm,hkey⟩ := hk e ⟨i,he⟩
    have hb := h.first.mem_bucket.mp hm
    have hx : d.ht0.index (hash e'.1) = i := by
      rw [hkey,(ht.place i e he).2,index,index,sizemask,sizemask,hs]
    rw [hx,h.moved idx hidx i hi] at hb
    exact not_mem_nil hb
  sized := by
    intro hn
    have hb := h.sized hn
    exact ⟨hs ▸ hb.1,hb.2⟩

lemma setSecond (ht : t.Placed hash) (hs : t.size = d.ht1.size)
    (hk : ∀ e ∈ d.ht0, ∀ e' ∈ t, e.1 ≠ e'.1) : WellFormed hash { d with ht1 := t } where
  first := h.first
  second := ht
  apart := hk
  still := fun hn => hs.trans (h.still hn)
  moved := h.moved
  sized := by
    intro hn
    have hb := h.sized hn
    exact ⟨hb.1,hs ▸ hb.2⟩

lemma first_sized (hn : d.dictSize ≠ 0) : d.ht0.size ≠ 0 := by
  intro h0
  have hnone : d.rehashidx = none := by
    by_contra hr
    exact (h.sized hr).1 h0
  have hu := h.first.used_of_empty h0
  have hu' := h.second.used_of_empty (h.still hnone)
  unfold dictSize at hn
  omega

lemma notMem_second (hn : d.dictIsRehashing = false) : e ∉ d.ht1 := by
  apply h.second.notMem_of_empty
  apply h.still
  simpa [dictIsRehashing] using hn

end

end WellFormed

lemma nextPowerFrom_spec {size fuel k : Nat} (hk : k ≤ 60) (hf : 60 ≤ k + fuel)
    (hs : size ≤ 2 ^ 60) :
    ∃ j, k ≤ j ∧ j ≤ 60 ∧ nextPowerFrom fuel (2 ^ k) size = 2 ^ j ∧ size ≤ 2 ^ j := by
  induction fuel generalizing k with
  | zero =>
    have he : k = 60 := by omega
    exact ⟨k,le_rfl,hk,rfl,he ▸ hs⟩
  | succ fuel ih =>
    rw [nextPowerFrom]
    split
    · exact ⟨k,le_rfl,hk,rfl,‹_›⟩
    rename_i hlt
    have hne : k ≠ 60 := by
      intro he
      exact hlt (he ▸ hs)
    obtain ⟨j,hj,hj',he,hsj⟩ := ih (k := k + 1) (by omega) (by omega)
    exact ⟨j,by omega,hj',by rw [← he,Nat.pow_succ],hsj⟩

lemma dictNextPower_spec (hs : size ≤ 2 ^ 60) :
    ∃ j, 2 ≤ j ∧ j ≤ 60 ∧ dictNextPower size = 2 ^ j ∧ size ≤ 2 ^ j := by
  have hlt : ¬size ≥ 2 ^ 63 - 1 := by omega
  rw [dictNextPower,if_neg hlt]
  exact nextPowerFrom_spec (k := 2) (by omega) (by omega) hs

lemma dictExpand_spec (h : d.WellFormed hash) (hs : size ≤ 2 ^ 60) :
    Kept hash d (d.dictExpand size).2 ∧
      (d.dictIsRehashing = false → d.ht0.used ≤ size → d.ht0.size < size →
        (d.dictExpand size).1 = true ∧ (d.dictExpand size).2.ht0.size ≠ 0) := by
  obtain ⟨j,h2,hj,he,hsj⟩ := dictNextPower_spec hs
  have hpos : 0 < 2 ^ j := Nat.two_pow_pos j
  unfold dictExpand
  split
  · rename_i hno
    refine ⟨.refl h,fun hr hu _ => ?_⟩
    rcases hno with hno | hno
    · simp [hr] at hno
    · omega
  rename_i hyes
  have hnone : d.rehashidx = none := by
    simpa [dictIsRehashing] using (not_or.mp hyes).1
  simp only [he]
  split
  · rename_i hsame
    exact ⟨.refl h,fun _ _ hlt => by omega⟩
  have hn : Placed hash (⟨fun _ => [],2 ^ j,0⟩ : Dictht κ α) := .empty h2 hj
  have hfresh : ∀ e, e ∉ (⟨fun _ => [],2 ^ j,0⟩ : Dictht κ α) := fun e => notMem_new
  split
  · rename_i h0
    have hold : ∀ e, e ∉ d.ht0 := fun e => h.first.notMem_of_empty h0
    refine ⟨⟨⟨hn,h.second,fun e he => absurd he (hfresh e),h.still,fun i hi => ?_,
      fun hr => absurd hnone hr⟩,fun e => ?_,?_⟩,fun _ _ _ => ⟨rfl,Nat.ne_of_gt hpos⟩⟩
    · rw [hnone] at hi
      cases hi
    · simp only [mem_iff,hfresh,hold]
    · have hu := h.first.used_of_empty h0
      simp [dictSize,hu]
  rename_i h0
  have hold : ∀ e, e ∉ d.ht1 := fun e => h.second.notMem_of_empty (h.still hnone)
  refine ⟨⟨⟨h.first,hn,fun _ _ e he => absurd he (hfresh e),fun hr => ?_,fun i hi => ?_,
    fun _ => ⟨h0,Nat.ne_of_gt hpos⟩⟩,fun e => ?_,?_⟩,fun _ _ _ => ⟨rfl,h0⟩⟩
  · cases hr
  · cases hi
    simp
  · simp only [mem_iff,hfresh,hold]
  · have hu := h.second.used_of_empty (h.still hnone)
    simp [dictSize,hu]

lemma dictExpandIfNeeded_spec (h : d.WellFormed hash) (hm : d.dictSize ≤ 2 ^ 59) :
    ∃ d', d.dictExpandIfNeeded = (true,d') ∧ Kept hash d d' ∧ d'.ht0.size ≠ 0 := by
  have hu : d.ht0.used ≤ 2 ^ 59 := by
    unfold dictSize at hm
    omega
  unfold dictExpandIfNeeded
  split
  · rename_i hr
    exact ⟨d,rfl,.refl h,(h.sized (Option.isSome_iff_ne_none.mp hr)).1⟩
  rename_i hr
  split
  · rename_i h0
    have hu0 := h.first.used_of_empty h0
    obtain ⟨hk,hyes⟩ := dictExpand_spec h (show dictHtInitialSize ≤ 2 ^ 60 by decide)
    obtain ⟨hf,hs⟩ := hyes (by simpa using hr) (by omega) (by rw [h0]; decide)
    exact ⟨_,Prod.ext hf rfl,hk,hs⟩
  rename_i h0
  split
  · rename_i hfull
    obtain ⟨hk,hyes⟩ := dictExpand_spec h (show d.ht0.used * 2 ≤ 2 ^ 60 by omega)
    obtain ⟨hf,hs⟩ := hyes (by simpa using hr) (by omega) (by omega)
    exact ⟨_,Prod.ext hf rfl,hk,hs⟩
  · exact ⟨d,rfl,.refl h,h0⟩

lemma skipEmpty_ok (h : t.Placed hash) {j fuel idx : Nat} {v : Int}
    (hj : j < t.size) (hb : t.table j ≠ []) (hidx : idx ≤ j) (hm : ∀ i < idx, t.table i = [])
    (hf : j - idx < fuel) :
    ∃ idx' v' stop, skipEmpty t fuel idx v = .ok (idx',v',stop) ∧
      (∀ i < idx', t.table i = []) ∧ (stop = false → idx' < t.size) := by
  induction fuel generalizing idx v with
  | zero => omega
  | succ fuel ih =>
    rw [skipEmpty,h.bucket_ok (by omega)]
    simp only [bind,Except.bind]
    split
    · exact ⟨idx,v,false,rfl,hm,fun _ => by omega⟩
    rename_i hempty
    have hnil : t.table idx = [] := by simpa using hempty
    have hne : idx ≠ j := by
      intro he
      exact hb (he ▸ hnil)
    have hm' : ∀ i < idx + 1, t.table i = [] := by
      intro i hi
      rcases Nat.lt_succ_iff_lt_or_eq.mp hi with hi | rfl
      · exact hm i hi
      · exact hnil
    split
    · exact ⟨idx+1,0,true,rfl,hm',fun hc => by cases hc⟩
    · exact ih (by omega) hm' (by omega)

lemma moveChain_ok (h : t.Placed hash) (hs : t.size ≠ 0) {chain : List (κ × α)}
    (hn : (chain.map Prod.fst).Nodup) (hf : ∀ e ∈ chain, ∀ e' ∈ t, e'.1 ≠ e.1) :
    ∃ t', moveChain hash chain t = .ok t' ∧ t'.Placed hash ∧ t'.size = t.size ∧
      t'.used = t.used + chain.length ∧ ∀ e, e ∈ t' ↔ e ∈ chain ∨ e ∈ t := by
  induction chain generalizing t with
  | nil => exact ⟨t,rfl,h,rfl,rfl,fun e => by simp⟩
  | cons e rest ih =>
    obtain ⟨hk,hn⟩ := nodup_cons.mp hn
    have hp := h.push hs (hf e (by simp))
    obtain ⟨t',ht,hp',hs',hu,hmem⟩ := ih hp hs hn (by
      intro x hx e' he'
      rcases mem_push.mp he' with rfl | he'
      · exact fun he => hk (mem_map.mpr ⟨x,hx,he.symm⟩)
      · exact hf x (by simp [hx]) e' he')
    refine ⟨t',?_,hp',hs',?_,fun x => ?_⟩
    · rw [moveChain]
      simpa [h.bucket_ok (index_lt hs _),bind,Except.bind] using ht
    · rw [hu,length_cons,Dictht.push,setBucket_used]
      omega
    rw [hmem,mem_push,mem_cons]
    tauto

lemma moveBucket_ok {idx : Nat} (h : WellFormed hash { d with rehashidx := some idx })
    (hi : idx < d.ht0.size) :
    ∃ d', d.moveBucket hash idx = .ok d' ∧
      Kept hash { d with rehashidx := some idx } { d' with rehashidx := some (idx+1) } := by
  have h0 : d.ht0.Placed hash := h.first
  have h1 : d.ht1.Placed hash := h.second
  have hsz : d.ht0.size ≠ 0 ∧ d.ht1.size ≠ 0 := h.sized (by simp)
  obtain ⟨t,ht,hp,hs,hu,hmem⟩ := moveChain_ok h1 hsz.2 (h0.nodup idx)
    (fun e he e' he' hk => h.apart e ⟨idx,he⟩ e' he' hk.symm)
  have hle := h0.length_le_used hi
  have hp0 : Placed hash (d.ht0.setBucket idx [] (d.ht0.used - (d.ht0.table idx).length)) :=
    h0.setBucket hi (by simp) (by simp) (by simpa using Nat.sub_add_cancel hle)
  refine ⟨{ d with ht0 := d.ht0.setBucket idx [] (d.ht0.used - (d.ht0.table idx).length), ht1 := t },
    by rw [moveBucket,ht]; rfl,⟨hp0,hp,?_,by simp,?_,fun _ => ⟨hsz.1,hs ▸ hsz.2⟩⟩,fun e => ?_,?_⟩
  · intro e he e' he'
    obtain ⟨j,hj,he⟩ := (mem_setBucket.mp he).resolve_left (by simp)
    rcases (hmem e').mp he' with hm | hm
    · -- the other entry comes from the moved bucket
      intro hk
      have hx := h0.unique ⟨j,he⟩ ⟨idx,hm⟩ hk
      subst hx
      exact hj ((h0.place j e he).2.trans (h0.place idx e hm).2.symm)
    · exact h.apart e ⟨j,he⟩ e' hm
  · intro i hidx k hk
    cases hidx
    rw [setBucket_table]
    split
    · rfl
    · exact h.moved idx rfl k (by omega)
  · have hsplit := mem_split (t := d.ht0) (e := e) idx
    simp only [mem_iff,mem_setBucket,hmem,not_mem_nil,false_or]
    rw [hsplit,or_assoc,or_left_comm]
  · simp only [dictSize,setBucket_used,hu]
    omega

lemma rehashLoop_ok {n idx : Nat} {v : Int}
    (h : WellFormed hash { d with rehashidx := some idx }) :
    ∃ early d', rehashLoop hash n v idx d = .ok (early,d') ∧
      Kept hash { d with rehashidx := some idx } d' ∧ d'.rehashidx ≠ none := by
  induction n generalizing idx d v with
  | zero => exact ⟨false,_,rfl,.refl h,by simp⟩
  | succ n ih =>
    rw [rehashLoop]
    split
    · exact ⟨false,_,rfl,.refl h,by simp⟩
    rename_i hu
    have h0 : d.ht0.Placed hash := h.first
    obtain ⟨j,hj,hb⟩ := h0.exists_of_used hu
    have hidx : idx ≤ j := by
      by_contra hlt
      exact hb (h.moved idx rfl j (by omega))
    rw [if_neg (by omega),h0.allocated_eq]
    obtain ⟨idx',v',stop,hskip,hm,hlt⟩ := skipEmpty_ok (v := v) h0
      hj hb hidx (h.moved idx rfl) (show j - idx < d.ht0.size + 1 by omega)
    have h' : WellFormed hash { d with rehashidx := some idx' } :=
      ⟨h.first,h.second,h.apart,by simp,fun i hi => by cases hi; exact hm,
        fun _ => h.sized (by simp)⟩
    have hstart : Kept hash { d with rehashidx := some idx } { d with rehashidx := some idx' } :=
      ⟨h',fun _ => Iff.rfl,rfl⟩
    rw [hskip]
    cases stop with
    | true => exact ⟨true,_,rfl,hstart,by simp⟩
    | false =>
      obtain ⟨d',hd',hkept⟩ := moveBucket_ok h' (hlt rfl)
      obtain ⟨early,d'',hd'',hkept',hr⟩ := ih (v := v') hkept.wellFormed
      refine ⟨early,d'',?_,?_,hr⟩
      · simpa [bind,Except.bind,hd'] using hd''
      · exact hstart.trans (hkept.trans hkept')

section
variable (h : d.WellFormed hash)
include h

lemma dictRehash_ok (n : Nat) :
    ∃ more d', d.dictRehash hash n = .ok (more,d') ∧ Kept hash d d' := by
  unfold dictRehash
  split
  · exact ⟨false,d,rfl,.refl h⟩
  rename_i idx hidx
  have hd : { d with rehashidx := some idx } = d := by rw [← hidx]
  obtain ⟨early,d',hloop,hkept,_⟩ := rehashLoop_ok (n := n)
    (v := (BitVec.ofNat 32 (n * 10)).toInt) (hd.symm ▸ h)
  rw [hd] at hkept
  simp only [hloop,bind,Except.bind]
  cases early with
  | true => exact ⟨true,d',rfl,hkept⟩
  | false =>
    simp only [Bool.false_eq_true,if_false]
    split
    · rename_i hu
      have hno : ∀ e, e ∉ d'.ht0 := fun e => hkept.wellFormed.first.notMem_of_used hu
      have hno' : ∀ e, e ∉ (Dictht.reset : Dictht κ α) := fun e => notMem_new
      have hfin : Kept hash d' { d' with ht0 := d'.ht1, ht1 := .reset, rehashidx := none } := by
        refine ⟨.setIdle hkept.wellFormed.second _ _,fun e => ?_,?_⟩
        · simp only [mem_iff,hno,hno',or_false,false_or]
        · simp [dictSize,hu,Dictht.reset]
      exact ⟨false,_,rfl,hkept.trans hfin⟩
    · exact ⟨true,d',rfl,hkept⟩

lemma dictRehashStep_ok : ∃ d', d.dictRehashStep hash = .ok d' ∧ Kept hash d d' := by
  unfold dictRehashStep
  split
  · obtain ⟨more,d',hd',hkept⟩ := dictRehash_ok h 1
    exact ⟨d',by simp [hd',bind,Except.bind,pure,Except.pure],hkept⟩
  · exact ⟨d,rfl,.refl h⟩

lemma WellFormed.find_iff {key : κ} {val : α} (hm : (key,val) ∈ d) (v : α) :
    some val = some v ↔ (key,v) ∈ d := by
  constructor
  · intro he
    cases he
    exact hm
  intro hv
  cases h.unique hm hv rfl
  rfl

lemma notMem_of_dictSize (h0 : d.dictSize = 0) : e ∉ d := by
  have h0' : d.ht0.used = 0 ∧ d.ht1.used = 0 := by
    unfold dictSize at h0
    omega
  intro he
  exact he.elim (h.first.notMem_of_used h0'.1) (h.second.notMem_of_used h0'.2)

end

variable {key : κ} {val : α}

lemma ne_of_absent (hm : ∀ v, (key,v) ∉ d) (he : e ∈ d) : e.1 ≠ key := by
  intro hk
  subst hk
  exact hm e.2 he

lemma push_second (h : d.WellFormed hash) (hr : d.dictIsRehashing = true)
    (hm : ∀ v, (key,v) ∉ d) (val : α) :
    WellFormed hash { d with ht1 := d.ht1.push (d.ht1.index (hash key)) (key,val) } := by
  have hs := (h.sized (Option.isSome_iff_ne_none.mp hr)).2
  apply h.setSecond (h.second.push (e := (key,val)) hs fun e he => ne_of_absent hm (.inr he)) rfl
  intro e he e' he'
  rcases mem_push.mp he' with rfl | he'
  · exact ne_of_absent hm (.inl he)
  · exact h.apart e he e' he'

lemma push_first (h : d.WellFormed hash) (hr : d.dictIsRehashing = false)
    (hs : d.ht0.size ≠ 0) (hm : ∀ v, (key,v) ∉ d) (val : α) :
    WellFormed hash { d with ht0 := d.ht0.push (d.ht0.index (hash key)) (key,val) } where
  first := h.first.push (e := (key,val)) hs fun e he => ne_of_absent hm (.inl he)
  second := h.second
  apart := fun _ _ e' he' => absurd he' (h.notMem_second hr)
  still := h.still
  moved := by
    intro idx hidx
    simp only at hidx
    rw [dictIsRehashing,hidx] at hr
    cases hr
  sized := fun hn => ⟨hs,(h.sized hn).2⟩

variable {old : α}

lemma edit_first (h : d.WellFormed hash) (hm : (key,old) ∈ d.ht0) (ht : t.Placed hash)
    (hs : t.size = d.ht0.size) {p : κ × α → Prop} (hp : ∀ e, p e → e.1 = key)
    (hmem : ∀ e, e ∈ t ↔ p e ∨ e ∈ d.ht0 ∧ e.1 ≠ key) : WellFormed hash { d with ht0 := t } ∧
      ∀ e, e ∈ { d with ht0 := t } ↔ p e ∨ e ∈ d ∧ e.1 ≠ key := by
  refine ⟨h.setFirst ht hs fun e he => ?_,fun e => ?_⟩
  · rcases (hmem e).mp he with he | he
    · exact ⟨_,hm,(hp e he).symm⟩
    · exact ⟨e,he.1,rfl⟩
  simp only [mem_iff,hmem,or_and_right,or_assoc]
  refine or_congr Iff.rfl (or_congr Iff.rfl (and_iff_left_of_imp fun he hk => ?_).symm)
  exact h.apart _ hm e he hk.symm

lemma edit_second (h : d.WellFormed hash) (hm : (key,old) ∈ d.ht1) (ht : t.Placed hash)
    (hs : t.size = d.ht1.size) {p : κ × α → Prop} (hp : ∀ e, p e → e.1 = key)
    (hmem : ∀ e, e ∈ t ↔ p e ∨ e ∈ d.ht1 ∧ e.1 ≠ key) : WellFormed hash { d with ht1 := t } ∧
      ∀ e, e ∈ { d with ht1 := t } ↔ p e ∨ e ∈ d ∧ e.1 ≠ key := by
  refine ⟨h.setSecond ht hs fun e he e' he' => ?_,fun e => ?_⟩
  · rcases (hmem e').mp he' with he' | he'
    · exact hp e' he' ▸ h.apart e he (key,old) hm
    · exact h.apart e he e' he'.1
  simp only [mem_iff,hmem,or_and_right]
  rw [or_left_comm]
  refine or_congr Iff.rfl (or_congr (and_iff_left_of_imp fun he hk => ?_).symm Iff.rfl)
  exact h.apart e he _ hm hk

section Operations
variable [DecidableEq κ]

section
variable (h : t.Placed hash)
include h

lemma findIn_ok (hs : t.size ≠ 0) (key : κ) :
    ∃ o, findIn hash t key = .ok o ∧ ∀ v, o = some v ↔ (key,v) ∈ t := by
  refine ⟨((t.table (t.index (hash key))).find? (·.1 = key)).map Prod.snd,?_,fun v => ?_⟩
  · simp [findIn,h.bucket_ok (index_lt hs _),bind,Except.bind,pure,Except.pure]
  · rw [find_chain_iff (h.nodup _),h.mem_bucket]

lemma removeIn_placed (hk : (key,val) ∈ t) : (removeIn hash t key).Placed hash := by
  have hm := h.mem_bucket.mp hk
  have hpos := length_pos_of_mem hm
  have hle := h.length_le_used (h.index_of_mem hk)
  apply h.setBucket (h.index_of_mem hk)
  · intro e he
    exact (h.place _ e (mem_of_mem_eraseP he)).2
  · exact (h.nodup _).sublist (eraseP_sublist.map Prod.fst)
  rw [length_eraseP_of_mem hm (by simp)]
  omega

lemma mem_removeIn : e ∈ removeIn hash t key ↔ False ∨ e ∈ t ∧ e.1 ≠ key := by
  rw [false_or,removeIn,mem_setBucket,mem_eraseP_key (h.nodup _),
    mem_split (t.index (hash key)),or_and_right]
  -- an entry of another bucket has another key
  refine or_congr Iff.rfl ⟨fun ⟨j,hj,he⟩ => ⟨⟨j,hj,he⟩,fun hk => ?_⟩,fun he => he.1⟩
  rw [← hk] at hj
  exact hj (h.place j e he).2

lemma setValIn_placed (hk : (key,old) ∈ t) : (setValIn hash t key val).Placed hash := by
  apply h.setBucket (h.index_of_mem hk)
  · intro e he
    have hm := mem_map_of_mem (f := Prod.fst) he
    rw [keys_setVal] at hm
    obtain ⟨e',he',hk⟩ := mem_map.mp hm
    rw [← hk]
    exact (h.place _ e' he').2
  · rw [keys_setVal]
    exact h.nodup _
  · rw [length_setVal]

lemma mem_setValIn (hk : (key,old) ∈ t) (val : α) :
    e ∈ setValIn hash t key val ↔ e = (key,val) ∨ e ∈ t ∧ e.1 ≠ key := by
  have hm : key ∈ (t.table (t.index (hash key))).map Prod.fst :=
    mem_map.mpr ⟨_,h.mem_bucket.mp hk,rfl⟩
  rw [setValIn,mem_setBucket,mem_setVal (h.nodup _) hm,
    mem_split (t := t) (t.index (hash key)),or_and_right,or_assoc]
  refine or_congr Iff.rfl (or_congr Iff.rfl ⟨fun ⟨j,hj,he⟩ => ⟨⟨j,hj,he⟩,fun hk => ?_⟩,
    fun he => he.1⟩)
  rw [← hk] at hj
  exact hj (h.place j e he).2

end

inductive Lookup (hash : κ → BitVec 64) (d : HashDict κ α) (key : κ) : Prop where
  | first (v : α) (hf : findIn hash d.ht0 key = .ok (some v)) (hm : (key,v) ∈ d.ht0)
  | second (v : α) (hf : findIn hash d.ht0 key = .ok none) (hr : d.dictIsRehashing = true)
      (hf' : findIn hash d.ht1 key = .ok (some v)) (hm : (key,v) ∈ d.ht1)
  | neither (hf : findIn hash d.ht0 key = .ok none) (hr : d.dictIsRehashing = true)
      (hf' : findIn hash d.ht1 key = .ok none) (hm : ∀ v, (key,v) ∉ d)
  | absent (hf : findIn hash d.ht0 key = .ok none) (hr : d.dictIsRehashing = false)
      (hm : ∀ v, (key,v) ∉ d)

lemma WellFormed.lookup (h : d.WellFormed hash) (hs : d.ht0.size ≠ 0) (key : κ) :
    Lookup hash d key := by
  obtain ⟨o,ho,hm⟩ := findIn_ok h.first hs key
  cases o with
  | some v => exact .first v ho ((hm v).mp rfl)
  | none =>
    have hno : ∀ v, (key,v) ∉ d.ht0 := fun v hv => by simpa using (hm v).mpr hv
    cases hr : d.dictIsRehashing with
    | false =>
      refine .absent ho hr fun v hv => ?_
      exact hv.elim (hno v) (h.notMem_second hr)
    | true =>
      have hs1 := (h.sized (Option.isSome_iff_ne_none.mp hr)).2
      obtain ⟨o',ho',hm'⟩ := findIn_ok h.second hs1 key
      cases o' with
      | some v => exact .second v ho hr ho' ((hm' v).mp rfl)
      | none =>
        refine .neither ho hr ho' fun v hv => ?_
        exact hv.elim (hno v) fun h1 => by simpa using (hm' v).mpr h1

lemma dictFind_ok (h : d.WellFormed hash) (key : κ) :
    ∃ o d', d.dictFind hash key = .ok (o,d') ∧ Kept hash d d' ∧ ∀ v, o = some v ↔ (key,v) ∈ d := by
  unfold dictFind
  split
  · rename_i h0
    exact ⟨none,d,rfl,.refl h,fun v => by simp [notMem_of_dictSize h h0]⟩
  rename_i h0
  obtain ⟨d',hd',hk⟩ := dictRehashStep_ok h
  have h' := hk.wellFormed
  have hs : d'.ht0.size ≠ 0 := h'.first_sized (by rw [hk.size]; exact h0)
  simp only [hd',bind,Except.bind,pure,Except.pure,← hk.mem]
  cases h'.lookup hs key with
  | first v hf hm => exact ⟨some v,d',by simp [hf],hk,h'.find_iff (.inl hm)⟩
  | second v hf hr hf' hm => exact ⟨some v,d',by simp [hf,hr,hf'],hk,h'.find_iff (.inr hm)⟩
  | neither hf hr hf' hm => exact ⟨none,d',by simp [hf,hr,hf'],hk,fun v => by simp [hm]⟩
  | absent hf hr hm => exact ⟨none,d',by simp [hf,hr],hk,fun v => by simp [hm]⟩

lemma dictGenericDelete_ok (h : d.WellFormed hash) (key : κ) :
    ∃ o d', d.dictGenericDelete hash key = .ok (o,d') ∧ d'.WellFormed hash ∧
      (∀ v, o = some v ↔ (key,v) ∈ d) ∧ ∀ e, e ∈ d' ↔ e ∈ d ∧ e.1 ≠ key := by
  unfold dictGenericDelete
  split
  · rename_i h0
    have hno : ∀ e, e ∉ d := fun e => notMem_of_dictSize h (by simp [dictSize,h0])
    exact ⟨none,d,rfl,h,fun v => by simp [hno],fun e => by simp [hno]⟩
  rename_i h0
  obtain ⟨d',hd',hk⟩ := dictRehashStep_ok h
  have h' := hk.wellFormed
  have hs : d'.ht0.size ≠ 0 := h'.first_sized (by rw [hk.size,dictSize]; omega)
  simp only [hd',bind,Except.bind,pure,Except.pure,← hk.mem]
  cases h'.lookup hs key with
  | first v hf hm =>
    obtain ⟨hw,hmem⟩ := edit_first h' hm (removeIn_placed h'.first hm) rfl (fun _ => False.elim)
      fun e => mem_removeIn h'.first
    exact ⟨some v,_,by simp only [hf],hw,h'.find_iff (.inl hm),by simpa using hmem⟩
  | second v hf hr hf' hm =>
    obtain ⟨hw,hmem⟩ := edit_second h' hm (removeIn_placed h'.second hm) rfl (fun _ => False.elim)
      fun e => mem_removeIn h'.second
    exact ⟨some v,_,by simp only [hf,hr,hf',if_true],hw,h'.find_iff (.inr hm),by simpa using hmem⟩
  | neither hf hr hf' hm =>
    refine ⟨none,d',by simp [hf,hr,hf'],h',fun v => by simp [hm],fun e => ?_⟩
    exact (and_iff_left_of_imp (ne_of_absent hm)).symm
  | absent hf hr hm =>
    refine ⟨none,d',by simp [hf,hr],h',fun v => by simp [hm],fun e => ?_⟩
    exact (and_iff_left_of_imp (ne_of_absent hm)).symm

def KeyIndex.Fits (hash : κ → BitVec 64) (d : HashDict κ α) (key : κ) : KeyIndex → Prop
  | .free idx => (∀ v, (key,v) ∉ d) ∧ d.ht0.size ≠ 0 ∧
      idx = if d.dictIsRehashing then d.ht1.index (hash key) else d.ht0.index (hash key)
  | .existing false => ∃ v, (key,v) ∈ d.ht0
  | .existing true => ∃ v, (key,v) ∈ d.ht1
  | .failed => False

section
variable (h : d.WellFormed hash)
include h

section
variable (hm : d.dictSize ≤ 2 ^ 59)
include hm

lemma dictKeyIndex_ok (key : κ) :
    ∃ r d', d.dictKeyIndex hash key = .ok (r,d') ∧ Kept hash d d' ∧ r.Fits hash d' key := by
  obtain ⟨d',hd',hk,hs⟩ := dictExpandIfNeeded_spec h hm
  have h' := hk.wellFormed
  simp only [dictKeyIndex,hd',bind,Except.bind,pure,Except.pure]
  cases h'.lookup hs key with
  | first v hf hm => exact ⟨.existing false,d',by simp only [hf],hk,v,hm⟩
  | second v hf hr hf' hm => exact ⟨.existing true,d',by simp only [hf,hr,hf',if_true],hk,v,hm⟩
  | neither hf hr hf' hm =>
    exact ⟨.free (d'.ht1.index (hash key)),d',by simp only [hf,hr,hf',if_true],hk,hm,hs,
      by rw [hr,if_pos rfl]⟩
  | absent hf hr hm =>
    exact ⟨.free (d'.ht0.index (hash key)),d',by simp [hf,hr],hk,hm,hs,by simp [hr]⟩

lemma dictAddRaw_ok (key : κ) (val : α) :
    ∃ r d', d.dictAddRaw hash key val = .ok (r,d') ∧ d'.WellFormed hash ∧
      (r = none ∧ (∀ v, (key,v) ∉ d) ∧ (∀ e, e ∈ d' ↔ e = (key,val) ∨ e ∈ d) ∧
          (d'.dictIsRehashing = true → (key,val) ∈ d'.ht1) ∨
        ∃ second, r = some (.existing second) ∧ (KeyIndex.existing second).Fits hash d' key ∧
          ∀ e, e ∈ d' ↔ e ∈ d) := by
  obtain ⟨d₁,hd₁,hk₁⟩ := dictRehashStep_ok h
  obtain ⟨r,d₂,hd₂,hk₂,hfits⟩ := dictKeyIndex_ok hk₁.wellFormed (hk₁.size ▸ hm) key
  have hk := hk₁.trans hk₂
  simp only [dictAddRaw,hd₁,hd₂,bind,Except.bind,pure,Except.pure]
  cases r with
  | failed => exact absurd hfits id
  | existing second => exact ⟨_,d₂,rfl,hk.wellFormed,.inr ⟨second,rfl,hfits,hk.mem⟩⟩
  | free idx =>
    obtain ⟨hno,hs,hidx⟩ := hfits
    have hno' : ∀ v, (key,v) ∉ d := fun v hv => hno v ((hk.mem _).mpr hv)
    cases hr : d₂.dictIsRehashing with
    | true =>
      rw [hr,if_pos rfl] at hidx
      subst hidx
      refine ⟨none,_,if_pos hr,push_second hk.wellFormed hr hno val,
        .inl ⟨rfl,hno',fun e => ?_,fun _ => mem_push.mpr (.inl rfl)⟩⟩
      rw [mem_iff,mem_push,← hk.mem,mem_iff,or_left_comm]
    | false =>
      simp only [hr,Bool.false_eq_true,if_false] at hidx
      subst hidx
      refine ⟨none,_,if_neg (by simp [hr]),
        push_first hk.wellFormed hr hs hno val,.inl ⟨rfl,hno',fun e => ?_,fun hr' => ?_⟩⟩
      · rw [mem_iff,mem_push,← hk.mem,mem_iff,or_assoc]
      · exact absurd (hr.symm.trans hr') (by simp)

lemma dictAdd_ok (key : κ) (val : α) :
    ∃ b d', d.dictAdd hash key val = .ok (b,d') ∧ d'.WellFormed hash ∧
      (b = true ∧ (∀ v, (key,v) ∉ d) ∧ (∀ e, e ∈ d' ↔ e = (key,val) ∨ e ∈ d) ∨
        b = false ∧ (∃ v, (key,v) ∈ d) ∧ ∀ e, e ∈ d' ↔ e ∈ d) := by
  obtain ⟨r,d',hd',hw,hr⟩ := dictAddRaw_ok h hm key val
  refine ⟨r.isNone,d',by simp [dictAdd,hd',bind,Except.bind,pure,Except.pure],hw,?_⟩
  rcases hr with ⟨rfl,hno,hmem,_⟩ | ⟨second,rfl,hfits,hmem⟩
  · exact .inl ⟨rfl,hno,hmem⟩
  refine .inr ⟨rfl,?_,hmem⟩
  cases second with
  | false => exact hfits.imp fun v hv => (hmem _).mp (.inl hv)
  | true => exact hfits.imp fun v hv => (hmem _).mp (.inr hv)

lemma dictReplace_ok (key : κ) (val : α) :
    ∃ b d', d.dictReplace hash key val = .ok (b,d') ∧ d'.WellFormed hash ∧
      (b = true ↔ ∀ v, (key,v) ∉ d) ∧ ∀ e, e ∈ d' ↔ e = (key,val) ∨ e ∈ d ∧ e.1 ≠ key := by
  obtain ⟨r,d',hd',hw,hr⟩ := dictAddRaw_ok h hm key val
  simp only [dictReplace,hd',bind,Except.bind,pure,Except.pure]
  rcases hr with ⟨rfl,hno,hmem,_⟩ | ⟨second,rfl,hfits,hmem⟩
  · refine ⟨true,d',rfl,hw,iff_of_true rfl hno,fun e => ?_⟩
    rw [hmem,and_iff_left_of_imp (ne_of_absent hno)]
  cases second with
  | false =>
    obtain ⟨old,hold⟩ := hfits
    obtain ⟨hw',hmem'⟩ := edit_first hw hold (setValIn_placed hw.first hold) rfl
      (fun _ => congrArg Prod.fst) fun e => mem_setValIn hw.first hold val
    refine ⟨false,_,rfl,hw',?_,fun e => by rw [hmem',hmem]⟩
    exact iff_of_false (by simp) fun hno => hno old ((hmem _).mp (.inl hold))
  | true =>
    obtain ⟨old,hold⟩ := hfits
    obtain ⟨hw',hmem'⟩ := edit_second hw hold (setValIn_placed hw.second hold) rfl
      (fun _ => congrArg Prod.fst) fun e => mem_setValIn hw.second hold val
    refine ⟨false,_,rfl,hw',?_,fun e => by rw [hmem',hmem]⟩
    exact iff_of_false (by simp) fun hno => hno old ((hmem _).mp (.inr hold))

end

end

end Operations
end HashDict

structure MapRun (κ α : Type) where
  map : Dict κ α
  results : List (DictRes α)

def mapOp {κ α : Type} [DecidableEq κ] : DictOp κ α → MapRun κ α → MapRun κ α
  | .add key val, x =>
    if key ∈ x.map then { x with results := x.results ++ [.flag false] }
    else ⟨x.map.insert key val,x.results ++ [.flag true]⟩
  | .replace key val, x => ⟨x.map.insert key val,x.results ++ [.flag (key ∉ x.map)]⟩
  | .find key, x => { x with results := x.results ++ [.val (x.map.lookup key)] }
  | .delete key, x => ⟨x.map.erase key,x.results ++ [.val (x.map.lookup key)]⟩
  | _, x => x

namespace DictRun
variable {κ α : Type} [DecidableEq κ] (hash : κ → BitVec 64)

/-- No table becomes so large that the number of its bytes is not below `2 ^ 64`. -/
def inMemory (s : DictRun κ α) : DictOp κ α → Bool
  | .expand size => size ≤ 2 ^ 60
  | .add _ _ | .replace _ _ => s.dict.dictSize ≤ 2 ^ 59
  | _ => true

structure Refines (s : DictRun κ α) (x : MapRun κ α) : Prop where
  wellFormed : s.dict.WellFormed hash
  results : s.results = x.results
  mem : ∀ key val, (key,val) ∈ s.dict ↔ x.map.lookup key = some val

variable {hash} {s : DictRun κ α} {x : MapRun κ α}

section
variable (h : Refines hash s x)
include h

lemma Refines.absent_iff (key : κ) : (∀ v, (key,v) ∉ s.dict) ↔ key ∉ x.map := by
  rw [Dict.mem_iff_lookup,not_exists]
  exact forall_congr' fun v => not_congr (h.mem key v)

lemma Refines.val_eq {key : κ} {o : Option α}
    (ho : ∀ v, o = some v ↔ (key,v) ∈ s.dict) : o = x.map.lookup key :=
  Option.ext fun v => (ho v).trans (h.mem key v)

lemma Refines.kept {d : HashDict κ α}
    (hk : Kept hash s.dict d) : Refines hash { s with dict := d } x :=
  ⟨hk.wellFormed,h.results,fun key val => (hk.mem _).trans (h.mem key val)⟩

lemma Refines.add (hm : s.dict.dictSize ≤ 2 ^ 59) (key : κ) (val : α) :
    ∃ t, s.withFlag (s.dict.dictAdd hash key val) = .ok t ∧
      Refines hash t (mapOp (.add key val) x) := by
  obtain ⟨b,d,hd,hw,hb⟩ := dictAdd_ok h.wellFormed hm key val
  refine ⟨⟨d,s.results ++ [.flag b]⟩,by rw [hd]; rfl,?_⟩
  rcases hb with ⟨rfl,hno,hmem⟩ | ⟨rfl,⟨v,hv⟩,hmem⟩
  · rw [mapOp,if_neg ((h.absent_iff key).mp hno)]
    refine ⟨hw,by rw [h.results],fun k v => ?_⟩
    rw [hmem,Dict.lookup_insert_ite,Prod.mk.injEq,h.mem]
    split
    · rename_i hk
      subst hk
      have hnone := mt (h.mem k v).mpr (hno v)
      simp [hnone,eq_comm]
    · simp [*]
  have hin : key ∈ x.map := (Dict.mem_iff_lookup _ _).mpr ⟨v,(h.mem key v).mp hv⟩
  rw [mapOp,if_pos hin]
  exact ⟨hw,by rw [h.results],fun k v => (hmem _).trans (h.mem k v)⟩

lemma Refines.replace (hm : s.dict.dictSize ≤ 2 ^ 59) (key : κ)
    (val : α) : ∃ t, s.withFlag (s.dict.dictReplace hash key val) = .ok t ∧
      Refines hash t (mapOp (.replace key val) x) := by
  obtain ⟨b,d,hd,hw,hb,hmem⟩ := dictReplace_ok h.wellFormed hm key val
  have hb' : b = decide (key ∉ x.map) := by
    rw [Bool.eq_iff_iff,hb,h.absent_iff,decide_eq_true_iff]
  refine ⟨⟨d,s.results ++ [.flag b]⟩,by rw [hd]; rfl,hw,by rw [h.results,hb']; rfl,fun k v => ?_⟩
  rw [hmem,mapOp,Dict.lookup_insert_ite,Prod.mk.injEq,h.mem]
  split
  · simp [*,eq_comm]
  · simp [*]

lemma Refines.find (key : κ) :
    ∃ t, s.withVal (s.dict.dictFind hash key) = .ok t ∧ Refines hash t (mapOp (.find key) x) := by
  obtain ⟨o,d,hd,hk,ho⟩ := dictFind_ok h.wellFormed key
  refine ⟨⟨d,s.results ++ [.val o]⟩,by rw [hd]; rfl,hk.wellFormed,?_,(h.kept hk).mem⟩
  rw [h.results,h.val_eq ho]
  rfl

lemma Refines.delete (key : κ) : ∃ t, s.withVal (s.dict.dictGenericDelete hash key) = .ok t ∧
      Refines hash t (mapOp (.delete key) x) := by
  obtain ⟨o,d,hd,hw,ho,hmem⟩ := dictGenericDelete_ok h.wellFormed key
  refine ⟨⟨d,s.results ++ [.val o]⟩,by rw [hd]; rfl,hw,by rw [h.results,h.val_eq ho]; rfl,
    fun k v => ?_⟩
  rw [hmem,mapOp,Dict.lookup_erase_ite,h.mem]
  split
  · simp [*]
  · simp [*]

lemma Refines.rehash (n : Nat) :
    ∃ t, (do let r ← s.dict.dictRehash hash n; return { s with dict := r.2 }) =
      (.ok t : Except DictFault (DictRun κ α)) ∧ Refines hash t x := by
  obtain ⟨more,d,hd,hk⟩ := dictRehash_ok h.wellFormed n
  exact ⟨{ s with dict := d },by rw [hd]; rfl,h.kept hk⟩

end

/-- No operation fails, and each does what it does on a finite map. -/
theorem step_refines {op : DictOp κ α} {r : Except DictFault (DictRun κ α)}
    (h : Refines hash s x) (hg : s.inMemory op = true) (hs : s.step hash op = some r) :
    ∃ t, r = .ok t ∧ Refines hash t (mapOp op x) := by
  cases op with
  | add key val =>
    cases hs
    exact h.add (of_decide_eq_true hg) key val
  | replace key val =>
    cases hs
    exact h.replace (of_decide_eq_true hg) key val
  | find key =>
    cases hs
    exact h.find key
  | delete key =>
    cases hs
    exact h.delete key
  | expand size =>
    cases hs
    exact ⟨_,rfl,h.kept (dictExpand_spec h.wellFormed (of_decide_eq_true hg)).1⟩
  | rehash n =>
    cases hs
    exact h.rehash n
  | iterate | canResize flag =>
    cases hs
    exact ⟨_,rfl,h.kept (.flags h.wellFormed _ _)⟩
  | release =>
    rw [step] at hs
    split at hs
    · cases hs
    cases hs
    exact ⟨_,rfl,h.kept (.flags h.wellFormed _ _)⟩

lemma init_refines : Refines hash (hashDict α hash).init ⟨∅,[]⟩ where
  wellFormed := .setIdle .reset 0 true
  results := rfl
  mem := by
    intro key val
    have hno : (key,val) ∉ (hashDict α hash).init.dict :=
      fun h => h.elim notMem_new notMem_new
    simp [hno]

/-- In memory, no operation fails: the table is a finite map, and while entries move new ones
go to the second table. -/
theorem refines_finite_map (hash : κ → BitVec 64) (ops : List (DictOp κ α))
    (r : Except DictFault (DictRun κ α))
    (hg : (hashDict α hash).Guarded (fun s op => s.inMemory op = true) (hashDict α hash).init ops)
    (h : (hashDict α hash).run ops = some r) :
    ∃ s, r = .ok s ∧ Refines hash s (Machine.follow mapOp ops ⟨∅,[]⟩) ∧
      ∀ key val d, s.inMemory (.add key val) = true →
        s.dict.dictAddRaw hash key val = .ok (none,d) → d.dictIsRehashing = true →
          (key,val) ∈ d.ht1 := by
  obtain ⟨s,rfl,hs⟩ := (hashDict α hash).guarded_simulates mapOp
    (fun s op r x hR hc hst => step_refines hR hc hst) ops init_refines hg h
  refine ⟨s,rfl,hs,fun key val d hm hd hr => ?_⟩
  obtain ⟨o,d',hd',_,hadd⟩ := dictAddRaw_ok hs.wellFormed (of_decide_eq_true hm) key val
  cases hd.symm.trans hd'
  rcases hadd with ⟨_,_,_,hin⟩ | ⟨second,hc,_⟩
  · exact hin hr
  · cases hc

def Sample.tableOps : List (DictOp Nat Nat) :=
  [.add 0 10,.add 1 11,.add 2 12,.add 7 17,.add 3 13,.iterate,.add 8 18,.release,.find 7,
    .replace 1 21,.delete 2,.rehash 1,.expand 64,.find 1]

/-- The fifth key makes the table grow. It is in use while its entries move. -/
theorem refines_finite_map_growing :
    ∃ s, (hashDict Nat (BitVec.ofNat 64)).run Sample.tableOps = some (.ok s) ∧
      s.results.drop 6 = [.val (some 17),.flag false,.val (some 12),.val (some 21)] ∧
        Refines (BitVec.ofNat 64) s (Machine.follow mapOp Sample.tableOps ⟨∅,[]⟩) := by
  refine Machine.exists_run_and _ (by decide) fun s hs _ => ?_
  obtain ⟨t,ht,hR,_⟩ := refines_finite_map (BitVec.ofNat 64) Sample.tableOps (.ok s)
    (Machine.guarded_check _ _ _ _ (by decide)) hs
  cases ht
  exact hR

/-- The bytes of a table of `2 ^ 61` buckets are `2 ^ 64`, which is zero: there is no bucket
for the key. -/
theorem expand_allocates_nothing :
    ((hashDict Nat (BitVec.ofNat 64)).run [.expand (2 ^ 61),.add 0 10]).map
        (Except.map DictRun.results) = some (.error .outOfBounds) ∧
      (Machine.follow mapOp [.expand (2 ^ 61),.add 0 10] (⟨∅,[]⟩ : MapRun Nat Nat)).results =
        [.flag true] := by
  constructor
  · rfl
  · rfl

end DictRun
end RedRock
