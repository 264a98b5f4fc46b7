import Mathlib

namespace RedRock.Lib
open List Option

instance linearOrderUInt8 : LinearOrder UInt8 where
  le_refl := UInt8.le_refl
  le_trans _ _ _ := UInt8.le_trans
  le_antisymm _ _ := UInt8.le_antisymm
  le_total := UInt8.le_total
  lt_iff_le_not_ge a b := by
    rw [UInt8.lt_iff_toNat_lt,UInt8.le_iff_toNat_le,UInt8.le_iff_toNat_le]
    omega
  toDecidableLE := inferInstance

/-- A radix tree, as the map in key order that it stands for. -/
@[ext] structure Rax (κ α : Type) [LinearOrder κ] where
  entries : List (κ × α)
  sorted : entries.Pairwise fun a b => a.1 < b.1

namespace Rax
variable {κ α : Type} [LinearOrder κ]
variable {r : Rax κ α} {v : α} {es : List (κ × α)} {k k' : κ}

instance : EmptyCollection (Rax κ α) := ⟨⟨[],.nil⟩⟩

def insertEntry (k : κ) (v : α) : List (κ × α) → List (κ × α)
  | [] => [(k,v)]
  | e :: es =>
    if k < e.1 then (k,v) :: e :: es
    else if k = e.1 then (k,v) :: es
    else e :: insertEntry k v es

lemma mem_insertEntry {e : κ × α} (h : e ∈ insertEntry k v es) : e = (k,v) ∨ e ∈ es := by
  induction es with
  | nil => simpa [insertEntry] using h
  | cons a es ih =>
    rw [insertEntry] at h
    split at h
    · simpa using h
    split at h
    · rw [mem_cons] at h ⊢
      tauto
    rw [mem_cons] at h ⊢
    rcases h with h | h
    · exact .inr (.inl h)
    have := ih h
    tauto

lemma insertEntry_sorted (k : κ) (v : α) (h : es.Pairwise fun a b => a.1 < b.1) :
    (insertEntry k v es).Pairwise fun a b => a.1 < b.1 := by
  induction es with
  | nil => simp [insertEntry]
  | cons a es ih =>
    obtain ⟨ha,hes⟩ := pairwise_cons.mp h
    rw [insertEntry]
    split
    · rename_i hk
      refine .cons (fun b hb => ?_) h
      rcases mem_cons.mp hb with rfl | hb
      · exact hk
      · exact hk.trans (ha b hb)
    split
    · rename_i hk
      exact .cons (fun b hb => hk ▸ ha b hb) hes
    rename_i hlt hne
    refine .cons (fun b hb => ?_) (ih hes)
    rcases mem_insertEntry hb with rfl | hb
    · exact lt_of_le_of_ne (not_lt.mp hlt) (Ne.symm hne)
    · exact ha b hb

def insert (r : Rax κ α) (k : κ) (v : α) : Rax κ α :=
  ⟨insertEntry k v r.entries,insertEntry_sorted k v r.sorted⟩

def remove (r : Rax κ α) (k : κ) : Rax κ α :=
  ⟨r.entries.filter (·.1 ≠ k),r.sorted.filter _⟩

def find (r : Rax κ α) (k : κ) : Option α := (r.entries.find? (·.1 = k)).map Prod.snd

def seekGE (r : Rax κ α) (k : κ) : Option (κ × α) := r.entries.find? (k ≤ ·.1)

lemma find_some_iff : r.find k = some v ↔ (k,v) ∈ r.entries := by
  obtain ⟨es,h⟩ := r
  simp only [find]
  induction es with
  | nil => simp
  | cons a es ih =>
    obtain ⟨ha,hes⟩ := pairwise_cons.mp h
    rw [find?_cons]
    by_cases hk : a.1 = k
    · subst hk
      have hnot : (a.1,v) ∉ es := fun hm => lt_irrefl a.1 (ha (a.1,v) hm)
      simp only [decide_true,mem_cons,hnot,or_false,map_some,some.injEq]
      constructor
      · rintro rfl
        rfl
      intro he
      rw [← he]
    have hne : (k,v) ≠ a := fun he => hk (by rw [← he])
    simp only [hk,decide_false,mem_cons,hne,false_or]
    exact ih hes

@[simp] lemma find_empty (k : κ) : (∅ : Rax κ α).find k = none := rfl

lemma find_insert (r : Rax κ α) (k k' : κ) (v : α) :
    (r.insert k v).find k' = if k' = k then some v else r.find k' := by
  obtain ⟨es,h⟩ := r
  simp only [find,insert]
  clear h
  induction es with
  | nil => by_cases h : k = k' <;> simp [insertEntry,h,eq_comm]
  | cons a es ih =>
    rw [insertEntry]
    split
    · by_cases h : k = k' <;> simp [h,eq_comm]
    split
    · rename_i hk
      by_cases h : k = k'
      · simp [h]
      · simp [← hk,h,Ne.symm h]
    rename_i hk
    rw [find?_cons,find?_cons]
    by_cases h : a.1 = k'
    · subst h
      simp [Ne.symm hk]
    · simpa [h] using ih

lemma find_remove (r : Rax κ α) (k k' : κ) :
    (r.remove k).find k' = if k' = k then none else r.find k' := by
  apply Option.ext
  intro v
  rw [find_some_iff,remove]
  simp only [mem_filter,← find_some_iff]
  split
  · rename_i h
    simp [h]
  rename_i h
  simp [h]

lemma seekGE_some (h : r.seekGE k = some (k',v)) :
    r.find k' = some v ∧ k ≤ k' ∧ ∀ k₁ v₁, r.find k₁ = some v₁ → k ≤ k₁ → k' ≤ k₁ := by
  obtain ⟨es,hs⟩ := r
  simp only [find_some_iff]
  simp only [seekGE] at h
  induction es with
  | nil => cases h
  | cons a es ih =>
    obtain ⟨ha,hes⟩ := pairwise_cons.mp hs
    rw [find?_cons] at h
    by_cases hk : k ≤ a.1
    · simp only [hk,decide_true,some.injEq] at h
      subst h
      refine ⟨mem_cons_self,hk,fun k₁ v₁ hm _ => ?_⟩
      rcases mem_cons.mp hm with he | hm
      · cases he
        exact le_rfl
      · exact (ha _ hm).le
    simp only [hk,decide_false] at h
    obtain ⟨hm,hle,hmin⟩ := ih hes h
    refine ⟨mem_cons_of_mem _ hm,hle,fun k₁ v₁ hm₁ hk₁ => ?_⟩
    rcases mem_cons.mp hm₁ with he | hm₁
    · rw [← he] at hk
      exact absurd hk₁ hk
    · exact hmin k₁ v₁ hm₁ hk₁

lemma seekGE_isSome (hf : r.find k' = some v) (hk : k ≤ k') : (r.seekGE k).isSome = true := by
  rw [seekGE,find?_isSome]
  exact ⟨(k',v),find_some_iff.mp hf,by simpa using hk⟩

end Rax
end RedRock.Lib
