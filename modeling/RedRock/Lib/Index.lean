import RedRock.Lib.Dict

namespace RedRock.Lib
open Finset Dict
variable {κ α : Type} [DecidableEq κ]

/-- A set of keys kept beside a map: each of them is in the map, with a value
that satisfies `P`. -/
def Indexes (P : α → Prop) (idx : Finset κ) (d : Dict κ α) : Prop :=
  ∀ k ∈ idx, ∃ v ∈ d.lookup k, P v

instance (P : α → Prop) [DecidablePred P] (idx : Finset κ) (d : Dict κ α) :
    Decidable (Indexes P idx d) :=
  inferInstanceAs (Decidable (∀ k ∈ idx, ∃ v ∈ d.lookup k, P v))

namespace Indexes
variable {P : α → Prop} {idx idx' : Finset κ} {d : Dict κ α} {k : κ} {v : α}

lemma empty (P : α → Prop) (d : Dict κ α) : Indexes P ∅ d := by
  intro k hk
  simp at hk

section
variable (h : Indexes P idx d)
include h

lemma mono (hs : idx' ⊆ idx) : Indexes P idx' d := fun k hk => h k (hs hk)

lemma mem (hk : k ∈ idx) : k ∈ d := by
  obtain ⟨v,hv,_⟩ := h k hk
  rw [mem_iff_lookup]
  exact ⟨v,hv⟩

lemma notMem (hl : d.lookup k = some v) (hv : ¬ P v) : k ∉ idx := by
  intro hk
  obtain ⟨w,hw,hp⟩ := h k hk
  rw [hl,Option.mem_some_iff] at hw
  exact hv (hw ▸ hp)

lemma insert_dict (hv : k ∈ idx → P v) : Indexes P idx (d.insert k v) := by
  intro k' hk'
  rw [lookup_insert_ite]
  by_cases hkk : k' = k
  · rw [if_pos hkk]
    exact ⟨v,rfl,hv (hkk ▸ hk')⟩
  rw [if_neg hkk]
  exact h k' hk'

lemma erase_dict (hk : k ∉ idx) : Indexes P idx (d.erase k) := by
  intro k' hk'
  have hkk : k' ≠ k := by
    rintro rfl
    exact hk hk'
  rw [lookup_erase_ite,if_neg hkk]
  exact h k' hk'

end

lemma insert_key (h : Indexes P (idx.erase k) d) (hl : d.lookup k = some v) (hv : P v) :
    Indexes P (insert k idx) d := by
  intro k' hk'
  by_cases hkk : k' = k
  · subst hkk
    exact ⟨v,hl,hv⟩
  have hk : k' ∈ idx := (mem_insert.mp hk').resolve_left hkk
  exact h k' (mem_erase.mpr ⟨hkk,hk⟩)

end Indexes

def Covers (P : α → Prop) (idx : Finset κ) (d : Dict κ α) : Prop :=
  ∀ k ∈ d.keys, ∀ v ∈ d.lookup k, P v → k ∈ idx

instance (P : α → Prop) [DecidablePred P] (idx : Finset κ) (d : Dict κ α) :
    Decidable (Covers P idx d) :=
  inferInstanceAs (Decidable (∀ k ∈ d.keys, ∀ v ∈ d.lookup k, P v → k ∈ idx))

namespace Covers
variable {P : α → Prop} {idx idx' : Finset κ} {d : Dict κ α} {k : κ} {v : α}

lemma iff_lookup : Covers P idx d ↔ ∀ k v, d.lookup k = some v → P v → k ∈ idx := by
  constructor
  · intro h k v hl hv
    exact h k ((mem_iff_lookup d k).mpr ⟨v,hl⟩) v hl hv
  intro h k _ v hl hv
  exact h k v hl hv

lemma mem (h : Covers P idx d) (hl : d.lookup k = some v) (hv : P v) : k ∈ idx :=
  iff_lookup.mp h k v hl hv

lemma empty (P : α → Prop) (idx : Finset κ) : Covers P idx (∅ : Dict κ α) := by
  rw [iff_lookup]
  intro k v hl
  cases hl

lemma mono (h : Covers P idx d) (hs : idx ⊆ idx') : Covers P idx' d :=
  fun k hk v hl hv => hs (h k hk v hl hv)

lemma insert_dict (h : Covers P idx d) (hv : P v → k ∈ idx) : Covers P idx (d.insert k v) := by
  rw [iff_lookup] at h ⊢
  intro k' w hl hw
  rw [lookup_insert_ite] at hl
  split at hl
  · rename_i hk
    cases hl
    exact hk ▸ hv hw
  · exact h k' w hl hw

lemma erase (h : Covers P idx d) (k : κ) : Covers P (idx.erase k) (d.erase k) := by
  rw [iff_lookup] at h ⊢
  intro k' w hl hw
  rw [lookup_erase_ite] at hl
  split at hl
  · cases hl
  rename_i hk
  exact mem_erase.mpr ⟨hk,h k' w hl hw⟩

lemma erase_key (h : Covers P (insert k idx) d) (hl : d.lookup k = some v) (hv : ¬ P v) :
    Covers P (idx.erase k) d := by
  rw [iff_lookup] at h ⊢
  intro k' w hl' hw
  have hk : k' ≠ k := by
    rintro rfl
    rw [hl] at hl'
    cases hl'
    exact hv hw
  exact mem_erase.mpr ⟨hk,(mem_insert.mp (h k' w hl' hw)).resolve_left hk⟩

end Covers
end RedRock.Lib
