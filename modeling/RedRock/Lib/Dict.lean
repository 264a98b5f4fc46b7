import Mathlib

namespace RedRock.Lib
open List Function AList

/-- Finite maps with one value type, as association lists without repeated keys. -/
abbrev Dict (κ α : Type) : Type := AList (fun _ : κ => α)

namespace Dict
variable {κ α β : Type} [DecidableEq κ]
variable {d : Dict κ α} {k : κ}

lemma lookup_insert_ite (d : Dict κ α) (k k' : κ) (v : α) :
    (d.insert k v).lookup k' = if k' = k then some v else d.lookup k' := by
  split
  · subst k'
    exact lookup_insert d
  rename_i h
  exact lookup_insert_ne h

lemma lookup_erase_ite (d : Dict κ α) (k k' : κ) :
    (d.erase k).lookup k' = if k' = k then none else d.lookup k' := by
  split
  · subst k'
    exact lookup_erase k d
  rename_i h
  exact lookup_erase_ne h

lemma mem_iff_lookup (d : Dict κ α) (k : κ) : k ∈ d ↔ ∃ v, d.lookup k = some v := by
  rw [← lookup_isSome,Option.isSome_iff_exists]

omit [DecidableEq κ] in
lemma eq_empty_iff (d : Dict κ α) : d = ∅ ↔ d.entries = [] := by
  constructor
  · intro h
    rw [h]
    rfl
  intro h
  exact ext h

omit [DecidableEq κ] in
lemma eq_empty_of_forall_notMem (d : Dict κ α) (h : ∀ k, k ∉ d) : d = ∅ := by
  rw [eq_empty_iff]
  cases he : d.entries with
  | nil => rfl
  | cons e rest =>
    have hm : e.1 ∈ d := by
      rw [AList.mem_keys,AList.keys,he]
      simp [List.keys]
    exact absurd hm (h e.1)

lemma keys_insert_of_notMem {v : α} (h : k ∉ d) : (d.insert k v).keys = k :: d.keys := by
  rw [keys_insert,erase_of_not_mem h]

lemma keys_insert_of_mem {v : α} (h : k ∈ d) : (d.insert k v).keys.Perm d.keys := by
  rw [keys_insert]
  exact (perm_cons_erase h).symm

lemma keys_erase_perm (h : k ∈ d) : d.keys.Perm (k :: (d.erase k).keys) := by
  rw [keys_erase]
  exact perm_cons_erase h

def mapVal (f : α → β) (d : Dict κ α) : Dict κ β where
  entries := d.entries.map fun e => ⟨e.1,f e.2⟩
  nodupKeys := by
    have h := d.nodupKeys
    unfold List.NodupKeys List.keys at *
    simpa [map_map,comp_def] using h

lemma lookup_mapVal (f : α → β) (d : Dict κ α) (k : κ) :
    (mapVal f d).lookup k = (d.lookup k).map f := by
  obtain ⟨l,hl⟩ := d
  simp only [AList.lookup,mapVal]
  clear hl
  induction l with
  | nil => rfl
  | cons e l ih =>
    obtain ⟨a,v⟩ := e
    by_cases h : k = a
    · subst h
      rw [map_cons,dlookup_cons_eq,dlookup_cons_eq]
      rfl
    rw [map_cons,dlookup_cons_ne _ _ (by exact h),ih,dlookup_cons_ne _ _ (by exact h)]

@[simp] lemma mem_mapVal (f : α → β) (d : Dict κ α) (k : κ) : k ∈ mapVal f d ↔ k ∈ d := by
  rw [mem_iff_lookup,mem_iff_lookup,lookup_mapVal]
  cases d.lookup k <;> simp

def weight (f : α → Nat) (d : Dict κ α) : Nat := (d.entries.map fun e => f e.2).sum

omit [DecidableEq κ] in
@[simp] lemma weight_empty (f : α → Nat) : weight f (∅ : Dict κ α) = 0 := rfl

omit [DecidableEq κ] in
lemma weight_mapVal (f : β → Nat) (g : α → β) (d : Dict κ α) :
    weight f (mapVal g d) = weight (fun v => f (g v)) d := by
  simp [weight,mapVal,map_map,comp_def]

lemma weight_erase (f : α → Nat) (d : Dict κ α) (k : κ) :
    weight f (d.erase k) + (d.lookup k).elim 0 f = weight f d := by
  obtain ⟨l,hl⟩ := d
  simp only [weight,AList.erase,AList.lookup]
  clear hl
  induction l with
  | nil => rfl
  | cons e l ih =>
    obtain ⟨a,v⟩ := e
    by_cases h : k = a
    · subst h
      rw [dlookup_cons_eq,kerase_cons_eq (by rfl)]
      simp [add_comm]
    rw [kerase_cons_ne (by exact h),dlookup_cons_ne _ _ (by exact h)]
    simp only [map_cons,sum_cons]
    omega

lemma weight_insert (f : α → Nat) (d : Dict κ α) (k : κ) (v : α) :
    weight f (d.insert k v) + (d.lookup k).elim 0 f = weight f d + f v := by
  have he := weight_erase f d k
  have hi : weight f (d.insert k v) = f v + weight f (d.erase k) := by
    simp [weight,entries_insert,erase]
  omega

end Dict
end RedRock.Lib
