import Mathlib

/-!
The best of a stream: a sorted list of at most `N` elements to which others are offered one after
the other, and which keeps those with the highest scores.
-/

namespace RedRock.Lib
open List

section
variable {α β : Type} [LinearOrder β] (score : α → β)

def ByScore (a b : α) : Prop := score a ≤ score b

instance : DecidableRel (ByScore score) := fun a b => inferInstanceAs (Decidable (score a ≤ score b))
instance : Std.Total (ByScore score) := ⟨fun a b => le_total (score a) (score b)⟩
instance : IsTrans α (ByScore score) := ⟨fun _ _ _ => le_trans⟩

/-- The new element goes before the first one that is not worse. When there are too many, the first
one goes. -/
def offer (N : Nat) (l : List α) (x : α) : List α :=
  (l.orderedInsert (ByScore score) x).drop (l.length + 1 - N)

/-- `top` is sorted and has the `N` best of `all`, or all of them. -/
structure IsTop (N : Nat) (all top : List α) : Prop where
  sorted : top.Pairwise (ByScore score)
  best : ∃ rest, (rest ++ top).Perm all ∧ ∀ x ∈ rest, ∀ y ∈ top, score x ≤ score y
  length : top.length = min N all.length

variable {score} {N : Nat} {all top l : List α} {x : α}

lemma IsTop.self (hs : l.Pairwise (ByScore score)) (hl : l.length ≤ N) : IsTop score N l l := by
  refine ⟨hs,⟨[],List.Perm.refl _,fun _ h => absurd h not_mem_nil⟩,?_⟩
  omega

lemma IsTop.le_tail {rest t : List α} {y z : α} (hs : top.Pairwise (ByScore score))
    (hle : ∀ x ∈ rest, ∀ y ∈ top, score x ≤ score y)
    (ht : top.orderedInsert (ByScore score) x = y :: t) (hz : z ∈ t) :
    score y ≤ score z ∧ ∀ w ∈ rest, score w ≤ score z := by
  have hsorted := hs.orderedInsert x top
  rw [ht] at hsorted
  have hyz : score y ≤ score z := rel_of_pairwise_cons hsorted hz
  refine ⟨hyz,fun w hw => ?_⟩
  cases top with
  | nil =>
    cases ht
    cases hz
  | cons a top =>
    rw [orderedInsert_cons] at ht
    split at ht
    · cases ht
      exact hle w hw z hz
    cases ht
    exact (hle w hw y mem_cons_self).trans hyz

section
variable (h : IsTop score N all top)
include h

lemma IsTop.perm {all' : List α} (hp : all.Perm all') : IsTop score N all' top := by
  obtain ⟨rest,hr,hle⟩ := h.best
  refine ⟨h.sorted,⟨rest,hr.trans hp,hle⟩,?_⟩
  rw [← hp.length_eq]
  exact h.length

lemma IsTop.offer (x : α) : IsTop score N (x :: all) (offer score N top x) := by
  obtain ⟨rest,hr,hle⟩ := h.best
  have hlen := h.length
  have hrest : rest.length + top.length = all.length := by
    rw [← length_append,hr.length_eq]
  have hperm := perm_orderedInsert (ByScore score) x top
  have hsorted := h.sorted.orderedInsert x top
  have hall : (rest ++ x :: top).Perm (x :: all) := perm_middle.trans (hr.cons x)
  unfold Lib.offer
  by_cases hfull : top.length < N
  · -- there was room, so nothing has been left out before
    have hnil : rest = [] := length_eq_zero_iff.mp (by omega)
    subst hnil
    rw [show top.length + 1 - N = 0 by omega,drop_zero]
    refine ⟨hsorted,⟨[],hperm.trans hall,fun _ hm => absurd hm not_mem_nil⟩,?_⟩
    rw [orderedInsert_length,length_cons]
    omega
  rw [show top.length + 1 - N = 1 by omega]
  cases ht : top.orderedInsert (ByScore score) x with
  | nil =>
    rw [ht] at hperm
    exact absurd hperm.length_eq (by simp)
  | cons y t =>
    rw [ht] at hperm hsorted
    refine ⟨hsorted.of_cons,⟨y :: rest,?_,fun w hw z hz => ?_⟩,?_⟩
    · exact (perm_middle.symm.trans (hperm.append_left rest)).trans hall
    · obtain ⟨hy,hw'⟩ := IsTop.le_tail h.sorted hle ht hz
      rcases mem_cons.mp hw with rfl | hw
      · exact hy
      · exact hw' w hw
    have hl := hperm.length_eq
    simp only [length_cons,drop_succ_cons,drop_zero] at hl ⊢
    omega

/-- After any number of offers the list has the best of what it had and of what was offered. -/
theorem IsTop.offers (xs : List α) :
    IsTop score N (all ++ xs) (xs.foldl (Lib.offer score N) top) := by
  induction xs generalizing all top with
  | nil =>
    rw [List.append_nil]
    exact h
  | cons x xs ih => exact (ih (h.offer x)).perm perm_middle.symm

lemma IsTop.scores : IsTop id N (all.map score) (top.map score) := by
  obtain ⟨rest,hr,hle⟩ := h.best
  refine ⟨pairwise_map.mpr h.sorted,⟨rest.map score,?_,fun a ha b hb => ?_⟩,?_⟩
  · rw [← map_append]
    exact hr.map score
  · obtain ⟨x,hx,rfl⟩ := mem_map.mp ha
    obtain ⟨y,hy,rfl⟩ := mem_map.mp hb
    exact hle x hx y hy
  rw [length_map,length_map]
  exact h.length

end

lemma offers_mem {y : α} {xs : List α} (h : y ∈ xs.foldl (Lib.offer score N) l) :
    y ∈ l ∨ y ∈ xs := by
  induction xs generalizing l with
  | nil => exact .inl h
  | cons x xs ih =>
    rcases ih h with h | h
    · have hm := mem_of_mem_drop h
      rw [mem_orderedInsert] at hm
      rcases hm with rfl | hm
      · exact .inr mem_cons_self
      · exact .inl hm
    · exact .inr (mem_cons_of_mem x h)

variable (score) in
/-- How many elements at the front have a lower score. -/
def below (b : β) : List α → Nat
  | [] => 0
  | a :: l => if score a < b then below b l + 1 else 0

lemma below_le (b : β) (l : List α) : below score b l ≤ l.length := by
  induction l with
  | nil => exact le_refl 0
  | cons a l ih =>
    rw [below]
    split
    · exact Nat.succ_le_succ ih
    · exact Nat.zero_le _

lemma orderedInsert_eq_below (l : List α) (x : α) : l.orderedInsert (ByScore score) x =
      l.take (below score (score x) l) ++ x :: l.drop (below score (score x) l) := by
  induction l with
  | nil => rfl
  | cons a l ih =>
    rw [orderedInsert_cons,below]
    by_cases h : score a < score x
    · have hn : ¬ ByScore score x a := not_le.mpr h
      rw [if_neg hn,if_pos h,ih]
      rfl
    have hp : ByScore score x a := not_lt.mp h
    rw [if_pos hp,if_neg h]
    rfl

lemma offer_of_room (h : l.length < N) (x : α) : offer score N l x =
    l.take (below score (score x) l) ++ x :: l.drop (below score (score x) l) := by
  rw [offer,show l.length + 1 - N = 0 by omega,drop_zero,orderedInsert_eq_below]

lemma offer_of_worse (h : l.length = N) (hb : below score (score x) l = 0) :
    offer score N l x = l := by
  rw [offer,show l.length + 1 - N = 1 by omega,orderedInsert_eq_below,hb]
  rfl

lemma offer_of_full {a : α} {j : Nat} (h : l.length + 1 = N)
    (hb : below score (score x) (a :: l) = j + 1) :
    offer score N (a :: l) x = l.take j ++ x :: l.drop j := by
  rw [offer,show (a :: l).length + 1 - N = 1 by
    rw [length_cons]
    omega,orderedInsert_eq_below,hb]
  rfl

end
end RedRock.Lib
