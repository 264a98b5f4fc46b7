import Mathlib

/-!
Votes in numbered elections. A voter who votes at most once in each election leaves room for
one majority.
-/

namespace RedRock.Lib
open List

structure Ballot (μ ε ρ : Type) where
  voter : μ
  epoch : ε
  candidate : ρ
  deriving DecidableEq

section Ballots
variable {μ ε ρ : Type} [DecidableEq ε] [DecidableEq ρ] {bs : List (Ballot μ ε ρ)} {e : ε} {r r' : ρ}
variable {voters : Finset μ}

def tally (bs : List (Ballot μ ε ρ)) (e : ε) (r : ρ) : Nat :=
  bs.countP fun b => b.epoch = e ∧ b.candidate = r

/-- Nobody votes twice in one election. -/
def SingleVotes (bs : List (Ballot μ ε ρ)) : Prop := (bs.map fun b => (b.voter,b.epoch)).Nodup

lemma tally_concat (b : Ballot μ ε ρ) :
    tally (bs ++ [b]) e r = tally bs e r + if b.epoch = e ∧ b.candidate = r then 1 else 0 := by
  simp only [tally,countP_append,countP_cons,countP_nil,decide_eq_true_eq]
  omega

lemma tally_le_concat (b : Ballot μ ε ρ) : tally bs e r ≤ tally (bs ++ [b]) e r := by
  rw [tally_concat]
  omega

lemma exists_ballot_of_tally (h : 0 < tally bs e r) :
    ∃ b ∈ bs, b.epoch = e ∧ b.candidate = r := by
  obtain ⟨b,hb,hp⟩ := countP_pos_iff.mp h
  exact ⟨b,hb,of_decide_eq_true hp⟩

omit [DecidableEq ε] [DecidableEq ρ] in
lemma SingleVotes.concat (h : SingleVotes bs) {b : Ballot μ ε ρ}
    (hb : ∀ b' ∈ bs, b'.voter = b.voter → b'.epoch ≠ b.epoch) : SingleVotes (bs ++ [b]) := by
  rw [SingleVotes,map_append,nodup_append]
  refine ⟨h,nodup_singleton _,fun x hx y hy hxy => ?_⟩
  obtain ⟨b',hb',rfl⟩ := mem_map.mp hx
  rw [map_singleton,mem_singleton] at hy
  rw [hy] at hxy
  injection hxy with hv he
  exact hb b' hb' hv he

omit [DecidableEq ρ] in
lemma SingleVotes.votes_le (h : SingleVotes bs) (hv : ∀ b ∈ bs, b.voter ∈ voters) (e : ε) :
    bs.countP (fun b => b.epoch = e) ≤ voters.card := by
  have hsub : (bs.filter fun b => b.epoch = e).map (fun b => (b.voter,b.epoch)) =
      ((bs.filter fun b => b.epoch = e).map (·.voter)).map fun x => (x,e) := by
    rw [map_map]
    apply map_congr_left
    intro b hb
    have he : b.epoch = e := of_decide_eq_true (mem_filter.mp hb).2
    rw [Function.comp_apply,he]
  have hnd : ((bs.filter fun b => b.epoch = e).map (·.voter)).Nodup := by
    have hpairs := List.Nodup.sublist ((filter_sublist (p := fun b => decide (b.epoch = e))).map
        (fun b : Ballot μ ε ρ => (b.voter,b.epoch))) h
    rw [hsub] at hpairs
    exact List.Nodup.of_map _ hpairs
  calc bs.countP (fun b => b.epoch = e)
      = ((bs.filter fun b => b.epoch = e).map (·.voter)).length := by
        rw [length_map,countP_eq_length_filter]
    _ = Multiset.card (((bs.filter fun b => b.epoch = e).map (·.voter) : List μ) : Multiset μ) :=
        rfl
    _ ≤ voters.card := by
        apply Multiset.card_le_card
        rw [Multiset.le_iff_subset (Multiset.coe_nodup.mpr hnd)]
        intro x hx
        obtain ⟨b,hb,rfl⟩ := mem_map.mp (Multiset.mem_coe.mp hx)
        exact hv b (mem_filter.mp hb).1

lemma SingleVotes.tally_add_le (h : SingleVotes bs) (hv : ∀ b ∈ bs, b.voter ∈ voters)
    (hne : r ≠ r') (e : ε) : tally bs e r + tally bs e r' ≤ voters.card := by
  have hsplit : ∀ l : List (Ballot μ ε ρ),
      tally l e r + tally l e r' ≤ l.countP fun b => b.epoch = e := by
    intro l
    induction l with
    | nil => exact le_refl 0
    | cons b l ih =>
      simp only [tally,countP_cons,decide_eq_true_eq] at ih ⊢
      by_cases he : b.epoch = e
      · by_cases hr : b.candidate = r
        · simp only [he,hr,hne,and_true,and_false,if_true,if_false]
          omega
        simp only [he,hr,and_false,true_and,if_true,if_false]
        split <;> omega
      simp only [he,false_and,if_false]
      omega
  exact le_trans (hsplit bs) (h.votes_le hv e)

theorem SingleVotes.majority_unique (h : SingleVotes bs) (hv : ∀ b ∈ bs, b.voter ∈ voters)
    (hr : voters.card / 2 + 1 ≤ tally bs e r) (hr' : voters.card / 2 + 1 ≤ tally bs e r') :
    r = r' := by
  by_contra hne
  have := h.tally_add_le hv hne e
  omega

end Ballots
end RedRock.Lib
