import RedRock.Lib.Dict

/-!
Queues over keys. A member can wait in the queues of several keys at once: it enters them
together and leaves them together.
-/

namespace RedRock.Lib
open List

/-- A queue in which nobody waits has no entry. -/
abbrev Queues (κ ι : Type) : Type := Dict κ (List ι)

namespace Queues
variable {κ ι : Type} [DecidableEq κ]

def queue (q : Queues κ ι) (k : κ) : List ι := (q.lookup k).getD []

def put (q : Queues κ ι) (k : κ) (l : List ι) : Queues κ ι :=
  if l = [] then q.erase k else q.insert k l

def enter (c : ι) (q : Queues κ ι) (k : κ) : Queues κ ι := put q k (queue q k ++ [c])

@[simp] lemma queue_empty (k : κ) : queue (∅ : Queues κ ι) k = [] := rfl

lemma mem_of_mem_queue {q : Queues κ ι} {c : ι} {k : κ} (h : c ∈ queue q k) : k ∈ q := by
  rw [Dict.mem_iff_lookup]
  cases hk : q.lookup k with
  | none => simp [queue,hk] at h
  | some l => exact ⟨l,rfl⟩

lemma queue_put (q : Queues κ ι) (k j : κ) (l : List ι) :
    queue (put q k l) j = if j = k then l else queue q j := by
  unfold put queue
  split
  · rename_i hl
    rw [Dict.lookup_erase_ite]
    split
    · rw [hl]
      rfl
    · rfl
  rw [Dict.lookup_insert_ite]
  split
  · rfl
  · rfl

/-- The queue of key `k` when the members have come in this order, each with its keys. -/
def queueOf (order : List (ι × List κ)) (k : κ) : List ι :=
  (order.filter fun x => k ∈ x.2).map Prod.fst

lemma queueOf_concat (order : List (ι × List κ)) (c : ι) (ks : List κ) (k : κ) :
    queueOf (order ++ [(c,ks)]) k = if k ∈ ks then queueOf order k ++ [c] else queueOf order k := by
  unfold queueOf
  by_cases hk : k ∈ ks
  · simp [hk]
  · simp [hk]

variable [DecidableEq ι]

/-- `none` when `c` is not in the queue. -/
def leave (c : ι) (q : Queues κ ι) (k : κ) : Option (Queues κ ι) :=
  if c ∈ queue q k then some (put q k ((queue q k).erase c)) else none

lemma leaveAll_ok {q : Queues κ ι} {c : ι} {ks : List κ} (hnd : ks.Nodup)
    (hin : ∀ k ∈ ks, c ∈ queue q k) :
    ∃ q', ks.foldlM (leave c) q = some q' ∧
      ∀ j, queue q' j = if j ∈ ks then (queue q j).erase c else queue q j := by
  induction ks generalizing q with
  | nil => exact ⟨q,rfl,fun j => by simp⟩
  | cons k ks ih =>
    obtain ⟨hk,hnd⟩ := nodup_cons.mp hnd
    have hfirst : leave c q k = some (put q k ((queue q k).erase c)) := if_pos (hin k mem_cons_self)
    have hrest : ∀ j ∈ ks, c ∈ queue (put q k ((queue q k).erase c)) j := by
      intro j hj
      have hne : j ≠ k := fun he => hk (he ▸ hj)
      rw [queue_put,if_neg hne]
      exact hin j (mem_cons_of_mem k hj)
    obtain ⟨q',hq',hqueue⟩ := ih hnd hrest
    refine ⟨q',?_,fun j => ?_⟩
    · rw [foldlM_cons,hfirst]
      exact hq'
    rw [hqueue,queue_put]
    by_cases hj : j = k
    · subst hj
      simp [hk]
    · simp [hj]

lemma queueOf_filter (order : List (ι × List κ)) (c : ι) (k : κ) :
    queueOf (order.filter fun x => x.1 ≠ c) k = (queueOf order k).filter (· ≠ c) := by
  unfold queueOf
  rw [filter_map,filter_filter,filter_filter]
  simp [Bool.and_comm]

end Queues
end RedRock.Lib
