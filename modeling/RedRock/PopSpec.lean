import RedRock.Blocked

/-!
What blocking pops are for: lists, and a line of clients who wait for an element of one of
their keys. Whoever is served from a key is the first in the line who waits for it.
-/

namespace RedRock
open Lib List Option Function

structure Waiter (n : Nat) where
  client : ClientId
  keys : List (DbKey n)
  side : ListEnd
  deriving DecidableEq

structure PopSpec (n : Nat) where
  lists : DbKey n → List Sds
  waiters : List (Waiter n)

namespace PopSpec
variable {n : Nat} (σ : PopSpec n)

def order : List (ClientId × List (DbKey n)) := σ.waiters.map fun w => (w.client,w.keys)

def first (k : DbKey n) : Option (Waiter n) := σ.waiters.find? fun w => k ∈ w.keys

def waits (c : ClientId) : Bool := σ.waiters.any fun w => w.client = c

def take (k : DbKey n) (side : ListEnd) (x : Sds) : Option (PopSpec n) :=
  match side.pop (σ.lists k) with
  | none => none
  | some (y,rest) =>
    if y = x then some { σ with lists := update σ.lists k rest } else none

def step : PopEvent n → Option (Except Empty (PopSpec n))
  | .push k side vals =>
    some (.ok { σ with lists := update σ.lists k (vals.foldl side.push (σ.lists k)) })
  | .pop c k side x => if σ.waits c then none else (σ.take k side x).map .ok
  | .wait c ks side =>
    if σ.waits c || ks.isEmpty then none
    else some (.ok { σ with waiters := σ.waiters ++ [⟨c,ks,side⟩] })
  | .serve c k x =>
    match σ.first k with
    | none => none
    | some w =>
      if w.client = c then
        (σ.take k w.side x).map fun σ =>
          .ok { σ with waiters := σ.waiters.filter fun w => w.client ≠ c }
      else none

end PopSpec

def popSpec (n : Nat) : Machine (PopSpec n) (PopEvent n) Empty where
  init := ⟨fun _ => [],[]⟩
  step := PopSpec.step

namespace ListEnd

lemma push_coe (side : ListEnd) (xs : List Sds) (x : Sds) :
    (side.push xs x : Multiset Sds) = x ::ₘ (xs : Multiset Sds) := by
  cases side with
  | head => rfl
  | tail => exact Multiset.coe_eq_coe.mpr (perm_append_singleton x xs)

lemma pushAll_coe (side : ListEnd) (vals xs : List Sds) :
    ((vals.foldl side.push xs : List Sds) : Multiset Sds) =
      (vals : Multiset Sds) + (xs : Multiset Sds) := by
  induction vals generalizing xs with
  | nil => exact (zero_add _).symm
  | cons v vals ih =>
    rw [foldl_cons,ih,push_coe,← Multiset.cons_coe,Multiset.cons_add,Multiset.add_cons]

lemma pop_coe {side : ListEnd} {xs rest : List Sds} {x : Sds}
    (h : side.pop xs = some (x,rest)) : (xs : Multiset Sds) = x ::ₘ (rest : Multiset Sds) := by
  cases xs with
  | nil => cases side <;> cases h
  | cons y ys =>
    cases side with
    | head =>
      cases h
      rfl
    | tail =>
      simp only [pop,some.injEq,Prod.mk.injEq] at h
      obtain ⟨rfl,rfl⟩ := h
      refine Multiset.coe_eq_coe.mpr ?_
      have hsplit := dropLast_append_getLast (cons_ne_nil y ys)
      conv_lhs => rw [← hsplit]
      exact perm_append_singleton _ _

end ListEnd

namespace PopEvent
variable {n : Nat}
variable {es : List (PopEvent n)}

def pushed : PopEvent n → Option (DbKey n × List Sds)
  | .push k _ vals => some (k,vals)
  | _ => none

def delivered : PopEvent n → Option (DbKey n × Sds)
  | .pop _ k _ x | .serve _ k x => some (k,x)
  | _ => none

def isWait (c : ClientId) : PopEvent n → Bool
  | .wait c' _ _ => c' = c
  | _ => false

def isServe (c : ClientId) : PopEvent n → Bool
  | .serve c' _ _ => c' = c
  | _ => false

def pushedAt (k : DbKey n) (es : List (PopEvent n)) : Multiset Sds :=
  ((es.filterMap pushed).map fun p => if p.1 = k then (p.2 : Multiset Sds) else 0).sum

def deliveredAt (k : DbKey n) (es : List (PopEvent n)) : Multiset Sds :=
  ((es.filterMap delivered).map fun p => if p.1 = k then {p.2} else 0).sum

def allPushed (es : List (PopEvent n)) : Multiset Sds :=
  ((es.filterMap pushed).map fun p => (p.2 : Multiset Sds)).sum

def allDelivered (es : List (PopEvent n)) : Multiset Sds :=
  ((es.filterMap delivered).map fun p => ({p.2} : Multiset Sds)).sum

def pushedKeys (es : List (PopEvent n)) : Finset (DbKey n) :=
  ((es.filterMap pushed).map Prod.fst).toFinset

lemma pushedAt_singleton (k : DbKey n) (e : PopEvent n) : pushedAt k [e] = match e with
      | .push j _ vals => if j = k then (vals : Multiset Sds) else 0
      | _ => 0 := by
  cases e <;> simp [pushedAt,pushed,filterMap_cons]

lemma deliveredAt_singleton (k : DbKey n) (e : PopEvent n) : deliveredAt k [e] = match e with
      | .pop _ j _ x | .serve _ j x => if j = k then {x} else 0
      | _ => 0 := by
  cases e <;> simp [deliveredAt,delivered,filterMap_cons]

lemma pushedAt_append (k : DbKey n) (es es' : List (PopEvent n)) :
    pushedAt k (es ++ es') = pushedAt k es + pushedAt k es' := by
  simp [pushedAt]

lemma deliveredAt_append (k : DbKey n) (es es' : List (PopEvent n)) :
    deliveredAt k (es ++ es') = deliveredAt k es + deliveredAt k es' := by
  simp [deliveredAt]

lemma sum_by_key {κ β : Type} [DecidableEq κ] (K : Finset κ) (l : List (κ × β))
    (g : κ × β → Multiset Sds) (hK : ∀ p ∈ l, p.1 ∈ K) :
    ∑ k ∈ K, (l.map fun p => if p.1 = k then g p else 0).sum = (l.map g).sum := by
  induction l with
  | nil => simp
  | cons p l ih =>
    have hp : p.1 ∈ K := hK p mem_cons_self
    have hl := ih fun q hq => hK q (mem_cons_of_mem p hq)
    simp only [map_cons,sum_cons]
    rw [Finset.sum_add_distrib,hl,Finset.sum_ite_eq,if_pos hp]

lemma pushedAt_eq_zero {k : DbKey n} (h : k ∉ pushedKeys es) : pushedAt k es = 0 := by
  refine sum_eq_zero fun m hm => ?_
  obtain ⟨p,hp,rfl⟩ := List.mem_map.mp hm
  refine if_neg fun hk => h ?_
  rw [pushedKeys,List.mem_toFinset,List.mem_map]
  exact ⟨p,hp,hk⟩

lemma deliveredAt_ne_zero {p : DbKey n × Sds} (h : p ∈ es.filterMap delivered) :
    deliveredAt p.1 es ≠ 0 := by
  obtain ⟨l₁,l₂,hl⟩ := append_of_mem h
  rw [deliveredAt,hl]
  simp

end PopEvent

namespace PopSpec
variable {n : Nat} {σ τ : PopSpec n} {k : DbKey n}
open PopEvent
variable {es : List (PopEvent n)} {e : PopEvent n}

lemma take_some {side : ListEnd} {x : Sds} (h : σ.take k side x = some τ) :
    ∃ rest, side.pop (σ.lists k) = some (x,rest) ∧
      τ = { σ with lists := update σ.lists k rest } := by
  unfold take at h
  split at h
  · cases h
  rename_i y rest hpop
  rw [enabled_iff] at h
  obtain ⟨rfl,rfl⟩ := h
  exact ⟨rest,hpop,rfl⟩

lemma serve_some {c : ClientId} {x : Sds} (h : σ.step (.serve c k x) = some (.ok τ)) :
    ∃ w rest, σ.first k = some w ∧ w.client = c ∧ w.side.pop (σ.lists k) = some (x,rest) ∧
      τ = ⟨update σ.lists k rest,σ.waiters.filter fun w => w.client ≠ c⟩ := by
  simp only [step] at h
  split at h
  · cases h
  rename_i w hw
  rw [ite_none_right_eq_some] at h
  obtain ⟨hc,h⟩ := h
  obtain ⟨ρ,hρ,he⟩ := map_eq_some_iff.mp h
  obtain ⟨rest,hpop,rfl⟩ := take_some hρ
  cases he
  exact ⟨w,rest,hw,hc,hpop,rfl⟩

lemma update_coe (f : DbKey n → List Sds) (j k : DbKey n) (xs : List Sds) :
    (update f j xs k : Multiset Sds) = if k = j then (xs : Multiset Sds) else f k := by
  by_cases h : k = j
  · subst h
    simp
  · simp [h]

lemma step_balance (h : σ.step e = some (.ok τ)) (k : DbKey n) :
    pushedAt k [e] + (σ.lists k : Multiset Sds) = (τ.lists k : Multiset Sds) + deliveredAt k [e] := by
  have htake : ∀ (j : DbKey n) (side : ListEnd) (x : Sds) (rest : List Sds),
      side.pop (σ.lists j) = some (x,rest) →
      (σ.lists k : Multiset Sds) = (update σ.lists j rest k : Multiset Sds) +
        if j = k then {x} else 0 := by
    intro j side x rest hpop
    rw [update_coe]
    by_cases hk : k = j
    · subst hk
      rw [ListEnd.pop_coe hpop,if_pos rfl,if_pos rfl,add_comm,Multiset.singleton_add]
    · simp [hk,Ne.symm hk]
  rw [pushedAt_singleton,deliveredAt_singleton]
  cases e with
  | push j side vals =>
    cases h
    rw [update_coe]
    by_cases hk : k = j
    · subst hk
      rw [ListEnd.pushAll_coe]
      simp
    · simp [hk,Ne.symm hk]
  | pop c j side x =>
    rw [step,ite_none_left_eq_some] at h
    obtain ⟨ρ,hρ,he⟩ := map_eq_some_iff.mp h.2
    cases he
    obtain ⟨rest,hpop,rfl⟩ := take_some hρ
    rw [zero_add]
    exact htake j side x rest hpop
  | wait c ks side =>
    rw [step,ite_none_left_eq_some,some.injEq,Except.ok.injEq] at h
    obtain ⟨_,rfl⟩ := h
    rw [zero_add,add_zero]
  | serve c j x =>
    obtain ⟨w,rest,_,_,hpop,rfl⟩ := serve_some h
    rw [zero_add]
    exact htake j w.side x rest hpop

lemma runFrom_balance (es : List (PopEvent n)) (h : (popSpec n).runFrom σ es = some (.ok τ))
    (k : DbKey n) :
    pushedAt k es + (σ.lists k : Multiset Sds) = (τ.lists k : Multiset Sds) + deliveredAt k es := by
  induction es generalizing σ with
  | nil =>
    cases h
    simp [pushedAt,deliveredAt]
  | cons e es ih =>
    obtain ⟨ρ,hρ,hrest⟩ := (popSpec n).runFrom_cons_inv h
    have hone := step_balance hρ k
    have hmore := ih hrest
    rw [← singleton_append,pushedAt_append,deliveredAt_append]
    calc pushedAt k [e] + pushedAt k es + (σ.lists k : Multiset Sds)
        = pushedAt k es + (pushedAt k [e] + (σ.lists k : Multiset Sds)) := by
          rw [add_comm (pushedAt k [e]),add_assoc]
      _ = pushedAt k es + (ρ.lists k : Multiset Sds) + deliveredAt k [e] := by
          rw [hone,add_assoc]
      _ = (τ.lists k : Multiset Sds) + (deliveredAt k [e] + deliveredAt k es) := by
          rw [hmore,add_assoc,add_comm (deliveredAt k es)]

lemma balance (h : (popSpec n).run es = some (.ok σ)) (k : DbKey n) :
    pushedAt k es = (σ.lists k : Multiset Sds) + deliveredAt k es := by
  have hb := runFrom_balance es h k
  simpa [popSpec] using hb

lemma balance_all (h : (popSpec n).run es = some (.ok σ)) :
    allPushed es = ∑ k ∈ pushedKeys es, (σ.lists k : Multiset Sds) + allDelivered es ∧
      ∀ k ∉ pushedKeys es, σ.lists k = [] := by
  have hnone : ∀ k ∉ pushedKeys es, (σ.lists k : Multiset Sds) = 0 ∧ deliveredAt k es = 0 := by
    intro k hk
    have hb := balance h k
    rw [pushedAt_eq_zero hk] at hb
    exact add_eq_zero.mp hb.symm
  have hpush : ∑ k ∈ pushedKeys es, pushedAt k es = allPushed es := by
    refine sum_by_key (pushedKeys es) (es.filterMap pushed) _ fun p hp => ?_
    rw [pushedKeys,List.mem_toFinset]
    exact List.mem_map_of_mem hp
  have hdeliver : ∑ k ∈ pushedKeys es, deliveredAt k es = allDelivered es := by
    refine sum_by_key (pushedKeys es) (es.filterMap delivered) _ fun p hp => ?_
    by_contra hk
    exact deliveredAt_ne_zero hp (hnone p.1 hk).2
  constructor
  · rw [← hpush,← hdeliver,← Finset.sum_add_distrib]
    exact Finset.sum_congr rfl fun k _ => balance h k
  intro k hk
  exact (Multiset.coe_eq_zero _).mp (hnone k hk).1

lemma first_some {w : Waiter n} (h : σ.first k = some w) : w ∈ σ.waiters ∧ k ∈ w.keys := by
  have hk := find?_some h
  exact ⟨mem_of_find?_eq_some h,of_decide_eq_true hk⟩

lemma waits_concat (lists : DbKey n → List Sds) (ws : List (Waiter n)) (w : Waiter n)
    (c : ClientId) :
    PopSpec.waits ⟨lists,ws ++ [w]⟩ c = (PopSpec.waits ⟨lists,ws⟩ c || decide (w.client = c)) := by
  simp [waits]

lemma waits_filter (lists : DbKey n → List Sds) (ws : List (Waiter n)) (c c' : ClientId) :
    PopSpec.waits ⟨lists,ws.filter fun w => w.client ≠ c'⟩ c =
      (PopSpec.waits ⟨lists,ws⟩ c && decide (c ≠ c')) := by
  rw [waits,waits,List.any_filter]
  by_cases hc : c = c'
  · subst hc
    simp
  simp only [hc,ne_eq,not_false_eq_true,decide_true,Bool.and_true]
  refine congrArg (List.any ws) (funext fun w => ?_)
  by_cases hw : w.client = c
  · simp [hw,hc]
  · simp [hw]

lemma step_turns (h : σ.step e = some (.ok τ)) (c : ClientId) :
    (e.isWait c).toNat + (σ.waits c).toNat = (e.isServe c).toNat + (τ.waits c).toNat := by
  cases e with
  | push j side vals =>
    cases h
    rfl
  | pop c' j side x =>
    rw [step,ite_none_left_eq_some] at h
    obtain ⟨ρ,hρ,he⟩ := map_eq_some_iff.mp h.2
    cases he
    obtain ⟨rest,_,rfl⟩ := take_some hρ
    rfl
  | wait c' ks side =>
    rw [step,ite_none_left_eq_some,some.injEq,Except.ok.injEq] at h
    obtain ⟨hnot,rfl⟩ := h
    simp only [Bool.or_eq_true,not_or,Bool.not_eq_true] at hnot
    rw [waits_concat]
    by_cases hc : c' = c
    · subst hc
      simp [isWait,isServe,hnot.1]
    · simp [isWait,isServe,hc]
  | serve c' j x =>
    obtain ⟨w,rest,hfirst,hwc,_,rfl⟩ := serve_some h
    rw [waits_filter]
    by_cases hc : c' = c
    · subst hc
      have hwaits : σ.waits c' = true := by
        rw [waits,List.any_eq_true]
        exact ⟨w,(first_some hfirst).1,decide_eq_true hwc⟩
      simp [isWait,isServe,hwaits]
    have hlists : PopSpec.waits ⟨update σ.lists j rest,σ.waiters⟩ c = σ.waits c := rfl
    rw [hlists]
    simp [isWait,isServe,hc,Ne.symm hc]

lemma turns (h : (popSpec n).run es = some (.ok σ)) (c : ClientId) :
    es.countP (isWait c) = es.countP (isServe c) + (σ.waits c).toNat := by
  have hfrom : ∀ (es : List (PopEvent n)) (ρ : PopSpec n),(popSpec n).runFrom ρ es = some (.ok σ) →
      es.countP (isWait c) + (ρ.waits c).toNat = es.countP (isServe c) + (σ.waits c).toNat := by
    intro es
    induction es with
    | nil =>
      intro ρ hρ
      cases hρ
      rfl
    | cons e es ih =>
      intro ρ hρ
      obtain ⟨ρ',hstep,hrest⟩ := (popSpec n).runFrom_cons_inv hρ
      have hone := step_turns hstep c
      have hmore := ih ρ' hrest
      have hbool : ∀ b : Bool, (if b = true then 1 else 0) = b.toNat := by decide
      rw [countP_cons,countP_cons,hbool,hbool]
      omega
  exact hfrom es (popSpec n).init h

end PopSpec
end RedRock
