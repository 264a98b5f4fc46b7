import RedRock.Blocked

/-! Which clients sleep, and for which of them there is an element. -/

namespace RedRock
open Lib List Function Queues
variable {xs : List Sds} {side : ListEnd}

namespace ListEnd

lemma pop_isSome (side : ListEnd) (h : xs ≠ []) : ∃ x rest, side.pop xs = some (x,rest) := by
  cases xs with
  | nil => exact absurd rfl h
  | cons x xs =>
    cases side with
    | head => exact ⟨x,xs,rfl⟩
    | tail => exact ⟨_,_,rfl⟩

lemma pop_eq_none (h : side.pop xs = none) : xs = [] := by
  by_contra hne
  obtain ⟨x,rest,hx⟩ := pop_isSome side hne
  cases h.symm.trans hx

lemma pop_length {xs rest : List Sds} {x : Sds} (h : side.pop xs = some (x,rest)) :
    xs.length = rest.length + 1 := by
  cases xs with
  | nil => cases side <;> cases h
  | cons y ys =>
    cases side with
    | head =>
      cases h
      rfl
    | tail =>
      cases h
      simp

lemma push_ne_nil (side : ListEnd) (xs : List Sds) (x : Sds) : side.push xs x ≠ [] := by
  cases side with
  | head => exact cons_ne_nil x xs
  | tail => simp [push]

lemma pushAll_ne_nil (side : ListEnd) {vals xs : List Sds} (h : vals ≠ [] ∨ xs ≠ []) :
    vals.foldl side.push xs ≠ [] := by
  induction vals generalizing xs with
  | nil => simpa using h
  | cons v vals ih => exact ih (.inr (push_ne_nil side xs v))

end ListEnd

namespace BlockServer
variable {n : Nat} {s t u : BlockServer n} {c : ClientId} {b : Bpop n} {k : DbKey n}
  {P : List (DbKey n)} {p : DbKey n → Prop}
variable {x : ClientId} {bt : BlockType} {front back : List ClientId} {v : Option BlockVal}

@[simp] lemma setVal_self (s : BlockServer n) (k : DbKey n) (v : Option BlockVal) :
    (s.setVal k v).dict k = v := update_self _ _ _

lemma setVal_of_ne {j : DbKey n} (s : BlockServer n) (v : Option BlockVal) (h : j ≠ k) :
    (s.setVal k v).dict j = s.dict j := update_of_ne h _ _

lemma of_setVal {j : DbKey n} {w : Option BlockVal} (h : (s.setVal k v).dict j = w) :
    j = k ∧ v = w ∨ j ≠ k ∧ s.dict j = w := by
  by_cases hjk : j = k
  · subst hjk
    exact .inl ⟨rfl,(setVal_self s j v).symm.trans h⟩
  · exact .inr ⟨hjk,(setVal_of_ne s v hjk).symm.trans h⟩

structure Queued (s : BlockServer n) : Prop where
  listed : ∀ c k, c ∈ Queues.queue s.blockingKeys k ↔ ∃ b, s.bpop c = some b ∧ k ∈ b.dbKeys
  nodup : ∀ k, (Queues.queue s.blockingKeys k).Nodup
  keys : ∀ c b, s.bpop c = some b → b.keys ≠ [] ∧ b.keys.Nodup
  count : ∃ L : List ClientId, L.Nodup ∧ L.length = s.blockedClients ∧
    ∀ c, c ∈ L ↔ (s.bpop c).isSome

lemma Queued.of_eq (h : Queued s) (hq : t.blockingKeys = s.blockingKeys) (hb : t.bpop = s.bpop)
    (hc : t.blockedClients = s.blockedClients) : Queued t :=
  ⟨by simpa [hq,hb] using h.listed,by simpa [hq] using h.nodup,by simpa [hb] using h.keys,
    by simpa [hb,hc] using h.count⟩

/-- A key in `p` that can serve a client is ready, or among the keys `P` left of the round. -/
structure Awake (P : List (DbKey n)) (p : DbKey n → Prop) (s : BlockServer n) : Prop where
  flagged : ∀ k, s.dbReadyKeys k = true → k ∈ P ++ s.readyKeys
  ready : ∀ c b k xs, p k → s.bpop c = some b → k ∈ b.dbKeys →
    s.dict k = some (.coll b.btype xs) → k ∈ P ++ s.readyKeys
  inMemory : ∀ c b k xs, s.bpop c = some b → k ∈ b.dbKeys → s.dict k ≠ some (.dumped b.btype xs)

def Filled (p : DbKey n → Prop) (s : BlockServer n) : Prop :=
  ∀ k t xs, p k → s.dict k = some (.coll t xs) ∨ s.dict k = some (.dumped t xs) → xs ≠ []

structure WakeInv (P : List (DbKey n)) (p : DbKey n → Prop) (s : BlockServer n) : Prop where
  queued : Queued s
  awake : Awake P p s
  filled : Filled p s

def Waits (s : BlockServer n) (t : BlockType) (k : DbKey n) : Prop :=
  ∃ c b, s.bpop c = some b ∧ b.btype = t ∧ k ∈ b.dbKeys

section
variable (h : WakeInv P p s)
include h

lemma setVal_inv
    (hready : p k → ∀ t xs, v = some (.coll t xs) → s.Waits t k → k ∈ P ++ s.readyKeys)
    (hmemory : ∀ t xs, v = some (.dumped t xs) → ¬s.Waits t k)
    (hfilled : p k → ∀ t xs, v = some (.coll t xs) ∨ v = some (.dumped t xs) → xs ≠ []) :
    WakeInv P p (s.setVal k v) where
  queued := h.queued.of_eq rfl rfl rfl
  awake := by
    refine ⟨h.awake.flagged,?_,?_⟩
    · intro c b j xs hp hc hj hv
      rcases of_setVal hv with ⟨rfl,hv'⟩ | ⟨_,hv'⟩
      · exact hready hp b.btype xs hv' ⟨c,b,hc,rfl,hj⟩
      · exact h.awake.ready c b j xs hp hc hj hv'
    intro c b j xs hc hj hv
    rcases of_setVal hv with ⟨rfl,hv'⟩ | ⟨_,hv'⟩
    · exact hmemory b.btype xs hv' ⟨c,b,hc,rfl,hj⟩
    · exact h.awake.inMemory c b j xs hc hj hv'
  filled j t xs hp hv := by
    rcases of_setVal (w := (s.setVal k v).dict j) rfl with ⟨rfl,hj⟩ | ⟨_,hj⟩
    · exact hfilled hp t xs (hj ▸ hv)
    · exact h.filled j t xs hp (hj ▸ hv)

lemma setVal_plain (hcoll : ∀ t xs, v ≠ some (.coll t xs))
    (hdumped : ∀ t xs, v ≠ some (.dumped t xs)) : WakeInv P p (s.setVal k v) :=
  setVal_inv h (fun _ t xs hv => absurd hv (hcoll t xs)) (fun t xs hv => absurd hv (hdumped t xs))
    (fun _ t xs hv => (hv.elim (hcoll t xs) (hdumped t xs)).elim)

lemma dbDelete_inv : WakeInv P p (s.dbDelete k) := setVal_plain h (by simp) (by simp)

lemma modify_inv {t : BlockType} {xs ys : List Sds}
    (hk : s.dict k = some (.coll t xs)) (hys : p k → ys ≠ []) :
    WakeInv P p (s.setVal k (some (.coll t ys))) := by
  refine setVal_inv h ?_ (by simp) ?_
  · intro hp t' xs' hv
    cases hv
    rintro ⟨c,b,hc,rfl,hb⟩
    exact h.awake.ready c b k xs hp hc hb hk
  intro hp t' xs' hv
  rcases hv with hv | hv
  · cases hv
    exact hys hp
  · cases hv

lemma note_inv (e : PopEvent n) : WakeInv P p (s.note e) := ⟨h.queued.of_eq rfl rfl rfl,
    ⟨h.awake.flagged,h.awake.ready,h.awake.inMemory⟩,h.filled⟩

end

structure Signals (P : List (DbKey n)) (s t : BlockServer n) : Prop where
  eq : t = { s with readyKeys := t.readyKeys, dbReadyKeys := t.dbReadyKeys }
  grows : s.readyKeys ⊆ t.readyKeys
  flagged : (∀ k, s.dbReadyKeys k = true → k ∈ P ++ s.readyKeys) →
    ∀ k, t.dbReadyKeys k = true → k ∈ P ++ t.readyKeys

namespace Signals

lemma refl (s : BlockServer n) : Signals P s s := ⟨rfl,Subset.refl _,id⟩

lemma trans (h : Signals P s t) (h' : Signals P t u) : Signals P s u := by
  refine ⟨?_,Subset.trans h.grows h'.grows,fun hs => h'.flagged (h.flagged hs)⟩
  rw [h'.eq,h.eq]

lemma inv (h : Signals P s t) (hs : WakeInv P p s) : WakeInv P p t := by
  have hflagged := h.flagged hs.awake.flagged
  have hgrows : ∀ k, k ∈ P ++ s.readyKeys → k ∈ P ++ t.readyKeys := by
    intro k hk
    rcases mem_append.mp hk with hk | hk
    · exact mem_append_left _ hk
    · exact mem_append_right _ (h.grows hk)
  rw [h.eq]
  refine ⟨hs.queued.of_eq rfl rfl rfl,⟨hflagged,?_,hs.awake.inMemory⟩,hs.filled⟩
  intro c b k xs hp hc hk hv
  exact hgrows k (hs.awake.ready c b k xs hp hc hk hv)

end Signals

lemma signal_signals (s : BlockServer n) (k : DbKey n) : Signals P s (s.signalKeyAsReady k) := by
  unfold signalKeyAsReady
  split
  · exact .refl s
  split
  · exact .refl s
  refine ⟨rfl,subset_append_left _ _,?_⟩
  intro hs j hj
  by_cases hjk : j = k
  · subst hjk
    simp
  simp only [update_of_ne hjk] at hj
  have hmem := hs j hj
  simp only [mem_append] at hmem ⊢
  exact hmem.elim .inl fun h => .inr (.inl h)

lemma signal_ready (hs : ∀ k, s.dbReadyKeys k = true → k ∈ P ++ s.readyKeys)
    (hk : k ∈ s.blockingKeys) : k ∈ P ++ (s.signalKeyAsReady k).readyKeys := by
  unfold signalKeyAsReady
  rw [if_neg (not_not.mpr hk)]
  split
  · rename_i hflag
    exact hs k hflag
  · simp

lemma Waits.mem {t : BlockType} (h : s.Waits t k) (hs : Queued s) : k ∈ s.blockingKeys := by
  obtain ⟨c,b,hc,_,hk⟩ := h
  exact mem_of_mem_queue ((hs.listed c k).mpr ⟨b,hc,hk⟩)

lemma signal_setVal (s : BlockServer n) (k : DbKey n) (v : Option BlockVal) :
    (s.setVal k v).signalKeyAsReady k = (s.signalKeyAsReady k).setVal k v := by
  unfold signalKeyAsReady setVal
  dsimp only
  split
  · rfl
  split
  · rfl
  · rfl

lemma dbAdd_inv {v : BlockVal} (h : WakeInv P p s)
    (hmemory : ∀ t xs, v = .dumped t xs → ¬s.Waits t k)
    (hfilled : p k → ∀ t xs, v = .coll t xs ∨ v = .dumped t xs → xs ≠ []) :
    WakeInv P p (s.dbAdd k v) := by
  cases v with
  | coll t xs =>
    simp only [dbAdd,signal_setVal]
    have hsig := signal_signals (P := P) s k
    refine setVal_inv (hsig.inv h) ?_ (by simp) ?_
    · intro _ t' xs' _ hw
      have hbpop : (s.signalKeyAsReady k).bpop = s.bpop := by rw [hsig.eq]
      have hwaits : s.Waits t' k := by
        obtain ⟨c,b,hc,hrest⟩ := hw
        exact ⟨c,b,hbpop ▸ hc,hrest⟩
      exact signal_ready h.awake.flagged (hwaits.mem h.queued)
    intro hp t' xs' hv
    simp only [Option.some.injEq] at hv
    exact hfilled hp t' xs' hv
  | dumped t xs =>
    refine setVal_inv h (by simp) ?_ ?_
    · intro t' xs' hv
      cases hv
      exact hmemory t xs rfl
    intro hp t' xs' hv
    simp only [Option.some.injEq] at hv
    exact hfilled hp t' xs' hv
  | other => exact setVal_plain h (by simp) (by simp)

lemma WakeInv.mono {p' : DbKey n → Prop} (h : WakeInv P p s) (hp : ∀ k, p' k → p k) :
    WakeInv P p' s :=
  ⟨h.queued,⟨h.awake.flagged,fun c b k xs hk => h.awake.ready c b k xs (hp k hk),h.awake.inMemory⟩,
    fun k t xs hk => h.filled k t xs (hp k hk)⟩

lemma WakeInv.finish (h : WakeInv P (· ≠ k) s) (hcoll : ∀ t xs, s.dict k = some (.coll t xs) →
      xs ≠ [] ∧ (s.Waits t k → k ∈ P ++ s.readyKeys))
    (hdumped : ∀ t xs, s.dict k = some (.dumped t xs) → xs ≠ []) : WakeInv P (fun _ => True) s := by
  refine ⟨h.queued,⟨h.awake.flagged,?_,h.awake.inMemory⟩,?_⟩
  · intro c b j xs _ hc hj hv
    by_cases hjk : j = k
    · subst hjk
      exact (hcoll b.btype xs hv).2 ⟨c,b,hc,rfl,hj⟩
    · exact h.awake.ready c b j xs hjk hc hj hv
  intro j t xs _ hv
  by_cases hjk : j = k
  · subst hjk
    exact hv.elim (fun hv => (hcoll t xs hv).1) (hdumped t xs)
  · exact h.filled j t xs hjk hv

lemma WakeInv.deleteIfEmpty (h : WakeInv P (· ≠ k) s) (hk : s.dict k = some (.coll .list xs))
    (hw : xs ≠ [] → s.Waits .list k → k ∈ P ++ s.readyKeys) :
    WakeInv P (fun _ => True) (s.deleteIfEmpty k) := by
  unfold BlockServer.deleteIfEmpty
  split
  · exact (dbDelete_inv h).finish (by simp [dbDelete]) (by simp [dbDelete])
  rename_i hne
  have hnil : xs ≠ [] := fun hnil => hne .list (hnil ▸ hk)
  refine h.finish (fun bt ys hys => ?_) fun bt ys hys => ?_
  · cases hk.symm.trans hys
    exact ⟨hnil,hw hnil⟩
  · cases hk.symm.trans hys

/-! Clients are blocked and unblocked. -/

structure Unblocked (c : ClientId) (s t : BlockServer n) : Prop where
  was : (s.bpop c).isSome
  queue : ∀ k, Queues.queue t.blockingKeys k = (Queues.queue s.blockingKeys k).erase c
  count : t.blockedClients + 1 = s.blockedClients
  eq : t = { s with
    bpop := Function.update s.bpop c none
    blockingKeys := t.blockingKeys
    blockedClients := t.blockedClients }

lemma dbKeys_nodup (h : b.keys.Nodup) : b.dbKeys.Nodup := h.map fun _ _ he => (Prod.mk.inj he).2

lemma unblockClient_ok (hs : Queued s) (hc : s.bpop c = some b) :
    ∃ t, s.unblockClient c = .ok t ∧ Unblocked c s t := by
  obtain ⟨hkeys,hnd⟩ := hs.keys c b hc
  have hin : ∀ k ∈ b.dbKeys, c ∈ Queues.queue s.blockingKeys k := by
    intro k hk
    exact (hs.listed c k).mpr ⟨b,hc,hk⟩
  obtain ⟨q,hq,hqueue⟩ := leaveAll_ok (dbKeys_nodup hnd) hin
  obtain ⟨L,hL,hlen,hmem⟩ := hs.count
  have hpos : 0 < s.blockedClients := by
    rw [← hlen]
    exact length_pos_of_mem ((hmem c).mpr (by simp [hc]))
  refine ⟨_,by simp only [unblockClient,hc,if_neg hkeys,hq]; rfl,by simp [hc],?_,?_,rfl⟩
  · intro k
    rw [hqueue]
    split
    · rfl
    rename_i hk
    refine (erase_of_not_mem fun hin => ?_).symm
    obtain ⟨b',hb',hk'⟩ := (hs.listed c k).mp hin
    cases hc.symm.trans hb'
    exact hk hk'
  · dsimp only
    omega

namespace Unblocked

section
variable (h : Unblocked c s t)
include h

lemma dict : t.dict = s.dict := by rw [h.eq]

lemma bpop_of_ne (hx : x ≠ c) : t.bpop x = s.bpop x := by
  rw [h.eq]
  exact update_of_ne hx _ _

lemma of_bpop (hx : t.bpop x = some b) : x ≠ c ∧ s.bpop x = some b := by
  rw [h.eq] at hx
  by_cases hxc : x = c
  · subst hxc
    simp at hx
  · exact ⟨hxc,by simpa [hxc] using hx⟩

lemma queued (hs : Queued s) : Queued t where
  listed x k := by
    rw [h.queue,(hs.nodup k).mem_erase_iff,hs.listed]
    constructor
    · rintro ⟨hx,b,hb,hk⟩
      exact ⟨b,(h.bpop_of_ne hx).trans hb,hk⟩
    rintro ⟨b,hb,hk⟩
    obtain ⟨hx,hb⟩ := h.of_bpop hb
    exact ⟨hx,b,hb,hk⟩
  nodup k := by
    rw [h.queue]
    exact (hs.nodup k).erase c
  keys x b hb := hs.keys x b (h.of_bpop hb).2
  count := by
    obtain ⟨L,hL,hlen,hmem⟩ := hs.count
    have hc : c ∈ L := (hmem c).mpr h.was
    refine ⟨L.erase c,hL.erase c,?_,?_⟩
    · have := h.count
      rw [length_erase_of_mem hc]
      omega
    intro x
    rw [hL.mem_erase_iff,hmem]
    by_cases hx : x = c
    · subst hx
      rw [h.eq]
      simp
    rw [h.bpop_of_ne hx]
    simp [hx]

lemma inv (hs : WakeInv P p s) : WakeInv P p t := by
  refine ⟨h.queued hs.queued,⟨?_,?_,?_⟩,?_⟩
  · rw [h.eq]
    exact hs.awake.flagged
  · intro x b k xs hp hb hk hv
    rw [h.dict] at hv
    have hready := hs.awake.ready x b k xs hp (h.of_bpop hb).2 hk hv
    rw [h.eq]
    exact hready
  · intro x b k xs hb hk
    rw [h.dict]
    exact hs.awake.inMemory x b k xs (h.of_bpop hb).2 hk
  intro k t xs hp
  rw [h.dict]
  exact hs.filled k t xs hp

end

end Unblocked

lemma blockForKey_fold (d : Fin (n+1)) (keys : List Sds)
    (x : List Sds × Queues (DbKey n) ClientId) (hnd : x.1.Nodup) :
    (keys.foldl (blockForKey c d) x).1.Nodup ∧
    (∀ key, key ∈ (keys.foldl (blockForKey c d) x).1 ↔ key ∈ x.1 ∨ key ∈ keys) ∧
    ∀ k, Queues.queue (keys.foldl (blockForKey c d) x).2 k =
      if k.1 = d ∧ k.2 ∈ keys ∧ k.2 ∉ x.1 then Queues.queue x.2 k ++ [c]
      else Queues.queue x.2 k := by
  induction keys generalizing x with
  | nil => simp [hnd]
  | cons key keys ih =>
    rw [foldl_cons]
    by_cases hkey : key ∈ x.1
    · have hx : blockForKey c d x key = x := if_pos hkey
      obtain ⟨h₁,h₂,h₃⟩ := ih x hnd
      rw [hx]
      refine ⟨h₁,fun k => ?_,fun k => ?_⟩
      · rw [h₂,mem_cons]
        by_cases hk : k = key <;> simp [hk,hkey]
      rw [h₃]
      by_cases hk : k.2 = key <;> simp [hk,hkey]
    have hx : blockForKey c d x key = (x.1 ++ [key],enter c x.2 (d,key)) := if_neg hkey
    have hnd' : (x.1 ++ [key]).Nodup := nodup_append_comm.mp (nodup_cons.mpr ⟨hkey,hnd⟩)
    obtain ⟨h₁,h₂,h₃⟩ := ih (x.1 ++ [key],enter c x.2 (d,key)) hnd'
    rw [hx]
    refine ⟨h₁,fun k => ?_,fun k => ?_⟩
    · rw [h₂]
      simp [or_assoc]
    rw [h₃]
    simp only [enter,queue_put,mem_append,mem_cons]
    by_cases hk : k = (d,key)
    · subst hk
      simp [hkey]
    have hk' : ¬(k.1 = d ∧ k.2 = key) := fun h => hk (Prod.ext h.1 h.2)
    rw [if_neg hk]
    by_cases hd : k.1 = d
    · have hne : k.2 ≠ key := fun h => hk' ⟨hd,h⟩
      simp [hd,hne]
    · simp [hd]

structure Blocks (c : ClientId) (b : Bpop n) (s t : BlockServer n) : Prop where
  was : s.bpop c = none
  keys : b.keys ≠ [] ∧ b.keys.Nodup
  queue : ∀ k, Queues.queue t.blockingKeys k =
    if k ∈ b.dbKeys then Queues.queue s.blockingKeys k ++ [c] else Queues.queue s.blockingKeys k
  eq : t = { s with
    bpop := Function.update s.bpop c (some b)
    blockingKeys := t.blockingKeys
    blockedClients := s.blockedClients + 1
    log := s.log ++ [.wait c b.dbKeys b.side] }

lemma mem_dbKeys : k ∈ b.dbKeys ↔ k.1 = b.db ∧ k.2 ∈ b.keys := by
  simp only [Bpop.dbKeys,mem_map]
  constructor
  · rintro ⟨key,hkey,rfl⟩
    exact ⟨rfl,hkey⟩
  rintro ⟨hd,hk⟩
  exact ⟨k.2,hk,Prod.ext hd.symm rfl⟩

lemma blockForKeys_blocks {keys : List Sds} (d : Fin (n+1)) (bt : BlockType)
    (target : Option Sds) (side : ListEnd) (hc : s.bpop c = none) (hkeys : keys ≠ []) :
    ∃ b : Bpop n, b.db = d ∧ b.btype = bt ∧ b.target = target ∧ b.side = side ∧
      (∀ key, key ∈ b.keys ↔ key ∈ keys) ∧
      Blocks c b s (s.blockForKeys c d bt keys target side) := by
  obtain ⟨hnd,hmem,hqueue⟩ := blockForKey_fold d keys ([],s.blockingKeys) nodup_nil
  refine ⟨⟨d,bt,(keys.foldl (blockForKey c d) ([],s.blockingKeys)).1,target,side⟩,rfl,rfl,rfl,rfl,
    fun key => by simp [hmem],⟨hc,⟨?_,hnd⟩,fun k => ?_,rfl⟩⟩
  · obtain ⟨key,hkey⟩ := exists_mem_of_ne_nil keys hkeys
    exact ne_nil_of_mem ((hmem key).mpr (.inr hkey))
  · rw [blockForKeys]
    simp only [hqueue,mem_dbKeys,hmem,not_mem_nil,false_or,not_false_eq_true,and_true]

namespace Blocks

section
variable (h : Blocks c b s t)
include h

lemma of_bpop {b' : Bpop n} (hx : t.bpop x = some b') :
    x = c ∧ b' = b ∨ x ≠ c ∧ s.bpop x = some b' := by
  rw [h.eq] at hx
  by_cases hxc : x = c
  · subst hxc
    simp only [update_self,Option.some.injEq] at hx
    exact .inl ⟨rfl,hx.symm⟩
  · exact .inr ⟨hxc,by simpa [hxc] using hx⟩

lemma bpop_of_ne (hx : x ≠ c) : t.bpop x = s.bpop x := by
  rw [h.eq]
  exact update_of_ne hx _ _

lemma bpop_self : t.bpop c = some b := by
  rw [h.eq]
  exact update_self _ _ _

lemma notMem_queue (hs : Queued s) (k : DbKey n) : c ∉ Queues.queue s.blockingKeys k := by
  intro hin
  obtain ⟨b',hb',_⟩ := (hs.listed c k).mp hin
  cases h.was.symm.trans hb'

lemma queued (hs : Queued s) : Queued t where
  listed x k := by
    rw [h.queue]
    by_cases hx : x = c
    · subst hx
      by_cases hk : k ∈ b.dbKeys <;> simp [hk,h.bpop_self,h.notMem_queue hs]
    rw [h.bpop_of_ne hx,← hs.listed]
    by_cases hk : k ∈ b.dbKeys <;> simp [hk,hx]
  nodup k := by
    rw [h.queue]
    split
    · exact nodup_append_comm.mp (nodup_cons.mpr ⟨h.notMem_queue hs k,hs.nodup k⟩)
    · exact hs.nodup k
  keys x b' hb' := by
    rcases h.of_bpop hb' with ⟨_,rfl⟩ | ⟨_,hb'⟩
    · exact h.keys
    · exact hs.keys x b' hb'
  count := by
    obtain ⟨L,hL,hlen,hmem⟩ := hs.count
    have hc : c ∉ L := by simp [hmem,h.was]
    refine ⟨c :: L,nodup_cons.mpr ⟨hc,hL⟩,?_,fun x => ?_⟩
    · rw [h.eq,length_cons,hlen]
    by_cases hx : x = c
    · subst hx
      simp [h.bpop_self]
    · simp [hx,h.bpop_of_ne hx,hmem]

lemma inv (hs : WakeInv P p s) (hk : ∀ k ∈ b.dbKeys, s.dict k = none) : WakeInv P p t := by
  have hdict : t.dict = s.dict := by rw [h.eq]
  refine ⟨h.queued hs.queued,⟨?_,?_,?_⟩,?_⟩
  · rw [h.eq]
    exact hs.awake.flagged
  · intro x b' k xs hp hb' hk' hv
    rw [hdict] at hv
    rcases h.of_bpop hb' with ⟨_,rfl⟩ | ⟨_,hb'⟩
    · rw [hk k hk'] at hv
      cases hv
    have hready := hs.awake.ready x b' k xs hp hb' hk' hv
    rw [h.eq]
    exact hready
  · intro x b' k xs hb' hk' hv
    rw [hdict] at hv
    rcases h.of_bpop hb' with ⟨_,rfl⟩ | ⟨_,hb'⟩
    · rw [hk k hk'] at hv
      cases hv
    · exact hs.awake.inMemory x b' k xs hb' hk' hv
  · intro k t' xs hp
    rw [hdict]
    exact hs.filled k t' xs hp

end

end Blocks

lemma rotate_inv {cs : List ClientId} (hs : WakeInv P p s)
    (hq : Queues.queue s.blockingKeys k = c :: cs) : WakeInv P p (s.rotate k c cs) := by
  have hqueue : ∀ j, Queues.queue (s.rotate k c cs).blockingKeys j =
      if j = k then cs ++ [c] else Queues.queue s.blockingKeys j :=
    fun j => queue_put s.blockingKeys k j (cs ++ [c])
  have hperm : (cs ++ [c]).Perm (Queues.queue s.blockingKeys k) := by
    rw [hq]
    exact perm_append_singleton c cs
  refine ⟨⟨fun x j => ?_,fun j => ?_,hs.queued.keys,hs.queued.count⟩,
    ⟨hs.awake.flagged,hs.awake.ready,hs.awake.inMemory⟩,hs.filled⟩
  · rw [hqueue]
    split
    · rename_i hj
      rw [hperm.mem_iff,hj]
      exact hs.queued.listed x k
    · exact hs.queued.listed x j
  · rw [hqueue]
    split
    · exact hperm.nodup_iff.mpr (hs.queued.nodup k)
    · exact hs.queued.nodup j

/-! Serving the clients of a key that is ready. -/

structure Drains (s t : BlockServer n) : Prop where
  le : t.blockedClients ≤ s.blockedClients
  ready : t.readyKeys = s.readyKeys ∨ t.blockedClients < s.blockedClients

lemma Drains.trans (h : Drains s t) (h' : Drains t u) : Drains s u := by
  refine ⟨h'.le.trans h.le,?_⟩
  rcases h'.ready with hr | hlt
  · rcases h.ready with hr' | hlt
    · exact .inl (hr.trans hr')
    · exact .inr (h'.le.trans_lt hlt)
  · exact .inr (hlt.trans_le h.le)

lemma popVal_coll (side : ListEnd) (hk : s.dict k = some (.coll bt xs)) :
    s.popVal bt k side = (side.pop xs).map fun r => (r.1,s.setVal k (some (.coll bt r.2))) := by
  simp [popVal,hk]

structure Serving (k : DbKey n) (s t : BlockServer n) : Prop where
  bpop : t.bpop = s.bpop
  blockingKeys : t.blockingKeys = s.blockingKeys
  blockedClients : t.blockedClients = s.blockedClients
  grows : s.readyKeys ⊆ t.readyKeys
  list : (∃ xs, s.dict k = some (.coll .list xs)) → ∃ xs, t.dict k = some (.coll .list xs)

lemma Serving.trans (h : Serving k s t) (h' : Serving k t u) : Serving k s u :=
  ⟨h'.bpop.trans h.bpop,h'.blockingKeys.trans h.blockingKeys,
    h'.blockedClients.trans h.blockedClients,Subset.trans h.grows h'.grows,
    fun hk => h'.list (h.list hk)⟩

lemma listTypePush_inv (hs : WakeInv P p s) (j : DbKey n) (x : Sds) :
    WakeInv P p (s.listTypePush j side x) ∧ Serving k s (s.listTypePush j side x) := by
  unfold listTypePush
  split
  · rename_i xs hj
    refine ⟨modify_inv hs hj fun _ => side.push_ne_nil xs x,rfl,rfl,rfl,Subset.refl _,?_⟩
    rintro ⟨ys,hys⟩
    by_cases hjk : k = j
    · subst hjk
      exact ⟨_,setVal_self s k _⟩
    · exact ⟨ys,(setVal_of_ne s _ hjk).trans hys⟩
  · exact ⟨hs,rfl,rfl,rfl,Subset.refl _,id⟩

lemma rpoplpushHandlePush_inv (hs : WakeInv P p s) (dst : DbKey n) (x : Sds) :
    WakeInv P p (s.rpoplpushHandlePush dst x) ∧ Serving k s (s.rpoplpushHandlePush dst x) := by
  unfold rpoplpushHandlePush
  split
  · rename_i hdst
    refine ⟨dbAdd_inv hs (by simp) (by simp),?_⟩
    have hsig := signal_signals (P := P) (s.setVal dst (some (.coll .list [x]))) dst
    refine ⟨by rw [dbAdd,hsig.eq]; rfl,by rw [dbAdd,hsig.eq]; rfl,by rw [dbAdd,hsig.eq]; rfl,
      hsig.grows,?_⟩
    rintro ⟨ys,hys⟩
    have hne : k ≠ dst := by
      rintro rfl
      cases hdst.symm.trans hys
    refine ⟨ys,?_⟩
    rw [dbAdd,hsig.eq]
    exact (setVal_of_ne s _ hne).trans hys
  · exact listTypePush_inv hs dst x

lemma serveClientBlockedOnList_inv (hs : WakeInv P p s) (target : Option (DbKey n)) (x : Sds) :
    WakeInv P p (s.serveClientBlockedOnList c k target x).1 ∧
      Serving k s (s.serveClientBlockedOnList c k target x).1 := by
  unfold serveClientBlockedOnList
  split
  · exact ⟨note_inv hs _,rfl,rfl,rfl,Subset.refl _,id⟩
  rename_i dst
  have hpush := rpoplpushHandlePush_inv (k := k) hs dst x
  have hnote : WakeInv P p ((s.rpoplpushHandlePush dst x).note (.serve c k x)) ∧
      Serving k s ((s.rpoplpushHandlePush dst x).note (.serve c k x)) :=
    ⟨note_inv hpush.1 _,hpush.2.bpop,hpush.2.blockingKeys,hpush.2.blockedClients,
      hpush.2.grows,hpush.2.list⟩
  split
  · exact hnote
  · exact hnote
  · exact ⟨hs,rfl,rfl,rfl,Subset.refl _,id⟩

lemma queue_rotate :
    Queues.queue (s.rotate k c (front ++ back)).blockingKeys k = front ++ (back ++ [c]) := by
  rw [rotate,queue_put,if_pos rfl,append_assoc]

def Others (bt : BlockType) (back : List ClientId) (s : BlockServer n) : Prop :=
  ∀ x ∈ back, ∀ b, s.bpop x = some b → b.btype ≠ bt

lemma Others.concat (h : Others bt back s)
    (hc : (s.bpop c).filter (·.btype = bt) = none) : Others bt (back ++ [c]) s := by
  intro x hx b hxb
  rcases mem_append.mp hx with hx | hx
  · exact h x hx b hxb
  obtain rfl := mem_singleton.mp hx
  simpa [hxb,Option.filter] using hc

lemma Others.not_waits (hs : Queued s) (h : Others bt (Queues.queue s.blockingKeys k) s) :
    ¬s.Waits bt k := by
  rintro ⟨x,b,hx,hb,hk⟩
  exact h x ((hs.listed x k).mpr ⟨b,hx,hk⟩) b hx hb

lemma serveList_ok (m : Nat) (hs : WakeInv P (· ≠ k) s)
    (hk : ∃ xs, s.dict k = some (.coll .list xs))
    (hq : Queues.queue s.blockingKeys k = front ++ back) (hm : front.length = m)
    (hback : Others .list back s) :
    ∃ t, serveList k m s = .ok t ∧ WakeInv P (· ≠ k) t ∧ Drains s t ∧
      ∃ xs, t.dict k = some (.coll .list xs) ∧ (xs = [] ∨ ¬t.Waits .list k) := by
  induction m generalizing s front back with
  | zero =>
    obtain ⟨xs,hxs⟩ := hk
    obtain rfl := length_eq_zero_iff.mp hm
    rw [nil_append] at hq
    exact ⟨s,rfl,hs,⟨le_rfl,.inl rfl⟩,xs,hxs,.inr (Others.not_waits hs.queued (hq ▸ hback))⟩
  | succ m ih =>
    obtain ⟨c,front,rfl⟩ := exists_cons_of_length_eq_add_one hm
    simp only [length_cons,Nat.add_right_cancel_iff] at hm
    rw [cons_append] at hq
    rw [serveList]
    simp only [hq]
    cases hb : (s.bpop c).filter (·.btype = .list) with
    | none =>
      obtain ⟨t,ht,hi,hd,hend⟩ := ih (rotate_inv hs hq) hk (queue_rotate) hm
        (hback.concat hb)
      exact ⟨t,ht,hi,⟨hd.le,hd.ready⟩,hend⟩
    | some b =>
      obtain ⟨hc,hbt⟩ := Option.filter_eq_some_iff.mp hb
      obtain ⟨xs,hxs⟩ := hk
      simp only [popVal_coll b.side hxs]
      cases hpop : b.side.pop xs with
      | none => exact ⟨s,rfl,hs,⟨le_rfl,.inl rfl⟩,xs,hxs,.inl (ListEnd.pop_eq_none hpop)⟩
      | some r =>
        simp only [Option.map_some]
        have hs₁ : WakeInv P (· ≠ k) (s.setVal k (some (.coll .list r.2))) :=
          modify_inv hs hxs fun h => absurd rfl h
        obtain ⟨s₂,hu,hun⟩ := unblockClient_ok hs₁.queued hc
        have hk₂ : ∃ ys, s₂.dict k = some (.coll .list ys) := by
          rw [hun.dict]
          exact ⟨r.2,setVal_self s k _⟩
        have hq₂ : Queues.queue s₂.blockingKeys k = front ++ back := by
          have hsame : (s.setVal k (some (.coll .list r.2))).blockingKeys = s.blockingKeys := rfl
          rw [hun.queue,hsame,hq,erase_cons_head]
        have hcount : s₂.blockedClients + 1 = s.blockedClients := hun.count
        -- whatever was done for `c`, the loop goes on with the others
        have hrest : ∀ s₃, WakeInv P (· ≠ k) s₃ → Serving k s₂ s₃ →
            ∃ t, serveList k m s₃ = .ok t ∧ WakeInv P (· ≠ k) t ∧ Drains s t ∧
              ∃ xs, t.dict k = some (.coll .list xs) ∧ (xs = [] ∨ ¬t.Waits .list k) := by
          intro s₃ hs₃ hserv
          have hback₃ : Others .list back s₃ := by
            intro x hx b' hxb'
            rw [hserv.bpop] at hxb'
            exact hback x hx b' (hun.of_bpop hxb').2
          obtain ⟨t,ht,hi,hd,hend⟩ := ih hs₃ (hserv.list hk₂) (by rw [hserv.blockingKeys,hq₂]) hm
            hback₃
          have hle := hd.le
          have hsame := hserv.blockedClients
          exact ⟨t,ht,hi,⟨by omega,.inr (by omega)⟩,hend⟩
        obtain ⟨hs₃,hserv⟩ := serveClientBlockedOnList_inv (c := c) (k := k) (hun.inv hs₁)
          (b.target.map fun dst => (b.db,dst)) r.1
        rw [hu]
        simp only [bind,Except.bind]
        cases hr : s₂.serveClientBlockedOnList c k (b.target.map fun dst => (b.db,dst)) r.1 with
        | mk s₃ served =>
          rw [hr] at hs₃ hserv
          cases served with
          | true => exact hrest s₃ hs₃ hserv
          | false =>
            obtain ⟨hs₄,hserv₄⟩ := listTypePush_inv (k := k) hs₃ k r.1
            exact hrest _ hs₄ (hserv.trans hserv₄)

lemma deleteIfEmpty_setVal (s : BlockServer n) (k : DbKey n) (bt : BlockType) (xs : List Sds) :
    (s.setVal k (some (.coll bt xs))).deleteIfEmpty k =
      s.setVal k (if xs = [] then none else some (.coll bt xs)) := by
  unfold deleteIfEmpty
  rw [setVal_self]
  cases xs with
  | nil => simp [dbDelete,setVal]
  | cons x xs => simp

lemma serveClientsBlockedOnListKey_ok (hs : WakeInv P (· ≠ k) s)
    (hk : ∃ xs, s.dict k = some (.coll .list xs)) :
    ∃ t, s.serveClientsBlockedOnListKey k = .ok t ∧ WakeInv P (fun _ => True) t ∧ Drains s t := by
  have hback : Others .list [] s := by simp [Others]
  obtain ⟨t,ht,hi,hd,xs,hxs,hend⟩ := serveList_ok _ hs hk (append_nil _).symm rfl hback
  refine ⟨t.deleteIfEmpty k,?_,hi.deleteIfEmpty hxs fun hnil hw =>
    absurd hw (hend.resolve_left hnil),?_⟩
  · rw [serveClientsBlockedOnListKey,ht]
    rfl
  · unfold deleteIfEmpty
    split
    · exact ⟨hd.le,hd.ready⟩
    · exact hd

def Members (k : DbKey n) (z : Nat) (s : BlockServer n) : Prop :=
  (z = 0 → s.dict k = none) ∧ (z ≠ 0 → ∃ xs, s.dict k = some (.coll .zset xs) ∧ xs.length = z)

lemma genericZpopCommand_inv {z : Nat} (hs : WakeInv P (· ≠ k) s) (hk : Members k (z+1) s)
    :
    WakeInv P (· ≠ k) (s.genericZpopCommand c k side) ∧
      Members k z (s.genericZpopCommand c k side) ∧ (s.genericZpopCommand c k side).bpop = s.bpop ∧
      (s.genericZpopCommand c k side).blockingKeys = s.blockingKeys ∧
      (s.genericZpopCommand c k side).blockedClients = s.blockedClients := by
  obtain ⟨xs,hxs,hlen⟩ := hk.2 (Nat.succ_ne_zero z)
  have hne : xs ≠ [] := by
    rintro rfl
    cases hlen
  obtain ⟨x,rest,hpop⟩ := ListEnd.pop_isSome side hne
  have hrest : rest.length = z := by
    have := ListEnd.pop_length hpop
    omega
  have heq : s.genericZpopCommand c k side =
      (s.setVal k (if rest = [] then none else some (.coll .zset rest))).note (.serve c k x) := by
    rw [genericZpopCommand,popVal_coll side hxs,hpop]
    simp only [Option.map_some]
    rw [deleteIfEmpty_setVal]
  rw [heq]
  refine ⟨note_inv ?_ _,?_,rfl,rfl,rfl⟩
  · split
    · exact dbDelete_inv hs
    · exact modify_inv hs hxs fun h => absurd rfl h
  have hdict : ((s.setVal k (if rest = [] then none else some (.coll .zset rest))).note
      (.serve c k x)).dict k = if rest = [] then none else some (.coll .zset rest) :=
    setVal_self s k _
  constructor
  · intro hz
    rw [hdict,if_pos (length_eq_zero_iff.mp (hrest.trans hz))]
  intro hz
  have hnil : rest ≠ [] := fun h => hz (hrest ▸ h ▸ rfl)
  exact ⟨rest,hdict.trans (if_neg hnil),hrest⟩

lemma serveZset_ok (m z : Nat) (hs : WakeInv P (· ≠ k) s) (hk : Members k z s)
    (hq : Queues.queue s.blockingKeys k = front ++ back) (hm : front.length = m)
    (hback : Others .zset back s) :
    ∃ t, serveZset k m z s = .ok t ∧ WakeInv P (· ≠ k) t ∧ Drains s t ∧
      ∃ z, Members k z t ∧ (z = 0 ∨ ¬t.Waits .zset k) := by
  induction m generalizing s z front back with
  | zero =>
    obtain rfl := length_eq_zero_iff.mp hm
    rw [nil_append] at hq
    exact ⟨s,by rw [serveZset],hs,⟨le_rfl,.inl rfl⟩,z,hk,
      .inr (Others.not_waits hs.queued (hq ▸ hback))⟩
  | succ m ih =>
    cases z with
    | zero => exact ⟨s,rfl,hs,⟨le_rfl,.inl rfl⟩,0,hk,.inl rfl⟩
    | succ z =>
      obtain ⟨c,front,rfl⟩ := exists_cons_of_length_eq_add_one hm
      simp only [length_cons,Nat.add_right_cancel_iff] at hm
      rw [cons_append] at hq
      rw [serveZset]
      simp only [hq]
      cases hb : (s.bpop c).filter (·.btype = .zset) with
      | none =>
        obtain ⟨t,ht,hi,hd,hend⟩ := ih (z+1) (rotate_inv hs hq) hk
          (queue_rotate) hm (hback.concat hb)
        exact ⟨t,ht,hi,⟨hd.le,hd.ready⟩,hend⟩
      | some b =>
        obtain ⟨hc,hbt⟩ := Option.filter_eq_some_iff.mp hb
        obtain ⟨s₂,hu,hun⟩ := unblockClient_ok hs.queued hc
        have hbk : (b.db,k.2) = k := by
          obtain ⟨b',hb',hkb⟩ := (hs.queued.listed c k).mp (by rw [hq]; simp)
          cases hc.symm.trans hb'
          exact Prod.ext (mem_dbKeys.mp hkb).1.symm rfl
        have hk₂ : Members k (z+1) s₂ := by
          unfold Members
          rw [hun.dict]
          exact hk
        have hq₂ : Queues.queue s₂.blockingKeys k = front ++ back := by
          rw [hun.queue,hq,erase_cons_head]
        obtain ⟨hs₃,hk₃,hbpop,hkeys,hcount⟩ :=
          genericZpopCommand_inv (c := c) (hun.inv hs) hk₂
        simp only [hu,hbk,bind,Except.bind]
        have hback₃ : Others .zset back (s₂.genericZpopCommand c k b.side) := by
          intro x hx b' hxb'
          rw [hbpop] at hxb'
          exact hback x hx b' (hun.of_bpop hxb').2
        obtain ⟨t,ht,hi,hd,hend⟩ := ih z hs₃ hk₃ (by rw [hkeys,hq₂]) hm hback₃
        have hle := hd.le
        have hone := hun.count
        exact ⟨t,ht,hi,⟨by omega,.inr (by omega)⟩,hend⟩

lemma handleKey_ok (hs : WakeInv (k :: P) (fun _ => True) s) :
    ∃ t, s.handleKey k = .ok t ∧ WakeInv P (fun _ => True) t ∧ Drains s t := by
  let s₀ : BlockServer n := { s with dbReadyKeys := Function.update s.dbReadyKeys k false }
  -- the key is taken from the round before its clients are served
  have hs₀ : WakeInv P (· ≠ k) s₀ := by
    refine ⟨hs.queued.of_eq rfl rfl rfl,
      ⟨?_,?_,hs.awake.inMemory⟩,fun j t xs _ => hs.filled j t xs trivial⟩
    · intro j hj
      by_cases hjk : j = k
      · subst hjk
        simp [s₀] at hj
      simp only [s₀,update_of_ne hjk] at hj
      have hmem := hs.awake.flagged j hj
      simpa [hjk] using hmem
    · intro c b j xs hj hc hjb hv
      have hmem := hs.awake.ready c b j xs trivial hc hjb hv
      simpa [hj] using hmem
  have hfilled := hs.filled k
  unfold handleKey
  dsimp only
  split
  · rename_i xs hxs
    obtain ⟨t,ht,hi,hd⟩ := serveClientsBlockedOnListKey_ok hs₀ ⟨xs,hxs⟩
    exact ⟨t,ht,hi,⟨hd.le,hd.ready⟩⟩
  · rename_i xs hxs
    have hne : xs ≠ [] := hfilled .zset xs trivial (.inl hxs)
    have hk₀ : Members k xs.length s₀ :=
      ⟨fun h => absurd (length_eq_zero_iff.mp h) hne,fun _ => ⟨xs,hxs,rfl⟩⟩
    have hback : Others .zset [] s₀ := by simp [Others]
    obtain ⟨t,ht,hi,hd,z,hz,hend⟩ := serveZset_ok _ _ hs₀ hk₀ (append_nil _).symm rfl hback
    refine ⟨t,ht,hi.finish ?_ ?_,⟨hd.le,hd.ready⟩⟩
    · intro bt ys hys
      by_cases hz0 : z = 0
      · cases (hz.1 hz0).symm.trans hys
      obtain ⟨zs,hzs,hlen⟩ := hz.2 hz0
      cases hzs.symm.trans hys
      refine ⟨?_,fun hw => absurd hw (hend.resolve_left hz0)⟩
      rintro rfl
      exact hz0 hlen.symm
    intro bt ys hys
    by_cases hz0 : z = 0
    · cases (hz.1 hz0).symm.trans hys
    obtain ⟨zs,hzs,_⟩ := hz.2 hz0
    cases hzs.symm.trans hys
  rename_i hlist hzset
  refine ⟨s₀,rfl,hs₀.finish ?_ ?_,⟨le_rfl,.inl rfl⟩⟩
  · intro bt ys hys
    cases bt with
    | list => exact absurd hys (hlist ys)
    | zset => exact absurd hys (hzset ys)
  intro bt ys hys
  exact hfilled bt ys trivial (.inr hys)

lemma handleKeys_ok (ks : List (DbKey n)) (hs : WakeInv ks (fun _ => True) s) :
    ∃ t, ks.foldlM handleKey s = .ok t ∧ WakeInv [] (fun _ => True) t ∧ Drains s t := by
  induction ks generalizing s with
  | nil => exact ⟨s,rfl,hs,⟨le_rfl,.inl rfl⟩⟩
  | cons k ks ih =>
    obtain ⟨t,ht,hi,hd⟩ := handleKey_ok hs
    obtain ⟨u,hu,hi',hd'⟩ := ih hi
    refine ⟨u,?_,hi',hd.trans hd'⟩
    rw [foldlM_cons,ht]
    exact hu

lemma handleRounds_ok (m : Nat) (hs : WakeInv [] (fun _ => True) s) (hm : s.blockedClients < m) :
    ∃ t, handleRounds m s = .ok t ∧ WakeInv [] (fun _ => True) t ∧ t.readyKeys = [] := by
  induction m generalizing s with
  | zero => omega
  | succ m ih =>
    rw [handleRounds]
    split
    · rename_i hready
      exact ⟨s,rfl,hs,hready⟩
    have hround : WakeInv s.readyKeys (fun _ => True) { s with readyKeys := [] } := by
      refine ⟨hs.queued.of_eq rfl rfl rfl,⟨?_,?_,hs.awake.inMemory⟩,hs.filled⟩
      · intro k hk
        simpa using hs.awake.flagged k hk
      · intro c b k xs hp hc hk hv
        simpa using hs.awake.ready c b k xs hp hc hk hv
    obtain ⟨t,ht,hi,hd⟩ := handleKeys_ok s.readyKeys hround
    have hle : t.blockedClients ≤ s.blockedClients := hd.le
    rw [ht]
    simp only [bind,Except.bind]
    rcases hd.ready with hready | hlt
    · -- nothing has become ready, so there is no further round
      refine ⟨t,?_,hi,hready⟩
      cases m with
      | zero => rfl
      | succ m =>
        rw [handleRounds]
        exact if_pos hready
    have hlt' : t.blockedClients < s.blockedClients := hlt
    exact ih hi (by omega)

lemma handleBlocked_ok (hs : WakeInv [] (fun _ => True) s) :
    ∃ t, s.handleClientsBlockedOnKeys = .ok t ∧ WakeInv [] (fun _ => True) t ∧ t.readyKeys = [] :=
  handleRounds_ok _ hs (Nat.lt_succ_self _)

end BlockServer
end RedRock
