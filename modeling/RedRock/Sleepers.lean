import RedRock.BlockedWake

/-! No command leaves a client asleep on an element, but for those that put a value under a key
without telling. -/

namespace RedRock
open Lib List Option

namespace BlockServer
variable {n : Nat} {s t : BlockServer n} {c : ClientId} {d : Fin (n+1)} {k : DbKey n}
variable {bt : BlockType} {multi : Bool} {keys : List Sds} {i j : Fin (n+1)} {side : ListEnd}
  {v : BlockVal}

/-- The command signals every list or sorted set that it puts under a key on which a client
waits for one: it does not overwrite another value with it, and what it moves is in memory. -/
def heard (s : BlockServer n) (d : Fin (n+1)) : BlockCommand n → Prop
  | .store t key xs => xs = [] ∨ s.dict (d,key) = none ∨ ¬s.Waits t (d,key)
  | .rename src dst _ => ∀ t xs, s.dict (d,src) = some (.dumped t xs) → ¬s.Waits t (d,dst)
  | .move key dst => ∀ t xs, s.dict (d,key) = some (.dumped t xs) → ¬s.Waits t (dst,key)
  | .swapdb i j => ∀ key t xs,(s.dict (i,key) = some (.dumped t xs) → ¬s.Waits t (j,key)) ∧
      (s.dict (j,key) = some (.dumped t xs) → ¬s.Waits t (i,key))
  | _ => True

abbrev Settled (s : BlockServer n) : Prop := WakeInv [] (fun _ => True) s

lemma popVal_some {x : Sds} (h : s.popVal bt k side = some (x,t)) :
    ∃ xs rest, s.dict k = some (.coll bt xs) ∧ side.pop xs = some (x,rest) ∧
      t = s.setVal k (some (.coll bt rest)) := by
  unfold popVal at h
  split at h
  · rename_i bt' xs hk
    rw [ite_none_right_eq_some] at h
    obtain ⟨rfl,h⟩ := h
    obtain ⟨r,hr,he⟩ := map_eq_some_iff.mp h
    cases he
    exact ⟨xs,r.2,hk,hr,rfl⟩
  · cases h

lemma del_settled (keys : List Sds) (hs : Settled s) :
    Settled (keys.foldl (fun s key => s.dbDelete (d,key)) s) := by
  induction keys generalizing s with
  | nil => exact hs
  | cons key keys ih => exact ih (dbDelete_inv hs)

section
variable (hs : Settled s)
include hs

lemma popVal_settled {x : Sds} (h : s.popVal bt k side = some (x,t))
    (e : PopEvent n) : Settled ((t.deleteIfEmpty k).note e) := by
  obtain ⟨xs,rest,hk,_,rfl⟩ := popVal_some h
  refine note_inv ?_ e
  rw [deleteIfEmpty_setVal]
  split
  · exact dbDelete_inv hs
  rename_i hne
  exact modify_inv hs hk fun _ => hne

lemma push_settled (vals : List Sds) (side : ListEnd) :
    Settled (s.pushGenericCommand k vals side) := by
  unfold pushGenericCommand
  split
  · exact hs
  rename_i hvals
  split
  · refine note_inv (dbAdd_inv hs (by simp) ?_) _
    intro _ t xs hv
    rcases hv with hv | hv
    · cases hv
      exact side.pushAll_ne_nil (.inl hvals)
    · cases hv
  · rename_i xs hk
    exact note_inv (modify_inv hs hk fun _ => side.pushAll_ne_nil (.inl hvals)) _
  · exact hs

lemma rpoplpush_settled (src dst : Sds) : Settled (s.rpoplpushCommand c d src dst) := by
  have hpush : ∀ x s₁, s.popVal .list (d,src) .tail = some (x,s₁) → Settled
      (((s₁.rpoplpushHandlePush (d,dst) x).deleteIfEmpty (d,src)).note (.pop c (d,src) .tail x)) := by
    intro x s₁ hpop
    obtain ⟨xs,rest,hk,_,rfl⟩ := popVal_some hpop
    refine note_inv ?_ _
    have hs₁ : WakeInv [] (· ≠ (d,src)) (s.setVal (d,src) (some (.coll .list rest))) :=
      modify_inv (hs.mono fun _ _ => trivial) hk fun h => absurd rfl h
    obtain ⟨hs₂,hserv⟩ := rpoplpushHandlePush_inv (k := (d,src)) hs₁ (d,dst) x
    obtain ⟨ys,hys⟩ := hserv.list ⟨rest,setVal_self s (d,src) _⟩
    refine hs₂.deleteIfEmpty hys ?_
    rintro _ ⟨x',b,hx',hbt,hkb⟩
    rw [hserv.bpop] at hx'
    rw [← hbt] at hk
    exact hserv.grows (hs.awake.ready x' b (d,src) xs trivial hx' hkb hk)
  unfold rpoplpushCommand
  split
  case h_3 => exact hs
  all_goals
    split
    · exact hs
    · exact hpush _ _ (by assumption)

lemma popSearch_nothing (h : s.popSearch bt d keys = .nothing) :
    ∀ key ∈ keys, s.dict (d,key) = none := by
  induction keys with
  | nil => simp
  | cons key keys ih =>
    rw [popSearch] at h
    split at h
    · rename_i hkey
      intro k hk
      rcases mem_cons.mp hk with rfl | hk
      · exact hkey
      · exact ih h k hk
    · rename_i bt' xs hkey
      split at h
      · cases h
      split at h
      · rename_i hxs
        exact absurd hxs (hs.filled (d,key) bt' xs trivial (.inl hkey))
      · cases h
    · cases h

lemma blockForKeys_settled (bt : BlockType) (target : Option Sds)
    (side : ListEnd) (hc : s.bpop c = none) (hkeys : keys ≠ [])
    (hmissing : ∀ key ∈ keys, s.dict (d,key) = none) :
    Settled (s.blockForKeys c d bt keys target side) := by
  obtain ⟨b,rfl,_,_,_,hmem,hb⟩ := blockForKeys_blocks d bt target side hc hkeys
  refine hb.inv hs ?_
  intro k hk
  obtain ⟨hd,hk⟩ := mem_dbKeys.mp hk
  have hnone := hmissing k.2 ((hmem k.2).mp hk)
  rw [← hd] at hnone
  exact hnone

lemma bpop_settled (bt : BlockType) (keys : List Sds) (side : ListEnd)
    (hc : multi = false → s.bpop c = none) :
    Settled (s.blockingPopGenericCommand c d multi bt keys side) := by
  unfold blockingPopGenericCommand
  split
  · exact hs
  · split
    · exact hs
    rename_i hpop
    exact popVal_settled hs hpop _
  rename_i hnothing
  split
  · exact hs
  rename_i hblock
  simp only [Bool.or_eq_true,List.isEmpty_iff,not_or,Bool.not_eq_true] at hblock
  exact blockForKeys_settled hs bt none side (hc hblock.1) hblock.2 (popSearch_nothing hs hnothing)

lemma brpoplpush_settled (src dst : Sds) (hc : multi = false → s.bpop c = none) :
    Settled (s.brpoplpushCommand c d multi src dst) := by
  unfold brpoplpushCommand
  split
  · rename_i hsrc
    split
    · exact hs
    rename_i hmulti
    refine blockForKeys_settled hs .list (some dst) .tail
      (hc (Bool.not_eq_true _ ▸ hmulti)) (cons_ne_nil src []) ?_
    intro key hkey
    obtain rfl := mem_singleton.mp hkey
    exact hsrc
  · exact rpoplpush_settled hs src dst
  · exact hs

lemma put_settled (bt : BlockType) (xs : List Sds) : Settled (s.putCommand bt k xs) := by
  unfold putCommand
  split
  · split
    · exact hs
    rename_i hxs
    exact dbAdd_inv hs (by simp) (by simp [hxs])
  · rename_i bt' ys hk
    split
    · exact hs
    rename_i hbt
    obtain rfl := not_not.mp hbt
    split
    · exact dbDelete_inv hs
    rename_i hxs
    exact modify_inv hs hk fun _ => hxs
  · exact hs

lemma setKey_settled
    (hv : v = .other ∨ ∃ bt xs, v = .coll bt xs ∧ xs ≠ [] ∧ (s.dict k = none ∨ ¬s.Waits bt k)) :
    Settled (s.setKey k v) := by
  unfold setKey
  rcases hv with rfl | ⟨bt,xs,rfl,hxs,hk⟩
  · split
    · exact dbAdd_inv hs (by simp) (by simp)
    · exact setVal_plain hs (by simp) (by simp)
  split
  · exact dbAdd_inv hs (by simp) (by simp [hxs])
  rename_i w hw
  refine setVal_inv hs ?_ (by simp) (by simp [hxs])
  intro _ bt' xs' hv hwaits
  cases hv
  rw [hw] at hk
  exact absurd hwaits (hk.resolve_left (some_ne_none w))

lemma moveVal_settled {src dst : DbKey n} {o : BlockVal} (hsrc : s.dict src = some o)
    (hheard : ∀ t xs, s.dict src = some (.dumped t xs) → ¬s.Waits t dst) :
    Settled ((s.dbAdd dst o).dbDelete src) ∧
      Settled (((s.dbDelete dst).dbAdd dst o).dbDelete src) := by
  have hmemory : ∀ t xs, o = .dumped t xs → ¬s.Waits t dst := by
    rintro t xs rfl
    exact hheard t xs hsrc
  have hfilled : ∀ t xs, o = .coll t xs ∨ o = .dumped t xs → xs ≠ [] := by
    intro t xs ho
    refine hs.filled src t xs trivial (ho.imp ?_ ?_)
    all_goals
      rintro rfl
      exact hsrc
  exact ⟨dbDelete_inv (dbAdd_inv hs hmemory fun _ => hfilled),
    dbDelete_inv (dbAdd_inv (dbDelete_inv hs) hmemory fun _ => hfilled)⟩

lemma rename_settled {src dst : Sds} {nx : Bool} (hheard : s.heard d (.rename src dst nx)) :
    Settled (s.renameGenericCommand d src dst nx) := by
  unfold renameGenericCommand
  split
  · exact hs
  rename_i o ho
  split
  · exact hs
  split
  · exact hs
  · exact (moveVal_settled hs ho hheard).2

lemma move_settled {key : Sds} {dst : Fin (n+1)}
    (hheard : s.heard d (.move key dst)) : Settled (s.moveCommand key d dst) := by
  unfold moveCommand
  split
  · exact hs
  rename_i o ho
  split
  · exact hs
  split
  · exact hs
  · exact (moveVal_settled hs ho hheard).1

end

lemma scan_signals (ks : List (DbKey n)) (s : BlockServer n) : Signals [] s (ks.foldl scanKey s) ∧
      ((∀ k, s.dbReadyKeys k = true → k ∈ s.readyKeys) → ∀ k ∈ ks, k ∈ s.blockingKeys →
        (∃ t xs, s.dict k = some (.coll t xs)) → k ∈ (ks.foldl scanKey s).readyKeys) := by
  induction ks generalizing s with
  | nil => exact ⟨.refl s,by simp⟩
  | cons k ks ih =>
    have hscan : Signals [] s (scanKey s k) := by
      unfold scanKey
      split
      · exact signal_signals s k
      · exact .refl s
    obtain ⟨hsig,hready⟩ := ih (scanKey s k)
    refine ⟨hscan.trans hsig,?_⟩
    intro hflagged j hj hjb hcoll
    rcases mem_cons.mp hj with rfl | hj
    · obtain ⟨t,xs,hxs⟩ := hcoll
      have hnow : j ∈ [] ++ (s.signalKeyAsReady j).readyKeys := signal_ready hflagged hjb
      have heq : scanKey s j = s.signalKeyAsReady j := by simp [scanKey,hxs]
      rw [← heq] at hnow
      exact hsig.grows hnow
    refine hready (hscan.flagged hflagged) j hj ?_ ?_
    · rw [hscan.eq]
      exact hjb
    rw [hscan.eq]
    exact hcoll

lemma scanDatabase_signals (d : Fin (n+1)) (s : BlockServer n) :
    Signals [] s (s.scanDatabaseForReadyLists d) ∧
      ((∀ k, s.dbReadyKeys k = true → k ∈ s.readyKeys) → ∀ k ∈ s.blockingKeys, k.1 = d →
        (∃ t xs, s.dict k = some (.coll t xs)) →
          k ∈ (s.scanDatabaseForReadyLists d).readyKeys) := by
  obtain ⟨hsig,hready⟩ := scan_signals (s.blockingKeys.keys.filter fun k => k.1 = d) s
  refine ⟨hsig,?_⟩
  intro hflagged k hk hd hcoll
  refine hready hflagged k ?_ hk hcoll
  rw [mem_filter]
  exact ⟨AList.mem_keys.mp hk,by simpa using hd⟩

lemma exchanged_some (h : s.exchanged i j k = some v) : ∃ l, s.dict (l,k.2) = some v ∧
      (l = k.1 ∧ k.1 ≠ i ∧ k.1 ≠ j ∨ l = j ∧ k.1 = i ∨ l = i ∧ k.1 = j) := by
  unfold exchanged at h
  split at h
  · rename_i hi
    exact ⟨j,h,.inr (.inl ⟨rfl,hi⟩)⟩
  rename_i hi
  split at h
  · rename_i hj
    exact ⟨i,h,.inr (.inr ⟨rfl,hj⟩)⟩
  rename_i hj
  exact ⟨k.1,h,.inl ⟨rfl,hi,hj⟩⟩

lemma swapdb_settled (hs : Settled s) (hheard : s.heard d (.swapdb i j)) :
    Settled (s.dbSwapDatabases i j) := by
  unfold dbSwapDatabases
  split
  · exact hs
  let s₁ : BlockServer n := { s with dict := s.exchanged i j }
  obtain ⟨hsig,hready⟩ := scanDatabase_signals i s₁
  obtain ⟨hsig',hready'⟩ := scanDatabase_signals j (s₁.scanDatabaseForReadyLists i)
  have hboth := hsig.trans hsig'
  change Settled ((s₁.scanDatabaseForReadyLists i).scanDatabaseForReadyLists j)
  have hdict : ((s₁.scanDatabaseForReadyLists i).scanDatabaseForReadyLists j).dict = s₁.dict := by
    rw [hboth.eq]
  have hbpop : ((s₁.scanDatabaseForReadyLists i).scanDatabaseForReadyLists j).bpop = s.bpop := by
    rw [hboth.eq]
  have hqueued : Queued ((s₁.scanDatabaseForReadyLists i).scanDatabaseForReadyLists j) := by
    rw [hboth.eq]
    exact hs.queued.of_eq rfl rfl rfl
  refine ⟨hqueued,⟨hboth.flagged hs.awake.flagged,?_,?_⟩,?_⟩
  · intro c b k xs _ hc hk hv
    rw [hdict] at hv
    rw [hbpop] at hc
    have hkb : k ∈ s.blockingKeys := Queues.mem_of_mem_queue ((hs.queued.listed c k).mpr ⟨b,hc,hk⟩)
    obtain ⟨l,hl,hcase⟩ := exchanged_some hv
    rcases hcase with ⟨rfl,_,_⟩ | ⟨_,hi⟩ | ⟨_,hj⟩
    · exact hboth.grows (hs.awake.ready c b k xs trivial hc hk hl)
    · exact hsig'.grows (hready hs.awake.flagged k hkb hi ⟨_,_,hv⟩)
    refine hready' (hsig.flagged hs.awake.flagged) k ?_ hj ?_
    · rw [hsig.eq]
      exact hkb
    rw [hsig.eq]
    exact ⟨_,_,hv⟩
  · intro c b k xs hc hk hv
    rw [hdict] at hv
    rw [hbpop] at hc
    obtain ⟨l,hl,hcase⟩ := exchanged_some hv
    rcases hcase with ⟨rfl,_,_⟩ | ⟨rfl,hi⟩ | ⟨rfl,hj⟩
    · exact hs.awake.inMemory c b k xs hc hk hl
    · exact (hheard k.2 b.btype xs).2 hl ⟨c,b,hc,rfl,hi ▸ hk⟩
    · exact (hheard k.2 b.btype xs).1 hl ⟨c,b,hc,rfl,hj ▸ hk⟩
  intro k t xs _ hv
  rw [hdict] at hv
  rcases hv with hv | hv
  · obtain ⟨l,hl,_⟩ := exchanged_some hv
    exact hs.filled (l,k.2) t xs trivial (.inl hl)
  obtain ⟨l,hl,_⟩ := exchanged_some hv
  exact hs.filled (l,k.2) t xs trivial (.inr hl)

lemma flush_settled {f : DbKey n → Option BlockVal} (hs : Settled s)
    (hf : ∀ k v, f k = some v → s.dict k = some v) : Settled { s with dict := f } := by
  refine ⟨hs.queued.of_eq rfl rfl rfl,⟨hs.awake.flagged,?_,?_⟩,?_⟩
  · intro c b k xs hp hc hk hv
    exact hs.awake.ready c b k xs hp hc hk (hf k _ hv)
  · intro c b k xs hc hk hv
    exact hs.awake.inMemory c b k xs hc hk (hf k _ hv)
  · intro k t xs hp hv
    exact hs.filled k t xs hp (hv.imp (hf k _) (hf k _))

lemma proc_settled {q : BlockCommand n} (hs : Settled s) (hq : s.heard d q)
    (hc : multi = false → s.bpop c = none) : Settled (s.proc c d multi q) := by
  cases q with
  | push key vals side => exact push_settled hs vals side
  | pop key side =>
    rw [proc]
    split
    · exact hs
    rename_i hpop
    exact popVal_settled hs hpop _
  | rpoplpush src dst => exact rpoplpush_settled hs src dst
  | bpop bt keys side => exact bpop_settled hs bt keys side hc
  | brpoplpush src dst => exact brpoplpush_settled hs src dst hc
  | put bt key xs => exact put_settled hs bt xs
  | set key => exact setKey_settled hs (.inl rfl)
  | make key =>
    rw [proc]
    split
    · exact dbAdd_inv hs (by simp) (by simp)
    · exact hs
  | store bt key xs =>
    rw [proc]
    split
    · exact dbDelete_inv hs
    rename_i hxs
    exact setKey_settled hs (.inr ⟨bt,xs,rfl,hxs,hq.resolve_left hxs⟩)
  | zstore key xs =>
    rw [proc]
    split
    · exact dbDelete_inv hs
    rename_i hxs
    exact dbAdd_inv (dbDelete_inv hs) (by simp) (by simp [hxs])
  | del keys => exact del_settled keys hs
  | rename src dst nx => exact rename_settled hs hq
  | move key dst => exact move_settled hs hq
  | swapdb i j => exact swapdb_settled hs hq
  | flushdb =>
    refine flush_settled hs ?_
    intro k v hv
    split at hv
    · cases hv
    · exact hv
  | flushall => exact flush_settled hs (by simp)

def heardAll (c : ClientId) : BlockServer n → List (Fin (n+1) × BlockCommand n) → Prop
  | _, [] => True
  | s, x :: xs => s.heard x.1 x.2 ∧ heardAll c (s.proc c x.1 true x.2) xs

def heardStep (s : BlockServer n) : BlockAct n → Prop
  | .call _ d q => s.heard d q
  | .exec c qs => heardAll c s qs
  | _ => True

lemma exec_settled (qs : List (Fin (n+1) × BlockCommand n)) (hs : Settled s)
    (hq : heardAll c s qs) : Settled (qs.foldl (fun s x => s.proc c x.1 true x.2) s) := by
  induction qs generalizing s with
  | nil => exact hs
  | cons x qs ih => exact ih (proc_settled hs hq.1 (by simp)) hq.2

def Idle (s : BlockServer n) : Prop := Settled s ∧ s.readyKeys = []

lemma Idle.not_waits (hs : Idle s) (hw : s.Waits bt k) (xs : List Sds) :
    s.dict k ≠ some (.coll bt xs) ∧ s.dict k ≠ some (.dumped bt xs) := by
  obtain ⟨c,b,hc,rfl,hk⟩ := hw
  refine ⟨fun hv => ?_,hs.1.awake.inMemory c b k xs hc hk⟩
  have hmem := hs.1.awake.ready c b k xs trivial hc hk hv
  rw [hs.2] at hmem
  cases hmem

lemma step_idle {a : BlockAct n} {r : Except BlockFault (BlockServer n)} (hs : Idle s)
    (ha : s.heardStep a) (h : s.step a = some r) : ∃ t, r = .ok t ∧ Idle t := by
  cases a with
  | call c d q =>
    rw [step,ite_none_left_eq_some,some.injEq] at h
    obtain ⟨hc,rfl⟩ := h
    rw [not_isSome_iff_eq_none] at hc
    exact handleBlocked_ok (proc_settled hs.1 ha fun _ => hc)
  | exec c qs =>
    rw [step,ite_none_left_eq_some,some.injEq] at h
    obtain ⟨_,rfl⟩ := h
    exact handleBlocked_ok (exec_settled qs hs.1 ha)
  | unblock c =>
    rw [step,enabled_iff] at h
    obtain ⟨hc,rfl⟩ := h
    obtain ⟨b,hb⟩ := isSome_iff_exists.mp hc
    obtain ⟨t,ht,hu⟩ := unblockClient_ok hs.1.queued hb
    refine ⟨t,ht,hu.inv hs.1,?_⟩
    rw [hu.eq]
    exact hs.2
  | dump k =>
    rw [step] at h
    split at h
    · rename_i bt xs hk
      cases h
      refine ⟨_,rfl,setVal_inv hs.1 (by simp) ?_ ?_,hs.2⟩
      · intro bt' xs' hv hw
        cases hv
        exact (hs.not_waits hw xs).1 hk
      intro _ bt' xs' hv
      rcases hv with hv | hv
      · cases hv
      cases hv
      exact hs.1.filled k bt xs trivial (.inl hk)
    · cases h
  | restore k =>
    rw [step] at h
    split at h
    · rename_i bt xs hk
      cases h
      refine ⟨_,rfl,setVal_inv hs.1 ?_ (by simp) ?_,hs.2⟩
      · intro _ bt' xs' hv hw
        cases hv
        exact absurd hk (hs.not_waits hw xs).2
      intro _ bt' xs' hv
      rcases hv with hv | hv
      · cases hv
        exact hs.1.filled k bt xs trivial (.inr hk)
      · cases hv
    · cases h

lemma init_idle : Idle (blockServer n).init := by
  refine ⟨⟨⟨?_,?_,?_,[],nodup_nil,rfl,?_⟩,⟨?_,?_,?_⟩,?_⟩,rfl⟩
  · intro c k
    simp [blockServer]
  · intro k
    simp [blockServer]
  · intro c b hb
    cases hb
  · intro c
    simp [blockServer]
  · intro k hk
    cases hk
  · intro c b k xs _ hb
    cases hb
  · intro c b k xs hb
    cases hb
  intro k t xs _ hv
  simp [blockServer] at hv

/-- Some client is blocked on a key that holds what it waits for. -/
def Sleeps (s : BlockServer n) : Prop :=
  ∃ c b key xs, s.bpop c = some b ∧ key ∈ b.keys ∧ xs ≠ [] ∧
    (s.dict (b.db,key) = some (.coll b.btype xs) ∨ s.dict (b.db,key) = some (.dumped b.btype xs))

/-- No assertion fails and nobody sleeps where every command is heard. -/
theorem nobody_sleeps {as : List (BlockAct n)} {r : Except BlockFault (BlockServer n)}
    (hg : (blockServer n).Guarded heardStep (blockServer n).init as)
    (hr : (blockServer n).run as = some r) : ∃ s, r = .ok s ∧ ¬s.Sleeps := by
  obtain ⟨s,rfl,hs⟩ := (blockServer n).guarded_run_ok (I := Idle)
    (fun _ _ _ hs ha hst => step_idle hs ha hst) as init_idle hg hr
  refine ⟨s,rfl,?_⟩
  rintro ⟨c,b,key,xs,hc,hkey,_,hv⟩
  have hw : s.Waits b.btype (b.db,key) := ⟨c,b,hc,rfl,mem_dbKeys.mpr ⟨rfl,hkey⟩⟩
  obtain ⟨hcoll,hdumped⟩ := hs.not_waits hw xs
  exact hv.elim hcoll hdumped

theorem nobody_sleeps_after_push :
    ∃ s : BlockServer 0, (blockServer 0).run [.call 1 0 (.bpop .list [[107]] .head),
        .call 2 0 (.push [107] [[120],[121]] .tail)] = some (.ok s) ∧
      s.log = [.wait 1 [(0,[107])] .head,.push (0,[107]) .tail [[120],[121]],
        .serve 1 (0,[107]) [120]] ∧
      ¬s.Sleeps := by
  refine Machine.exists_run_and _ (by decide) fun s hs _ => ?_
  obtain ⟨t,ht,hno⟩ := nobody_sleeps
    (by exact ⟨trivial,fun _ _ => ⟨trivial,fun _ _ => trivial⟩⟩) hs
  cases ht
  exact hno

/-- BLPOP k, then SET k and SORT with STORE k by another client. -/
theorem sleeps_after_sort_store :
    ∃ s : BlockServer 0, (blockServer 0).run [.call 1 0 (.bpop .list [[107]] .head),
        .call 2 0 (.push [115] [[120]] .tail),.call 2 0 (.set [107]),
        .call 2 0 (.store .list [107] [[120]])] = some (.ok s) ∧ s.Sleeps := by
  obtain ⟨s,hs,hbpop,hdict⟩ := (blockServer 0).exists_run
    [.call 1 0 (.bpop .list [[107]] .head),.call 2 0 (.push [115] [[120]] .tail),
      .call 2 0 (.set [107]),.call 2 0 (.store .list [107] [[120]])]
    (fun s => s.bpop 1 = some ⟨0,.list,[[107]],none,.head⟩ ∧
      s.dict (0,[107]) = some (.coll .list [[120]])) (by decide)
  exact ⟨s,hs,1,_,[107],[[120]],hbpop,by simp,by simp,.inl hdict⟩

end BlockServer
end RedRock
