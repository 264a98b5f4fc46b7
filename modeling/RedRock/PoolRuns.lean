import RedRock.PoolSlots

/-!
The life of a pool: it is populated again and again, and the selection loops take their picks from
its right end.
-/

namespace RedRock
open Lib List Option Pool Candidate

/-- The calls that change a pool. `rockPoolPopulate` and `evictionPoolPopulate` have a pool each: in
a run of one pool only one of them occurs. -/
inductive PoolAct where
  | rock (t : IdleClock) (policy : MaxmemoryPolicy) (keydict : Dict Sds DbVal) (dbid : Nat)
      (samples : List Sds)
  | evict (t : IdleClock) (policy : MaxmemoryPolicy) (keydict : Dict Sds DbVal)
      (expires : Dict Sds Int) (dbid : Nat) (samples : List Sds)
  | removeRight

namespace PoolAct

def samples : PoolAct → List Sds
  | .rock _ _ _ _ samples | .evict _ _ _ _ _ samples => samples
  | .removeRight => []

def candidates : PoolAct → Except PoolFault (List Candidate)
  | .rock t policy keydict dbid samples =>
    samples.mapM fun key => (t.rockIdle policy keydict key).map fun i => ⟨key,dbid,i⟩
  | .evict t policy keydict expires dbid samples =>
    samples.mapM fun key => (t.evictionIdle policy keydict expires key).map fun i => ⟨key,dbid,i⟩
  | .removeRight => .ok []

def perform (z : Zmalloc) (p : Pool) : PoolAct → Except PoolFault Pool
  | .rock t policy keydict dbid samples => rockPoolPopulate z t policy keydict dbid samples p
  | .evict t policy keydict expires dbid samples =>
    evictionPoolPopulate z t policy keydict expires dbid samples p
  | .removeRight => (p.removeRight RKPOOL_SIZE).map Prod.snd

def Short (a : PoolAct) : Prop := ∀ key ∈ a.samples, key.length < 2 ^ 31

instance (a : PoolAct) : Decidable a.Short :=
  inferInstanceAs (Decidable (∀ key ∈ a.samples, key.length < 2 ^ 31))

end PoolAct

structure PoolRun where
  pool : Pool
  fed : List Candidate

def poolMachine (z : Zmalloc) (h : SdsHeap) : Machine PoolRun PoolAct PoolFault where
  init := ⟨poolAlloc z RKPOOL_CACHED_SDS_SIZE RKPOOL_SIZE h,[]⟩
  step r a :=
    match a.candidates with
    | .error _ => none
    | .ok cs => some ((a.perform z r.pool).map fun p => ⟨p,r.fed ++ cs⟩)

def poolBuffers (z : Zmalloc) (h : SdsHeap) : List SdsPtr :=
  (poolAlloc z RKPOOL_CACHED_SDS_SIZE RKPOOL_SIZE h).entries.map (·.cached)

def Pool.scores (p : Pool) : List Nat := (p.entries.filter fun e => e.key.isSome).map (·.idle)

/-- The taken slots are the first ones, in the order of their scores; each has the data of one
candidate; the buffers are those of the beginning, one for each slot; and a key is in the buffer of
its slot or in a string of its own, which no other slot has. -/
structure Pool.Correct (size : Nat) (buffers : List SdsPtr) (fed : List Candidate) (p : Pool) :
    Prop where
  length : p.entries.length = size
  occupied : ∃ n, ∀ (i : Nat) (e : PoolEntry), p.entries[i]? = some e → (e.key.isSome ↔ i < n)
  sorted : p.scores.Pairwise (· ≤ ·)
  belongs : ∀ e ∈ p.entries, ∀ s, e.key = some s →
    ∃ c ∈ fed, p.heap.lookup s = some c.key ∧ e.dbid = c.dbid ∧ e.idle = c.idle
  cached : (p.entries.map (·.cached)).Perm buffers
  distinct : (p.entries.map (·.cached)).Nodup
  own : ∀ e ∈ p.entries, ∀ s, e.key = some s → s = e.cached ∨ s ∉ buffers
  keys : (p.entries.filterMap (·.key)).Nodup

section
variable {z : Zmalloc} {buffers : List SdsPtr} {h : SdsHeap} {occ free : List PoolEntry}
  {l fed : List Candidate} {p : Pool} {size : Nat}

lemma scores_occupied (hocc : List.Forall₂ (PoolEntry.Holds h) occ l) (h' : SdsHeap) :
    scores ⟨occ,h'⟩ = l.map (·.idle) := by
  unfold scores
  induction hocc with
  | nil => rfl
  | cons hc _ ih =>
    simp only at ih
    simp only [filter_cons,hc.isSome,if_true,map_cons,ih,hc.idle]

lemma exists_holds (hocc : List.Forall₂ (PoolEntry.Holds h) occ l) {e : PoolEntry}
    (he : e ∈ occ) : ∃ c ∈ l, e.Holds h c := by
  induction hocc with
  | nil => cases he
  | cons hc _ ih =>
    rcases mem_cons.mp he with rfl | he
    · exact ⟨_,mem_cons_self,hc⟩
    obtain ⟨c,hm,hhold⟩ := ih he
    exact ⟨c,mem_cons_of_mem _ hm,hhold⟩

lemma Pool.Rep.scores (hr : p.Rep size buffers l) : p.scores = l.map (·.idle) := by
  obtain ⟨occ,free,he,hocc,hf⟩ := hr.slots
  have hfree : free.filter (fun e => e.key.isSome) = [] := by
    refine filter_eq_nil_iff.mpr fun e hm => ?_
    rw [hf e hm]
    exact Bool.false_ne_true
  have hocc' := scores_occupied hocc p.heap
  unfold Pool.scores at hocc' ⊢
  rw [he,filter_append,hfree,List.append_nil]
  exact hocc'

lemma Pool.Rep.correct (hr : p.Rep size buffers l) (hb : buffers.Nodup)
    (hl : l.Pairwise (ByScore idle)) (hfed : ∀ c ∈ l, c ∈ fed) :
    p.Correct size buffers fed where
  length := hr.length
  occupied := by
    obtain ⟨occ,free,he,hocc,hf⟩ := hr.slots
    refine ⟨occ.length,fun i e hi => ?_⟩
    rw [he] at hi
    by_cases hlt : i < occ.length
    · rw [getElem?_append_left hlt] at hi
      have hempty := isEmptyAt_occupied hocc i p.heap
      simp only [isEmptyAt,hi,any_some,isNone_eq_false_iff] at hempty
      exact ⟨fun _ => hlt,fun _ => hempty⟩
    rw [getElem?_append_right (Nat.le_of_not_lt hlt)] at hi
    rw [hf e (mem_of_getElem? hi)]
    exact ⟨fun hn => absurd hn Bool.false_ne_true,fun hn => absurd hn hlt⟩
  sorted := by
    rw [hr.scores]
    exact pairwise_map.mpr hl
  belongs e he s hs := by
    obtain ⟨occ,free,he',hocc,hf⟩ := hr.slots
    rw [he'] at he
    rcases mem_append.mp he with he | he
    · obtain ⟨c,hc,hhold⟩ := exists_holds hocc he
      obtain ⟨s',hs',hkey⟩ := hhold.key
      cases hs.symm.trans hs'
      exact ⟨c,hfed c hc,hkey,hhold.dbid,hhold.idle⟩
    rw [hf e he] at hs
    cases hs
  cached := hr.owned.cached
  distinct := hr.owned.cached.nodup_iff.mpr hb
  own := hr.owned.own
  keys := hr.owned.keys

structure PoolRun.Good (z : Zmalloc) (h : SdsHeap) (r : PoolRun) (l : List Candidate) : Prop where
  rep : r.pool.Rep RKPOOL_SIZE (poolBuffers z h) l
  sorted : l.Pairwise (ByScore idle)
  fed : ∀ c ∈ l, c ∈ r.fed

lemma poolBuffers_nodup (z : Zmalloc) (h : SdsHeap) : (poolBuffers z h).Nodup :=
  (poolAlloc_spec z RKPOOL_CACHED_SDS_SIZE RKPOOL_SIZE h).2.2.1

def PoolAct.after (cs l : List Candidate) : PoolAct → List Candidate
  | .rock _ _ _ _ _ | .evict _ _ _ _ _ _ => cs.foldl (offer idle RKPOOL_SIZE) l
  | .removeRight => l.dropLast

lemma PoolAct.perform_rep {a : PoolAct} {cs : List Candidate}
    (hr : p.Rep RKPOOL_SIZE (poolBuffers z h) l) (ha : a.Short) (hcs : a.candidates = .ok cs) :
    ∃ t, a.perform z p = .ok t ∧ t.Rep RKPOOL_SIZE (poolBuffers z h) (a.after cs l) := by
  cases a with
  | rock t policy keydict dbid samples =>
    exact poolPopulate_rep z RKPOOL_CACHED_SDS_SIZE (poolBuffers_nodup z h) hr (by decide) ha hcs
  | evict t policy keydict expires dbid samples =>
    exact poolPopulate_rep z EVPOOL_CACHED_SDS_SIZE (poolBuffers_nodup z h) hr (by decide) ha hcs
  | removeRight =>
    rcases removeRight_rep hr with ⟨rfl,hrem⟩ | ⟨l',c,t,rfl,hrem,hrt⟩
    · refine ⟨p,?_,hr⟩
      rw [perform,hrem]
      rfl
    refine ⟨t,?_,?_⟩
    · rw [perform,hrem]
      rfl
    rw [after,dropLast_concat]
    exact hrt

lemma PoolRun.Good.isTop {r : PoolRun} (hg : r.Good z h l) :
    IsTop idle RKPOOL_SIZE l l := by
  refine .self hg.sorted ?_
  obtain ⟨occ,free,he,hocc,_⟩ := hg.rep.slots
  have hlen := hg.rep.length
  rw [he,length_append,hocc.length_eq] at hlen
  omega

lemma PoolRun.Good.step {r : PoolRun} {a : PoolAct} {t : Except PoolFault PoolRun}
    (hg : r.Good z h l) (ha : a.Short) (ht : (poolMachine z h).step r a = some t) :
    ∃ u cs, t = .ok u ∧ a.candidates = .ok cs ∧ u.Good z h (a.after cs l) := by
  simp only [poolMachine] at ht
  cases hcs : a.candidates with
  | error f =>
    rw [hcs] at ht
    cases ht
  | ok cs =>
    rw [hcs] at ht
    cases ht
    obtain ⟨q,hq,hrep⟩ := PoolAct.perform_rep hg.rep ha hcs
    have hpop := hg.isTop.offers cs
    refine ⟨⟨q,r.fed ++ cs⟩,cs,?_,rfl,hrep,?_,?_⟩
    · rw [hq]
      rfl
    · cases a with
      | rock | evict => exact hpop.sorted
      | removeRight => exact hg.sorted.sublist (dropLast_sublist l)
    intro c hc
    have hmem : c ∈ l ∨ c ∈ cs := by
      cases a with
      | rock _ _ _ _ _ | evict _ _ _ _ _ _ => exact offers_mem hc
      | removeRight => exact .inl ((dropLast_sublist l).mem hc)
    exact mem_append.mpr (hmem.imp_left (hg.fed c))

end

/-- A pool that is fed keys of less than `2^31` bytes never fails, is as it should be after every
call, and a call of one of the populate functions leaves the best of what was there and what is
new. -/
theorem pool_correct (z : Zmalloc) (h : SdsHeap) (as : List PoolAct) (r : Except PoolFault PoolRun)
    (hg : (poolMachine z h).Guarded (fun _ a => a.Short) (poolMachine z h).init as)
    (hrun : (poolMachine z h).run as = some r) :
    ∃ u, r = .ok u ∧ u.pool.Correct RKPOOL_SIZE (poolBuffers z h) u.fed ∧
      ∀ a t, a.Short → (poolMachine z h).step u a = some t → ∃ v cs, t = .ok v ∧
        a.candidates = .ok cs ∧ (a ≠ .removeRight →
          IsTop id RKPOOL_SIZE (u.pool.scores ++ cs.map (·.idle)) v.pool.scores) := by
  have hinit : ∃ l, ((poolMachine z h).init).Good z h l :=
    ⟨[],poolAlloc_rep z _ _ h,List.Pairwise.nil,fun c hc => absurd hc not_mem_nil⟩
  obtain ⟨u,rfl,l,hu⟩ := (poolMachine z h).guarded_run_ok (I := fun r => ∃ l, r.Good z h l)
    (fun s a t ⟨l,hs⟩ ha ht => by
      obtain ⟨u,cs,htu,_,hu⟩ := hs.step ha ht
      exact ⟨u,htu,_,hu⟩) as hinit hg hrun
  refine ⟨u,rfl,hu.rep.correct (poolBuffers_nodup z h) hu.sorted hu.fed,fun a t ha ht => ?_⟩
  obtain ⟨v,cs,htv,hcs,hv⟩ := hu.step ha ht
  refine ⟨v,cs,htv,hcs,fun hne => ?_⟩
  rw [hu.rep.scores,hv.rep.scores,← map_append]
  cases a with
  | rock _ _ _ _ _ | evict _ _ _ _ _ _ => exact (hu.isTop.offers cs).scores
  | removeRight => exact absurd rfl hne

lemma le_foldr_max {s : Nat} {l : List Nat} (h : s ∈ l) : s ≤ l.foldr max 0 := by
  induction l with
  | nil => cases h
  | cons a l ih =>
    rcases mem_cons.mp h with rfl | h
    · exact le_max_left _ _
    · exact (ih h).trans (le_max_right _ _)

/-- An allocator that goes on after the highest address in use. -/
def Sample.bump : Zmalloc where
  alloc h := h.keys.foldr max 0 + 1
  fresh _ hm := Nat.not_succ_le_self _ (le_foldr_max (AList.mem_keys.mp hm))

def Sample.clock : IdleClock := ⟨10,0,1,0,fun _ => 0⟩

def Sample.aged : Dict Sds DbVal :=
  ((∅ : Dict Sds DbVal).insert [97] (.mem ⟨.raw [],4,1⟩)).insert [98] (.mem ⟨.raw [],7,1⟩)

def Sample.poolActs : List PoolAct :=
  [.rock Sample.clock .allkeysLru Sample.aged 0 [[98],[97],[98]],.removeRight,
    .rock Sample.clock .allkeysLru Sample.aged 0 [[97]]]

open Sample

theorem pool_correct_two_keys : ∃ u, (poolMachine Sample.bump ∅).run Sample.poolActs = some (.ok u) ∧
    u.pool.Correct RKPOOL_SIZE (poolBuffers Sample.bump ∅) u.fed := by
  have hsome : ((poolMachine bump ∅).run poolActs).isSome = true := by decide
  obtain ⟨r,hr⟩ := isSome_iff_exists.mp hsome
  obtain ⟨u,rfl,hu,_⟩ := pool_correct bump ∅ poolActs r
    (Machine.guarded_check _ _ _ _ (by decide)) hr
  exact ⟨u,hr,hu⟩

/-- A key of `2^32 + 1` bytes has the length 1 as an `int`. -/
def Sample.longKey : Sds := List.replicate (2 ^ 32 + 1) 97

lemma Sample.longKey_klen : (BitVec.ofNat 32 Sample.longKey.length).toInt = 1 := by
  have hlen : longKey.length = 2 ^ 32 + 1 := length_replicate
  rw [hlen]
  decide

def Sample.oneKey (key : Sds) : Dict Sds DbVal :=
  (∅ : Dict Sds DbVal).insert key (.mem ⟨.raw [],4,1⟩)

def Sample.sampleOne (key : Sds) : PoolAct :=
  .rock Sample.clock .allkeysLru (Sample.oneKey key) 0 [key]

def Sample.freshPool : Pool := poolAlloc Sample.bump RKPOOL_CACHED_SDS_SIZE RKPOOL_SIZE ∅

def Sample.firstByte (key : Sds) : Pool :=
  ⟨Sample.freshPool.entries.set 0 ⟨6000,some 1,1,0⟩,Sample.freshPool.heap.insert 1 (key.take 1)⟩

lemma Sample.insert_wrapped {key : Sds} (hklen : (BitVec.ofNat 32 key.length).toInt = 1) :
    insert Sample.bump RKPOOL_SIZE RKPOOL_CACHED_SDS_SIZE Sample.freshPool ⟨key,0,6000⟩ =
      .ok (Sample.firstByte key) := by
  have hroom : room RKPOOL_SIZE freshPool 6000 = .ok (some (0,freshPool)) := rfl
  have hmem : 1 ∈ freshPool.heap := by decide
  have hstore : storeKey bump RKPOOL_CACHED_SDS_SIZE 1 key freshPool.heap =
      .ok (1,freshPool.heap.insert 1 (key.take 1)) := by
    simp [storeKey,hklen,RKPOOL_CACHED_SDS_SIZE,hmem]
  rw [insert_of_room hroom,put]
  change (storeKey bump RKPOOL_CACHED_SDS_SIZE 1 key _ >>= _) = _
  rw [hstore]
  rfl

lemma run_sampleOne {key : Sds} (hklen : (BitVec.ofNat 32 key.length).toInt = 1) :
    (poolMachine Sample.bump ∅).run [Sample.sampleOne key] =
      some (.ok ⟨Sample.firstByte key,[⟨key,0,6000⟩]⟩) := by
  have hidle : clock.rockIdle .allkeysLru (oneKey key) key = .ok 6000 := by
    rw [IdleClock.rockIdle,oneKey,AList.lookup_insert]
    rfl
  have hpop : (sampleOne key).perform bump freshPool = .ok (firstByte key) := by
    rw [sampleOne,PoolAct.perform,rockPoolPopulate,poolPopulate,hidle]
    change (insert _ _ _ _ _ >>= _) = _
    rw [insert_wrapped hklen]
    rfl
  have hcs : (sampleOne key).candidates = .ok [⟨key,0,6000⟩] := by
    simp [sampleOne,PoolAct.candidates,hidle,Except.map,pure,Except.pure,bind,Except.bind]
  have hstep : (poolMachine bump ∅).step ⟨freshPool,[]⟩ (sampleOne key) =
      some (.ok ⟨firstByte key,[⟨key,0,6000⟩]⟩) := by
    simp only [poolMachine,hcs,hpop,Except.map,nil_append]
  change (poolMachine bump ∅).runFrom ⟨freshPool,[]⟩ _ = _
  simp only [Machine.runFrom,hstep]

/-- The slot has only the first byte of the key. -/
theorem long_key_truncated :
    (poolMachine Sample.bump ∅).run [Sample.sampleOne Sample.longKey] =
        some (.ok ⟨Sample.firstByte Sample.longKey,[⟨Sample.longKey,0,6000⟩]⟩) ∧
      (Sample.firstByte Sample.longKey).heap.lookup 1 = some [97] ∧
      ¬ (Sample.firstByte Sample.longKey).Correct RKPOOL_SIZE (poolBuffers Sample.bump ∅)
        [⟨Sample.longKey,0,6000⟩] := by
  have hlookup : (firstByte longKey).heap.lookup 1 = some [97] :=
    AList.lookup_insert freshPool.heap
  refine ⟨run_sampleOne longKey_klen,hlookup,fun hc => ?_⟩
  have hslot : (firstByte longKey).entries[0]? = some ⟨6000,some 1,1,0⟩ := rfl
  obtain ⟨c,hfed,hkey,_⟩ := hc.belongs _ (mem_of_getElem? hslot) 1 rfl
  rw [mem_singleton.mp hfed,hlookup] at hkey
  have hlen : longKey.length = 1 := congrArg List.length (some.inj hkey).symm
  rw [longKey,length_replicate] at hlen
  omega

end RedRock
