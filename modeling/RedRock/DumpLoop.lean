import RedRock.HotIndex
import RedRock.PoolSlots

/-!
`dumpValueToRockIfNeeded` of `rock_hotkey.c`: when too much memory is used, values go to disk until
enough of it has been released. The pool of candidates is the sorted list that its slots stand for.
-/

namespace RedRock
open Lib List Option Sample Server
variable {fuel tofree left : Nat}

def MAX_TRY_PICK_KEY_TIMES : Nat := 64
def SAFE_MEMORY_ROCK_BEFORE_EVIC : Nat := 16 * 2 ^ 20

def sizeT (x : Int) : Nat := (x % 2 ^ 64).toNat

/-- What `zmalloc_used_memory`, `freeMemoryGetNotCountedMemory` and `getMemoryOfRock` report, and
whether clients are paused. -/
structure MemoryUse where
  paused : Bool
  reported : Nat
  aofSlave : Nat
  rock : Nat

structure DumpConfig where
  onlyForRocksdb : Bool
  maxHopeHotKeys : Nat

def memNeed (m : MemoryUse) : Nat :=
  let other := sizeT (m.aofSlave + m.rock)
  let used := if other < m.reported then m.reported - other else 0
  sizeT (used + SAFE_MEMORY_ROCK_BEFORE_EVIC)

/-- `_getMmemoryStateWithRock`: how much is to be freed, nothing for `C_OK`. -/
def getMemoryStateWithRock (maxmemory : Nat) (m : MemoryUse) : Option Nat :=
  if maxmemory = 0 then none
  else if memNeed m ≤ maxmemory then none
  else some (memNeed m - maxmemory)

/-- What the loop finds by chance: the samples of each database with their idle times, for every
round of filling the pool, and a random key and the change of the used memory for every turn. -/
structure DumpWorld (n : Nat) where
  samples : Nat → (Fin (n+1) → Finset Sds) → Fin (n+1) → List (Sds × Nat)
  samples_hot : ∀ k hot d x, x ∈ samples k hot d → x.1 ∈ hot d
  random : Nat → Fin (n+1) → Finset Sds → Sds
  random_hot : ∀ k d hot, hot.Nonempty → random k d hot ∈ hot
  delta : Nat → Int

/-- `pool` and `nextDb` are static, `turn` counts the tries, `round` how often the pool was filled;
`deltas` is history: what the dumps of the call released. -/
structure DumpState (n : Nat) where
  server : Server n
  pool : List Candidate
  nextDb : Nat
  round : Nat
  turn : Nat
  memFreed : Nat
  deltas : List Int

inductive DumpFault where
  | main (f : Fault)
  | isValueSuitForDumpRock
  deriving DecidableEq

/-- How the function returns: `C_OK` because clients are paused, because memory is not short or
because enough was released, `C_ERR` from the test of the hot keys or because nothing more could be
done. -/
inductive DumpExit where
  | paused
  | enough
  | floor
  | freed
  | cantFree
  deriving DecidableEq

def Server.hot {n : Nat} (s : Server n) (d : Fin (n+1)) : Finset Sds := (s.db d).hotKeys

section
variable {n : Nat}

def Candidate.db (c : Candidate) : Fin (n+1) := Fin.ofNat (n+1) c.dbid

/-- `rockPoolPopulate` on the list that the pool stands for. -/
def populateDb (d : Fin (n+1)) (dict : Dict Sds DbVal) :
    List (Sds × Nat) → List Candidate → Except Fault (List Candidate)
  | [], pool => .ok pool
  | (key,idle) :: samples, pool =>
    if key ∈ dict then
      populateDb d dict samples (offer Candidate.idle RKPOOL_SIZE pool ⟨key,d.val,idle⟩)
    else .error .rockPoolPopulate

def populateDbs (s : Server n) (samples : Fin (n+1) → List (Sds × Nat)) :
    List (Fin (n+1)) → List Candidate → Except Fault (List Candidate)
  | [], pool => .ok pool
  | d :: ds, pool =>
    if s.hot d = ∅ then populateDbs s samples ds pool
    else do
      let pool ← populateDb d (s.db d).dict (samples d) pool
      populateDbs s samples ds pool

/-- The loop from the best candidate to the worst, on the candidates in that order. It leaves out
those whose key is gone, and stops at the first other one. -/
def pickBest (s : Server n) : List Candidate → Option Candidate × List Candidate
  | [] => (none,[])
  | c :: cs => if c.key ∈ (s.db c.db).dict then (some c,cs) else pickBest s cs

/-- `while (bestkey == NULL)`, for at most `fuel` rounds. -/
def selectBest (w : DumpWorld n) :
    Nat → DumpState n → Option (Except DumpFault (Option Candidate × DumpState n))
  | 0, _ => none
  | fuel+1, s =>
    match populateDbs s.server (w.samples s.round s.server.hot) (List.finRange (n+1)) s.pool with
    | .error f => some (.error (.main f))
    | .ok pool =>
      if ∀ d, s.server.hot d = ∅ then
        some (.ok (none,{ s with pool := pool, round := s.round + 1 }))
      else
        match pickBest s.server pool.reverse with
        | (some c,rest) =>
          some (.ok (some c,{ s with pool := rest.reverse, round := s.round + 1 }))
        | (none,rest) => selectBest w fuel { s with pool := rest.reverse, round := s.round + 1 }

/-- `_isValueSuitForDumpRock`. -/
def isSuit (s : Server n) (d : Fin (n+1)) (key : Sds) : Except DumpFault Bool :=
  match (s.db d).dict.lookup key with
  | none => .error .isValueSuitForDumpRock
  | some val => .ok (isValueSuitForDumpRock val)

def keepSuit (s : Server n) : Option Candidate → Except DumpFault (Option (Fin (n+1) × Sds))
  | none => .ok none
  | some c => (isSuit s c.db c.key).map fun suit => if suit then some (c.db,c.key) else none

/-- The random pick, one key of each database in turn, with `next_db` as it is afterwards. -/
def randomPick (w : DumpWorld n) (turn : Nat) (s : Server n) :
    Nat → Nat → Except DumpFault (Option (Fin (n+1) × Sds) × Nat)
  | 0, nextDb => .ok (none,nextDb)
  | i+1, nextDb =>
    let next := (nextDb + 1) % 2 ^ 32
    let d := Fin.ofNat (n+1) next
    if s.hot d = ∅ then randomPick w turn s i next
    else
      match isSuit s d (w.random turn d (s.hot d)) with
      | .error f => .error f
      | .ok true => .ok (some (d,w.random turn d (s.hot d)),next)
      | .ok false => randomPick w turn s i next

def orRandom (w : DumpWorld n) (s : DumpState n) :
    Option (Fin (n+1) × Sds) → Except DumpFault (Option (Fin (n+1) × Sds) × Nat)
  | some best => .ok (some best,s.nextDb)
  | none => randomPick w s.turn s.server (n+1) s.nextDb

/-- A signed difference is added to an unsigned sum. -/
def dumpBest (w : DumpWorld n) (s : DumpState n) (d : Fin (n+1)) (key : Sds) :
    Except DumpFault (DumpState n) :=
  if key ∈ (s.server.db d).rockKeys then .ok s
  else
    match s.server.dumpValToRock d key with
    | .error f => .error (.main f)
    | .ok server =>
      .ok { s with server := server
                   memFreed := sizeT (s.memFreed + w.delta s.turn)
                   deltas := s.deltas ++ [w.delta s.turn] }

/-- The rest of a turn, once the best candidate is known; the result is `false` for
`goto cant_free`. -/
def dumpTurn (w : DumpWorld n) (best : Option Candidate) (s : DumpState n) :
    Except DumpFault (Bool × DumpState n) := do
  let best ← keepSuit s.server best
  let (best,next) ← orRandom w s best
  match best with
  | none => return (false,{ s with nextDb := next })
  | some (d,key) => (dumpBest w { s with nextDb := next } d key).map fun t => (true,t)

def dumpLoop (w : DumpWorld n) (fuel tofree : Nat) :
    Nat → DumpState n → Option (Except DumpFault (DumpExit × DumpState n))
  | 0, s => some (.ok (if tofree ≤ s.memFreed then .freed else .cantFree,s))
  | left+1, s =>
    if tofree ≤ s.memFreed then some (.ok (.freed,s))
    else
      match selectBest w fuel s with
      | none => none
      | some (.error f) => some (.error f)
      | some (.ok (best,s)) =>
        match dumpTurn w best s with
        | .error f => some (.error f)
        | .ok (false,s) => some (.ok (.cantFree,s))
        | .ok (true,s) => dumpLoop w fuel tofree left { s with turn := s.turn + 1 }

/-- `initHotKeys` is called the first time that memory is short. -/
def Server.lazyInit (s : Server n) : Except Fault (Server n) :=
  if s.alreadyInitHotKeys then .ok s else s.initHotKeys

def hotKeyFloor (maxHopeHotKeys : Nat) : Nat → List Nat → Bool
  | _, [] => false
  | total, count :: counts =>
    if total + count ≤ maxHopeHotKeys then true
    else hotKeyFloor maxHopeHotKeys (total + count) counts

def Server.hotCounts (s : Server n) : List Nat := (List.finRange (n+1)).map fun d => (s.hot d).card

def dumpValueToRockIfNeeded (w : DumpWorld n) (fuel : Nat) (cfg : DumpConfig) (m : MemoryUse)
    (s : DumpState n) : Option (Except DumpFault (DumpExit × DumpState n)) :=
  if m.paused then some (.ok (.paused,s))
  else
    match getMemoryStateWithRock s.server.config.maxmemory m with
    | none => some (.ok (.enough,s))
    | some tofree =>
      match s.server.lazyInit with
      | .error f => some (.error (.main f))
      | .ok server =>
        if !cfg.onlyForRocksdb && hotKeyFloor cfg.maxHopeHotKeys 0 server.hotCounts then
          some (.ok (.floor,{ s with server := server }))
        else
          dumpLoop w fuel tofree (MAX_TRY_PICK_KEY_TIMES - 1)
            { s with server := server, turn := 0, memFreed := 0, deltas := [] }

end

lemma serObject_ok_iff {o : Robj} :
    (∃ buf, serObject o = .ok buf) ↔ o.type ≠ .stream ∧ o.type ≠ .module := by
  obtain ⟨content,lru,refcount⟩ := o
  cases content <;>
    simp [serObject,serObjectType,Robj.type,Content.type,bind,Except.bind,pure,Except.pure]

/-- A value that passes the test of the loop and whose key is in the index comes back from disk as
it was, unless the key is empty or the value is of a module. -/
theorem dump_restores_iff {n : Nat} (s : Server n) (d : Fin (n+1)) (key : Sds) (o : Robj)
    (hl : (s.db d).dict.lookup key = some (.mem o)) (hs : isValueSuitForDumpRock (.mem o) = true)
    (hh : key ∈ (s.db d).hotKeys) :
    (∃ t o', s.dumpValToRock d key = .ok t ∧ t.restoreObjFromRocksdb d key = .ok o' ∧
      o'.content = o.content ∧ o'.lru = o.lru) ↔ key ≠ [] ∧ o.type ≠ .module := by
  simp only [isValueSuitForDumpRock,Bool.and_eq_true,decide_eq_true_eq] at hs
  constructor
  · rintro ⟨t,o',ht,_⟩
    obtain ⟨o₁,buf,hl₁,_,hser,hne,_⟩ := dumpVal_ok.mp ht
    cases hl.symm.trans hl₁
    exact ⟨hne,(serObject_ok_iff.mp ⟨buf,hser⟩).2⟩
  rintro ⟨hne,hmod⟩
  obtain ⟨buf,hser⟩ := serObject_ok_iff.mpr ⟨hs.1,hmod⟩
  have hdes := desObject_serObject s.config hser
  refine ⟨_,_,dumpVal_ok.mpr ⟨o,buf,hl,hs.2,hser,hne,hh,rfl⟩,
    restoreObj_ok.mpr ⟨hne,buf,?_,hdes⟩,rfl,rfl⟩
  simp [updDb]

def Sample.plain : Robj := ⟨.raw [118],0,1⟩

def Sample.withKey (key : Sds) : Except Fault (Server 0) := do
  let s ← (initServer 0 ⟨1,false,false⟩).dbAdd 0 key (.mem plain)
  s.initHotKeys

open Sample

theorem dump_restores_k : ∃ s, withKey [107] = .ok s ∧ ∃ t o',
    s.dumpValToRock 0 [107] = .ok t ∧ t.restoreObjFromRocksdb 0 [107] = .ok o' ∧
      o'.content = plain.content ∧ o'.lru = plain.lru := by
  refine ⟨_,rfl,(dump_restores_iff _ 0 [107] plain rfl rfl ?_).mpr ⟨by decide,by decide⟩⟩
  decide

/-- The keyspace takes an empty key, and the dump of its value fails. -/
theorem empty_key_not_dumped : ∃ s, withKey [] = .ok s ∧
    s.dumpValToRock 0 [] = .error .rocksdbKeyLen :=
  ⟨_,rfl,rfl⟩

section
variable {n : Nat}

lemma hotKeyFloor_iff (max total : Nat) (counts : List Nat) :
    hotKeyFloor max total counts = true ↔ ∃ c ∈ counts.head?, total + c ≤ max := by
  induction counts generalizing total with
  | nil => simp [hotKeyFloor]
  | cons c counts ih =>
    rw [hotKeyFloor]
    split
    · rename_i hle
      simp [hle]
    rename_i hgt
    rw [ih]
    -- the sums only grow
    simp only [head?_cons,mem_def,some.injEq,exists_eq_left']
    refine ⟨?_,fun h => absurd h hgt⟩
    rintro ⟨c',_,hle⟩
    omega

lemma dumpLoop_exit {w : DumpWorld n} {s u : DumpState n} {e : DumpExit}
    (h : dumpLoop w fuel tofree left s = some (.ok (e,u))) : e = .freed ∨ e = .cantFree := by
  induction left generalizing s with
  | zero =>
    simp only [dumpLoop,some.injEq,Except.ok.injEq,Prod.mk.injEq] at h
    rw [← h.1]
    split
    · exact .inl rfl
    · exact .inr rfl
  | succ left ih =>
    rw [dumpLoop] at h
    split at h
    · cases h
      exact .inl rfl
    split at h
    · cases h
    · cases h
    split at h
    · cases h
    · cases h
      exact .inr rfl
    · exact ih h

/-- The test of the hot keys looks at the first database only: every later sum is higher. It is the
test of the total unless the first database alone is below the floor and the total is not. -/
theorem floor_global_iff (w : DumpWorld n) (fuel tofree : Nat) (cfg : DumpConfig) (m : MemoryUse)
    (s : DumpState n) (server : Server n) (hcfg : cfg.onlyForRocksdb = false)
    (hp : m.paused = false) (hm : getMemoryStateWithRock s.server.config.maxmemory m = some tofree)
    (hi : s.server.lazyInit = .ok server) :
    ((∃ u, dumpValueToRockIfNeeded w fuel cfg m s = some (.ok (.floor,u))) ↔
        ∑ d, (server.hot d).card ≤ cfg.maxHopeHotKeys) ↔
      ¬ ((server.hot 0).card ≤ cfg.maxHopeHotKeys ∧
        cfg.maxHopeHotKeys < ∑ d, (server.hot d).card) := by
  have hfloor : hotKeyFloor cfg.maxHopeHotKeys 0 server.hotCounts = true ↔
      (server.hot 0).card ≤ cfg.maxHopeHotKeys := by
    rw [hotKeyFloor_iff,hotCounts,finRange_succ]
    simp
  have hexit : (∃ u, dumpValueToRockIfNeeded w fuel cfg m s = some (.ok (.floor,u))) ↔
      (server.hot 0).card ≤ cfg.maxHopeHotKeys := by
    rw [← hfloor]
    simp only [dumpValueToRockIfNeeded,hp,hm,hi,hcfg,Bool.false_eq_true,if_false,Bool.not_false,
      Bool.true_and]
    split
    · rename_i h
      exact ⟨fun _ => h,fun _ => ⟨_,rfl⟩⟩
    rename_i h
    refine ⟨?_,fun h' => absurd h' h⟩
    rintro ⟨u,hu⟩
    rcases dumpLoop_exit hu with he | he <;> cases he
  have hle : (server.hot 0).card ≤ ∑ d, (server.hot d).card :=
    Finset.single_le_sum (f := fun d => (server.hot d).card) (fun _ _ => Nat.zero_le _)
      (Finset.mem_univ 0)
  rw [hexit]
  omega

end

lemma choose_mem (hot : Finset Sds) (h : hot.Nonempty) :
    (if h : hot.Nonempty then h.choose else []) ∈ hot := by
  rw [dif_pos h]
  exact h.choose_spec

noncomputable def Sample.world (n : Nat) (keys : List Sds) (deltas : List Int) : DumpWorld n where
  samples _ hot d := (keys.filter (· ∈ hot d)).map fun key => (key,0)
  samples_hot _ hot d x hx := by
    obtain ⟨key,hkey,rfl⟩ := List.mem_map.mp hx
    exact of_decide_eq_true (mem_filter.mp hkey).2
  random _ _ hot := if h : hot.Nonempty then h.choose else []
  random_hot _ _ := choose_mem
  delta k := deltas.getD k 0

def Sample.pressed (n : Nat) (keys : Fin (n+1) → List Sds) : DumpState n where
  server := { initServer n ⟨1,false,false⟩ with
    db := fun d => { RedisDb.empty with
      dict := (keys d).foldl (fun dict key => dict.insert key (.mem plain)) ∅ } }
  pool := []
  nextDb := 0
  round := 0
  turn := 0
  memFreed := 0
  deltas := []

def Sample.idleMemory : MemoryUse := ⟨false,0,0,0⟩

/-- Two keys in the second database are above a floor of one, and the function gives up. -/
theorem floor_stops_second_db :
    (∃ u, dumpValueToRockIfNeeded (world 1 [] []) 1 ⟨false,1⟩ idleMemory
      (pressed 1 ![[],[[97],[98]]]) = some (.ok (.floor,u)) ∧
      ∑ d, (u.server.hot d).card = 2) := by
  refine ⟨_,rfl,?_⟩
  decide

theorem floor_global_two_keys :
    ∃ server, (pressed 1 ![[[97]],[[98]]]).server.lazyInit = .ok server ∧
      ((∃ u, dumpValueToRockIfNeeded (world 1 [] []) 1 ⟨false,2⟩ idleMemory
        (pressed 1 ![[[97]],[[98]]]) = some (.ok (.floor,u))) ↔
        ∑ d, (server.hot d).card ≤ 2) :=
  ⟨_,rfl,(floor_global_iff (world 1 [] []) 1 (2 ^ 24 - 1) ⟨false,2⟩ idleMemory
    (pressed 1 ![[[97]],[[98]]]) _ rfl rfl (by decide) rfl).mpr (by decide)⟩

def accumulated (deltas : List Int) : Nat := deltas.foldl (fun freed d => sizeT (freed + d)) 0

lemma accumulated_concat (deltas : List Int) (d : Int) :
    accumulated (deltas ++ [d]) = sizeT (accumulated deltas + d) := by
  rw [accumulated,foldl_append]
  rfl

lemma accumulated_eq (deltas : List Int) : (accumulated deltas : Int) = deltas.sum % 2 ^ 64 := by
  induction deltas using List.reverseRecOn with
  | nil => rfl
  | append_singleton deltas d ih =>
    rw [accumulated_concat,sum_append,sum_singleton,sizeT,ih]
    omega

section
variable {n : Nat} {w : DumpWorld n} {s t u : DumpState n}
variable {best : Option Candidate}

lemma selectBest_same (h : selectBest w fuel s = some (.ok (best,t))) :
    ∃ pool round, t = { s with pool := pool, round := round } := by
  induction fuel generalizing s with
  | zero => cases h
  | succ fuel ih =>
    rw [selectBest] at h
    split at h
    · cases h
    split at h
    · cases h
      exact ⟨_,_,rfl⟩
    split at h
    · cases h
      exact ⟨_,_,rfl⟩
    obtain ⟨pool,round,ht⟩ := ih h
    exact ⟨pool,round,ht⟩

inductive Turn (w : DumpWorld n) (s t : DumpState n) : Prop where
  | skip (next : Nat) (ht : t = { s with nextDb := next })
  | dump (d : Fin (n+1)) (key : Sds) (server : Server n) (next : Nat)
      (hk : key ∉ (s.server.db d).rockKeys) (hd : s.server.dumpValToRock d key = .ok server)
      (ht : t = { s with server := server
                         nextDb := next
                         memFreed := sizeT (s.memFreed + w.delta s.turn)
                         deltas := s.deltas ++ [w.delta s.turn] })

lemma dumpTurn_turn {b : Bool} (h : dumpTurn w best s = .ok (b,t)) : Turn w s t := by
  obtain ⟨best',_,h⟩ := bind_ok.mp h
  obtain ⟨⟨best'',next⟩,_,h⟩ := bind_ok.mp h
  cases best'' with
  | none =>
    cases h
    exact .skip next rfl
  | some pick =>
    obtain ⟨d,key⟩ := pick
    obtain ⟨t',ht',ht⟩ := map_ok.mp h
    cases ht
    unfold dumpBest at ht'
    split at ht'
    · cases ht'
      exact .skip next rfl
    rename_i hk
    split at ht'
    · cases ht'
    rename_i server hd
    cases ht'
    exact .dump d key server next hk hd rfl

lemma Turn.accumulated (h : Turn w s t) (hs : s.memFreed = accumulated s.deltas) :
    t.memFreed = RedRock.accumulated t.deltas := by
  cases h with
  | skip next ht =>
    rw [ht]
    exact hs
  | dump d key server next hk hd ht =>
    rw [ht,accumulated_concat,← hs]

lemma dumpLoop_accumulated {e : DumpExit} (hs : s.memFreed = accumulated s.deltas)
    (h : dumpLoop w fuel tofree left s = some (.ok (e,u))) :
    u.memFreed = accumulated u.deltas ∧ (e = .freed → tofree ≤ u.memFreed) := by
  induction left generalizing s with
  | zero =>
    cases h
    refine ⟨hs,fun he => ?_⟩
    by_contra hn
    rw [if_neg hn] at he
    cases he
  | succ left ih =>
    rw [dumpLoop] at h
    split at h
    · rename_i hle
      cases h
      exact ⟨hs,fun _ => hle⟩
    split at h
    · cases h
    · cases h
    rename_i best t hsel
    obtain ⟨pool,round,rfl⟩ := selectBest_same hsel
    split at h
    · cases h
    · rename_i t ht
      cases h
      exact ⟨(dumpTurn_turn ht).accumulated hs,fun he => by cases he⟩
    rename_i t ht
    refine ih ?_ h
    exact (dumpTurn_turn ht).accumulated hs

end

lemma dumpValueToRockIfNeeded_loop {n : Nat} {w : DumpWorld n} {fuel tofree : Nat}
    {cfg : DumpConfig} {m : MemoryUse} {s u : DumpState n} {e : DumpExit}
    (hm : getMemoryStateWithRock s.server.config.maxmemory m = some tofree)
    (h : dumpValueToRockIfNeeded w fuel cfg m s = some (.ok (e,u)))
    (he : e = .freed ∨ e = .cantFree) : ∃ server, s.server.lazyInit = .ok server ∧
      dumpLoop w fuel tofree (MAX_TRY_PICK_KEY_TIMES - 1)
        { s with server := server, turn := 0, memFreed := 0, deltas := [] } = some (.ok (e,u)) := by
  unfold dumpValueToRockIfNeeded at h
  split at h
  · cases h
    rcases he with he | he <;> cases he
  rw [hm] at h
  simp only at h
  split at h
  · cases h
  rename_i server hi
  split at h
  · cases h
    rcases he with he | he <;> cases he
  · exact ⟨server,hi,h⟩

/-- After its loop the function says what is true of the released memory, and the sum in `mem_freed`
is never above the true one, iff no sum of the differences on the way is negative. -/
theorem freed_iff {n : Nat} (w : DumpWorld n) (fuel tofree : Nat) (cfg : DumpConfig) (m : MemoryUse)
    (s u : DumpState n) (e : DumpExit)
    (hm : getMemoryStateWithRock s.server.config.maxmemory m = some tofree)
    (h : dumpValueToRockIfNeeded w fuel cfg m s = some (.ok (e,u)))
    (he : e = .freed ∨ e = .cantFree) :
    u.memFreed = accumulated u.deltas ∧ ((e = .freed → (tofree : Int) ≤ u.deltas.sum) ∧
        (∀ k, (accumulated (u.deltas.take k) : Int) ≤ (u.deltas.take k).sum) ↔
      ∀ k, 0 ≤ (u.deltas.take k).sum) := by
  obtain ⟨server,_,hloop⟩ := dumpValueToRockIfNeeded_loop hm h he
  obtain ⟨hacc,hfreed⟩ := dumpLoop_accumulated rfl hloop
  refine ⟨hacc,?_,?_⟩
  · rintro ⟨_,hle⟩ k
    exact (Int.natCast_nonneg _).trans (hle k)
  intro hnonneg
  have hle (k : Nat) : (accumulated (u.deltas.take k) : Int) ≤ (u.deltas.take k).sum := by
    have hk := hnonneg k
    rw [accumulated_eq]
    omega
  refine ⟨fun hef => ?_,hle⟩
  have hall := hle u.deltas.length
  rw [take_length,← hacc] at hall
  have hto := hfreed hef
  omega

def Sample.seen {n : Nat} (r : DumpExit × DumpState n) : DumpExit × List Int × Nat :=
  (r.1,r.2.deltas,r.2.memFreed)

noncomputable def Sample.oneDump (delta : Int) : Option (Except DumpFault (DumpExit × DumpState 0)) :=
  dumpValueToRockIfNeeded (world 0 [[97]] [delta]) 1 ⟨true,1⟩ idleMemory
    (pressed 0 ![[[97]]])

/-- The dump finds more memory in use after it than before: the sum wraps, and the function reports
success. -/
theorem negative_delta_reports_success :
    getMemoryStateWithRock 1 idleMemory = some (2 ^ 24 - 1) ∧
      ∃ r, oneDump (-1) = some (.ok r) ∧ seen r = (.freed,[-1],2 ^ 64 - 1) :=
  ⟨by decide,map_map_ok.mp (by decide)⟩

def Sample.deltas : List Int := [2 ^ 23,-5,2 ^ 23 + 4]

/-- The second dump takes memory, of which the third gives enough. -/
theorem freed_whole_delta : ∃ r, dumpValueToRockIfNeeded (world 0 [[97],[98],[99]] Sample.deltas) 1
      ⟨true,1⟩ idleMemory (pressed 0 ![[[97],[98],[99]]]) = some (.ok r) ∧
    r.2.deltas = Sample.deltas ∧ (2 ^ 24 - 1 : Int) ≤ r.2.deltas.sum := by
  obtain ⟨⟨e,u⟩,hr,hs⟩ : ∃ r, dumpValueToRockIfNeeded (world 0 [[97],[98],[99]] Sample.deltas) 1
      ⟨true,1⟩ idleMemory (pressed 0 ![[[97],[98],[99]]]) = some (.ok r) ∧
      seen r = (.freed,Sample.deltas,2 ^ 24 - 1) := map_map_ok.mp (by decide)
  obtain ⟨rfl,hd,_⟩ : e = .freed ∧ u.deltas = Sample.deltas ∧ u.memFreed = 2 ^ 24 - 1 := by
    simpa [seen] using hs
  refine ⟨_,hr,hd,((freed_iff _ 1 (2 ^ 24 - 1) ⟨true,1⟩ idleMemory _ u .freed (by decide) hr
    (.inl rfl)).2.mpr fun k => ?_).1 rfl⟩
  rw [hd]
  rcases k with _ | _ | _ | k <;> simp [Sample.deltas]

end RedRock
