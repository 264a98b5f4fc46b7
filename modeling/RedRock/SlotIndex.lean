import RedRock.Basic
import RedRock.Lib.Rax
import RedRock.Lib.Dict

/-!
In cluster mode `slots_to_keys` lists the keys of database 0 by their hash slot, and
`slots_keys_count` counts them. The operations on single keys keep both up to date, and
`emptyDbGeneric` throws both away, whichever databases it was called for.
-/

namespace RedRock
open Lib List Function Dict

abbrev HashSlot : Type := Fin 16384

/-- The part of a key that is hashed: what stands between the first brace and the next
closing one, if that is not empty. -/
def hashTag (key : Sds) : Sds :=
  match key.dropWhile (· ≠ 123) with
  | [] => key
  | _ :: rest =>
    let tag := rest.takeWhile (· ≠ 125)
    if tag.length = rest.length ∨ tag = [] then key else tag

def keyHashSlot (crc16 : Bytes → BitVec 16) (key : Sds) : HashSlot :=
  ⟨(crc16 (hashTag key)).toNat % 16384,Nat.mod_lt _ (by decide)⟩

def slotBytes (h : HashSlot) : Bytes := [UInt8.ofNat (h / 256),UInt8.ofNat h]

def indexedKey (crc16 : Bytes → BitVec 16) (key : Sds) : Bytes :=
  slotBytes (keyHashSlot crc16 key) ++ key

/-- The counters are unsigned: below zero stands for what has wrapped around. -/
structure SlotServer (n : Nat) (V : Type) where
  db : Fin (n+1) → Dict Sds V
  slotsToKeys : Rax Bytes Unit
  slotsKeysCount : HashSlot → Int

namespace SlotServer
variable {n : Nat} {V : Type} (crc16 : Bytes → BitVec 16) (s : SlotServer n V)

def slotToKeyUpdateKey (key : Sds) (add : Bool) : SlotServer n V :=
  let hashslot := keyHashSlot crc16 key
  { s with
    slotsKeysCount := Function.update s.slotsKeysCount hashslot
      (s.slotsKeysCount hashslot + if add then 1 else -1)
    slotsToKeys :=
      if add then s.slotsToKeys.insert (indexedKey crc16 key) ()
      else s.slotsToKeys.remove (indexedKey crc16 key) }

def slotToKeyAdd (key : Sds) : SlotServer n V := s.slotToKeyUpdateKey crc16 key true

def slotToKeyDel (key : Sds) : SlotServer n V := s.slotToKeyUpdateKey crc16 key false

/-- `slotToKeyFlush` and `slotToKeyFlushAsync` differ in who frees the old tree. -/
def slotToKeyFlush : SlotServer n V := { s with slotsToKeys := ∅, slotsKeysCount := fun _ => 0 }

def setDict (d : Fin (n+1)) (dict : Dict Sds V) : SlotServer n V :=
  { s with db := Function.update s.db d dict }

def dbAdd (d : Fin (n+1)) (key : Sds) (val : V) : Except Fault (SlotServer n V) :=
  if key ∈ s.db d then .error .dbAdd
  else .ok ((s.setDict d ((s.db d).insert key val)).slotToKeyAdd crc16 key)

def dbOverwrite (d : Fin (n+1)) (key : Sds) (val : V) : Except Fault (SlotServer n V) :=
  if key ∈ s.db d then .ok (s.setDict d ((s.db d).insert key val)) else .error .dbOverwrite

def dbSyncDelete (d : Fin (n+1)) (key : Sds) : SlotServer n V :=
  if key ∈ s.db d then (s.setDict d ((s.db d).erase key)).slotToKeyDel crc16 key else s

def dbAsyncDelete (d : Fin (n+1)) (key : Sds) : SlotServer n V :=
  if key ∈ s.db d then (s.setDict d ((s.db d).erase key)).slotToKeyDel crc16 key else s

/-- The argument is `lazyfree_lazy_server_del`. -/
def dbDelete (lazy : Bool) (d : Fin (n+1)) (key : Sds) : SlotServer n V :=
  if lazy then s.dbAsyncDelete crc16 d key else s.dbSyncDelete crc16 d key

/-- `emptyDb` of one database or of all; the asynchronous form puts new dictionaries in the
place of the old ones. -/
def emptyDb (dbnum : Option (Fin (n+1))) : SlotServer n V :=
  slotToKeyFlush { s with db := fun d => if dbnum = none ∨ dbnum = some d then ∅ else s.db d }

def disklessLoadMakeBackups : (Fin (n+1) → Dict Sds V) × SlotServer n V :=
  (s.db,{ s with db := fun _ => ∅ })

/-- The keys that `rdbLoadRio` reads before it ends, well or not. -/
def rdbLoad : List (Fin (n+1) × Sds × V) → SlotServer n V → Except Fault (SlotServer n V)
  | [], s => .ok s
  | (d,key,val) :: rest, s => do
    let s ← s.dbAdd crc16 d key val
    rdbLoad rest s

/-- Freeing the backup is `emptyDbGeneric` as well. -/
def disklessLoadRestoreBackups (backup : Fin (n+1) → Dict Sds V) (restore : Bool) :
    SlotServer n V :=
  if restore then { s.emptyDb none with db := backup } else s.slotToKeyFlush

def disklessLoad (keys : List (Fin (n+1) × Sds × V)) (succeeds : Bool) :
    Except Fault (SlotServer n V) := do
  let (backup,s) := s.disklessLoadMakeBackups
  let s ← rdbLoad crc16 keys s
  return s.disklessLoadRestoreBackups backup (! succeeds)

/-- The loop of `delKeysInSlot`, which ends when the counter is zero. `none`: the iterator has
no key to give, or the loop has not ended after as many rounds as allowed. -/
def delKeysInSlotLoop (lazy : Bool) (hashslot : HashSlot) :
    Nat → Nat → SlotServer n V → Option (Nat × SlotServer n V)
  | 0, _, _ => none
  | fuel+1, j, s =>
    if s.slotsKeysCount hashslot = 0 then some (j,s)
    else
      match s.slotsToKeys.seekGE (slotBytes hashslot) with
      | none => none
      | some (indexed,_) =>
        delKeysInSlotLoop lazy hashslot fuel (j+1) (s.dbDelete crc16 lazy 0 (indexed.drop 2))

def delKeysInSlot (lazy : Bool) (hashslot : HashSlot) (fuel : Nat) :
    Option (Nat × SlotServer n V) :=
  delKeysInSlotLoop crc16 lazy hashslot fuel 0 s

end SlotServer

/-- In cluster mode `SELECT` and `MOVE` are refused, so every command is about database 0. -/
inductive SlotAct (n : Nat) (V : Type) where
  | dbAdd (key : Sds) (val : V)
  | dbOverwrite (key : Sds) (val : V)
  | dbSyncDelete (key : Sds)
  | dbAsyncDelete (key : Sds)
  | flushdb (async : Bool)
  | flushall (async : Bool)
  | disklessLoad (keys : List (Fin (n+1) × Sds × V)) (succeeds : Bool)

namespace SlotServer
variable {n : Nat} {V : Type} (crc16 : Bytes → BitVec 16)

def step (s : SlotServer n V) : SlotAct n V → Option (Except Fault (SlotServer n V))
  | .dbAdd key val => some (s.dbAdd crc16 0 key val)
  | .dbOverwrite key val => some (s.dbOverwrite 0 key val)
  | .dbSyncDelete key => some (.ok (s.dbSyncDelete crc16 0 key))
  | .dbAsyncDelete key => some (.ok (s.dbAsyncDelete crc16 0 key))
  | .flushdb _ => some (.ok (s.emptyDb (some 0)))
  | .flushall _ => some (.ok (s.emptyDb none))
  | .disklessLoad keys succeeds => some (s.disklessLoad crc16 keys succeeds)

end SlotServer

def slotServer (crc16 : Bytes → BitVec 16) (n : Nat) (V : Type) :
    Machine (SlotServer n V) (SlotAct n V) Fault where
  init := ⟨fun _ => ∅,∅,fun _ => 0⟩
  step := SlotServer.step crc16

section Keys
variable (crc16 : Bytes → BitVec 16)

lemma drop_indexedKey (key : Sds) : (indexedKey crc16 key).drop 2 = key := rfl

variable {crc16} in
lemma indexedKey_inj {key key' : Sds} : indexedKey crc16 key = indexedKey crc16 key' ↔ key = key' := by
  constructor
  · intro h
    rw [← drop_indexedKey crc16 key,h,drop_indexedKey]
  rintro rfl
  rfl

lemma slotBytes_inj {h h' : HashSlot} (he : slotBytes h = slotBytes h') : h = h' := by
  simp only [slotBytes,List.cons.injEq,and_true,← UInt8.toNat_inj,UInt8.toNat_ofNat'] at he
  have hh := h.isLt
  have hh' := h'.isLt
  apply Fin.ext
  omega

lemma slotBytes_of_between {h h' : HashSlot} {k k' : Bytes}
    (hlo : slotBytes h ≤ slotBytes h' ++ k) (hhi : slotBytes h' ++ k ≤ slotBytes h ++ k') :
    h' = h := by
  apply slotBytes_inj
  rw [← not_lt] at hlo hhi
  simp only [slotBytes,cons_append,nil_append,cons_lt_cons_iff,not_or,not_and,not_lt] at hlo hhi
  have hfst := le_antisymm hhi.1 hlo.1
  have hsnd := le_antisymm (hhi.2 hfst.symm).1 (hlo.2 hfst).1
  rw [slotBytes,slotBytes,hfst,hsnd]

end Keys

namespace SlotServer
variable {n : Nat} {V : Type} {crc16 : Bytes → BitVec 16} {s t : SlotServer n V} {key : Sds}
variable {keys : List (Fin (n+1) × Sds × V)} {val : V}

def keysIn (crc16 : Bytes → BitVec 16) (s : SlotServer n V) (h : HashSlot) : Nat :=
  (s.db 0).keys.countP (keyHashSlot crc16 · = h)

/-- The index has exactly the keys of database 0, and the counters count them. -/
structure Mirrors (crc16 : Bytes → BitVec 16) (s : SlotServer n V) : Prop where
  index : ∀ b, s.slotsToKeys.find b = some () ↔ ∃ key ∈ s.db 0, indexedKey crc16 key = b
  count : ∀ h, s.slotsKeysCount h = keysIn crc16 s h

lemma mirrors_of_empty (hdb : s.db 0 = ∅) (hi : s.slotsToKeys = ∅)
    (hc : s.slotsKeysCount = fun _ => 0) : Mirrors crc16 s := by
  constructor
  · intro b
    simp [hi,hdb]
  intro h
  simp [hc,keysIn,hdb]

lemma dbAdd_mirrors (hs : Mirrors crc16 s) (h : s.dbAdd crc16 0 key val = .ok t) :
    Mirrors crc16 t := by
  rw [dbAdd] at h
  split at h
  · cases h
  rename_i hkey
  cases h
  have hkeys : ((s.db 0).insert key val).keys = key :: (s.db 0).keys :=
    keys_insert_of_notMem hkey
  constructor
  · intro b
    simp only [slotToKeyAdd,slotToKeyUpdateKey,setDict,if_true,Rax.find_insert,
      update_self,AList.mem_insert,or_and_right,exists_or,exists_eq_left]
    split
    · simp [*]
    rename_i hb
    simp [hs.index,Ne.symm hb]
  intro h
  have hc := hs.count h
  simp only [keysIn,slotToKeyAdd,slotToKeyUpdateKey,setDict,update_self,hkeys,
    countP_cons,update_apply,if_true] at hc ⊢
  by_cases hh : h = keyHashSlot crc16 key
  · subst hh
    simp [hc]
  · simp [hh,Ne.symm hh,hc]

lemma dbOverwrite_mirrors (hs : Mirrors crc16 s) (h : s.dbOverwrite 0 key val = .ok t) :
    Mirrors crc16 t := by
  rw [dbOverwrite] at h
  split at h
  · rename_i hkey
    cases h
    constructor
    · intro b
      have hmem : ∀ k, k ∈ (s.db 0).insert key val ↔ k ∈ s.db 0 := by
        intro k
        rw [AList.mem_insert]
        exact or_iff_right_of_imp fun hk => hk ▸ hkey
      simp only [setDict,update_self,hmem,hs.index]
    intro h
    have hperm : ((s.db 0).insert key val).keys.Perm (s.db 0).keys := keys_insert_of_mem hkey
    have hc := hs.count h
    simp only [keysIn,setDict,update_self] at hc ⊢
    rw [hc,hperm.countP_eq]
  · cases h

lemma dbDelete_eq (lazy : Bool) : s.dbDelete crc16 lazy 0 key = s.dbSyncDelete crc16 0 key := by
  cases lazy with
  | false | true => rfl

lemma dbSyncDelete_mirrors (hs : Mirrors crc16 s) : Mirrors crc16 (s.dbSyncDelete crc16 0 key) := by
  rw [dbSyncDelete]
  split
  · rename_i hkey
    constructor
    · intro b
      simp only [slotToKeyDel,slotToKeyUpdateKey,setDict,Bool.false_eq_true,if_false,
        Rax.find_remove,update_self,AList.mem_erase]
      split
      · rename_i hb
        subst hb
        simp [indexedKey_inj]
      rename_i hb
      rw [hs.index]
      constructor
      · rintro ⟨k,hk,rfl⟩
        exact ⟨k,⟨fun he => hb (he ▸ rfl),hk⟩,rfl⟩
      rintro ⟨k,⟨_,hk⟩,rfl⟩
      exact ⟨k,hk,rfl⟩
    intro h
    have hc := hs.count h
    have hperm : (s.db 0).keys.Perm (key :: ((s.db 0).erase key).keys) :=
      keys_erase_perm hkey
    simp only [keysIn,slotToKeyDel,slotToKeyUpdateKey,setDict,update_self,
      hperm.countP_eq,countP_cons,update_apply,Bool.false_eq_true,
      if_false] at hc ⊢
    by_cases hh : h = keyHashSlot crc16 key
    · subst hh
      simp [hc]
    · simp [hh,Ne.symm hh,hc]
  · exact hs

lemma dbAdd_mem {d : Fin (n+1)} (h : s.dbAdd crc16 d key val = .ok t) (k : Sds) :
    k ∈ t.db 0 ↔ d = 0 ∧ k = key ∨ k ∈ s.db 0 := by
  rw [dbAdd] at h
  split at h
  · cases h
  cases h
  simp only [slotToKeyAdd,slotToKeyUpdateKey,setDict,update_apply]
  by_cases hd : d = 0
  · subst hd
    simp [AList.mem_insert]
  · simp [hd,Ne.symm hd]

lemma rdbLoad_mem (h : rdbLoad crc16 keys s = .ok t) (k : Sds) :
    k ∈ t.db 0 ↔ k ∈ s.db 0 ∨ ∃ x ∈ keys, x.1 = 0 ∧ x.2.1 = k := by
  induction keys generalizing s with
  | nil =>
    cases h
    simp
  | cons x keys ih =>
    obtain ⟨u,hu,h⟩ := bind_ok.mp h
    rw [ih h,dbAdd_mem hu]
    simp only [mem_cons,or_and_right,exists_or,exists_eq_left,@eq_comm _ k]
    tauto

lemma disklessLoad_ok {succeeds : Bool} (h : s.disklessLoad crc16 keys succeeds = .ok t) :
    t.slotsToKeys = ∅ ∧ t.slotsKeysCount = (fun _ => 0) ∧
      ∀ k, k ∈ t.db 0 ↔ if succeeds then ∃ x ∈ keys, x.1 = 0 ∧ x.2.1 = k else k ∈ s.db 0 := by
  obtain ⟨u,hu,ht⟩ := bind_ok.mp h
  cases ht
  cases succeeds with
  | true =>
    refine ⟨rfl,rfl,fun k => ?_⟩
    have hk := rdbLoad_mem hu k
    simpa [disklessLoadRestoreBackups,slotToKeyFlush,disklessLoadMakeBackups] using hk
  | false => exact ⟨rfl,rfl,fun k => Iff.rfl⟩

/-- A load that succeeds has no key for database 0, and one that fails has found that database
empty. -/
def loadsEmpty (s : SlotServer n V) : SlotAct n V → Prop
  | .disklessLoad keys true => ∀ x ∈ keys, x.1 ≠ 0
  | .disklessLoad _ false => (s.db 0).keys = []
  | _ => True

instance (s : SlotServer n V) (a : SlotAct n V) : Decidable (loadsEmpty s a) :=
  match a with
  | .disklessLoad keys true => inferInstanceAs (Decidable (∀ x ∈ keys, x.1 ≠ 0))
  | .disklessLoad _ false => inferInstanceAs (Decidable ((s.db 0).keys = []))
  | .dbAdd _ _ | .dbOverwrite _ _ | .dbSyncDelete _ | .dbAsyncDelete _ | .flushdb _ | .flushall _ =>
    inferInstanceAs (Decidable True)

lemma mirrors_of_flushed (hi : s.slotsToKeys = ∅) (hc : s.slotsKeysCount = fun _ => 0) :
    Mirrors crc16 s ↔ ∀ k, k ∉ s.db 0 := by
  constructor
  · intro hs k hk
    have hf := (hs.index (indexedKey crc16 k)).mpr ⟨k,hk,rfl⟩
    rw [hi] at hf
    cases hf
  intro hk
  exact mirrors_of_empty (eq_empty_of_forall_notMem _ hk) hi hc

lemma step_mirrors_iff {a : SlotAct n V} (hs : Mirrors crc16 s)
    (h : s.step crc16 a = some (.ok t)) : Mirrors crc16 t ↔ loadsEmpty s a := by
  cases a with
  | dbAdd key val => exact iff_of_true (dbAdd_mirrors hs (Option.some.inj h)) trivial
  | dbOverwrite key val => exact iff_of_true (dbOverwrite_mirrors hs (Option.some.inj h)) trivial
  | dbSyncDelete key | dbAsyncDelete key =>
    cases h
    exact iff_of_true (dbSyncDelete_mirrors hs) trivial
  | flushdb async | flushall async =>
    cases h
    exact iff_of_true (mirrors_of_empty (by simp [emptyDb,slotToKeyFlush]) rfl rfl) trivial
  | disklessLoad keys succeeds =>
    obtain ⟨hi,hc,hmem⟩ := disklessLoad_ok (Option.some.inj h)
    rw [mirrors_of_flushed hi hc]
    simp only [hmem]
    cases succeeds with
    | true =>
      simp only [if_true,loadsEmpty]
      constructor
      · intro hk x hx hd
        exact hk x.2.1 ⟨x,hx,hd,rfl⟩
      rintro hk k ⟨x,hx,hd,_⟩
      exact hk x hx hd
    | false =>
      simp only [Bool.false_eq_true,if_false,loadsEmpty]
      rw [eq_nil_iff_forall_not_mem]
      rfl

lemma seek_slot (hs : Mirrors crc16 s) {h : HashSlot} (hne : 0 < keysIn crc16 s h) :
    ∃ key ∈ s.db 0, keyHashSlot crc16 key = h ∧
      s.slotsToKeys.seekGE (slotBytes h) = some (indexedKey crc16 key,()) := by
  obtain ⟨k,hk,hslot⟩ := countP_pos_iff.mp hne
  rw [decide_eq_true_eq] at hslot
  have hf : s.slotsToKeys.find (indexedKey crc16 k) = some () := (hs.index _).mpr ⟨k,hk,rfl⟩
  have hle : slotBytes h ≤ indexedKey crc16 k := by
    rw [indexedKey,hslot,← not_lt]
    simp [slotBytes]
  obtain ⟨⟨b,u⟩,hb⟩ := Option.isSome_iff_exists.mp (Rax.seekGE_isSome hf hle)
  obtain ⟨hfind,hge,hmin⟩ := Rax.seekGE_some hb
  obtain ⟨key,hkey,rfl⟩ := (hs.index b).mp hfind
  have hhi : indexedKey crc16 key ≤ slotBytes h ++ k := by
    rw [← hslot]
    exact hmin _ _ hf hle
  exact ⟨key,hkey,slotBytes_of_between hge hhi,hb⟩

lemma dbSyncDelete_lookup (hkey : key ∈ s.db 0) (k : Sds) :
    ((s.dbSyncDelete crc16 0 key).db 0).lookup k = if k = key then none else (s.db 0).lookup k := by
  rw [dbSyncDelete,if_pos hkey]
  simp only [slotToKeyDel,slotToKeyUpdateKey,setDict,update_self,lookup_erase_ite]

lemma dbSyncDelete_keysIn (hkey : key ∈ s.db 0) :
    keysIn crc16 (s.dbSyncDelete crc16 0 key) (keyHashSlot crc16 key) + 1 =
      keysIn crc16 s (keyHashSlot crc16 key) := by
  have hperm : (s.db 0).keys.Perm (key :: ((s.db 0).erase key).keys) := keys_erase_perm hkey
  rw [dbSyncDelete,if_pos hkey]
  simp [keysIn,slotToKeyDel,slotToKeyUpdateKey,setDict,hperm.countP_eq]

lemma delKeysInSlotLoop_ok (lazy : Bool) (h : HashSlot) {fuel : Nat} (j : Nat)
    (hs : Mirrors crc16 s) (hfuel : keysIn crc16 s h < fuel) :
    ∃ t, delKeysInSlotLoop crc16 lazy h fuel j s = some (j + keysIn crc16 s h,t) ∧ Mirrors crc16 t ∧
      ∀ k, (t.db 0).lookup k = if keyHashSlot crc16 k = h then none else (s.db 0).lookup k := by
  induction fuel generalizing s j with
  | zero => omega
  | succ fuel ih =>
    have hcount := hs.count h
    rw [delKeysInSlotLoop]
    by_cases hz : keysIn crc16 s h = 0
    · rw [hz] at hcount
      refine ⟨s,by rw [if_pos (by simpa using hcount),hz,add_zero],hs,fun k => ?_⟩
      split
      · rename_i hk
        cases hl : (s.db 0).lookup k with
        | none => rfl
        | some v =>
          have hm : k ∈ s.db 0 := (mem_iff_lookup _ k).mpr ⟨v,hl⟩
          have hpos : 0 < keysIn crc16 s h := countP_pos_iff.mpr ⟨k,hm,by simpa using hk⟩
          omega
      · rfl
    have hne : ¬ s.slotsKeysCount h = 0 := by omega
    obtain ⟨key,hkey,rfl,hseek⟩ := seek_slot hs (Nat.pos_of_ne_zero hz)
    have hless : keysIn crc16 (s.dbSyncDelete crc16 0 key) (keyHashSlot crc16 key) + 1 =
        keysIn crc16 s (keyHashSlot crc16 key) := dbSyncDelete_keysIn hkey
    have hdel : Mirrors crc16 (s.dbSyncDelete crc16 0 key) := dbSyncDelete_mirrors hs
    obtain ⟨t,ht,hmt,hlook⟩ := ih (j+1) hdel (by omega)
    refine ⟨t,?_,hmt,fun k => ?_⟩
    · simp only [if_neg hne,hseek,drop_indexedKey,dbDelete_eq,ht]
      congr 2
      omega
    rw [hlook,dbSyncDelete_lookup hkey]
    by_cases hk : k = key
    · subst hk
      simp
    · simp [hk]

lemma init_mirrors : Mirrors crc16 (slotServer crc16 n V).init := mirrors_of_empty rfl rfl rfl

/-- As long as no diskless load ends with keys in database 0, the index is that of database 0
and `delKeysInSlot` removes the keys of a slot. -/
theorem slot_index_mirrors (crc16 : Bytes → BitVec 16) (as : List (SlotAct n V))
    (hg : (slotServer crc16 n V).Guarded loadsEmpty (slotServer crc16 n V).init as)
    (h : (slotServer crc16 n V).run as = some (.ok s)) :
    (∀ b, s.slotsToKeys.find b = some () ↔ ∃ key ∈ s.db 0, indexedKey crc16 key = b) ∧
    (∀ h, s.slotsKeysCount h = keysIn crc16 s h) ∧
    ∀ lazy h fuel, keysIn crc16 s h < fuel →
      ∃ t, s.delKeysInSlot crc16 lazy h fuel = some (keysIn crc16 s h,t) ∧
        ∀ k, (t.db 0).lookup k = if keyHashSlot crc16 k = h then none else (s.db 0).lookup k := by
  have hs : Mirrors crc16 s := (slotServer crc16 n V).guarded_invariant init_mirrors
    (fun s a t hs ha hst => (step_mirrors_iff hs hst).mpr ha) hg h
  refine ⟨hs.index,hs.count,fun lazy h fuel hfuel => ?_⟩
  obtain ⟨t,ht,_,hlook⟩ := delKeysInSlotLoop_ok lazy h 0 hs hfuel
  rw [zero_add] at ht
  exact ⟨t,ht,hlook⟩

/-- After a load that succeeds the index lacks the keys that were loaded, and the counter of
a slot wraps around when one of them is deleted. -/
theorem slot_index_lost : ∃ s : SlotServer 0 Unit, (slotServer (fun _ => 0) 0 Unit).run
        [.disklessLoad [(0,[107],())] true] = some (.ok s) ∧
      [107] ∈ s.db 0 ∧ s.slotsToKeys.find (indexedKey (fun _ => 0) [107]) = none ∧
      s.slotsKeysCount 0 = 0 ∧ (s.dbSyncDelete (fun _ => 0) 0 [107]).slotsKeysCount 0 = -1 := by
  exact ⟨_,rfl,by decide,rfl,rfl,by decide⟩

theorem slot_index_mirrors_flushed : ∃ s : SlotServer 1 Unit, (slotServer (fun _ => 5) 1 Unit).run
        [.dbAdd [97] (),.disklessLoad [(1,[98],())] true,.dbAdd [99] (),.dbAdd [100] (),
          .dbAsyncDelete [99]] = some (.ok s) ∧
      s.slotsKeysCount 5 = 1 ∧
      ∃ t, s.delKeysInSlot (fun _ => 5) true 5 2 = some (1,t) ∧ (t.db 0).lookup [100] = none := by
  refine Machine.exists_run_and _ (by decide) fun s hs hcount => ?_
  obtain ⟨_,hkeys,hdel⟩ :=
    slot_index_mirrors (fun _ => 5) _ (Machine.guarded_check _ _ _ _ (by decide)) hs
  rw [hkeys,Nat.cast_eq_one] at hcount
  obtain ⟨t,ht,hlook⟩ := hdel true 5 2 (by omega)
  exact ⟨t,by rw [ht,hcount],(hlook _).trans (if_pos (by decide))⟩

end SlotServer
end RedRock
