import Mathlib

/-!
What `rewriteAppendOnlyFileRio` does with the values it loads from RocksDB when some write to the
new file fails.
-/

namespace RedRock
open List Option

/-- `loads` says whether loading a value on disk gives one; `writes` are the results of the calls
of `rioWrite` for the key, up to its expire. -/
structure RewriteKey where
  inRock : Bool
  loads : Bool
  writes : List Bool

/-- `select` are the results of the calls of `rioWrite` for the SELECT. -/
structure RewriteDb where
  select : List Bool
  keys : List RewriteKey

/-- Loaded objects are numbered from zero; `released` are those given to `decrRefCount`. -/
structure Rewriter where
  rockVal : Option Nat
  loaded : Nat
  released : List Nat

namespace Rewriter

/-- `if (rockVal) decrRefCount(rockVal)`; the variable keeps its value. -/
def decrRefCount (s : Rewriter) : Rewriter :=
  { s with released := s.released ++ s.rockVal.toList }

def loadRockVal (k : RewriteKey) (s : Rewriter) : Rewriter :=
  if k.inRock then { s with rockVal := some s.loaded, loaded := s.loaded + 1 }
  else { s with rockVal := none }

/-- `none` is the failed assertion that the value could be loaded; the result is false where the
source goes to `werr`. -/
def rewriteKeys : List RewriteKey → Rewriter → Option (Rewriter × Bool)
  | [], s => some (s,true)
  | k :: ks, s =>
    if k.inRock && !k.loads then none
    else if k.writes.all id then rewriteKeys ks (s.loadRockVal k).decrRefCount
    else some (s.loadRockVal k,false)

def rewriteDbs : List RewriteDb → Rewriter → Option (Rewriter × Bool)
  | [], s => some (s,true)
  | db :: dbs, s =>
    if db.keys.isEmpty then rewriteDbs dbs s
    else if db.select.all id then
      match rewriteKeys db.keys s with
      | some (s,true) => rewriteDbs dbs s
      | r => r
    else some (s,false)

/-- The result says whether it is `C_OK`. -/
def rewriteAppendOnlyFileRio (dbs : List RewriteDb) : Option (Rewriter × Bool) :=
  (rewriteDbs dbs ⟨none,0,[]⟩).map fun (s,done) => (if done then s else s.decrRefCount,done)

end Rewriter

def RewriteDb.written (db : RewriteDb) : Bool :=
  db.keys.isEmpty || db.select.all id && db.keys.all (·.writes.all id)

/-- Whether the last of the keys is on disk, `b` if there is none. -/
def lastInRock (b : Bool) (ks : List RewriteKey) : Bool := ks.foldl (fun _ k => k.inRock) b

/-- A write of a SELECT fails, the first to do so, right after a key on disk. -/
def SelectFailsAfterRock (b : Bool) (dbs : List RewriteDb) : Prop :=
  ∃ pre db post, dbs = pre ++ db :: post ∧ pre.all (·.written) ∧ db.keys ≠ [] ∧
    db.select.all id = false ∧ lastInRock b (pre.flatMap (·.keys)) = true

lemma selectFailsAfterRock_cons {b : Bool} {db : RewriteDb} {dbs : List RewriteDb} :
    SelectFailsAfterRock b (db :: dbs) ↔ (db.keys ≠ [] ∧ db.select.all id = false ∧ b = true) ∨
        db.written = true ∧ SelectFailsAfterRock (lastInRock b db.keys) dbs := by
  constructor
  · rintro ⟨_ | ⟨d,pre⟩,db',post,hdbs,hpre,hne,hsel,hlast⟩ <;> cases hdbs
    · exact .inl ⟨hne,hsel,hlast⟩
    simp only [all_cons,Bool.and_eq_true] at hpre
    exact .inr ⟨hpre.1,pre,db',post,rfl,hpre.2,hne,hsel,(foldl_append ..).symm.trans hlast⟩
  rintro (⟨hne,hsel,hb⟩ | ⟨hdb,pre,db',post,rfl,hpre,hne,hsel,hlast⟩)
  · exact ⟨[],db,dbs,rfl,rfl,hne,hsel,hb⟩
  · exact ⟨db :: pre,db',post,rfl,by simp [hdb,hpre],hne,hsel,(foldl_append ..).trans hlast⟩

namespace Rewriter
variable {s t : Rewriter} {done : Bool}

def Clean (s : Rewriter) : Prop := s.released = range s.loaded

lemma loadRockVal_clean (hs : s.Clean) (k : RewriteKey) :
    (s.loadRockVal k).decrRefCount.Clean := by
  rw [Clean] at hs
  rw [loadRockVal]
  split <;> simp [Clean,decrRefCount,hs,range_succ]

lemma rewriteKeys_spec {ks : List RewriteKey} (hs : s.Clean)
    (h : rewriteKeys ks s = some (t,done)) :
    done = ks.all (·.writes.all id) ∧
      if done then t.Clean ∧ t.rockVal.isSome = lastInRock s.rockVal.isSome ks
      else t.decrRefCount.Clean := by
  induction ks generalizing s with
  | nil =>
    cases h
    exact ⟨rfl,hs,rfl⟩
  | cons k ks ih =>
    have hclean := loadRockVal_clean hs k
    rw [rewriteKeys] at h
    split_ifs at h with _ hw
    · have hrock : (s.loadRockVal k).decrRefCount.rockVal.isSome = k.inRock := by
        rw [loadRockVal]
        split <;> simp_all [decrRefCount]
      simpa [hw,lastInRock,hrock] using ih hclean h
    cases h
    simpa [hw] using hclean

lemma Clean.perm (h : s.Clean) : s.released.Perm (range s.loaded) := .of_eq h

lemma Clean.decrRefCount_perm_iff (h : s.Clean) :
    s.decrRefCount.released.Perm (range s.loaded) ↔ s.rockVal.isSome = false := by
  cases hr : s.rockVal with
  | none => simpa [decrRefCount,hr] using h.perm
  | some o =>
    rw [Clean] at h
    simp only [decrRefCount,hr,h,isSome_some,Bool.true_eq_false,iff_false]
    exact fun hp => by simpa using hp.length_eq

lemma rewriteDbs_released {dbs : List RewriteDb} (hs : s.Clean)
    (h : rewriteDbs dbs s = some (t,done)) :
    (if done then t else t.decrRefCount).released.Perm (range t.loaded) ↔
      ¬SelectFailsAfterRock s.rockVal.isSome dbs := by
  induction dbs generalizing s with
  | nil =>
    cases h
    simpa [SelectFailsAfterRock] using hs.perm
  | cons db dbs ih =>
    rw [selectFailsAfterRock_cons,RewriteDb.written]
    rw [rewriteDbs] at h
    split_ifs at h with hempty hsel
    · have hnil : db.keys = [] := by simpa using hempty
      simpa [hnil,lastInRock] using ih hs h
    · have hne : db.keys ≠ [] := by simpa using hempty
      rcases hk : rewriteKeys db.keys s with _ | ⟨u,_ | _⟩ <;> rw [hk] at h
      · cases h
      · cases h
        obtain ⟨hfail,hclean⟩ := rewriteKeys_spec hs hk
        have hperm : t.decrRefCount.released.Perm (range t.loaded) := Clean.perm hclean
        simpa [hne,hsel,← hfail] using hperm
      obtain ⟨hdone,hclean,hlast⟩ := rewriteKeys_spec hs hk
      simpa [hne,hsel,← hdone,hlast] using ih hclean h
    · -- the variable still holds the value of the last key before
      cases h
      have hne : db.keys ≠ [] := by simpa using hempty
      simpa [hne,hsel] using hs.decrRefCount_perm_iff

/-- Every loaded object is released once, unless the first failing write is one of a SELECT and
the last key before it is on disk. -/
theorem rewrite_released_iff {dbs : List RewriteDb}
    (h : rewriteAppendOnlyFileRio dbs = some (s,done)) :
    s.released.Perm (range s.loaded) ↔ ¬SelectFailsAfterRock false dbs := by
  obtain ⟨⟨t,d⟩,ht,h⟩ := map_eq_some_iff.mp h
  cases h
  have hiff := rewriteDbs_released (s := ⟨none,0,[]⟩) rfl ht
  cases done <;> exact hiff

end Rewriter

theorem select_failure_releases_twice : Rewriter.rewriteAppendOnlyFileRio
      [⟨[true,true,true,true],[⟨true,true,[true]⟩]⟩,⟨[false],[⟨false,true,[]⟩]⟩] =
        some (⟨some 0,1,[0,0]⟩,false) := rfl

theorem rewrite_released_key_fails :
    ∃ s, Rewriter.rewriteAppendOnlyFileRio [⟨[true,true,true,true],[⟨true,true,[true,false]⟩]⟩] =
      some (s,false) ∧ s.released.Perm (range s.loaded) := by
  have h : Rewriter.rewriteAppendOnlyFileRio
    [⟨[true,true,true,true],[⟨true,true,[true,false]⟩]⟩] = some (⟨some 0,1,[0]⟩,false) := rfl
  refine ⟨_,h,(Rewriter.rewrite_released_iff h).mpr ?_⟩
  simp [selectFailsAfterRock_cons,RewriteDb.written]

end RedRock
