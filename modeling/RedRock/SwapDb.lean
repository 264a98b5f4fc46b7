import RedRock.HotKeys

/-!
SWAPDB exchanges the dictionaries of two databases. The index of hot keys, the
waiting clients and the RocksDB instance stay with the database id.
-/

namespace RedRock
open Lib

/-- Hot keys are in memory with a value that can be dumped, and clients wait for
keys that are on disk. -/
def RedisDb.Describes (db : RedisDb) (dict : Dict Sds DbVal) : Prop :=
  Indexes DbVal.CanBeHot db.hotKeys dict ∧ ∀ key ∈ db.rockKeys, dict.lookup key = some .valueInRock

namespace Server
variable {n : Nat} (s : Server n) (i j : Fin (n+1)) (key : Sds)

def rockContent (d : Fin (n+1)) : Except Fault Content :=
  (s.restoreObjFromRocksdb d key).map Robj.content

def denote (d : Fin (n+1)) : DbVal → Except Fault Content
  | .mem o => .ok o.content
  | .valueInRock => s.rockContent key d

lemma logical_eq (d : Fin (n+1)) : s.logical d key = (s.look d key).map (s.denote key d) := rfl

lemma map_denote_eq_iff (val : Option DbVal) :
    val.map (s.denote key i) = val.map (s.denote key j) ↔
      (val = some .valueInRock → s.rockContent key i = s.rockContent key j) := by
  cases val with
  | none => simp
  | some val =>
    cases val with
    | mem | valueInRock => simp [denote]

lemma swapDb_swap_look :
    (s.dbSwapDatabases i j).look i = s.look j ∧ (s.dbSwapDatabases i j).look j = s.look i := by
  rw [swapDb_look]
  constructor
  · funext k
    by_cases hij : i = j
    all_goals simp [Store.apply,hij]
  funext k
  simp [Store.apply]

lemma swapDb_denote (d : Fin (n+1)) : (s.dbSwapDatabases i j).denote key d = s.denote key d := by
  rw [swapDb_eq]
  rfl

lemma swapDb_sets (d : Fin (n+1)) : ((s.dbSwapDatabases i j).db d).hotKeys = (s.db d).hotKeys ∧
    ((s.dbSwapDatabases i j).db d).rockKeys = (s.db d).rockKeys := by
  exact forall_swapDb (P := fun d db => db.hotKeys = (s.db d).hotKeys ∧
    db.rockKeys = (s.db d).rockKeys) (i := i) (j := j) (fun _ => ⟨rfl,rfl⟩) ⟨rfl,rfl⟩
    ⟨rfl,rfl⟩ d

lemma swapDb_dict : ((s.dbSwapDatabases i j).db i).dict = (s.db j).dict ∧
    ((s.dbSwapDatabases i j).db j).dict = (s.db i).dict := by
  by_cases hij : i = j
  · simp [dbSwapDatabases,hij]
  rw [swapDb_db s hij,swapDb_db s hij]
  simp [hij]

lemma describes_swapDb (d e : Fin (n+1))
    (hd : ((s.dbSwapDatabases i j).db d).dict = (s.db e).dict) :
    ((s.dbSwapDatabases i j).db d).Describes ((s.dbSwapDatabases i j).db d).dict ↔
      (s.db d).Describes (s.db e).dict := by
  obtain ⟨hh,hr⟩ := s.swapDb_sets i j d
  unfold RedisDb.Describes
  rw [hd,hh,hr]

/-- After SWAPDB each database holds what the other one held, and its sets
describe its keys, exactly if both RocksDB instances give the same for every key
that is on disk, and the sets of each database described the other's keys. -/
theorem swapdb_preserves_iff : ((∀ key, (s.dbSwapDatabases i j).logical i key = s.logical j key ∧
        (s.dbSwapDatabases i j).logical j key = s.logical i key) ∧
      ((s.dbSwapDatabases i j).db i).Describes ((s.dbSwapDatabases i j).db i).dict ∧
      ((s.dbSwapDatabases i j).db j).Describes ((s.dbSwapDatabases i j).db j).dict) ↔
    ((∀ key, isValueInRock (s.db i) key = true ∨ isValueInRock (s.db j) key = true →
        s.rockContent key i = s.rockContent key j) ∧
      (s.db i).Describes (s.db j).dict ∧ (s.db j).Describes (s.db i).dict) := by
  obtain ⟨hli,hlj⟩ := s.swapDb_swap_look i j
  obtain ⟨hdi,hdj⟩ := s.swapDb_dict i j
  refine and_congr (forall_congr' fun key => ?_) (and_congr ?_ ?_)
  · rw [logical_eq,logical_eq,logical_eq,logical_eq,swapDb_denote,swapDb_denote,
      hli,hlj,map_denote_eq_iff,map_denote_eq_iff,inRock_iff,inRock_iff]
    constructor
    · rintro ⟨hj,hi⟩ (h | h)
      · exact (hi h).symm
      · exact hj h
    intro h
    exact ⟨fun hj => h (.inr hj),fun hi => (h (.inl hi)).symm⟩
  · exact s.describes_swapDb i j i j hdi
  · exact s.describes_swapDb i j j i hdj

end Server

namespace Sample

def swapdb : Command := ⟨⟨.other,none,true,false⟩,[[119],[48],[49]]⟩

end Sample

open Sample

namespace Server

/-- `k1` is on disk and `k2` is hot in database 0. After SWAPDB 0 1 nothing is
found for `k1`, and `k2` is in the index of a database that does not have it. -/
theorem swapdb_loses_value : ∃ s : Server 1, (machine 1 Sample.config).Reachable s ∧
    s.logical 0 k1 = some (.ok (str 1).content) ∧
    (s.dbSwapDatabases 0 1).logical 1 k1 = some (.error .restoreObjFromRocksdb) ∧
    k2 ∈ ((s.dbSwapDatabases 0 1).db 0).hotKeys ∧
    k2 ∉ ((s.dbSwapDatabases 0 1).db 0).dict := by
  obtain ⟨s,hs,hobs⟩ := (machine 1 Sample.config).exists_run (halfStored [swapdb])
    (fun s => s.logical 0 k1 = some (.ok (str 1).content) ∧
      (s.dbSwapDatabases 0 1).logical 1 k1 = some (.error .restoreObjFromRocksdb) ∧
      k2 ∈ ((s.dbSwapDatabases 0 1).db 0).hotKeys ∧
      k2 ∉ ((s.dbSwapDatabases 0 1).db 0).dict) (by decide)
  exact ⟨s,⟨_,hs⟩,hobs⟩

end Server
end RedRock
