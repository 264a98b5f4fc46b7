import RedRock.Dataset

/-!
The dictionaries as plain maps: every keyspace operation does to them what the
operation of the same name does to a store.
-/

namespace RedRock
open Lib Store

namespace Server
variable {n : Nat} {s t u : Server n} {d : Fin (n+1)} {key : Sds}
variable {val : DbVal}

def look (s : Server n) : Store (Fin (n+1)) Sds DbVal := fun d key => (s.db d).dict.lookup key

lemma SameData.look (h : SameData s t) : t.look = s.look := by
  funext d key
  simp only [Server.look,h.dict]

lemma mem_dict_iff_look : key ∈ (s.db d).dict ↔ (s.look d key).isSome = true := by
  rw [look,AList.lookup_isSome]

section updDb
variable {f : RedisDb → RedisDb}

lemma look_updDb_same (s : Server n) (d : Fin (n+1)) (hf : ∀ db, (f db).dict = db.dict) :
    (s.updDb d f).look = s.look := by
  funext e k
  simp only [look,updDb_db]
  split
  · rw [hf]
  · rfl

lemma look_updDb_insert (s : Server n) (d : Fin (n+1))
    (hf : ∀ db, (f db).dict = db.dict.insert key val) :
    (s.updDb d f).look = s.look.set d key (some val) := by
  funext e k
  simp only [look,updDb_db,Store.set]
  by_cases he : e = d
  · subst he
    simp [hf,Dict.lookup_insert_ite]
  · simp [he]

lemma look_updDb_erase (s : Server n) (d : Fin (n+1))
    (hf : ∀ db, (f db).dict = db.dict.erase key) : (s.updDb d f).look = s.look.set d key none := by
  funext e k
  simp only [look,updDb_db,Store.set]
  by_cases he : e = d
  · subst he
    simp [hf,Dict.lookup_erase_ite]
  · simp [he]

end updDb

lemma dbAdd_look (h : s.dbAdd d key val = .ok t) : t.look = s.look.set d key (some val) := by
  rw [(dbAdd_ok.mp h).2]
  exact look_updDb_insert s d fun _ => addHotKey_dict _ _

lemma dbOverwrite_look (h : s.dbOverwrite d key val = .ok t) :
    t.look = s.look.set d key (some val) := by
  rw [(dbOverwrite_ok.mp h).2]
  exact look_updDb_insert s d fun _ => addHotKey_dict _ _

section
variable (s)

section
variable (d)

lemma dbSyncDelete_look (key : Sds) : (s.dbSyncDelete d key).look = s.look.set d key none := by
  refine look_updDb_erase s d fun db => ?_
  simp only
  rw [deleteHotKey_dict]

lemma dbAsyncDelete_look (key : Sds) : (s.dbAsyncDelete d key).look = s.look.set d key none :=
  look_updDb_erase s d fun _ => rfl

lemma dbDelete_look (key : Sds) : (s.dbDelete d key).look = s.look.set d key none := by
  rw [dbDelete_eq,dbSyncDelete_look]

lemma setExpire_look (key : Sds) (when : Option Int) :
    (s.setExpire d key when).look = s.look := by
  cases when with
  | none => rfl
  | some t => exact look_updDb_same s d (f := fun db => { db with expires := _ }) fun _ => rfl

end

end

lemma emptyOneDb_look (h : s.emptyOneDb d = .ok t) : t.look = s.look.apply (.clear d) := by
  obtain ⟨b,rfl,_⟩ := emptyOneDb_ok h
  funext e k
  simp only [look,updDb_db,apply]
  split
  · rfl
  · rfl

lemma emptyDbs_look {ds : List (Fin (n+1))} (h : s.emptyDbs ds = .ok t) (e : Fin (n+1))
    (k : Sds) : t.look e k = if e ∈ ds then none else s.look e k := by
  induction ds generalizing s with
  | nil =>
    cases h
    simp
  | cons d ds ih =>
    obtain ⟨u,hu,ht⟩ := bind_ok.mp h
    rw [ih ht,emptyOneDb_look hu]
    by_cases he : e ∈ ds
    · simp [he]
    · simp [he,apply]

lemma renameGeneric_look {src dst : Sds} {nx : Bool} (h : s.renameGeneric d src dst nx = .ok t) :
    t.look = s.look.apply (.rename d src dst nx) := by
  unfold renameGeneric at h
  simp only [apply]
  split at h
  · rename_i hl
    cases h
    simp only [look,hl]
  rename_i o hl
  have ho : s.look d src = some o := hl
  rw [ho]
  split at h
  · rename_i hsd
    cases h
    simp [hsd]
  rename_i hsd
  simp only [mem_dict_iff_look] at h
  split at h
  · rename_i hnx
    cases h
    simp [hsd,hnx.1,hnx.2]
  rename_i hnx
  obtain ⟨u,hu,ht⟩ := bind_ok.mp h
  rw [pure_ok] at ht
  have hn : ¬ (src = dst ∨ nx = true ∧ (s.look d dst).isSome = true) := by
    rintro (h | ⟨hn,hi⟩)
    · exact hsd h
    · exact hnx ⟨hi,hn⟩
  simp only [hn,if_false]
  rw [ht,dbDelete_look,setExpire_look,dbAdd_look hu]
  -- deleting the target first does not show once it is overwritten
  split
  · rw [dbDelete_look]
    funext e k
    simp only [Store.set]
    split
    · rfl
    split
    · rfl
    · rfl
  · rfl

lemma moveGeneric_look {src dst : Fin (n+1)} (h : s.moveGeneric src dst key = .ok t) :
    t.look = s.look.apply (.move src dst key) := by
  unfold moveGeneric at h
  simp only [apply]
  split at h
  · rename_i hsd
    cases h
    split
    · rfl
    · simp [hsd]
  rename_i hsd
  split at h
  · rename_i hl
    cases h
    simp only [look,hl]
  rename_i o hl
  have ho : s.look src key = some o := hl
  rw [ho]
  simp only [mem_dict_iff_look] at h
  split at h
  · rename_i hm
    cases h
    simp [hm]
  rename_i hm
  obtain ⟨u,hu,ht⟩ := bind_ok.mp h
  rw [pure_ok] at ht
  simp only [hsd,hm,or_self,if_false,Bool.false_eq_true]
  rw [ht,dbDelete_look,setExpire_look,dbAdd_look hu]

lemma swapDb_look (s : Server n) (i j : Fin (n+1)) :
    (s.dbSwapDatabases i j).look = s.look.apply (.swap i j) := by
  funext e k
  by_cases hij : i = j
  · subst hij
    simp only [look,dbSwapDatabases,if_true,apply]
    split
    · rename_i he
      rw [he]
      rfl
    · rfl
  simp only [look,swapDb_db s hij,apply]
  split
  · rfl
  split
  · rfl
  · rfl

lemma applyOp_look {o : KsOp n} (h : s.applyOp o = .ok u) :
    u.look = s.look.apply (o.toStore.map DbVal.mem) := by
  cases o with
  | dbAdd d key o => exact dbAdd_look h
  | dbOverwrite d key o => exact dbOverwrite_look h
  | modify d key o =>
    cases h
    exact look_updDb_insert s d fun _ => rfl
  | dbSyncDelete d key =>
    cases h
    exact dbSyncDelete_look s d key
  | dbAsyncDelete d key =>
    cases h
    exact dbAsyncDelete_look s d key
  | dbDelete d key =>
    cases h
    exact dbDelete_look s d key
  | emptyDb dbnum async =>
    funext e k
    cases dbnum with
    | some d | none =>
      rw [emptyDbs_look h]
      simp [KsOp.toStore,StoreOp.map,apply]
  | rename d src dst nx => exact renameGeneric_look h
  | move src dst key => exact moveGeneric_look h
  | swapdb i j =>
    cases h
    exact swapDb_look s i j

lemma initHotKeys_look (h : s.initHotKeys = .ok t) : t.look = s.look := by
  rw [(initHotKeys_ok.mp h).2.2]
  funext e k
  simp only [look,addHotKeys_dict]

end Server
end RedRock
