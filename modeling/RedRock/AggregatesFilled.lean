import RedRock.Aggregates

namespace RedRock
open Lib List Option AggVal Finset AggCommand Dict

namespace AggDb
variable {E F : Type} {D : FloatType F} {L : FloatType E} {db db' : AggDb F} {key : Sds}
  {v : AggVal F}
variable {deleted : Nat} {rest : List Sds}

def FilledBut (key : Sds) (db : AggDb F) : Prop :=
  ∀ k v, k ≠ key → db.lookup k = some v → v.isEmpty = false

def Filled (db : AggDb F) : Prop := ∀ k v, db.lookup k = some v → v.isEmpty = false

lemma Filled.but (h : Filled db) : FilledBut key db := fun k v _ hk => h k v hk

lemma filled_empty : Filled (∅ : AggDb F) := by
  intro k v hk
  cases hk

lemma FilledBut.erase (h : FilledBut key db) : Filled (dbDelete db key) := by
  intro k v hk
  rw [dbDelete,lookup_erase_ite,ite_none_left_eq_some] at hk
  exact h k v hk.1 hk.2

lemma FilledBut.insert (h : FilledBut key db) (hne : v.isEmpty = false) :
    Filled (db.insert key v) := by
  intro k w hk
  rw [lookup_insert_ite] at hk
  split at hk
  · cases hk
    exact hne
  · exact h k w ‹_› hk

lemma Filled.insert (h : Filled db) (hne : v.isEmpty = false) : Filled (db.insert key v) :=
  h.but.insert hne

lemma insert_filled_iff (h : FilledBut key db) : Filled (db.insert key v) ↔ v.isEmpty = false := by
  constructor
  · intro hf
    exact hf key v (by rw [lookup_insert_ite,if_pos rfl])
  · exact h.insert

section Hash
variable {h : Dict Sds Sds} {field : Sds}

lemma hash_insert_isEmpty (h : Dict Sds Sds) (field value : Sds) :
    (hash (h.insert field value) : AggVal F).isEmpty = false := by
  simp [AggVal.isEmpty,AList.entries_insert]

lemma lookupOrCreate_some (hr : hashTypeLookupWriteOrCreate db key = some (db',h)) :
    db.lookup key = some (.hash h) ∧ db' = db ∨
      db.lookup key = none ∧ h = ∅ ∧ db' = db.insert key (.hash ∅) := by
  unfold hashTypeLookupWriteOrCreate at hr
  split at hr
  · cases hr
    exact .inr ⟨‹_›,rfl,rfl⟩
  · cases hr
    exact .inl ⟨‹_›,rfl⟩
  · cases hr

lemma lookupOrCreate_but (hf : Filled db) (hr : hashTypeLookupWriteOrCreate db key = some (db',h))
    : FilledBut key db' := by
  rcases lookupOrCreate_some hr with ⟨_,rfl⟩ | ⟨_,_,rfl⟩
  · exact hf.but
  intro k v hk hv
  rw [lookup_insert_ite,if_neg hk] at hv
  exact hf k v hv

lemma lookupOrCreate_of_mem (hf : Filled db)
    (hr : hashTypeLookupWriteOrCreate db key = some (db',h)) (hm : field ∈ h) : Filled db' := by
  rcases lookupOrCreate_some hr with ⟨_,rfl⟩ | ⟨_,rfl,_⟩
  · exact hf
  · exact absurd hm (AList.notMem_empty field)

lemma lookup_elim_none {α : Type} {x : α} {f : Sds → Option α}
    (hn : (h.lookup field).elim (some x) f = none) : field ∈ h := by
  rw [mem_iff_lookup]
  cases hl : h.lookup field with
  | none =>
    rw [hl] at hn
    cases hn
  | some v => exact ⟨v,rfl⟩

lemma hsetnxCommand_filled (hf : Filled db) (field value : Sds) :
    Filled (hsetnxCommand db key field value).1 := by
  unfold hsetnxCommand
  split
  · exact hf
  rename_i db' h hr
  split
  · exact lookupOrCreate_of_mem hf hr ‹_›
  · exact (lookupOrCreate_but hf hr).insert (hash_insert_isEmpty h field value)

lemma hashTypeSetAll_isEmpty (rest : List Sds) {created : Nat}
    (hne : (hash h : AggVal F).isEmpty = false) :
    (hash (hashTypeSetAll rest h created).1 : AggVal F).isEmpty = false := by
  fun_induction hashTypeSetAll rest h created with
  | case1 field value rest h created ih => exact ih (hash_insert_isEmpty h field value)
  | case2 => exact hne

lemma hsetCommand_filled (hf : Filled db) (hmset : Bool) (hlen : 2 ≤ rest.length) :
    Filled (hsetCommand hmset db key rest).1 := by
  unfold hsetCommand
  split
  · exact hf
  split
  · exact hf
  rename_i db' h hr
  refine (lookupOrCreate_but hf hr).insert ?_
  match rest, hlen with
  | field :: value :: rest, _ =>
    exact hashTypeSetAll_isEmpty rest (hash_insert_isEmpty h field value)

lemma hincrbyCommand_filled (hf : Filled db) (field incr : Sds) :
    Filled (hincrbyCommand db key field incr).1 := by
  unfold hincrbyCommand
  split
  · exact hf
  rename_i i _
  split
  · exact hf
  rename_i db' h hr
  split
  · exact lookupOrCreate_of_mem hf hr (lookup_elim_none ‹_›)
  rename_i oldvalue hold
  split
  · rename_i hover
    -- a field that is missing counts as zero, and no sum with zero overflows
    have hmem : field ∈ h := by
      rw [mem_iff_lookup]
      cases hl : h.lookup field with
      | none =>
        rw [hl] at hold
        cases hold
        omega
      | some v => exact ⟨v,rfl⟩
    exact lookupOrCreate_of_mem hf hr hmem
  · exact (lookupOrCreate_but hf hr).insert (hash_insert_isEmpty h field _)

def finiteSum (L : FloatType E) (db : AggDb F) (key incr : Sds) : Bool :=
  db.lookup key |>.elim
    ((L.getFloatFromObject incr).all fun x => ! (L.isnan (L.add L.zero x) || L.isinf (L.add L.zero x)))
    fun _ => true

lemma finiteSum_none (hk : db.lookup key = none) {incr : Sds} {x : E}
    (hx : L.getFloatFromObject incr = some x) :
    finiteSum L db key incr = ! (L.isnan (L.add L.zero x) || L.isinf (L.add L.zero x)) := by
  simp [finiteSum,hk,hx]

lemma hincrbyfloatCommand_filled_iff (hf : Filled db) (field incr : Sds) :
    Filled (hincrbyfloatCommand L db key field incr).1 ↔ finiteSum L db key incr = true := by
  unfold hincrbyfloatCommand
  split
  · rename_i hx
    have hfin : finiteSum L db key incr = true := by
      simp only [finiteSum,hx]
      cases db.lookup key <;> rfl
    simp [hf,hfin]
  rename_i x hx
  cases hr : hashTypeLookupWriteOrCreate db key with
  | none =>
    have hfin : finiteSum L db key incr = true := by
      unfold hashTypeLookupWriteOrCreate at hr
      unfold finiteSum
      cases hk : db.lookup key with
      | none =>
        rw [hk] at hr
        cases hr
      | some v => rfl
    simp [hf,hfin]
  | some r =>
    obtain ⟨db',h⟩ := r
    rcases lookupOrCreate_some hr with ⟨hk,rfl⟩ | ⟨hk,rfl,rfl⟩
    · have hfin : finiteSum L db' key incr = true := by simp [finiteSum,hk]
      simp only [hfin,iff_true]
      split
      · exact hf
      split
      · exact hf
      · exact hf.insert (hash_insert_isEmpty h field _)
    have hz : (((∅ : Dict Sds Sds).lookup field).elim (some L.zero) L.string2ld) = some L.zero :=
      rfl
    rw [finiteSum_none hk hx]
    simp only [hz]
    split
    · rename_i hinf
      rw [insert_filled_iff hf.but,hinf]
      simp [AggVal.isEmpty]
    rename_i hinf
    rw [Bool.not_eq_true] at hinf
    simp only [hinf,Bool.not_false,iff_true]
    exact (lookupOrCreate_but hf hr).insert (hash_insert_isEmpty ∅ field _)

lemma hashTypeDeleteAll_isEmpty (fields : List Sds)
    (hne : (hash h : AggVal F).isEmpty = false)
    (hkept : (hashTypeDeleteAll fields h deleted).2.2 = false) :
    (hash (hashTypeDeleteAll fields h deleted).1 : AggVal F).isEmpty = false := by
  fun_induction hashTypeDeleteAll fields h deleted with
  | case1 h deleted => exact hne
  | case2 h deleted field rest hm he => cases hkept
  | case3 h deleted field rest hm he ih =>
    refine ih ?_ hkept
    simpa [AggVal.isEmpty] using he
  | case4 h deleted field rest hm ih => exact ih hne hkept

lemma hdelCommand_filled (hf : Filled db) (fields : List Sds) :
    Filled (hdelCommand db key fields).1 := by
  unfold hdelCommand
  split
  · exact hf
  · rename_i h hk
    simp only
    split
    · exact hf.but.erase
    rename_i hkept
    rw [Bool.not_eq_true] at hkept
    exact hf.insert (hashTypeDeleteAll_isEmpty fields (hf key _ hk) hkept)
  · exact hf

end Hash

section Set
variable {r : Outcome F} {draws : List Sds} {xs : Finset Sds}

lemma set_isEmpty_iff : (AggVal.set xs : AggVal F).isEmpty = false ↔ xs ≠ ∅ := by
  simp [AggVal.isEmpty]

lemma subset_setTypeAddAll (eles : List Sds) (xs : Finset Sds) (added : Nat) :
    xs ⊆ (setTypeAddAll eles xs added).1 := by
  fun_induction setTypeAddAll eles xs added with
  | case1 xs added => exact Subset.refl xs
  | case2 ele rest xs added ih => exact (subset_insert ele xs).trans ih

lemma setTypeAddAll_ne (ele : Sds) (rest : List Sds) (xs : Finset Sds) (added : Nat) :
    (setTypeAddAll (ele :: rest) xs added).1 ≠ ∅ := by
  have hm : ele ∈ (setTypeAddAll (ele :: rest) xs added).1 := by
    rw [setTypeAddAll]
    exact subset_setTypeAddAll _ _ _ (mem_insert_self ele xs)
  exact ne_empty_of_mem hm

lemma setTypeRemoveAll_ne (eles : List Sds) (hne : xs ≠ ∅)
    (hkept : (setTypeRemoveAll eles xs deleted).2.2 = false) :
    (setTypeRemoveAll eles xs deleted).1 ≠ ∅ := by
  fun_induction setTypeRemoveAll eles xs deleted with
  | case1 xs deleted => exact hne
  | case2 xs deleted ele rest hm he => cases hkept
  | case3 xs deleted ele rest hm he ih => exact ih he hkept
  | case4 xs deleted ele rest hm ih => exact ih hne hkept

lemma drawAll_card (draws : List Sds) {xs left : Finset Sds} (h : drawAll draws xs = some left) :
    left.card + draws.length = xs.card := by
  induction draws generalizing xs with
  | nil =>
    cases h
    rfl
  | cons ele rest ih =>
    rw [drawAll,ite_none_right_eq_some] at h
    have hrest := ih h.2
    have hcard := card_erase_of_mem h.1
    have hpos := card_pos.mpr ⟨ele,h.1⟩
    rw [length_cons]
    omega

section
variable (hf : Filled db)
include hf

lemma saddCommand_filled {eles : List Sds} (hne : eles ≠ []) :
    Filled (saddCommand db key eles).1 := by
  obtain ⟨ele,rest,rfl⟩ := exists_cons_of_ne_nil hne
  unfold saddCommand
  split
  · exact hf.insert (set_isEmpty_iff.mpr (setTypeAddAll_ne ele rest ∅ 0))
  · exact hf.insert (set_isEmpty_iff.mpr (setTypeAddAll_ne ele rest _ 0))
  · exact hf

lemma sremCommand_filled (eles : List Sds) : Filled (sremCommand db key eles).1 := by
  unfold sremCommand
  split
  · exact hf
  · rename_i xs hk
    simp only
    split
    · exact hf.but.erase
    rename_i hkept
    rw [Bool.not_eq_true] at hkept
    have hne := setTypeRemoveAll_ne eles (set_isEmpty_iff.mp (hf key _ hk)) hkept
    exact hf.insert (set_isEmpty_iff.mpr hne)
  · exact hf

lemma smoveSet_filled (src dst ele : Sds) (srcset dstset : Finset Sds) :
    Filled (smoveSet db src dst ele srcset dstset).1 := by
  have hdst : (set (insert ele dstset) : AggVal F).isEmpty = false :=
    set_isEmpty_iff.mpr (insert_ne_empty ele dstset)
  unfold smoveSet
  split
  · exact hf
  split
  · exact hf
  simp only
  split
  · exact hf.but.erase.insert hdst
  rename_i hsrc
  exact (hf.insert (set_isEmpty_iff.mpr hsrc)).insert hdst

lemma smoveCommand_filled (src dst ele : Sds) : Filled (smoveCommand db src dst ele).1 := by
  unfold smoveCommand
  split
  · exact hf
  · exact smoveSet_filled hf src dst ele _ _
  · exact smoveSet_filled hf src dst ele _ _
  · exact hf

lemma spopWithCountCommand_filled {count : Sds}
    (h : spopWithCountCommand draws db key count = some r) : Filled r.1 := by
  unfold spopWithCountCommand at h
  split at h
  · cases h
    exact hf
  rename_i l _
  split at h
  · cases h
    exact hf
  split at h
  · cases h
    exact hf
  · rename_i xs hk
    simp only at h
    split at h
    · cases h
      exact hf
    split at h
    · cases h
      exact hf.but.erase
    rename_i hzero hlt
    split at h
    · -- the elements drawn are those that are popped
      rw [ite_none_right_eq_some,map_eq_some_iff] at h
      obtain ⟨hlen,left,hd,rfl⟩ := h
      have hcard := drawAll_card draws hd
      refine hf.insert (set_isEmpty_iff.mpr (card_pos.mp ?_).ne_empty)
      omega
    -- the elements drawn are those that stay
    rw [ite_none_right_eq_some,map_eq_some_iff] at h
    obtain ⟨hlen,left,_,rfl⟩ := h
    refine hf.insert (set_isEmpty_iff.mpr ?_)
    intro he
    rw [toFinset_eq_empty_iff] at he
    subst he
    rw [length_nil] at hlen
    omega
  cases h
  exact hf

lemma spopOne_filled (h : spopOne draws db key = some r) : Filled r.1 := by
  unfold spopOne at h
  split at h
  · cases h
    exact hf
  · split at h
    · rw [map_eq_some_iff] at h
      obtain ⟨left,_,rfl⟩ := h
      simp only
      split
      · exact hf.but.erase
      · exact hf.insert (set_isEmpty_iff.mpr ‹_›)
    · cases h
  cases h
  exact hf

lemma spopCommand_filled {draws rest : List Sds}
    (h : spopCommand draws db key rest = some r) : Filled r.1 := by
  unfold spopCommand at h
  split at h
  · exact spopOne_filled hf h
  · exact spopWithCountCommand_filled hf h
  cases h
  exact hf

lemma storeSet_filled (dstkey : Sds) (dstset : Finset Sds) :
    Filled (storeSet db dstkey dstset).1 := by
  unfold storeSet
  simp only
  split
  · rename_i hcard
    exact hf.but.erase.insert (set_isEmpty_iff.mpr (card_pos.mp hcard).ne_empty)
  · exact hf.but.erase

lemma sinterstoreCommand_filled (dstkey : Sds) (keys : List Sds) :
    Filled (sinterstoreCommand db dstkey keys).1 := by
  unfold sinterstoreCommand
  split
  · exact hf.but.erase
  · exact hf
  · exact storeSet_filled hf dstkey _

lemma sunionDiff_filled
    (op : List (Sds × Option (Finset Sds)) → Finset Sds) (dstkey : Sds) (keys : List Sds) :
    Filled (sunionDiffGenericCommand op db dstkey keys).1 := by
  unfold sunionDiffGenericCommand
  split
  · exact hf
  · exact storeSet_filled hf dstkey _

end

end Set

section Zset
variable {zs : List (F × Sds)} {flags : ZaddFlags} {z : ZaddState F}

lemma zset_isEmpty_iff : (AggVal.zset zs : AggVal F).isEmpty = false ↔ zs ≠ [] := by
  simp [AggVal.isEmpty]

lemma zslInsert_ne (score : F) (ele : Sds) (zs : List (F × Sds)) :
    zslInsert D score ele zs ≠ [] := by
  cases zs with
  | nil => simp [zslInsert]
  | cons z zs =>
    rw [zslInsert]
    split
    · simp
    · simp

lemma zsetAdd_ne {zs zs' : List (F × Sds)} {score newscore : F} {ele : Sds}
    (h : zsetAdd D flags zs score ele = .updated zs' newscore ∨ zsetAdd D flags zs score ele = .added zs' newscore)
    : zs' ≠ [] := by
  unfold zsetAdd at h
  split at h
  · simp at h
  split at h
  · rename_i curscore _ _
    split at h
    · simp at h
    simp only at h
    generalize (if flags.incr = true then D.add score curscore else score) = sum at h
    split at h
    · simp at h
    split at h
    · simp at h
    simp only [ZaddRes.updated.injEq,reduceCtorEq,or_false] at h
    exact h.1 ▸ zslInsert_ne sum ele _
  split at h
  · simp at h
  simp only [ZaddRes.added.injEq,reduceCtorEq,false_or] at h
  exact h.1 ▸ zslInsert_ne score ele _

lemma zaddLoop_ne (flags : ZaddFlags) (pairs : List (F × Sds)) (hne : z.zs ≠ []) :
    (zaddLoop D flags pairs z).1.zs ≠ [] := by
  induction pairs generalizing z with
  | nil => exact hne
  | cons p pairs ih =>
    rw [zaddLoop]
    split
    · exact hne
    · exact ih hne
    · exact ih hne
    · exact ih (zsetAdd_ne (.inl ‹_›))
    · exact ih (zsetAdd_ne (.inr ‹_›))

lemma zaddLoop_first (hxx : flags.xx = false) {score : F} (hscore : D.isnan score = false)
    (ele : Sds) (pairs : List (F × Sds)) (hz : z.zs = []) :
    (zaddLoop D flags ((score,ele) :: pairs) z).1.zs ≠ [] := by
  have hadd : zsetAdd D flags z.zs score ele = .added [(score,ele)] score := by
    simp [zsetAdd,hz,hxx,hscore,zslInsert]
  rw [zaddLoop,hadd]
  exact zaddLoop_ne flags pairs (cons_ne_nil _ _)

lemma getFloatFromObject_isnan {o : Sds} {x : F} (h : D.getFloatFromObject o = some x) :
    D.isnan x = false := by
  unfold FloatType.getFloatFromObject at h
  simp only [ite_none_left_eq_some,Bool.or_eq_true,not_or,Bool.not_eq_true,some.injEq] at h
  obtain ⟨⟨_,hnan⟩,rfl⟩ := h
  exact hnan

lemma zaddPairs_cons {pairs : List (F × Sds)} (hlen : ¬ rest.length % 2 = 1) (hne : rest ≠ [])
    (h : zaddPairs D rest = some pairs) :
    ∃ score ele tail, pairs = (score,ele) :: tail ∧ D.isnan score = false := by
  match rest with
  | [] => exact absurd rfl hne
  | [x] => simp at hlen
  | score :: ele :: rest =>
    rw [zaddPairs] at h
    split at h
    · cases h
    rename_i x hx
    rw [map_eq_some_iff] at h
    obtain ⟨tail,_,rfl⟩ := h
    exact ⟨x,ele,tail,rfl,getFloatFromObject_isnan hx⟩

lemma zaddGenericCommand_filled (hf : Filled db) (incr : Bool) (args : List Sds) :
    Filled (zaddGenericCommand D incr db key args).1 := by
  unfold zaddGenericCommand
  cases ho : zaddOptions ⟨false,false,false,incr⟩ args with
  | mk flags rest =>
    simp only
    split
    · exact hf
    rename_i hrest
    rw [not_or] at hrest
    split
    · exact hf
    split
    · exact hf
    split
    · exact hf
    rename_i pairs hpairs
    split
    · split
      · exact hf
      rename_i hxx
      rw [Bool.not_eq_true] at hxx
      obtain ⟨score,ele,tail,rfl,hscore⟩ := zaddPairs_cons hrest.1 hrest.2 hpairs
      exact hf.insert (zset_isEmpty_iff.mpr (zaddLoop_first hxx hscore ele tail rfl))
    · rename_i zs hk
      have hne : zs ≠ [] := zset_isEmpty_iff.mp (hf key _ hk)
      exact hf.insert (zset_isEmpty_iff.mpr (zaddLoop_ne flags pairs hne))
    · exact hf

lemma zsetDelAll_ne (eles : List Sds) (hne : zs ≠ [])
    (hkept : (zsetDelAll eles zs deleted).2.2 = false) : (zsetDelAll eles zs deleted).1 ≠ [] := by
  induction eles generalizing zs deleted with
  | nil => exact hne
  | cons ele eles ih =>
    rw [zsetDelAll] at hkept ⊢
    split at hkept
    · cases hkept
    rename_i z left hleft
    exact ih (cons_ne_nil z left) hkept

lemma zremCommand_filled (hf : Filled db) (eles : List Sds) :
    Filled (zremCommand db key eles).1 := by
  unfold zremCommand
  split
  · exact hf
  · rename_i zs hk
    simp only
    split
    · exact hf.but.erase
    rename_i hkept
    rw [Bool.not_eq_true] at hkept
    have hne := zsetDelAll_ne eles (zset_isEmpty_iff.mp (hf key _ hk)) hkept
    exact hf.insert (zset_isEmpty_iff.mpr hne)
  · exact hf

lemma zremrangeGenericCommand_filled (hf : Filled db) (type : ZRangeType) (min max : Sds) :
    Filled (zremrangeGenericCommand D type db key min max).1 := by
  unfold zremrangeGenericCommand
  split
  · exact hf
  split
  · exact hf
  · split
    · exact hf
    · exact hf.but.erase
    · exact hf.insert rfl
  · exact hf

end Zset
end AggDb

namespace AggServer
variable {n : Nat} {E F : Type} {D : FloatType F} {L : FloatType E} {s t : AggServer n F}
open AggDb
variable {a : AggAct n}

def Filled (s : AggServer n F) : Prop := ∀ d, AggDb.Filled (s.dbs d)

def sumsFinite (L : FloatType E) (s : AggServer n F) (a : AggAct n) : Bool :=
  match a.cmd, a.args with
  | .hincrbyfloat, [key,_,incr] => finiteSum L (s.dbs a.db) key incr
  | _, _ => true

lemma proc_filled_iff {r : Outcome F} (hs : s.Filled) (harity : a.cmd.arityFits a.args = true)
    (h : proc D L a.draws (s.dbs a.db) a.cmd a.args = some r) :
    AggDb.Filled r.1 ↔ sumsFinite L s a = true := by
  obtain ⟨d,cmd,args,draws⟩ := a
  have hf : AggDb.Filled (s.dbs d) := hs d
  simp only at h harity
  unfold proc at h
  split at h
  all_goals try cases h
  · refine iff_of_true (hsetCommand_filled hf false ?_) rfl
    simp [arityFits,arity] at harity
    omega
  · refine iff_of_true (hsetCommand_filled hf true ?_) rfl
    simp [arityFits,arity] at harity
    omega
  · exact iff_of_true (hsetnxCommand_filled hf _ _) rfl
  · exact iff_of_true (hincrbyCommand_filled hf _ _) rfl
  · exact hincrbyfloatCommand_filled_iff hf _ _
  · exact iff_of_true (hdelCommand_filled hf _) rfl
  · refine iff_of_true (saddCommand_filled hf ?_) rfl
    rintro rfl
    simp [arityFits,arity] at harity
  · exact iff_of_true (sremCommand_filled hf _) rfl
  · exact iff_of_true (smoveCommand_filled hf _ _ _) rfl
  · exact iff_of_true (spopCommand_filled hf h) rfl
  · exact iff_of_true (sinterstoreCommand_filled hf _ _) rfl
  · exact iff_of_true (sunionDiff_filled hf _ _ _) rfl
  · exact iff_of_true (sunionDiff_filled hf _ _ _) rfl
  · exact iff_of_true (zaddGenericCommand_filled hf _ _) rfl
  · exact iff_of_true (zaddGenericCommand_filled hf _ _) rfl
  · exact iff_of_true (zremCommand_filled hf _) rfl
  all_goals exact iff_of_true (zremrangeGenericCommand_filled hf _ _ _) rfl

lemma filled_update {d : Fin (n+1)} {db : AggDb F} {reply : Option (AggReply F)} (hs : s.Filled) :
    Filled ⟨Function.update s.dbs d db,reply⟩ ↔ AggDb.Filled db := by
  constructor
  · intro h
    have hd := h d
    simpa using hd
  intro h d'
  by_cases hd : d' = d
  · subst hd
    simpa using h
  · simpa [hd] using hs d'

lemma step_filled_iff (hs : s.Filled) (hfit : a.cmd.arityFits a.args = true)
    (h : s.step D L a = some (.ok t)) : t.Filled ↔ sumsFinite L s a = true := by
  rw [step,if_pos hfit,map_eq_some_iff] at h
  obtain ⟨r,hr,he⟩ := h
  cases he
  rw [filled_update hs]
  exact proc_filled_iff hs hfit hr

lemma step_filled (hs : s.Filled) (ha : sumsFinite L s a = true) (h : s.step D L a = some (.ok t))
    : t.Filled := by
  by_cases hfit : a.cmd.arityFits a.args = true
  · exact (step_filled_iff hs hfit h).mpr ha
  rw [step,if_neg hfit] at h
  cases h
  exact hs

lemma init_filled : (aggServer D L n).init.Filled := fun _ => filled_empty

/-- No key holds an empty aggregate as long as no `HINCRBYFLOAT` creates its hash for a sum that
is infinite or not a number. -/
theorem no_empty_aggregate (D : FloatType F) (L : FloatType E) (as : List (AggAct n))
    (hg : (aggServer D L n).Guarded (fun s a => sumsFinite L s a = true) (aggServer D L n).init as)
    (h : (aggServer D L n).run as = some (.ok s)) :
    ∀ d key v, (s.dbs d).lookup key = some v → v.isEmpty = false := by
  have hf : s.Filled := (aggServer D L n).guarded_invariant init_filled
    (fun s a t hs ha hst => step_filled hs ha hst) hg h
  exact hf

/-- Integers with an infinity, read from a numeral or from `inf`. -/
inductive WholeFloat where
  | fin (i : Int)
  | inf
  | nan
  deriving DecidableEq

def WholeFloat.add : WholeFloat → WholeFloat → WholeFloat
  | .nan, _ => .nan
  | _, .nan => .nan
  | .inf, _ => .inf
  | _, .inf => .inf
  | .fin a, .fin b => .fin (a + b)

def wholeFloat : FloatType WholeFloat where
  ofInt := .fin
  add := WholeFloat.add
  lt
    | .fin a, .fin b => a < b
    | .fin _, .inf => true
    | _, _ => false
  eq
    | .fin a, .fin b => a = b
    | .inf, .inf => true
    | _, _ => false
  isnan x := x = .nan
  isinf x := x = .inf
  strto s := if s = [105,110,102] then (.inf,3,false) else
    match string2ll s with
    | some i => (.fin i,s.length,false)
    | none => (.fin 0,0,false)
  print
    | .fin i => sdsfromlonglong i
    | .inf => [105,110,102]
    | .nan => [110,97,110]
  add_inf a b h := by
    cases a <;> cases b <;> simp_all [WholeFloat.add]

/-- `HINCRBYFLOAT k f inf` replies with an error and leaves an empty hash. -/
theorem empty_hash_after_hincrbyfloat : ∃ s, (aggServer wholeFloat wholeFloat 0).run
        [⟨0,.hincrbyfloat,[[107],[102],[105,110,102]],[]⟩] = some (.ok s) ∧
      (s.reply = some (.error "-ERR increment would produce NaN or Infinity")) ∧
      ∃ v, (s.dbs 0).lookup [107] = some v ∧ v.isEmpty = true := by
  exact ⟨_,rfl,rfl,_,rfl,rfl⟩

/-- A hash that is created, a set that loses its last element to another one, and a sorted set
that is emptied. -/
theorem no_empty_aggregate_example : ∃ s, (aggServer wholeFloat wholeFloat 0).run
        [⟨0,.hincrbyfloat,[[104],[102],[53]],[]⟩,⟨0,.sadd,[[115],[97]],[]⟩,
          ⟨0,.smove,[[115],[116],[97]],[]⟩,⟨0,.zadd,[[122],[49],[97]],[]⟩,
          ⟨0,.zremrangebyrank,[[122],[48],[45,49]],[]⟩] = some (.ok s) ∧
      (s.dbs 0).keys = [[116],[104]] ∧
      ∀ d key v, (s.dbs d).lookup key = some v → v.isEmpty = false := by
  refine Machine.exists_run_and _ (by decide) fun s hs _ => ?_
  exact no_empty_aggregate wholeFloat wholeFloat _ (Machine.guarded_check _ _ _ _ (by decide)) hs

end AggServer
end RedRock
