import RedRock.DumpLoop
import RedRock.PoolRuns

/-!
Whether `dumpValueToRockIfNeeded` returns. The index has to have a key when it is filled, and a key
that the loop may pick has to be one that can be written to disk.
-/

namespace RedRock
open Lib List Server Candidate Sample DumpState
variable {key : Sds} {l rest : List Candidate}

structure Server.LazyIndex {n : Nat} (s : Server n) : Prop where
  sound : s.HotSound
  complete : s.WhenHot RedisDb.HotComplete
  lazy : s.HotLazy

def Server.HasHot {n : Nat} (s : Server n) : Prop :=
  ∃ d key val, (s.db d).dict.lookup key = some val ∧ val.CanBeHot

def Server.filled {n : Nat} (s : Server n) : Server n :=
  if s.alreadyInitHotKeys then s
  else { s with alreadyInitHotKeys := true
                db := fun d => addHotKeys (s.db d).dict.entries (s.db d) }

def Server.Unstorable {n : Nat} (s : Server n) (d : Fin (n+1)) (key : Sds) : Prop :=
  ∃ o, (s.db d).dict.lookup key = some (.mem o) ∧ isValueSuitForDumpRock (.mem o) = true ∧
    key ∉ (s.db d).rockKeys ∧ (key = [] ∨ o.type = .module)

def DumpWorld.Productive {n : Nat} (w : DumpWorld n) (k : Nat) : Prop :=
  ∀ hot : Fin (n+1) → Finset Sds, (∃ d, hot d ≠ ∅) → ∃ d, w.samples k hot d ≠ []

def DumpWorld.Fair {n : Nat} (w : DumpWorld n) : Prop := ∀ k, ∃ k', k ≤ k' ∧ w.Productive k'

section
variable {n : Nat} {s t : Server n} {d : Fin (n+1)} {key : Sds}
variable {val : DbVal}

lemma Server.LazyIndex.of_empty (hi : s.alreadyInitHotKeys = false) (he : ∀ d, s.hot d = ∅) :
    s.LazyIndex :=
  ⟨fun h => absurd (hi.symm.trans h) Bool.false_ne_true,
    fun h => absurd (hi.symm.trans h) Bool.false_ne_true,fun _ => he⟩

lemma Server.LazyIndex.mem_dict (h : s.LazyIndex) (hi : s.alreadyInitHotKeys = true)
    (hk : key ∈ s.hot d) : key ∈ (s.db d).dict :=
  Indexes.mem (h.sound hi d) hk

lemma Server.LazyIndex.mem_hot (h : s.LazyIndex) (hi : s.alreadyInitHotKeys = true)
    (hl : (s.db d).dict.lookup key = some val) (hv : val.CanBeHot) : key ∈ s.hot d :=
  Covers.mem (h.complete hi d) hl hv

lemma canBeHot_of_suit (h : isValueSuitForDumpRock val = true) : val.CanBeHot := by
  cases val with
  | valueInRock => cases h
  | mem o =>
    simp only [isValueSuitForDumpRock,Bool.and_eq_true,decide_eq_true_eq] at h
    refine ⟨h.1,?_⟩
    rw [h.2]
    decide

lemma Server.LazyIndex.dumpValToRock (h : s.LazyIndex) (hi : s.alreadyInitHotKeys = true)
    (ht : s.dumpValToRock d key = .ok t) : t.LazyIndex :=
  ⟨HotSound.dumpValToRock h.sound ht,HotComplete.dumpValToRock h.complete ht,
    HotLazy.dumpValToRock hi ht⟩

lemma Server.dumpVal_init (ht : s.dumpValToRock d key = .ok t) :
    t.alreadyInitHotKeys = s.alreadyInitHotKeys := by
  obtain ⟨o,buf,_,_,_,_,_,rfl⟩ := dumpVal_ok.mp ht
  rfl

lemma Server.Unstorable.of_dump {e : Fin (n+1)} {k : Sds} (ht : s.dumpValToRock d key = .ok t)
    (h : t.Unstorable e k) : s.Unstorable e k := by
  obtain ⟨o,buf,_,_,_,_,_,rfl⟩ := dumpVal_ok.mp ht
  obtain ⟨o',hl,hs,hk,hbad⟩ := h
  refine ⟨o',?_,hs,?_,hbad⟩
  · simp only [updDb_db] at hl
    split at hl
    · rename_i he
      rw [Dict.lookup_insert_ite] at hl
      split at hl
      · cases hl
      · exact hl
    · exact hl
  simp only [updDb_db] at hk
  split at hk
  · exact hk
  · exact hk

lemma Server.LazyIndex.dump_ok (h : s.LazyIndex) (hi : s.alreadyInitHotKeys = true)
    (hl : (s.db d).dict.lookup key = some val) (hs : isValueSuitForDumpRock val = true)
    (hk : key ∉ (s.db d).rockKeys) :
    (∃ t, s.dumpValToRock d key = .ok t) ↔ ¬ s.Unstorable d key := by
  cases val with
  | valueInRock => cases hs
  | mem o =>
    have hh : key ∈ (s.db d).hotKeys := h.mem_hot hi hl (canBeHot_of_suit hs)
    have hs' := hs
    simp only [isValueSuitForDumpRock,Bool.and_eq_true,decide_eq_true_eq] at hs'
    constructor
    · rintro ⟨t,ht⟩ ⟨o',hl',_,_,hbad⟩
      obtain ⟨o₁,buf,hl₁,_,hser,hne,_⟩ := dumpVal_ok.mp ht
      cases hl'.symm.trans hl₁
      exact hbad.elim hne (serObject_ok_iff.mp ⟨buf,hser⟩).2
    intro hn
    have hgood : key ≠ [] ∧ o.type ≠ .module := by
      rw [← not_or]
      exact fun hbad => hn ⟨o,hl,hs,hk,hbad⟩
    obtain ⟨buf,hser⟩ := serObject_ok_iff.mpr ⟨hs'.1,hgood.2⟩
    exact ⟨_,dumpVal_ok.mpr ⟨o,buf,hl,hs'.2,hser,hgood.1,hh,rfl⟩⟩

lemma Server.lazyInit_ok_iff (h : s.LazyIndex) :
    s.lazyInit = .ok t ↔ (s.alreadyInitHotKeys = true ∨ s.HasHot) ∧ t = s.filled := by
  unfold lazyInit filled
  by_cases hi : s.alreadyInitHotKeys = true
  · rw [if_pos hi,if_pos hi]
    constructor
    · intro ht
      cases ht
      exact ⟨.inl hi,rfl⟩
    rintro ⟨_,rfl⟩
    rfl
  have hempty := h.lazy (Bool.eq_false_of_not_eq_true hi)
  rw [if_neg hi,if_neg hi,initHotKeys_ok]
  have hhot : (∃ d, (addHotKeys (s.db d).dict.entries (s.db d)).hotKeys ≠ ∅) ↔ s.HasHot := by
    constructor
    · rintro ⟨d,hd⟩
      obtain ⟨key,hkey⟩ := Finset.nonempty_iff_ne_empty.mpr hd
      have hsound : (addHotKeys (s.db d).dict.entries (s.db d)).HotSound := by
        refine addHotKeys_hotSound ?_ fun x hx => AList.mem_lookup_iff.mpr hx
        unfold RedisDb.HotSound
        rw [hempty d]
        exact Indexes.empty _ _
      obtain ⟨val,hl,hv⟩ := hsound key hkey
      rw [addHotKeys_dict] at hl
      exact ⟨d,key,val,hl,hv⟩
    rintro ⟨d,key,val,hl,hv⟩
    have hmem : key ∈ (addHotKeys (s.db d).dict.entries (s.db d)).hotKeys :=
      mem_addHotKeys (s.db d).dict.nodupKeys (AList.mem_lookup_iff.mp hl) hv
    exact ⟨d,Finset.ne_empty_of_mem hmem⟩
  rw [hhot]
  constructor
  · rintro ⟨_,hh,ht⟩
    exact ⟨.inr hh,ht⟩
  rintro ⟨hh,ht⟩
  exact ⟨hempty,hh.resolve_left hi,ht⟩

lemma Server.LazyIndex.lazyInit (h : s.LazyIndex) (ht : s.lazyInit = .ok t) :
    t.LazyIndex ∧ t.alreadyInitHotKeys = true := by
  unfold Server.lazyInit at ht
  split at ht
  · rename_i hi
    cases ht
    exact ⟨h,hi⟩
  have hinit : t.alreadyInitHotKeys = true := by
    obtain ⟨_,_,rfl⟩ := initHotKeys_ok.mp ht
    rfl
  refine ⟨⟨HotSound.initHotKeys ht,HotComplete.initHotKeys ht,fun hf => ?_⟩,hinit⟩
  rw [hinit] at hf
  cases hf

end

section
variable {n : Nat} {w : DumpWorld n}
variable {s : DumpState n} {d : Fin (n+1)} {samples : List (Sds × Nat)} {c : Candidate}
  {l : List Candidate} {policy : MaxmemoryPolicy} {keydict : Dict Sds DbVal}
  {best : Option Candidate} {t : IdleClock} {idle : Nat} {fuel : Nat}

def roundCandidates (s : Server n) (samples : Fin (n+1) → List (Sds × Nat))
    (ds : List (Fin (n+1))) : List Candidate :=
  ds.flatMap fun d =>
    if s.hot d = ∅ then [] else (samples d).map fun x => ⟨x.1,d.val,x.2⟩

lemma populateDb_eq {dict : Dict Sds DbVal} (h : ∀ x ∈ samples, x.1 ∈ dict)
    (pool : List Candidate) :
    populateDb d dict samples pool = .ok ((samples.map fun x => mk x.1 d.val x.2).foldl
      (offer Candidate.idle RKPOOL_SIZE) pool) := by
  induction samples generalizing pool with
  | nil => rfl
  | cons x samples ih =>
    rw [populateDb,if_pos (h x mem_cons_self),ih (fun y hy => h y (mem_cons_of_mem x hy))]
    rfl

lemma mem_of_rockIdle (h : t.rockIdle policy keydict key = .ok idle) : key ∈ keydict := by
  unfold IdleClock.rockIdle at h
  split at h
  · cases h
  rename_i o hl
  exact (Dict.mem_iff_lookup _ _).mpr ⟨o,hl⟩

lemma candidates_of_idle {idle : Sds → Except PoolFault Nat}
    (h : ∀ x ∈ samples, idle x.1 = .ok x.2) (dbid : Nat) :
    (samples.map Prod.fst).mapM (fun key => (idle key).map fun i => mk key dbid i) =
      .ok (samples.map fun x => ⟨x.1,dbid,x.2⟩) := by
  induction samples with
  | nil => rfl
  | cons x samples ih =>
    rw [map_cons,mapM_cons,h x mem_cons_self,ih fun y hy => h y (mem_cons_of_mem x hy)]
    rfl

/-- The slots that `rockPoolPopulate` fills stand for the candidates of a round. -/
theorem rockPoolPopulate_rep (z : Zmalloc) {p : Pool} {buffers : List SdsPtr} (hb : buffers.Nodup)
    (hr : p.Rep RKPOOL_SIZE buffers l) (hk : ∀ x ∈ samples, x.1.length < 2 ^ 31)
    (hi : ∀ x ∈ samples, t.rockIdle policy keydict x.1 = .ok x.2) :
    ∃ q l', rockPoolPopulate z t policy keydict d.val (samples.map Prod.fst) p = .ok q ∧
      populateDb d keydict samples l = .ok l' ∧ q.Rep RKPOOL_SIZE buffers l' := by
  have hshort : ∀ key ∈ samples.map Prod.fst, key.length < 2 ^ 31 := by
    intro key hkey
    obtain ⟨x,hx,rfl⟩ := mem_map.mp hkey
    exact hk x hx
  obtain ⟨q,hq,hrep⟩ := poolPopulate_rep z RKPOOL_CACHED_SDS_SIZE hb hr (by decide) hshort
    (candidates_of_idle hi d.val)
  exact ⟨q,_,hq,populateDb_eq (fun x hx => mem_of_rockIdle (hi x hx)) l,hrep⟩

/-- A better key comes to a full pool: the others are shifted, and a buffer changes its slot. -/
theorem rockPoolPopulate_aged : ∃ p q l', rockPoolPopulate bump clock .allkeysLru aged 0
      (replicate 16 [98]) (poolAlloc bump RKPOOL_CACHED_SDS_SIZE RKPOOL_SIZE ∅) = .ok p ∧
    rockPoolPopulate bump clock .allkeysLru aged 0 [[97]] p = .ok q ∧
    populateDb (0 : Fin 1) aged [([97],6000)] (replicate 16 ⟨[98],0,3000⟩) = .ok l' ∧
      q.Rep RKPOOL_SIZE (poolBuffers bump ∅) l' := by
  have hb := poolBuffers_nodup bump ∅
  have hidle : ∀ x ∈ (replicate 16 ([98],3000) : List (Sds × Nat)),
    clock.rockIdle .allkeysLru aged x.1 = .ok x.2 := by decide
  have hi : ∀ x ∈ ([([97],6000)] : List (Sds × Nat)),
    clock.rockIdle .allkeysLru aged x.1 = .ok x.2 := by decide
  obtain ⟨p,l,hp,hl,hrep⟩ := rockPoolPopulate_rep (d := (0 : Fin 1)) bump hb
    (poolAlloc_rep _ _ _ ∅) (by decide) hidle
  have hfull : populateDb (0 : Fin 1) aged (replicate 16 ([98],3000)) [] =
    .ok (replicate 16 ⟨[98],0,3000⟩) := by decide
  cases hfull.symm.trans hl
  obtain ⟨q,l',h⟩ := rockPoolPopulate_rep (d := (0 : Fin 1)) bump hb hrep (by decide) hi
  exact ⟨p,q,l',hp,h⟩

lemma populateDbs_eq {s : Server n} {samples : Fin (n+1) → List (Sds × Nat)}
    (h : ∀ d, ∀ x ∈ samples d, x.1 ∈ (s.db d).dict) (ds : List (Fin (n+1)))
    (pool : List Candidate) : populateDbs s samples ds pool =
      .ok ((roundCandidates s samples ds).foldl (offer Candidate.idle RKPOOL_SIZE) pool) := by
  induction ds generalizing pool with
  | nil => rfl
  | cons d ds ih =>
    rw [populateDbs,roundCandidates,flatMap_cons,foldl_append]
    by_cases hd : s.hot d = ∅
    · rw [if_pos hd,if_pos hd,ih]
      rfl
    rw [if_neg hd,if_neg hd,populateDb_eq (h d)]
    exact ih _

lemma Candidate.db_mk (key : Sds) (d : Fin (n+1)) (idle : Nat) :
    (mk key d.val idle).db = d := by
  simp [db]

lemma mem_roundCandidates {s : Server n} {samples : Fin (n+1) → List (Sds × Nat)}
    {ds : List (Fin (n+1))} (h : c ∈ roundCandidates s samples ds) :
    ∃ x ∈ samples c.db, c.key = x.1 := by
  obtain ⟨d,_,hc⟩ := mem_flatMap.mp h
  split at hc
  · cases hc
  obtain ⟨x,hx,rfl⟩ := mem_map.mp hc
  refine ⟨x,?_,rfl⟩
  rw [db_mk]
  exact hx

lemma pickBest_some {s : Server n} (hc : c ∈ l) (hk : c.key ∈ (s.db c.db).dict) :
    ∃ b rest, pickBest s l = (some b,rest) := by
  induction l with
  | nil => cases hc
  | cons a l ih =>
    rw [pickBest]
    split
    · exact ⟨a,l,rfl⟩
    rename_i ha
    rcases mem_cons.mp hc with rfl | hc
    · exact absurd hk ha
    · exact ih hc

lemma pickBest_mem {s : Server n} {b : Candidate} (h : pickBest s l = (some b,rest)) :
    b.key ∈ (s.db b.db).dict := by
  induction l with
  | nil => cases h
  | cons a l ih =>
    rw [pickBest] at h
    split at h
    · rename_i ha
      cases h
      exact ha
    · exact ih h

lemma pickBest_none {s : Server n} (h : pickBest s l = (none,rest)) : rest = [] := by
  induction l with
  | nil =>
    cases h
    rfl
  | cons a l ih =>
    rw [pickBest] at h
    split at h
    · cases h
    · exact ih h

def DumpState.filledPool (w : DumpWorld n) (s : DumpState n) : List Candidate :=
  (roundCandidates s.server (w.samples s.round s.server.hot) (finRange (n+1))).foldl
    (offer Candidate.idle RKPOOL_SIZE) s.pool

lemma selectBest_succ (h : ∀ d, ∀ key ∈ s.server.hot d, key ∈ (s.server.db d).dict) (fuel : Nat) :
    selectBest w (fuel + 1) s = if ∀ d, s.server.hot d = ∅ then
        some (.ok (none,{ s with pool := s.filledPool w, round := s.round + 1 }))
      else
        match pickBest s.server (s.filledPool w).reverse with
        | (some c,rest) =>
          some (.ok (some c,{ s with pool := rest.reverse, round := s.round + 1 }))
        | (none,rest) => selectBest w fuel { s with pool := rest.reverse, round := s.round + 1 } := by
  have hsamples : ∀ d, ∀ x ∈ w.samples s.round s.server.hot d, x.1 ∈ (s.server.db d).dict :=
    fun d x hx => h d x.1 (w.samples_hot _ _ _ _ hx)
  have hpop := populateDbs_eq hsamples (finRange (n+1)) s.pool
  rw [selectBest,hpop]
  rfl

def HotInDict (s : Server n) : Prop := ∀ d, ∀ key ∈ s.hot d, key ∈ (s.db d).dict

lemma selectBest_mem {s t : DumpState n} (h : selectBest w fuel s = some (.ok (some c,t))) :
    c.key ∈ (s.server.db c.db).dict := by
  induction fuel generalizing s with
  | zero => cases h
  | succ fuel ih =>
    rw [selectBest] at h
    split at h
    · cases h
    split at h
    · cases h
    split at h
    · rename_i hpick
      cases h
      exact pickBest_mem hpick
    have hmem := ih h
    exact hmem

lemma selectBest_mono {r : Except DumpFault (Option Candidate × DumpState n)}
    (h : selectBest w fuel s = some r) {fuel' : Nat} (hle : fuel ≤ fuel') :
    selectBest w fuel' s = some r := by
  induction fuel generalizing s fuel' with
  | zero => cases h
  | succ fuel ih =>
    obtain ⟨fuel',rfl⟩ : ∃ k, fuel' = k + 1 := ⟨fuel' - 1,by omega⟩
    have hle' : fuel ≤ fuel' := Nat.le_of_succ_le_succ hle
    rw [selectBest] at h ⊢
    split at h
    · exact h
    split at h
    · rename_i hempty
      rw [if_pos hempty]
      exact h
    rename_i hempty
    rw [if_neg hempty]
    split at h
    · exact h
    · exact ih h hle'

lemma selectBest_productive (hh : HotInDict s.server) (hp : w.Productive s.round)
    (hpool : s.pool = []) (fuel : Nat) : ∃ r, selectBest w (fuel + 1) s = some (.ok r) := by
  rw [selectBest_succ hh]
  by_cases hempty : ∀ d, s.server.hot d = ∅
  · exact ⟨_,if_pos hempty⟩
  rw [if_neg hempty]
  obtain ⟨d,hd⟩ := hp s.server.hot (not_forall.mp hempty)
  have hhot : s.server.hot d ≠ ∅ := by
    obtain ⟨x,hx⟩ := exists_mem_of_ne_nil _ hd
    exact Finset.ne_empty_of_mem (w.samples_hot _ _ _ x hx)
  have hround : roundCandidates s.server (w.samples s.round s.server.hot) (finRange (n+1)) ≠
      [] := by
    intro hnil
    have hd' := (flatMap_eq_nil_iff.mp hnil) d (mem_finRange d)
    rw [if_neg hhot,map_eq_nil_iff] at hd'
    exact hd hd'
  have hnil : IsTop idle RKPOOL_SIZE [] [] := .self Pairwise.nil (Nat.zero_le _)
  have htop := hnil.offers
    (roundCandidates s.server (w.samples s.round s.server.hot) (finRange (n+1)))
  have hne : s.filledPool w ≠ [] := by
    have hlen := htop.length
    rw [filledPool,hpool]
    intro hnil
    rw [hnil,nil_append] at hlen
    have hpos := length_pos_of_ne_nil hround
    simp only [length_nil,RKPOOL_SIZE] at hlen
    omega
  obtain ⟨c,hc⟩ := exists_mem_of_ne_nil _ hne
  have hcand : c ∈ roundCandidates s.server (w.samples s.round s.server.hot)
      (finRange (n+1)) := by
    rw [filledPool,hpool] at hc
    exact (offers_mem hc).resolve_left not_mem_nil
  obtain ⟨x,hx,hkey⟩ := mem_roundCandidates hcand
  have hdict : c.key ∈ (s.server.db c.db).dict := by
    rw [hkey]
    exact hh c.db x.1 (w.samples_hot _ _ _ x hx)
  obtain ⟨b,rest,hpick⟩ := pickBest_some (mem_reverse.mpr hc) hdict
  rw [hpick]
  exact ⟨_,rfl⟩

lemma selectBest_of_empty (hh : HotInDict s.server) (hpool : s.pool = []) {m : Nat}
    (hp : w.Productive (s.round + m)) : ∃ r, selectBest w (m + 1) s = some (.ok r) := by
  induction m generalizing s with
  | zero => exact selectBest_productive hh hp hpool 0
  | succ m ih =>
    rw [selectBest_succ hh]
    split
    · exact ⟨_,rfl⟩
    split
    · exact ⟨_,rfl⟩
    rename_i rest hpick
    refine ih hh ?_ ?_
    · rw [pickBest_none hpick]
      rfl
    rw [add_assoc,add_comm 1 m]
    exact hp

lemma selectBest_returns (hw : w.Fair) (hh : HotInDict s.server) :
    ∃ fuel r, selectBest w fuel s = some (.ok r) := by
  obtain ⟨k,hle,hk⟩ := hw (s.round + 1)
  obtain ⟨m,rfl⟩ := Nat.exists_eq_add_of_le hle
  refine ⟨m + 1 + 1,?_⟩
  rw [selectBest_succ hh]
  split
  · exact ⟨_,rfl⟩
  split
  · exact ⟨_,rfl⟩
  rename_i rest hpick
  refine selectBest_of_empty (s := { s with pool := rest.reverse, round := s.round + 1 }) hh ?_ hk
  rw [pickBest_none hpick]
  rfl

def Suitable (s : Server n) (pick : Fin (n+1) × Sds) : Prop :=
  ∃ val, (s.db pick.1).dict.lookup pick.2 = some val ∧ isValueSuitForDumpRock val = true

lemma isSuit_ok {s : Server n} (h : key ∈ (s.db d).dict) :
    ∃ b, isSuit s d key = .ok b ∧ (b = true → Suitable s (d,key)) := by
  obtain ⟨val,hl⟩ := (Dict.mem_iff_lookup _ _).mp h
  refine ⟨isValueSuitForDumpRock val,?_,fun hb => ⟨val,hl,hb⟩⟩
  rw [isSuit,hl]

lemma keepSuit_ok {s : Server n} (h : ∀ c, best = some c → c.key ∈ (s.db c.db).dict) :
    ∃ r, keepSuit s best = .ok r ∧ ∀ pick, r = some pick → Suitable s pick := by
  cases best with
  | none => exact ⟨none,rfl,fun _ hr => nomatch hr⟩
  | some c =>
    obtain ⟨b,hb,hsuit⟩ := isSuit_ok (h c rfl)
    refine ⟨if b then some (c.db,c.key) else none,?_,?_⟩
    · rw [keepSuit,hb]
      rfl
    intro pick hr
    split at hr
    · cases hr
      exact hsuit ‹_›
    · cases hr

lemma randomPick_ok {s : Server n} (hh : HotInDict s) (turn i next : Nat) :
    ∃ r, randomPick w turn s i next = .ok r ∧ ∀ pick, r.1 = some pick → Suitable s pick := by
  induction i generalizing next with
  | zero => exact ⟨_,rfl,fun _ hr => nomatch hr⟩
  | succ i ih =>
    rw [randomPick]
    by_cases hempty : s.hot (Fin.ofNat (n+1) ((next + 1) % 2 ^ 32)) = ∅
    · rw [if_pos hempty]
      exact ih _
    rw [if_neg hempty]
    obtain ⟨b,hb,hsuit⟩ := isSuit_ok
      (hh _ _ (w.random_hot turn (Fin.ofNat (n+1) ((next + 1) % 2 ^ 32)) _
        (Finset.nonempty_iff_ne_empty.mpr hempty)))
    rw [hb]
    cases b with
    | false => exact ih _
    | true =>
      refine ⟨_,rfl,fun pick hr => ?_⟩
      cases hr
      exact hsuit rfl

lemma orRandom_ok (hh : HotInDict s.server) {best : Option (Fin (n+1) × Sds)}
    (h : ∀ pick, best = some pick → Suitable s.server pick) :
    ∃ r, orRandom w s best = .ok r ∧ ∀ pick, r.1 = some pick → Suitable s.server pick := by
  cases best with
  | none => exact randomPick_ok hh s.turn (n+1) s.nextDb
  | some pick => exact ⟨_,rfl,h⟩

structure LoopInv (s : Server n) : Prop where
  init : s.alreadyInitHotKeys = true
  index : s.LazyIndex
  storable : ∀ d key, ¬ s.Unstorable d key

lemma LoopInv.hotInDict {s : Server n} (h : LoopInv s) : HotInDict s :=
  fun _ _ hk => h.index.mem_dict h.init hk

lemma dumpTurn_ok (h : LoopInv s.server)
    (hb : ∀ c, best = some c → c.key ∈ (s.server.db c.db).dict) :
    ∃ r, dumpTurn w best s = .ok r := by
  obtain ⟨kept,hkept,hsuit⟩ := keepSuit_ok hb
  obtain ⟨⟨pick,next⟩,hpick,hsuit⟩ := orRandom_ok (w := w) h.hotInDict hsuit
  rw [dumpTurn,hkept]
  change ∃ r, (orRandom w s kept >>= _) = _
  rw [hpick]
  cases pick with
  | none => exact ⟨_,rfl⟩
  | some p =>
    obtain ⟨d,key⟩ := p
    obtain ⟨val,hl,hval⟩ := hsuit (d,key) rfl
    have hdump : ∃ t, dumpBest w { s with nextDb := next } d key = .ok t := by
      unfold dumpBest
      split
      · exact ⟨_,rfl⟩
      rename_i hk
      obtain ⟨t,ht⟩ := (h.index.dump_ok h.init hl hval hk).mpr (h.storable d key)
      exact ⟨_,by rw [ht]⟩
    obtain ⟨t,ht⟩ := hdump
    refine ⟨(true,t),?_⟩
    change (dumpBest w { s with nextDb := next } d key).map _ = _
    rw [ht]
    rfl

lemma Turn.loopInv {s t : DumpState n} (h : Turn w s t) (hs : LoopInv s.server) :
    LoopInv t.server := by
  cases h with
  | skip next ht =>
    rw [ht]
    exact hs
  | dump d key server next hk hd ht =>
    rw [ht]
    refine ⟨?_,hs.index.dumpValToRock hs.init hd,fun e k hu => hs.storable e k (hu.of_dump hd)⟩
    exact (dumpVal_init hd).trans hs.init

lemma dumpLoop_returns (hw : w.Fair) (tofree left : Nat) (h : LoopInv s.server) :
    ∃ fuel, ∀ fuel', fuel ≤ fuel' →
      ∃ e u, dumpLoop w fuel' tofree left s = some (.ok (e,u)) ∧ u.server.LazyIndex := by
  induction left generalizing s with
  | zero => exact ⟨0,fun _ _ => ⟨_,s,rfl,h.index⟩⟩
  | succ left ih =>
    obtain ⟨fuel,⟨best,t⟩,hsel⟩ := selectBest_returns hw h.hotInDict
    obtain ⟨pool,round,ht⟩ := selectBest_same hsel
    have hinv : LoopInv t.server := by
      rw [ht]
      exact h
    have hb : ∀ c, best = some c → c.key ∈ (t.server.db c.db).dict := by
      rintro c rfl
      have hmem := selectBest_mem hsel
      rw [ht]
      exact hmem
    obtain ⟨⟨b,u⟩,hturn⟩ := dumpTurn_ok (w := w) hinv hb
    have hinv' := (dumpTurn_turn hturn).loopInv hinv
    obtain ⟨fuel₁,hrest⟩ := ih (s := { u with turn := u.turn + 1 }) hinv'
    refine ⟨max fuel fuel₁,fun fuel' hle => ?_⟩
    rw [dumpLoop]
    split
    · exact ⟨_,_,rfl,h.index⟩
    rw [selectBest_mono hsel ((le_max_left _ _).trans hle)]
    simp only [hturn]
    cases b with
    | false => exact ⟨_,_,rfl,hinv'.index⟩
    | true => exact hrest fuel' ((le_max_right _ _).trans hle)

/-- Everything that can be sampled is the one key, with a score above all others, as long as that
key is hot. -/
noncomputable def spoiler (d : Fin (n+1)) (key : Sds) (idle : Nat) : DumpWorld n where
  samples _ hot e :=
    if key ∈ hot d then if e = d then [(key,idle)] else []
    else if h : (hot e).Nonempty then [(h.choose,0)] else []
  samples_hot _ hot e x hx := by
    split at hx
    · rename_i hmem
      split at hx
      · rename_i he
        rw [mem_singleton.mp hx,he]
        exact hmem
      · cases hx
    split at hx
    · rename_i h
      rw [mem_singleton.mp hx]
      exact h.choose_spec
    · cases hx
  random _ _ hot := if h : hot.Nonempty then h.choose else []
  random_hot _ _ := choose_mem
  delta _ := 0

lemma spoiler_fair (d : Fin (n+1)) (key : Sds) (idle : Nat) : (spoiler d key idle).Fair := by
  refine fun k => ⟨k,le_refl k,fun hot => ?_⟩
  rintro ⟨e,he⟩
  simp only [spoiler]
  by_cases hmem : key ∈ hot d
  · refine ⟨d,?_⟩
    rw [if_pos hmem,if_pos rfl]
    exact cons_ne_nil _ _
  refine ⟨e,?_⟩
  rw [if_neg hmem,dif_pos (Finset.nonempty_iff_ne_empty.mpr he)]
  exact cons_ne_nil _ _

lemma offer_reverse_of_best (h : ∀ b ∈ l, b.idle < c.idle) :
    ∃ rest, (offer Candidate.idle RKPOOL_SIZE l c).reverse = c :: rest := by
  have hbelow : below idle c.idle l = l.length := by
    induction l with
    | nil => rfl
    | cons a l ih =>
      rw [below,if_pos (h a mem_cons_self),ih fun b hb => h b (mem_cons_of_mem a hb)]
      rfl
  have hsize : l.length + 1 - RKPOOL_SIZE ≤ l.length := by
    rw [RKPOOL_SIZE]
    omega
  rw [offer,orderedInsert_eq_below,hbelow,take_length,drop_length,
    drop_append_of_le_length hsize,reverse_append]
  exact ⟨_,rfl⟩

lemma flatMap_single {α β : Type} [DecidableEq α] {l : List α} {a : α} {f : α → List β}
    (hl : l.Nodup) (ha : a ∈ l) (hf : ∀ b, b ≠ a → f b = []) : l.flatMap f = f a := by
  induction l with
  | nil => cases ha
  | cons b l ih =>
    rw [nodup_cons] at hl
    rw [flatMap_cons]
    rcases mem_cons.mp ha with rfl | ha
    · have hrest : l.flatMap f = [] :=
        flatMap_eq_nil_iff.mpr fun b hb => hf b fun he => hl.1 (he ▸ hb)
      rw [hrest,append_nil]
    have hb : b ≠ a := fun he => hl.1 (he ▸ ha)
    rw [hf b hb,nil_append,ih hl.2 ha]

lemma roundCandidates_spoiler {s : Server n} (idle k : Nat) (hk : key ∈ s.hot d) :
    roundCandidates s ((spoiler d key idle).samples k s.hot) (finRange (n+1)) =
      [⟨key,d.val,idle⟩] := by
  unfold roundCandidates
  rw [flatMap_single (nodup_finRange _) (mem_finRange d)]
  · rw [if_neg (Finset.ne_empty_of_mem hk)]
    simp only [spoiler,if_pos hk,if_true,map_cons,map_nil]
  intro e he
  simp only [spoiler,if_pos hk,if_neg he,map_nil,ite_self]

lemma dumpLoop_spoiled (hi : s.server.alreadyInitHotKeys = true) (h : s.server.LazyIndex)
    (hbad : s.server.Unstorable d key) (hidle : ∀ b ∈ s.pool, b.idle < idle) {tofree : Nat}
    (hfreed : s.memFreed < tofree) (fuel left : Nat) (r : DumpExit × DumpState n) :
    dumpLoop (spoiler d key idle) fuel tofree (left + 1) s ≠ some (.ok r) := by
  obtain ⟨o,hl,hs,hk,hkey⟩ := id hbad
  have hhot : key ∈ s.server.hot d := h.mem_hot hi hl (canBeHot_of_suit hs)
  have hdict : key ∈ (s.server.db d).dict := h.mem_dict hi hhot
  have hh : HotInDict s.server := fun _ _ hm => h.mem_dict hi hm
  rw [dumpLoop,if_neg (Nat.not_le_of_lt hfreed)]
  cases fuel with
  | zero => simp [selectBest]
  | succ fuel =>
    have hpool : s.filledPool (spoiler d key idle) =
        offer Candidate.idle RKPOOL_SIZE s.pool ⟨key,d.val,idle⟩ := by
      rw [filledPool,roundCandidates_spoiler idle s.round hhot]
      rfl
    obtain ⟨rest,hrest⟩ := offer_reverse_of_best (c := ⟨key,d.val,idle⟩) hidle
    have hnot : ¬ ∀ e, s.server.hot e = ∅ := fun hall => Finset.ne_empty_of_mem hhot (hall d)
    rw [selectBest_succ hh,if_neg hnot,hpool,hrest,pickBest,db_mk,if_pos hdict]
    -- the key is suitable, so it is the one to be dumped
    have hsuit : isSuit s.server d key = .ok true := by
      rw [isSuit,hl]
      exact congrArg Except.ok hs
    have herr : ∃ f, s.server.dumpValToRock d key = .error f := by
      cases hdump : s.server.dumpValToRock d key with
      | error f => exact ⟨f,rfl⟩
      | ok t => exact absurd hbad ((h.dump_ok hi hl hs hk).mp ⟨t,hdump⟩)
    obtain ⟨f,hf⟩ := herr
    have hturn (pool : List Candidate) (round : Nat) :
        dumpTurn (spoiler d key idle) (some ⟨key,d.val,idle⟩)
          { s with pool := pool, round := round } = .error (.main f) := by
      simp only [dumpTurn,keepSuit,db_mk,hsuit,Except.map,if_true,bind,Except.bind,
        orRandom,dumpBest,if_neg hk,hf]
    simp only [hturn]
    intro hr
    cases hr

end

/-- The states in which the function can be relied on: nothing is to be done, or there is a value
for the index, and the function gives up or every value it may pick can be written to disk. -/
def DumpState.Graceful {n : Nat} (s : DumpState n) (cfg : DumpConfig) (m : MemoryUse) : Prop :=
  m.paused = true ∨ getMemoryStateWithRock s.server.config.maxmemory m = none ∨
    ((s.server.alreadyInitHotKeys = true ∨ s.server.HasHot) ∧ ((cfg.onlyForRocksdb = false ∧
          hotKeyFloor cfg.maxHopeHotKeys 0 s.server.filled.hotCounts = true) ∨
        ∀ d key, ¬ s.server.Unstorable d key))

lemma Server.filled_unstorable {n : Nat} {s : Server n} {d : Fin (n+1)} :
    s.filled.Unstorable d key ↔ s.Unstorable d key := by
  unfold filled
  split
  · rfl
  unfold Unstorable
  simp only [addHotKeys_dict,addHotKeys_rockKeys]

lemma getMemoryStateWithRock_pos {maxmemory tofree : Nat} {m : MemoryUse}
    (h : getMemoryStateWithRock maxmemory m = some tofree) : 0 < tofree := by
  unfold getMemoryStateWithRock at h
  split at h
  · cases h
  split at h
  · cases h
  rename_i hn
  injection h with h
  omega

/-- Where the index is as it should be, `dumpValueToRockIfNeeded` returns whatever is sampled, and
leaves the index as it should be, iff the state is one of those. -/
theorem graceful_iff {n : Nat} (s : DumpState n) (cfg : DumpConfig) (m : MemoryUse)
    (hs : s.server.LazyIndex) : (∀ w : DumpWorld n, w.Fair → ∃ fuel e u,
      dumpValueToRockIfNeeded w fuel cfg m s = some (.ok (e,u)) ∧ u.server.LazyIndex) ↔
      s.Graceful cfg m := by
  unfold Graceful dumpValueToRockIfNeeded
  by_cases hp : m.paused = true
  · simp only [hp,if_true,true_or,iff_true]
    exact fun w _ => ⟨0,_,_,rfl,hs⟩
  simp only [hp,if_false,false_or,Bool.false_eq_true]
  cases hm : getMemoryStateWithRock s.server.config.maxmemory m with
  | none =>
    simp only [true_or,iff_true]
    exact fun w _ => ⟨0,_,_,rfl,hs⟩
  | some tofree =>
    simp only [reduceCtorEq,false_or]
    cases hinit : s.server.lazyInit with
    | error f =>
      refine ⟨fun h => ?_,fun h => ?_⟩
      · obtain ⟨_,_,_,he,_⟩ := h (spoiler 0 [] 0) (spoiler_fair 0 [] 0)
        cases he
      have hok := (lazyInit_ok_iff hs).mpr ⟨h.1,rfl⟩
      rw [hinit] at hok
      cases hok
    | ok server =>
      obtain ⟨hhas,rfl⟩ := (lazyInit_ok_iff hs).mp hinit
      obtain ⟨hindex,hi⟩ := hs.lazyInit hinit
      simp only [hhas,true_and]
      by_cases hfloor : cfg.onlyForRocksdb = false ∧
          hotKeyFloor cfg.maxHopeHotKeys 0 s.server.filled.hotCounts = true
      · simp only [hfloor,and_self,true_or,iff_true]
        exact fun w _ => ⟨0,_,_,rfl,hindex⟩
      · have hcond : (!cfg.onlyForRocksdb &&
            hotKeyFloor cfg.maxHopeHotKeys 0 s.server.filled.hotCounts) = false := by
          simpa using hfloor
        simp only [hfloor,hcond,false_or,Bool.false_eq_true,if_false]
        refine ⟨fun h d key hbad => ?_,fun h w hw => ?_⟩
        · -- some idle time is above those in the pool
          obtain ⟨idle,hidle⟩ : ∃ idle, ∀ b ∈ s.pool, b.idle < idle :=
            ⟨(s.pool.map idle).sum + 1,fun b hb =>
              Nat.lt_succ_of_le (le_sum_of_mem (mem_map_of_mem hb))⟩
          obtain ⟨fuel,e,u,hrun,_⟩ := h (spoiler d key idle) (spoiler_fair d key idle)
          exact dumpLoop_spoiled
            (s := { s with server := s.server.filled, turn := 0, memFreed := 0, deltas := [] })
            hi hindex (filled_unstorable.mpr hbad) hidle (getMemoryStateWithRock_pos hm) fuel
            (MAX_TRY_PICK_KEY_TIMES - 2) (e,u) hrun
        have hinv : LoopInv s.server.filled :=
          ⟨hi,hindex,fun d key hu => h d key (filled_unstorable.mp hu)⟩
        obtain ⟨fuel,hret⟩ := dumpLoop_returns hw tofree (MAX_TRY_PICK_KEY_TIMES - 1)
          (s := { s with server := s.server.filled, turn := 0, memFreed := 0, deltas := [] }) hinv
        obtain ⟨e,u,hrun,hu⟩ := hret fuel (le_refl fuel)
        exact ⟨fuel,e,u,hrun,hu⟩

open Sample

theorem graceful_one_key :
    (pressed 0 ![[[97]]]).server.LazyIndex ∧ ∀ w : DumpWorld 0, w.Fair → ∃ fuel e u,
      dumpValueToRockIfNeeded w fuel ⟨true,1⟩ idleMemory (pressed 0 ![[[97]]]) =
        some (.ok (e,u)) ∧ u.server.LazyIndex := by
  have hindex : (pressed 0 ![[[97]]]).server.LazyIndex := .of_empty rfl fun _ => rfl
  have hone (d : Fin 1) : ((pressed 0 ![[[97]]]).server.db d).dict =
      (∅ : Dict Sds DbVal).insert [97] (.mem plain) := by
    rw [Subsingleton.elim d 0]
    rfl
  refine ⟨hindex,(graceful_iff (pressed 0 ![[[97]]]) ⟨true,1⟩ idleMemory hindex).mpr
    (.inr (.inr ⟨.inr ⟨0,[97],.mem plain,rfl,by decide⟩,.inr fun d key => ?_⟩))⟩
  rintro ⟨o,hl,_,_,hbad⟩
  rw [hone d,Dict.lookup_insert_ite] at hl
  split at hl
  · rename_i hkey
    subst hkey
    cases hl
    revert hbad
    decide
  · cases hl

def Sample.streamOnly : DumpState 0 :=
  { pressed 0 ![[]] with
    server := { (pressed 0 ![[]]).server with
      db := fun _ => { RedisDb.empty with
        dict := (∅ : Dict Sds DbVal).insert [97] (.mem ⟨.stream [],0,1⟩) } } }

theorem no_hot_keys_fails : streamOnly.server.LazyIndex ∧
    dumpValueToRockIfNeeded (world 0 [] []) 1 ⟨true,1⟩ idleMemory streamOnly =
      some (.error (.main .noHotKeys)) :=
  ⟨.of_empty rfl fun _ => rfl,rfl⟩

end RedRock
