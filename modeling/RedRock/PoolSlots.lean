import RedRock.RockPool

/-!
What the slots of a pool are: the buffers stay with their slots whatever is shifted, no string is
freed twice or written after it was freed, and an insertion offers the candidate to the list that
the pool stands for.
-/

namespace RedRock
open Lib List Option PoolEntry AList Pool
variable {α : Type}

lemma memmove_right (a b : List α) (x f : α) :
    memmove (a ++ x :: (b ++ [f])) (a.length + 1) a.length (b.length + 1) = a ++ x :: x :: b := by
  have htake : (a ++ x :: (b ++ [f])).take (a.length + 1) = a ++ [x] := by
    rw [take_append,take_of_length_le (by omega)]
    simp
  have hmid : ((a ++ x :: (b ++ [f])).drop a.length).take (b.length + 1) = x :: b := by
    simp
  have hdrop : (a ++ x :: (b ++ [f])).drop (a.length + 1 + (b.length + 1)) = [] := by
    apply drop_of_length_le
    simp
    omega
  rw [memmove,htake,hmid,hdrop]
  simp

lemma exists_drop_cons (v : α) (a b : List α) : ∃ x, (v :: (a ++ b)).drop a.length = x :: b := by
  induction a generalizing v with
  | nil => exact ⟨v,rfl⟩
  | cons y a ih => exact ih y

lemma memmove_left (v : α) (a b : List α) :
    ∃ x, memmove (v :: (a ++ b)) 0 1 a.length = a ++ x :: b := by
  obtain ⟨x,hx⟩ := exists_drop_cons v a b
  refine ⟨x,?_⟩
  rw [memmove,zero_add,hx]
  simp

structure PoolEntry.Holds (h : SdsHeap) (e : PoolEntry) (c : Candidate) : Prop where
  key : ∃ s, e.key = some s ∧ h.lookup s = some c.key
  idle : e.idle = c.idle
  dbid : e.dbid = c.dbid

/-- Who owns the strings of the slots, whatever their order: the buffers are those of the beginning,
one for each slot, and a key is in the buffer of its slot or in a string of its own. -/
structure Owned (buffers : List SdsPtr) (h : SdsHeap) (es : List PoolEntry) : Prop where
  cached : (es.map (·.cached)).Perm buffers
  buffer : ∀ b ∈ buffers, b ∈ h
  own : ∀ e ∈ es, ∀ s, e.key = some s → s = e.cached ∨ s ∉ buffers
  alloc : ∀ e ∈ es, ∀ s, e.key = some s → s ∈ h
  keys : (es.filterMap (·.key)).Nodup

section
variable {buffers : List SdsPtr} {h h' : SdsHeap} {es es' rest : List PoolEntry}
  {v e : PoolEntry} {s : SdsPtr} {key : Sds}

lemma Owned.perm (ho : Owned buffers h es) (hp : es.Perm es') : Owned buffers h es' where
  cached := (hp.map _).symm.trans ho.cached
  buffer := ho.buffer
  own e he := ho.own e (hp.mem_iff.mpr he)
  alloc e he := ho.alloc e (hp.mem_iff.mpr he)
  keys := (hp.filterMap _).nodup_iff.mp ho.keys

lemma klen_eq (hk : key.length < 2 ^ 31) : (BitVec.ofNat 32 key.length).toInt = key.length := by
  rw [BitVec.toInt_eq_toNat_cond,BitVec.toNat_ofNat,Nat.mod_eq_of_lt (by omega),if_pos (by omega)]

lemma storeKey_ok (z : Zmalloc) (cachedSize : Nat) (hk : key.length < 2 ^ 31)
    (hc : v.cached ∈ h) : ∃ s, storeKey z cachedSize v.cached key h = .ok (s,h.insert s key) ∧
      (s = v.cached ∨ s ∉ h) := by
  unfold storeKey
  rw [klen_eq hk]
  by_cases hlong : (cachedSize : Int) < key.length
  · exact ⟨z.alloc h,if_pos hlong,.inr (z.fresh h)⟩
  refine ⟨v.cached,?_,.inl rfl⟩
  simp only [if_neg hlong,if_pos hc,Int.toNat_natCast,take_length]
  exact if_neg (by omega)

lemma Owned.release (ho : Owned buffers h (v :: rest)) :
    ∃ h', v.release h = .ok h' ∧ (∀ b ∈ buffers, b ∈ h') ∧
      (∀ e ∈ rest, ∀ s, e.key = some s → h'.lookup s = h.lookup s) := by
  unfold PoolEntry.release
  cases hv : v.key with
  | none => exact ⟨h,rfl,ho.buffer,fun _ _ _ _ => rfl⟩
  | some s =>
    by_cases hs : s = v.cached
    · exact ⟨h,if_pos hs,ho.buffer,fun _ _ _ _ => rfl⟩
    have hnot : s ∉ buffers := (ho.own v mem_cons_self s hv).resolve_left hs
    have hkeys := ho.keys
    rw [filterMap_cons_some hv,nodup_cons] at hkeys
    refine ⟨h.erase s,(if_neg hs).trans (if_pos (ho.alloc v mem_cons_self s hv)),?_,?_⟩
    · intro b hb
      rw [mem_erase]
      refine ⟨?_,ho.buffer b hb⟩
      rintro rfl
      exact hnot hb
    intro e he s' hs'
    refine lookup_erase_ne ?_
    rintro rfl
    exact hkeys.1 (mem_filterMap.mpr ⟨e,he,hs'⟩)

lemma Owned.cached_mem (ho : Owned buffers h es) (he : e ∈ es) : e.cached ∈ buffers :=
  ho.cached.mem_iff.mp (mem_map_of_mem he)

lemma Owned.replace (key : Sds) (hb : buffers.Nodup) (ho : Owned buffers h (v :: rest))
    (hr : ∀ e ∈ rest, ∀ s, e.key = some s → h'.lookup s = h.lookup s)
    (hbuf : ∀ b ∈ buffers, b ∈ h') (hs : s = v.cached ∨ s ∉ h') (idle dbid : Nat) :
    Owned buffers (h'.insert s key) (⟨idle,some s,v.cached,dbid⟩ :: rest) ∧
      ∀ e ∈ rest, ∀ s', e.key = some s' → (h'.insert s key).lookup s' = h.lookup s' := by
  have hkeys := ho.keys
  have hnodup : (v.cached :: rest.map (·.cached)).Nodup := ho.cached.nodup_iff.mpr hb
  rw [nodup_cons] at hnodup
  -- no other slot has its key where the new one goes
  have hne : ∀ e ∈ rest, ∀ s', e.key = some s' → s' ≠ s := by
    rintro e he s' hs' rfl
    have hmem : s' ∈ h' := by
      have halloc := ho.alloc e (mem_cons_of_mem v he) s' hs'
      rw [Dict.mem_iff_lookup] at halloc ⊢
      rw [hr e he s' hs']
      exact halloc
    have hcached : s' = v.cached := hs.resolve_right (not_not_intro hmem)
    rcases ho.own e (mem_cons_of_mem v he) s' hs' with hown | hown
    · exact hnodup.1 (hcached ▸ hown ▸ mem_map_of_mem he)
    · exact hown (hcached ▸ ho.cached_mem mem_cons_self)
  refine ⟨⟨ho.cached,fun b hb' => ?_,fun e he s' hs' => ?_,fun e he s' hs' => ?_,?_⟩,?_⟩
  · rw [mem_insert]
    exact .inr (hbuf b hb')
  · rcases mem_cons.mp he with rfl | he
    · cases hs'
      rcases hs with hs | hs
      · exact .inl hs
      · exact .inr fun hmem => hs (hbuf s hmem)
    · exact ho.own e (mem_cons_of_mem v he) s' hs'
  · rw [mem_insert]
    rcases mem_cons.mp he with rfl | he
    · cases hs'
      exact .inl rfl
    right
    have halloc := ho.alloc e (mem_cons_of_mem v he) s' hs'
    rw [Dict.mem_iff_lookup] at halloc ⊢
    rw [hr e he s' hs']
    exact halloc
  · simp only [filterMap_cons,nodup_cons]
    refine ⟨fun hmem => ?_,hkeys.sublist ((sublist_cons_self v rest).filterMap _)⟩
    obtain ⟨e,he,hs'⟩ := mem_filterMap.mp hmem
    exact hne e he s hs' rfl
  · intro e he s' hs'
    rw [lookup_insert_ne (hne e he s' hs')]
    exact hr e he s' hs'

end

structure Pool.Rep (size : Nat) (buffers : List SdsPtr) (p : Pool) (l : List Candidate) : Prop where
  slots : ∃ occ free, p.entries = occ ++ free ∧ Forall₂ (Holds p.heap) occ l ∧
    ∀ e ∈ free, e.key = none
  length : p.entries.length = size
  owned : Owned buffers p.heap p.entries

section
variable {z : Zmalloc} {buffers : List SdsPtr} {h h' : SdsHeap} {occ free : List PoolEntry}
  {l : List Candidate} {p : Pool} {size cachedSize : Nat} {c : Candidate}
variable {f : PoolEntry} {occ₁ occ₂ : List PoolEntry} {l₁ l₂ : List Candidate} {v : PoolEntry}

lemma PoolEntry.Holds.isSome {e : PoolEntry} (hc : e.Holds h c) : e.key.isSome = true := by
  obtain ⟨s,hs,_⟩ := hc.key
  rw [hs]
  rfl

lemma holds_of_lookup (hocc : Forall₂ (Holds h) occ l)
    (hl : ∀ e ∈ occ, ∀ s, e.key = some s → h'.lookup s = h.lookup s) :
    Forall₂ (Holds h') occ l := by
  induction hocc with
  | nil => exact .nil
  | @cons e c occ l hc _ ih =>
    obtain ⟨s,hs,hlook⟩ := hc.key
    refine .cons ⟨⟨s,hs,?_⟩,hc.idle,hc.dbid⟩ (ih fun e' he' => hl e' (mem_cons_of_mem e he'))
    rw [hl e mem_cons_self s hs]
    exact hlook

lemma poolFind_eq (hocc : Forall₂ (Holds h) occ l) (hf : ∀ e ∈ free, e.key = none)
    (idle : Nat) : poolFind idle (occ ++ free) = below Candidate.idle idle l := by
  induction hocc with
  | nil =>
    cases free with
    | nil => rfl
    | cons f free =>
      have hfree := hf f mem_cons_self
      simp [poolFind,below,hfree]
  | cons hc _ ih => simp only [cons_append,poolFind,below,hc.isSome,true_and,hc.idle,ih]

lemma slot_append_cons (es₁ es₂ : List PoolEntry) (e : PoolEntry) (h : SdsHeap) :
    slot ⟨es₁ ++ e :: es₂,h⟩ es₁.length = .ok e := by
  simp [slot]

lemma Pool.put_rep (z : Zmalloc) (cachedSize : Nat) {q : Pool} {v e : PoolEntry}
    (hb : buffers.Nodup) (hk : c.key.length < 2 ^ 31)
    (ho : Owned buffers h (v :: (occ₁ ++ occ₂ ++ free))) (hrel : v.release h = .ok q.heap)
    (hq : q.entries = occ₁ ++ e :: (occ₂ ++ free)) (he : e.cached = v.cached)
    (h₁ : Forall₂ (Holds h) occ₁ l₁) (h₂ : Forall₂ (Holds h) occ₂ l₂)
    (hf : ∀ e ∈ free, e.key = none) (hlen : q.entries.length = size) :
    ∃ t, q.put z cachedSize occ₁.length c = .ok t ∧ t.Rep size buffers (l₁ ++ c :: l₂) := by
  obtain ⟨_,hrel',hbuf,hr⟩ := ho.release
  cases hrel.symm.trans hrel'
  obtain ⟨s,hst,hs⟩ := storeKey_ok z cachedSize hk (hbuf v.cached (ho.cached_mem mem_cons_self))
  obtain ⟨hown,hlook⟩ := ho.replace c.key hb hr hbuf hs c.idle c.dbid
  have hslot : q.slot occ₁.length = .ok e := by
    rw [← slot_append_cons occ₁ (occ₂ ++ free) e q.heap,← hq]
  have hset : q.entries.set occ₁.length ⟨c.idle,some s,e.cached,c.dbid⟩ =
      occ₁ ++ ⟨c.idle,some s,v.cached,c.dbid⟩ :: (occ₂ ++ free) := by
    rw [hq,he,set_append_right _ _ (le_refl _),Nat.sub_self]
    rfl
  rw [← he] at hst
  refine ⟨⟨occ₁ ++ ⟨c.idle,some s,v.cached,c.dbid⟩ :: (occ₂ ++ free),q.heap.insert s c.key⟩,?_,
    ⟨occ₁ ++ ⟨c.idle,some s,v.cached,c.dbid⟩ :: occ₂,free,?_,?_,hf⟩,?_,?_⟩
  · rw [put,hslot]
    change (storeKey z cachedSize e.cached c.key q.heap >>= _) = _
    rw [hst,← hset]
    rfl
  · simp
  · refine rel_append (holds_of_lookup h₁ fun e he => hlook e ?_)
      (.cons ⟨⟨s,rfl,lookup_insert _⟩,rfl,rfl⟩ (holds_of_lookup h₂ fun e he => hlook e ?_))
    · simp [he]
    · simp [he]
  · rw [← hset,length_set,hlen]
  · refine hown.perm ?_
    rw [append_assoc]
    exact perm_middle.symm

lemma Pool.setCached_append (es₁ es₂ : List PoolEntry) (e : PoolEntry) (s : SdsPtr) :
    setCached (es₁ ++ e :: es₂) es₁.length s = es₁ ++ { e with cached := s } :: es₂ := by
  unfold setCached
  induction es₁ with
  | nil => rfl
  | cons e' es₁ ih =>
    rw [cons_append,length_cons,modify_succ_cons,ih]
    rfl

lemma Pool.insert_of_room {k : Nat} {q : Pool} (h : p.room size c.idle = .ok (some (k,q))) :
    p.insert z size cachedSize c = q.put z cachedSize k c := by
  rw [insert,h]
  rfl

lemma Pool.insert_of_noRoom (h : p.room size c.idle = .ok none) :
    p.insert z size cachedSize c = .ok p := by
  rw [insert,h]
  rfl

lemma Pool.shiftLeft_eq (occ₁ occ₂ : List PoolEntry) (hrel : v.release h = .ok h') :
    ∃ e : PoolEntry, e.cached = v.cached ∧
      shiftLeft ⟨v :: (occ₁ ++ occ₂),h⟩ occ₁.length = .ok ⟨occ₁ ++ e :: occ₂,h'⟩ := by
  obtain ⟨x,hx⟩ := memmove_left v occ₁ occ₂
  refine ⟨{ x with cached := v.cached },rfl,?_⟩
  rw [shiftLeft]
  change (v.release h >>= _) = _
  rw [hrel]
  change Except.ok _ = _
  rw [hx,setCached_append]

lemma Pool.shiftRight_eq (a b : List PoolEntry) (x f : PoolEntry)
    (hs : size = a.length + (b.length + 2)) :
    shiftRight size ⟨a ++ x :: (b ++ [f]),h⟩ a.length =
      .ok ⟨a ++ { x with cached := f.cached } :: (x :: b),h⟩ := by
  have hlast : slot ⟨a ++ x :: (b ++ [f]),h⟩ (size - 1) = .ok f := by
    have hslot := slot_append_cons (a ++ x :: b) [] f h
    rw [append_assoc,cons_append] at hslot
    rw [← hslot,hs,length_append,length_cons]
    rfl
  rw [shiftRight,hlast]
  change Except.ok _ = _
  rw [show size - a.length - 1 = b.length + 1 by omega,memmove_right,setCached_append]

section
variable (hocc : Forall₂ (Holds h) occ l)
include hocc

lemma Pool.isEmptyAt_occupied (k : Nat) (h' : SdsHeap) : isEmptyAt ⟨occ,h'⟩ k = false := by
  unfold isEmptyAt
  induction hocc generalizing k with
  | nil => rfl
  | cons hc _ ih =>
    cases k with
    | zero =>
      have hsome := hc.isSome
      simp only [getElem?_cons_zero,any_some,isNone_eq_false_iff]
      exact hsome
    | succ k => exact ih k

lemma Pool.slot_last (hs : 0 < occ.length)
    (h' : SdsHeap) : ∃ last, slot ⟨occ,h'⟩ (occ.length - 1) = .ok last ∧
      last.key.isSome = true := by
  have hlt : occ.length - 1 < occ.length := by omega
  refine ⟨occ[occ.length - 1],?_,?_⟩
  · simp only [slot,getElem?_eq_getElem hlt]
  have hempty := isEmptyAt_occupied hocc (occ.length - 1) h'
  simp only [isEmptyAt,getElem?_eq_getElem hlt,any_some,isNone_eq_false_iff] at hempty
  exact hempty

lemma Pool.room_full (hs : 0 < occ.length) (idle : Nat) : room occ.length ⟨occ,h⟩ idle =
      if below Candidate.idle idle l = 0 then .ok none else
        (shiftLeft ⟨occ,h⟩ (below Candidate.idle idle l - 1)).map fun q =>
          some (below Candidate.idle idle l - 1,q) := by
  obtain ⟨last,hlast,hsome⟩ := slot_last hocc hs h
  have hfind := poolFind_eq hocc (fun e he => absurd he not_mem_nil) idle
  rw [append_nil] at hfind
  rw [room,hlast]
  change (if _ then _ else _) = _
  simp only [hfind,hsome,and_true,isEmptyAt_occupied hocc,isNone_eq_false_iff.mpr hsome,
    Bool.false_eq_true,if_false]

lemma Pool.room_free
    (hf : ∀ e ∈ free ++ [f], e.key = none) (hs : size = occ.length + (free.length + 1)) (idle : Nat)
    :
    room size ⟨occ ++ (free ++ [f]),h⟩ idle =
      if isEmptyAt ⟨occ ++ (free ++ [f]),h⟩ (below Candidate.idle idle l) then
        .ok (some (below Candidate.idle idle l,⟨occ ++ (free ++ [f]),h⟩))
      else (shiftRight size ⟨occ ++ (free ++ [f]),h⟩ (below Candidate.idle idle l)).map fun q =>
        some (below Candidate.idle idle l,q) := by
  have hfind := poolFind_eq hocc hf idle
  have hlast : slot ⟨occ ++ (free ++ [f]),h⟩ (size - 1) = .ok f := by
    have hslot := slot_append_cons (occ ++ free) [] f h
    rw [append_assoc] at hslot
    rw [← hslot,hs,length_append]
    rfl
  have hfnone : f.key = none := hf f (by simp)
  rw [room,hlast]
  change (if _ then _ else _) = _
  simp only [hfind,hfnone,isSome_none,Bool.false_eq_true,and_false,if_false,isNone_none,if_true]

end

section
variable (z)

section
variable (cachedSize : Nat)

lemma Pool.insert_full (hb : buffers.Nodup)
    (hocc : Forall₂ (Holds h) occ l) (ho : Owned buffers h occ)
    (hs : 0 < occ.length) (hk : c.key.length < 2 ^ 31) :
    ∃ t, insert z occ.length cachedSize ⟨occ,h⟩ c = .ok t ∧
      t.Rep occ.length buffers (offer Candidate.idle occ.length l c) := by
  have hroom := room_full hocc hs c.idle
  have hol := hocc.length_eq
  cases hbelow : below Candidate.idle c.idle l with
  | zero =>
    rw [hbelow,if_pos rfl] at hroom
    rw [offer_of_worse hol.symm hbelow]
    refine ⟨⟨occ,h⟩,insert_of_noRoom hroom,⟨occ,[],(append_nil occ).symm,hocc,?_⟩,rfl,ho⟩
    exact fun e he => absurd he not_mem_nil
  | succ j =>
    rw [hbelow,if_neg (Nat.succ_ne_zero j),Nat.add_sub_cancel] at hroom
    cases hocc with
    | nil => exact absurd hs (lt_irrefl 0)
    | @cons v c₀ occ l hv hocc =>
      have hle : below Candidate.idle c.idle (c₀ :: l) ≤ (c₀ :: l).length := below_le c.idle _
      rw [hbelow,← hol] at hle
      have hj : j ≤ occ.length := Nat.le_of_succ_le_succ hle
      rw [offer_of_full (by rw [length_cons,← hocc.length_eq]) hbelow]
      obtain ⟨h',hrel,_,_⟩ := ho.release
      obtain ⟨occ₁,occ₂,rfl,rfl⟩ : ∃ occ₁ occ₂, occ = occ₁ ++ occ₂ ∧ occ₁.length = j :=
        ⟨occ.take j,occ.drop j,(take_append_drop j occ).symm,length_take_of_le hj⟩
      obtain ⟨e,he,hshift⟩ := shiftLeft_eq occ₁ occ₂ hrel
      rw [hshift] at hroom
      rw [insert_of_room hroom]
      have h₁ := forall₂_take occ₁.length hocc
      have h₂ := forall₂_drop occ₁.length hocc
      rw [take_left' rfl] at h₁
      rw [drop_left' rfl] at h₂
      refine put_rep z cachedSize (q := ⟨occ₁ ++ e :: occ₂,h'⟩) hb hk (v := v) ?_ hrel ?_ he h₁ h₂
        (fun e he => absurd he not_mem_nil) ?_
      · rw [append_nil]
        exact ho
      · rw [append_nil]
      · simp only [length_append,length_cons]
        omega

lemma Pool.insert_end (hb : buffers.Nodup)
    (hocc : Forall₂ (Holds h) occ l) (hf : ∀ e ∈ f :: free, e.key = none)
    (ho : Owned buffers h (occ ++ f :: free)) (hs : size = (occ ++ f :: free).length)
    (hk : c.key.length < 2 ^ 31) :
    ∃ t, put z cachedSize ⟨occ ++ f :: free,h⟩ occ.length c = .ok t ∧
      t.Rep size buffers (l ++ [c]) := by
  have hrel : f.release h = .ok h := by
    rw [release,hf f mem_cons_self]
  refine put_rep z cachedSize (q := ⟨occ ++ f :: free,h⟩) hb hk ?_ hrel rfl rfl hocc .nil
    (fun e he => hf e (mem_cons_of_mem f he)) hs.symm
  rw [append_nil]
  exact ho.perm perm_middle

lemma Pool.insert_middle (hb : buffers.Nodup)
    (h₁ : Forall₂ (Holds h) occ₁ l₁) (h₂ : Forall₂ (Holds h) occ₂ l₂)
    (hne : occ₂ ≠ []) (hf : ∀ e ∈ free ++ [f], e.key = none)
    (ho : Owned buffers h (occ₁ ++ occ₂ ++ (free ++ [f])))
    (hs : size = (occ₁ ++ occ₂).length + (free.length + 1)) (hk : c.key.length < 2 ^ 31) :
    ∃ q t, shiftRight size ⟨occ₁ ++ occ₂ ++ (free ++ [f]),h⟩ occ₁.length = .ok q ∧
      q.put z cachedSize occ₁.length c = .ok t ∧ t.Rep size buffers (l₁ ++ c :: l₂) := by
  obtain ⟨x,occ₂,rfl⟩ := exists_cons_of_ne_nil hne
  have hsize : size = occ₁.length + ((occ₂ ++ free).length + 2) := by
    simp only [length_append,length_cons] at hs ⊢
    omega
  have hshift := shiftRight_eq (h := h) occ₁ (occ₂ ++ free) x f hsize
  have happ : occ₁ ++ x :: occ₂ ++ (free ++ [f]) = occ₁ ++ x :: (occ₂ ++ free ++ [f]) := by
    simp only [append_assoc,cons_append]
  have hrel : f.release h = .ok h := by
    rw [release,hf f (by simp)]
  have howned : Owned buffers h (f :: (occ₁ ++ x :: occ₂ ++ free)) := by
    refine ho.perm ?_
    rw [← append_assoc]
    exact perm_append_singleton f _
  rw [happ,hshift]
  obtain ⟨t,ht,hrep⟩ := put_rep z cachedSize
    (q := ⟨occ₁ ++ { x with cached := f.cached } :: (x :: occ₂ ++ free),h⟩) hb hk howned hrel rfl rfl
    h₁ h₂ (fun e he => hf e (mem_append_left [f] he)) rfl
  have hlen : (occ₁ ++ { x with cached := f.cached } :: (x :: occ₂ ++ free)).length = size := by
    simp only [length_append,length_cons] at hsize ⊢
    omega
  rw [hlen] at hrep
  exact ⟨_,t,rfl,ht,hrep⟩

lemma Pool.insert_free (hb : buffers.Nodup)
    (hocc : Forall₂ (Holds h) occ l) (hf : ∀ e ∈ free ++ [f], e.key = none)
    (ho : Owned buffers h (occ ++ (free ++ [f]))) (hs : size = occ.length + (free.length + 1))
    (hk : c.key.length < 2 ^ 31) :
    ∃ t, insert z size cachedSize ⟨occ ++ (free ++ [f]),h⟩ c = .ok t ∧
      t.Rep size buffers (offer Candidate.idle size l c) := by
  have hol := hocc.length_eq
  have hroom := room_free hocc hf hs c.idle
  have hle : below Candidate.idle c.idle l ≤ l.length := below_le c.idle l
  rw [offer_of_room (by omega)]
  rcases Nat.eq_or_lt_of_le hle with hend | hmid
  · rw [hend,← hol] at hroom
    rw [hend,take_length,drop_length]
    obtain ⟨f₀,rest,hrest⟩ := exists_cons_of_ne_nil (concat_ne_nil f free)
    rw [hrest] at hroom hf ho ⊢
    have hempty : isEmptyAt ⟨occ ++ f₀ :: rest,h⟩ occ.length = true := by
      simp [isEmptyAt,hf f₀ mem_cons_self]
    rw [hempty,if_pos rfl] at hroom
    rw [insert_of_room hroom]
    refine insert_end z cachedSize hb hocc hf ho ?_ hk
    rw [← hrest]
    simp only [length_append,length_singleton]
    exact hs
  generalize below Candidate.idle c.idle l = k at hroom hmid ⊢
  rw [← hol] at hmid
  have h₁ := forall₂_take k hocc
  have h₂ := forall₂_drop k hocc
  have hempty : isEmptyAt ⟨occ ++ (free ++ [f]),h⟩ k = false := by
    have hocc' := isEmptyAt_occupied hocc k h
    unfold isEmptyAt at hocc' ⊢
    rw [getElem?_append_left hmid]
    exact hocc'
  have hne : occ.drop k ≠ [] := by simpa using hmid
  have ho' : Owned buffers h (occ.take k ++ occ.drop k ++ (free ++ [f])) := by
    rw [take_append_drop]
    exact ho
  have hs' : size = (occ.take k ++ occ.drop k).length + (free.length + 1) := by
    rw [take_append_drop]
    exact hs
  obtain ⟨q,t,hq,ht,hrep⟩ := insert_middle z cachedSize hb h₁ h₂ hne hf ho' hs' hk
  rw [take_append_drop,length_take_of_le (le_of_lt hmid)] at hq
  rw [length_take_of_le (le_of_lt hmid)] at ht
  rw [hempty,if_neg Bool.false_ne_true,hq] at hroom
  exact ⟨t,(insert_of_room hroom).trans ht,hrep⟩

lemma Pool.insert_rep (hb : buffers.Nodup)
    (hr : p.Rep size buffers l) (hs : 0 < size) (hk : c.key.length < 2 ^ 31) :
    ∃ t, p.insert z size cachedSize c = .ok t ∧
      t.Rep size buffers (offer Candidate.idle size l c) := by
  obtain ⟨occ,free,he,hocc,hf⟩ := hr.slots
  have hlen := hr.length
  have howned := hr.owned
  obtain ⟨entries,h⟩ := p
  simp only at he hocc hlen howned
  subst entries
  rcases eq_nil_or_concat' free with rfl | ⟨free,f,rfl⟩
  · rw [append_nil] at hlen howned ⊢
    subst hlen
    exact insert_full z cachedSize hb hocc howned hs hk
  refine insert_free z cachedSize hb hocc hf howned ?_ hk
  simp only [length_append,length_singleton] at hlen
  exact hlen.symm

lemma Owned.vacate {rest : List PoolEntry} (ho : Owned buffers h (v :: rest)) :
    ∃ h', v.release h = .ok h' ∧ Owned buffers h' ({ v with key := none, idle := 0 } :: rest) ∧
      ∀ e ∈ rest, ∀ s, e.key = some s → h'.lookup s = h.lookup s := by
  obtain ⟨h',hrel,hbuf,hlook⟩ := ho.release
  refine ⟨h',hrel,⟨ho.cached,hbuf,fun e he s hs => ?_,fun e he s hs => ?_,?_⟩,hlook⟩
  · rcases mem_cons.mp he with rfl | he
    · cases hs
    · exact ho.own e (mem_cons_of_mem v he) s hs
  · rcases mem_cons.mp he with rfl | he
    · cases hs
    have halloc := ho.alloc e (mem_cons_of_mem v he) s hs
    rw [Dict.mem_iff_lookup] at halloc ⊢
    rw [hlook e he s hs]
    exact halloc
  simp only [filterMap_cons]
  exact ho.keys.sublist ((sublist_cons_self v rest).filterMap _)

lemma Pool.removeBelow_free (hf : ∀ e ∈ free, e.key = none) {m : Nat} (hm : m ≤ free.length) :
    removeBelow ⟨occ ++ free,h⟩ (occ.length + m) = removeBelow ⟨occ ++ free,h⟩ occ.length := by
  induction m with
  | zero => rfl
  | succ m ih =>
    have hlt : m < free.length := hm
    have hslot : slot ⟨occ ++ free,h⟩ (occ.length + m) = .ok free[m] := by
      simp [slot,hlt]
    rw [← ih (le_of_lt hlt),← add_assoc,removeBelow,hslot]
    simp only [bind,Except.bind,hf free[m] (getElem_mem hlt)]

lemma Pool.removeRight_rep (hr : p.Rep size buffers l) :
    (l = [] ∧ p.removeRight size = .ok (none,p)) ∨ ∃ l' c t, l = l' ++ [c] ∧
      p.removeRight size = .ok (some (c.key,c.dbid),t) ∧ t.Rep size buffers l' := by
  obtain ⟨occ,free,he,hocc,hf⟩ := hr.slots
  have hlen := hr.length
  have howned := hr.owned
  obtain ⟨entries,heap⟩ := p
  simp only at he hocc hlen howned
  subst entries
  rw [length_append] at hlen
  unfold removeRight
  rw [← hlen,removeBelow_free hf (le_refl _)]
  rcases eq_nil_or_concat' occ with rfl | ⟨occ',e,rfl⟩
  · cases hocc
    exact .inl ⟨rfl,rfl⟩
  right
  rcases eq_nil_or_concat' l with rfl | ⟨l',c,rfl⟩
  · exact absurd hocc.length_eq (by simp)
  have hlength : occ'.length = l'.length := by simpa using hocc.length_eq
  have hrev := forall₂_take l'.length hocc
  rw [take_left' hlength,take_left' rfl] at hrev
  have hlast := forall₂_drop l'.length hocc
  rw [drop_left' hlength,drop_left' rfl] at hlast
  rw [append_assoc] at howned ⊢
  obtain ⟨heap',hrel,hown,hlook⟩ := (howned.perm perm_middle).vacate
  have hc := (forall₂_cons.mp hlast).1
  obtain ⟨s,hs,hkey⟩ := hc.key
  have hslot := slot_append_cons occ' free e heap
  refine ⟨l',c,⟨occ' ++ { e with key := none, idle := 0 } :: free,heap'⟩,rfl,?_,
    ⟨occ',{ e with key := none, idle := 0 } :: free,rfl,?_,?_⟩,?_,?_⟩
  · have hset : (occ' ++ e :: free).set occ'.length { e with key := none, idle := 0 } =
        occ' ++ { e with key := none, idle := 0 } :: free := by
      rw [set_append_right _ _ (le_refl _),Nat.sub_self]
      rfl
    rw [length_append,length_singleton,removeBelow]
    change (slot ⟨occ' ++ e :: free,heap⟩ occ'.length >>= _) = _
    rw [hslot,← hset]
    simp only [bind,Except.bind,hs,hkey,hrel,hc.dbid]
    rfl
  · exact holds_of_lookup hrev fun e' he' => hlook e' (mem_append_left free he')
  · intro e' he'
    rcases mem_cons.mp he' with rfl | he'
    · rfl
    · exact hf e' he'
  · simp only [length_append,length_cons,length_nil] at hlen ⊢
    omega
  · exact hown.perm perm_middle.symm

lemma poolPopulate_rep {idle : Sds → Except PoolFault Nat}
    {dbid : Nat} {samples : List Sds} {cs : List Candidate} (hb : buffers.Nodup)
    (hr : p.Rep size buffers l) (hs : 0 < size) (hk : ∀ key ∈ samples, key.length < 2 ^ 31)
    (hcs : samples.mapM (fun key => (idle key).map fun i => Candidate.mk key dbid i) = .ok cs) :
    ∃ t, poolPopulate z size cachedSize idle dbid samples p = .ok t ∧
      t.Rep size buffers (cs.foldl (offer Candidate.idle size) l) := by
  induction samples generalizing p l cs with
  | nil =>
    cases hcs
    exact ⟨p,rfl,hr⟩
  | cons key samples ih =>
    rw [mapM_cons] at hcs
    obtain ⟨c,hc,hcs⟩ := bind_ok.mp hcs
    obtain ⟨cs',hcs',hcs⟩ := bind_ok.mp hcs
    cases hcs
    obtain ⟨i,hi,rfl⟩ := map_ok.mp hc
    obtain ⟨q,hq,hrq⟩ := insert_rep (c := ⟨key,dbid,i⟩) z cachedSize hb hr hs
      (hk key mem_cons_self)
    obtain ⟨t,ht,hrt⟩ := ih hrq (fun k hk' => hk k (mem_cons_of_mem key hk')) hcs'
    refine ⟨t,?_,hrt⟩
    rw [poolPopulate,hi]
    change (p.insert z size cachedSize ⟨key,dbid,i⟩ >>= _) = _
    rw [hq]
    exact ht

end

lemma poolAlloc_spec (cachedSize n : Nat) (h : SdsHeap) :
    (poolAlloc z cachedSize n h).entries.length = n ∧
      (∀ e ∈ (poolAlloc z cachedSize n h).entries, e.key = none ∧ e.cached ∉ h ∧
        e.cached ∈ (poolAlloc z cachedSize n h).heap) ∧
      ((poolAlloc z cachedSize n h).entries.map (·.cached)).Nodup ∧
      ∀ s ∈ h, s ∈ (poolAlloc z cachedSize n h).heap := by
  induction n generalizing h with
  | zero => exact ⟨rfl,fun e he => absurd he not_mem_nil,nodup_nil,fun s hs => hs⟩
  | succ n ih =>
    obtain ⟨hlen,hes,hnodup,hsub⟩ := ih (h.insert (z.alloc h) (List.replicate cachedSize 0))
    rw [poolAlloc]
    simp only [length_cons,hlen,map_cons,nodup_cons,List.mem_map]
    refine ⟨trivial,fun e he => ?_,⟨?_,hnodup⟩,fun s hs => hsub s ?_⟩
    · rcases mem_cons.mp he with rfl | he
      · exact ⟨rfl,z.fresh h,hsub _ (mem_insert _ |>.mpr (.inl rfl))⟩
      obtain ⟨hnone,hnot,hin⟩ := hes e he
      exact ⟨hnone,fun hmem => hnot ((mem_insert _).mpr (.inr hmem)),hin⟩
    · rintro ⟨e,he,heq⟩
      exact (hes e he).2.1 ((mem_insert _).mpr (.inl heq))
    · exact (mem_insert _).mpr (.inr hs)

lemma poolAlloc_rep (cachedSize n : Nat) (h : SdsHeap) :
    (poolAlloc z cachedSize n h).Rep n ((poolAlloc z cachedSize n h).entries.map (·.cached)) [] := by
  obtain ⟨hlen,hes,_,_⟩ := poolAlloc_spec z cachedSize n h
  refine ⟨⟨[],_,rfl,.nil,fun e he => (hes e he).1⟩,hlen,.refl _,fun b hb => ?_,fun e he s hs => ?_,
    fun e he s hs => ?_,?_⟩
  · obtain ⟨e,he,rfl⟩ := mem_map.mp hb
    exact (hes e he).2.2
  · rw [(hes e he).1] at hs
    cases hs
  · rw [(hes e he).1] at hs
    cases hs
  · have hnil : (poolAlloc z cachedSize n h).entries.filterMap (·.key) = [] :=
      filterMap_eq_nil_iff.mpr fun e he => (hes e he).1
    rw [hnil]
    exact nodup_nil

end

end

end RedRock
