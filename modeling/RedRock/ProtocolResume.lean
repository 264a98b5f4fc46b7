import RedRock.Protocol

/-!
A request that is not complete leaves the parser in the middle, and it goes on there when
more bytes have come. Neither where it stopped nor what it has parsed before, and so
neither whether a large argument takes over the query buffer, can be seen in what it
comes to.
-/

namespace RedRock
open Lib List Option Parse
variable {m : Nat} {f : QueryBuf → Parse} {r : Parse} {fuel : Nat}

def readBulk (maxlen : Int) (q : QueryBuf) : Parse := (readBulkLen maxlen q).andThen readBulkArg

/-! The lines of a stream. -/

/-- The line that `c` ends, if there is one, has at most `PROTO_INLINE_MAX_SIZE` bytes. -/
def lineBounded (bs : Bytes) (c : UInt8) : Bool := (strchr bs c).all (· ≤ protoInlineMaxSize)

def bulksBounded (protoMaxBulkLen : Int) : Nat → QueryBuf → Bool
  | 0, _ => true
  | m+1, q => lineBounded q.rest 13 && match readBulk protoMaxBulkLen q with
    | .ok q' => bulksBounded protoMaxBulkLen m q'
    | _ => true

def QueryBuf.fresh (bs : Bytes) : QueryBuf := { QueryBuf.empty with rest := bs }

def requestBounded (protoMaxBulkLen : Int) (bs : Bytes) : Bool :=
  if bs.head? = some 42 then
    lineBounded bs 13 && match readMultibulkLen (QueryBuf.fresh bs).determineType with
      | .ok (.ok q) => bulksBounded protoMaxBulkLen q.multibulklen q
      | _ => true
  else lineBounded bs 10

def streamBounded (protoMaxBulkLen : Int) : Nat → Bytes → Bool
  | 0, _ => true
  | fuel+1, bs => bs = [] || requestBounded protoMaxBulkLen bs &&
    match nextRequest protoMaxBulkLen (.fresh bs) with
    | .ok (.ok q) => streamBounded protoMaxBulkLen fuel q.rest
    | _ => true

/-- Inline requests and length header lines are at most `PROTO_INLINE_MAX_SIZE` bytes long. -/
def linesBounded (protoMaxBulkLen : Int) (bs : Bytes) : Bool :=
  streamBounded protoMaxBulkLen (bs.length + 1) bs

/-! How far a line is parsed depends on the bytes before its end only. -/

section
variable {bs cs : Bytes} {c : UInt8} {i : Nat}

lemma strchr_append_eq (bs cs : Bytes) (c : UInt8) : strchr (bs ++ cs) c = (strchr bs c).or
    (if (cstr bs).length = bs.length then (strchr cs c).map (· + bs.length) else none) := by
  unfold strchr cstr
  rw [takeWhile_append]
  split
  · rename_i h
    rw [findIdx?_append,( takeWhile_prefix _).eq_of_length h]
  · rw [or_none]

lemma strchr_append (h : strchr bs c = some i) (cs : Bytes) : strchr (bs ++ cs) c = some i := by
  rw [strchr_append_eq,h]
  rfl

lemma strchr_of_append (h : strchr (bs ++ cs) c = some i) (hi : i < bs.length) :
    strchr bs c = some i := by
  rw [strchr_append_eq] at h
  cases hb : strchr bs c with
  | some j => rwa [hb] at h
  | none =>
    rw [hb,none_or,ite_none_right_eq_some,map_eq_some_iff] at h
    obtain ⟨_,j,_,rfl⟩ := h
    omega

lemma strchr_none_append (h : strchr bs c = none) (hlen : bs.length > protoInlineMaxSize)
    (hb : lineBounded (bs ++ cs) c = true) : strchr (bs ++ cs) c = none := by
  cases hs : strchr (bs ++ cs) c with
  | none => rfl
  | some i =>
    rw [lineBounded,hs] at hb
    have hi : i ≤ protoInlineMaxSize := by simpa using hb
    have hfound := strchr_of_append hs (by omega)
    rw [h] at hfound
    cases hfound

end

/-! The parsed part of the buffer has no influence. -/

namespace Parse

def trim : Parse → Parse
  | ok q => ok q.trim
  | more q => more q.trim
  | error q e => error q.trim e

def append (r : Parse) (bs : Bytes) : Parse :=
  match r with
  | ok q => ok (q.append bs)
  | more q => more (q.append bs)
  | error q e => error (q.append bs) e

def settled : Parse → Bool
  | more _ => false
  | _ => true

lemma append_trim (r : Parse) (bs : Bytes) : (r.append bs).trim = r.trim.append bs := by
  cases r <;> rfl

lemma andThen_trim (hf : ∀ q, (f q).trim = (f q.trim).trim) (r : Parse) :
    (r.andThen f).trim = (r.trim.andThen f).trim := by
  cases r with
  | ok q => exact hf q
  | more | error => rfl

end Parse

section
variable {q q' : QueryBuf} {maxlen : Int} {bs : Bytes}

section
variable (q)

lemma inlineBuffer_trim : (processInlineBuffer q).trim = (processInlineBuffer q.trim).trim := by
  unfold processInlineBuffer
  have hr : q.trim.rest = q.rest := rfl
  rw [hr]
  split
  · split
    · rfl
    · rfl
  dsimp only
  split
  · rfl
  · rfl

lemma multibulkLen_trim :
    (readMultibulkLen q).map trim = (readMultibulkLen q.trim).map trim := by
  unfold readMultibulkLen
  have hr : q.trim.rest = q.rest := rfl
  have ha : q.trim.argv = q.argv := rfl
  rw [hr,ha]
  split
  · rfl
  split
  · split
    · rfl
    · rfl
  split
  · rfl
  split
  · rfl
  split
  · rfl
  split
  · rfl
  · rfl

lemma readBulkLen_trim : (readBulkLen maxlen q).trim = (readBulkLen maxlen q.trim).trim := by
  unfold readBulkLen
  have hr : q.trim.rest = q.rest := rfl
  have hb : q.trim.bulklen = q.bulklen := rfl
  rw [hr,hb]
  split
  · rfl
  split
  · split
    · rfl
    · rfl
  split
  · rfl
  split
  · rfl
  split
  · rfl
  split
  · rfl
  dsimp only [QueryBuf.advance]
  rw [hr]
  split
  · rfl
  · rfl

/-- The argument is the same whether it is copied or is the buffer itself. -/
lemma readBulkArg_copied : (readBulkArg q).trim =
    if q.rest.length < q.bulklen.getD 0 + 2 then .more q.trim
    else .ok { q with
      parsed := [], rest := q.rest.drop (q.bulklen.getD 0 + 2)
      argv := q.argv ++ [q.rest.take (q.bulklen.getD 0)]
      bulklen := none, multibulklen := q.multibulklen - 1 } := by
  unfold readBulkArg
  dsimp only
  split
  · rfl
  split
  · rename_i hsteal
    have hp : q.parsed = [] := length_eq_zero_iff.mp hsteal.1
    have hlen : q.rest.length = q.bulklen.getD 0 + 2 := by
      have hs := hsteal.2.2
      rw [QueryBuf.sdslen,hp,length_nil] at hs
      omega
    have hdrop : q.rest.drop (q.bulklen.getD 0 + 2) = [] := drop_eq_nil_of_le hlen.le
    rw [hdrop,hsteal.2.2,hp]
    rfl
  · rfl

lemma readBulkArg_trim : (readBulkArg q).trim = (readBulkArg q.trim).trim := by
  rw [readBulkArg_copied,readBulkArg_copied]
  rfl

end

lemma readBulks_trim (m : Nat) (q : QueryBuf) :
    (readBulks maxlen m q).trim = (readBulks maxlen m q.trim).trim := by
  induction m generalizing q with
  | zero => rfl
  | succ m ih =>
    simp only [readBulks]
    rw [andThen_trim ih,andThen_trim readBulkArg_trim,readBulkLen_trim,
      ← andThen_trim readBulkArg_trim,← andThen_trim ih]

/-! What a parser found it finds again when more bytes follow. -/

lemma inlineBuffer_append (hb : lineBounded (q.rest ++ bs) 10 = true)
    (hs : (processInlineBuffer q).settled = true) :
    (processInlineBuffer (q.append bs)).trim = ((processInlineBuffer q).append bs).trim := by
  unfold processInlineBuffer at hs ⊢
  have hr : (q.append bs).rest = q.rest ++ bs := rfl
  rw [hr]
  cases hi : strchr q.rest 10 with
  | none =>
    rw [hi] at hs
    dsimp only at hs ⊢
    split at hs
    · rename_i hlen
      rw [strchr_none_append hi hlen hb]
      dsimp only
      rw [if_pos hlen,if_pos (by rw [length_append]; omega)]
      rfl
    · cases hs
  | some i =>
    have hlt := strchr_lt hi
    rw [strchr_append hi]
    dsimp only
    have hcr : (q.rest ++ bs)[i-1]? = q.rest[i-1]? := getElem?_append_left (by omega)
    rw [hcr]
    generalize hlen : (if i ≠ 0 ∧ q.rest[i-1]? = some 13 then i-1 else i) = querylen
    have hle : querylen ≤ i := by
      rw [← hlen]
      split <;> omega
    rw [take_append_of_le_length (by omega)]
    split
    · rfl
    have hk : querylen + (if i ≠ 0 ∧ q.rest[i-1]? = some 13 then 2 else 1) ≤ q.rest.length := by
      rw [← hlen]
      split <;> omega
    simp only [trim,append,QueryBuf.trim,QueryBuf.append,QueryBuf.advance,
      drop_append_of_le_length hk]

lemma multibulkLen_append (hb : lineBounded (q.rest ++ bs) 13 = true)
    (h : readMultibulkLen q = .ok r) (hs : r.settled = true) :
    (readMultibulkLen (q.append bs)).map trim = .ok (r.append bs).trim := by
  unfold readMultibulkLen at h ⊢
  have hr : (q.append bs).rest = q.rest ++ bs := rfl
  have ha : (q.append bs).argv = q.argv := rfl
  rw [hr,ha]
  split at h
  · cases h
  rename_i hargv
  rw [if_neg hargv]
  cases hi : strchr q.rest 13 with
  | none =>
    rw [hi] at h
    dsimp only at h
    split at h
    · rename_i hlen
      cases h
      rw [strchr_none_append hi hlen hb]
      dsimp only
      rw [if_pos (by rw [length_append]; omega)]
      rfl
    cases h
    cases hs
  | some i =>
    rw [hi] at h
    rw [strchr_append hi]
    dsimp only at h ⊢
    split at h
    · cases h
      cases hs
    rename_i hlen
    have hhead : (q.rest ++ bs).head? = q.rest.head? := by
      cases hq : q.rest with
      | nil =>
        rw [hq] at hlen
        simp at hlen
      | cons b rest => rfl
    rw [if_neg (by rw [length_append]; omega),hhead,take_append_of_le_length (by omega)]
    split at h
    · cases h
    rename_i hstar
    rw [if_neg hstar]
    split at h
    · cases h
      rfl
    split at h
    · rename_i hll
      cases h
      rw [if_pos hll]
      rfl
    rename_i hll
    cases h
    rw [if_neg hll]
    have hk : i + 2 ≤ q.rest.length := by omega
    simp only [Except.map,trim,append,QueryBuf.trim,QueryBuf.append,
      QueryBuf.advance,drop_append_of_le_length hk]

lemma readBulkLen_known (h : q.bulklen.isSome = true) : readBulkLen maxlen q = .ok q := by
  rw [readBulkLen,if_pos h]

lemma readBulkLen_append (maxlen : Int) (hb : lineBounded (q.rest ++ bs) 13 = true)
    (hs : (readBulkLen maxlen q).settled = true) :
    (readBulkLen maxlen (q.append bs)).trim = ((readBulkLen maxlen q).append bs).trim := by
  by_cases hknown : q.bulklen.isSome = true
  · rw [readBulkLen_known hknown,readBulkLen_known (q := q.append bs) hknown]
    rfl
  unfold readBulkLen at hs ⊢
  have hr : (q.append bs).rest = q.rest ++ bs := rfl
  have hk : (q.append bs).bulklen = q.bulklen := rfl
  rw [hr,hk,if_neg hknown,if_neg hknown]
  rw [if_neg hknown] at hs
  cases hi : strchr q.rest 13 with
  | none =>
    rw [hi] at hs
    dsimp only at hs ⊢
    split at hs
    · rename_i hlen
      rw [strchr_none_append hi hlen hb]
      dsimp only
      rw [if_pos hlen,if_pos (by rw [length_append]; omega)]
      rfl
    · cases hs
  | some i =>
    rw [hi] at hs
    rw [strchr_append hi]
    dsimp only at hs ⊢
    split at hs
    · cases hs
    rename_i hlen
    have hhead : (q.rest ++ bs).head? = q.rest.head? ∧ (q.rest ++ bs).headD 0 = q.rest.headD 0 := by
      cases hq : q.rest with
      | nil =>
        rw [hq] at hlen
        simp at hlen
      | cons b rest => exact ⟨rfl,rfl⟩
    rw [if_neg hlen,if_neg (by rw [length_append]; omega),hhead.1,hhead.2,
      take_append_of_le_length (by omega)]
    split
    · rfl
    split
    · rfl
    split
    · rfl
    have hle : i + 2 ≤ q.rest.length := by omega
    have hleft : ∀ (p : Prop) [Decidable p] (x : QueryBuf),
        trim (if p then .ok x.trim else .ok x) = .ok x.trim := by
      intro p _ x
      split <;> rfl
    have hright : ∀ (p : Prop) [Decidable p] (x : QueryBuf),
        trim (append (if p then .ok x.trim else .ok x) bs) =
          .ok (x.append bs).trim := by
      intro p _ x
      split <;> rfl
    rw [hleft,hright]
    simp only [QueryBuf.trim,QueryBuf.append,QueryBuf.advance,drop_append_of_le_length hle]

lemma readBulkArg_append (hs : (readBulkArg q).settled = true) :
    (readBulkArg (q.append bs)).trim = ((readBulkArg q).append bs).trim := by
  rw [append_trim,readBulkArg_copied,readBulkArg_copied]
  have hr : (q.append bs).rest = q.rest ++ bs := rfl
  have hk : (q.append bs).bulklen = q.bulklen := rfl
  have hlen : ¬ q.rest.length < q.bulklen.getD 0 + 2 := by
    intro hlt
    unfold readBulkArg at hs
    dsimp only at hs
    rw [if_pos hlt] at hs
    cases hs
  rw [hr,hk,if_neg hlen,if_neg (by rw [length_append]; omega),
    take_append_of_le_length (by omega),drop_append_of_le_length (by omega)]
  rfl

end

/-! One argument, and all the arguments that are left. -/

section
variable {q q' : QueryBuf} {maxlen : Int} {bs : Bytes} {r s : Parse} {f : QueryBuf → Parse}

lemma Parse.andThen_congr (hf : ∀ q, (f q).trim = (f q.trim).trim) (h : r.trim = s.trim) :
    (r.andThen f).trim = (s.andThen f).trim := by
  rw [andThen_trim hf,h,← andThen_trim hf]

lemma Parse.andThen_append (hf : ∀ q, (f q).trim = (f q.trim).trim)
    (hr : r.settled = true → s.trim = (r.append bs).trim)
    (h : ∀ q, r = .ok q → (f q).settled = true → (f (q.append bs)).trim = ((f q).append bs).trim)
    (hs : (r.andThen f).settled = true) : (s.andThen f).trim = ((r.andThen f).append bs).trim := by
  cases r with
  | more q => cases hs
  | error q e => exact andThen_congr hf (hr rfl)
  | ok q => exact (andThen_congr hf (hr rfl)).trans (h q rfl hs)

lemma readBulk_trim (q : QueryBuf) : (readBulk maxlen q).trim = (readBulk maxlen q.trim).trim :=
  andThen_congr readBulkArg_trim (readBulkLen_trim q)

lemma readBulks_succ (m : Nat) (q : QueryBuf) :
    readBulks maxlen (m+1) q = (readBulk maxlen q).andThen (readBulks maxlen m) := rfl

lemma readBulk_append (maxlen : Int) (hb : lineBounded (q.rest ++ bs) 13 = true)
    (hs : (readBulk maxlen q).settled = true) :
    (readBulk maxlen (q.append bs)).trim = ((readBulk maxlen q).append bs).trim :=
  andThen_append readBulkArg_trim (readBulkLen_append maxlen hb)
    (fun _ _ => readBulkArg_append) hs

lemma readBulk_more (hb : lineBounded (q.rest ++ bs) 13 = true)
    (h : readBulk maxlen q = .more q') :
    (readBulk maxlen (q'.append bs)).trim = (readBulk maxlen (q.append bs)).trim ∧
      q'.multibulklen = q.multibulklen ∧ q'.reqtype = q.reqtype := by
  unfold readBulk at h ⊢
  cases hl : readBulkLen maxlen q with
  | more q₁ =>
    rw [hl] at h
    cases h
    rw [(readBulkLen_from maxlen q).of_more hl]
    exact ⟨rfl,rfl,rfl⟩
  | error q₁ e =>
    rw [hl] at h
    cases h
  | ok q₁ =>
    rw [hl] at h
    have hq := (readBulkArg_from q₁).of_more h
    subst hq
    have hlen := readBulkLen_append maxlen hb (by rw [hl]; rfl)
    rw [hl] at hlen
    obtain ⟨_,hknown,hm,ht⟩ := (readBulkLen_from maxlen q).of_ok hl
    rw [readBulkLen_known (q := q'.append bs) hknown]
    exact ⟨(andThen_congr readBulkArg_trim hlen).symm,hm,ht⟩

lemma readBulk_ok (h : readBulk maxlen q = .ok q') :
    q'.multibulklen = q.multibulklen - 1 ∧ q'.reqtype = q.reqtype := by
  obtain ⟨q₁,hl,ha⟩ := andThen_ok_iff.mp h
  obtain ⟨_,_,hm,ht⟩ := (readBulkLen_from maxlen q).of_ok hl
  obtain ⟨_,_,hm',ht'⟩ := (readBulkArg_from q₁).of_ok ha
  exact ⟨by rw [hm',hm],ht'.trans ht⟩

lemma Parse.ok_of_trim (h : r.trim = (ok q).trim) :
    ∃ q', r = .ok q' ∧ q'.trim = q.trim := by
  cases r with
  | ok q' => exact ⟨q',rfl,by simpa [trim] using h⟩
  | more | error => cases h

lemma bulksBounded_succ : bulksBounded maxlen (m+1) q = true ↔ lineBounded q.rest 13 = true ∧
      ∀ q', readBulk maxlen q = .ok q' → bulksBounded maxlen m q' = true := by
  rw [bulksBounded,Bool.and_eq_true]
  cases readBulk maxlen q with
  | ok | more | error => simp

lemma bulksBounded_congr (h : q.trim = q'.trim) (hb : bulksBounded maxlen m q = true) :
    bulksBounded maxlen m q' = true := by
  induction m generalizing q q' with
  | zero => rfl
  | succ m ih =>
    obtain ⟨hline,hrest⟩ := bulksBounded_succ.mp hb
    have hr : q.trim.rest = q'.trim.rest := by rw [h]
    rw [show q.rest = q'.rest from hr] at hline
    refine bulksBounded_succ.mpr ⟨hline,fun q₂ hq₂ => ?_⟩
    have hbulk : (readBulk maxlen q).trim = (readBulk maxlen q').trim := by
      rw [readBulk_trim,h,← readBulk_trim]
    rw [hq₂] at hbulk
    obtain ⟨q₁,hq₁,ht⟩ := ok_of_trim hbulk
    exact ih ht (hrest q₁ hq₁)

lemma bulksBounded_ok (hb : bulksBounded maxlen (m+1) (q.append bs) = true)
    (h : readBulk maxlen q = .ok q') : bulksBounded maxlen m (q'.append bs) = true := by
  obtain ⟨hline,hrest⟩ := bulksBounded_succ.mp hb
  have ha := readBulk_append maxlen hline (by rw [h]; rfl)
  rw [h] at ha
  obtain ⟨q₂,hq₂,ht⟩ := ok_of_trim ha
  exact bulksBounded_congr ht (hrest q₂ hq₂)

lemma readBulks_append (hb : bulksBounded maxlen m (q.append bs) = true)
    (hs : (readBulks maxlen m q).settled = true) :
    (readBulks maxlen m (q.append bs)).trim = ((readBulks maxlen m q).append bs).trim := by
  induction m generalizing q with
  | zero => rfl
  | succ m ih =>
    rw [readBulks_succ] at hs ⊢
    rw [readBulks_succ]
    have hline := (bulksBounded_succ.mp hb).1
    exact andThen_append (readBulks_trim m) (readBulk_append maxlen hline)
      (fun q₁ hq => ih (bulksBounded_ok hb hq)) hs

lemma readBulks_more (hm : q.multibulklen = m) (hb : bulksBounded maxlen m (q.append bs) = true)
    (h : readBulks maxlen m q = .more q') : (readBulks maxlen q'.multibulklen (q'.append bs)).trim =
        (readBulks maxlen m (q.append bs)).trim ∧
      q'.multibulklen ≠ 0 ∧ q'.reqtype = q.reqtype := by
  induction m generalizing q with
  | zero => cases h
  | succ m ih =>
    rw [readBulks_succ] at h
    rw [readBulks_succ]
    have hline := (bulksBounded_succ.mp hb).1
    cases hq : readBulk maxlen q with
    | error q₁ e =>
      rw [hq] at h
      cases h
    | more q₁ =>
      rw [hq] at h
      cases h
      obtain ⟨ha,hm',ht⟩ := readBulk_more hline hq
      rw [hm',hm,readBulks_succ]
      exact ⟨andThen_congr (readBulks_trim m) ha,by omega,ht⟩
    | ok q₁ =>
      rw [hq] at h
      obtain ⟨hm',ht⟩ := readBulk_ok hq
      obtain ⟨hr,hne,ht'⟩ := ih (by omega) (bulksBounded_ok hb hq) h
      have ha := readBulk_append maxlen hline (by rw [hq]; rfl)
      rw [hq] at ha
      exact ⟨hr.trans (andThen_congr (readBulks_trim m) ha).symm,hne,ht'.trans ht⟩

end

/-! A request, from its first byte on. -/

section
variable {q q' : QueryBuf} {maxlen : Int} {bs ss : Bytes} {t : ReqType}

lemma map_andThen_congr {x y : Except ParseFault Parse} (hf : ∀ q, (f q).trim = (f q.trim).trim)
    (h : x.map trim = y.map trim) :
    (x.map fun r => r.andThen f).map trim = (y.map fun r => r.andThen f).map trim := by
  cases x with
  | error e =>
    cases y with
    | error e' => simpa [Except.map] using h
    | ok s => simp [Except.map] at h
  | ok r =>
    cases y with
    | error e' => simp [Except.map] at h
    | ok s =>
      have hrs : r.trim = s.trim := by simpa [Except.map] using h
      simp only [Except.map,Except.ok.injEq]
      exact andThen_congr hf hrs

def readArgs (maxlen : Int) (q : QueryBuf) : Parse := readBulks maxlen q.multibulklen q

lemma readArgs_trim (q : QueryBuf) : (readArgs maxlen q).trim = (readArgs maxlen q.trim).trim :=
  readBulks_trim q.multibulklen q

lemma multibulk_start (h : q.multibulklen = 0) : processMultibulkBuffer maxlen q =
      (readMultibulkLen q).map fun r => r.andThen (readArgs maxlen) := by
  unfold processMultibulkBuffer
  rw [if_pos h]
  rfl

lemma multibulk_resume (h : q.multibulklen ≠ 0) :
    processMultibulkBuffer maxlen q = .ok (readArgs maxlen q) := by
  unfold processMultibulkBuffer
  rw [if_neg h]
  rfl

lemma multibulk_trim (q : QueryBuf) : (processMultibulkBuffer maxlen q).map trim =
      (processMultibulkBuffer maxlen q.trim).map trim := by
  by_cases h : q.multibulklen = 0
  · rw [multibulk_start h,multibulk_start (q := q.trim) h]
    exact map_andThen_congr readArgs_trim (multibulkLen_trim q)
  rw [multibulk_resume h,multibulk_resume (q := q.trim) h]
  exact congrArg Except.ok (readArgs_trim q)

lemma nextRequest_trim (q : QueryBuf) :
    (nextRequest maxlen q).map trim = (nextRequest maxlen q.trim).map trim := by
  unfold nextRequest
  have hq : q.trim.determineType = q.determineType.trim := rfl
  have ht : q.determineType.trim.reqtype = q.determineType.reqtype := rfl
  rw [hq,ht]
  split
  · exact congrArg Except.ok (inlineBuffer_trim q.determineType)
  · exact multibulk_trim q.determineType

def QueryBuf.typed (t : ReqType) (bs : Bytes) : QueryBuf := { fresh bs with reqtype := some t }

lemma determineType_of_some (h : q.reqtype = some t) : q.determineType = q := by
  unfold QueryBuf.determineType
  rw [h,getD_some,← h]

lemma nextRequest_inline (h : q.reqtype = some .inline) :
    nextRequest maxlen q = .ok (processInlineBuffer q) := by
  unfold nextRequest
  rw [determineType_of_some h,if_pos h]

lemma nextRequest_multibulk (h : q.reqtype = some .multibulk) :
    nextRequest maxlen q = processMultibulkBuffer maxlen q := by
  unfold nextRequest
  rw [determineType_of_some h,if_neg (by rw [h]; simp)]

lemma determineType_fresh : (QueryBuf.fresh ss).determineType =
    .typed (if ss.head? = some 42 then .multibulk else .inline) ss := rfl

lemma nextRequest_fresh : nextRequest maxlen (.fresh ss) =
    nextRequest maxlen (.typed (if ss.head? = some 42 then .multibulk else .inline) ss) := by
  unfold nextRequest
  rw [determineType_fresh]
  rfl

/-- What the parser does with a buffer when `bs` follows: a request or an error it finds
without them is the same with them, and what it has read of an incomplete one is kept. -/
def Continues (maxlen : Int) (q : QueryBuf) (bs : Bytes) (r : Parse) : Prop :=
  (r.settled = true → (nextRequest maxlen (q.append bs)).map trim = .ok (r.append bs).trim) ∧
  ∀ q', r = .more q' → (nextRequest maxlen (q'.append bs)).map trim =
    (nextRequest maxlen (q.append bs)).map trim

lemma continues_inline (h : q.reqtype = some .inline)
    (hb : lineBounded (q.rest ++ bs) 10 = true) :
    Continues maxlen q bs (processInlineBuffer q) := by
  constructor
  · intro hs
    rw [nextRequest_inline (q := q.append bs) h]
    exact congrArg Except.ok (inlineBuffer_append hb hs)
  intro q' hq
  rw [(inlineBuffer_from q).of_more hq]

lemma continues_multibulk (h : q.reqtype = some .multibulk) (hm : q.multibulklen = 0)
    (hb : lineBounded (q.rest ++ bs) 13 = true) (hbulks : ∀ q₁, readMultibulkLen q = .ok (.ok q₁) →
      bulksBounded maxlen q₁.multibulklen (q₁.append bs) = true)
    (hr : processMultibulkBuffer maxlen q = .ok r) : Continues maxlen q bs r := by
  rw [multibulk_start hm] at hr
  obtain ⟨r₀,hr₀,rfl⟩ := map_ok.mp hr
  have happ : nextRequest maxlen (q.append bs) =
      (readMultibulkLen (q.append bs)).map fun r => r.andThen (readArgs maxlen) := by
    rw [nextRequest_multibulk (q := q.append bs) h]
    exact multibulk_start hm
  cases r₀ with
  | more q₀ =>
    refine ⟨fun hs => (Bool.false_ne_true hs).elim,fun q' hq => ?_⟩
    cases hq
    rw [(multibulkLen_from hr₀).of_more rfl]
  | error q₀ e =>
    refine ⟨fun hs => ?_,fun q' hq => Parse.noConfusion hq⟩
    have ha := multibulkLen_append hb hr₀ rfl
    rw [happ]
    exact map_andThen_congr (y := .ok (append (.error q₀ e) bs)) readArgs_trim ha
  | ok q₁ =>
    have ha := multibulkLen_append hb hr₀ rfl
    have hlen : (nextRequest maxlen (q.append bs)).map trim =
        .ok (readArgs maxlen (q₁.append bs)).trim := by
      rw [happ]
      exact map_andThen_congr (y := .ok (.ok (q₁.append bs))) readArgs_trim ha
    constructor
    · intro hs
      rw [hlen]
      exact congrArg Except.ok (readBulks_append (hbulks q₁ hr₀) hs)
    intro q' hq
    obtain ⟨hmore,hne,ht⟩ := readBulks_more rfl (hbulks q₁ hr₀) hq
    have htype : q'.reqtype = some .multibulk := by
      rw [ht,((multibulkLen_from hr₀).of_ok rfl).2.2,h]
    rw [hlen,nextRequest_multibulk (q := q'.append bs) htype,
      multibulk_resume (q := q'.append bs) hne]
    exact congrArg Except.ok hmore

lemma multibulkLen_noFault (ha : q.argv = []) (hr : q.rest.head? = some 42) :
    ∃ r, readMultibulkLen q = .ok r := by
  unfold readMultibulkLen
  rw [if_neg (by simp [ha])]
  split
  · exact ⟨_,rfl⟩
  split
  · exact ⟨_,rfl⟩
  rw [if_neg (by simp [hr])]
  split
  · exact ⟨_,rfl⟩
  split <;> exact ⟨_,rfl⟩

lemma requestBounded_multibulk (h : ss.head? = some 42) : requestBounded maxlen ss = true ↔
    lineBounded ss 13 = true ∧ ∀ q, readMultibulkLen (.typed .multibulk ss) = .ok (.ok q) →
      bulksBounded maxlen q.multibulklen q = true := by
  unfold requestBounded
  rw [if_pos h,determineType_fresh,if_pos h,Bool.and_eq_true]
  cases readMultibulkLen (.typed .multibulk ss) with
  | error f => simp
  | ok r => cases r <;> simp

lemma requestBounded_inline (h : ss.head? ≠ some 42) :
    requestBounded maxlen ss = lineBounded ss 10 := by
  unfold requestBounded
  rw [if_neg h]

lemma bulksBounded_start (h : (ss ++ bs).head? = some 42)
    (hb : requestBounded maxlen (ss ++ bs) = true)
    (hq : readMultibulkLen (.typed .multibulk ss) = .ok (.ok q)) :
    bulksBounded maxlen q.multibulklen (q.append bs) = true := by
  obtain ⟨hline,hbulks⟩ := (requestBounded_multibulk h).mp hb
  have ha := multibulkLen_append hline hq rfl
  cases hr : readMultibulkLen ((QueryBuf.typed .multibulk ss).append bs) with
  | error f =>
    rw [hr] at ha
    cases ha
  | ok r =>
    rw [hr] at ha
    obtain ⟨q₂,rfl,ht⟩ := ok_of_trim (Except.ok.inj ha)
    have hm : q₂.trim.multibulklen = (q.append bs).trim.multibulklen := by rw [ht]
    have hb₂ := bulksBounded_congr ht (hbulks q₂ hr)
    rw [show q₂.multibulklen = q.multibulklen from hm] at hb₂
    exact hb₂

lemma nextRequest_continues (hne : ss ≠ []) (hb : requestBounded maxlen (ss ++ bs) = true) :
    ∃ r, nextRequest maxlen (.fresh ss) = .ok r ∧ Continues maxlen (.fresh ss) bs r := by
  have hhead : (ss ++ bs).head? = ss.head? := head?_append_of_ne_nil ss hne
  have hfresh : nextRequest maxlen ((QueryBuf.fresh ss).append bs) = nextRequest maxlen
      ((QueryBuf.typed (if ss.head? = some 42 then .multibulk else .inline) ss).append bs) := by
    have happ : (QueryBuf.fresh ss).append bs = .fresh (ss ++ bs) := rfl
    rw [happ,nextRequest_fresh,hhead]
    rfl
  unfold Continues
  rw [nextRequest_fresh,hfresh]
  by_cases h : ss.head? = some 42
  · rw [if_pos h]
    obtain ⟨r₀,hr₀⟩ := multibulkLen_noFault (q := .typed .multibulk ss) rfl h
    have hr : processMultibulkBuffer maxlen (.typed .multibulk ss) = .ok _ :=
      (multibulk_start rfl).trans (map_ok.mpr ⟨r₀,hr₀,rfl⟩)
    rw [nextRequest_multibulk (q := .typed .multibulk ss) rfl,hr]
    refine ⟨_,rfl,continues_multibulk rfl rfl ?_ ?_ hr⟩
    · exact ((requestBounded_multibulk (hhead.trans h)).mp hb).1
    intro q₁ hq₁
    exact bulksBounded_start (hhead.trans h) hb hq₁
  rw [if_neg h,nextRequest_inline (q := .typed .inline ss) rfl]
  refine ⟨_,rfl,continues_inline rfl ?_⟩
  rw [requestBounded_inline (by rw [hhead]; exact h)] at hb
  exact hb

end

/-! A beginning of a stream with short lines has short lines. -/

section
variable {q q' : QueryBuf} {maxlen : Int} {bs ss : Bytes}

lemma lineBounded_of_longer {c : UInt8} (h : lineBounded (ss ++ bs) c = true) :
    lineBounded ss c = true := by
  unfold lineBounded at h ⊢
  cases hs : strchr ss c with
  | none => rfl
  | some i =>
    rw [strchr_append hs] at h
    exact h

lemma bulksBounded_prefix (h : bulksBounded maxlen m (q.append bs) = true) :
    bulksBounded maxlen m q = true := by
  induction m generalizing q with
  | zero => rfl
  | succ m ih =>
    refine bulksBounded_succ.mpr ⟨lineBounded_of_longer (bulksBounded_succ.mp h).1,?_⟩
    intro q' hq
    exact ih (bulksBounded_ok h hq)

lemma requestBounded_of_longer (hne : ss ≠ []) (h : requestBounded maxlen (ss ++ bs) = true) :
    requestBounded maxlen ss = true := by
  have hhead : (ss ++ bs).head? = ss.head? := head?_append_of_ne_nil ss hne
  by_cases hm : ss.head? = some 42
  · have hline := ((requestBounded_multibulk (hhead.trans hm)).mp h).1
    refine (requestBounded_multibulk hm).mpr ⟨lineBounded_of_longer hline,fun q hq => ?_⟩
    exact bulksBounded_prefix (bulksBounded_start (hhead.trans hm) h hq)
  rw [requestBounded_inline (by rw [hhead]; exact hm)] at h
  rw [requestBounded_inline hm]
  exact lineBounded_of_longer h

def ShortLines (maxlen : Int) (ss : Bytes) : Prop := ∀ fuel, streamBounded maxlen fuel ss = true

lemma streamBounded_succ (hne : ss ≠ []) :
    streamBounded maxlen (fuel+1) ss = true ↔ requestBounded maxlen ss = true ∧
      ∀ q, nextRequest maxlen (.fresh ss) = .ok (.ok q) →
        streamBounded maxlen fuel q.rest = true := by
  rw [streamBounded,decide_eq_false hne,Bool.false_or,Bool.and_eq_true]
  cases nextRequest maxlen (.fresh ss) with
  | error f => simp
  | ok r => cases r <;> simp

lemma shortLines_iff (hne : ss ≠ []) : ShortLines maxlen ss ↔ requestBounded maxlen ss = true ∧
    ∀ q, nextRequest maxlen (.fresh ss) = .ok (.ok q) → ShortLines maxlen q.rest := by
  constructor
  · intro h
    refine ⟨((streamBounded_succ hne).mp (h 1)).1,fun q hq fuel => ?_⟩
    exact ((streamBounded_succ hne).mp (h (fuel+1))).2 q hq
  rintro ⟨hr,hq⟩ fuel
  cases fuel with
  | zero => rfl
  | succ fuel => exact (streamBounded_succ hne).mpr ⟨hr,fun q hn => hq q hn fuel⟩

lemma shortLines_nil : ShortLines maxlen [] := by
  intro fuel
  cases fuel with
  | zero | succ => rfl

lemma shortLines_of_fuel (hlen : ss.length < fuel) (h : streamBounded maxlen fuel ss = true) :
    ShortLines maxlen ss := by
  induction fuel generalizing ss with
  | zero => omega
  | succ fuel ih =>
    by_cases hne : ss = []
    · subst hne
      exact shortLines_nil
    obtain ⟨hr,hq⟩ := (streamBounded_succ hne).mp h
    refine (shortLines_iff hne).mpr ⟨hr,fun q hn => ih ?_ (hq q hn)⟩
    have hlt : q.rest.length < ss.length := nextRequest_lt hn
    omega

lemma nextRequest_ok_append (hne : ss ≠ []) (hb : requestBounded maxlen (ss ++ bs) = true)
    (h : nextRequest maxlen (.fresh ss) = .ok (.ok q)) :
    ∃ q', nextRequest maxlen (.fresh (ss ++ bs)) = .ok (.ok q') ∧ q'.trim = (q.append bs).trim := by
  obtain ⟨r,hr,hc,_⟩ := nextRequest_continues hne hb
  cases h.symm.trans hr
  obtain ⟨r',hr',ht⟩ := map_ok.mp (hc rfl)
  obtain ⟨q',rfl,hq'⟩ := ok_of_trim (q := q.append bs) ht
  exact ⟨q',hr',hq'⟩

lemma ShortLines.next (hne : ss ≠ []) (h : ShortLines maxlen (ss ++ bs))
    (hq : nextRequest maxlen (.fresh ss) = .ok (.ok q)) : ShortLines maxlen (q.rest ++ bs) := by
  obtain ⟨hb,hn⟩ := (shortLines_iff (by simp [hne])).mp h
  obtain ⟨q',hq',ht⟩ := nextRequest_ok_append hne hb hq
  have hrest : q'.trim.rest = (q.append bs).trim.rest := by rw [ht]
  have hs := hn q' hq'
  rw [show q'.rest = q.rest ++ bs from hrest] at hs
  exact hs

lemma ShortLines.ofAppend {n : Nat} (hn : ss.length ≤ n) (h : ShortLines maxlen (ss ++ bs)) :
    ShortLines maxlen ss := by
  induction n generalizing ss with
  | zero =>
    have hnil : ss = [] := length_eq_zero_iff.mp (by omega)
    subst hnil
    exact shortLines_nil
  | succ n ih =>
    by_cases hne : ss = []
    · subst hne
      exact shortLines_nil
    have hb := ((shortLines_iff (by simp [hne])).mp h).1
    refine (shortLines_iff hne).mpr ⟨requestBounded_of_longer hne hb,fun q hq => ?_⟩
    have hlt : q.rest.length < ss.length := nextRequest_lt hq
    exact ih (by omega) (h.next hne hq)

end

end RedRock
