import RedRock.CheckRock

/-!
The requests of a connection. What is read from the socket collects in the query buffer,
and one request at a time is taken from it, in the inline or in the multibulk form.
-/

namespace RedRock
open Lib List

/-- The C string at `bs`, which a NUL byte ends. -/
def cstr (bs : Bytes) : Bytes := bs.takeWhile (· ≠ 0)

def strchr (bs : Bytes) (c : UInt8) : Option Nat := (cstr bs).findIdx? (· = c)

lemma strchr_lt {bs : Bytes} {c : UInt8} {i : Nat} (h : strchr bs c = some i) :
    i < bs.length := by
  obtain ⟨hi,_⟩ := findIdx?_eq_some_iff_getElem.mp h
  exact hi.trans_le (takeWhile_sublist _).length_le

def tolower (b : UInt8) : UInt8 := if 65 ≤ b ∧ b ≤ 90 then b + 32 else b

def strcasecmp (a b : Bytes) : Bool := (cstr a).map tolower = (cstr b).map tolower

def isspace (b : UInt8) : Bool := b = 32 ∨ 9 ≤ b ∧ b ≤ 13

def isHexDigit (b : UInt8) : Bool := isDigit b || (65 ≤ b ∧ b ≤ 70) || (97 ≤ b ∧ b ≤ 102)

def hexDigitToInt (b : UInt8) : UInt8 :=
  if isDigit b then b - 48
  else if 65 ≤ b ∧ b ≤ 70 then b - 55
  else if 97 ≤ b ∧ b ≤ 102 then b - 87
  else 0

/-- The byte that a backslash and `b` stand for between double quotes. -/
def unescape (b : UInt8) : UInt8 :=
  if b = 110 then 10
  else if b = 114 then 13
  else if b = 116 then 9
  else if b = 98 then 8
  else if b = 97 then 7
  else b

inductive SplitMode where
  | blank
  | plain
  | inq
  | insq
  deriving DecidableEq

def unquoted (current : Sds) (p : UInt8) : SplitMode × Sds :=
  if p = 34 then (.inq,current)
  else if p = 39 then (.insq,current)
  else (.plain,current ++ [p])

/-- A closing quote is followed by a space or by nothing at all. -/
def closes (ps : Bytes) : Bool := ps.head?.all isspace

/-- `sdssplitargs` in the middle of the line. -/
def splitargsFrom : SplitMode → Sds → Bytes → Option (List Sds)
  | .blank, _, [] => some []
  | .blank, _, p :: ps =>
    if isspace p then splitargsFrom .blank [] ps
    else splitargsFrom (unquoted [] p).1 (unquoted [] p).2 ps
  | .plain, current, [] => some [current]
  | .plain, current, p :: ps =>
    if p = 32 ∨ p = 10 ∨ p = 13 ∨ p = 9 then (splitargsFrom .blank [] ps).map (current :: ·)
    else splitargsFrom (unquoted current p).1 (unquoted current p).2 ps
  | .inq, _, [] => none
  | .inq, current, p :: ps =>
    if p = 92 then
      match ps with
      | x :: a :: b :: rest =>
        if x = 120 ∧ isHexDigit a ∧ isHexDigit b then
          splitargsFrom .inq (current ++ [hexDigitToInt a * 16 + hexDigitToInt b]) rest
        else splitargsFrom .inq (current ++ [unescape x]) (a :: b :: rest)
      | [x,a] => splitargsFrom .inq (current ++ [unescape x]) [a]
      | [_] | [] => none
    else if p = 34 then
      if closes ps then (splitargsFrom .blank [] ps).map (current :: ·) else none
    else splitargsFrom .inq (current ++ [p]) ps
  | .insq, _, [] => none
  | .insq, current, p :: ps =>
    if p = 92 ∧ ps.head? = some 39 then
      match ps with
      | _ :: rest => splitargsFrom .insq (current ++ [39]) rest
      | [] => none
    else if p = 39 then
      if closes ps then (splitargsFrom .blank [] ps).map (current :: ·) else none
    else splitargsFrom .insq (current ++ [p]) ps

def sdssplitargs (line : Bytes) : Option (List Sds) := splitargsFrom .blank [] (cstr line)

inductive ReqType where
  | inline
  | multibulk
  deriving DecidableEq

/-- The fields of a client that hold its input. `querybuf` is `parsed ++ rest`, and
`qb_pos` is where `rest` begins. -/
structure QueryBuf where
  parsed : Bytes
  rest : Bytes
  reqtype : Option ReqType
  multibulklen : Nat
  bulklen : Option Nat
  argv : List Sds
  deriving DecidableEq

namespace QueryBuf

def empty : QueryBuf := ⟨[],[],none,0,none,[]⟩

variable (q : QueryBuf)

def sdslen : Nat := q.parsed.length + q.rest.length

def qbPos : Nat := q.parsed.length

def advance (k : Nat) : QueryBuf :=
  { q with parsed := q.parsed ++ q.rest.take k, rest := q.rest.drop k }

/-- `sdsrange(c->querybuf,c->qb_pos,-1)`. -/
def trim : QueryBuf := { q with parsed := [] }

def append (bs : Bytes) : QueryBuf := { q with rest := q.rest ++ bs }

def reset : QueryBuf :=
  { q with reqtype := none, multibulklen := 0, bulklen := none, argv := [] }

end QueryBuf

inductive ProtocolError where
  | bigInline
  | unbalancedQuotes
  | bigMbulkCount
  | invalidMbulkCount
  | bigBulkCount
  | expectedDollar (got : UInt8)
  | invalidBulkLength
  deriving DecidableEq

/-- `C_OK`; or `C_ERR` because more has to be read, or after a protocol error. -/
inductive Parse where
  | ok (q : QueryBuf)
  | more (q : QueryBuf)
  | error (q : QueryBuf) (e : ProtocolError)
  deriving DecidableEq

namespace Parse

def buf : Parse → QueryBuf
  | ok q | more q | error q _ => q

def andThen (r : Parse) (f : QueryBuf → Parse) : Parse :=
  match r with
  | ok q => f q
  | r => r

end Parse

inductive ParseFault where
  | argc
  | star
  deriving DecidableEq

def protoInlineMaxSize : Nat := 1024 * 64

def protoMbulkBigArg : Nat := 1024 * 32

def processInlineBuffer (q : QueryBuf) : Parse :=
  match strchr q.rest 10 with
  | none => if q.rest.length > protoInlineMaxSize then .error q .bigInline else .more q
  | some i =>
    let crlf := i ≠ 0 ∧ q.rest[i-1]? = some 13
    let querylen := if crlf then i-1 else i
    let linefeedChars := if crlf then 2 else 1
    match sdssplitargs (q.rest.take querylen) with
    | none => .error q .unbalancedQuotes
    | some argv => .ok { q.advance (querylen + linefeedChars) with argv := argv }

/-- The number of arguments. A number that is not positive is a request without any. -/
def readMultibulkLen (q : QueryBuf) : Except ParseFault Parse :=
  if q.argv ≠ [] then .error .argc
  else
    match strchr q.rest 13 with
    | none => .ok (if q.rest.length > protoInlineMaxSize then .error q .bigMbulkCount else .more q)
    | some i =>
      if q.rest.length < i + 2 then .ok (.more q)
      else if q.rest.head? ≠ some 42 then .error .star
      else
        match string2ll ((q.rest.take i).drop 1) with
        | none => .ok (.error q .invalidMbulkCount)
        | some ll =>
          if ll > 1024 * 1024 then .ok (.error q .invalidMbulkCount)
          else .ok (.ok { q.advance (i + 2) with multibulklen := ll.toNat })

def readBulkLen (protoMaxBulkLen : Int) (q : QueryBuf) : Parse :=
  if q.bulklen.isSome then .ok q
  else
    match strchr q.rest 13 with
    | none => if q.rest.length > protoInlineMaxSize then .error q .bigBulkCount else .more q
    | some i =>
      if q.rest.length < i + 2 then .more q
      else if q.rest.head? ≠ some 36 then .error q (.expectedDollar (q.rest.headD 0))
      else
        match string2ll ((q.rest.take i).drop 1) with
        | none => .error q .invalidBulkLength
        | some ll =>
          if ll < 0 ∨ ll > protoMaxBulkLen then .error q .invalidBulkLength
          else
            let q' := { q.advance (i + 2) with bulklen := some ll.toNat }
            -- a large argument should start at the beginning of the buffer
            if protoMbulkBigArg ≤ ll.toNat ∧ q'.rest.length ≤ ll.toNat + 2 then .ok q'.trim
            else .ok q'

def readBulkArg (q : QueryBuf) : Parse :=
  let len := q.bulklen.getD 0
  if q.rest.length < len + 2 then .more q
  else
    let q' := { q with bulklen := none, multibulklen := q.multibulklen - 1 }
    -- a buffer that holds just the argument becomes the argument, without its last two bytes
    if q.qbPos = 0 ∧ protoMbulkBigArg ≤ len ∧ q.sdslen = len + 2 then
      .ok { q' with argv := q.argv ++ [(q.parsed ++ q.rest).take (q.sdslen - 2)], rest := [] }
    else .ok { q'.advance (len + 2) with argv := q.argv ++ [q.rest.take len] }

def readBulks (protoMaxBulkLen : Int) : Nat → QueryBuf → Parse
  | 0, q => .ok q
  | m+1, q =>
    ((readBulkLen protoMaxBulkLen q).andThen readBulkArg).andThen (readBulks protoMaxBulkLen m)

def processMultibulkBuffer (protoMaxBulkLen : Int) (q : QueryBuf) : Except ParseFault Parse :=
  let bulks := fun q' : QueryBuf => readBulks protoMaxBulkLen q'.multibulklen q'
  if q.multibulklen = 0 then (readMultibulkLen q).map fun r => r.andThen bulks
  else .ok (bulks q)

def QueryBuf.determineType (q : QueryBuf) : QueryBuf :=
  { q with reqtype := some (q.reqtype.getD
      (if q.rest.head? = some 42 then .multibulk else .inline)) }

def nextRequest (protoMaxBulkLen : Int) (q : QueryBuf) : Except ParseFault Parse :=
  if q.determineType.reqtype = some .inline then .ok (processInlineBuffer q.determineType)
  else processMultibulkBuffer protoMaxBulkLen q.determineType

namespace Parse
variable {q q' : QueryBuf} {r : Parse} {f : QueryBuf → Parse} {P : QueryBuf → Prop}

lemma andThen_ok_iff : r.andThen f = ok q' ↔ ∃ q, r = ok q ∧ f q = ok q' := by
  cases r <;> simp [andThen]

lemma andThen_suffix {l : Bytes} (hr : r.buf.rest <:+ l) (hf : ∀ q, (f q).buf.rest <:+ q.rest) :
    (r.andThen f).buf.rest <:+ l := by
  cases r with
  | ok q => exact (hf q).trans hr
  | more | error => exact hr

/-- The buffer is as it was, unless something was read from it. -/
inductive From (q : QueryBuf) (P : QueryBuf → Prop) : Parse → Prop
  | more : From q P (.more q)
  | error (e : ProtocolError) : From q P (.error q e)
  | ok {q' : QueryBuf} (h : P q') : From q P (.ok q')

lemma From.suffix (h : From q P r) (hP : ∀ q', P q' → q'.rest <:+ q.rest) :
    r.buf.rest <:+ q.rest := by
  cases h with
  | more | error e => exact suffix_rfl
  | ok h => exact hP _ h

lemma From.of_ok (h : From q P r) (hr : r = .ok q') : P q' := by
  subst hr
  cases h with
  | ok h => exact h

lemma From.of_more (h : From q P r) (hr : r = .more q') : q' = q := by
  subst hr
  cases h with
  | more => rfl

end Parse

section Consumption
variable {q q' : QueryBuf} {r : Parse} {maxlen : Int}

lemma inlineBuffer_from (q : QueryBuf) :
    Parse.From q (fun q' => q'.rest <:+ q.rest ∧ q'.rest.length < q.rest.length)
      (processInlineBuffer q) := by
  unfold processInlineBuffer
  split
  · split
    · exact .error _
    · exact .more
  rename_i i hi
  have hlt := strchr_lt hi
  dsimp only
  split
  · exact .error _
  refine .ok ⟨drop_suffix _ _,?_⟩
  simp only [QueryBuf.advance,length_drop]
  split <;> omega

lemma multibulkLen_from (h : readMultibulkLen q = .ok r) :
    Parse.From q (fun q' => q'.rest <:+ q.rest ∧ q'.rest.length < q.rest.length ∧
      q'.reqtype = q.reqtype) r := by
  unfold readMultibulkLen at h
  split at h
  · cases h
  split at h
  · cases h
    split
    · exact .error _
    · exact .more
  split at h
  · cases h
    exact .more
  split at h
  · cases h
  split at h
  · cases h
    exact .error _
  split at h
  · cases h
    exact .error _
  cases h
  refine .ok ⟨drop_suffix _ _,?_,rfl⟩
  simp only [QueryBuf.advance,length_drop]
  omega

lemma readBulkLen_from (maxlen : Int) (q : QueryBuf) :
    Parse.From q (fun q' => q'.rest <:+ q.rest ∧ q'.bulklen.isSome = true ∧
      q'.multibulklen = q.multibulklen ∧ q'.reqtype = q.reqtype) (readBulkLen maxlen q) := by
  unfold readBulkLen
  split
  · rename_i hknown
    exact .ok ⟨suffix_rfl,hknown,rfl,rfl⟩
  split
  · split
    · exact .error _
    · exact .more
  split
  · exact .more
  split
  · exact .error _
  split
  · exact .error _
  split
  · exact .error _
  dsimp only
  split <;> exact .ok ⟨drop_suffix _ _,rfl,rfl,rfl⟩

lemma readBulkArg_from (q : QueryBuf) :
    Parse.From q (fun q' => q'.rest <:+ q.rest ∧ q'.rest.length < q.rest.length ∧
      q'.multibulklen = q.multibulklen - 1 ∧ q'.reqtype = q.reqtype) (readBulkArg q) := by
  unfold readBulkArg
  dsimp only
  split
  · exact .more
  split
  · refine .ok ⟨nil_suffix,?_,rfl,rfl⟩
    simp only [length_nil]
    omega
  refine .ok ⟨drop_suffix _ _,?_,rfl,rfl⟩
  simp only [QueryBuf.advance,length_drop]
  omega

lemma readBulkLen_suffix : (readBulkLen maxlen q).buf.rest <:+ q.rest :=
  (readBulkLen_from maxlen q).suffix fun _ h => h.1

lemma readBulks_suffix (m : Nat) : (readBulks maxlen m q).buf.rest <:+ q.rest := by
  induction m generalizing q with
  | zero => exact suffix_rfl
  | succ m ih =>
    refine Parse.andThen_suffix ?_ fun _ => ih
    exact Parse.andThen_suffix readBulkLen_suffix fun q => (readBulkArg_from q).suffix fun _ h => h.1

lemma readBulks_lt {m : Nat} (hm : m ≠ 0) (h : readBulks maxlen m q = .ok q') :
    q'.rest.length < q.rest.length := by
  obtain ⟨m,rfl⟩ := Nat.exists_eq_succ_of_ne_zero hm
  obtain ⟨q₂,h₂,h⟩ := Parse.andThen_ok_iff.mp h
  obtain ⟨q₁,h₁,h₂⟩ := Parse.andThen_ok_iff.mp h₂
  have hlen : q₁.rest.length ≤ q.rest.length := by
    have hs : (readBulkLen maxlen q).buf.rest <:+ q.rest := readBulkLen_suffix
    rw [h₁] at hs
    exact hs.length_le
  have harg := ((readBulkArg_from q₁).of_ok h₂).2.1
  have hrest : q'.rest.length ≤ q₂.rest.length := by
    have hs : (readBulks maxlen m q₂).buf.rest <:+ q₂.rest := readBulks_suffix m
    rw [h] at hs
    exact hs.length_le
  omega

lemma multibulk_suffix (h : processMultibulkBuffer maxlen q = .ok r) : r.buf.rest <:+ q.rest := by
  unfold processMultibulkBuffer at h
  split at h
  · obtain ⟨r₀,h₀,rfl⟩ := map_ok.mp h
    have hs := (multibulkLen_from h₀).suffix fun _ h => h.1
    exact Parse.andThen_suffix hs fun _ => readBulks_suffix _
  cases h
  exact readBulks_suffix _

lemma multibulk_lt (h : processMultibulkBuffer maxlen q = .ok (.ok q')) :
    q'.rest.length < q.rest.length := by
  unfold processMultibulkBuffer at h
  split at h
  · obtain ⟨r₀,h₀,hr⟩ := map_ok.mp h
    obtain ⟨q₁,rfl,hb⟩ := Parse.andThen_ok_iff.mp hr
    have hlt := ((multibulkLen_from h₀).of_ok rfl).2.1
    have hs : (readBulks maxlen q₁.multibulklen q₁).buf.rest <:+ q₁.rest := readBulks_suffix _
    rw [hb] at hs
    exact hs.length_le.trans_lt hlt
  rename_i hm
  exact readBulks_lt hm (Except.ok.inj h)

lemma nextRequest_suffix (h : nextRequest maxlen q = .ok r) : r.buf.rest <:+ q.rest := by
  unfold nextRequest at h
  split at h
  · cases h
    exact (inlineBuffer_from q.determineType).suffix fun _ h => h.1
  · exact multibulk_suffix (q := q.determineType) h

lemma nextRequest_lt (h : nextRequest maxlen q = .ok (.ok q')) :
    q'.rest.length < q.rest.length := by
  unfold nextRequest at h
  split at h
  · exact ((inlineBuffer_from q.determineType).of_ok (Except.ok.inj h)).2
  · exact multibulk_lt (q := q.determineType) h

end Consumption
end RedRock
