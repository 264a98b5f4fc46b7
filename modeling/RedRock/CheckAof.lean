import RedRock.AofLoad

/-!
`redis-check-aof` reads the commands of an append only file with a parser of its own. How far it
takes a file to be valid is compared with what `loadAppendOnlyFile` makes of that part.
-/

namespace RedRock.CheckAof
open RedRock RedRock.Lib List

/-- A reader gives up, or there is no defined result: a length that is negative or cannot be
added two to, or a count of strings that no `int` reaches. -/
inductive Stop where
  | err
  | fault

/-- Where `strtol` sets the end pointer. -/
def strtolEnd (s : Bytes) : Bytes :=
  let ds := (cstr s).dropWhile isspace
  let ds := if ds.head? = some 45 ∨ ds.head? = some 43 then ds.tail else ds
  if ds.takeWhile isDigit = [] then cstr s else ds.dropWhile isDigit

def consumeNewline (buf : Bytes) : Bool := buf.take 2 = [13,10]

def readLong (mark : UInt8) (s : Bytes) : Except Stop (Int × Bytes) :=
  match fgets 128 s with
  | none => .error .err
  | some (buf,s,_) =>
    if buf.head? ≠ some mark then .error .err
    else if consumeNewline (strtolEnd (buf.drop 1)) then .ok (strtol (buf.drop 1),s)
    else .error .err

def readString (s : Bytes) : Except Stop (Bytes × Bytes) := do
  let (len,s) ← readLong 36 s
  if len < 0 ∨ 2 ^ 63 - 2 ≤ len then .error .fault
  else
    match fread (len.toNat + 2) s with
    | none => .error .err
    | some (target,s) =>
      if consumeNewline (target.drop len.toNat) then .ok (target.take len.toNat,s) else .error .err

def readStrings : Nat → Bytes → Except Stop Bytes
  | 0, s => .ok s
  | n + 1, s => do
    let (_,s) ← readString s
    readStrings n s

def countMulti (multi : Bool) (str : Bytes) : Except Stop Bool :=
  if strcasecmp str [109,117,108,116,105] then if multi then .error .err else .ok true
  else if strcasecmp str [101,120,101,99] then if multi then .ok false else .error .err
  else .ok multi

/-- The loop over the strings of a command. -/
def checkCommand (argc : Int) (multi : Bool) (s : Bytes) : Except Stop (Bool × Bytes) :=
  if argc ≤ 0 then .ok (multi,s)
  else do
    let (str,s) ← readString s
    let multi ← countMulti multi str
    let s ← readStrings (min argc.toNat (2 ^ 31) - 1) s
    if 2 ^ 31 ≤ argc then .error .fault else .ok (multi,s)

/-- What is left of the file at `pos`, with the counts of the commands in front of it; `seen` are
the counts of all commands so far. -/
def processLoop : Nat → Bool → Bytes × List Int → Bytes → List Int → Option (Bytes × List Int)
  | 0, _, _, _, _ => none
  | fuel + 1, multi, pos, s, seen =>
    let pos := if multi then pos else (s,seen)
    match (do
      let (argc,s) ← readLong 42 s
      let (multi,s) ← checkCommand argc multi s
      return (argc,multi,s)) with
    | .ok (argc,multi,s) => processLoop fuel multi pos s (seen ++ [argc])
    | .error .err => some pos
    | .error .fault => none

/-- The bytes of a command that is accepted, with its count and `multi` before and after it. -/
structure Accepted (bs : Bytes) (argc : Int) (multi multi' : Bool) : Prop where
  head : bs.head? = some 42
  load : 1 ≤ argc → ∃ argv, countMulti multi (argv.headD []) = .ok multi' ∧
    ∀ tail, readCommand (bs ++ tail) = some (.done argv tail)
  fail : ¬1 ≤ argc → ∀ tail, (tail = [] ∨ tail.head? = some 42) →
    readCommand (bs ++ tail) ≠ none ∧ ∀ argv s, readCommand (bs ++ tail) ≠ some (.done argv s)

inductive AcceptedAll : Bool → Bytes → List Int → Bool → Prop where
  | nil (multi : Bool) : AcceptedAll multi [] [] multi
  | cons {multi multi' multi'' : Bool} {bs rest : Bytes} {argc : Int} {argcs : List Int} :
    Accepted bs argc multi multi' → AcceptedAll multi' rest argcs multi'' →
      AcceptedAll multi (bs ++ rest) (argc :: argcs) multi''

variable {mark : UInt8} {s rest bs : Bytes} {v argc : Int} {multi multi' : Bool} {argcs : List Int}

lemma AcceptedAll.snoc {multi₀ : Bool} (h : AcceptedAll multi₀ bs argcs multi) {cs : Bytes}
    (hc : Accepted cs argc multi multi') : AcceptedAll multi₀ (bs ++ cs) (argcs ++ [argc]) multi' := by
  induction h with
  | nil multi => simpa using AcceptedAll.cons hc (.nil multi')
  | cons hb _ ih => simpa using AcceptedAll.cons hb (ih hc)

lemma takeLine_local {n : Nat} {line : Bytes} {feof : Bool} (h : takeLine n s = (line,rest,feof))
    (hline : 10 ∈ line) :
    s = line ++ rest ∧ ∀ tail, takeLine n (line ++ tail) = (line,tail,false) := by
  induction n generalizing s line with
  | zero =>
    cases h
    simp at hline
  | succ n ih =>
    cases s with
    | nil =>
      cases h
      simp at hline
    | cons b s =>
      rw [takeLine] at h
      split at h
      · rename_i hb
        cases h
        exact ⟨rfl,fun tail => by simp [takeLine,hb]⟩
      rename_i hb
      cases h
      obtain ⟨hs,htail⟩ := ih rfl (by simpa [Ne.symm hb] using hline)
      exact ⟨congrArg (b :: ·) hs,fun tail => by simp [takeLine,hb,htail]⟩

lemma strtolEnd_suffix (s : Bytes) : strtolEnd s <:+ cstr s := by
  have hds := dropWhile_suffix (l := cstr s) isspace
  simp only [strtolEnd]
  split_ifs
  · exact suffix_rfl
  · exact (dropWhile_suffix _).trans ((tail_suffix _).trans hds)
  · exact suffix_rfl
  · exact (dropWhile_suffix _).trans hds

lemma readLong_ok (h : readLong mark s = .ok (v,rest)) :
    ∃ buf, s = buf ++ rest ∧ buf.head? = some mark ∧ strtol (buf.drop 1) = v ∧
      (buf.drop 1).headD 0 ≠ 0 ∧ ∀ tail, fgets 128 (buf ++ tail) = some (buf,tail,false) := by
  rw [readLong] at h
  split at h
  · cases h
  rename_i buf s' feof hbuf
  split at h
  · cases h
  rename_i hmark
  split at h
  · rename_i hcrlf
    cases h
    have hend : [13,10] <+: strtolEnd (buf.drop 1) := by
      rw [← of_decide_eq_true hcrlf]
      exact take_prefix ..
    have hmem : 10 ∈ cstr (buf.drop 1) := (strtolEnd_suffix _).subset (hend.subset (by simp))
    have hline : 10 ∈ buf := mem_of_mem_drop (( takeWhile_prefix _).subset hmem)
    rw [fgets] at hbuf
    split at hbuf
    · cases hbuf
    obtain ⟨hs,hread⟩ := takeLine_local (Option.some.inj hbuf) hline
    refine ⟨buf,hs,by simpa using hmark,rfl,?_,fun tail => ?_⟩
    · intro hnul
      cases hb : buf.drop 1 with
      | nil => simp [hb,cstr] at hmem
      | cons b bs => simp_all [cstr]
    · rw [fgets,if_neg (append_ne_nil_of_left_ne_nil (ne_nil_of_mem hline) tail),hread]
  · cases h

lemma readString_ok {str : Bytes} (h : readString s = .ok (str,rest)) :
    ∃ bs, s = bs ++ rest ∧ ∀ tail, readArgument (bs ++ tail) = .done str tail := by
  obtain ⟨⟨len,s'⟩,hlen,hbody⟩ := bind_ok.mp h
  obtain ⟨buf,rfl,hmark,hval,-,hread⟩ := readLong_ok hlen
  simp only at hbody
  split at hbody
  · cases hbody
  rename_i hrange
  split at hbody
  · cases hbody
  rename_i target s'' hfread
  split at hbody
  · cases hbody
    rw [fread] at hfread
    split at hfread
    · rename_i hle
      cases hfread
      have hlen : (s'.take (len.toNat + 2)).length = len.toNat + 2 := length_take_of_le hle
      refine ⟨buf ++ s'.take (len.toNat + 2),by simp,fun tail => ?_⟩
      generalize s'.take (len.toNat + 2) = target at hlen
      have hstr : fread len.toNat (target ++ tail) =
          some (target.take len.toNat,target.drop len.toNat ++ tail) := by
        rw [fread,if_pos (by simp; omega),take_append_of_le_length (by omega),
          drop_append_of_le_length (by omega)]
      have hcrlf : fread 2 (target.drop len.toNat ++ tail) = some (target.drop len.toNat,tail) := by
        have h2 : (target.drop len.toNat).length = 2 := by simp; omega
        rw [← h2,fread_append]
      simp only [readArgument,append_assoc,hread,hmark,hval]
      rw [if_neg (by simp),if_neg (by omega)]
      simp only [hstr,hcrlf]
    · cases hfread
  · cases hbody

lemma readStrings_ok {n : Nat} (h : readStrings n s = .ok rest) :
    ∃ bs argv, s = bs ++ rest ∧ ∀ tail, readArguments n (bs ++ tail) = .done argv tail := by
  induction n generalizing s with
  | zero =>
    cases h
    exact ⟨[],[],rfl,fun _ => rfl⟩
  | succ n ih =>
    obtain ⟨⟨str,s'⟩,hstr,hrest⟩ := bind_ok.mp h
    obtain ⟨bs,rfl,hread⟩ := readString_ok hstr
    obtain ⟨cs,argv,rfl,hargv⟩ := ih hrest
    exact ⟨bs ++ cs,str :: argv,by simp,fun tail => by
      simp [readArguments,append_assoc,hread,hargv]⟩

lemma readArgument_fails (h : s = [] ∨ s.head? = some 42) (str : Bytes) :
    readArgument s ≠ .done str rest := by
  cases s with
  | nil => simp [readArgument_nil]
  | cons b s =>
    obtain rfl : b = 42 := by simpa using h
    simp [readArgument,fgets,takeLine]

lemma checkCommand_ok {s₁ : Bytes} (hargc : readLong 42 s = .ok (argc,s₁))
    (h : checkCommand argc multi s₁ = .ok (multi',rest)) :
    ∃ bs, s = bs ++ rest ∧ Accepted bs argc multi multi' := by
  obtain ⟨buf,rfl,hmark,hval,hnul,hread⟩ := readLong_ok hargc
  have hbuf : ∀ cs : Bytes, (buf ++ cs).head? = some 42 := by simp [hmark]
  rw [checkCommand] at h
  split at h
  · rename_i hle
    cases h
    refine ⟨buf,rfl,by simpa using hbuf [],fun hpos => by omega,fun _ tail htail => ?_⟩
    simp only [readCommand,hread,hmark]
    rw [if_neg (by simp),if_neg hnul]
    split
    · simp
    obtain ⟨n,hn⟩ : ∃ n, (atoi (buf.drop 1)).toNat = n + 1 := ⟨_,(Nat.succ_pred (by omega)).symm⟩
    rw [hn,readArguments]
    cases hr : readArgument tail with
    | done str r => exact absurd hr (readArgument_fails htail str)
    | _ => simp
  obtain ⟨⟨str,s₂⟩,hstr,h⟩ := bind_ok.mp h
  obtain ⟨m,hmulti,h⟩ := bind_ok.mp h
  obtain ⟨s₃,hrest,h⟩ := bind_ok.mp h
  split at h
  · cases h
  cases h
  obtain ⟨bs,rfl,hbs⟩ := readString_ok hstr
  obtain ⟨cs,argv,rfl,hcs⟩ := readStrings_ok hrest
  have hcount : strtol (buf.drop 1) = (argc.toNat : Int) := by omega
  refine ⟨buf ++ (bs ++ cs),by simp,hbuf _,fun _ => ⟨str :: argv,hmulti,fun tail => ?_⟩,
    fun hneg => by omega⟩
  simp only [readCommand,append_assoc,hread,hmark,Argv.atoi_count hcount (by omega)]
  rw [if_neg (by simp),if_neg hnul,if_neg (by omega)]
  have hn : ((argc.toNat : Int)).toNat = min argc.toNat (2 ^ 31) - 1 + 1 := by omega
  simp only [hn,readArguments,hbs,hcs]

lemma processLoop_accepted {fuel : Nat} {file : Bytes} {pos : Bytes × List Int} {seen : List Int}
    (h : processLoop fuel multi pos s seen = some (rest,argcs))
    (hseen : ∃ bs, file = bs ++ s ∧ AcceptedAll false bs seen multi)
    (hpos : ∃ bs, file = bs ++ pos.1 ∧ AcceptedAll false bs pos.2 false) :
    ∃ bs, file = bs ++ rest ∧ AcceptedAll false bs argcs false := by
  induction fuel generalizing multi pos s seen with
  | zero => cases h
  | succ fuel ih =>
    rw [processLoop] at h
    have hpos' : ∃ bs, file = bs ++ (if multi then pos else (s,seen)).1 ∧
        AcceptedAll false bs (if multi then pos else (s,seen)).2 false := by
      cases multi <;> assumption
    simp only at h
    split at h
    · rename_i argc multi' s' hcmd
      obtain ⟨⟨argc',s₁⟩,hargc,hcmd⟩ := bind_ok.mp hcmd
      obtain ⟨⟨m,s₂⟩,hcheck,hcmd⟩ := bind_ok.mp hcmd
      cases hcmd
      obtain ⟨cs,rfl,hcs⟩ := checkCommand_ok hargc hcheck
      obtain ⟨bs,hfile,hbs⟩ := hseen
      exact ih h ⟨bs ++ cs,by simp [hfile],hbs.snoc hcs⟩ hpos'
    · rw [Option.some.inj h] at hpos'
      exact hpos'
    · cases h

lemma AcceptedAll.head (h : AcceptedAll multi bs argcs multi') : bs = [] ∨ bs.head? = some 42 := by
  cases h with
  | nil => exact .inl rfl
  | cons hb _ => exact .inr (by simp [hb.head])

lemma run_countMulti {name : Bytes} (h : countMulti multi name = .ok multi') {l : AofLoad}
    (hl : l.clientMulti = multi) (argv : List Bytes) :
    ∃ cmd, lookupAofCommand (fun _ => true) name = some cmd ∧
      (l.run cmd argv).clientMulti = multi' := by
  rw [countMulti] at h
  rw [lookupAofCommand]
  split at h
  · split at h <;> cases h
    exact ⟨.multi,if_pos ‹_›,by simp_all [AofLoad.run]⟩
  rw [if_neg ‹_›]
  split at h
  · split at h <;> cases h
    exact ⟨.exec,if_pos ‹_›,by simp_all [AofLoad.run]⟩
  rw [if_neg ‹_›]
  cases h
  exact ⟨.other,rfl,by cases multi <;> simp_all [AofLoad.run]⟩

lemma AcceptedAll.load_iff (h : AcceptedAll multi bs argcs multi') {l : AofLoad}
    (hl : l.clientMulti = multi) {fuel : Nat} (hf : bs.length < fuel) (trunc : Bool) (size : Nat) :
    (∃ l', aofLoop (fun _ => true) trunc size fuel l bs = .eof l' ∧ l'.clientMulti = multi') ↔
      ∀ argc ∈ argcs, 1 ≤ argc := by
  induction h generalizing l fuel with
  | nil multi =>
    obtain ⟨fuel,rfl⟩ := Nat.exists_eq_add_of_lt hf
    simpa [aofLoop,readCommand,fgets] using hl
  | @cons _ _ _ bs rest argc argcs hb hrest ih =>
    obtain ⟨fuel,rfl⟩ := Nat.exists_eq_add_of_lt hf
    rw [forall_mem_cons,aofLoop]
    by_cases hpos : 1 ≤ argc
    · obtain ⟨argv,hmulti,hread⟩ := hb.load hpos
      obtain ⟨cmd,hcmd,hrun⟩ := run_countMulti hmulti hl argv
      have hne : bs ≠ [] := fun h0 => by simpa [h0] using hb.head
      have hlen := length_pos_iff.mpr hne
      simp only [hread,hcmd,and_iff_right hpos]
      refine ih ?_ (by simp; omega)
      split <;> exact hrun
    have hfail := hb.fail hpos rest hrest.head
    simp only [hpos,false_and,iff_false]
    rintro ⟨l',hl',-⟩
    split at hl' <;> simp_all

/-- What the checker takes to be valid is loaded to its end, outside of a transaction, when every
command in it has an argument, and only then. -/
theorem checked_loads_iff {fuel : Nat} {file : Bytes}
    (h : processLoop fuel false (file,[]) file [] = some (rest,argcs)) (trunc : Bool) :
    ∃ valid, file = valid ++ rest ∧
      ((∃ l, aofLoop (fun _ => true) trunc valid.length (valid.length + 1) ⟨false,[],[],0,0⟩ valid =
          .eof l ∧ l.clientMulti = false) ↔ ∀ argc ∈ argcs, 1 ≤ argc) := by
  have hnil : ∃ bs, file = bs ++ file ∧ AcceptedAll false bs [] false := ⟨[],rfl,.nil false⟩
  obtain ⟨valid,hfile,hvalid⟩ := processLoop_accepted h hnil hnil
  exact ⟨valid,hfile,hvalid.load_iff rfl (Nat.lt_succ_self _) trunc _⟩

/-- The file is the header of a command without arguments. -/
theorem empty_command_checked_not_loaded :
    processLoop 2 false ([42,48,13,10],[]) [42,48,13,10] [] = some ([],[0]) ∧
      aofLoop (fun _ => true) true 4 5 ⟨false,[],[],0,0⟩ [42,48,13,10] = .fmterr := by
  decide

theorem one_command_checked_loaded : ∃ valid l, [42,49,13,10,36,49,13,10,97,13,10] = valid ++ [] ∧
    aofLoop (fun _ => true) true valid.length (valid.length + 1) ⟨false,[],[],0,0⟩ valid = .eof l := by
  have h : processLoop 2 false ([42,49,13,10,36,49,13,10,97,13,10],[])
    [42,49,13,10,36,49,13,10,97,13,10] [] = some ([],[1]) := by decide
  obtain ⟨valid,hfile,hload⟩ := checked_loads_iff h true
  obtain ⟨l,hl,-⟩ := hload.mpr (by simp)
  exact ⟨valid,l,hfile,hl⟩

end RedRock.CheckAof
