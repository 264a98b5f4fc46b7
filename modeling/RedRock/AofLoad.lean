import RedRock.AofFile

/-!
`loadAppendOnlyFile`: the commands of the file are run by a fake client, those of a
transaction when its `EXEC` is met. A file that ends early is truncated, and where to is
what the two offsets that are kept along the way decide.
-/

namespace RedRock
open Lib List Nat
variable {rest : Bytes} {size : Nat}

inductive AofCommand where
  | multi
  | exec
  | other
  deriving DecidableEq

/-- `known` are the names in the command table, the two of transactions apart. -/
def lookupAofCommand (known : Bytes → Bool) (name : Bytes) : Option AofCommand :=
  if strcasecmp name [109,117,108,116,105] then some .multi
  else if strcasecmp name [101,120,101,99] then some .exec
  else if known name then some .other
  else none

/-- The fake client, what was called through it so far, and the two offsets. -/
structure AofLoad where
  clientMulti : Bool
  queued : List (List Bytes)
  executed : List (List Bytes)
  validUpTo : Nat
  validBeforeMulti : Nat
  deriving DecidableEq

def AofLoad.run (l : AofLoad) (cmd : AofCommand) (argv : List Bytes) : AofLoad :=
  let l := if cmd = .multi then { l with validBeforeMulti := l.validUpTo } else l
  if l.clientMulti ∧ cmd ≠ .exec then { l with queued := l.queued ++ [argv] }
  else
    match cmd with
    | .multi => { l with clientMulti := true }
    | .exec =>
      if l.clientMulti then
        { l with clientMulti := false, queued := [], executed := l.executed ++ l.queued }
      else l
    | .other => { l with executed := l.executed ++ [argv] }

inductive AofExit where
  | eof (l : AofLoad)
  | readerr (feof : Bool) (l : AofLoad)
  | fmterr
  | unknownCommand
  | outOfMemory
  | outOfFuel
  deriving DecidableEq

def aofLoop (known : Bytes → Bool) (aofLoadTruncated : Bool) (size : Nat) :
    Nat → AofLoad → Bytes → AofExit
  | 0, _, _ => .outOfFuel
  | fuel + 1, l, s =>
    match readCommand s with
    | none => .eof l
    | some (.readerr feof) => .readerr feof l
    | some .fmterr => .fmterr
    | some .outOfMemory => .outOfMemory
    | some (.done argv rest) =>
      match lookupAofCommand known (argv.headD []) with
      | none => .unknownCommand
      | some cmd =>
        let l := l.run cmd argv
        let l := if aofLoadTruncated then { l with validUpTo := size - rest.length } else l
        aofLoop known aofLoadTruncated size fuel l rest

/-- `C_ERR`, `C_OK` with what was called and the file that is left, or `exit`. -/
inductive AofResult where
  | err
  | ok (executed : List (List Bytes)) (file : Bytes)
  | exit
  | outOfFuel
  deriving DecidableEq

def uxeof (aofLoadTruncated : Bool) (file : Bytes) (l : AofLoad) : AofResult :=
  if aofLoadTruncated then .ok l.executed (file.take l.validUpTo) else .exit

/-- `rdbLoadRio` reads a preamble and gives the rest, or fails at the end of the file or not. -/
def loadAppendOnlyFile (known : Bytes → Bool) (rdbLoadRio : Bytes → Except Bool Bytes)
    (aofLoadTruncated : Bool) (file : Bytes) : AofResult :=
  let l : AofLoad := ⟨false,[],[],0,0⟩
  let readerr (feof : Bool) (l : AofLoad) : AofResult :=
    if feof then uxeof aofLoadTruncated file l else .exit
  if file = [] then .err
  else
    match if file.take 5 = [82,69,68,73,83] then rdbLoadRio file else .ok file with
    | .error feof => readerr feof l
    | .ok s =>
      match aofLoop known aofLoadTruncated file.length (s.length + 1) l s with
      | .eof l =>
        if l.clientMulti then uxeof aofLoadTruncated file { l with validUpTo := l.validBeforeMulti }
        else .ok l.executed file
      | .readerr feof l => readerr feof l
      | .fmterr | .unknownCommand | .outOfMemory => .exit
      | .outOfFuel => .outOfFuel

section
variable (known : Bytes → Bool)

abbrev AofEntry (cmd : AofCommand) : Type :=
  {c : Argv // lookupAofCommand known (c.argv.headD []) = some cmd}

structure AofTransaction where
  multi : AofEntry known .multi
  body : List (AofEntry known .other)
  exec : AofEntry known .exec

inductive AofItem where
  | command (c : AofEntry known .other)
  | transaction (t : AofTransaction known)

end

variable {known : Bytes → Bool}

def queuedBytes (body : List (AofEntry known .other)) : Bytes := body.flatMap fun c => c.val.bytes

namespace AofItem

def bytes : AofItem known → Bytes
  | command c => c.val.bytes
  | transaction t => t.multi.val.bytes ++ (queuedBytes t.body ++ t.exec.val.bytes)

def calls : AofItem known → List (List Bytes)
  | command c => [c.val.argv]
  | transaction t => t.body.map fun c => c.val.argv

end AofItem

def aofBytes (f : List (AofItem known)) : Bytes := f.flatMap AofItem.bytes
def aofCalls (f : List (AofItem known)) : List (List Bytes) := f.flatMap AofItem.calls

def wholeItems : List (AofItem known) → Nat → List (AofItem known)
  | [], _ => []
  | i :: f, n => if i.bytes.length ≤ n then i :: wholeItems f (n - i.bytes.length) else []

def wholeCommands : List (AofEntry known .other) → Nat → Bool
  | [], k => k == 0
  | c :: body, k => k == 0 || c.val.bytes.length ≤ k && wholeCommands body (k - c.val.bytes.length)

/-- A cut inside an item that does not fall inside a command after its `MULTI`. -/
def AofItem.cleanCut (k : Nat) : AofItem known → Bool
  | command _ => true
  | transaction t =>
    k < t.multi.val.bytes.length || wholeCommands t.body (k - t.multi.val.bytes.length)

def cleanCut : List (AofItem known) → Nat → Bool
  | [], _ => true
  | i :: f, n =>
    if i.bytes.length ≤ n then cleanCut f (n - i.bytes.length) else n == 0 || i.cleanCut n

variable {l : AofLoad} {cmd : AofCommand}

lemma aofLoop_entry (c : AofEntry known cmd)
    (hsize : l.validUpTo + (c.val.bytes ++ rest).length = size) (fuel : Nat) :
    aofLoop known true size (fuel + 1) l (c.val.bytes ++ rest) = aofLoop known true size fuel
        { l.run cmd c.val.argv with validUpTo := l.validUpTo + c.val.bytes.length } rest := by
  rw [length_append] at hsize
  rw [aofLoop,c.val.readCommand_bytes]
  simp only [c.property,if_true]
  congr 2
  omega

lemma aofLoop_part (c : AofEntry known cmd) (l : AofLoad) (size fuel : Nat)
    {k : Nat} (h0 : k ≠ 0) (hk : k < c.val.bytes.length) :
    aofLoop known true size (fuel + 1) l (c.val.bytes.take k) = .readerr true l := by
  rw [aofLoop,c.val.readCommand_part h0 hk]

lemma AofLoad.run_queued (h : l.clientMulti = true) (argv : List Bytes) :
    l.run .other argv = { l with queued := l.queued ++ [argv] } := by
  simp [AofLoad.run,h]

lemma AofLoad.run_multi (h : l.clientMulti = false) (argv : List Bytes) :
    l.run .multi argv = { l with clientMulti := true, validBeforeMulti := l.validUpTo } := by
  simp [AofLoad.run,h]

lemma AofLoad.run_exec (h : l.clientMulti = true) (argv : List Bytes) : l.run .exec argv =
      { l with clientMulti := false, queued := [], executed := l.executed ++ l.queued } := by
  simp [AofLoad.run,h]

lemma AofLoad.run_other (h : l.clientMulti = false) (argv : List Bytes) :
    l.run .other argv = { l with executed := l.executed ++ [argv] } := by
  simp [AofLoad.run,h]

lemma length_le_queuedBytes (body : List (AofEntry known .other)) :
    body.length ≤ (queuedBytes body).length :=
  length_le_flatMap (fun c : AofEntry known .other => c.val.bytes_ne_nil) body

lemma aofLoop_body (body : List (AofEntry known .other)) (hm : l.clientMulti = true)
    (hsize : l.validUpTo + (queuedBytes body ++ rest).length = size) (fuel : Nat) :
    aofLoop known true size (fuel + body.length) l (queuedBytes body ++ rest) =
      aofLoop known true size fuel { l with
          queued := l.queued ++ body.map fun c => c.val.argv
          validUpTo := l.validUpTo + (queuedBytes body).length } rest := by
  induction body generalizing l with
  | nil => simp [queuedBytes]
  | cons c body ih =>
    have hbytes : queuedBytes (c :: body) ++ rest = c.val.bytes ++ (queuedBytes body ++ rest) := by
      simp [queuedBytes]
    rw [hbytes] at hsize ⊢
    rw [length_cons,← add_assoc,aofLoop_entry c hsize,AofLoad.run_queued hm,
      ih (by exact hm) (by rw [length_append] at hsize; simp only; omega)]
    simp [queuedBytes,add_assoc]

structure AofLoad.Idle (l : AofLoad) (calls : List (List Bytes)) (pos : Nat) : Prop where
  multi : l.clientMulti = false
  queued : l.queued = []
  executed : l.executed = calls
  valid : l.validUpTo = pos

variable {calls : List (List Bytes)}

lemma aofLoop_item (i : AofItem known) {pos : Nat}
    (size fuel : Nat) (hl : l.Idle calls pos) (hsize : pos + (i.bytes ++ rest).length = size)
    (hfuel : (i.bytes ++ rest).length < fuel) :
    ∃ fuel' l', rest.length < fuel' ∧ l'.Idle (calls ++ i.calls) (pos + i.bytes.length) ∧
      aofLoop known true size fuel l (i.bytes ++ rest) = aofLoop known true size fuel' l' rest := by
  obtain ⟨hm,hq,he,hv⟩ := hl
  rw [← hv] at hsize
  cases i with
  | command c =>
    have hpos := length_pos_iff.mpr c.val.bytes_ne_nil
    obtain ⟨fuel,rfl⟩ := exists_eq_succ_of_ne_zero (ne_of_gt (zero_lt_of_lt hfuel))
    refine ⟨fuel,_,?_,?_,aofLoop_entry c hsize fuel⟩
    · simp only [AofItem.bytes,length_append] at hfuel
      omega
    rw [AofLoad.run_other hm]
    exact ⟨hm,hq,by simp [he,AofItem.calls],by simp [hv,AofItem.bytes]⟩
  | transaction t =>
    have hpos := length_pos_iff.mpr t.multi.val.bytes_ne_nil
    have hpos' := length_pos_iff.mpr t.exec.val.bytes_ne_nil
    have hbody := length_le_queuedBytes t.body
    simp only [AofItem.bytes,append_assoc] at hsize hfuel ⊢
    simp only [length_append] at hfuel
    obtain ⟨fuel,rfl⟩ := Nat.exists_eq_add_of_le (show t.body.length + 2 ≤ fuel by omega)
    rw [show t.body.length + 2 + fuel = fuel + 1 + t.body.length + 1 by omega,
      aofLoop_entry t.multi hsize,AofLoad.run_multi hm]
    rw [length_append] at hsize
    rw [aofLoop_body t.body rfl (by simp only; omega)]
    rw [length_append] at hsize
    rw [aofLoop_entry t.exec (by simp only; omega),AofLoad.run_exec rfl]
    refine ⟨fuel,_,by omega,⟨rfl,rfl,?_,?_⟩,rfl⟩
    · simp [he,hq,AofItem.calls]
    simp only [hv,length_append]
    omega

lemma aofLoop_cut (body : List (AofEntry known .other)) (exec : AofEntry known .exec)
    {l : AofLoad} {size k : Nat} (fuel : Nat) (hm : l.clientMulti = true)
    (hk : k < (queuedBytes body ++ exec.val.bytes).length) (hsize : l.validUpTo + k = size)
    (hfuel : k < fuel) :
    ∃ l', l'.clientMulti = true ∧ l'.executed = l.executed ∧
      l'.validBeforeMulti = l.validBeforeMulti ∧ l.validUpTo ≤ l'.validUpTo ∧
      l'.validUpTo ≤ size ∧
      aofLoop known true size fuel l ((queuedBytes body ++ exec.val.bytes).take k) =
        if wholeCommands body k then .eof l' else .readerr true l' := by
  induction body generalizing l k fuel with
  | nil =>
    obtain ⟨fuel,rfl⟩ := exists_eq_succ_of_ne_zero (ne_of_gt (zero_lt_of_lt hfuel))
    refine ⟨l,hm,rfl,rfl,le_refl _,by omega,?_⟩
    rcases Nat.eq_zero_or_pos k with rfl | hpos
    · rfl
    rw [wholeCommands,if_neg (by simpa using ne_of_gt hpos)]
    exact aofLoop_part exec l size fuel (by omega) hk
  | cons c body ih =>
    obtain ⟨fuel,rfl⟩ := exists_eq_succ_of_ne_zero (ne_of_gt (zero_lt_of_lt hfuel))
    have hbytes : queuedBytes (c :: body) ++ exec.val.bytes =
        c.val.bytes ++ (queuedBytes body ++ exec.val.bytes) := by
      simp [queuedBytes]
    rw [hbytes] at hk ⊢
    rcases lt_or_ge k c.val.bytes.length with hlt | hge
    · refine ⟨l,hm,rfl,rfl,le_refl _,by omega,?_⟩
      rcases Nat.eq_zero_or_pos k with rfl | hpos
      · rfl
      have hnot : wholeCommands (c :: body) k = false := by
        simp only [wholeCommands,Bool.or_eq_false_iff,beq_eq_false_iff_ne,
          Bool.and_eq_false_iff,decide_eq_false_iff_not]
        exact ⟨by omega,.inl (by omega)⟩
      rw [hnot,take_append_of_le_length (le_of_lt hlt)]
      exact aofLoop_part c l size fuel (by omega) hlt
    have hpos := length_pos_iff.mpr c.val.bytes_ne_nil
    have hwhole : wholeCommands (c :: body) k = wholeCommands body (k - c.val.bytes.length) := by
      have h0 : k ≠ 0 := by omega
      simp [wholeCommands,h0,hge]
    rw [length_append] at hk
    rw [hwhole,take_append,take_of_length_le hge,aofLoop_entry c (by
      rw [length_append,length_take]
      omega),AofLoad.run_queued hm]
    obtain ⟨l',hm',he',hb',hle',hsz',hloop⟩ := ih (k := k - c.val.bytes.length) (l := { l with
        queued := l.queued ++ [c.val.argv]
        validUpTo := l.validUpTo + c.val.bytes.length }) fuel hm (by omega)
      (by simp only; omega) (by omega)
    exact ⟨l',hm',he',hb',by simp only at hle'; omega,hsz',hloop⟩

def AofExit.recovered (size : Nat) : AofExit → Option (List (List Bytes) × Nat)
  | .eof l => some (l.executed,if l.clientMulti then l.validBeforeMulti else size)
  | .readerr true l => some (l.executed,l.validUpTo)
  | _ => none

lemma aofLoop_item_cut (i : AofItem known)
    {pos fuel k : Nat} (hl : l.Idle calls pos) (h0 : k ≠ 0) (hk : k < i.bytes.length)
    (hsize : pos + k = size) (hfuel : k < fuel) :
    ∃ keep, (aofLoop known true size fuel l (i.bytes.take k)).recovered size =
        some (calls,keep) ∧ (keep = pos ↔ i.cleanCut k = true) ∧ keep ≤ size := by
  obtain ⟨hm,hq,he,hv⟩ := hl
  obtain ⟨fuel,rfl⟩ := exists_eq_succ_of_ne_zero (ne_of_gt (zero_lt_of_lt hfuel))
  cases i with
  | command c =>
    refine ⟨pos,?_,by simp [AofItem.cleanCut],by omega⟩
    rw [AofItem.bytes,aofLoop_part c l size fuel h0 hk,AofExit.recovered,he,hv]
  | transaction t =>
    simp only [AofItem.bytes] at hk ⊢
    rcases lt_or_ge k t.multi.val.bytes.length with hlt | hge
    · refine ⟨pos,?_,by simp [AofItem.cleanCut,hlt],by omega⟩
      rw [take_append_of_le_length (le_of_lt hlt),
        aofLoop_part t.multi l size fuel h0 hlt,AofExit.recovered,he,hv]
    have hpos := length_pos_iff.mpr t.multi.val.bytes_ne_nil
    rw [length_append] at hk
    rw [take_append,take_of_length_le hge,aofLoop_entry t.multi (by
      rw [length_append,length_take]
      omega),AofLoad.run_multi hm]
    have hsize' : l.validUpTo + t.multi.val.bytes.length + (k - t.multi.val.bytes.length) =
        size := by
      omega
    obtain ⟨l',hm',he',hb',hle',hsz',hloop⟩ := aofLoop_cut t.body t.exec
      (k := k - t.multi.val.bytes.length)
      (l := { l with
        clientMulti := true
        validBeforeMulti := l.validUpTo
        validUpTo := l.validUpTo + t.multi.val.bytes.length }) fuel rfl (by omega)
      hsize' (by omega)
    simp only at he' hb' hle'
    have hclean : (AofItem.transaction t).cleanCut k =
        wholeCommands t.body (k - t.multi.val.bytes.length) := by
      simp [AofItem.cleanCut,not_lt.mpr hge]
    rw [hloop,hclean]
    split
    · rename_i hwhole
      refine ⟨pos,?_,by simp [hwhole],by omega⟩
      rw [AofExit.recovered,hm',he',hb',he,hv]
      rfl
    rename_i hwhole
    refine ⟨l'.validUpTo,?_,?_,hsz'⟩
    · rw [AofExit.recovered,he',he]
    · exact ⟨fun h => absurd h (by omega),fun h => absurd h hwhole⟩

lemma aofLoop_take (f : List (AofItem known))
    {pos n : Nat} (fuel : Nat) (hl : l.Idle calls pos) (hn : n ≤ (aofBytes f).length)
    (hsize : pos + n = size) (hfuel : n < fuel) :
    ∃ keep, (aofLoop known true size fuel l ((aofBytes f).take n)).recovered size =
        some (calls ++ aofCalls (wholeItems f n),keep) ∧
      (keep = pos + (aofBytes (wholeItems f n)).length ↔ cleanCut f n = true) ∧ keep ≤ size := by
  induction f generalizing l calls pos n fuel with
  | nil =>
    obtain rfl := le_zero.mp hn
    obtain ⟨fuel,rfl⟩ := exists_eq_succ_of_ne_zero (ne_of_gt hfuel)
    refine ⟨size,?_,?_,le_refl _⟩
    · simp [aofLoop,aofBytes,readCommand,fgets,AofExit.recovered,hl.multi,hl.executed,wholeItems,
        aofCalls]
    simp [cleanCut,wholeItems,aofBytes]
    omega
  | cons i f ih =>
    have hbytes : aofBytes (i :: f) = i.bytes ++ aofBytes f := by simp [aofBytes]
    rw [hbytes,length_append] at hn
    rw [hbytes]
    rcases lt_or_ge n i.bytes.length with hlt | hge
    · have hnone : wholeItems (i :: f) n = [] := by
        rw [wholeItems,if_neg (by omega)]
      have hcut : cleanCut (i :: f) n = (n == 0 || i.cleanCut n) := by
        rw [cleanCut,if_neg (by omega)]
      rw [take_append_of_le_length (le_of_lt hlt),hnone,hcut]
      rcases Nat.eq_zero_or_pos n with rfl | hpos
      · obtain ⟨fuel,rfl⟩ := exists_eq_succ_of_ne_zero (ne_of_gt hfuel)
        refine ⟨size,?_,?_,le_refl _⟩
        · simp [aofLoop,readCommand,fgets,AofExit.recovered,hl.multi,hl.executed,aofCalls]
        simp [aofBytes]
        omega
      obtain ⟨keep,hrec,hkeep,hle⟩ := aofLoop_item_cut i hl (by omega) hlt hsize hfuel
      have h0 : (n == 0) = false := by simpa using ne_of_gt hpos
      refine ⟨keep,?_,?_,hle⟩
      · rw [hrec]
        simp [aofCalls]
      rw [h0,Bool.false_or,← hkeep]
      rfl
    have hwhole : wholeItems (i :: f) n = i :: wholeItems f (n - i.bytes.length) := by
      rw [wholeItems,if_pos hge]
    have hcut : cleanCut (i :: f) n = cleanCut f (n - i.bytes.length) := by
      rw [cleanCut,if_pos hge]
    have hlen : (i.bytes ++ (aofBytes f).take (n - i.bytes.length)).length = n := by
      rw [length_append,length_take]
      omega
    rw [take_append,take_of_length_le hge,hwhole,hcut]
    obtain ⟨fuel',l',hfuel',hl',hloop⟩ := aofLoop_item i size fuel hl
      (by rw [hlen]; exact hsize) (by rw [hlen]; exact hfuel)
    rw [length_take] at hfuel'
    obtain ⟨keep,hrec,hkeep,hle⟩ := ih (n := n - i.bytes.length) fuel' hl' (by omega)
      (by omega) (by omega)
    refine ⟨keep,?_,?_,hle⟩
    · rw [hloop,hrec]
      simp [aofCalls]
    rw [← hkeep]
    simp [aofBytes,add_assoc]

section
variable (rdbLoadRio : Bytes → Except Bool Bytes)

lemma loadAof_recovered {file : Bytes} {calls : List (List Bytes)} {keep : Nat} (hne : file ≠ [])
    (hsig : file.take 5 ≠ [82,69,68,73,83])
    (h : (aofLoop known true file.length (file.length + 1) ⟨false,[],[],0,0⟩ file).recovered
      file.length = some (calls,keep)) :
    loadAppendOnlyFile known rdbLoadRio true file = .ok calls (file.take keep) := by
  simp only [loadAppendOnlyFile,if_neg hne,if_neg hsig]
  split
  · rename_i l hexit
    rw [hexit,AofExit.recovered] at h
    obtain ⟨rfl,rfl⟩ := Prod.mk.inj (Option.some.inj h)
    split
    · rfl
    · rw [take_length]
  · rename_i feof l hexit
    rw [hexit] at h
    cases feof with
    | false => cases h
    | true =>
      obtain ⟨rfl,rfl⟩ := Prod.mk.inj (Option.some.inj h)
      rfl
  · rename_i hexit
    rw [hexit] at h
    cases h
  · rename_i hexit
    rw [hexit] at h
    cases h
  · rename_i hexit
    rw [hexit] at h
    cases h
  rename_i hexit
  rw [hexit] at h
  cases h

section
variable (f : List (AofItem known))

lemma aofBytes_sig (n : Nat) : ((aofBytes f).take n).take 5 ≠ [82,69,68,73,83] := by
  have hhead : ∀ b ∈ (aofBytes f).head?, b = 42 := by
    cases f with
    | nil => simp [aofBytes]
    | cons i f =>
      cases i with
      | command c | transaction t =>
        simp [aofBytes,AofItem.bytes,Argv.bytes,catAppendOnlyGenericCommand,lengthLine]
  intro h
  have h82 := congrArg List.head? h
  simp only [head?_take,head?_cons] at h82
  split at h82
  · cases h82
  split at h82
  · cases h82
  · exact absurd (hhead 82 h82) (by decide)

lemma loadAof_take {n : Nat} (h1 : 1 ≤ n) (hn : n ≤ (aofBytes f).length) :
    ∃ keep, loadAppendOnlyFile known rdbLoadRio true ((aofBytes f).take n) =
        .ok (aofCalls (wholeItems f n)) ((aofBytes f).take keep) ∧
      (keep = (aofBytes (wholeItems f n)).length ↔ cleanCut f n = true) ∧ keep ≤ n := by
  have hlen : ((aofBytes f).take n).length = n := by rw [length_take,min_eq_left hn]
  have hne : (aofBytes f).take n ≠ [] := by
    rw [← length_pos_iff,hlen]
    exact h1
  obtain ⟨keep,hrec,hkeep,hle⟩ := aofLoop_take f (l := ⟨false,[],[],0,0⟩) (n + 1)
    ⟨rfl,rfl,rfl,rfl⟩ hn (zero_add n) (lt_succ_self n)
  refine ⟨keep,?_,by rw [← hkeep,zero_add],hle⟩
  rw [nil_append] at hrec
  rw [loadAof_recovered rdbLoadRio hne (aofBytes_sig f n) (by rw [hlen]; exact hrec),
    take_take,min_eq_left hle]

lemma aofBytes_append (f g : List (AofItem known)) :
    aofBytes (f ++ g) = aofBytes f ++ aofBytes g := flatMap_append

lemma aofBytes_ne_nil {f : List (AofItem known)} (hf : f ≠ []) : aofBytes f ≠ [] := by
  cases f with
  | nil => exact absurd rfl hf
  | cons i f =>
    cases i with
    | command c => simp [aofBytes,AofItem.bytes,c.val.bytes_ne_nil]
    | transaction t => simp [aofBytes,AofItem.bytes,t.multi.val.bytes_ne_nil]

lemma wholeItems_bytes (n : Nat) :
    (aofBytes f).take (aofBytes (wholeItems f n)).length = aofBytes (wholeItems f n) := by
  induction f generalizing n with
  | nil => rfl
  | cons i f ih =>
    rw [wholeItems]
    split
    · have hi := ih (n - i.bytes.length)
      simp only [aofBytes,flatMap_cons,length_append] at hi ⊢
      rw [take_append,take_of_length_le (Nat.le_add_right _ _),Nat.add_sub_cancel_left,hi]
    · rfl

lemma wholeItems_all :
    wholeItems f (aofBytes f).length = f ∧ cleanCut f (aofBytes f).length = true := by
  induction f with
  | nil => exact ⟨rfl,rfl⟩
  | cons i f ih =>
    have hlen : (aofBytes (i :: f)).length = i.bytes.length + (aofBytes f).length := by
      simp [aofBytes]
    rw [wholeItems,cleanCut,hlen,if_pos (le_add_right _ _),if_pos (le_add_right _ _),
      Nat.add_sub_cancel_left,ih.1]
    exact ⟨rfl,ih.2⟩

end

lemma loadAof_whole {f : List (AofItem known)} (hf : f ≠ []) :
    loadAppendOnlyFile known rdbLoadRio true (aofBytes f) = .ok (aofCalls f) (aofBytes f) := by
  obtain ⟨hall,hclean⟩ := wholeItems_all f
  obtain ⟨keep,hload,hkeep,_⟩ := loadAof_take rdbLoadRio f
    (length_pos_iff.mpr (aofBytes_ne_nil hf)) (le_refl _)
  rw [hkeep.mpr hclean,hall,take_length] at hload
  exact hload

end

/-- A file that ends early is recovered, and what is appended to it is run by the next load,
exactly when it does not end inside a command that comes after a `MULTI`. -/
theorem truncated_recovered_iff (known : Bytes → Bool) (rdbLoadRio : Bytes → Except Bool Bytes)
    (f : List (AofItem known)) (n : Nat) (h1 : 1 ≤ n) (hn : n ≤ (aofBytes f).length) :
    (loadAppendOnlyFile known rdbLoadRio true ((aofBytes f).take n) =
        .ok (aofCalls (wholeItems f n)) (aofBytes (wholeItems f n)) ∧
      ∀ g : List (AofItem known), g ≠ [] →
        loadAppendOnlyFile known rdbLoadRio true (aofBytes (wholeItems f n) ++ aofBytes g) =
          .ok (aofCalls (wholeItems f n) ++ aofCalls g) (aofBytes (wholeItems f n) ++ aofBytes g)) ↔
      cleanCut f n = true := by
  obtain ⟨keep,hload,hkeep,hle⟩ := loadAof_take rdbLoadRio f h1 hn
  rw [← hkeep,hload]
  constructor
  · rintro ⟨hfirst,_⟩
    have hlen := congrArg List.length (AofResult.ok.inj hfirst).2
    rw [length_take] at hlen
    omega
  intro hk
  refine ⟨?_,?_⟩
  · rw [hk,wholeItems_bytes]
  intro g hg
  have hne : wholeItems f n ++ g ≠ [] := by simp [hg]
  have hnext := loadAof_whole rdbLoadRio hne
  rw [aofBytes_append] at hnext
  rw [hnext,aofCalls,flatMap_append]
  rfl

section Samples

def sampleArgv (name : Bytes) (hn : name.length < 2 ^ 63) : Argv where
  argv := [name]
  ne_nil := by simp
  argc_lt := by simp
  length_lt := by simpa using hn

def sampleMulti : AofEntry (fun _ => true) .multi :=
  ⟨sampleArgv [77,85,76,84,73] (by decide),by decide⟩

def sampleExec : AofEntry (fun _ => true) .exec := ⟨sampleArgv [69,88,69,67] (by decide),by decide⟩

def sampleFlush : AofEntry (fun _ => true) .other :=
  ⟨sampleArgv [70,76,85,83,72,68,66] (by decide),by decide⟩

/-- The file ends one byte before the end of `EXEC`: what is left is a transaction without
an end, which swallows the command that is appended. -/
theorem truncated_not_recovered :
    wholeItems [.transaction ⟨sampleMulti,[sampleFlush],sampleExec⟩] 45 =
        ([] : List (AofItem fun _ => true)) ∧
    loadAppendOnlyFile (fun _ => true) .ok true
        ((aofBytes [.transaction ⟨sampleMulti,[sampleFlush],sampleExec⟩]).take 45) =
      .ok [] (sampleMulti.val.bytes ++ sampleFlush.val.bytes) ∧
    loadAppendOnlyFile (fun _ => true) .ok true
        (sampleMulti.val.bytes ++ sampleFlush.val.bytes ++ sampleFlush.val.bytes) =
      .ok [] [] := by
  decide

/-- A cut between two commands of a transaction. -/
theorem truncated_recovered_between :
    wholeItems [.command sampleFlush,.transaction ⟨sampleMulti,[sampleFlush],sampleExec⟩] 49 =
        [.command sampleFlush] ∧
    loadAppendOnlyFile (fun _ => true) .ok true ((aofBytes [.command sampleFlush,
          .transaction ⟨sampleMulti,[sampleFlush],sampleExec⟩]).take 49) =
      .ok [sampleFlush.val.argv] sampleFlush.val.bytes :=
  ⟨rfl,((truncated_recovered_iff (fun _ => true) .ok [.command sampleFlush,
    .transaction ⟨sampleMulti,[sampleFlush],sampleExec⟩] 49 (by decide) (by decide)).mpr
    (by decide)).1⟩

end Samples
end RedRock
