import RedRock.AofLoad
import RedRock.Expires

/-!
`feedAppendOnlyFile`: what a call hands on is translated, so that the file holds absolute
expire times only, and appended. Loading the file gives the databases back, unless a call
kept an expire time that the translation drops, or is appended with a time that counts from the
clock.
-/

namespace RedRock
open Lib List Option Word WriteProc SetArgs

variable {n : Nat} {V : Type}
variable {argv : List Bytes} {ps : List (Fin n × List Bytes)} {f : SetArgs}

def catAppendOnlyExpireAtCommand (mstime : BitVec 64) (proc : WriteProc n V)
    (key seconds : Bytes) : List Bytes :=
  let when := BitVec.ofInt 64 (strtol seconds)
  let when := match proc with
    | .expire | .setex | .expireat => when * 1000
    | _ => when
  let when := match proc with
    | .expire | .pexpire | .setex | .psetex => when + mstime
    | _ => when
  [PEXPIREAT,key,sdsfromlonglong when.toInt]

def optionArg (word : Bytes) : Option Bytes → List Bytes → Option Bytes
  | arg, [] => arg
  | arg, a :: rest => optionArg word (if strcasecmp a word then rest.head? else arg) rest

/-- The commands that are written for a call. None stands for an assertion that fails or
an argument that is not there. -/
def WriteProc.translate (mstime : BitVec 64) (cmd : WriteProc n V) (argv : List Bytes) :
    Option (List (List Bytes)) :=
  let expireAt (cmd : WriteProc n V) := catAppendOnlyExpireAtCommand mstime cmd
  match cmd, argv with
  | .expire, _ :: key :: seconds :: _ | .pexpire, _ :: key :: seconds :: _
  | .expireat, _ :: key :: seconds :: _ => some [expireAt cmd key seconds]
  | .setex, _ :: key :: seconds :: val :: _ | .psetex, _ :: key :: seconds :: val :: _ =>
    some [[SET,key,val],expireAt cmd key seconds]
  | .set, name :: key :: val :: option :: options =>
    let exarg := optionArg ex none (option :: options)
    let pxarg := optionArg px none (option :: options)
    if exarg.isSome && pxarg.isSome then none
    else
      some ([name,key,val] :: (exarg.map (expireAt .expire key)).toList ++
        (pxarg.map (expireAt .pexpire key)).toList)
  | .expire, _ | .pexpire, _ | .expireat, _ | .setex, _ | .psetex, _ => none
  | _, _ => some [argv]

section
variable (tbl : WriteTable n V)

def translateCall (mstime : BitVec 64) (argv : List Bytes) : Option (List (List Bytes)) :=
  match lookupWrite tbl (argv.headD []) with
  | none => some [argv]
  | some cmd => cmd.translate mstime argv

lemma translateCall_eq {tbl : WriteTable n V} {name : Bytes} {cmd : WriteProc n V}
    (h : lookupWrite tbl name = some cmd) (mstime : BitVec 64) (args : List Bytes) :
    translateCall tbl mstime (name :: args) = cmd.translate mstime (name :: args) := by
  rw [translateCall,headD_cons,h]

structure AofServer (n : Nat) (V : Type) where
  dbs : VolatileDbs n V
  aofSelectedDb : Option (Fin n)
  aofBuf : Bytes

def feedAppendOnlyFile (mstime : BitVec 64) (s : AofServer n V)
    (dictid : Fin n) (argv : List Bytes) : Except Unit (AofServer n V) :=
  let select := if s.aofSelectedDb = some dictid then [] else [[SELECT,decimal dictid]]
  match translateCall tbl mstime argv with
  | none => .error ()
  | some cmds =>
    .ok { s with
      aofSelectedDb := some dictid
      aofBuf := s.aofBuf ++ (select ++ cmds).flatMap catAppendOnlyGenericCommand }

structure WriteCall (n : Nat) where
  mstime : BitVec 64
  masterhost : Bool
  db : Fin n
  argv : Argv

def WriteCall.env (a : WriteCall n) (lazyfreeLazyExpire : Bool) : CallEnv :=
  ⟨a.mstime,false,a.masterhost,lazyfreeLazyExpire⟩

def feedAll (tbl : WriteTable n V) (mstime : BitVec 64) :
    AofServer n V → List (Fin n × List Bytes) → Except Unit (AofServer n V)
  | s, [] => .ok s
  | s, (dictid,argv) :: rest => do
    let s ← feedAppendOnlyFile tbl mstime s dictid argv
    feedAll tbl mstime s rest

def AofServer.step (lazyfreeLazyExpire : Bool) (s : AofServer n V)
    (a : WriteCall n) : Option (Except Unit (AofServer n V)) :=
  let c := callWrite tbl (a.env lazyfreeLazyExpire) a.db a.argv.argv s.dbs
  some (feedAll tbl a.mstime { s with dbs := c.dbs } c.propagated)

def aofServer (lazyfreeLazyExpire : Bool) : Machine (AofServer n V) (WriteCall n) Unit where
  init := ⟨fun _ _ => none,none,[]⟩
  step := AofServer.step tbl lazyfreeLazyExpire

end

section Replay
variable (tbl : WriteTable n V) (e : CallEnv)

def replayCall (st : Fin n × VolatileDbs n V) (argv : List Bytes) : Fin n × VolatileDbs n V :=
  match lookupWrite tbl (argv.headD []) with
  | some .select =>
    match string2ll (argv.getD 1 []) with
    | none => st
    | some id => if h : 0 ≤ id ∧ id.toNat < n then (⟨id.toNat,toNat_lt_of_slot h⟩,st.2) else st
  | _ => (st.1,(callWrite tbl e st.1 argv st.2).dbs)

/-- The databases after loading a file; none when the server exits. A file without a byte
is left alone. -/
def replayFile [NeZero n] (aofLoadTruncated : Bool) (file : Bytes) : Option (VolatileDbs n V) :=
  let empty : VolatileDbs n V := fun _ _ => none
  match loadAppendOnlyFile (fun name => (lookupWrite tbl name).isSome) (fun _ => .error false)
    aofLoadTruncated file with
  | .err => some empty
  | .ok calls _ => some (calls.foldl (replayCall tbl { e with loading := true }) (0,empty)).2
  | .exit | .outOfFuel => none

end Replay

structure Writable (tbl : WriteTable n V) (argv : List Bytes) : Prop where
  ne_nil : argv ≠ []
  argc_lt : argv.length < 2 ^ 31
  length_lt : ∀ a ∈ argv, a.length < 2 ^ 63
  known : (lookupWrite tbl (argv.headD [])).isSome = true

section
variable {tbl : WriteTable n V} {e : CallEnv} {mstime : BitVec 64} {db : Fin n}
  {d d' : VolatileDbs n V} {key val name : Bytes}
variable {options : List Bytes} {keys : List Bytes} {e₀ : CallEnv} {f f' : SetArgs}
  {x : Option (TimeUnit × Bytes)} {cmdName : String} {d₁ : VolatileDbs n V} {s : Bytes} {v : Int} {old : Volatile V}

lemma lookupAofCommand_of_known (h : (lookupWrite tbl name).isSome = true) :
    lookupAofCommand (fun name => (lookupWrite tbl name).isSome) name = some .other := by
  have hne : (strcasecmp name multi || strcasecmp name exec) = false := by
    by_contra hm
    rw [Bool.not_eq_false] at hm
    simp [lookupWrite,hm] at h
  rw [Bool.or_eq_false_iff] at hne
  have hmulti : strcasecmp name [109,117,108,116,105] = false := hne.1
  have hexec : strcasecmp name [101,120,101,99] = false := hne.2
  simp [lookupAofCommand,hmulti,hexec,h]

lemma exists_items {cmds : List (List Bytes)} (h : ∀ c ∈ cmds, Writable tbl c) :
    ∃ f : List (AofItem fun name => (lookupWrite tbl name).isSome),
      aofBytes f = cmds.flatMap catAppendOnlyGenericCommand ∧ aofCalls f = cmds := by
  induction cmds with
  | nil => exact ⟨[],rfl,rfl⟩
  | cons c cmds ih =>
    rw [forall_mem_cons] at h
    obtain ⟨f,hb,hc⟩ := ih h.2
    obtain ⟨hne,hargc,hlen,hknown⟩ := h.1
    refine ⟨.command ⟨⟨c,hne,hargc,hlen⟩,lookupAofCommand_of_known hknown⟩ :: f,?_,?_⟩
    · simp only [aofBytes,flatMap_cons] at hb ⊢
      rw [hb]
      rfl
    simp only [aofCalls,flatMap_cons] at hc ⊢
    rw [hc]
    rfl

lemma replayCall_eq {cmd : WriteProc n V} (h : lookupWrite tbl name = some cmd)
    (hcmd : cmd ≠ .select) (args : List Bytes) :
    replayCall tbl e (db,d) (name :: args) = (db,(cmd.proc tbl e db (name :: args) d).dbs) := by
  rw [replayCall,headD_cons,h,callWrite_eq h]
  split
  · rename_i hs
    exact absurd (some.inj hs) hcmd
  · rfl

lemma replay_set (he : e.loading = true) (hset : lookupWrite tbl name = some .set) :
    replayCall tbl e (db,d) [name,key,val] = (db,d.set db key (some ⟨.string val,none⟩)) := by
  rw [replayCall_eq hset (by simp)]
  simp [proc,setCommand,setOptions,setGenericCommand,expireMillis,expire_loading he]

lemma lookupWrite_PEXPIREAT : lookupWrite tbl PEXPIREAT = some .pexpireat := rfl
lemma lookupWrite_SET : lookupWrite tbl SET = some .set := rfl
lemma lookupWrite_SELECT : lookupWrite tbl SELECT = some .select := rfl

lemma string2ll_toInt (w : BitVec 64) : string2ll (sdsfromlonglong w.toInt) = some w.toInt := by
  apply string2ll_sdsfromlonglong
  · have h := w.le_toInt
    omega
  have h := w.toInt_lt
  omega

lemma replay_pexpireat (he : e.loading = true) (hold : d db key = some old) (w : BitVec 64) :
    replayCall tbl e (db,d) [PEXPIREAT,key,sdsfromlonglong w.toInt] =
      (db,d.set db key (some { old with expire := some w })) := by
  rw [replayCall_eq lookupWrite_PEXPIREAT (by simp)]
  simp [proc,expireGenericCommand,string2ll_toInt,TimeUnit.millis,
    expire_loading he,hold,he]

def Translated (tbl : WriteTable n V) (e : CallEnv) (mstime : BitVec 64) (d : VolatileDbs n V)
    (db : Fin n) (argv : List Bytes) (d' : VolatileDbs n V) : Prop :=
  ∃ cmds, translateCall tbl mstime argv = some cmds ∧ (∀ c ∈ cmds, Writable tbl c) ∧
    cmds.foldl (replayCall tbl e) (db,d) = (db,d')

inductive AllTranslated (tbl : WriteTable n V) (e : CallEnv) (mstime : BitVec 64) :
    VolatileDbs n V → List (Fin n × List Bytes) → VolatileDbs n V → Prop where
  | nil (d : VolatileDbs n V) : AllTranslated tbl e mstime d [] d
  | cons {d d₁ d' : VolatileDbs n V} {db : Fin n} {argv : List Bytes}
      {rest : List (Fin n × List Bytes)} (head : Translated tbl e mstime d db argv d₁)
      (tail : AllTranslated tbl e mstime d₁ rest d') :
      AllTranslated tbl e mstime d ((db,argv) :: rest) d'

lemma AllTranslated.append {ps qs : List (Fin n × List Bytes)}
    (hp : AllTranslated tbl e mstime d ps d₁) (hq : AllTranslated tbl e mstime d₁ qs d') :
    AllTranslated tbl e mstime d (ps ++ qs) d' := by
  induction hp with
  | nil _ => exact hq
  | cons head _ ih => exact .cons head (ih hq)

lemma AllTranslated.concat (hp : AllTranslated tbl e mstime d ps d₁)
    (hlast : Translated tbl e mstime d₁ db argv d') :
    AllTranslated tbl e mstime d (ps ++ [(db,argv)]) d' :=
  hp.append (.cons hlast (.nil d'))

lemma lookupWrite_delName (tbl : WriteTable n V) (e : CallEnv) :
    lookupWrite tbl e.delName = some .del ∨ lookupWrite tbl e.delName = some .unlink := by
  unfold CallEnv.delName
  split
  · exact .inr rfl
  · exact .inl rfl

lemma clearKeys_singleton (db : Fin n) (key : Bytes) (d : VolatileDbs n V) :
    clearKeys db [key] d = d.set db key none := by
  funext i k
  simp [clearKeys,Store.set]

lemma translated_del
    (hname : lookupWrite tbl name = some .del ∨ lookupWrite tbl name = some .unlink)
    (hw : Writable tbl (name :: keys)) :
    Translated tbl e mstime d db (name :: keys) (clearKeys db keys d) := by
  have hdbs : (delGenericCommand e db (name :: keys) d).dbs = clearKeys db keys d :=
    delKeys_dbs e db keys d
  rcases hname with h | h
  all_goals
    refine ⟨[name :: keys],translateCall_eq h mstime keys,by simpa using hw,?_⟩
    rw [foldl_cons,foldl_nil,replayCall_eq h (by simp),proc,hdbs]

lemma writable_del (hkey : key.length < 2 ^ 63) : Writable tbl [e₀.delName,key] := by
  have hlen : e₀.delName.length < 2 ^ 63 := by
    unfold CallEnv.delName
    split <;> decide
  refine ⟨by simp,by simp,by simpa using ⟨hlen,hkey⟩,?_⟩
  rcases lookupWrite_delName tbl e₀ with h | h <;> simp [h]

section
variable (e₀)

lemma translated_delName (hkey : key.length < 2 ^ 63) :
    Translated tbl e mstime d db [e₀.delName,key] (d.set db key none) := by
  rw [← clearKeys_singleton]
  exact translated_del (lookupWrite_delName tbl e₀) (writable_del hkey)

lemma allTranslated_expireIfNeeded (tbl : WriteTable n V) (e : CallEnv) (mstime : BitVec 64)
    (d : VolatileDbs n V) (db : Fin n) (e₀ : CallEnv) (hkey : key.length < 2 ^ 63) :
    AllTranslated tbl e mstime d (expireIfNeeded e₀ db key d).propagated
      (expireIfNeeded e₀ db key d).dbs := by
  unfold expireIfNeeded
  split
  · exact .cons (translated_delName e₀ hkey) (.nil _)
  · exact .nil d

lemma allTranslated_expireKeys (keys : List (Fin n × {k : Bytes // k.length < 2 ^ 63})) :
    AllTranslated tbl e mstime d (expireKeys e₀ keys d).propagated (expireKeys e₀ keys d).dbs := by
  induction keys generalizing d with
  | nil => exact .nil d
  | cons p keys ih => exact (allTranslated_expireIfNeeded tbl e mstime d p.1 e₀ p.2.property).append ih

lemma delKeys_propagated (db : Fin n) (keys : List Bytes) (d : VolatileDbs n V) :
    ∃ expired : List Bytes, (∀ k ∈ expired, k ∈ keys) ∧
      (delKeys e₀ db keys d).2.1 = expired.map (fun k => (db,[e₀.delName,k])) ∧
      ((delKeys e₀ db keys d).2.2 = false → ∀ k ∈ keys, k ∈ expired ∨ d db k = none) := by
  induction keys generalizing d with
  | nil => exact ⟨[],by simp,rfl,by simp⟩
  | cons key keys ih =>
    obtain ⟨expired,hsub,hprop,hkept⟩ := ih (d.set db key none)
    simp only [Store.set,true_and] at hkept
    simp only [delKeys,expire_set_none,hprop,Bool.or_eq_false_iff,isSome_eq_false_iff,
      isNone_iff_eq_none]
    rcases expireIfNeeded_cases e₀ db key d with h | h
    · refine ⟨key :: expired,by grind,by simp [h],by grind⟩
    · refine ⟨expired,by grind,by simp [h],?_⟩
      rw [h]
      grind

lemma allTranslated_delNames (tbl : WriteTable n V) (e : CallEnv) (mstime : BitVec 64)
    (d : VolatileDbs n V) (db : Fin n) (e₀ : CallEnv) (hkeys : ∀ k ∈ keys, k.length < 2 ^ 63) :
    AllTranslated tbl e mstime d (keys.map fun k => (db,[e₀.delName,k])) (clearKeys db keys d) := by
  induction keys generalizing d with
  | nil =>
    have hnil : clearKeys db [] d = d := by
      funext i k
      simp [clearKeys]
    rw [hnil]
    exact .nil d
  | cons k keys ih =>
    rw [forall_mem_cons] at hkeys
    rw [← clearKeys_cons]
    exact .cons (translated_delName e₀ hkeys.1) (ih _ hkeys.2)

lemma allTranslated_del
    (hname : lookupWrite tbl name = some .del ∨ lookupWrite tbl name = some .unlink)
    (hw : Writable tbl (name :: keys)) :
    AllTranslated tbl e mstime d (delGenericCommand e₀ db (name :: keys) d).propagated
      (delGenericCommand e₀ db (name :: keys) d).dbs := by
  obtain ⟨expired,hsub,hprop,hkept⟩ := delKeys_propagated e₀ db keys d
  have hexp := allTranslated_delNames tbl e mstime d db e₀
    fun k hk => hw.length_lt k (mem_cons_of_mem _ (hsub k hk))
  have hdbs : (delGenericCommand e₀ db (name :: keys) d).dbs = clearKeys db keys d :=
    delKeys_dbs e₀ db keys d
  have hprops : (delGenericCommand e₀ db (name :: keys) d).propagated =
      expired.map (fun k => (db,[e₀.delName,k])) ++
        if (delKeys e₀ db keys d).2.2 then [(db,name :: keys)] else [] := by
    rw [← hprop]
    rfl
  rw [hdbs,hprops]
  split
  · have hall : clearKeys db keys (clearKeys db expired d) = clearKeys db keys d := by
      funext i k
      simp only [clearKeys]
      grind
    rw [← hall]
    exact hexp.concat (translated_del hname hw)
  rename_i hdel
  have hsame : clearKeys db expired d = clearKeys db keys d := by
    funext i k
    simp only [clearKeys]
    grind
  rw [List.append_nil,← hsame]
  exact hexp

end

def TimeUnit.word : TimeUnit → Bytes
  | .seconds => ex
  | .milliseconds => px

def TimeUnit.other : TimeUnit → TimeUnit
  | .seconds => .milliseconds
  | .milliseconds => .seconds

def hasWord (word : Bytes) (options : List Bytes) : Bool := options.any (strcasecmp · word)

lemma TimeUnit.eq_or_other (u w : TimeUnit) : w = u ∨ w = u.other := by
  cases u <;> cases w <;> simp [TimeUnit.other]

lemma strcasecmp_of_eq {a w : Bytes} (h : strcasecmp a w = true) (w' : Bytes) :
    strcasecmp a w' = strcasecmp w w' := by
  simp only [strcasecmp,decide_eq_true_eq] at h ⊢
  rw [h]

lemma string2ll_head (h : string2ll s = some v) :
    ∃ b t, s = b :: t ∧ 45 ≤ b.toNat ∧ b.toNat ≤ 57 := by
  have hnum : ∀ {s : Bytes}, Numeral s → ∃ b t, s = b :: t ∧ 45 ≤ b.toNat ∧ b.toNat ≤ 57 := by
    intro s hs
    cases s with
    | nil => exact hs.elim
    | cons b t =>
      have hb := (hs.2 b (by simp)).toNat
      exact ⟨b,t,rfl,by omega,by omega⟩
  rcases string2ll_some.mp h with ⟨rfl,_⟩ | ⟨t,rfl,_⟩ | ht
  · exact ⟨48,[],rfl,by decide,by decide⟩
  · exact ⟨45,t,rfl,by decide,by decide⟩
  · exact hnum (string2llDigits_some.mp ht).1

lemma not_word_of_string2ll (h : string2ll s = some v) (u : TimeUnit) :
    strcasecmp s u.word = false := by
  obtain ⟨b,t,rfl,hlo,hhi⟩ := string2ll_head h
  have hb : b ≠ 0 := by
    rintro rfl
    exact absurd hlo (by decide)
  have hlow : tolower b = b := by
    unfold tolower
    rw [if_neg]
    rw [UInt8.le_iff_toNat_le,UInt8.le_iff_toNat_le]
    change ¬ (65 ≤ b.toNat ∧ b.toNat ≤ 90)
    omega
  have hhead : ((cstr (b :: t)).map tolower).head? = some b := by
    simp [cstr,hb,hlow]
  simp only [strcasecmp,decide_eq_false_iff_not]
  intro he
  rw [he] at hhead
  cases u with
  | seconds =>
    obtain rfl : 101 = b := some.inj hhead
    exact absurd hhi (by decide)
  | milliseconds =>
    obtain rfl : 112 = b := some.inj hhead
    exact absurd hhi (by decide)

lemma optionArg_of_not_hasWord {word : Bytes} (h : hasWord word options = false)
    (arg : Option Bytes) : optionArg word arg options = arg := by
  induction options generalizing arg with
  | nil => rfl
  | cons a rest ih =>
    simp only [hasWord,any_cons,Bool.or_eq_false_iff] at h
    rw [optionArg,if_neg (by simp [h.1])]
    exact ih h.2 arg

lemma SetArgs.flag_spec {a : Bytes} (h : f.flag a = some f') :
    f'.expire = f.expire ∧ ∀ u : TimeUnit, strcasecmp a u.word = false := by
  unfold flag at h
  split_ifs at h with ha ha ha
  all_goals
    cases h
    refine ⟨rfl,fun u => ?_⟩
    rw [strcasecmp_of_eq (Bool.and_eq_true _ _ ▸ ha).1]
    cases u <;> decide

lemma SetArgs.time_spec {a next : Bytes} (h : f.time a next = some f') :
    ∃ u : TimeUnit, strcasecmp a u.word = true ∧ f'.expire = some (u,next) := by
  unfold time at h
  split_ifs at h with ha ha
  all_goals
    cases h
    rw [Bool.and_eq_true,Bool.and_eq_true] at ha
  · exact ⟨.seconds,ha.1.1,rfl⟩
  · exact ⟨.milliseconds,ha.1.1,rfl⟩

/-- Where only one of the two words occurs, the search for it finds the argument that `SET`
went by: an argument that reads like the word is overridden by a later one. -/
theorem optionArg_of_setOptions (u : TimeUnit) (h : setOptions f options = some f')
    (hu : hasWord u.other.word options = false)
    (hint : ∀ u s, f'.expire = some (u,s) → ∃ v, string2ll s = some v) (arg : Option Bytes) :
    (∃ s, f'.expire = some (u,s) ∧ optionArg u.word arg options = some s) ∨
      (hasWord u.word options = false ∧ f'.expire = f.expire) := by
  induction f, options using setOptions.induct generalizing arg with
  | case1 f =>
    obtain rfl := some.inj h
    exact .inr ⟨rfl,rfl⟩
  | case2 f a =>
    obtain ⟨he,hw⟩ := flag_spec h
    exact .inr ⟨by simp [hasWord,hw u],he⟩
  | case3 f a next rest f₁ hf ih =>
    simp only [setOptions,hf] at h
    obtain ⟨he,hw⟩ := flag_spec hf
    have hu' : hasWord u.other.word (next :: rest) = false := by
      simp only [hasWord,any_cons,Bool.or_eq_false_iff] at hu ⊢
      exact hu.2
    rcases ih h hu' arg with ⟨s,hs,harg⟩ | ⟨hno,hsame⟩
    · refine .inl ⟨s,hs,?_⟩
      rw [optionArg,if_neg (by simp [hw u])]
      exact harg
    refine .inr ⟨?_,hsame.trans he⟩
    simp only [hasWord,any_cons,hw u,Bool.false_or] at hno ⊢
    exact hno
  | case4 f a next rest hf f₁ ht ih =>
    simp only [setOptions,hf,ht] at h
    obtain ⟨w,hw,he⟩ := time_spec ht
    simp only [hasWord,any_cons,Bool.or_eq_false_iff] at hu
    have hwu : w = u := by
      rcases u.eq_or_other w with h | rfl
      · exact h
      rw [hw] at hu
      cases hu.1
    subst hwu
    left
    rcases ih h hu.2.2 (if strcasecmp next w.word then rest.head? else some next) with
      ⟨s,hs,harg⟩ | ⟨hno,hsame⟩
    · refine ⟨s,hs,?_⟩
      rw [optionArg,if_pos hw,head?_cons,optionArg]
      exact harg
    · rw [he] at hsame
      obtain ⟨v,hv⟩ := hint w next hsame
      refine ⟨next,hsame,?_⟩
      rw [optionArg,if_pos hw,head?_cons,optionArg,if_neg (by simp [not_word_of_string2ll hv w])]
      exact optionArg_of_not_hasWord hno _
  | case5 f a next rest hf ht =>
    simp [setOptions,hf,ht] at h

def TimeUnit.cmd : TimeUnit → WriteProc n V
  | .seconds => .expire
  | .milliseconds => .pexpire

lemma catAppendOnlyExpireAt_unit (hv : string2ll s = some v) (u : TimeUnit) :
    catAppendOnlyExpireAtCommand mstime (u.cmd : WriteProc n V) key s =
      [PEXPIREAT,key,sdsfromlonglong (mstime + u.millis (BitVec.ofInt 64 v)).toInt] := by
  rw [BitVec.add_comm]
  cases u with
  | seconds | milliseconds =>
    simp [catAppendOnlyExpireAtCommand,TimeUnit.cmd,TimeUnit.millis,strtol_of_string2ll hv]

lemma expireMillis_ok {ms : Option (BitVec 64)} (h : expireMillis cmdName x = .ok ms) :
    x = none ∧ ms = none ∨ ∃ u s v, x = some (u,s) ∧ string2ll s = some v ∧
      ms = some (u.millis (BitVec.ofInt 64 v)) := by
  cases x with
  | none =>
    cases h
    exact .inl ⟨rfl,rfl⟩
  | some p =>
    obtain ⟨u,s⟩ := p
    simp only [expireMillis] at h
    split at h
    · cases h
    rename_i v hv
    split at h
    · cases h
    cases h
    exact .inr ⟨u,s,v,rfl,hv,rfl⟩

lemma translateCall_set (hset : lookupWrite tbl name = some .set)
    (hf : setOptions ⟨false,false,false,none⟩ options = some f)
    (hint : ∀ u s, f.expire = some (u,s) → ∃ v, string2ll s = some v)
    (hmix : (hasWord ex options && hasWord px options) = false) :
    translateCall tbl mstime (name :: key :: val :: options) =
      some ([name,key,val] :: (f.expire.map fun p =>
        catAppendOnlyExpireAtCommand mstime (p.1.cmd : WriteProc n V) key p.2).toList) := by
  rw [translateCall_eq hset]
  cases options with
  | nil =>
    obtain rfl := some.inj hf
    rfl
  | cons o os =>
    obtain ⟨u,hno⟩ : ∃ u : TimeUnit, hasWord u.other.word (o :: os) = false :=
      (Bool.and_eq_false_iff.mp hmix).elim (⟨.milliseconds,·⟩) (⟨.seconds,·⟩)
    have hother := optionArg_of_not_hasWord hno none
    simp only [WriteProc.translate]
    rcases optionArg_of_setOptions u hf hno hint none with ⟨s,hs,harg⟩ | ⟨hno',hsame⟩
    · cases u <;> simp_all [TimeUnit.word,TimeUnit.other,TimeUnit.cmd]
    have hsame' := optionArg_of_not_hasWord hno' none
    cases u <;> simp_all [TimeUnit.word,TimeUnit.other]

lemma writable_pexpireat (hkey : key.length < 2 ^ 63) (w : BitVec 64) :
    Writable tbl [PEXPIREAT,key,sdsfromlonglong w.toInt] := by
  have hlen := sdsfromlonglong_length (v := w.toInt) (by have h := w.le_toInt; omega)
    (by have h := w.toInt_lt; omega)
  refine ⟨by simp,by simp,?_,by simp [lookupWrite_PEXPIREAT]⟩
  simp only [forall_mem_cons,not_mem_nil,false_imp_iff,implies_true,and_true]
  exact ⟨by decide,hkey,by omega⟩

lemma writable_set (hset : lookupWrite tbl name = some .set) (hname : name.length < 2 ^ 63)
    (hkey : key.length < 2 ^ 63) (hval : val.length < 2 ^ 63) : Writable tbl [name,key,val] := by
  refine ⟨by simp,by simp,?_,by simp [hset]⟩
  simp only [forall_mem_cons,not_mem_nil,false_imp_iff,implies_true,and_true]
  exact ⟨hname,hkey,hval⟩

lemma replay_set_pexpireat (he : e.loading = true) (hset : lookupWrite tbl name = some .set)
    (w : BitVec 64) :
    [[name,key,val],[PEXPIREAT,key,sdsfromlonglong w.toInt]].foldl (replayCall tbl e) (db,d) =
      (db,d.set db key (some ⟨.string val,some w⟩)) := by
  have hold : (d.set db key (some ⟨.string val,none⟩)) db key =
      some (⟨.string val,none⟩ : Volatile V) := by
    simp [Store.set]
  rw [foldl_cons,replay_set he hset,foldl_cons,replay_pexpireat he hold,Store.set_set]
  rfl

/-- A replica keeps a key that is expired. -/
def hasTtl (e : CallEnv) (db : Fin n) (key : Bytes) (d : VolatileDbs n V) : Bool :=
  ((d db key).bind Volatile.expire).isSome && (!keyIsExpired e db key d || e.masterhost)

lemma expire_of_not_hasTtl (h : hasTtl e₀ db key d = false) :
    ((expireIfNeeded e₀ db key d).dbs db key).bind Volatile.expire = none := by
  unfold expireIfNeeded
  split
  · simp [Store.set]
  rename_i hexp
  have hkept : (!keyIsExpired e₀ db key d || e₀.masterhost) = true := by
    simpa [or_iff_not_imp_left] using hexp
  simpa [hasTtl,hkept] using h

lemma allTranslated_expire (e₀ : CallEnv) {basetime : BitVec 64} {u : TimeUnit}
    (hw : Writable tbl argv)
    (htr : ∀ (d : VolatileDbs n V) name key param v (old : Volatile V), argv = [name,key,param] →
      string2ll param = some v → d db key = some old → Translated tbl e e₀.mstime d db argv
        (d.set db key (some { old with
          expire := some (u.millis (BitVec.ofInt 64 v) + basetime) }))) :
    AllTranslated tbl e e₀.mstime d (expireGenericCommand basetime u e₀ db argv d).propagated
      (expireGenericCommand basetime u e₀ db argv d).dbs := by
  unfold expireGenericCommand
  split
  · rename_i name key param
    have hkey := hw.length_lt key (by simp)
    have hexp := allTranslated_expireIfNeeded tbl e e₀.mstime d db e₀ hkey
    split
    · exact .nil d
    rename_i v hv
    simp only
    split
    · exact hexp
    rename_i old hold
    split
    · exact hexp.concat (translated_delName e₀ hkey)
    · exact hexp.concat (htr _ name key param v old rfl hv hold)
  · exact .nil d

section
variable (he : e.loading = true)
include he

lemma translated_set {ms kept : Option (BitVec 64)}
    (hset : lookupWrite tbl name = some .set) (hw : Writable tbl [name,key,val])
    (hms : expireMillis cmdName x = .ok ms)
    (htr : translateCall tbl mstime argv = some ([name,key,val] :: (x.map fun p =>
      catAppendOnlyExpireAtCommand mstime (p.1.cmd : WriteProc n V) key p.2).toList))
    (hkept : kept = none) : Translated tbl e mstime d db argv
      (d.set db key (some ⟨.string val,(ms.map (mstime + ·)).or kept⟩)) := by
  refine ⟨_,htr,?_⟩
  rcases expireMillis_ok hms with ⟨rfl,rfl⟩ | ⟨u,s,v,rfl,hv,rfl⟩
  · refine ⟨by simpa using hw,?_⟩
    simpa [hkept] using replay_set he hset
  rw [map_some,toList_some,catAppendOnlyExpireAt_unit hv]
  refine ⟨?_,replay_set_pexpireat he hset _⟩
  simp only [forall_mem_cons,not_mem_nil,false_imp_iff,implies_true,and_true]
  exact ⟨hw,writable_pexpireat (hw.length_lt key (by simp)) _⟩

lemma allTranslated_setGeneric (hset : lookupWrite tbl name = some .set)
    (hw : Writable tbl [name,key,val])
    (htr : ∀ ms, expireMillis cmdName f.expire = .ok ms →
      translateCall tbl e₀.mstime argv = some ([name,key,val] :: (f.expire.map fun p =>
        catAppendOnlyExpireAtCommand e₀.mstime (p.1.cmd : WriteProc n V) key p.2).toList))
    (hkeep : (f.keepttl && hasTtl e₀ db key d) = false) :
    AllTranslated tbl e e₀.mstime d (setGenericCommand cmdName e₀ db f key val argv d).propagated
      (setGenericCommand cmdName e₀ db f key val argv d).dbs := by
  have hexp := allTranslated_expireIfNeeded tbl e e₀.mstime d db e₀ (hw.length_lt key (by simp))
  unfold setGenericCommand
  split
  · exact .nil d
  rename_i ms hms
  simp only
  split
  · exact hexp
  refine hexp.concat (translated_set he hset hw hms (htr ms hms) ?_)
  cases hk : f.keepttl with
  | false => rfl
  | true =>
    rw [hk,Bool.true_and] at hkeep
    simpa using expire_of_not_hasTtl hkeep

lemma allTranslated_setCommand (e₀ : CallEnv)
    (hset : lookupWrite tbl name = some .set) (hw : Writable tbl (name :: key :: val :: options))
    (hmix : (hasWord ex options && hasWord px options) = false)
    (hkeep : ∀ f, setOptions ⟨false,false,false,none⟩ options = some f →
      (f.keepttl && hasTtl e₀ db key d) = false) :
    AllTranslated tbl e e₀.mstime d (setCommand e₀ db (name :: key :: val :: options) d).propagated
      (setCommand e₀ db (name :: key :: val :: options) d).dbs := by
  simp only [setCommand]
  split
  · exact .nil d
  rename_i f hf
  have hlen := hw.length_lt
  refine allTranslated_setGeneric he hset
    (writable_set hset (hlen _ (by simp)) (hlen _ (by simp)) (hlen _ (by simp))) ?_ (hkeep f hf)
  intro ms hms
  apply translateCall_set hset hf _ hmix
  intro u s hs
  rcases expireMillis_ok hms with ⟨h,_⟩ | ⟨u',s',v,h,hv,_⟩
  · rw [hs] at h
    cases h
  rw [hs] at h
  obtain ⟨_,rfl⟩ := Prod.mk.inj (some.inj h)
  exact ⟨v,hv⟩

lemma allTranslated_setex (e₀ : CallEnv) (u : TimeUnit) (hw : Writable tbl argv)
    (htr : ∀ name key time val, argv = [name,key,time,val] →
      translateCall tbl e₀.mstime argv = some [[SET,key,val],
        catAppendOnlyExpireAtCommand e₀.mstime (u.cmd : WriteProc n V) key time]) :
    AllTranslated tbl e e₀.mstime d (setexGenericCommand u e₀ db argv d).propagated
      (setexGenericCommand u e₀ db argv d).dbs := by
  unfold setexGenericCommand
  split
  · rename_i name key time val
    have hlen := hw.length_lt
    exact allTranslated_setGeneric he lookupWrite_SET
      (writable_set lookupWrite_SET (by decide) (hlen _ (by simp)) (hlen _ (by simp)))
      (fun ms _ => htr name key time val rfl) rfl
  · exact .nil d

lemma translated_expire {w : BitVec 64} (hkey : key.length < 2 ^ 63) (hold : d db key = some old)
    (htr : translateCall tbl mstime argv = some [[PEXPIREAT,key,sdsfromlonglong w.toInt]]) :
    Translated tbl e mstime d db argv (d.set db key (some { old with expire := some w })) := by
  refine ⟨_,htr,by simpa using writable_pexpireat hkey w,?_⟩
  rw [foldl_cons,replay_pexpireat he hold]
  rfl

lemma allTranslated_incrbyfloat (e₀ : CallEnv) (hw : Writable tbl argv)
    (hkeep : ∀ name key incr, argv = [name,key,incr] → hasTtl e₀ db key d = false) :
    AllTranslated tbl e e₀.mstime d (incrbyfloatCommand tbl e₀ db argv d).propagated
      (incrbyfloatCommand tbl e₀ db argv d).dbs := by
  unfold incrbyfloatCommand
  split
  · rename_i name key incr
    have hkey := hw.length_lt key (by simp)
    have hexp := allTranslated_expireIfNeeded tbl e e₀.mstime d db e₀ hkey
    have hnone := expire_of_not_hasTtl (hkeep name key incr rfl)
    have hstore : ∀ (new : {s : Bytes // s.length < 2 ^ 63}) (x : Option (BitVec 64)), x = none →
        AllTranslated tbl e e₀.mstime d ((expireIfNeeded e₀ db key d).propagated ++
            [(db,[SET,key,new.val,KEEPTTL])])
          ((expireIfNeeded e₀ db key d).dbs.set db key (some ⟨.string new.val,x⟩)) := by
      intro new x hx
      have htr : translateCall tbl e₀.mstime [SET,key,new.val,KEEPTTL] =
          some [[SET,key,new.val]] := rfl
      have hms : expireMillis "set" none = .ok none := rfl
      exact hexp.concat (translated_set he lookupWrite_SET
        (writable_set lookupWrite_SET (by decide) hkey new.property) hms htr hx)
    simp only
    split
    · split
      · exact hexp
      · exact hstore _ none rfl
    · rename_i old expire hold
      rw [hold] at hnone
      split
      · exact hexp
      · exact hstore _ expire hnone
    · exact hexp
  · exact .nil d

lemma expireKeys_loading (keys : List (Fin n × {k : Bytes // k.length < 2 ^ 63})) :
    ∀ d : VolatileDbs n V, (expireKeys e keys d).dbs = d := by
  induction keys with
  | nil => exact fun d => rfl
  | cons p keys ih =>
    intro d
    simp only [expireKeys,ih,expire_loading he]

lemma allTranslated_other (e₀ : CallEnv) {o : OtherCommand n V}
    {args : List Bytes} (hother : lookupWrite tbl name = some (.other o))
    (hw : Writable tbl (name :: args)) (hrel : o.relative (name :: args) = false) :
    AllTranslated tbl e e₀.mstime d (otherCommand o e₀ db (name :: args) d).propagated
      (otherCommand o e₀ db (name :: args) d).dbs := by
  have hexp : AllTranslated tbl e e₀.mstime d
      (expireKeys e₀ (o.keys db (name :: args)) d).propagated
      (expireKeys e₀ (o.keys db (name :: args)) d).dbs := allTranslated_expireKeys e₀ _
  unfold otherCommand
  simp only
  split
  · exact hexp
  rename_i d' hproc
  have htr : translateCall tbl e₀.mstime (name :: args) = some [name :: args] :=
    translateCall_eq hother e₀.mstime args
  refine hexp.concat ⟨[name :: args],htr,by simpa using hw,?_⟩
  rw [foldl_cons,foldl_nil,replayCall_eq hother (by simp)]
  simp only [proc,otherCommand,expireKeys_loading he,o.proc_eq hrel e.mstime e₀.mstime,hproc]

end

end

section
variable (tbl : WriteTable n V)

/-- A call that keeps an expire time which the translation drops. -/
def losesTtl (lazyfreeLazyExpire : Bool) (s : AofServer n V) (a : WriteCall n) : Bool :=
  let e := a.env lazyfreeLazyExpire
  match lookupWrite tbl (a.argv.argv.headD []), a.argv.argv with
  | some .set, _ :: key :: _ :: options =>
    (setOptions ⟨false,false,false,none⟩ options).any (·.keepttl) && hasTtl e a.db key s.dbs
  | some .incrbyfloat, [_,key,_] => hasTtl e a.db key s.dbs
  | _, _ => false

/-- A `SET` among whose arguments both `EX` and `PX` are found. -/
def mixesUnits (a : WriteCall n) : Bool :=
  match lookupWrite tbl (a.argv.argv.headD []), a.argv.argv with
  | some .set, _ :: _ :: _ :: options => hasWord ex options && hasWord px options
  | _, _ => false

/-- A call that is appended with a time that counts from the clock. -/
def countsFromClock (a : WriteCall n) : Bool :=
  match lookupWrite tbl (a.argv.argv.headD []) with
  | some (.other o) => o.relative a.argv.argv
  | _ => false

def translatable (lazyfreeLazyExpire : Bool) (s : AofServer n V) (a : WriteCall n) : Bool :=
  !losesTtl tbl lazyfreeLazyExpire s a && !mixesUnits tbl a && !countsFromClock tbl a

end

section
variable {tbl : WriteTable n V} {e : CallEnv} {lazyfreeLazyExpire : Bool}
variable {s : AofServer n V}

lemma allTranslated_call (he : e.loading = true) (s : AofServer n V) (a : WriteCall n)
    (hok : translatable tbl lazyfreeLazyExpire s a = true) :
    AllTranslated tbl e a.mstime s.dbs
      (callWrite tbl (a.env lazyfreeLazyExpire) a.db a.argv.argv s.dbs).propagated
      (callWrite tbl (a.env lazyfreeLazyExpire) a.db a.argv.argv s.dbs).dbs := by
  obtain ⟨mstime,masterhost,db,argv,hne,hargc,hlen⟩ := a
  simp only [translatable,losesTtl,mixesUnits,countsFromClock,Bool.and_eq_true,
    Bool.not_eq_true'] at hok
  cases argv with
  | nil => exact absurd rfl hne
  | cons name args =>
    cases hcmd : lookupWrite tbl name with
    | none =>
      simp only [callWrite,headD_cons,hcmd]
      exact .nil _
    | some cmd =>
      have hw : Writable tbl (name :: args) := ⟨hne,hargc,hlen,by rw [headD_cons,hcmd]; rfl⟩
      simp only [headD_cons,hcmd] at hok
      simp only [callWrite_eq hcmd,WriteCall.env]
      have htr := translateCall_eq hcmd mstime args
      let e₀ : CallEnv := ⟨mstime,false,masterhost,lazyfreeLazyExpire⟩
      cases cmd with
      | set =>
        rcases args with _ | ⟨key,_ | ⟨val,options⟩⟩
        · exact .nil _
        · exact .nil _
        refine allTranslated_setCommand he e₀ hcmd hw hok.1.2 ?_
        intro f hf
        have hkeep : ((setOptions ⟨false,false,false,none⟩ options).any (·.keepttl) &&
            hasTtl e₀ db key s.dbs) = false := hok.1.1
        rwa [hf] at hkeep
      | setex =>
        refine allTranslated_setex he e₀ .seconds hw ?_
        rintro _ key time val ⟨⟩
        exact htr
      | psetex =>
        refine allTranslated_setex he e₀ .milliseconds hw ?_
        rintro _ key time val ⟨⟩
        exact htr
      | expire | pexpire | expireat =>
        refine allTranslated_expire e₀ hw ?_
        rintro d _ key param v old ⟨⟩ hv hold
        refine translated_expire he (hlen _ (by simp)) hold (htr.trans ?_)
        simp [WriteProc.translate,catAppendOnlyExpireAtCommand,strtol_of_string2ll hv,
          TimeUnit.millis]
      | pexpireat =>
        refine allTranslated_expire e₀ hw ?_
        rintro d _ key param v old ⟨⟩ hv hold
        refine ⟨[[name,key,param]],htr,by simpa using hw,?_⟩
        rw [foldl_cons,foldl_nil,replayCall_eq hcmd (by simp)]
        simp [WriteProc.proc,expireGenericCommand,hv,expire_loading he,hold,he]
      | incrbyfloat =>
        refine allTranslated_incrbyfloat he e₀ hw ?_
        rintro _ key incr ⟨⟩
        exact hok.1.1
      | del => exact allTranslated_del _ (.inl hcmd) hw
      | unlink => exact allTranslated_del _ (.inr hcmd) hw
      | select => exact .nil _
      | other o => exact allTranslated_other he e₀ hcmd hw hok.2

variable {d : VolatileDbs n V}

lemma replay_select {db cur : Fin n} (hn : n < 2 ^ 31) :
    replayCall tbl e (cur,d) [SELECT,decimal db] = (db,d) := by
  have hid : string2ll (decimal db) = some (db : Int) := by
    have h := string2ll_sdsfromlonglong (v := (db : Int)) (by omega) (by omega)
    rwa [sdsfromlonglong,if_neg (by omega),Int.natAbs_natCast] at h
  rw [replayCall,headD_cons,lookupWrite_SELECT]
  simp [hid]

lemma writable_select (hn : n < 2 ^ 31) (db : Fin n) : Writable tbl [SELECT,decimal db] := by
  have hlen : (decimal db).length ≤ 19 := decimal_length_le (by decide) (by omega)
  refine ⟨by simp,by simp,?_,by rw [headD_cons,lookupWrite_SELECT]; rfl⟩
  simp only [forall_mem_cons,not_mem_nil,false_imp_iff,implies_true,and_true]
  exact ⟨by decide,by omega⟩

def Loads (tbl : WriteTable n V) (e : CallEnv) [NeZero n] (s : AofServer n V)
    (d : VolatileDbs n V) : Prop :=
  ∃ (cmds : List (List Bytes)) (cur : Fin n), s.aofBuf = cmds.flatMap catAppendOnlyGenericCommand ∧
    (∀ c ∈ cmds, Writable tbl c) ∧
    cmds.foldl (replayCall tbl e) (0,fun _ _ => none) = (cur,d) ∧
    ∀ db, s.aofSelectedDb = some db → db = cur

variable [NeZero n]

variable {mstime : BitVec 64}

lemma Loads.feed (hn : n < 2 ^ 31) {d' : VolatileDbs n V} {db : Fin n}
    (hs : Loads tbl e s d) (htr : Translated tbl e mstime d db argv d') :
    ∃ t, feedAppendOnlyFile tbl mstime s db argv = .ok t ∧ t.dbs = s.dbs ∧ Loads tbl e t d' := by
  obtain ⟨cmds,cur,hbuf,hw,hrep,hcur⟩ := hs
  obtain ⟨new,hnew,hwn,hfold⟩ := htr
  obtain ⟨sel,hsel,hws,hfs⟩ : ∃ sel, (if s.aofSelectedDb = some db then [] else
      [[SELECT,decimal db]]) = sel ∧ (∀ c ∈ sel, Writable tbl c) ∧
        sel.foldl (replayCall tbl e) (cur,d) = (db,d) := by
    split
    · exact ⟨_,rfl,by simp,by rw [hcur db ‹_›]; rfl⟩
    · exact ⟨_,rfl,by simpa using writable_select hn db,by simp [replay_select hn]⟩
  rw [feedAppendOnlyFile,hnew,hsel]
  refine ⟨_,rfl,rfl,cmds ++ (sel ++ new),db,by simp [hbuf],?_,?_,
    fun _ h => (some.inj h).symm⟩
  · simp only [mem_append]
    rintro c (hc | hc | hc)
    · exact hw c hc
    · exact hws c hc
    · exact hwn c hc
  · rw [foldl_append,hrep,foldl_append,hfs,hfold]

lemma Loads.feedAll (hn : n < 2 ^ 31) {d' : VolatileDbs n V}
    (htr : AllTranslated tbl e mstime d ps d') (hs : Loads tbl e s d) :
    ∃ t, RedRock.feedAll tbl mstime s ps = .ok t ∧ t.dbs = s.dbs ∧ Loads tbl e t d' := by
  induction htr generalizing s with
  | nil d => exact ⟨s,rfl,rfl,hs⟩
  | cons head _ ih =>
    obtain ⟨s₁,hfeed,hdbs,hs₁⟩ := hs.feed hn head
    obtain ⟨t,hall,hdbs',ht⟩ := ih hs₁
    refine ⟨t,?_,hdbs'.trans hdbs,ht⟩
    rw [RedRock.feedAll,hfeed]
    exact hall

lemma Loads.step (hn : n < 2 ^ 31) (he : e.loading = true) {a : WriteCall n}
    (hs : Loads tbl e s s.dbs) (hok : translatable tbl lazyfreeLazyExpire s a = true) :
    ∃ t, AofServer.step tbl lazyfreeLazyExpire s a = some (.ok t) ∧ Loads tbl e t t.dbs := by
  have htr := allTranslated_call he s a hok
  obtain ⟨t,hall,hdbs,ht⟩ := Loads.feedAll hn htr
    (s := { s with dbs := (callWrite tbl (a.env lazyfreeLazyExpire) a.db a.argv.argv s.dbs).dbs }) hs
  refine ⟨t,?_,?_⟩
  · rw [AofServer.step,hall]
  rw [hdbs]
  exact ht

lemma replayFile_of_loads (hs : Loads tbl { e with loading := true } s d) :
    replayFile tbl e true s.aofBuf = some d := by
  obtain ⟨cmds,cur,hbuf,hw,hrep,_⟩ := hs
  obtain ⟨f,hb,hc⟩ := exists_items hw
  rw [hbuf,← hb,replayFile]
  cases f with
  | nil =>
    rw [← hc] at hrep
    obtain ⟨_,rfl⟩ := Prod.mk.inj hrep
    rfl
  | cons i f =>
    rw [loadAof_whole _ (by simp)]
    simp only [hc,hrep]

/-- Along calls that do not keep an expire time, none of which is appended with a time that counts
from the clock, and with one time unit in each `SET`, no assertion fails, and loading the file
gives the databases as they are. -/
theorem aof_faithful (tbl : WriteTable n V) (lazyfreeLazyExpire : Bool) (hn : n < 2 ^ 31)
    (e : CallEnv) (as : List (WriteCall n)) (hg : (aofServer tbl lazyfreeLazyExpire).Guarded
      (fun s a => translatable tbl lazyfreeLazyExpire s a = true)
      (aofServer tbl lazyfreeLazyExpire).init as) :
    ∃ u, (aofServer tbl lazyfreeLazyExpire).run as = some (.ok u) ∧
      replayFile tbl e true u.aofBuf = some u.dbs := by
  have h0 : Loads tbl { e with loading := true } (aofServer tbl lazyfreeLazyExpire).init
      (aofServer tbl lazyfreeLazyExpire).init.dbs :=
    ⟨[],0,rfl,by simp,rfl,by simp [aofServer]⟩
  obtain ⟨u,hrun,hu⟩ := (aofServer tbl lazyfreeLazyExpire).exists_guarded_run
    (I := fun s => Loads tbl { e with loading := true } s s.dbs)
    (fun s a hs hok => Loads.step hn rfl hs hok) as h0 hg
  exact ⟨u,hrun,replayFile_of_loads hu⟩

end

section Samples

def sampleTable : WriteTable 1 Empty := ⟨fun _ => none,fun _ _ => some ⟨[49],by decide⟩⟩

def sampleCall (mstime : BitVec 64) (argv : Argv) : WriteCall 1 := ⟨mstime,false,0,argv⟩

def sampleSetEx : Argv where
  argv := [set,[107],[118],ex,[49,48]]
  ne_nil := by simp
  argc_lt := by decide
  length_lt := by decide

def sampleSetKeep : Argv where
  argv := [set,[107],[119],keepttl]
  ne_nil := by simp
  argc_lt := by decide
  length_lt := by decide

set_option maxRecDepth 4000 in
/-- The key is to expire after ten seconds, and never does once the file is loaded. -/
theorem aof_not_faithful :
    ∃ u, (aofServer sampleTable false).run [sampleCall 0 sampleSetEx,sampleCall 1 sampleSetKeep] =
        some (.ok u) ∧
      u.dbs 0 [107] = some ⟨.string [119],some 10000⟩ ∧
      (replayFile sampleTable ⟨2,true,false,false⟩ true u.aofBuf).map (· 0 [107]) =
        some (some ⟨.string [119],none⟩) :=
  Machine.exists_run _ _ _ (by decide)

/-- `SET k v EX px EX 10` is accepted and run, and its translation fails an assertion. -/
example : ((aofServer sampleTable false).run [sampleCall 0 ⟨[set,[107],[118],ex,px,
    ex,[49,48]],by simp,by decide,by decide⟩]).map Except.toBool = some false := by
  decide

/-- The same calls in the other order. -/
theorem aof_faithful_keep_first :
    ∃ u, (aofServer sampleTable false).run [sampleCall 0 sampleSetKeep,sampleCall 1 sampleSetEx] =
        some (.ok u) ∧ replayFile sampleTable ⟨2,true,false,false⟩ true u.aofBuf = some u.dbs :=
  aof_faithful sampleTable false (by decide) ⟨2,true,false,false⟩ _
    ((aofServer sampleTable false).guarded_check _ _ _ (by decide))

end Samples
end RedRock
