import RedRock.Job

/-!
The commands that have a `checkRockProc`, and what their checks do with the argument vectors: which
vector they read, and what they reply.
-/

namespace RedRock
open Lib List RedisDb CheckRockProc Bool
variable {p : CheckRockProc} {argv : List Sds} {q : Command} {i : Nat} {n : Nat}

/-- An entry of `redisCommandTable` with a `checkRockProc`. -/
structure RockCommand where
  name : String
  arity : Int
  proc : CheckRockProc
  deriving DecidableEq

def rockCommandTable : List RockCommand :=
  [⟨"get",2,.oneKey⟩, ⟨"append",3,.oneKey⟩, ⟨"strlen",2,.oneKey⟩, ⟨"setbit",4,.oneKey⟩,
    ⟨"getbit",3,.oneKey⟩, ⟨"bitfield",-2,.oneKey⟩, ⟨"setrange",4,.oneKey⟩, ⟨"getrange",4,.oneKey⟩,
    ⟨"substr",4,.oneKey⟩, ⟨"incr",2,.oneKey⟩, ⟨"decr",2,.oneKey⟩, ⟨"mget",-2,.allKeys⟩,
    ⟨"rpush",-3,.oneKey⟩, ⟨"lpush",-3,.oneKey⟩, ⟨"rpushx",-3,.oneKey⟩, ⟨"lpushx",-3,.oneKey⟩,
    ⟨"linsert",5,.oneKey⟩, ⟨"rpop",2,.oneKey⟩, ⟨"lpop",2,.oneKey⟩, ⟨"brpop",-3,.excludeLastArg⟩,
    ⟨"brpoplpush",4,.excludeLastArg⟩, ⟨"blpop",-3,.excludeLastArg⟩, ⟨"llen",2,.oneKey⟩,
    ⟨"lindex",3,.excludeLastArg⟩, ⟨"lset",4,.oneKey⟩, ⟨"lrange",4,.oneKey⟩, ⟨"ltrim",4,.oneKey⟩,
    ⟨"lrem",4,.oneKey⟩, ⟨"rpoplpush",3,.allKeys⟩, ⟨"sadd",-3,.oneKey⟩, ⟨"srem",-3,.oneKey⟩,
    ⟨"smove",4,.excludeLastArg⟩, ⟨"sismember",3,.oneKey⟩, ⟨"scard",2,.oneKey⟩,
    ⟨"spop",-2,.oneKey⟩, ⟨"srandmember",-2,.oneKey⟩, ⟨"sinter",-2,.allKeys⟩,
    ⟨"sinterstore",-3,.excludeFirstArg⟩, ⟨"sunion",-2,.allKeys⟩,
    ⟨"sunionstore",-3,.excludeFirstArg⟩, ⟨"sdiff",-2,.allKeys⟩,
    ⟨"sdiffstore",-3,.excludeFirstArg⟩, ⟨"smembers",2,.oneKey⟩, ⟨"sscan",-3,.oneKey⟩,
    ⟨"zadd",-4,.oneKey⟩, ⟨"zincrby",4,.oneKey⟩, ⟨"zrem",-3,.oneKey⟩,
    ⟨"zremrangebyscore",4,.oneKey⟩, ⟨"zremrangebyrank",4,.oneKey⟩, ⟨"zremrangebylex",4,.oneKey⟩,
    ⟨"zunionstore",-4,.zstore⟩, ⟨"zinterstore",-4,.zstore⟩, ⟨"zrange",-4,.oneKey⟩,
    ⟨"zrangebyscore",-4,.oneKey⟩, ⟨"zrevrangebyscore",-4,.oneKey⟩, ⟨"zrangebylex",-4,.oneKey⟩,
    ⟨"zrevrangebylex",-4,.oneKey⟩, ⟨"zcount",4,.oneKey⟩, ⟨"zlexcount",4,.oneKey⟩,
    ⟨"zrevrange",-4,.oneKey⟩, ⟨"zcard",2,.oneKey⟩, ⟨"zscore",3,.oneKey⟩, ⟨"zrank",3,.oneKey⟩,
    ⟨"zrevrank",3,.oneKey⟩, ⟨"zscan",-3,.oneKey⟩, ⟨"zpopmin",-2,.oneKey⟩, ⟨"zpopmax",-2,.oneKey⟩,
    ⟨"bzpopmin",-3,.excludeLastArg⟩, ⟨"bzpopmax",-3,.excludeLastArg⟩, ⟨"hset",-4,.oneKey⟩,
    ⟨"hsetnx",4,.oneKey⟩, ⟨"hget",3,.oneKey⟩, ⟨"hmset",-4,.oneKey⟩, ⟨"hmget",-3,.oneKey⟩,
    ⟨"hincrby",4,.oneKey⟩, ⟨"hincrbyfloat",4,.oneKey⟩, ⟨"hdel",-3,.oneKey⟩, ⟨"hlen",2,.oneKey⟩,
    ⟨"hstrlen",3,.oneKey⟩, ⟨"hkeys",2,.oneKey⟩, ⟨"hvals",2,.oneKey⟩, ⟨"hgetall",2,.oneKey⟩,
    ⟨"hexists",3,.oneKey⟩, ⟨"hscan",-3,.oneKey⟩, ⟨"incrby",3,.oneKey⟩, ⟨"decrby",3,.oneKey⟩,
    ⟨"incrbyfloat",3,.oneKey⟩, ⟨"getset",3,.oneKey⟩, ⟨"move",3,.oneKey⟩, ⟨"rename",3,.oneKey⟩,
    ⟨"renamenx",3,.oneKey⟩, ⟨"type",2,.oneKey⟩, ⟨"sort",-2,.oneKey⟩, ⟨"touch",-2,.allKeys⟩,
    ⟨"debug",-2,.excludeFirstArg⟩, ⟨"migrate",-6,.migrate⟩, ⟨"dump",2,.oneKey⟩,
    ⟨"object",-2,.excludeFirstArg⟩, ⟨"bitop",-4,.excludeFirstArg⟩, ⟨"bitcount",-2,.oneKey⟩,
    ⟨"bitpos",-3,.oneKey⟩, ⟨"geoadd",-5,.oneKey⟩, ⟨"georadius",-6,.oneKey⟩,
    ⟨"georadius_ro",-6,.oneKey⟩, ⟨"georadiusbymember",-5,.oneKey⟩,
    ⟨"georadiusbymember_ro",-5,.oneKey⟩, ⟨"geohash",-2,.oneKey⟩, ⟨"geopos",-2,.oneKey⟩,
    ⟨"geodist",-4,.oneKey⟩, ⟨"pfadd",-2,.oneKey⟩, ⟨"pfcount",-2,.allKeys⟩,
    ⟨"pfmerge",-2,.allKeys⟩]

def RockCommand.accepts (e : RockCommand) (argc : Nat) : Prop :=
  ¬((e.arity > 0 ∧ e.arity ≠ argc) ∨ (argc : Int) < -e.arity)

instance (e : RockCommand) (argc : Nat) : Decidable (e.accepts argc) :=
  inferInstanceAs (Decidable ¬_)

/-- The arguments a check reads without looking at `argc`, or asserts to be there. -/
def CheckRockProc.minArgc : CheckRockProc → Nat
  | .oneKey | .allKeys | .excludeFirstArg => 2
  | .excludeLastArg | .zstore => 3
  | .migrate => 6

def Command.Accepted (q : Command) : Prop :=
  ∀ p, q.cmd.checkRockProc = some p → ∃ e ∈ rockCommandTable, e.proc = p ∧ e.accepts q.argv.length

lemma Command.accepted_of_entry (e : RockCommand) (he : e ∈ rockCommandTable)
    (hp : q.cmd.checkRockProc = some e.proc) (ha : e.accepts q.argv.length) : q.Accepted := by
  intro p hp'
  rw [hp] at hp'
  exact ⟨e,he,Option.some.inj hp',ha⟩

lemma rockCommandTable_minArgc : ∀ e ∈ rockCommandTable, e.proc.minArgc ≤ e.arity.natAbs := by
  decide

lemma RockCommand.minArgc_le {e : RockCommand} (he : e ∈ rockCommandTable) {argc : Nat}
    (h : e.accepts argc) : e.proc.minArgc ≤ argc := by
  have hmin := rockCommandTable_minArgc e he
  unfold RockCommand.accepts at h
  omega

lemma Command.Accepted.minArgc_le (h : q.Accepted) (hp : q.cmd.checkRockProc = some p) :
    p.minArgc ≤ q.argv.length := by
  obtain ⟨e,he,rfl,ha⟩ := h p hp
  exact RockCommand.minArgc_le he ha

lemma argAt_ok (argv : List Sds) (h : i < argv.length) :
    ∃ a, argv[i]? = some a ∧ argAt argv i = .ok a := by
  refine ⟨argv[i],getElem?_eq_getElem h,?_⟩
  rw [argAt,getElem?_eq_getElem h]

lemma argAt_error (h : argv.length ≤ i) : argAt argv i = .error .argvOutOfBounds := by
  rw [argAt,getElem?_eq_none h]

lemma migrateOptions_ok {cArgv rest : List Sds} {j : Nat} (hlen : 4 ≤ cArgv.length)
    (hrest : rest = cArgv.drop j) :
    ∃ r, migrateOptions cArgv j rest = .ok r ∧ ∀ f n, r = some (f,n) → f + n ≤ cArgv.length := by
  induction j, rest using migrateOptions.induct with
  | case1 j =>
    refine ⟨some (3,1),by rw [migrateOptions],fun f n h => ?_⟩
    cases h
    exact hlen
  | case2 j a rest hcopy ih =>
    rw [migrateOptions.eq_def]
    simp only [hcopy,if_true]
    exact ih (by rw [← tail_drop,← hrest,tail_cons])
  | case3 j a rest hcopy hreplace ih =>
    rw [migrateOptions.eq_def]
    simp only [hcopy,hreplace,if_true,if_false,false_eq_true]
    exact ih (by rw [← tail_drop,← hrest,tail_cons])
  | case4 j a hcopy hreplace hauth =>
    rw [migrateOptions.eq_def]
    simp only [hcopy,hreplace,hauth,if_true,if_false,false_eq_true]
    exact ⟨none,rfl,fun f n h => by cases h⟩
  | case5 j a hcopy hreplace hauth b rest ih =>
    rw [migrateOptions.eq_def]
    simp only [hcopy,hreplace,hauth,if_true,if_false,false_eq_true]
    exact ih (by rw [← tail_drop,← tail_drop,← hrest,tail_cons,tail_cons])
  | case6 j a rest hcopy hreplace hauth hkeys =>
    rw [migrateOptions.eq_def]
    simp only [hcopy,hreplace,hauth,hkeys,if_true,if_false,false_eq_true]
    have hj : j < cArgv.length := by
      by_contra hge
      rw [drop_eq_nil_of_le (Nat.le_of_not_lt hge)] at hrest
      cases hrest
    obtain ⟨key,_,hkey⟩ := argAt_ok cArgv (i := 3) (by omega)
    rw [hkey]
    by_cases hk : key.length ≠ 0
    · exact ⟨none,if_pos hk,fun f n h => by cases h⟩
    refine ⟨some (j+1,cArgv.length - j - 1),if_neg hk,fun f n h => ?_⟩
    cases h
    omega
  | case7 j a rest hcopy hreplace hauth hkeys =>
    rw [migrateOptions.eq_def]
    simp only [hcopy,hreplace,hauth,hkeys,if_false,false_eq_true]
    exact ⟨none,rfl,fun f n h => by cases h⟩

lemma mapM_argAt_ok_iff {f : Nat} (js : List Nat) :
    (∃ keys, js.mapM (fun j => argAt argv (f + j)) = .ok keys) ↔ ∀ j ∈ js, f + j < argv.length := by
  induction js with
  | nil => exact ⟨fun _ j hj => absurd hj not_mem_nil,fun _ => ⟨[],rfl⟩⟩
  | cons j js ih =>
    rw [forall_mem_cons,← ih]
    simp only [mapM_cons]
    constructor
    · rintro ⟨keys,h⟩
      obtain ⟨a,ha,h⟩ := bind_ok.mp h
      obtain ⟨keys',hkeys,_⟩ := bind_ok.mp h
      refine ⟨?_,keys',hkeys⟩
      by_contra hge
      rw [argAt_error (Nat.le_of_not_lt hge)] at ha
      cases ha
    · rintro ⟨hj,keys,hkeys⟩
      obtain ⟨a,_,ha⟩ := argAt_ok argv hj
      exact ⟨a :: keys,by rw [ha,hkeys]; rfl⟩

lemma keys_ok_iff {f n : Nat} :
    (∃ keys, (List.range n).mapM (fun j => argAt argv (f + j)) = .ok keys) ↔
      n = 0 ∨ f + n ≤ argv.length := by
  rw [mapM_argAt_ok_iff]
  simp only [mem_range]
  constructor
  · intro h
    by_cases hn : n = 0
    · exact .inl hn
    have := h (n - 1) (by omega)
    omega
  intro h j hj
  omega

/-- Two checks parse the vector of the client, the others only the one they are called with. -/
def CheckRockProc.readsOwnArgv : CheckRockProc → Bool
  | .zstore | .migrate => false
  | _ => true

lemma checkProc_ownArgv (h : p.readsOwnArgv = true) (cArgv cArgv' argv : List Sds) :
    checkRockProc cArgv argv p = checkRockProc cArgv' argv p := by
  cases p with
  | oneKey | excludeLastArg | allKeys | excludeFirstArg => rfl
  | zstore | migrate => cases h

lemma checkProc_exec (h : p.readsOwnArgv = false) (exec : Sds) (argv : List Sds) :
    checkRockProc [exec] argv p = .error .argvOutOfBounds := by
  cases p with
  | oneKey | excludeLastArg | allKeys | excludeFirstArg => cases h
  | zstore | migrate => rfl

lemma checkProc_direct (h : p.minArgc ≤ argv.length) :
    ∃ r, checkRockProc argv argv p = .ok r := by
  cases p with
  | oneKey =>
    obtain ⟨key,_,hkey⟩ := argAt_ok argv (i := 1) h
    refine ⟨([key],[]),?_⟩
    rw [checkRockProc,cmdCheckRockForOneKey,hkey]
    rfl
  | excludeLastArg | allKeys | excludeFirstArg => exact ⟨_,assert_ok.mpr ⟨h,rfl⟩⟩
  | zstore =>
    obtain ⟨numkeys,_,hn⟩ := argAt_ok argv (i := 2) h
    rw [checkRockProc,cmdCheckRockForZstore,hn]
    simp only [bind,Except.bind]
    split
    · exact ⟨_,rfl⟩
    split
    · exact ⟨_,rfl⟩
    split <;> exact ⟨_,rfl⟩
  | migrate =>
    have hlen : 6 ≤ argv.length := h
    obtain ⟨r,hr,hkeys⟩ := migrateOptions_ok (j := 6) (show 4 ≤ argv.length by omega) rfl
    obtain ⟨timeout,_,ht⟩ := argAt_ok argv (i := 5) (by omega)
    obtain ⟨dbid,_,hd⟩ := argAt_ok argv (i := 4) (by omega)
    rw [checkRockProc,cmdCheckRockForMigrate,hr]
    cases r with
    | none => exact ⟨_,rfl⟩
    | some fn =>
      obtain ⟨f,n⟩ := fn
      obtain ⟨keys,hk⟩ := keys_ok_iff.mpr (.inr (hkeys f n rfl))
      simp only [bind,Except.bind,ht,hd] at hk ⊢
      split
      · exact ⟨_,rfl⟩
      split
      · exact ⟨_,rfl⟩
      rw [hk]
      exact ⟨_,rfl⟩

/-- The keys a check reports are the same for a command that is sent and for one that is queued and
examined when EXEC is sent iff it is none of the two checks that parse the vector of the client; the
others do not look at that vector at all. -/
theorem check_same_in_exec_iff (db : RedisDb) (q : Command) (p : CheckRockProc) (exec : Sds)
    (hp : q.cmd.checkRockProc = some p) (hq : q.Accepted) :
    (checkRockForCmd db [exec] q = checkRockForSingleCmd db q ↔ p ≠ .zstore ∧ p ≠ .migrate) ∧
      (p ≠ .zstore ∧ p ≠ .migrate →
        ∀ cArgv, checkRockForCmd db cArgv q = checkRockForSingleCmd db q) := by
  have hown : p ≠ .zstore ∧ p ≠ .migrate ↔ p.readsOwnArgv = true := by
    cases p <;> decide
  have hsame : p.readsOwnArgv = true →
      ∀ cArgv, checkRockForCmd db cArgv q = checkRockForSingleCmd db q := by
    intro h cArgv
    simp only [checkRockForSingleCmd,checkRockForCmd,hp]
    rw [checkProc_ownArgv h cArgv q.argv]
  rw [hown]
  refine ⟨⟨fun h => ?_,fun h => hsame h [exec]⟩,hsame⟩
  by_contra hnot
  obtain ⟨r,hr⟩ := checkProc_direct (hq.minArgc_le hp)
  simp only [checkRockForSingleCmd,checkRockForCmd,hp,
    checkProc_exec (eq_false_iff.mpr hnot),hr] at h
  cases h

def Sample.getCommand : Command := ⟨⟨.other,some .oneKey,false,true⟩,[[103,101,116],[107]]⟩

def Sample.zunionstore : Command :=
  ⟨⟨.other,some .zstore,true,false⟩,
    [[122,117,110,105,111,110,115,116,111,114,101],[100],[49],[107]]⟩

def Sample.execName : Sds := [101,120,101,99]

open Sample

lemma Sample.getCommand_accepted : Sample.getCommand.Accepted :=
  Command.accepted_of_entry ⟨"get",2,.oneKey⟩ (by decide) rfl (by decide)

lemma Sample.zunionstore_accepted : Sample.zunionstore.Accepted :=
  Command.accepted_of_entry ⟨"zunionstore",-4,.zstore⟩ (by decide) rfl (by decide)

def Sample.keyOnDisk : RedisDb :=
  { RedisDb.empty with dict := (∅ : Dict Sds DbVal).insert [107] .valueInRock }

theorem check_same_in_exec_get : Sample.getCommand.Accepted ∧
    checkRockForSingleCmd Sample.keyOnDisk Sample.getCommand = .ok ([[107]],[]) ∧
    checkRockForCmd Sample.keyOnDisk [Sample.execName] Sample.getCommand =
      checkRockForSingleCmd Sample.keyOnDisk Sample.getCommand :=
  ⟨getCommand_accepted,rfl,(check_same_in_exec_iff keyOnDisk getCommand .oneKey
    execName rfl getCommand_accepted).1.mpr ⟨by decide,by decide⟩⟩

/-- The number of keys of a queued ZUNIONSTORE is read from the vector of EXEC, past its end. -/
theorem queued_zunionstore_reads_exec : Sample.zunionstore.Accepted ∧
      checkRockForSingleCmd empty Sample.zunionstore = .ok ([],[]) ∧
      checkRockForCmd empty [Sample.execName] Sample.zunionstore = .error .argvOutOfBounds :=
  ⟨zunionstore_accepted,rfl,rfl⟩

def CheckRockProc.Quiet (cArgv argv : List Sds) : CheckRockProc → Prop
  | .zstore => ∃ numkeys, cArgv[2]? = some numkeys ∧ (string2ll numkeys).isSome
  | .migrate => ∃ r, migrateOptions cArgv 6 (cArgv.drop 6) = .ok r ∧ ∀ f n, r = some (f,n) →
      (n = 0 ∨ f + n ≤ argv.length) ∧ ∃ timeout dbid, cArgv[5]? = some timeout ∧ cArgv[4]? = some dbid ∧
        (string2ll timeout).isSome ∧ (string2ll dbid).isSome
  | _ => True

lemma getLong_ok_iff {o : Sds} :
    (∃ v, getLongFromObjectOrReply o = .ok v) ↔ (string2ll o).isSome = true := by
  unfold getLongFromObjectOrReply
  cases string2ll o with
  | none | some => simp

lemma argAt_ok_iff {a : Sds} : argAt argv i = .ok a ↔ argv[i]? = some a := by
  unfold argAt
  cases argv[i]? with
  | none | some => simp

lemma zstore_quiet_iff {cArgv : List Sds} :
    (∃ keys, cmdCheckRockForZstore cArgv argv = .ok (keys,[])) ↔
      Quiet cArgv argv .zstore := by
  unfold cmdCheckRockForZstore Quiet
  constructor
  · rintro ⟨keys,h⟩
    obtain ⟨a,ha,h⟩ := bind_ok.mp h
    refine ⟨a,argAt_ok_iff.mp ha,getLong_ok_iff.mp ?_⟩
    cases hl : getLongFromObjectOrReply a with
    | ok v => exact ⟨v,rfl⟩
    | error e =>
      rw [hl] at h
      cases h
  rintro ⟨a,ha,hint⟩
  obtain ⟨v,hv⟩ := getLong_ok_iff.mpr hint
  rw [argAt_ok_iff.mpr ha]
  simp only [bind,Except.bind,hv]
  split
  · exact ⟨_,rfl⟩
  split <;> exact ⟨_,rfl⟩

lemma migrate_quiet_iff {cArgv : List Sds} :
    (∃ keys, cmdCheckRockForMigrate cArgv argv = .ok (keys,[])) ↔
      Quiet cArgv argv .migrate := by
  unfold cmdCheckRockForMigrate Quiet
  constructor
  · rintro ⟨keys,h⟩
    obtain ⟨r,hr,h⟩ := bind_ok.mp h
    refine ⟨r,hr,fun f n hfn => ?_⟩
    subst hfn
    obtain ⟨timeout,ht,h⟩ := bind_ok.mp h
    cases htl : getLongFromObjectOrReply timeout with
    | error e =>
      rw [htl] at h
      cases h
    | ok v =>
      rw [htl] at h
      obtain ⟨dbid,hd,h⟩ := bind_ok.mp h
      cases hdl : getLongFromObjectOrReply dbid with
      | error e =>
        rw [hdl] at h
        cases h
      | ok w =>
        rw [hdl] at h
        obtain ⟨keys',hkeys,_⟩ := bind_ok.mp h
        exact ⟨keys_ok_iff.mp ⟨keys',hkeys⟩,timeout,dbid,argAt_ok_iff.mp ht,argAt_ok_iff.mp hd,
          getLong_ok_iff.mp ⟨v,htl⟩,getLong_ok_iff.mp ⟨w,hdl⟩⟩
  rintro ⟨r,hr,h⟩
  rw [hr]
  cases r with
  | none => exact ⟨[],rfl⟩
  | some fn =>
    obtain ⟨f,n⟩ := fn
    obtain ⟨hfn,timeout,dbid,ht,hd,htl,hdl⟩ := h f n rfl
    obtain ⟨v,hv⟩ := getLong_ok_iff.mpr htl
    obtain ⟨w,hw⟩ := getLong_ok_iff.mpr hdl
    obtain ⟨keys,hkeys⟩ := keys_ok_iff.mpr hfn
    refine ⟨keys,?_⟩
    simp only [bind,Except.bind,argAt_ok_iff.mpr ht,argAt_ok_iff.mpr hd,hv,hw] at hkeys ⊢
    rw [hkeys]
    rfl

/-- A check does not reply iff the vector it parses is as it should be. -/
theorem checkProc_quiet_iff {cArgv argv : List Sds} (h : p.minArgc ≤ argv.length) :
    (∃ keys, checkRockProc cArgv argv p = .ok (keys,[])) ↔ p.Quiet cArgv argv := by
  cases p with
  | oneKey =>
    obtain ⟨key,_,hkey⟩ := argAt_ok argv (i := 1) h
    refine ⟨fun _ => trivial,fun _ => ⟨[key],?_⟩⟩
    rw [checkRockProc,cmdCheckRockForOneKey,hkey]
    rfl
  | excludeLastArg | allKeys | excludeFirstArg =>
    exact ⟨fun _ => trivial,fun _ => ⟨_,assert_ok.mpr ⟨h,rfl⟩⟩⟩
  | zstore => exact zstore_quiet_iff
  | migrate => exact migrate_quiet_iff

lemma checkCmd_quiet_iff (h : q.Accepted) (db : RedisDb) (cArgv : List Sds) :
    (∃ keys, checkRockForCmd db cArgv q = .ok (keys,[])) ↔
      ∀ p, q.cmd.checkRockProc = some p → p.Quiet cArgv q.argv := by
  unfold checkRockForCmd
  cases hp : q.cmd.checkRockProc with
  | none =>
    refine ⟨fun _ p hp' => ?_,fun _ => ⟨[],rfl⟩⟩
    cases hp'
  | some p =>
    simp only [Option.some.injEq,forall_eq']
    rw [← checkProc_quiet_iff (h.minArgc_le hp)]
    constructor
    · rintro ⟨keys,hr⟩
      obtain ⟨⟨keys',errs⟩,hc,hr⟩ := bind_ok.mp hr
      cases hr
      exact ⟨keys',hc⟩
    rintro ⟨keys,hc⟩
    refine ⟨keys.filter (isValueInRock db),?_⟩
    rw [hc]
    rfl

lemma checkMultiCmd_quiet_iff {qs : List Command} (h : ∀ q ∈ qs, q.Accepted) (db : RedisDb)
    (cArgv : List Sds) : (∃ keys, checkRockForMultiCmd db cArgv qs = .ok (keys,[])) ↔
      ∀ q ∈ qs, ∀ p, q.cmd.checkRockProc = some p → p.Quiet cArgv q.argv := by
  induction qs with
  | nil => exact ⟨fun _ q hq => absurd hq not_mem_nil,fun _ => ⟨[],rfl⟩⟩
  | cons q qs ih =>
    rw [forall_mem_cons,← ih fun q hq => h q (mem_cons_of_mem _ hq),
      ← checkCmd_quiet_iff (h q mem_cons_self) db cArgv]
    simp only [checkRockForMultiCmd]
    constructor
    · rintro ⟨keys,hr⟩
      obtain ⟨⟨keys₁,errs₁⟩,h₁,hr⟩ := bind_ok.mp hr
      obtain ⟨⟨keys₂,errs₂⟩,h₂,hr⟩ := bind_ok.mp hr
      injection hr with hr
      obtain ⟨rfl,rfl⟩ := append_eq_nil_iff.mp (Prod.mk.inj hr).2
      exact ⟨⟨keys₁,h₁⟩,keys₂,h₂⟩
    rintro ⟨⟨keys₁,h₁⟩,keys₂,h₂⟩
    refine ⟨keys₁ ++ keys₂,?_⟩
    rw [h₁,h₂]
    rfl

/-- The vectors that the check of a client parses are as they should be. In a transaction it parses
the vector of the command that was sent last for every command of the queue. -/
def Client.Quiet {n : Nat} (cl : Client n) (q : Command) : Prop :=
  if cl.multi then ∀ q' ∈ cl.mstate, ∀ p, q'.cmd.checkRockProc = some p → p.Quiet q.argv q'.argv
  else ∀ p, q.cmd.checkRockProc = some p → p.Quiet q.argv q.argv

variable {cl : Client n}

lemma checkRock_quiet_iff (hq : q.Accepted) (hqs : ∀ q' ∈ cl.mstate, q'.Accepted)
    (db : RedisDb) : (∃ keys, checkRock db cl q = .ok (keys,[])) ↔ cl.Quiet q := by
  unfold checkRock Client.Quiet
  split
  · exact checkMultiCmd_quiet_iff hqs db q.argv
  · exact checkCmd_quiet_iff hq db q.argv

/-- The replies for one command: `checkCallValueInRock` is called by `processCommand`, and again
each time the client is resumed, in the database as it is then. When no key is on disk the command
is called and adds its own reply; the first result tells whether that has happened. -/
def Client.commandReplies {n : Nat} (cl : Client n) (q : Command) (own : String) :
    List RedisDb → Except Fault (Bool × List String)
  | [] => .ok (false,[])
  | db :: dbs => do
    let (keys,errs) ← checkRock db cl q
    if keys = [] then return (true,errs ++ [own])
    else do
      let (called,replies) ← cl.commandReplies q own dbs
      return (called,errs ++ replies)

lemma Client.Quiet.commandReplies (hq : q.Accepted)
    (hqs : ∀ q' ∈ cl.mstate, q'.Accepted) (h : cl.Quiet q) (own : String) (dbs : List RedisDb) :
    ∃ called, cl.commandReplies q own dbs = .ok (called,if called then [own] else []) := by
  induction dbs with
  | nil => exact ⟨false,rfl⟩
  | cons db dbs ih =>
    obtain ⟨keys,hk⟩ := (checkRock_quiet_iff hq hqs db).mpr h
    obtain ⟨called,hc⟩ := ih
    rw [Client.commandReplies,hk]
    by_cases hn : keys = []
    · exact ⟨true,if_pos hn⟩
    refine ⟨called,(if_neg hn).trans ?_⟩
    rw [hc]
    rfl

/-- A command has one reply, its own, however often its check is repeated, iff the vectors that the
check parses are as they should be. -/
theorem one_reply_iff {n : Nat} (cl : Client n) (q : Command) (own : String) (hq : q.Accepted)
    (hqs : ∀ q' ∈ cl.mstate, q'.Accepted) :
    (∀ dbs, ∃ called, cl.commandReplies q own dbs = .ok (called,if called then [own] else [])) ↔
      cl.Quiet q := by
  constructor
  · intro h
    obtain ⟨called,hc⟩ := h [empty]
    rw [← checkRock_quiet_iff hq hqs empty]
    obtain ⟨⟨keys,errs⟩,hk,hc⟩ := bind_ok.mp hc
    refine ⟨keys,?_⟩
    simp only at hc
    split at hc
    · injection hc with hc
      obtain ⟨rfl,hc⟩ := Prod.mk.inj hc
      rw [if_pos rfl,append_left_eq_self] at hc
      rw [hk,hc]
    injection hc with hc
    obtain ⟨rfl,hc⟩ := Prod.mk.inj hc
    rw [if_neg Bool.false_ne_true,List.append_nil] at hc
    rw [hk,hc]
  · intro h dbs
    exact h.commandReplies hq hqs own dbs

theorem one_reply_zunionstore : Sample.zunionstore.Accepted ∧ ∀ dbs, ∃ called,
      (createClient 0).commandReplies Sample.zunionstore ":0" dbs =
        .ok (called,if called then [":0"] else []) := by
  refine ⟨zunionstore_accepted,(one_reply_iff (createClient 0) zunionstore ":0"
    zunionstore_accepted (fun _ h => absurd h not_mem_nil)).mpr ?_⟩
  intro p hp
  cases hp
  exact ⟨[49],rfl,rfl⟩

def Sample.malformed : Command :=
  { Sample.zunionstore with
    argv := [[122,117,110,105,111,110,115,116,111,114,101],[100],[120],[107]] }

/-- The check complains about the number of keys, and the command does so again. -/
theorem malformed_zunionstore_replies_twice : Sample.malformed.Accepted ∧
      (createClient 0).commandReplies Sample.malformed notAnInteger [empty] =
        .ok (true,[notAnInteger,notAnInteger]) :=
  ⟨Command.accepted_of_entry ⟨"zunionstore",-4,.zstore⟩ (by decide) rfl (by decide),rfl⟩

end RedRock
