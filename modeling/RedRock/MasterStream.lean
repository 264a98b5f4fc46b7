import RedRock.Protocol
import RedRock.Step

/-!
The replication stream of a replica that has replicas of its own. The bytes read from the
master go to the query buffer and to `pending_querybuf`; what the processing of the query
buffer has applied is fed from `pending_querybuf` to the backlog and the sub-replicas.
-/

namespace RedRock
open Lib List Option

structure StreamConfig where
  protoMaxBulkLen : Int
  clientMaxQuerybufLen : Nat
  gopherEnabled : Bool
  lookupCommand : Sds → Option RedisCommand

/-- `replicating prev` is inside `processInputBufferAndReplicate`, which keeps the offset
`prev` it began with; `resuming` is inside `_resumeRockClient`. -/
inductive StreamControl where
  | idle
  | replicating (prev : Int)
  | resuming
  deriving DecidableEq

/-- The client of the master. `closing` stands for `CLIENT_CLOSE_AFTER_REPLY` and
`CLIENT_CLOSE_ASAP`, `suspended` is the command that waits for rock keys; `received` is
all that was read, `fed` all that was passed on. -/
structure MasterStream where
  buf : QueryBuf
  pendingQuerybuf : Bytes
  readReploff : Int
  reploff : Int
  multi : Bool
  blocked : Bool
  closing : Bool
  suspended : Option RedisCommand
  control : StreamControl
  received : Bytes
  fed : Bytes
  deriving DecidableEq

/-- What becomes of a command: an error reply, the call of its procedure, which may block
the client, or a value on disk. -/
inductive Verdict where
  | rejected
  | runs (blocks : Bool)
  | waits
  deriving DecidableEq

inductive StreamAct where
  | readQueryFromClient (bs : Bytes)
  | unblockClient
  | processUnblockedClients
  | pass (held : Bool) (v : Verdict)
  | resumeRockClient (blocks : Bool)
  deriving DecidableEq

def Proc.multiAfter : Proc → Bool → Bool
  | .multi, _ => true
  | .exec, _ | .discard, _ => false
  | _, m => m

namespace MasterStream

def call (s : MasterStream) (cmd : RedisCommand) (blocks : Bool) : MasterStream :=
  { s with multi := cmd.proc.multiAfter s.multi, blocked := blocks }

def finish (s : MasterStream) : MasterStream :=
  { s with
    reploff := if s.multi then s.reploff else s.readReploff - s.buf.sdslen + s.buf.qbPos
    buf := s.buf.reset }

/-- Inside MULTI the check covers the queued commands, and is made for the commands that
are not queued. -/
def mayWait (s : MasterStream) (cmd : RedisCommand) : Bool :=
  if s.multi then cmd.proc.skipsQueue else cmd.checkRockProc.isSome

def quit : Sds := [113,117,105,116]

variable (cfg : StreamConfig) (s : MasterStream)

def processCommandAndResetClient (v : Verdict) : Option MasterStream :=
  match s.buf.argv with
  | [] => none
  | name :: _ =>
    if strcasecmp name quit then some { s with closing := true }
    else
      match cfg.lookupCommand name, v with
      | none, .waits => none
      | none, _ => some s.finish
      | some cmd, .waits => if s.mayWait cmd then some { s with suspended := some cmd } else none
      | some _, .rejected => some s.finish
      | some cmd, .runs blocks =>
        if s.multi && !cmd.proc.skipsQueue then some s.finish
        else some (s.call cmd blocks).finish

def endLoop : MasterStream :=
  match s.control with
  | .replicating prev =>
    let applied := (s.reploff - prev).toNat
    { s with
      buf := s.buf.trim, control := .idle
      fed := s.fed ++ s.pendingQuerybuf.take applied
      pendingQuerybuf := s.pendingQuerybuf.drop applied }
  | _ => { s with buf := s.buf.trim, control := .idle }

/-- `held`: clients are paused, or a script is in timeout. -/
def breaks (held : Bool) : Bool :=
  s.buf.rest = [] || s.suspended.isSome || held || s.blocked || s.closing

def isGopher (q : QueryBuf) : Bool :=
  cfg.gopherEnabled && q.reqtype = some .inline &&
    (q.argv = [] || (q.argv.length = 1 && q.argv.head?.bind List.head? = some 47))

def pass (held : Bool) (v : Verdict) : Option (Except ParseFault MasterStream) :=
  if s.control = .idle then none
  else if s.breaks held then some (.ok s.endLoop)
  else
    match nextRequest cfg.protoMaxBulkLen s.buf with
    | .error f => some (.error f)
    | .ok (.more q) => some (.ok ({ s with buf := q }).endLoop)
    | .ok (.error q _) => some (.ok ({ s with buf := q, closing := true }).endLoop)
    | .ok (.ok q) =>
      if isGopher cfg q then some (.ok ({ s with buf := q.reset, closing := true }).endLoop)
      else if q.argv = [] then some (.ok { s with buf := q.reset })
      else (({ s with buf := q }).processCommandAndResetClient cfg v).map .ok

def readQueryFromClient (bs : Bytes) : MasterStream :=
  let s := { s with
    buf := s.buf.append bs, pendingQuerybuf := s.pendingQuerybuf ++ bs
    readReploff := s.readReploff + bs.length, received := s.received ++ bs }
  if s.buf.sdslen > cfg.clientMaxQuerybufLen then { s with closing := true }
  else { s with control := .replicating s.reploff }

def step : StreamAct → Option (Except ParseFault MasterStream)
  | .readQueryFromClient bs =>
    if s.control = .idle ∧ bs ≠ [] then some (.ok (s.readQueryFromClient cfg bs)) else none
  | .unblockClient => if s.control = .idle then some (.ok { s with blocked := false }) else none
  | .processUnblockedClients =>
    if s.control = .idle ∧ s.blocked = false ∧ s.buf.sdslen > 0 then
      some (.ok { s with control := .replicating s.reploff })
    else none
  | .pass held v => s.pass cfg held v
  | .resumeRockClient blocks =>
    if s.control = .idle then
      s.suspended.map fun cmd => .ok { (s.call cmd blocks).finish with
        suspended := none, control := .resuming }
    else none

end MasterStream

def masterStream (cfg : StreamConfig) (start : Int) :
    Machine MasterStream StreamAct ParseFault where
  init := ⟨.empty,[],start,start,false,false,false,none,.idle,[],[]⟩
  step := MasterStream.step cfg

namespace MasterStream
variable {cfg : StreamConfig} {start : Int} {s t : MasterStream} {a : StreamAct}
variable {cmd : RedisCommand} {v : Verdict}

/-- What was fed is the prefix of the stream up to `reploff`, and the rest is pending. -/
def Exact (start : Int) (s : MasterStream) : Prop :=
  ∃ k : Nat, s.reploff = start + k ∧ s.fed = s.received.take k ∧
    s.pendingQuerybuf = s.received.drop k

/-- Whether the client is inside MULTI when the request is done with, or the request is none that
ends with the offset: an empty one, QUIT, or a command that waits. -/
def staysBehind (s : MasterStream) (cfg : StreamConfig) (q : QueryBuf) (v : Verdict) : Bool :=
  match q.argv with
  | [] => true
  | name :: _ =>
    isGopher cfg q || strcasecmp name quit || v = .waits ||
      match cfg.lookupCommand name, v with
      | some cmd, .runs _ => cmd.proc.multiAfter s.multi
      | _, _ => s.multi

/-- What `_resumeRockClient` goes through leaves a transaction open: the command that waited, and
the requests that are complete. -/
def offsetKept (s : MasterStream) (cfg : StreamConfig) : StreamAct → Bool
  | .resumeRockClient _ => s.suspended.all fun cmd => cmd.proc.multiAfter s.multi
  | .pass held v =>
    s.control ≠ .resuming || s.breaks held ||
      match nextRequest cfg.protoMaxBulkLen s.buf with
      | .ok (.ok q) => s.staysBehind cfg q v
      | _ => true
  | _ => true

/-- The offset up to which the stream should have been fed. -/
def base (s : MasterStream) : Int :=
  match s.control with
  | .replicating prev => prev
  | _ => s.reploff

/-- How many bytes the feeding is behind. -/
def lag (start : Int) (s : MasterStream) : Int := s.base - (start + s.fed.length)

/-- The offset of the first byte that is still to be parsed. -/
def position (s : MasterStream) : Int := s.readReploff - s.buf.rest.length

structure StreamInv (start : Int) (s : MasterStream) : Prop where
  whole : s.fed ++ s.pendingQuerybuf = s.received
  read : s.readReploff = start + s.received.length
  reploff_le : s.reploff ≤ s.position
  waiting : s.suspended ≠ none → s.reploff < s.position
  base_le : s.base ≤ s.reploff
  lag_nonneg : 0 ≤ s.lag start

lemma StreamInv.init (cfg : StreamConfig) (start : Int) :
    StreamInv start (masterStream cfg start).init := by
  constructor <;> simp [masterStream,position,base,lag,QueryBuf.empty]

lemma StreamInv.length (h : StreamInv start s) :
    (s.received.length : Int) = s.fed.length + s.pendingQuerybuf.length := by
  rw [← h.whole,length_append]
  push_cast
  rfl

structure Carries (s t : MasterStream) : Prop where
  fed : t.fed = s.fed
  pending : t.pendingQuerybuf = s.pendingQuerybuf
  received : t.received = s.received
  read : t.readReploff = s.readReploff
  control : t.control = s.control

lemma Carries.lag (hc : Carries s t) (start : Int) :
    t.lag start = s.lag start ∧ s.control ≠ .idle ∧ s.control ≠ .resuming ∨
    t.lag start = s.lag start + (t.reploff - s.reploff) ∧ ∀ prev, s.control ≠ .replicating prev := by
  unfold MasterStream.lag base
  rw [hc.control,hc.fed]
  cases s.control with
  | idle | resuming => exact .inr ⟨by dsimp only; omega,by simp⟩
  | replicating prev => exact .inl ⟨rfl,by simp,by simp⟩

/-- The offset may be moved on, up to the first byte that is still to be parsed. -/
structure Advances (s t : MasterStream) : Prop extends Carries s t where
  le : s.reploff ≤ t.reploff
  reploff_le : t.reploff ≤ t.position
  waiting : t.suspended ≠ none → t.reploff < t.position

lemma StreamInv.carry (h : StreamInv start s) (hc : Advances s t) : StreamInv start t where
  whole := by rw [hc.fed,hc.pending,hc.received,h.whole]
  read := by rw [hc.read,hc.received,h.read]
  reploff_le := hc.reploff_le
  waiting := hc.waiting
  base_le := by
    have hb := h.base_le
    unfold base at hb ⊢
    rw [hc.control]
    split
    · rename_i prev hp
      rw [hp] at hb
      exact hb.trans hc.le
    · exact le_rfl
  lag_nonneg := by
    have hl := h.lag_nonneg
    have hle := hc.le
    rcases hc.lag start with ⟨he,_⟩ | ⟨he,_⟩
    · omega
    · omega

lemma StreamInv.endLoop (h : StreamInv start s) :
    StreamInv start s.endLoop ∧ s.endLoop.lag start = s.lag start := by
  have hlen := h.length
  have hread := h.read
  have hpos := h.reploff_le
  have hbase := h.base_le
  have hlag := h.lag_nonneg
  unfold MasterStream.endLoop
  unfold lag at hlag ⊢
  split
  · rename_i prev hp
    simp only [base,hp] at hbase hlag
    have happ : (s.reploff - prev).toNat ≤ s.pendingQuerybuf.length := by
      unfold position at hpos
      omega
    have hmin : (s.pendingQuerybuf.take (s.reploff - prev).toNat).length =
        (s.reploff - prev).toNat := by
      rw [length_take]
      omega
    refine ⟨⟨?_,hread,hpos,h.waiting,le_rfl,?_⟩,?_⟩
    · rw [append_assoc,take_append_drop,h.whole]
    · simp only [lag,base,length_append,hmin]
      push_cast
      omega
    simp only [base,hp,length_append,hmin]
    push_cast
    omega
  rename_i hne
  have hb : s.base = s.reploff := by
    unfold base
    split
    · rename_i prev hp
      exact absurd hp (hne prev)
    · rfl
  rw [hb] at hlag ⊢
  exact ⟨⟨h.whole,hread,hpos,h.waiting,le_rfl,hlag⟩,rfl⟩

lemma finish_reploff (h : s.reploff < s.position) : s.reploff ≤ s.finish.reploff ∧
    s.finish.reploff ≤ s.position ∧ (s.finish.reploff = s.reploff ↔ s.multi = true) := by
  simp only [finish,position,QueryBuf.sdslen,QueryBuf.qbPos] at h ⊢
  push_cast
  cases s.multi with
  | false =>
    simp only [Bool.false_eq_true,if_false,iff_false]
    omega
  | true =>
    simp only [if_true,iff_self,and_true,le_refl,true_and]
    omega

/-- What a step is shown to do: it keeps the invariant, and lets the feeding fall behind
exactly where it moves the offset of a resumption. -/
structure StepSpec (start : Int) (s : MasterStream) (kept : Bool) (t : MasterStream) : Prop where
  inv : StreamInv start t
  lag_le : s.lag start ≤ t.lag start
  lag_eq_iff : t.lag start = s.lag start ↔ kept = true

lemma processAndReset_spec (hs : s.suspended = none) (hlt : s.reploff < s.position)
    (hg : isGopher cfg s.buf = false) (h : s.processCommandAndResetClient cfg v = some t) :
    Advances s t ∧ (t.reploff = s.reploff ↔ s.staysBehind cfg s.buf v = true) := by
  have hfin : ∀ u : MasterStream, Carries s u → u.reploff = s.reploff → u.position = s.position →
      u.suspended = none → u.multi = s.staysBehind cfg s.buf v →
      Advances s u.finish ∧ (u.finish.reploff = s.reploff ↔ s.staysBehind cfg s.buf v = true) := by
    intro u hc hoff hpos hsu hm
    obtain ⟨hle,hge,hk⟩ := finish_reploff (s := u) (by omega)
    rw [hoff] at hle hk
    exact ⟨⟨⟨hc.fed,hc.pending,hc.received,hc.read,hc.control⟩,hle,hge,fun hne => absurd hsu hne⟩,
      hm ▸ hk⟩
  have hsame : Carries s s := ⟨rfl,rfl,rfl,rfl,rfl⟩
  unfold processCommandAndResetClient at h
  unfold staysBehind at hfin ⊢
  split at h
  · cases h
  rename_i name args ha
  simp only [ha,hg,Bool.false_or] at hfin ⊢
  split at h
  · rename_i hquit
    cases h
    exact ⟨⟨⟨rfl,rfl,rfl,rfl,rfl⟩,le_rfl,hlt.le,fun _ => hlt⟩,by simp [hquit]⟩
  rename_i hquit
  simp only [hquit] at hfin ⊢
  split at h
  · cases h
  · rename_i hv hcmd
    cases h
    exact hfin s hsame rfl rfl hs (by simp_all)
  · rw [ite_none_right_eq_some] at h
    cases h.2
    exact ⟨⟨⟨rfl,rfl,rfl,rfl,rfl⟩,le_rfl,hlt.le,fun _ => hlt⟩,by simp⟩
  · cases h
    exact hfin s hsame rfl rfl hs (by simp_all)
  rename_i cmd blocks hcmd
  split at h
  · rename_i hq
    cases h
    refine hfin s hsame rfl rfl hs ?_
    rw [hcmd]
    cases hproc : cmd.proc <;> simp_all [Proc.skipsQueue,Proc.multiAfter]
  cases h
  exact hfin (s.call cmd blocks) ⟨rfl,rfl,rfl,rfl,rfl⟩ rfl rfl hs (by rw [hcmd]; rfl)

section
variable (h : StreamInv start s)
include h

lemma StreamInv.spec_carry (hc : Advances s t) (hidle : s.control ≠ .idle) {kept : Bool}
    (hk : t.reploff = s.reploff ↔ kept = true) :
    StepSpec start s (s.control ≠ .resuming || kept) t := by
  refine ⟨h.carry hc,?_,?_⟩
  · have hle := hc.le
    rcases hc.lag start with ⟨he,_⟩ | ⟨he,_⟩
    · omega
    · omega
  rcases hc.lag start with ⟨he,_,hne⟩ | ⟨he,hne⟩
  · simp [he,hne]
  have hr : s.control = .resuming := by
    cases hs : s.control with
    | idle => exact absurd hs hidle
    | replicating prev => exact absurd hs (hne prev)
    | resuming => rfl
  simp only [hr,ne_eq,not_true_eq_false,decide_false,Bool.false_or]
  rw [he,← hk]
  omega

lemma StreamInv.spec_endLoop (hc : Advances s t) (hoff : t.reploff = s.reploff) :
    StepSpec start s true t.endLoop := by
  obtain ⟨hinv,hlag⟩ := (h.carry hc).endLoop
  have hl : t.lag start = s.lag start := by
    rcases hc.lag start with ⟨he,_⟩ | ⟨he,_⟩
    · exact he
    · omega
  exact ⟨hinv,(hlag.trans hl).ge,by simp [hlag,hl]⟩

lemma StreamInv.pass {held : Bool} (hp : s.pass cfg held v = some (.ok t)) :
    StepSpec start s (s.offsetKept cfg (.pass held v)) t := by
  have hoff := h.reploff_le
  unfold MasterStream.pass at hp
  rw [offsetKept]
  split at hp
  · cases hp
  rename_i hidle
  split at hp
  · rename_i hbr
    cases hp
    rw [hbr,Bool.or_true,Bool.true_or]
    exact h.spec_endLoop ⟨⟨rfl,rfl,rfl,rfl,rfl⟩,le_rfl,hoff,h.waiting⟩ rfl
  rename_i hbr
  have hsu : s.suspended = none := by
    simp only [breaks,Bool.or_eq_true,not_or] at hbr
    simpa using hbr.1.1.1.2
  rw [Bool.not_eq_true] at hbr
  rw [hbr,Bool.or_false]
  split at hp
  · cases hp
  case h_2 | h_3 =>
    rename_i hq
    cases hp
    have hle := (nextRequest_suffix hq).length_le
    rw [hq]
    simp only [Bool.or_true]
    refine h.spec_endLoop ⟨⟨rfl,rfl,rfl,rfl,rfl⟩,le_rfl,?_,fun hne => absurd hsu hne⟩ rfl
    simp only [position,Parse.buf] at hoff hle ⊢
    omega
  rename_i q hq
  have hlt := nextRequest_lt hq
  have hpos : s.reploff < s.readReploff - q.rest.length := by
    unfold position at hoff
    omega
  rw [hq]
  simp only
  split at hp
  · rename_i hg
    cases hp
    have hk : s.staysBehind cfg q v = true := by
      unfold staysBehind
      split <;> simp [hg]
    rw [hk,Bool.or_true]
    exact h.spec_endLoop ⟨⟨rfl,rfl,rfl,rfl,rfl⟩,le_rfl,hpos.le,fun _ => hpos⟩ rfl
  rename_i hg
  split at hp
  · rename_i ha
    cases hp
    exact h.spec_carry (t := { s with buf := q.reset })
      ⟨⟨rfl,rfl,rfl,rfl,rfl⟩,le_rfl,hpos.le,fun _ => hpos⟩ hidle (by simp [staysBehind,ha])
  obtain ⟨u,hu,ht⟩ := map_eq_some_iff.mp hp
  cases ht
  obtain ⟨hc,hk⟩ := processAndReset_spec (s := { s with buf := q }) hsu hpos (by simpa using hg) hu
  exact h.spec_carry ⟨⟨hc.fed,hc.pending,hc.received,hc.read,hc.control⟩,hc.le,hc.reploff_le,
    hc.waiting⟩ hidle hk

lemma StreamInv.readQueryFromClient (cfg : StreamConfig)
    (hidle : s.control = .idle) (bs : Bytes) : StreamInv start (s.readQueryFromClient cfg bs) ∧
      (s.readQueryFromClient cfg bs).lag start = s.lag start := by
  have hpos : s.reploff ≤ s.readReploff + bs.length - (s.buf.rest ++ bs).length := by
    have hoff := h.reploff_le
    unfold position at hoff
    rw [length_append]
    push_cast
    omega
  have hw : s.suspended ≠ none →
      s.reploff < s.readReploff + bs.length - (s.buf.rest ++ bs).length := by
    intro hne
    have hlt := h.waiting hne
    unfold position at hlt
    rw [length_append]
    push_cast
    omega
  have hwhole : s.fed ++ (s.pendingQuerybuf ++ bs) = s.received ++ bs := by
    rw [← append_assoc,h.whole]
  have hread : s.readReploff + bs.length = start + (s.received ++ bs).length := by
    rw [h.read,length_append]
    push_cast
    omega
  have hlag := h.lag_nonneg
  have hb : s.base = s.reploff := by simp [base,hidle]
  unfold lag at hlag
  rw [hb] at hlag
  unfold MasterStream.readQueryFromClient
  dsimp only
  split
  · refine ⟨⟨hwhole,hread,hpos,hw,?_,?_⟩,?_⟩
    · simp [base,hidle]
    · simpa [lag,base,hidle] using hlag
    · simp [lag,base,hidle]
  refine ⟨⟨hwhole,hread,hpos,hw,le_rfl,hlag⟩,?_⟩
  simp [lag,base,hidle]

lemma StreamInv.resumeRockClient (hidle : s.control = .idle)
    (hs : s.suspended = some cmd) (blocks : Bool) : StepSpec start s (cmd.proc.multiAfter s.multi)
      { (s.call cmd blocks).finish with suspended := none, control := .resuming } := by
  have hlt : s.reploff < s.position := h.waiting (by simp [hs])
  obtain ⟨hle,hpos,hk⟩ := finish_reploff (s := s.call cmd blocks) hlt
  have hlag := h.lag_nonneg
  have hl : ({ (s.call cmd blocks).finish with
      suspended := none, control := .resuming } : MasterStream).lag start =
      s.lag start + ((s.call cmd blocks).finish.reploff - (s.call cmd blocks).reploff) := by
    simp only [lag,base,hidle]
    change (s.call cmd blocks).finish.reploff - (start + (s.fed.length : Int)) =
      s.reploff - (start + s.fed.length) + ((s.call cmd blocks).finish.reploff - s.reploff)
    omega
  refine ⟨⟨h.whole,h.read,hpos,by simp,le_rfl,?_⟩,?_,?_⟩
  · omega
  · omega
  refine Iff.trans ?_ hk
  omega

lemma StreamInv.step (hst : s.step cfg a = some (.ok t)) :
    StepSpec start s (s.offsetKept cfg a) t := by
  cases a with
  | readQueryFromClient bs =>
    simp only [MasterStream.step,enabled_ok_iff] at hst
    obtain ⟨⟨hidle,_⟩,rfl⟩ := hst
    obtain ⟨hinv,hlag⟩ := h.readQueryFromClient cfg hidle bs
    exact ⟨hinv,hlag.ge,iff_of_true hlag rfl⟩
  | unblockClient =>
    simp only [MasterStream.step,enabled_ok_iff] at hst
    obtain ⟨hidle,rfl⟩ := hst
    exact ⟨⟨h.whole,h.read,h.reploff_le,h.waiting,h.base_le,h.lag_nonneg⟩,le_rfl,iff_of_true rfl rfl⟩
  | processUnblockedClients =>
    simp only [MasterStream.step,enabled_ok_iff] at hst
    obtain ⟨⟨hidle,_⟩,rfl⟩ := hst
    have hl : ({ s with control := .replicating s.reploff } : MasterStream).lag start =
        s.lag start := by simp [lag,base,hidle]
    exact ⟨⟨h.whole,h.read,h.reploff_le,h.waiting,le_rfl,hl ▸ h.lag_nonneg⟩,hl.ge,iff_of_true hl rfl⟩
  | pass held v => exact h.pass hst
  | resumeRockClient blocks =>
    simp only [MasterStream.step,ite_none_right_eq_some] at hst
    obtain ⟨hidle,hst⟩ := hst
    obtain ⟨cmd,hs,ht⟩ := map_eq_some_iff.mp hst
    cases ht
    rw [offsetKept,hs]
    exact h.resumeRockClient hidle hs blocks

lemma StreamInv.exact_iff (hidle : s.control = .idle) : s.Exact start ↔ s.lag start = 0 := by
  have hlen := h.length
  have hb : s.base = s.reploff := by simp [base,hidle]
  unfold lag
  rw [hb]
  constructor
  · rintro ⟨k,hk,hfed,_⟩
    have hpos := h.reploff_le
    have hread := h.read
    have hl := congrArg List.length hfed
    rw [length_take] at hl
    unfold position at hpos
    omega
  intro hlag
  refine ⟨s.fed.length,by omega,?_,?_⟩
  · rw [← h.whole,take_left]
  · rw [← h.whole,drop_left]

end

/-- Between two steps of the main thread the stream is passed on exactly up to `reploff`
if and only if every command that was resumed has left a transaction open. -/
theorem exact_iff_offsetKept {as : List StreamAct}
    (h : (masterStream cfg start).run as = some (.ok s)) (hidle : s.control = .idle) :
    s.Exact start ↔ (masterStream cfg start).Guarded (fun s a => s.offsetKept cfg a = true)
      (masterStream cfg start).init as := by
  have hs : ∀ s a t, StreamInv start s → (masterStream cfg start).step s a = some (.ok t) →
      StreamInv start t ∧ s.lag start ≤ t.lag start ∧
        (t.lag start = s.lag start ↔ s.offsetKept cfg a = true) := by
    intro s a t hi hst
    have hspec := hi.step hst
    exact ⟨hspec.inv,hspec.lag_le,hspec.lag_eq_iff⟩
  have hi := StreamInv.init cfg start
  have hinv : StreamInv start s :=
    (masterStream cfg start).invariant hi (fun s a t hi ht => (hs s a t hi ht).1) ⟨as,h⟩
  have hzero : (masterStream cfg start).init.lag start = 0 := by simp [masterStream,lag,base]
  rw [hinv.exact_iff hidle,← ((masterStream cfg start).measure_kept_iff hs as hi h).2,hzero]

/-- Once a command was resumed outside of a transaction, fewer bytes are fed than are applied in
every later state, though none is lost. -/
theorem shifted_forever {as bs : List StreamAct} {blocks : Bool}
    (hs : (masterStream cfg start).run as = some (.ok s)) (hc : s.suspended = some cmd)
    (hm : cmd.proc.multiAfter s.multi = false)
    (ht : (masterStream cfg start).runFrom s (.resumeRockClient blocks :: bs) = some (.ok t)) :
    t.fed ++ t.pendingQuerybuf = t.received ∧ start + t.fed.length < t.reploff := by
  have hi : StreamInv start s := (masterStream cfg start).invariant (StreamInv.init cfg start)
    (fun _ _ _ hi hst => (hi.step hst).inv) ⟨as,hs⟩
  obtain ⟨u,hst,ht⟩ := (masterStream cfg start).runFrom_cons_inv ht
  have hspec : StepSpec start s (s.offsetKept cfg (.resumeRockClient blocks)) u := hi.step hst
  have hlt : s.lag start < u.lag start := by
    refine lt_of_le_of_ne hspec.lag_le fun he => ?_
    simpa [offsetKept,hc,hm] using hspec.lag_eq_iff.mp he.symm
  obtain ⟨hinv,hlag⟩ : StreamInv start t ∧ 0 < t.lag start :=
    (masterStream cfg start).invariant_from (I := fun u => StreamInv start u ∧ 0 < u.lag start)
      (fun _ _ _ hi _ hst => ⟨(hi.1.step hst).inv,hi.2.trans_le (hi.1.step hst).lag_le⟩) bs
      ⟨hspec.inv,hi.lag_nonneg.trans_lt hlt⟩ ((masterStream cfg start).guarded_trivial u bs) ht
  have hbase := hinv.base_le
  unfold lag at hlag
  exact ⟨hinv.whole,by omega⟩

end MasterStream

namespace Sample

def getRequest : Bytes := [42,50,13,10,36,51,13,10,71,69,84,13,10,36,49,13,10,107,13,10]

def pingRequest : Bytes := [42,49,13,10,36,52,13,10,80,73,78,71,13,10]

def multiRequest : Bytes :=
  [42,49,13,10,36,53,13,10,77,85,76,84,73,13,10] ++ getRequest ++
    [42,50,13,10,36,53,13,10,87,65,84,67,72,13,10,36,49,13,10,107,13,10]

def execRequest : Bytes := [42,49,13,10,36,52,13,10,69,88,69,67,13,10]

def streamConfig : StreamConfig where
  protoMaxBulkLen := 512 * 1024 * 1024
  clientMaxQuerybufLen := 1024 * 1024 * 1024
  gopherEnabled := false
  lookupCommand name :=
    if strcasecmp name [71,69,84] then some (get k1).cmd
    else if strcasecmp name [80,73,78,71] then some ping.cmd
    else if strcasecmp name [77,85,76,84,73] then some ⟨.multi,none,false,false⟩
    else if strcasecmp name [87,65,84,67,72] then some ⟨.watch,none,false,false⟩
    else if strcasecmp name [69,88,69,67] then some ⟨.exec,none,false,false⟩
    else none

/-- In a transaction that is read in two pieces, WATCH waits for the key of the queued GET. -/
def streamRead : List StreamAct :=
  [.readQueryFromClient (multiRequest.take 7),.pass false .rejected,
    .readQueryFromClient (multiRequest.drop 7),.pass false (.runs false),.pass false (.runs false),
    .pass false .waits,.pass false .rejected,.resumeRockClient false,.pass false .rejected,
    .readQueryFromClient execRequest,.pass false (.runs false),.pass false .rejected]

/-- GET waits for its key and is resumed, then PING is read. -/
def streamResumed : List StreamAct :=
  [.readQueryFromClient getRequest,.pass false .waits,.pass false .rejected,
    .resumeRockClient false,.pass false .rejected,
    .readQueryFromClient pingRequest,.pass false (.runs false),.pass false .rejected]

end Sample

open Sample

namespace MasterStream

theorem exact_two_reads : ∃ s,
    (masterStream streamConfig 0).run streamRead = some (.ok s) ∧
    s.reploff = 71 ∧ s.Exact 0 := by
  obtain ⟨s,hs,hoff,hidle⟩ := (masterStream streamConfig 0).exists_run streamRead
    (fun s => s.reploff = 71 ∧ s.control = .idle) (by decide)
  refine ⟨s,hs,hoff,(exact_iff_offsetKept hs hidle).mpr ?_⟩
  exact (masterStream streamConfig 0).guarded_check _ _ _ (by decide)

/-- After GET was resumed and PING read, the sub-replicas have got the first bytes of GET
for those of PING, and the offset is past both. -/
theorem resumed_stream_shifted : ∃ s,
    (masterStream streamConfig 0).run streamResumed = some (.ok s) ∧
    s.control = .idle ∧ s.reploff = 34 ∧
    s.received = getRequest ++ pingRequest ∧
    s.fed = getRequest.take 14 ∧ ¬ s.Exact 0 := by
  obtain ⟨s,hs,hidle,hoff,hrec,hfed⟩ := (masterStream streamConfig 0).exists_run streamResumed
    (fun s => s.control = .idle ∧ s.reploff = 34 ∧ s.received = getRequest ++ pingRequest ∧
      s.fed = getRequest.take 14) (by decide)
  refine ⟨s,hs,hidle,hoff,hrec,hfed,?_⟩
  rintro ⟨k,hk,hx,_⟩
  have hk' : k = 34 := by omega
  rw [hfed,hrec,hk'] at hx
  exact absurd hx (by decide)

theorem shifted_after_get : ∃ t, (masterStream streamConfig 0).run streamResumed = some (.ok t) ∧
    0 + (t.fed.length : Int) < t.reploff := by
  obtain ⟨s,hs,hobs⟩ := (masterStream streamConfig 0).observed (streamResumed.take 3)
    (fun s => s.suspended.map fun cmd => cmd.proc.multiAfter s.multi) (some false) (by decide)
  obtain ⟨cmd,hc,hm⟩ := map_eq_some_iff.mp hobs
  obtain ⟨t,ht,_⟩ := (masterStream streamConfig 0).observed streamResumed (fun _ => ()) () (by decide)
  have hst := ((masterStream streamConfig 0).runFrom_append hs (streamResumed.drop 3)).symm.trans ht
  exact ⟨t,ht,(shifted_forever hs hc hm hst).2⟩

end MasterStream
end RedRock
