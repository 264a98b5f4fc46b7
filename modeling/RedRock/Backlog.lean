import RedRock.Protocol
import RedRock.Lib.RingBuffer

/-!
The replication backlog. The stream for the replicas is also kept in a circular buffer,
from which a replica that comes back is sent what it missed.
-/

namespace RedRock
open Lib List Option Except RingBuffer

def CONFIG_REPL_BACKLOG_MIN_SIZE : Nat := 1024 * 16

/-- The fields of the server that the backlog uses. `repl_backlog_idx` is kept with the
buffer, and of the list of replicas only the length matters. -/
structure Backlog where
  replBacklogSize : Nat
  replBacklog : Option (RingBuffer UInt8)
  replBacklogHistlen : Nat
  replBacklogOff : Nat
  masterReplOffset : Nat
  slaves : Nat
  size_pos : 0 < replBacklogSize
  allocated : ∀ r, replBacklog = some r → r.size = replBacklogSize
  deriving DecidableEq

inductive BacklogFault where
  | assertion
  | nullPointer
  deriving DecidableEq

namespace Backlog

variable (s : Backlog)

def fresh (n : Nat) (hn : 0 < n) : Backlog :=
  { s with
    replBacklogSize := n
    replBacklog := some (empty n hn)
    replBacklogHistlen := 0
    replBacklogOff := s.masterReplOffset + 1
    size_pos := hn
    allocated := by
      rintro r ⟨⟩
      exact empty_size n hn }

def createReplicationBacklog : Except BacklogFault Backlog :=
  if s.replBacklog = none then .ok (s.fresh s.replBacklogSize s.size_pos) else .error .assertion

def resizeReplicationBacklog (newsize : Int) : Backlog :=
  let n := max newsize.toNat CONFIG_REPL_BACKLOG_MIN_SIZE
  have hn : 0 < n := lt_max_of_lt_right (by decide)
  if s.replBacklogSize = n then s
  else if h : s.replBacklog = none then
    { s with
      replBacklogSize := n
      size_pos := hn
      allocated := by simp [h] }
  else s.fresh n hn

def freeReplicationBacklog : Except BacklogFault Backlog :=
  if s.slaves = 0 then .ok { s with replBacklog := none, allocated := by simp }
  else .error .assertion

def feedLoop : Nat → RingBuffer UInt8 → Nat → Bytes → RingBuffer UInt8 × Nat
  | 0, r, histlen, _ => (r,histlen)
  | fuel + 1, r, histlen, p =>
    if p = [] then (r,histlen)
    else feedLoop fuel (r.copy p) (histlen + r.room p) (p.drop (r.room p))

lemma feedLoop_eq (fuel : Nat) (r : RingBuffer UInt8) (histlen : Nat) (p : Bytes)
    (hf : p.length ≤ fuel) :
    feedLoop fuel r histlen p = (p.foldl put r,histlen + p.length) := by
  induction fuel generalizing r histlen p with
  | zero =>
    obtain rfl := eq_nil_of_length_eq_zero (Nat.le_zero.mp hf)
    rfl
  | succ fuel ih =>
    unfold feedLoop
    split
    · rename_i hp
      subst hp
      rfl
    rename_i hp
    have hpos := r.room_pos hp
    have hle : r.room p ≤ p.length := min_le_right ..
    rw [ih _ _ _ (by rw [length_drop]; omega),r.copy_eq_foldl hp,← foldl_append,
      take_append_drop,length_drop]
    congr 1
    omega

/-- The counters are set also where there was nothing to copy. -/
def feedReplicationBacklog (p : Bytes) : Except BacklogFault Backlog :=
  let offset := s.masterReplOffset + p.length
  match h : s.replBacklog with
  | none =>
    if p = [] then
      let histlen := min s.replBacklogHistlen s.replBacklogSize
      .ok { s with
        replBacklogHistlen := histlen
        replBacklogOff := offset + 1 - histlen }
    else .error .nullPointer
  | some r =>
    let fed := feedLoop p.length r s.replBacklogHistlen p
    let histlen := min fed.2 s.replBacklogSize
    .ok { s with
      masterReplOffset := offset
      replBacklog := some fed.1
      replBacklogHistlen := histlen
      replBacklogOff := offset + 1 - histlen
      allocated := by
        rintro _ ⟨⟩
        change (feedLoop p.length r s.replBacklogHistlen p).1.size = _
        rw [feedLoop_eq _ _ _ _ (le_refl _),foldl_put_size,s.allocated r h] }

def addReplyLoop : Nat → RingBuffer UInt8 → Nat → Nat → List (List (Option UInt8))
  | 0, _, _, _ => []
  | fuel + 1, r, j, len =>
    if len = 0 then []
    else
      let thislen := if r.size - j < len then r.size - j else len
      (r.cells.drop j).take thislen :: addReplyLoop fuel r 0 (len - thislen)

/-- What is sent from an offset that the caller has checked, and its length. -/
def addReplyReplicationBacklog (r : RingBuffer UInt8) (offset : Nat) : List (Option UInt8) × Nat :=
  if s.replBacklogHistlen = 0 then ([],0)
  else
    let skip := offset - s.replBacklogOff
    let j := (r.idx + (s.replBacklogSize - s.replBacklogHistlen)) % s.replBacklogSize
    let j := (j + skip) % s.replBacklogSize
    let len := s.replBacklogHistlen - skip
    ((addReplyLoop len r j len).flatten,len)

end Backlog

/-- The replication ids of a master, the second one valid up to an offset. -/
structure ReplIds where
  replid : Bytes
  replid2 : Bytes
  secondReplidOffset : Int
  deriving DecidableEq

structure Psync where
  masterReplid : Bytes
  psyncOffset : Bytes
  capaPsync2 : Bool
  written : Bool
  deriving DecidableEq

inductive PsyncOutcome where
  | needFullResync
  | freeClientAsync
  | resumed (reply : Bytes) (sent : List (Option UInt8)) (psyncLen : Nat)
  deriving DecidableEq

/-- `+CONTINUE`, with the id for a client that knows about it. -/
def continueReply (ids : ReplIds) (capaPsync2 : Bool) : Bytes :=
  [43,67,79,78,84,73,78,85,69] ++ (if capaPsync2 then 32 :: cstr ids.replid else []) ++ [13,10]

def masterTryPartialResynchronization (s : Backlog) (ids : ReplIds) (c : Psync) :
    Backlog × PsyncOutcome :=
  match string2ll c.psyncOffset with
  | none => (s,.needFullResync)
  | some psyncOffset =>
    if !strcasecmp c.masterReplid ids.replid &&
        (!strcasecmp c.masterReplid ids.replid2 || psyncOffset > ids.secondReplidOffset) then
      (s,.needFullResync)
    else
      match s.replBacklog with
      | none => (s,.needFullResync)
      | some r =>
        if psyncOffset < s.replBacklogOff ∨
            psyncOffset > s.replBacklogOff + s.replBacklogHistlen then
          (s,.needFullResync)
        else
          let t := { s with slaves := s.slaves + 1 }
          if c.written then
            let reply := s.addReplyReplicationBacklog r psyncOffset.toNat
            (t,.resumed (continueReply ids c.capaPsync2) reply.1 reply.2)
          else (t,.freeClientAsync)

inductive BacklogAct where
  | create
  | feed (p : Bytes)
  | resize (newsize : Int)
  | psync (ids : ReplIds) (c : Psync)
  | freeSlave
  | free
  deriving DecidableEq

def Backlog.step (s : Backlog) : BacklogAct → Option (Except BacklogFault Backlog)
  | .create => some s.createReplicationBacklog
  | .feed p => some (s.feedReplicationBacklog p)
  | .resize newsize => some (.ok (s.resizeReplicationBacklog newsize))
  | .psync ids c => some (.ok (masterTryPartialResynchronization s ids c).1)
  | .freeSlave => if s.slaves = 0 then none else some (.ok { s with slaves := s.slaves - 1 })
  | .free => some s.freeReplicationBacklog

def backlog (size : Nat) (hsize : 0 < size) (offset : Nat) :
    Machine Backlog BacklogAct BacklogFault where
  init := ⟨size,none,0,0,offset,0,hsize,by simp⟩
  step := Backlog.step

/-- The bytes ever fed, and how many of them were fed before the buffer was last new. -/
structure ReplStream where
  bytes : Bytes
  before : Nat
  deriving DecidableEq

def ReplStream.sinceReset (x : ReplStream) : Bytes := x.bytes.drop x.before

/-- The first byte of the stream has the offset after `base`. -/
def ReplStream.upFrom (x : ReplStream) (base offset : Nat) : Bytes :=
  x.bytes.drop (offset - (base + 1))

def ReplStream.record (s : Backlog) (a : BacklogAct) (t : Backlog) (x : ReplStream) : ReplStream :=
  match a with
  | .feed p => { x with bytes := x.bytes ++ p }
  | .create => { x with before := x.bytes.length }
  | .resize _ =>
    if t.replBacklogSize = s.replBacklogSize then x else { x with before := x.bytes.length }
  | .psync _ _ | .freeSlave | .free => x

def replStream (size : Nat) (hsize : 0 < size) (offset : Nat) (as : List BacklogAct) : ReplStream :=
  let M := backlog size hsize offset
  M.history ReplStream.record M.init ⟨[],0⟩ as

namespace Backlog
variable {x : ReplStream} {base : Nat} {s : Backlog}

structure Follows (base : Nat) (s : Backlog) (x : ReplStream) : Prop where
  offset : s.masterReplOffset = base + x.bytes.length
  before : x.before ≤ x.bytes.length
  holds : ∀ r, s.replBacklog = some r → r.Holds x.sinceReset
  histlen : s.replBacklog ≠ none → s.replBacklogHistlen = min x.sinceReset.length s.replBacklogSize
  off : s.replBacklog ≠ none → s.replBacklogOff + s.replBacklogHistlen = s.masterReplOffset + 1

lemma Follows.fresh (h : Follows base s x) (n : Nat) (hn : 0 < n) :
    Follows base (s.fresh n hn) { x with before := x.bytes.length } := by
  have hnil : ({ x with before := x.bytes.length } : ReplStream).sinceReset = [] := drop_length
  refine ⟨h.offset,le_refl _,?_,?_,?_⟩
  · intro r _
    rw [hnil]
    exact r.holds_nil
  · intro _
    rw [hnil]
    rfl
  intro _
  rfl

lemma Follows.feed {s t : Backlog} {p : Bytes} (h : Follows base s x)
    (hst : s.feedReplicationBacklog p = .ok t) :
    Follows base t { x with bytes := x.bytes ++ p } := by
  have hs : ({ x with bytes := x.bytes ++ p } : ReplStream).sinceReset = x.sinceReset ++ p :=
    drop_append_of_le_length h.before
  have hb : x.before ≤ (x.bytes ++ p).length := by
    have hb := h.before
    rw [length_append]
    omega
  unfold feedReplicationBacklog at hst
  split at hst
  · rename_i hnone
    split at hst
    · rename_i hp
      subst hp
      obtain rfl := ok.inj hst
      rw [List.append_nil]
      exact ⟨h.offset,h.before,h.holds,fun hne => absurd hnone hne,fun hne => absurd hnone hne⟩
    · cases hst
  rename_i r hr
  obtain rfl := ok.inj hst
  have hne : s.replBacklog ≠ none := by simp [hr]
  have hlen := h.histlen hne
  have hoff := h.off hne
  have hfed := feedLoop_eq p.length r s.replBacklogHistlen p (le_refl _)
  refine ⟨?_,hb,?_,?_,?_⟩
  · simp [h.offset,add_assoc]
  · rintro r' ⟨⟩
    rw [hfed,hs]
    exact (h.holds r hr).foldl_put p
  · intro _
    simp only [hfed,hs,length_append]
    omega
  intro _
  simp only [hfed]
  have ho := h.offset
  have hx : x.sinceReset.length ≤ x.bytes.length := by
    simp only [ReplStream.sinceReset,length_drop]
    omega
  omega

lemma Follows.resize (h : Follows base s x) (newsize : Int) :
    Follows base (s.resizeReplicationBacklog newsize)
      (ReplStream.record s (.resize newsize) (s.resizeReplicationBacklog newsize) x) := by
  simp only [ReplStream.record,resizeReplicationBacklog]
  split
  · simpa using h
  rename_i hsize
  split
  · rename_i hnone
    rw [if_neg (Ne.symm hsize)]
    exact ⟨h.offset,le_refl _,by simp [hnone],fun hne => absurd hnone hne,
      fun hne => absurd hnone hne⟩
  rw [if_neg (by simpa [Backlog.fresh] using Ne.symm hsize)]
  exact h.fresh _ _

lemma Follows.slaves (h : Follows base s x) (n : Nat) : Follows base { s with slaves := n } x :=
  ⟨h.offset,h.before,h.holds,h.histlen,h.off⟩

lemma Follows.psync (h : Follows base s x) (ids : ReplIds) (c : Psync) :
    Follows base (masterTryPartialResynchronization s ids c).1 x := by
  unfold masterTryPartialResynchronization
  split
  · exact h
  split
  · exact h
  split
  · exact h
  split
  · exact h
  split <;> exact h.slaves _

lemma Follows.step {s t : Backlog} {a : BacklogAct} (h : Follows base s x)
    (hst : s.step a = some (.ok t)) : Follows base t (ReplStream.record s a t x) := by
  cases a with
  | create =>
    simp only [Backlog.step,createReplicationBacklog,some.injEq] at hst
    split at hst
    · obtain rfl := ok.inj hst
      exact h.fresh _ _
    · cases hst
  | feed p => exact h.feed (some.inj hst)
  | resize newsize =>
    obtain rfl := ok.inj (some.inj hst)
    exact h.resize newsize
  | psync ids c =>
    obtain rfl := ok.inj (some.inj hst)
    exact h.psync ids c
  | freeSlave =>
    simp only [Backlog.step] at hst
    split at hst
    · cases hst
    obtain rfl := ok.inj (some.inj hst)
    exact h.slaves _
  | free =>
    simp only [Backlog.step,freeReplicationBacklog,some.injEq] at hst
    split at hst
    · obtain rfl := ok.inj hst
      exact ⟨h.offset,h.before,by simp,by simp,by simp⟩
    · cases hst

lemma follows_run {size : Nat} {hsize : 0 < size} {as : List BacklogAct} {u : Backlog}
    (h : (backlog size hsize base).run as = some (.ok u)) :
    Follows base u (replStream size hsize base as) := by
  have h0 : Follows base (backlog size hsize base).init ⟨[],0⟩ :=
    ⟨rfl,le_refl _,by simp [backlog],by simp [backlog],by simp [backlog]⟩
  exact (backlog size hsize base).history_invariant (I := Follows base)
    (fun s a t x hx hst => hx.step hst) as h0 h

lemma addReplyLoop_eq (fuel : Nat) (r : RingBuffer UInt8) (j len : Nat) (hj : j < r.size)
    (hf : len ≤ fuel) : (addReplyLoop fuel r j len).flatten = r.window j len := by
  induction fuel generalizing j len with
  | zero =>
    obtain rfl := Nat.le_zero.mp hf
    rfl
  | succ fuel ih =>
    unfold addReplyLoop
    split
    · rename_i hlen
      rw [hlen]
      rfl
    simp only [flatten_cons]
    split
    · rename_i hlt
      have hrest := ih 0 (len - (r.size - j)) r.size_pos (by omega)
      have hround : r.window 0 (len - (r.size - j)) =
          r.window (j + (r.size - j)) (len - (r.size - j)) := by
        apply r.window_congr
        rw [Nat.add_sub_cancel' (le_of_lt hj),Nat.mod_self,Nat.zero_mod]
      rw [hrest,hround,r.window_piece (by omega),r.window_append]
      congr 1
      omega
    rw [Nat.sub_self,ih 0 0 r.size_pos (Nat.zero_le _),r.window_piece (by omega)]
    exact List.append_nil _

lemma Follows.addReply (h : Follows base s x) {r : RingBuffer UInt8} (hr : s.replBacklog = some r)
    (offset : Nat) (hlo : s.replBacklogOff ≤ offset)
    (hhi : offset ≤ s.replBacklogOff + s.replBacklogHistlen) :
    s.addReplyReplicationBacklog r offset =
      ((x.upFrom base offset).map some,s.masterReplOffset + 1 - offset) := by
  have hne : s.replBacklog ≠ none := by simp [hr]
  have hlen := h.histlen hne
  have hoff := h.off hne
  have hbase := h.offset
  have hsize := s.allocated r hr
  have hbefore := h.before
  have hsince : x.sinceReset.length = x.bytes.length - x.before := by
    simp [ReplStream.sinceReset]
  unfold addReplyReplicationBacklog
  split
  · rename_i h0
    have hall : x.upFrom base offset = [] := by
      apply drop_eq_nil_of_le
      omega
    rw [hall,show s.masterReplOffset + 1 - offset = 0 by omega]
    rfl
  -- the start of the reply lies its own length before the write position
  generalize hk : s.replBacklogHistlen - (offset - s.replBacklogOff) = k
  have hstart : ((r.idx + (s.replBacklogSize - s.replBacklogHistlen)) % s.replBacklogSize +
      (offset - s.replBacklogOff)) % s.replBacklogSize =
      (r.idx + r.size - k) % r.size := by
    rw [hsize,Nat.mod_add_mod]
    congr 1
    omega
  have hj : (r.idx + r.size - k) % r.size < r.size := Nat.mod_lt _ r.size_pos
  have hlast : x.sinceReset.drop (x.sinceReset.length - k) = x.upFrom base offset := by
    have hdrop : ∀ m, x.sinceReset.drop m = x.bytes.drop (x.before + m) := by
      intro m
      rw [ReplStream.sinceReset,drop_drop]
    rw [hdrop,ReplStream.upFrom]
    congr 1
    omega
  simp only [hk,hstart]
  rw [addReplyLoop_eq _ _ _ _ hj (le_refl _),r.window_congr k (Nat.mod_mod _ _),
    (h.holds r hr).window (by omega) (by omega),hlast]
  congr 1
  omega

/-- In every state that is reached the buffer is a window on the end of the stream, and a
replica that asks for an offset in the window is sent the stream from that offset on. -/
theorem backlog_window (size : Nat) (hsize : 0 < size) (base : Nat) (as : List BacklogAct)
    (u : Backlog) (h : (backlog size hsize base).run as = some (.ok u))
    (r : RingBuffer UInt8) (hr : u.replBacklog = some r) :
    let x := replStream size hsize base as
    u.masterReplOffset = base + x.bytes.length ∧
    u.replBacklogHistlen = min x.sinceReset.length u.replBacklogSize ∧
    u.replBacklogOff + u.replBacklogHistlen = u.masterReplOffset + 1 ∧
    r.window (r.idx + r.size - u.replBacklogHistlen) u.replBacklogHistlen =
      (x.sinceReset.drop (x.sinceReset.length - u.replBacklogHistlen)).map some ∧
    ∀ ids c offset reply sent psyncLen, string2ll c.psyncOffset = some offset →
      (masterTryPartialResynchronization u ids c).2 = .resumed reply sent psyncLen →
      base < offset ∧ offset ≤ u.masterReplOffset + 1 ∧
      sent = (x.upFrom base offset.toNat).map some ∧
      (psyncLen : Int) = u.masterReplOffset + 1 - offset := by
  have hf := follows_run h
  have hne : u.replBacklog ≠ none := by simp [hr]
  have hlen := hf.histlen hne
  have hoff := hf.off hne
  have hbase := hf.offset
  have hsize' := u.allocated r hr
  have hsince : (replStream size hsize base as).sinceReset.length ≤
      (replStream size hsize base as).bytes.length := by
    simp [ReplStream.sinceReset]
  refine ⟨hf.offset,hlen,hoff,(hf.holds r hr).window (by omega) (by omega),?_⟩
  intro ids c offset reply sent psyncLen hoffset hres
  simp only [masterTryPartialResynchronization,hoffset,hr] at hres
  split at hres
  · cases hres
  split at hres
  · cases hres
  rename_i hin
  push Not at hin
  split at hres
  · obtain ⟨_,rfl,rfl⟩ := PsyncOutcome.resumed.inj hres
    have hadd := hf.addReply hr offset.toNat (by omega) (by omega)
    refine ⟨by omega,by omega,?_,?_⟩
    · rw [hadd]
    rw [hadd]
    simp only
    omega
  · cases hres

/-- Six bytes through a buffer of four, and a replica that comes back at the fourth one. -/
theorem backlog_window_wrapped :
    ∃ u r sent, (backlog 4 (by decide) 100).run [.create,.feed [1,2,3],.feed [4,5,6]] =
        some (.ok u) ∧ u.replBacklog = some r ∧ u.replBacklogHistlen = 4 ∧
      r.window (r.idx + r.size - 4) 4 = [some 3,some 4,some 5,some 6] ∧
      (masterTryPartialResynchronization u ⟨[97],[98],-1⟩ ⟨[97],[49,48,52],false,true⟩).2 =
        .resumed (continueReply ⟨[97],[98],-1⟩ false) sent 3 ∧
      sent = [some 4,some 5,some 6] := by
  obtain ⟨u,hu,hr,hlen,hres⟩ := (backlog 4 (by decide) 100).exists_run
    [.create,.feed [1,2,3],.feed [4,5,6]] (fun u =>
      u.replBacklog = some ⟨[some 5,some 6,some 3,some 4],2,by decide⟩ ∧ u.replBacklogHistlen = 4 ∧
      (masterTryPartialResynchronization u ⟨[97],[98],-1⟩ ⟨[97],[49,48,52],false,true⟩).2 =
        .resumed (continueReply ⟨[97],[98],-1⟩ false) [some 4,some 5,some 6] 3) (by decide)
  obtain ⟨_,_,_,hwin,hsent⟩ := backlog_window 4 (by decide) 100 _ u hu _ hr
  rw [hlen] at hwin
  refine ⟨u,_,_,hu,hr,hlen,hwin.trans (by decide),hres,?_⟩
  exact (hsent _ _ 104 _ _ 3 (by decide) hres).2.2.1.trans (by decide)

end Backlog
end RedRock
