import RedRock.ProtocolResume

/-!
`processInputBuffer`: the requests of a connection are handed to command execution as they
become complete. Its bytes arrive in pieces, which cannot be seen in the requests.
-/

namespace RedRock
open Lib List QueryBuf

structure InputConfig where
  protoMaxBulkLen : Int
  gopherEnabled : Bool

inductive InputEvent where
  | processCommand (argv : List Sds) (pos : Nat)
  | gopher (argv : List Sds) (pos : Nat)
  | protocolError (e : ProtocolError) (pos : Nat)
  deriving DecidableEq

/-- `nread` bytes were read so far; `closing` is `CLIENT_CLOSE_AFTER_REPLY`. -/
structure Connection where
  buf : QueryBuf
  nread : Nat
  events : List InputEvent
  closing : Bool
  deriving DecidableEq

namespace Connection

def init : Connection := ⟨.empty,0,[],false⟩

def append (c : Connection) (bs : Bytes) : Connection :=
  { c with buf := c.buf.append bs, nread := c.nread + bs.length }

def trim (c : Connection) : Connection := { c with buf := c.buf.trim }

def pos (c : Connection) (q : QueryBuf) : Nat := c.nread - q.rest.length

variable (cfg : InputConfig)

def isGopher (q : QueryBuf) : Bool :=
  cfg.gopherEnabled && q.reqtype = some .inline &&
    (q.argv = [] || (q.argv.length = 1 && q.argv.head?.bind List.head? = some 47))

def handle (c : Connection) : Parse → Bool × Connection
  | .more q => (false,{ c with buf := q })
  | .error q e => (false,{ c with
      buf := q, events := c.events ++ [.protocolError e (c.pos q)], closing := true })
  | .ok q =>
    if isGopher cfg q then (false,{ c with
      buf := q.reset, events := c.events ++ [.gopher q.argv (c.pos q)], closing := true })
    else if q.argv = [] then (true,{ c with buf := q.reset })
    else (true,{ c with
      buf := q.reset, events := c.events ++ [.processCommand q.argv (c.pos q)] })

def pass (c : Connection) : Except ParseFault (Bool × Connection) :=
  if c.closing ∨ c.buf.rest = [] then .ok (false,c)
  else (nextRequest cfg.protoMaxBulkLen c.buf).map (c.handle cfg)

def loop (cfg : InputConfig) : Nat → Connection → Except ParseFault Connection
  | 0, c => .ok c
  | fuel+1, c => do
    let (again,c) ← c.pass cfg
    if again then loop cfg fuel c else return c

/-- Each pass takes something from the buffer, so the loop ends. -/
def processInputBuffer (c : Connection) : Except ParseFault Connection := do
  let c ← c.loop cfg (c.buf.rest.length + 1)
  return c.trim

def readQueryFromClient (c : Connection) (bs : Bytes) : Except ParseFault Connection :=
  (c.append bs).processInputBuffer cfg

def readAll (reads : List Bytes) : Except ParseFault Connection :=
  reads.foldlM (readQueryFromClient cfg) init

end Connection

/-! The loop over the buffer. -/

namespace Connection
variable {cfg : InputConfig} {c d : Connection} {bs ss : Bytes}
variable {r : Parse}

lemma pass_again (h : c.pass cfg = .ok (true,d)) : d.buf.rest.length < c.buf.rest.length := by
  unfold pass at h
  split at h
  · cases h
  obtain ⟨r,hr,hh⟩ := map_ok.mp h
  cases r with
  | more | error => cases hh
  | ok q =>
    have hlt := nextRequest_lt hr
    simp only [handle] at hh
    split at hh
    · cases hh
    split at hh
    · cases hh
      exact hlt
    cases hh
    exact hlt

lemma loop_succ (fuel : Nat) : c.loop cfg (fuel+1) =
    (c.pass cfg).bind fun x => if x.1 then x.2.loop cfg fuel else .ok x.2 := rfl

lemma loop_fuel {f g : Nat} (hf : c.buf.rest.length < f) (hg : c.buf.rest.length < g) :
    c.loop cfg f = c.loop cfg g := by
  induction f generalizing c g with
  | zero => omega
  | succ f ih =>
    cases g with
    | zero => omega
    | succ g =>
      rw [loop_succ,loop_succ]
      cases hp : c.pass cfg with
      | error e => rfl
      | ok x =>
        obtain ⟨again,d⟩ := x
        cases again with
        | false => rfl
        | true =>
          have hlt := pass_again hp
          exact ih (c := d) (by omega) (by omega)

def finish (cfg : InputConfig) (x : Bool × Connection) : Except ParseFault Connection :=
  if x.1 then x.2.processInputBuffer cfg else .ok x.2.trim

lemma inputBuffer_eq (c : Connection) :
    c.processInputBuffer cfg = (c.pass cfg).bind (finish cfg) := by
  unfold processInputBuffer
  rw [loop_succ]
  cases hp : c.pass cfg with
  | error e => rfl
  | ok x =>
    obtain ⟨again,d⟩ := x
    cases again with
    | false => rfl
    | true =>
      have hlt := pass_again hp
      change (d.loop cfg _).bind _ = finish cfg (true,d)
      rw [loop_fuel hlt (Nat.lt_succ_self _)]
      rfl

def settle (x : Bool × Connection) : Bool × Connection := (x.1,x.2.trim)

lemma handle_settle (c : Connection) (r : Parse) :
    settle (c.handle cfg r) = settle (c.handle cfg r.trim) := by
  cases r with
  | more | error => rfl
  | ok q =>
    have hg : isGopher cfg q.trim = isGopher cfg q := rfl
    have ha : q.trim.argv = q.argv := rfl
    simp only [handle,Parse.trim,hg,ha]
    split
    · rfl
    split
    · rfl
    · rfl

lemma handle_buf (c : Connection) (q : QueryBuf) (r : Parse) :
    ({ c with buf := q } : Connection).handle cfg r = c.handle cfg r := by
  cases r with
  | more | error | ok => rfl

lemma pass_of_open (hc : c.closing = false) (hr : c.buf.rest ≠ []) :
    c.pass cfg = (nextRequest cfg.protoMaxBulkLen c.buf).map (c.handle cfg) := by
  unfold pass
  rw [if_neg (by simp [hc,hr])]

lemma pass_of_stopped (h : c.closing = true ∨ c.buf.rest = []) : c.pass cfg = .ok (false,c) := by
  unfold pass
  rw [if_pos h]

lemma inputBuffer_of_stopped (h : c.closing = true ∨ c.buf.rest = []) :
    c.processInputBuffer cfg = .ok c.trim := by
  rw [inputBuffer_eq,pass_of_stopped h]
  rfl

lemma pass_settle (hc : c.closing = false) (hr : c.buf.rest ≠ []) : (c.pass cfg).map settle =
    ((nextRequest cfg.protoMaxBulkLen c.buf).map Parse.trim).map fun r =>
      settle (c.handle cfg r) := by
  rw [pass_of_open hc hr]
  cases nextRequest cfg.protoMaxBulkLen c.buf with
  | error f => rfl
  | ok r => exact congrArg Except.ok (handle_settle c r)

lemma pass_trim (c : Connection) : (c.pass cfg).map settle = (c.trim.pass cfg).map settle := by
  by_cases hstop : c.closing = true ∨ c.buf.rest = []
  · rw [pass_of_stopped hstop,pass_of_stopped (c := c.trim) hstop]
    rfl
  obtain ⟨hc,hr⟩ := not_or.mp hstop
  have hopen : c.closing = false := by simpa using hc
  rw [pass_settle hopen hr,pass_settle (c := c.trim) hopen hr]
  have hbuf : c.trim.buf = c.buf.trim := rfl
  rw [hbuf,← nextRequest_trim]
  simp only [trim,handle_buf]

lemma bind_finish {x : Except ParseFault (Bool × Connection)}
    (h : ∀ d, x = .ok (true,d) → d.processInputBuffer cfg = d.trim.processInputBuffer cfg) :
    x.bind (finish cfg) = (x.map settle).bind (finish cfg) := by
  cases x with
  | error f => rfl
  | ok y =>
    obtain ⟨again,d⟩ := y
    cases again with
    | false => rfl
    | true => exact h d rfl

lemma inputBuffer_trim (c : Connection) :
    c.processInputBuffer cfg = c.trim.processInputBuffer cfg := by
  generalize hn : c.buf.rest.length = n
  induction n using Nat.strong_induction_on generalizing c with
  | _ n ih =>
    have hsmaller : ∀ x d : Connection, x.buf.rest.length = n → x.pass cfg = .ok (true,d) →
        d.processInputBuffer cfg = d.trim.processInputBuffer cfg := by
      intro x d hx hd
      have hlt := pass_again hd
      exact ih d.buf.rest.length (by omega) d rfl
    rw [inputBuffer_eq,inputBuffer_eq,bind_finish fun d => hsmaller c d hn,
      bind_finish fun d => hsmaller c.trim d hn,pass_trim]

lemma inputBuffer_of_open (hc : c.closing = false) (hr : c.buf.rest ≠ []) :
    c.processInputBuffer cfg =
      (((nextRequest cfg.protoMaxBulkLen c.buf).map Parse.trim).map fun r =>
        settle (c.handle cfg r)).bind (finish cfg) := by
  rw [inputBuffer_eq,bind_finish fun d _ => inputBuffer_trim d,pass_settle hc hr]

lemma inputBuffer_of_fresh (hc : c.closing = false) (hne : ss ≠ []) (hbuf : c.buf = .fresh ss) :
    (c.append bs).processInputBuffer cfg = (((nextRequest cfg.protoMaxBulkLen
      ((fresh ss).append bs)).map Parse.trim).map fun r =>
        settle ((c.append bs).handle cfg r)).bind (finish cfg) := by
  rw [← hbuf]
  apply inputBuffer_of_open (c := c.append bs) hc
  simp [append,hbuf,QueryBuf.append,fresh,hne]

lemma pos_append (q : QueryBuf) : (c.append bs).pos (q.append bs).trim = c.pos q.trim := by
  simp only [pos,append,QueryBuf.append,QueryBuf.trim,length_append]
  omega

lemma handle_append (hr : r.settled = true) :
    settle ((c.append bs).handle cfg (r.append bs).trim) =
      ((settle (c.handle cfg r.trim)).1,(settle (c.handle cfg r.trim)).2.append bs) := by
  cases r with
  | more q => cases hr
  | error q e =>
    simp only [handle,Parse.append,Parse.trim,pos_append]
    rfl
  | ok q =>
    have hg : isGopher cfg (q.append bs).trim = isGopher cfg q.trim := rfl
    have ha : (q.append bs).trim.argv = q.trim.argv := rfl
    simp only [handle,Parse.append,Parse.trim,pos_append,hg,ha]
    split
    · rfl
    split
    · rfl
    · rfl

lemma handle_stops (hr : r.settled = true) (h : (settle (c.handle cfg r.trim)).1 = false) :
    (settle (c.handle cfg r.trim)).2.closing = true := by
  cases r with
  | more q => cases hr
  | error q e => rfl
  | ok q =>
    simp only [handle,Parse.trim] at h ⊢
    split
    · rfl
    rename_i hg
    rw [if_neg hg] at h
    split at h
    · cases h
    · cases h

lemma handle_again (h : (settle (c.handle cfg r.trim)).1 = true) :
    ∃ q, r = .ok q ∧ (settle (c.handle cfg r.trim)).2.closing = c.closing ∧
      (settle (c.handle cfg r.trim)).2.buf = .fresh q.rest := by
  cases r with
  | more | error => cases h
  | ok q =>
    refine ⟨q,rfl,?_⟩
    simp only [handle,Parse.trim] at h ⊢
    split at h
    · cases h
    rename_i hg
    rw [if_neg hg]
    split <;> exact ⟨rfl,rfl⟩

lemma append_nil (c : Connection) : c.append [] = c := by
  simp [append,QueryBuf.append]

lemma inputBuffer_more {q : QueryBuf} (hc : c.closing = false) (hne : ss ≠ [])
    (hbuf : c.buf = .fresh ss) (hr : nextRequest cfg.protoMaxBulkLen (.fresh ss) = .ok (.more q))
    (hmore : (nextRequest cfg.protoMaxBulkLen (q.append bs)).map Parse.trim =
      (nextRequest cfg.protoMaxBulkLen ((fresh ss).append bs)).map Parse.trim) :
    c.processInputBuffer cfg = .ok { c with buf := q.trim } ∧
      (({ c with buf := q.trim } : Connection).append bs).processInputBuffer cfg =
        (c.append bs).processInputBuffer cfg := by
  have hpib : c.processInputBuffer cfg = .ok { c with buf := q.trim } := by
    rw [inputBuffer_of_open hc (by rw [hbuf]; exact hne),hbuf,hr]
    rfl
  refine ⟨hpib,?_⟩
  by_cases hd : q.rest ++ bs = []
  · obtain ⟨hq,rfl⟩ := append_eq_nil_iff.mp hd
    rw [append_nil,append_nil,hpib]
    exact inputBuffer_of_stopped (.inr hq)
  rw [inputBuffer_of_fresh hc hne hbuf,← hmore,
    inputBuffer_of_open (c := ({ c with buf := q.trim } : Connection).append bs) hc hd,
    nextRequest_trim (q.append bs)]
  rfl

lemma inputBuffer_append (bs : Bytes) (hc : c.closing = false) (hbuf : c.buf = .fresh ss)
    (hs : ShortLines cfg.protoMaxBulkLen (ss ++ bs)) :
    ∃ d, c.processInputBuffer cfg = .ok d ∧
      (d.append bs).processInputBuffer cfg = (c.append bs).processInputBuffer cfg := by
  generalize hn : ss.length = n
  induction n using Nat.strong_induction_on generalizing c ss with
  | _ n ih =>
    by_cases hne : ss = []
    · refine ⟨c.trim,inputBuffer_of_stopped (.inr (by rw [hbuf,hne]; rfl)),?_⟩
      exact (inputBuffer_trim (c.append bs)).symm
    obtain ⟨r,hr,hset,hmore⟩ := nextRequest_continues hne ((shortLines_iff (by simp [hne])).mp hs).1
    cases hsettled : r.settled with
    | false =>
      cases r with
      | more q => exact ⟨_,inputBuffer_more hc hne hbuf hr (hmore q rfl)⟩
      | error | ok => cases hsettled
    | true =>
      have hpib : c.processInputBuffer cfg = finish cfg (settle (c.handle cfg r.trim)) := by
        rw [inputBuffer_of_open hc (by rw [hbuf]; exact hne),hbuf,hr]
        rfl
      have hpib' : (c.append bs).processInputBuffer cfg = finish cfg
          ((settle (c.handle cfg r.trim)).1,(settle (c.handle cfg r.trim)).2.append bs) := by
        rw [inputBuffer_of_fresh hc hne hbuf,hset hsettled,← handle_append hsettled]
        rfl
      rw [hpib,hpib']
      cases hagain : (settle (c.handle cfg r.trim)).1 with
      | false =>
        have hclosing := handle_stops hsettled hagain
        refine ⟨_,by rw [finish,hagain]; rfl,?_⟩
        exact inputBuffer_of_stopped (.inl hclosing)
      | true =>
        obtain ⟨q,rfl,hc',hbuf₁⟩ := handle_again hagain
        have hlt : q.rest.length < ss.length := nextRequest_lt hr
        obtain ⟨d,hd,happ⟩ := ih q.rest.length (by omega) (hc'.trans hc) hbuf₁ (hs.next hne hr) rfl
        refine ⟨d,?_,happ⟩
        rw [finish,hagain]
        exact hd

lemma readAll_whole (cfg : InputConfig) (ss : Bytes) :
    readAll cfg [ss] = (init.append ss).processInputBuffer cfg := by
  unfold readAll
  rw [foldlM_cons]
  cases h : readQueryFromClient cfg init ss with
  | error | ok => exact h.symm

lemma init_append (ss : Bytes) : (init.append ss).closing = false ∧
    (init.append ss).buf = .fresh ss := ⟨rfl,rfl⟩

lemma readAll_from {reads : List Bytes}
    (hs : ShortLines cfg.protoMaxBulkLen (ss ++ reads.flatten))
    (hc : (init.append ss).processInputBuffer cfg = .ok c) :
    reads.foldlM (readQueryFromClient cfg) c =
      (init.append (ss ++ reads.flatten)).processInputBuffer cfg := by
  induction reads generalizing ss c with
  | nil =>
    rw [flatten_nil,List.append_nil,hc]
    rfl
  | cons bs reads ih =>
    rw [flatten_cons,← append_assoc] at hs ⊢
    have hinit : (init.append ss).append bs = init.append (ss ++ bs) := by
      simp [append,QueryBuf.append,Connection.init,empty]
    obtain ⟨d,hd,happ⟩ := inputBuffer_append (c := init.append ss) bs
      (init_append ss).1 (init_append ss).2 (ShortLines.ofAppend le_rfl hs)
    obtain ⟨e,he,_⟩ := inputBuffer_append (c := init.append (ss ++ bs))
      reads.flatten (init_append _).1 (init_append _).2 hs
    cases hc.symm.trans hd
    have hread : readQueryFromClient cfg c bs = .ok e := by
      rw [readQueryFromClient,happ,hinit,he]
    rw [foldlM_cons,hread]
    exact ih hs he

/-- However the stream is split into reads, the same requests are handed to command
execution, and a protocol error comes at the same point of the stream. -/
theorem reads_split_independent (cfg : InputConfig) (reads : List Bytes)
    (h : linesBounded cfg.protoMaxBulkLen reads.flatten = true) :
    ∃ c, readAll cfg reads = .ok c ∧ readAll cfg [reads.flatten] = .ok c := by
  have hs : ShortLines cfg.protoMaxBulkLen reads.flatten :=
    shortLines_of_fuel (Nat.lt_succ_self _) h
  have hs' : ShortLines cfg.protoMaxBulkLen ([] ++ reads.flatten) := hs
  have hinit : (init.append []).processInputBuffer cfg = .ok init :=
    inputBuffer_of_stopped (.inr rfl)
  have hall := readAll_from hs' hinit
  obtain ⟨c,hc,_⟩ := inputBuffer_append (c := init.append reads.flatten) []
    (init_append _).1 (init_append _).2 (by rw [List.append_nil]; exact hs)
  refine ⟨c,?_,(readAll_whole cfg _).trans hc⟩
  rw [readAll,hall]
  exact hc

end Connection

namespace Sample

def inputConfig : InputConfig := ⟨536870912,false⟩

/-- `*2 $3 GET $1 k` and the inline `ping`, in pieces, with an error at the end. -/
def pieces : List Bytes :=
  [[42,50],[13],[10,36,51,13,10,71],[69,84,13,10,36,49,13,10,107],[13,10,112,105],
   [110,103,10,42,120],[13,10]]

end Sample

open Sample

namespace Connection

set_option maxRecDepth 4000 in
theorem reads_split_independent_pieces : ∃ c,readAll inputConfig pieces = .ok c ∧
    readAll inputConfig [pieces.flatten] = .ok c ∧
    c.events = [.processCommand [[71,69,84],[107]] 20,.processCommand [[112,105,110,103]] 25,
      .protocolError .invalidMbulkCount 25] := by
  obtain ⟨c,hc,hwhole⟩ := reads_split_independent inputConfig pieces (by decide)
  have hev : (readAll inputConfig pieces).map Connection.events =
    .ok [.processCommand [[71,69,84],[107]] 20,.processCommand [[112,105,110,103]] 25,
      .protocolError .invalidMbulkCount 25] := by decide
  rw [hc] at hev
  exact ⟨c,hc,hwhole,Except.ok.inj hev⟩

end Connection
end RedRock
