import RedRock.Lib.Pipe
import RedRock.Basic

/-!
The child of a backup asks the service thread of the main process for the values that
are on disk. A request is the database id, the length of the key and the key, a response
the length of the value and the value, each over a pipe of its own.
-/

namespace RedRock
open Lib List Option

/-- An `int`, and a key whose length is a `size_t`. -/
structure Request where
  dbi : Fin (256 ^ 4)
  key : Blob 8
  deriving DecidableEq

namespace Request

/-- The calls of `_write_pipe_by_length`. -/
def calls (r : Request) : List Bytes :=
  [leBytes 4 r.dbi.val,leBytes 8 r.key.val.length,r.key.val]

def frame (r : Request) : Bytes := message (leBytes 4 r.dbi.val) r.key

lemma calls_flatten (r : Request) : r.calls.flatten = r.frame := by
  simp [calls,frame,message,putBlob]

end Request

/-- `requestSnapshotValByKeyInRdbProcess`, with the bytes it has read of the response. -/
inductive RdbChild where
  | idle
  | sending (r : Request) (calls : List Bytes)
  | receiving (r : Request) (got : Bytes)
  | gone
  deriving DecidableEq

/-- `_serviceForRdbChildProcessInServiceThread`, with the bytes it has read of the
request; `ended` when it has closed its ends of the pipes. -/
inductive RdbService where
  | reading (got : Bytes)
  | responding (calls : List Bytes)
  | ended
  deriving DecidableEq

/-- `asked` and `results` are the requests that were made and what they returned. -/
structure RdbPipe where
  child : RdbChild
  service : RdbService
  request : Bytes
  response : Bytes
  asked : List Request
  results : List (Request × Option Bytes)
  deriving DecidableEq

inductive RdbAct where
  | call (r : Request)
  | childWrite (k : Nat)
  | childRead (k : Nat)
  | childEof
  | childExit
  | serviceRead (k : Nat)
  | serviceWrite (k : Nat)
  | serviceEof
  | serviceEnd
  deriving DecidableEq

/-- The snapshots, by the database id and the key, and the capacities of the pipes. -/
structure RdbConfig where
  snapshot : Nat → Bytes → Option (Blob 8)
  requestCap : Nat
  responseCap : Nat
  requestCap_pos : 0 < requestCap
  responseCap_pos : 0 < responseCap

namespace RdbPipe
variable (cfg : RdbConfig) (s : RdbPipe)

def finish (r : Request) (x : Option Bytes) : RdbPipe :=
  { s with child := .idle, results := s.results ++ [(r,x)] }

def childWrite (k : Nat) : Option RdbPipe :=
  match s.child with
  | .sending r calls =>
    -- without a reader `write` fails
    if s.service = .ended then none
    else (writeChunk cfg.requestCap calls s.request k).map fun (calls,pipe) =>
      { s with request := pipe, child := if calls = [] then .receiving r [] else .sending r calls }
  | _ => none

def childRead (k : Nat) : Option RdbPipe :=
  match s.child with
  | .receiving r got => (readChunk 0 8 got s.response k).map fun (got,pipe) =>
      if want 0 8 got = 0 then ({ s with response := pipe }).finish r (some (got.drop 8))
      else { s with response := pipe, child := .receiving r got }
  | _ => none

/-- The service is gone: a `write` fails, and a `read` of an empty pipe returns 0. -/
def childEof : Option RdbPipe :=
  if s.service = .ended then
    match s.child with
    | .sending r _ => some (s.finish r none)
    | .receiving r _ => if s.response = [] then some (s.finish r none) else none
    | _ => none
  else none

def lookup (got : Bytes) : RdbService :=
  match cfg.snapshot (leNat (got.take 4)) (got.drop (4 + 8)) with
  | some v => .responding [leBytes 8 v.val.length,v.val]
  | none => .ended

def serviceRead (k : Nat) : Option RdbPipe :=
  match s.service with
  | .reading got => (readChunk 4 8 got s.request k).map fun (got,pipe) =>
      { s with request := pipe
               service := if want 4 8 got = 0 then lookup cfg got else .reading got }
  | _ => none

def serviceWrite (k : Nat) : Option RdbPipe :=
  match s.service with
  | .responding calls =>
    if s.child = .gone then none
    else (writeChunk cfg.responseCap calls s.response k).map fun (calls,pipe) =>
      { s with response := pipe
               service := if calls = [] then .reading [] else .responding calls }
  | _ => none

/-- The child is gone: a `read` of an empty pipe returns 0, and a `write` fails. -/
def serviceEof : Option RdbPipe :=
  if s.child = .gone then
    match s.service with
    | .reading _ => if s.request = [] then some { s with service := .ended } else none
    | .responding _ => some { s with service := .ended }
    | .ended => none
  else none

def step : RdbAct → Option RdbPipe
  | .call r => if s.child = .idle then
      some { s with child := .sending r r.calls, asked := s.asked ++ [r] } else none
  | .childWrite k => s.childWrite cfg k
  | .childRead k => s.childRead k
  | .childEof => s.childEof
  | .childExit => some { s with child := .gone }
  | .serviceRead k => s.serviceRead cfg k
  | .serviceWrite k => s.serviceWrite cfg k
  | .serviceEof => s.serviceEof
  | .serviceEnd => some { s with service := .ended }

end RdbPipe

/-- The child may make any requests, and the service may end at any moment. -/
def rdbPipe (cfg : RdbConfig) : Machine RdbPipe RdbAct Empty where
  init := ⟨.idle,.reading [],[],[],[],[]⟩
  step s a := (s.step cfg a).map .ok

namespace RdbPipe
variable {cfg : RdbConfig} {s t : RdbPipe} {a : RdbAct} {r : Request}
variable {k : Nat} {got : Bytes} {calls : List Bytes}

def answer (cfg : RdbConfig) (r : Request) : Option (Blob 8) := cfg.snapshot r.dbi.val r.key.val

inductive Asks (r : Request) : RdbChild → Bytes → Prop where
  | sending {calls : List Bytes} (hb : Busy calls) : Asks r (.sending r calls) calls.flatten
  | sent : Asks r (.receiving r []) []

lemma Asks.of_nil {c : RdbChild} {unsent : Bytes} (h : Asks r c unsent) (hu : unsent = []) :
    c = .receiving r [] := by
  cases h with
  | sending hb => exact absurd hu hb.flatten_ne
  | sent => rfl

/-- Where the bytes of a request and of its response are. While the service is there,
nothing else is in the pipes. -/
inductive Synced (cfg : RdbConfig) (s : RdbPipe) : Prop where
  | gone (hc : s.child = .gone)
  | idle (hc : s.child = .idle) (hp : s.response = [])
      (hs : s.service = .ended ∨ s.service = .reading [] ∧ s.request = [])
  | asking (r : Request) (unsent : Bytes) (hc : Asks r s.child unsent) (hp : s.response = [])
      (hs : s.service = .ended ∨ ∃ got, s.service = .reading got ∧
        got ++ (s.request ++ unsent) = r.frame ∧ s.request ++ unsent ≠ [])
  | answering (r : Request) (v : Blob 8) (got missing : Bytes) (hv : answer cfg r = some v)
      (hc : s.child = .receiving r got) (he : got ++ (s.response ++ missing) = message [] v)
      (hne : s.response ++ missing ≠ [])
      (hs : s.service = .ended ∨
        s.request = [] ∧ ((∃ calls, s.service = .responding calls ∧ Busy calls ∧
          calls.flatten = missing) ∨ s.service = .reading [] ∧ missing = []))

lemma lookup_frame (cfg : RdbConfig) (r : Request) : lookup cfg r.frame = match answer cfg r with
    | some v => .responding [leBytes 8 v.val.length,v.val]
    | none => .ended := by
  have hl : (leBytes 4 r.dbi.val).length = 4 := leBytes_length 4 _
  rw [lookup,Request.frame,message_take hl,message_drop r.key hl,leNat_leBytes 4 _ r.dbi.isLt]
  rfl

lemma busy_calls (r : Request) : Busy r.calls := ⟨_,_,rfl,by simp [leBytes]⟩

def pending (s : RdbPipe) : Option Request :=
  match s.child with
  | .sending r _ | .receiving r _ => some r
  | .idle | .gone => none

inductive Move (cfg : RdbConfig) (s : RdbPipe) : RdbAct → RdbPipe → Prop where
  | call {r : Request} (hc : s.child = .idle) :
      Move cfg s (.call r) { s with child := .sending r r.calls, asked := s.asked ++ [r] }
  | childSent {k : Nat} {r : Request} {calls : List Bytes} {pipe : Bytes}
      (hc : s.child = .sending r calls) (hs : s.service ≠ .ended)
      (hw : writeChunk cfg.requestCap calls s.request k = some ([],pipe)) :
      Move cfg s (.childWrite k) { s with request := pipe, child := .receiving r [] }
  | childWrite {k : Nat} {r : Request} {calls calls' : List Bytes} {pipe : Bytes}
      (hc : s.child = .sending r calls) (hs : s.service ≠ .ended)
      (hw : writeChunk cfg.requestCap calls s.request k = some (calls',pipe)) (hne : calls' ≠ []) :
      Move cfg s (.childWrite k) { s with request := pipe, child := .sending r calls' }
  | childDone {k : Nat} {r : Request} {got got' pipe : Bytes} (hc : s.child = .receiving r got)
      (hr : readChunk 0 8 got s.response k = some (got',pipe)) (h0 : want 0 8 got' = 0) :
      Move cfg s (.childRead k) (({ s with response := pipe }).finish r (some (got'.drop 8)))
  | childRead {k : Nat} {r : Request} {got got' pipe : Bytes} (hc : s.child = .receiving r got)
      (hr : readChunk 0 8 got s.response k = some (got',pipe)) (h0 : want 0 8 got' ≠ 0) :
      Move cfg s (.childRead k) { s with response := pipe, child := .receiving r got' }
  | childEof {r : Request} (hs : s.service = .ended) (hc : s.pending = some r)
      (hp : s.response = [] ∨ ∃ calls, s.child = .sending r calls) :
      Move cfg s .childEof (s.finish r none)
  | childExit : Move cfg s .childExit { s with child := .gone }
  | serviceRead {k : Nat} {got got' pipe : Bytes} (hs : s.service = .reading got)
      (hr : readChunk 4 8 got s.request k = some (got',pipe)) :
      Move cfg s (.serviceRead k) { s with
        request := pipe
        service := if want 4 8 got' = 0 then lookup cfg got' else .reading got' }
  | serviceWrite {k : Nat} {calls calls' : List Bytes} {pipe : Bytes}
      (hs : s.service = .responding calls) (hc : s.child ≠ .gone)
      (hw : writeChunk cfg.responseCap calls s.response k = some (calls',pipe)) :
      Move cfg s (.serviceWrite k) { s with
        response := pipe
        service := if calls' = [] then .reading [] else .responding calls' }
  | serviceEof (hc : s.child = .gone) : Move cfg s .serviceEof { s with service := .ended }
  | serviceEnd : Move cfg s .serviceEnd { s with service := .ended }

lemma move_childWrite (h : s.childWrite cfg k = some t) : Move cfg s (.childWrite k) t := by
  unfold RdbPipe.childWrite at h
  split at h
  · rename_i r calls hc
    rw [ite_none_left_eq_some] at h
    obtain ⟨hs,h⟩ := h
    obtain ⟨⟨calls',pipe⟩,hw,rfl⟩ := map_eq_some_iff.mp h
    dsimp only
    split
    · rename_i hnil
      subst hnil
      exact .childSent hc hs hw
    · exact .childWrite hc hs hw ‹_›
  · cases h

lemma move_childRead (h : s.childRead k = some t) : Move cfg s (.childRead k) t := by
  unfold RdbPipe.childRead at h
  split at h
  · rename_i r got hc
    obtain ⟨⟨got',pipe⟩,hr,rfl⟩ := map_eq_some_iff.mp h
    dsimp only
    split
    · exact .childDone hc hr ‹_›
    · exact .childRead hc hr ‹_›
  · cases h

lemma move_childEof (h : s.childEof = some t) : Move cfg s .childEof t := by
  rw [RdbPipe.childEof,ite_none_right_eq_some] at h
  obtain ⟨hs,h⟩ := h
  split at h
  · rename_i r calls hc
    cases h
    exact .childEof hs (by simp [pending,hc]) (.inr ⟨calls,hc⟩)
  · rename_i r got hc
    rw [enabled_iff] at h
    obtain ⟨hp,rfl⟩ := h
    exact .childEof hs (by simp [pending,hc]) (.inl hp)
  · cases h

lemma move_of_step (h : s.step cfg a = some t) : Move cfg s a t := by
  cases a with
  | call r =>
    rw [RdbPipe.step,enabled_iff] at h
    obtain ⟨hc,rfl⟩ := h
    exact .call hc
  | childWrite k => exact move_childWrite h
  | childRead k => exact move_childRead h
  | childEof => exact move_childEof h
  | childExit =>
    cases h
    exact .childExit
  | serviceRead k =>
    simp only [RdbPipe.step,RdbPipe.serviceRead] at h
    split at h
    · obtain ⟨⟨got',pipe⟩,hr,rfl⟩ := map_eq_some_iff.mp h
      exact .serviceRead ‹_› hr
    · cases h
  | serviceWrite k =>
    simp only [RdbPipe.step,RdbPipe.serviceWrite] at h
    split at h
    · rw [ite_none_left_eq_some] at h
      obtain ⟨hc,h⟩ := h
      obtain ⟨⟨calls',pipe⟩,hw,rfl⟩ := map_eq_some_iff.mp h
      exact .serviceWrite ‹_› hc hw
    · cases h
  | serviceEof =>
    rw [RdbPipe.step,RdbPipe.serviceEof,ite_none_right_eq_some] at h
    obtain ⟨hc,h⟩ := h
    split at h
    · rw [enabled_iff] at h
      obtain ⟨_,rfl⟩ := h
      exact .serviceEof hc
    · cases h
      exact .serviceEof hc
    · cases h
  | serviceEnd =>
    cases h
    exact .serviceEnd

section
variable (h : Synced cfg s)
include h

lemma Synced.sending (hchild : s.child = .sending r calls) :
    s.response = [] ∧ (s.service ≠ .ended → ∃ got, s.service = .reading got ∧
      got ++ (s.request ++ calls.flatten) = r.frame ∧ s.request ++ calls.flatten ≠ []) := by
  cases h with
  | gone hc | idle hc hp hs | answering r' v got missing hv hc he hne hs => simp [hchild] at hc
  | asking r' unsent hc hp hs =>
    rw [hchild] at hc
    cases hc with
    | sending hb => exact ⟨hp,hs.resolve_left⟩

lemma Synced.receiving {got' pipe : Bytes} (hchild : s.child = .receiving r got)
    (hr : readChunk 0 8 got s.response k = some (got',pipe)) :
    ∃ v missing, answer cfg r = some v ∧ got' ++ (pipe ++ missing) = message [] v ∧
      (want 0 8 got' = 0 ↔ pipe ++ missing = []) ∧ (s.service = .ended ∨
        s.request = [] ∧ ((∃ calls, s.service = .responding calls ∧ Busy calls ∧
          calls.flatten = missing) ∨ s.service = .reading [] ∧ missing = [])) := by
  obtain ⟨hcat,hlt,_⟩ := readChunk_some hr
  cases h with
  | gone hc | idle hc hp hs => simp [hchild] at hc
  | asking r' unsent hc hp hs => simp [hp] at hlt
  | answering r' v g missing hv hc he hne hs =>
    rw [hchild] at hc
    cases hc
    rw [← append_assoc,← hcat,append_assoc] at he
    exact ⟨v,missing,hv,he,(want_of_append rfl he).2,hs⟩

lemma Synced.serviceRead {got' pipe : Bytes} (hserv : s.service = .reading got)
    (hr : readChunk 4 8 got s.request k = some (got',pipe)) : Synced cfg { s with
      request := pipe
      service := if want 4 8 got' = 0 then lookup cfg got' else .reading got' } := by
  obtain ⟨hcat,hlt,_⟩ := readChunk_some hr
  cases h with
  | gone hc => exact .gone hc
  | idle hc hp hs =>
    rcases hs with hs | ⟨_,hreq⟩
    · simp [hserv] at hs
    · simp [hreq] at hlt
  | answering r v g missing hv hc he hne hs =>
    rcases hs with hs | ⟨hreq,_⟩
    · simp [hserv] at hs
    · simp [hreq] at hlt
  | asking r unsent hc hp hs =>
    rcases hs with hs | ⟨g,hs,he,hne⟩
    · simp [hserv] at hs
    rw [hserv] at hs
    cases hs
    rw [← append_assoc,← hcat,append_assoc] at he
    have hwant := (want_of_append (leBytes_length 4 _) he).2
    by_cases h0 : want 4 8 got' = 0
    · -- the whole request is there, so the child has sent it all
      obtain ⟨rfl,rfl⟩ := append_eq_nil_iff.mp (hwant.mp h0)
      rw [List.append_nil,List.append_nil] at he
      rw [if_pos h0,he,lookup_frame]
      cases ha : answer cfg r with
      | none => exact .asking r [] hc hp (.inl rfl)
      | some v =>
        refine .answering r v [] (message [] v) ha (hc.of_nil rfl) ?_ ?_
          (.inr ⟨rfl,.inl ⟨_,rfl,?_,?_⟩⟩)
        · simp [hp]
        · simp [hp,message,putBlob,leBytes]
        · exact ⟨_,_,rfl,by simp [leBytes]⟩
        · simp [message,putBlob]
    rw [if_neg h0]
    exact .asking r unsent hc hp (.inr ⟨got',rfl,he,fun hnil => h0 (hwant.mpr hnil)⟩)

lemma Synced.serviceWrite {calls' : List Bytes} {pipe : Bytes}
    (hserv : s.service = .responding calls) (hgone : s.child ≠ .gone)
    (hw : writeChunk cfg.responseCap calls s.response k = some (calls',pipe)) : Synced cfg { s with
      response := pipe
      service := if calls' = [] then .reading [] else .responding calls' } := by
  obtain ⟨hcat,_,hbusy⟩ := writeChunk_some hw
  cases h with
  | gone hc => exact absurd hc hgone
  | idle hc hp hs => simp [hserv] at hs
  | asking r unsent hc hp hs => simp [hserv] at hs
  | answering r v got missing hv hc he hne hs =>
    simp only [hserv,RdbService.responding.injEq,reduceCtorEq,false_and,or_false,false_or] at hs
    obtain ⟨hreq,c,rfl,hb,rfl⟩ := hs
    rw [← hcat] at he hne
    refine .answering r v got calls'.flatten hv hc he hne (.inr ⟨hreq,?_⟩)
    by_cases hnil : calls' = []
    · subst hnil
      exact .inr ⟨rfl,rfl⟩
    refine .inl ⟨calls',?_,hbusy hnil,rfl⟩
    exact if_neg hnil

lemma Synced.step (hm : Move cfg s a t) : Synced cfg t := by
  cases hm with
  | @call r hidle =>
    cases h with
    | gone hc => simp [hidle] at hc
    | answering r' v got missing hv hc he hne hs => simp [hidle] at hc
    | asking r' unsent hc hp hs =>
      rw [hidle] at hc
      cases hc
    | idle hc hp hs =>
      refine .asking r r.calls.flatten (.sending (busy_calls r)) hp ?_
      rcases hs with hs | ⟨hs,hreq⟩
      · exact .inl hs
      refine .inr ⟨[],hs,?_,?_⟩
      · simp [hreq,r.calls_flatten]
      · simp [hreq,(busy_calls r).flatten_ne]
  | childSent hc hs hw =>
    obtain ⟨hp,hask⟩ := h.sending hc
    obtain ⟨got,hs,he,hne⟩ := hask hs
    rw [← (writeChunk_some hw).1] at he hne
    exact .asking _ [] .sent hp (.inr ⟨got,hs,he,hne⟩)
  | childWrite hc hs hw hnil =>
    obtain ⟨hcat,_,hbusy⟩ := writeChunk_some hw
    obtain ⟨hp,hask⟩ := h.sending hc
    obtain ⟨got,hs,he,hne⟩ := hask hs
    rw [← hcat] at he hne
    exact .asking _ _ (.sending (hbusy hnil)) hp (.inr ⟨got,hs,he,hne⟩)
  | childDone hc hr h0 =>
    obtain ⟨v,missing,_,_,hwant,hs⟩ := h.receiving hc hr
    obtain ⟨rfl,rfl⟩ := append_eq_nil_iff.mp (hwant.mp h0)
    refine .idle rfl rfl ?_
    rcases hs with hs | ⟨hreq,⟨calls,_,hb,hf⟩ | ⟨hs,_⟩⟩
    · exact .inl hs
    · exact absurd hf hb.flatten_ne
    · exact .inr ⟨hs,hreq⟩
  | childRead hc hr h0 =>
    obtain ⟨v,missing,hv,he,hwant,hs⟩ := h.receiving hc hr
    exact .answering _ v _ missing hv rfl he (fun hnil => h0 (hwant.mpr hnil)) hs
  | childEof hs hc hp =>
    refine .idle rfl ?_ (.inl hs)
    rcases hp with hp | ⟨calls,hc⟩
    · exact hp
    · exact (h.sending hc).1
  | childExit => exact .gone rfl
  | serviceRead hs hr => exact h.serviceRead hs hr
  | serviceWrite hs hc hw => exact h.serviceWrite hs hc hw
  | serviceEof hc => exact .gone hc
  | serviceEnd =>
    cases h with
    | gone hc => exact .gone hc
    | idle hc hp hs => exact .idle hc hp (.inl rfl)
    | asking r unsent hc hp hs => exact .asking r unsent hc hp (.inl rfl)
    | answering r v got missing hv hc he hne hs =>
      exact .answering r v got missing hv hc he hne (.inl rfl)

end

def Answered (cfg : RdbConfig) (s : RdbPipe) (r : Request) (x : Option Bytes) : Prop :=
  (∃ v, answer cfg r = some v ∧ x = some v.val) ∨ x = none ∧ s.service = .ended

structure ResultInv (cfg : RdbConfig) (s : RdbPipe) : Prop where
  asked : s.child ≠ .gone → s.asked = s.results.map Prod.fst ++ s.pending.toList
  answered : ∀ r x, (r,x) ∈ s.results → Answered cfg s r x

lemma ResultInv.congr (h : ResultInv cfg s) (ha : t.asked = s.asked)
    (hr : t.results = s.results) (hp : t.child ≠ .gone → s.child ≠ .gone ∧ t.pending = s.pending)
    (hs : s.service = .ended → t.service = .ended) : ResultInv cfg t where
  asked hc := by
    obtain ⟨hc',hp⟩ := hp hc
    rw [ha,hr,hp,h.asked hc']
  answered r x hx := by
    rw [hr] at hx
    rcases h.answered r x hx with hv | ⟨hx,he⟩
    · exact .inl hv
    · exact .inr ⟨hx,hs he⟩

lemma ResultInv.finish {x : Option Bytes} (h : ResultInv cfg s) (pipe : Bytes)
    (hp : s.pending = some r) (hx : Answered cfg s r x) :
    ResultInv cfg (({ s with response := pipe }).finish r x) where
  asked _ := by
    have hgone : s.child ≠ .gone := by
      intro hc
      simp [pending,hc] at hp
    change s.asked = (s.results ++ [(r,x)]).map Prod.fst ++ []
    rw [h.asked hgone,hp]
    simp
  answered r' x' hx' := by
    rcases mem_append.mp hx' with hx' | hx'
    · exact h.answered r' x' hx'
    rw [mem_singleton] at hx'
    cases hx'
    exact hx

lemma ResultInv.step (h : ResultInv cfg s) (hsync : Synced cfg s) (hm : Move cfg s a t) :
    ResultInv cfg t := by
  cases hm with
  | @call r hidle =>
    refine ⟨fun _ => ?_,h.answered⟩
    have hasked := h.asked (by simp [hidle])
    change s.asked ++ [r] = s.results.map Prod.fst ++ [r]
    rw [hasked]
    simp [pending,hidle]
  | childSent hc | childWrite hc | childRead hc =>
    exact h.congr rfl rfl (fun _ => ⟨by simp [hc],by simp [pending,hc]⟩) id
  | childDone hc hr h0 =>
    obtain ⟨v,missing,hv,he,hwant,_⟩ := hsync.receiving hc hr
    rw [hwant.mp h0,List.append_nil] at he
    refine h.finish _ (by simp [pending,hc]) (.inl ⟨v,hv,?_⟩)
    rw [he]
    exact congrArg some (message_drop v (rfl : ([] : Bytes).length = 0))
  | childEof hs hc => exact h.finish s.response hc (.inr ⟨rfl,hs⟩)
  | childExit => exact h.congr rfl rfl (fun hc => absurd rfl hc) id
  | serviceRead hs | serviceWrite hs => exact h.congr rfl rfl (fun hc => ⟨hc,rfl⟩) (by simp [hs])
  | serviceEof | serviceEnd => exact h.congr rfl rfl (fun hc => ⟨hc,rfl⟩) fun _ => rfl

lemma Synced.init (cfg : RdbConfig) : Synced cfg (rdbPipe cfg).init := .idle rfl rfl (.inr ⟨rfl,rfl⟩)

lemma ResultInv.init (cfg : RdbConfig) : ResultInv cfg (rdbPipe cfg).init where
  asked _ := rfl
  answered r x hx := by cases hx

end RdbPipe

namespace Sample

end Sample

end RedRock
