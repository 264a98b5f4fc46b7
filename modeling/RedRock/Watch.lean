import RedRock.Lib.Store
import RedRock.Basic

/-!
`multi.c`: a client that watches a key is marked when the key is touched, and the EXEC of a
marked client runs nothing. Which changes of the keyspace touch a key is decided by the
commands: most call `signalModifiedKey` for what they changed, the flush commands mark the
clients themselves, and some forget to.
-/

namespace RedRock
open Lib List Option Function

/-- Commands that change the keyspace, over values `V`. `write` are the ones that change keys
of the selected database and signal each of them: SET, DEL, INCR, LPUSH, SORT with STORE and
so on. `silent` are those that do not signal the one they change: HINCRBYFLOAT on a missing
key when the result is not finite, XGROUP and the other commands on consumer groups. -/
inductive KeyspaceCommand (V : Type) where
  | write (changes : List (Sds × Option V))
  | silent (key : Sds) (val : V)
  | rename (src dst : Sds) (nx : Bool)
  | move (key : Sds) (dbid : Nat)
  | flushdb
  | flushall
  | swapdb (id1 id2 : Nat)
  deriving DecidableEq

/-- `refused` is a command that `processCommand` refuses, with `flagTransaction` or without. -/
inductive WatchCommand (V : Type) where
  | select (dbid : Nat)
  | watch (keys : List Sds)
  | unwatch
  | multi
  | discard
  | exec
  | keyspace (q : KeyspaceCommand V)
  | refused (flags : Bool)
  deriving DecidableEq

def WatchCommand.immediate {V : Type} : WatchCommand V → Bool
  | .exec | .discard | .multi | .watch _ => true
  | _ => false

structure WatchClient (n : Nat) (V : Type) where
  db : Fin (n+1)
  watchedKeys : List (Fin (n+1) × Sds)
  multi : Bool
  dirtyCas : Bool
  dirtyExec : Bool
  mstate : List (WatchCommand V)

/-- `watchedKeys` is `db->watched_keys`, and `executing` is the client inside EXEC with the
commands it has still to run. -/
structure WatchServer (n : Nat) (V : Type) where
  dict : Store (Fin (n+1)) Sds V
  watchedKeys : Fin (n+1) × Sds → Option (List ClientId)
  clients : ClientId → Option (WatchClient n V)
  executing : Option (ClientId × List (WatchCommand V))

/-- The assertion in `unwatchAllKeys`, and the deletion of a client that is not in the list. -/
inductive WatchFault where
  | noClients
  | nullNode
  deriving DecidableEq

inductive WatchAct (V : Type) where
  | accept (c : ClientId)
  | freeClient (c : ClientId)
  | command (c : ClientId) (q : WatchCommand V)
  | execNext

def dbOf (n : Nat) (dbid : Nat) : Option (Fin (n+1)) :=
  if h : dbid < n+1 then some ⟨dbid,h⟩ else none

namespace WatchServer
variable {n : Nat} {V : Type} (s : WatchServer n V)

def mark (m : ClientId → Bool) : WatchServer n V :=
  { s with clients := fun c =>
      (s.clients c).map fun cl => { cl with dirtyCas := cl.dirtyCas || m c } }

def setClient (c : ClientId) (cl : WatchClient n V) : WatchServer n V :=
  { s with clients := update s.clients c (some cl) }

def touchWatchedKey (d : Fin (n+1)) (key : Sds) : WatchServer n V :=
  s.mark fun c => ((s.watchedKeys (d,key)).getD []).contains c

def signalModifiedKey (d : Fin (n+1)) (key : Sds) : WatchServer n V := s.touchWatchedKey d key

/-- `dbid = none` is -1. A client is marked for the keys it watches that are there. -/
def touchWatchedKeysOnFlush (dbid : Option (Fin (n+1))) : WatchServer n V :=
  s.mark fun c =>
    match s.clients c with
    | none => false
    | some cl => cl.watchedKeys.any fun w =>
        dbid.all (· = w.1) && (s.dict w.1 w.2).isSome

def emptyDb (dbid : Option (Fin (n+1))) : WatchServer n V :=
  let s := s.touchWatchedKeysOnFlush dbid
  { s with dict := s.dict.apply (match dbid with | some d => .clear d | none => .clearAll) }

def renameGenericCommand (d : Fin (n+1)) (src dst : Sds) (nx : Bool) : WatchServer n V :=
  match s.dict d src with
  | none => s
  | some o =>
    if src = dst then s
    else if (s.dict d dst).isSome ∧ nx then s
    else
      let s := { s with dict := (s.dict.set d dst (some o)).set d src none }
      (s.signalModifiedKey d src).signalModifiedKey d dst

def moveCommand (src : Fin (n+1)) (key : Sds) (dbid : Nat) : WatchServer n V :=
  match dbOf n dbid with
  | none => s
  | some dst =>
    if src = dst then s
    else
      match s.dict src key with
      | none => s
      | some o =>
        if (s.dict dst key).isSome then s
        else
          let s := { s with dict := (s.dict.set dst key (some o)).set src key none }
          (s.signalModifiedKey src key).signalModifiedKey dst key

/-- The dictionaries are exchanged; `watched_keys` stays with the database. -/
def dbSwapDatabases (id1 id2 : Nat) : WatchServer n V :=
  match dbOf n id1, dbOf n id2 with
  | some i, some j => { s with dict := s.dict.apply (.swap i j) }
  | _, _ => s

def change (d : Fin (n+1)) (s : WatchServer n V) (x : Sds × Option V) : WatchServer n V :=
  ({ s with dict := s.dict.set d x.1 x.2 }).signalModifiedKey d x.1

def keyspaceCall (d : Fin (n+1)) : KeyspaceCommand V → WatchServer n V
  | .write changes => changes.foldl (change d) s
  | .silent key val => { s with dict := s.dict.set d key (some val) }
  | .rename src dst nx => s.renameGenericCommand d src dst nx
  | .move key dbid => s.moveCommand d key dbid
  | .flushdb => s.emptyDb (some d)
  | .flushall => s.emptyDb none
  | .swapdb id1 id2 => s.dbSwapDatabases id1 id2

def watchForKey (c : ClientId) (s : WatchServer n V) (key : Sds) : WatchServer n V :=
  match s.clients c with
  | none => s
  | some cl =>
    if (cl.db,key) ∈ cl.watchedKeys then s
    else
      { s.setClient c { cl with watchedKeys := cl.watchedKeys ++ [(cl.db,key)] } with
        watchedKeys := update s.watchedKeys (cl.db,key)
          (some ((s.watchedKeys (cl.db,key)).getD [] ++ [c])) }

def unwatchKeys (c : ClientId) : List (Fin (n+1) × Sds) →
    (Fin (n+1) × Sds → Option (List ClientId)) →
      Except WatchFault (Fin (n+1) × Sds → Option (List ClientId))
  | [], watched => .ok watched
  | w :: ws, watched =>
    match watched w with
    | none => .error .noClients
    | some clients =>
      if c ∈ clients then
        let clients := clients.erase c
        unwatchKeys c ws
          (update watched w (if clients = [] then none else some clients))
      else .error .nullNode

def unwatchAllKeys (c : ClientId) : Except WatchFault (WatchServer n V) :=
  match s.clients c with
  | none => .ok s
  | some cl => do
    let watched ← unwatchKeys c cl.watchedKeys s.watchedKeys
    return { s.setClient c { cl with watchedKeys := [] } with watchedKeys := watched }

def clearDirtyCas (c : ClientId) : WatchServer n V :=
  { s with
    clients := update s.clients c
      ((s.clients c).map fun cl => { cl with dirtyCas := false }) }

def discardTransaction (c : ClientId) (cl : WatchClient n V) :
    Except WatchFault (WatchServer n V) :=
  (s.setClient c { cl with
    mstate := [], multi := false, dirtyCas := false, dirtyExec := false }).unwatchAllKeys c

def execCommand (c : ClientId) (cl : WatchClient n V) : Except WatchFault (WatchServer n V) :=
  if !cl.multi then .ok s
  else if cl.dirtyCas || cl.dirtyExec then s.discardTransaction c cl
  else do
    let s ← s.unwatchAllKeys c
    return { s with executing := some (c,cl.mstate) }

def call (c : ClientId) (cl : WatchClient n V) :
    WatchCommand V → Except WatchFault (WatchServer n V)
  | .select dbid =>
    match dbOf n dbid with
    | some d => .ok (s.setClient c { cl with db := d })
    | none => .ok s
  | .watch keys => if cl.multi then .ok s else .ok (keys.foldl (watchForKey c) s)
  | .unwatch => do
    let s ← s.unwatchAllKeys c
    return s.clearDirtyCas c
  | .multi => .ok (if cl.multi then s else s.setClient c { cl with multi := true })
  | .discard => if cl.multi then s.discardTransaction c cl else .ok s
  | .exec => s.execCommand c cl
  | .keyspace q => .ok (s.keyspaceCall cl.db q)
  | .refused _ => .ok s

def processCommand (c : ClientId) (cl : WatchClient n V) (q : WatchCommand V) :
    Except WatchFault (WatchServer n V) :=
  match q with
  | .refused flags =>
    .ok (s.setClient c { cl with dirtyExec := cl.dirtyExec || cl.multi && flags })
  | q =>
    if cl.multi && !q.immediate then .ok (s.setClient c { cl with mstate := cl.mstate ++ [q] })
    else s.call c cl q

def step : WatchAct V → Option (Except WatchFault (WatchServer n V))
  | .accept c =>
    if s.executing.isNone ∧ (s.clients c).isNone then
      some (.ok (s.setClient c ⟨0,[],false,false,false,[]⟩))
    else none
  | .freeClient c =>
    if s.executing.isNone then
      some ((s.unwatchAllKeys c).map fun s =>
        { s with clients := update s.clients c none })
    else none
  | .command c q =>
    if s.executing.isNone then (s.clients c).map fun cl => s.processCommand c cl q else none
  | .execNext =>
    match s.executing with
    | none => none
    | some (c,qs) => (s.clients c).map fun cl =>
      match qs with
      | [] => (s.discardTransaction c cl).map fun s => { s with executing := none }
      | q :: qs => (s.call c cl q).map fun s => { s with executing := some (c,qs) }

end WatchServer

def watchServer (n : Nat) (V : Type) : Machine (WatchServer n V) (WatchAct V) WatchFault where
  init := ⟨fun _ _ => none,fun _ => none,fun _ => none,none⟩
  step := WatchServer.step

namespace WatchServer
variable {n : Nat} {V : Type} {s t u : WatchServer n V} {c : ClientId} {d : Fin (n+1)} {key : Sds}
variable {cl : WatchClient n V} {a : WatchAct V} {q : WatchCommand V} {w : Fin (n+1) × Sds}
  {c' : ClientId} {dirty : Bool}

structure Marks (s t : WatchServer n V) : Prop where
  watchedKeys : t.watchedKeys = s.watchedKeys
  executing : t.executing = s.executing
  clients : ∃ m, t.clients = (s.mark m).clients

def listed (s : WatchServer n V) (w : Fin (n+1) × Sds) : List ClientId :=
  (s.watchedKeys w).getD []

def Touches (s t : WatchServer n V) : Prop :=
  ∀ c cl w, s.clients c = some cl → w ∈ cl.watchedKeys → c ∈ s.listed w →
    t.dict w.1 w.2 ≠ s.dict w.1 w.2 → ∃ cl', t.clients c = some cl' ∧ cl'.dirtyCas = true

namespace Marks

lemma of_clients (hw : t.watchedKeys = s.watchedKeys) (he : t.executing = s.executing)
    (hc : t.clients = s.clients) : Marks s t := by
  refine ⟨hw,he,fun _ => false,?_⟩
  rw [hc]
  funext c
  simp [mark]

lemma refl (s : WatchServer n V) : Marks s s := of_clients rfl rfl rfl

lemma mark (s : WatchServer n V) (m : ClientId → Bool) : Marks s (s.mark m) := ⟨rfl,rfl,m,rfl⟩

lemma trans (h : Marks s t) (h' : Marks t u) : Marks s u := by
  refine ⟨h'.watchedKeys.trans h.watchedKeys,h'.executing.trans h.executing,?_⟩
  obtain ⟨m,hm⟩ := h.clients
  obtain ⟨m',hm'⟩ := h'.clients
  refine ⟨fun c => m c || m' c,?_⟩
  rw [hm']
  funext c
  simp only [WatchServer.mark,hm,Option.map_map]
  cases s.clients c with
  | none => rfl
  | some cl => simp [Bool.or_assoc]

lemma client (h : Marks s t) (hc : s.clients c = some cl) :
    ∃ b, t.clients c = some { cl with dirtyCas := cl.dirtyCas || b } := by
  obtain ⟨m,hm⟩ := h.clients
  refine ⟨m c,?_⟩
  rw [hm]
  simp [WatchServer.mark,hc]

end Marks

namespace Touches

lemma of_dict (h : t.dict = s.dict) : Touches s t := by
  intro c cl w _ _ _ hne
  rw [h] at hne
  exact absurd rfl hne

lemma trans (hm : Marks s t) (h : Touches s t) (hm' : Marks t u) (h' : Touches t u) :
    Touches s u := by
  intro c cl w hc hw hmem hne
  obtain ⟨b,hb⟩ := hm.client hc
  by_cases hst : t.dict w.1 w.2 = s.dict w.1 w.2
  · rw [← hst] at hne
    exact h' c _ w hb hw (by rw [listed,hm.watchedKeys]; exact hmem) hne
  obtain ⟨cl',hcl',hdirty⟩ := h c cl w hc hw hmem hst
  obtain ⟨b',hb'⟩ := hm'.client hcl'
  exact ⟨_,hb',by simp [hdirty]⟩

end Touches

lemma signal_dirty (hc : s.clients c = some cl) (hmem : c ∈ s.listed (d,key)) :
    ∃ cl', (s.signalModifiedKey d key).clients c = some cl' ∧ cl'.dirtyCas = true := by
  refine ⟨{ cl with dirtyCas := cl.dirtyCas || (s.listed (d,key)).contains c },?_,?_⟩
  · simp [signalModifiedKey,touchWatchedKey,mark,hc,listed]
  · simp [hmem]

section
variable (d)

lemma change_touches (s : WatchServer n V) (x : Sds × Option V) :
    Marks s (change d s x) ∧ Touches s (change d s x) := by
  have h₀ : Marks s { s with dict := s.dict.set d x.1 x.2 } := .of_clients rfl rfl rfl
  refine ⟨h₀.trans (.mark _ _),?_⟩
  intro c cl w hc _ hmem hne
  have hw : w = (d,x.1) := by
    by_contra hw
    refine hne (if_neg ?_)
    rintro ⟨h₁,h₂⟩
    exact hw (Prod.ext h₁ h₂)
  subst hw
  exact signal_dirty (s := { s with dict := s.dict.set d x.1 x.2 }) hc hmem

lemma write_touches (changes : List (Sds × Option V)) (s : WatchServer n V) :
    Marks s (changes.foldl (change d) s) ∧ Touches s (changes.foldl (change d) s) := by
  induction changes generalizing s with
  | nil => exact ⟨.refl s,.of_dict rfl⟩
  | cons x xs ih =>
    obtain ⟨hm,ht⟩ := change_touches d s x
    obtain ⟨hm',ht'⟩ := ih (change d s x)
    exact ⟨hm.trans hm',ht.trans hm hm' ht'⟩

lemma signal_two (s : WatchServer n V) (a b : Fin (n+1) × Sds) (x y : Option V) :
    let u := { s with dict := (s.dict.set b.1 b.2 y).set a.1 a.2 x }
    let t := (u.signalModifiedKey a.1 a.2).signalModifiedKey b.1 b.2
    Marks s t ∧ Touches s t := by
  intro u t
  have h₀ : Marks s u := .of_clients rfl rfl rfl
  have h₁ : Marks s (u.signalModifiedKey a.1 a.2) := h₀.trans (.mark _ _)
  have h₂ : Marks (u.signalModifiedKey a.1 a.2) t := .mark _ _
  refine ⟨h₁.trans h₂,?_⟩
  intro c cl w hc _ hmem hne
  by_cases ha : w = a
  · subst ha
    obtain ⟨cl',hcl',hdirty⟩ := signal_dirty (s := u) hc hmem
    obtain ⟨b',hb'⟩ := h₂.client hcl'
    exact ⟨_,hb',by simp [hdirty]⟩
  by_cases hb : w = b
  · subst hb
    obtain ⟨b',hb'⟩ := h₁.client hc
    exact signal_dirty hb' (by rw [listed,h₁.watchedKeys]; exact hmem)
  · refine absurd ?_ hne
    rw [Prod.ext_iff] at ha hb
    exact (if_neg ha).trans (if_neg hb)

lemma rename_touches (src dst : Sds) (nx : Bool) (s : WatchServer n V) :
    Marks s (s.renameGenericCommand d src dst nx) ∧
      Touches s (s.renameGenericCommand d src dst nx) := by
  unfold renameGenericCommand
  split
  · exact ⟨.refl s,.of_dict rfl⟩
  split
  · exact ⟨.refl s,.of_dict rfl⟩
  split
  · exact ⟨.refl s,.of_dict rfl⟩
  exact signal_two s (d,src) (d,dst) _ _

lemma move_touches (key : Sds) (dbid : Nat) (s : WatchServer n V) :
    Marks s (s.moveCommand d key dbid) ∧ Touches s (s.moveCommand d key dbid) := by
  unfold moveCommand
  split
  · exact ⟨.refl s,.of_dict rfl⟩
  rename_i dst _
  split
  · exact ⟨.refl s,.of_dict rfl⟩
  split
  · exact ⟨.refl s,.of_dict rfl⟩
  split
  · exact ⟨.refl s,.of_dict rfl⟩
  exact signal_two s (d,key) (dst,key) _ _

end

lemma emptyDb_touches (dbid : Option (Fin (n+1))) (s : WatchServer n V) :
    Marks s (s.emptyDb dbid) ∧ Touches s (s.emptyDb dbid) := by
  have hm : Marks s (s.touchWatchedKeysOnFlush dbid) := .mark _ _
  refine ⟨hm.trans (.of_clients rfl rfl rfl),?_⟩
  intro c cl w hc hw _ hne
  -- the key is one that goes away, so it was there
  have hflush : (dbid.all (· = w.1) && (s.dict w.1 w.2).isSome) = true := by
    have hdict : s.dict = (s.touchWatchedKeysOnFlush dbid).dict := rfl
    simp only [emptyDb,← hdict] at hne
    cases dbid with
    | none =>
      simp only [Store.apply] at hne
      cases hs : s.dict w.1 w.2 with
      | none => exact absurd hs.symm hne
      | some v => rfl
    | some d =>
      simp only [Store.apply] at hne
      split at hne
      · rename_i hd
        cases hs : s.dict w.1 w.2 with
        | none => exact absurd hs.symm hne
        | some v => simp [hd]
      · exact absurd rfl hne
  refine ⟨{ cl with dirtyCas := true },?_,rfl⟩
  have hany : cl.watchedKeys.any (fun w => dbid.all (· = w.1) && (s.dict w.1 w.2).isSome) = true :=
    any_eq_true.mpr ⟨w,hw,hflush⟩
  simp only [emptyDb,touchWatchedKeysOnFlush,mark,hc,map_some,hany,Bool.or_true]

/-- A command that forgets to touch the keys it changes finds no client that watches one of
them: SWAPDB exchanges only equal values of the keys that are watched in either database. -/
def overlooksNone (s : WatchServer n V) (d : Fin (n+1)) : KeyspaceCommand V → Prop
  | .silent key val => s.watchedKeys (d,key) = none ∨ s.dict d key = some val
  | .swapdb id1 id2 => ∀ i j, dbOf n id1 = some i → dbOf n id2 = some j → ∀ key,
      s.watchedKeys (i,key) ≠ none ∨ s.watchedKeys (j,key) ≠ none → s.dict i key = s.dict j key
  | _ => True

lemma keyspaceCall_marks (d : Fin (n+1)) (q : KeyspaceCommand V) (s : WatchServer n V) :
    Marks s (s.keyspaceCall d q) := by
  cases q with
  | write changes => exact (write_touches d changes s).1
  | silent key val => exact .of_clients rfl rfl rfl
  | rename src dst nx => exact (rename_touches d src dst nx s).1
  | move key dbid => exact (move_touches d key dbid s).1
  | flushdb => exact (emptyDb_touches (some d) s).1
  | flushall => exact (emptyDb_touches none s).1
  | swapdb id1 id2 =>
    simp only [keyspaceCall,dbSwapDatabases]
    split
    · exact .of_clients rfl rfl rfl
    · exact .refl s

lemma keyspaceCall_touches {q : KeyspaceCommand V} (h : s.overlooksNone d q) :
    Touches s (s.keyspaceCall d q) := by
  cases q with
  | write changes => exact (write_touches d changes s).2
  | rename src dst nx => exact (rename_touches d src dst nx s).2
  | move key dbid => exact (move_touches d key dbid s).2
  | flushdb => exact (emptyDb_touches (some d) s).2
  | flushall => exact (emptyDb_touches none s).2
  | silent key val =>
    intro c cl w _ _ hmem hne
    by_cases hw : w.1 = d ∧ w.2 = key
    · obtain ⟨rfl,rfl⟩ := hw
      rcases h with h | h
      · rw [listed,h] at hmem
        cases hmem
      · exact absurd (by simp [keyspaceCall,Store.set,h]) hne
    · exact absurd (if_neg hw) hne
  | swapdb id1 id2 =>
    simp only [keyspaceCall,dbSwapDatabases]
    split
    · rename_i i j hi hj
      intro c cl w _ _ hmem hne
      have hwatched : s.watchedKeys (w.1,w.2) ≠ none := by
        rintro hnone
        rw [listed,hnone] at hmem
        cases hmem
      refine absurd ?_ hne
      simp only [Store.apply]
      split
      · rename_i hwj
        rw [hwj] at hwatched ⊢
        exact h i j hi hj w.2 (.inr hwatched)
      split
      · rename_i hwi
        rw [hwi] at hwatched ⊢
        exact (h i j hi hj w.2 (.inl hwatched)).symm
      · rfl
    · exact .of_dict rfl

/-! The commands on the client itself. -/

/-- Both sides tell the same, each watch is there once, and no list that is stored is empty. -/
structure Agree (watched : Fin (n+1) × Sds → Option (List ClientId))
    (keys : ClientId → List (Fin (n+1) × Sds)) : Prop where
  agree : ∀ c w, w ∈ keys c ↔ c ∈ (watched w).getD []
  keys : ∀ c, (keys c).Nodup
  lists : ∀ w, ((watched w).getD []).Nodup
  filled : ∀ w, watched w ≠ some []

section
variable {watched : Fin (n+1) × Sds → Option (List ClientId)}
  {keys : ClientId → List (Fin (n+1) × Sds)} (h : Agree watched keys)
include h

lemma Agree.edit {o : Option (List ClientId)} {ws : List (Fin (n+1) × Sds)} (hws : ws.Nodup)
    (ho : (o.getD []).Nodup) (hne : o ≠ some []) (hc : w ∈ ws ↔ c ∈ o.getD [])
    (hw : ∀ w' ≠ w, w' ∈ ws ↔ w' ∈ keys c)
    (hx : ∀ x ≠ c, x ∈ o.getD [] ↔ x ∈ (watched w).getD []) :
    Agree (update watched w o) (update keys c ws) := by
  refine ⟨fun x w' => ?_,fun x => ?_,fun w' => ?_,fun w' => ?_⟩
  · have ha := h.agree x w'
    by_cases hxc : x = c <;> by_cases hww : w' = w <;> simp_all
  · by_cases hxc : x = c <;> simp [hxc,hws,h.keys]
  · by_cases hww : w' = w <;> simp [hww,ho,h.lists]
  · by_cases hww : w' = w <;> simp [hww,hne,h.filled]

lemma Agree.watch (hw : w ∉ keys c) : Agree
    (update watched w (some ((watched w).getD [] ++ [c])))
    (update keys c (keys c ++ [w])) := by
  have hc : c ∉ (watched w).getD [] := (h.agree c w).not.mp hw
  refine h.edit ?_ ?_ (by simp) (by simp) ?_ ?_
  · exact (h.keys c).append (by simp) (by simpa using hw)
  · exact (h.lists w).append (by simp) (by simpa using hc)
  · intro w' hw'
    simp [hw']
  intro x hx
  simp [hx]

lemma Agree.unwatchKeys {ws : List (Fin (n+1) × Sds)} (hws : keys c = ws) :
    ∃ watched', unwatchKeys c ws watched = .ok watched' ∧
      Agree watched' (update keys c []) := by
  induction ws generalizing watched keys with
  | nil => exact ⟨watched,rfl,by rwa [← hws,update_eq_self]⟩
  | cons w ws ih =>
    have hc : c ∈ (watched w).getD [] := (h.agree c w).mp (by simp [hws])
    obtain ⟨hnot,hrest⟩ := nodup_cons.mp (hws ▸ h.keys c)
    have hnd := h.lists w
    rw [WatchServer.unwatchKeys]
    cases hl : watched w with
    | none => simp [hl] at hc
    | some l =>
      rw [hl] at hc hnd
      rw [getD_some] at hc hnd
      have ho : (if l.erase c = [] then none else some (l.erase c)).getD [] = l.erase c := by
        split <;> simp [*]
      have hcut := h.edit (c := c) (w := w) hrest (by rw [ho]; exact hnd.erase c)
        (by split <;> simp [*]) (by rw [ho,hnd.mem_erase_iff]; simp [hnot])
        (fun w' hw' => by simp [hws,hw'])
        (fun x hx => by rw [ho,hl,hnd.mem_erase_iff]; simp [hx])
      obtain ⟨watched',hw',ha⟩ := ih hcut (update_self _ _ _)
      exact ⟨watched',by rw [← hw']; exact if_pos hc,by simpa using ha⟩

end

def keysOf (s : WatchServer n V) (c : ClientId) : List (Fin (n+1) × Sds) :=
  (s.clients c).elim [] (·.watchedKeys)

def Booked (s : WatchServer n V) : Prop := Agree s.watchedKeys s.keysOf

lemma keysOf_some (hc : s.clients c = some cl) : s.keysOf c = cl.watchedKeys := by
  simp [keysOf,hc]

lemma keysOf_setClient (s : WatchServer n V) (c : ClientId) (cl : WatchClient n V) :
    (s.setClient c cl).keysOf = update s.keysOf c cl.watchedKeys := by
  funext x
  by_cases hx : x = c <;> simp [keysOf,setClient,hx]

lemma Booked.congr (h : s.Booked) (hk : t.keysOf = s.keysOf)
    (hw : t.watchedKeys = s.watchedKeys) : t.Booked := by
  rw [Booked,hk,hw]
  exact h

structure Own (c : ClientId) (s t : WatchServer n V) : Prop where
  dict : t.dict = s.dict
  clients : ∀ x, x ≠ c → t.clients x = s.clients x
  booked : s.Booked → t.Booked

namespace Own

lemma refl (c : ClientId) (s : WatchServer n V) : Own c s s := ⟨rfl,fun _ _ => rfl,id⟩

lemma trans (h : Own c s t) (h' : Own c t u) : Own c s u where
  dict := h'.dict.trans h.dict
  clients x hx := (h'.clients x hx).trans (h.clients x hx)
  booked hb := h'.booked (h.booked hb)

lemma setClient {cl cl' : WatchClient n V} (hc : s.clients c = some cl)
    (hw : cl'.watchedKeys = cl.watchedKeys) : Own c s (s.setClient c cl') where
  dict := rfl
  clients x hx := update_of_ne hx _ _
  booked hb := by
    refine hb.congr ?_ rfl
    rw [keysOf_setClient,hw,← keysOf_some hc,update_eq_self]

lemma watchForKey (c : ClientId) (s : WatchServer n V) (key : Sds) :
    Own c s (watchForKey c s key) := by
  unfold WatchServer.watchForKey
  split
  · exact .refl c s
  rename_i cl hc
  split
  · exact .refl c s
  rename_i hno
  refine ⟨rfl,fun x hx => update_of_ne hx _ _,fun hb => ?_⟩
  rw [← keysOf_some hc] at hno
  have hk := s.keysOf_setClient c { cl with watchedKeys := cl.watchedKeys ++ [(cl.db,key)] }
  exact (congrArg (Agree _) hk).mpr (keysOf_some hc ▸ hb.watch hno)

lemma watchAll (c : ClientId) (keys : List Sds) (s : WatchServer n V) :
    Own c s (keys.foldl (WatchServer.watchForKey c) s) := by
  induction keys generalizing s with
  | nil => exact .refl c s
  | cons key keys ih => exact (watchForKey c s key).trans (ih _)

lemma clearDirtyCas (c : ClientId) (s : WatchServer n V) : Own c s (s.clearDirtyCas c) where
  dict := rfl
  clients x hx := update_of_ne hx _ _
  booked hb := by
    refine hb.congr (funext fun x => ?_) rfl
    by_cases hx : x = c
    · subst hx
      cases hc : s.clients x <;> simp [keysOf,WatchServer.clearDirtyCas,hc]
    · simp [keysOf,WatchServer.clearDirtyCas,hx]

end Own

lemma watchForKey_executing (c : ClientId) (s : WatchServer n V) (key : Sds) :
    (watchForKey c s key).executing = s.executing := by
  unfold watchForKey
  split
  · rfl
  split
  · rfl
  · rfl

lemma watchAll_executing (c : ClientId) (keys : List Sds) (s : WatchServer n V) :
    (keys.foldl (watchForKey c) s).executing = s.executing := by
  induction keys generalizing s with
  | nil => rfl
  | cons key keys ih => rw [foldl_cons,ih,watchForKey_executing]

lemma unwatchAllKeys_own (h : s.unwatchAllKeys c = .ok t) :
    Own c s t ∧ t.executing = s.executing := by
  unfold unwatchAllKeys at h
  split at h
  · cases h
    exact ⟨.refl c _,rfl⟩
  rename_i cl hc
  obtain ⟨w,hw,hr⟩ := bind_ok.mp h
  cases hr
  refine ⟨⟨rfl,fun x hx => update_of_ne hx _ _,fun hb => ?_⟩,rfl⟩
  obtain ⟨w',hw',ha⟩ := hb.unwatchKeys (keysOf_some hc)
  cases hw.symm.trans hw'
  exact (congrArg (Agree _) (s.keysOf_setClient c _)).mpr ha

lemma unwatchAllKeys_keys (h : s.unwatchAllKeys c = .ok t) : t.keysOf c = [] := by
  unfold unwatchAllKeys at h
  split at h
  · rename_i hc
    cases h
    simp [keysOf,hc]
  obtain ⟨w,_,hr⟩ := bind_ok.mp h
  cases hr
  simp [keysOf,setClient]

lemma unwatchAllKeys_ok (hb : s.Booked) (c : ClientId) : ∃ t, s.unwatchAllKeys c = .ok t := by
  unfold unwatchAllKeys
  split
  · exact ⟨s,rfl⟩
  rename_i cl hc
  obtain ⟨w,hw,_⟩ := hb.unwatchKeys (keysOf_some hc)
  exact ⟨_,by rw [hw]; rfl⟩

lemma discard_own (hc : s.clients c = some cl) (h : s.discardTransaction c cl = .ok t)
    : Own c s t ∧ t.executing = s.executing := by
  obtain ⟨ho,he⟩ := unwatchAllKeys_own h
  have hset : Own c s (s.setClient c { cl with
      mstate := [], multi := false, dirtyCas := false, dirtyExec := false }) := .setClient hc rfl
  exact ⟨hset.trans ho,he⟩

def actor (s : WatchServer n V) : WatchAct V → Option ClientId
  | .accept c | .freeClient c | .command c _ => some c
  | .execNext => s.executing.map Prod.fst

def runs (s : WatchServer n V) : WatchAct V → Option (ClientId × KeyspaceCommand V)
  | .command c (.keyspace b) => (s.clients c).bind fun cl => if cl.multi then none else some (c,b)
  | .execNext =>
    match s.executing with
    | some (c,.keyspace b :: _) => some (c,b)
    | _ => none
  | _ => none

/-- What a step can do: a client does something to itself, or runs a command on the keyspace.
Only the client of the step can be inside EXEC after it. -/
structure Move (s t : WatchServer n V) (a : WatchAct V) (c : ClientId) : Prop where
  actor : s.actor a = some c
  executing : ∀ x qs, t.executing = some (x,qs) → x = c
  effect : Own c s t ∨ ∃ cl b, s.runs a = some (c,b) ∧ s.clients c = some cl ∧
    t = { s.keyspaceCall cl.db b with executing := t.executing }

lemma call_own (hc : s.clients c = some cl) (h : s.call c cl q = .ok t)
    (hq : ∀ b, q ≠ .keyspace b) :
    Own c s t ∧ (t.executing = s.executing ∨ ∃ qs, t.executing = some (c,qs)) := by
  cases q with
  | select dbid =>
    simp only [call] at h
    split at h
    · cases h
      exact ⟨.setClient hc rfl,.inl rfl⟩
    cases h
    exact ⟨.refl c _,.inl rfl⟩
  | watch keys =>
    simp only [call] at h
    split at h
    · cases h
      exact ⟨.refl c _,.inl rfl⟩
    cases h
    exact ⟨.watchAll c keys s,.inl (watchAll_executing c keys s)⟩
  | unwatch =>
    obtain ⟨u,hu,hr⟩ := bind_ok.mp h
    cases hr
    obtain ⟨ho,he⟩ := unwatchAllKeys_own hu
    exact ⟨ho.trans (.clearDirtyCas c u),.inl he⟩
  | multi =>
    simp only [call] at h
    cases h
    split
    · exact ⟨.refl c _,.inl rfl⟩
    · exact ⟨.setClient hc rfl,.inl rfl⟩
  | discard =>
    simp only [call] at h
    split at h
    · obtain ⟨ho,he⟩ := discard_own hc h
      exact ⟨ho,.inl he⟩
    cases h
    exact ⟨.refl c _,.inl rfl⟩
  | exec =>
    simp only [call,execCommand] at h
    split at h
    · cases h
      exact ⟨.refl c _,.inl rfl⟩
    split at h
    · obtain ⟨ho,he⟩ := discard_own hc h
      exact ⟨ho,.inl he⟩
    obtain ⟨u,hu,hr⟩ := bind_ok.mp h
    cases hr
    obtain ⟨ho,_⟩ := unwatchAllKeys_own hu
    exact ⟨⟨ho.dict,ho.clients,ho.booked⟩,.inr ⟨_,rfl⟩⟩
  | keyspace b => exact absurd rfl (hq b)
  | refused flags =>
    cases h
    exact ⟨.refl c _,.inl rfl⟩

lemma call_move (hc : s.clients c = some cl) (h : s.call c cl q = .ok t) :
    (Own c s t ∨ ∃ b, q = .keyspace b ∧ t = s.keyspaceCall cl.db b) ∧
      (t.executing = s.executing ∨ ∃ qs, t.executing = some (c,qs)) := by
  by_cases hq : ∃ b, q = .keyspace b
  · obtain ⟨b,rfl⟩ := hq
    cases h
    exact ⟨.inr ⟨b,rfl,rfl⟩,.inl (keyspaceCall_marks cl.db b s).executing⟩
  obtain ⟨ho,he⟩ := call_own hc h (not_exists.mp hq)
  exact ⟨.inl ho,he⟩

lemma processCommand_move (hc : s.clients c = some cl) (h : s.processCommand c cl q = .ok t) :
    (Own c s t ∨ ∃ b, s.runs (.command c q) = some (c,b) ∧ t = s.keyspaceCall cl.db b) ∧
      (t.executing = s.executing ∨ ∃ qs, t.executing = some (c,qs)) := by
  unfold processCommand at h
  split at h
  · cases h
    exact ⟨.inl (.setClient hc rfl),.inl rfl⟩
  split at h
  · cases h
    exact ⟨.inl (.setClient hc rfl),.inl rfl⟩
  rename_i hnow
  obtain ⟨heff,he⟩ := call_move hc h
  refine ⟨heff.imp_right ?_,he⟩
  rintro ⟨b,rfl,rfl⟩
  refine ⟨b,?_,rfl⟩
  have hm : cl.multi = false := by simpa [WatchCommand.immediate] using hnow
  simp [runs,hc,hm]

lemma step_move (h : s.step a = some (.ok t)) : ∃ c, Move s t a c := by
  cases a with
  | accept c =>
    rw [step,enabled_ok_iff] at h
    obtain ⟨⟨he,hn⟩,rfl⟩ := h
    rw [isNone_iff_eq_none] at he hn
    refine ⟨c,rfl,?_,.inl ⟨rfl,fun x hx => update_of_ne hx _ _,fun hb => hb.congr ?_ rfl⟩⟩
    · intro x qs hx
      simp [setClient,he] at hx
    rw [keysOf_setClient,update_eq_self_iff]
    simp [keysOf,hn]
  | freeClient c =>
    rw [step,enabled_iff] at h
    obtain ⟨he,h⟩ := h
    rw [isNone_iff_eq_none] at he
    obtain ⟨u,hu,rfl⟩ := map_ok.mp h
    obtain ⟨ho,hex⟩ := unwatchAllKeys_own hu
    refine ⟨c,rfl,?_,.inl ⟨ho.dict,fun x hx => ?_,fun hb => (ho.booked hb).congr ?_ rfl⟩⟩
    · intro x qs hx
      simp [hex,he] at hx
    · rw [← ho.clients x hx]
      exact update_of_ne hx _ _
    funext x
    by_cases hx : x = c
    · subst hx
      rw [unwatchAllKeys_keys hu]
      simp [keysOf]
    · simp [keysOf,hx]
  | command c q =>
    rw [step,ite_none_right_eq_some] at h
    obtain ⟨he,h⟩ := h
    rw [isNone_iff_eq_none] at he
    obtain ⟨cl,hc,h⟩ := map_eq_some_iff.mp h
    obtain ⟨heff,hex⟩ := processCommand_move hc h
    refine ⟨c,rfl,?_,?_⟩
    · intro x qs hx
      rcases hex with hex | ⟨qs',hex⟩
      · rw [hex,he] at hx
        cases hx
      rw [hex] at hx
      cases hx
      rfl
    · refine heff.imp_right ?_
      rintro ⟨b,hb,rfl⟩
      exact ⟨cl,b,hb,hc,rfl⟩
  | execNext =>
    rw [step] at h
    split at h
    · cases h
    rename_i c qs hex
    obtain ⟨cl,hc,h⟩ := map_eq_some_iff.mp h
    have hactor : s.actor .execNext = some c := by
      rw [actor,hex]
      rfl
    cases qs with
    | nil =>
      obtain ⟨u,hu,rfl⟩ := map_ok.mp h
      obtain ⟨ho,_⟩ := discard_own hc hu
      refine ⟨c,hactor,?_,.inl ⟨ho.dict,ho.clients,ho.booked⟩⟩
      intro x qs hx
      cases hx
    | cons q qs =>
      obtain ⟨u,hu,rfl⟩ := map_ok.mp h
      obtain ⟨heff,_⟩ := call_move hc hu
      refine ⟨c,hactor,?_,?_⟩
      · intro x qs' hx
        cases hx
        rfl
      rcases heff with ho | ⟨b,rfl,rfl⟩
      · exact .inl ⟨ho.dict,ho.clients,ho.booked⟩
      · exact .inr ⟨cl,b,by rw [runs,hex],hc,rfl⟩

lemma Marks.booked (h : Marks s t) (hb : s.Booked) : t.Booked := by
  obtain ⟨m,hm⟩ := h.clients
  refine hb.congr (funext fun c => ?_) h.watchedKeys
  cases hc : s.clients c <;> simp [keysOf,hm,WatchServer.mark,hc]

lemma step_booked (hb : s.Booked) (h : s.step a = some (.ok t)) : t.Booked := by
  obtain ⟨c,hmove⟩ := step_move h
  rcases hmove.effect with ho | ⟨cl,b,_,_,ht⟩
  · exact ho.booked hb
  have hkey := (keyspaceCall_marks cl.db b s).booked hb
  rw [ht]
  exact hkey

lemma init_booked : (watchServer n V).init.Booked := by
  constructor <;> simp [watchServer,keysOf]

lemma reachable_booked (h : (watchServer n V).Reachable s) : s.Booked :=
  (watchServer n V).invariant init_booked (fun _ _ _ hb hst => step_booked hb hst) h

/-! The lookups of `unwatchAllKeys` find what they look for. -/

section
variable (hb : s.Booked)
include hb

lemma discard_ok (hc : s.clients c = some cl) : ∃ t, s.discardTransaction c cl = .ok t := by
  refine unwatchAllKeys_ok (Own.booked (c := c) ?_ hb) c
  exact .setClient hc rfl

lemma call_ok (hc : s.clients c = some cl) (q : WatchCommand V) : ∃ t, s.call c cl q = .ok t := by
  obtain ⟨u,hu⟩ := unwatchAllKeys_ok hb c
  have hd := discard_ok hb hc
  cases q with
  | select dbid | watch keys =>
    simp only [call]
    split <;> exact ⟨_,rfl⟩
  | unwatch => exact ⟨_,by rw [call,hu]; rfl⟩
  | discard =>
    simp only [call]
    split
    · exact hd
    · exact ⟨_,rfl⟩
  | exec =>
    simp only [call,execCommand,hu]
    split
    · exact ⟨_,rfl⟩
    split
    · exact hd
    · exact ⟨_,rfl⟩
  | multi | keyspace b | refused flags => exact ⟨_,rfl⟩

lemma processCommand_ok (hc : s.clients c = some cl) (q : WatchCommand V) :
    ∃ t, s.processCommand c cl q = .ok t := by
  unfold processCommand
  split
  · exact ⟨_,rfl⟩
  split
  · exact ⟨_,rfl⟩
  · exact call_ok hb hc _

lemma step_ok {r : Except WatchFault (WatchServer n V)} (h : s.step a = some r) :
    ∃ t, r = .ok t := by
  cases a with
  | accept c => exact ⟨_,(enabled_iff.mp h).2.symm⟩
  | freeClient c =>
    obtain ⟨u,hu⟩ := unwatchAllKeys_ok hb c
    exact ⟨_,by rw [← (enabled_iff.mp h).2,hu]; rfl⟩
  | command c q =>
    obtain ⟨cl,hc,rfl⟩ := map_eq_some_iff.mp (ite_none_right_eq_some.mp h).2
    exact processCommand_ok hb hc q
  | execNext =>
    rw [step] at h
    split at h
    · cases h
    rename_i c qs _
    obtain ⟨cl,hc,rfl⟩ := map_eq_some_iff.mp h
    cases qs with
    | nil =>
      obtain ⟨u,hu⟩ := discard_ok hb hc
      exact ⟨_,map_ok.mpr ⟨u,hu,rfl⟩⟩
    | cons q qs =>
      obtain ⟨u,hu⟩ := call_ok hb hc q
      exact ⟨_,map_ok.mpr ⟨u,hu,rfl⟩⟩

end

theorem run_keeps_books {as : List (WatchAct V)} {r : Except WatchFault (WatchServer n V)}
    (h : (watchServer n V).run as = some r) : ∃ s, r = .ok s ∧ s.Booked := by
  refine (watchServer n V).guarded_run_ok (C := fun _ _ => True) ?_ as init_booked
    ((watchServer n V).guarded_trivial _ as) h
  intro s a r hb _ hst
  obtain ⟨t,rfl⟩ := step_ok hb hst
  exact ⟨t,rfl,step_booked hb hst⟩

/-! A client between its WATCH and its EXEC. -/

def inMulti (s : WatchServer n V) (c : ClientId) : Bool := (s.clients c).any (·.multi)

/-- The steps by which client `c` gives up what it watches. An UNWATCH inside MULTI is queued,
DISCARD and EXEC outside of it are errors. -/
def releases (c : ClientId) (s : WatchServer n V) : WatchAct V → Prop
  | .freeClient x => x = c
  | .command x .unwatch => x = c ∧ s.inMulti c = false
  | .command x .discard | .command x .exec => x = c ∧ s.inMulti c = true
  | _ => False

def Keeps (c : ClientId) (s t : WatchServer n V) : Prop :=
  ∀ cl, s.clients c = some cl → ∃ cl', t.clients c = some cl' ∧
    cl.watchedKeys ⊆ cl'.watchedKeys ∧ (cl.dirtyCas = true → cl'.dirtyCas = true)

namespace Keeps

lemma of_client (h : t.clients c = s.clients c) : Keeps c s t := by
  intro cl hc
  exact ⟨cl,h.trans hc,Subset.refl _,id⟩

lemma setClient {cl cl' : WatchClient n V} (hc : s.clients c = some cl)
    (hw : cl'.watchedKeys = cl.watchedKeys) (hd : cl'.dirtyCas = cl.dirtyCas) :
    Keeps c s (s.setClient c cl') := by
  intro cl₂ hcl₂
  cases hc.symm.trans hcl₂
  refine ⟨cl',update_self _ _ _,?_,?_⟩
  · rw [hw]
    exact Subset.refl _
  intro h
  rw [hd]
  exact h

lemma of_marks (h : Marks s t) : Keeps c s t := by
  intro cl hc
  obtain ⟨b,hb⟩ := h.client hc
  refine ⟨_,hb,Subset.refl _,?_⟩
  intro hd
  simp [hd]

end Keeps

section
variable (hc : s.clients c = some cl)
include hc

lemma watchForKey_client (key : Sds) :
    ∃ ws, (watchForKey c s key).clients c = some { cl with watchedKeys := ws } ∧
      cl.watchedKeys ⊆ ws ∧ (cl.db,key) ∈ ws := by
  simp only [watchForKey,hc]
  split
  · rename_i hmem
    exact ⟨cl.watchedKeys,hc,Subset.refl _,hmem⟩
  exact ⟨cl.watchedKeys ++ [(cl.db,key)],update_self _ _ _,subset_append_left _ _,by simp⟩

lemma watchAll_client (keys : List Sds) :
    ∃ ws, (keys.foldl (watchForKey c) s).clients c = some { cl with watchedKeys := ws } ∧
      cl.watchedKeys ⊆ ws ∧ ∀ key ∈ keys, (cl.db,key) ∈ ws := by
  induction keys generalizing s cl with
  | nil => exact ⟨cl.watchedKeys,hc,Subset.refl _,by simp⟩
  | cons key keys ih =>
    obtain ⟨ws,hws,hsub,hmem⟩ := watchForKey_client hc key
    obtain ⟨ws',hws',hsub',hmem'⟩ := ih hws
    refine ⟨ws',hws',Subset.trans hsub hsub',?_⟩
    intro k hk
    rcases mem_cons.mp hk with rfl | hk
    · exact hsub' hmem
    · exact hmem' k hk

lemma unwatchAllKeys_client (h : s.unwatchAllKeys c = .ok t) :
    t.clients c = some { cl with watchedKeys := [] } := by
  simp only [unwatchAllKeys,hc] at h
  obtain ⟨w,_,hr⟩ := bind_ok.mp h
  cases hr
  exact update_self _ _ _

lemma call_keeps (h : s.call c cl q = .ok t)
    (hq : ¬s.releases c (.command c q)) (hnow : cl.multi = true → q.immediate = true) :
    Keeps c s t ∧ t.executing = s.executing := by
  have hmulti : s.inMulti c = cl.multi := by simp [inMulti,hc]
  cases q with
  | select dbid =>
    simp only [call] at h
    split at h
    · cases h
      exact ⟨.setClient hc rfl rfl,rfl⟩
    cases h
    exact ⟨.of_client rfl,rfl⟩
  | watch keys =>
    simp only [call] at h
    split at h
    · cases h
      exact ⟨.of_client rfl,rfl⟩
    cases h
    refine ⟨?_,watchAll_executing c keys s⟩
    intro cl₂ hcl₂
    obtain ⟨ws,hws,hsub,_⟩ := watchAll_client hcl₂ keys
    exact ⟨_,hws,hsub,id⟩
  | unwatch =>
    cases hm : cl.multi with
    | true => cases hnow hm
    | false => exact absurd ⟨rfl,hmulti.trans hm⟩ hq
  | multi =>
    simp only [call] at h
    cases h
    split
    · exact ⟨.of_client rfl,rfl⟩
    · exact ⟨.setClient hc rfl rfl,rfl⟩
  | discard =>
    simp only [call] at h
    split at h
    · rename_i hm
      exact absurd ⟨rfl,hmulti.trans hm⟩ hq
    cases h
    exact ⟨.of_client rfl,rfl⟩
  | exec =>
    simp only [call,execCommand] at h
    split at h
    · cases h
      exact ⟨.of_client rfl,rfl⟩
    rename_i hm
    rw [Bool.not_eq_true',Bool.not_eq_false] at hm
    exact absurd ⟨rfl,hmulti.trans hm⟩ hq
  | keyspace b =>
    cases h
    have hm := keyspaceCall_marks cl.db b s
    exact ⟨.of_marks hm,hm.executing⟩
  | refused flags =>
    cases h
    exact ⟨.of_client rfl,rfl⟩

lemma processCommand_keeps (h : s.processCommand c cl q = .ok t)
    (hq : ¬s.releases c (.command c q)) : Keeps c s t ∧ t.executing = s.executing := by
  unfold processCommand at h
  split at h
  · cases h
    exact ⟨.setClient hc rfl rfl,rfl⟩
  split at h
  · cases h
    exact ⟨.setClient hc rfl rfl,rfl⟩
  rename_i hnow
  refine call_keeps hc h hq fun hm => ?_
  simpa [hm] using hnow

end

structure Watching (c : ClientId) (w : Fin (n+1) × Sds) (dirty : Bool)
    (s : WatchServer n V) : Prop where
  client : ∃ cl, s.clients c = some cl ∧ w ∈ cl.watchedKeys ∧ (dirty = true → cl.dirtyCas = true)
  idle : ∀ qs, s.executing ≠ some (c,qs)

lemma Watching.of_keeps (h : Watching c w dirty s) (hk : Keeps c s t)
    (hi : ∀ qs, t.executing ≠ some (c,qs)) : Watching c w dirty t := by
  obtain ⟨cl,hc,hmem,hd⟩ := h.client
  obtain ⟨cl',hc',hsub,hd'⟩ := hk cl hc
  exact ⟨⟨cl',hc',hsub hmem,fun hdirty => hd' (hd hdirty)⟩,hi⟩

lemma Move.keeps_other (h : Move s t a c') (hne : c' ≠ c) : Keeps c s t := by
  rcases h.effect with ho | ⟨cl,b,_,_,ht⟩
  · exact .of_client (ho.clients c hne.symm)
  have hk : Keeps c s (s.keyspaceCall cl.db b) := .of_marks (keyspaceCall_marks cl.db b s)
  rw [ht]
  exact hk

lemma Move.idle_other (h : Move s t a c') (hne : c' ≠ c) : ∀ qs, t.executing ≠ some (c,qs) := by
  intro qs hex
  exact hne (h.executing c qs hex).symm

lemma step_watching (h : Watching c w dirty s) (hr : ¬s.releases c a)
    (hst : s.step a = some (.ok t)) : Watching c w dirty t := by
  obtain ⟨c',hmove⟩ := step_move hst
  by_cases hne : c' = c
  · subst hne
    obtain ⟨cl,hc,_,_⟩ := h.client
    have hactor := hmove.actor
    cases a with
    | accept x =>
      cases hactor
      simp [step,hc] at hst
    | freeClient x =>
      cases hactor
      exact absurd rfl hr
    | command x q =>
      cases hactor
      rw [step,ite_none_right_eq_some,hc] at hst
      obtain ⟨_,hst⟩ := hst
      cases hst' : s.processCommand c' cl q with
      | error e => simp [hst'] at hst
      | ok u =>
        simp only [hst',map_some,some.injEq,Except.ok.injEq] at hst
        subst hst
        obtain ⟨hk,he⟩ := processCommand_keeps hc hst' hr
        refine h.of_keeps hk ?_
        rw [he]
        exact h.idle
    | execNext =>
      obtain ⟨x,hx,rfl⟩ := map_eq_some_iff.mp hactor
      exact absurd hx (h.idle x.2)
  · exact h.of_keeps (hmove.keeps_other hne) (hmove.idle_other hne)

def noneOverlooked (s : WatchServer n V) (a : WatchAct V) : Prop :=
  ∀ x cl b, s.runs a = some (x,b) → s.clients x = some cl → s.overlooksNone cl.db b

lemma step_dirty (h : Watching c w false s) (hb : s.Booked) (hactor : s.actor a = some c')
    (hne : c' ≠ c) (hseen : s.noneOverlooked a) (hst : s.step a = some (.ok t))
    (hchange : t.dict w.1 w.2 ≠ s.dict w.1 w.2) : Watching c w true t := by
  obtain ⟨x,hmove⟩ := step_move hst
  cases hactor.symm.trans hmove.actor
  obtain ⟨cl,hc,hmem,_⟩ := h.client
  obtain ⟨cl',hc',hsub,_⟩ := hmove.keeps_other hne cl hc
  refine ⟨⟨cl',hc',hsub hmem,fun _ => ?_⟩,hmove.idle_other hne⟩
  rcases hmove.effect with ho | ⟨cl₁,b,hruns,hc₁,ht⟩
  · rw [ho.dict] at hchange
    exact absurd rfl hchange
  rw [ht] at hchange hc'
  obtain ⟨cl₂,hc₂,hd⟩ := keyspaceCall_touches (hseen c' cl₁ b hruns hc₁) c cl w hc hmem
    ((hb.agree c w).mp (keysOf_some hc ▸ hmem)) hchange
  cases hc₂.symm.trans hc'
  exact hd

structure RanNothing (c : ClientId) (s t : WatchServer n V) : Prop where
  dict : t.dict = s.dict
  executing : t.executing = none
  queue : s.inMulti c = true → ∃ cl, t.clients c = some cl ∧ cl.mstate = [] ∧ cl.multi = false

lemma exec_dirty (he : s.executing = none) (hc : s.clients c = some cl) (hd : cl.dirtyCas = true)
    (h : s.execCommand c cl = .ok t) : RanNothing c s t := by
  simp only [execCommand,hd,Bool.true_or,if_true] at h
  split at h
  · rename_i hm
    cases h
    refine ⟨rfl,he,?_⟩
    intro hin
    simp only [Bool.not_eq_true'] at hm
    simp [inMulti,hc,hm] at hin
  obtain ⟨ho,hex⟩ := discard_own hc h
  refine ⟨ho.dict,hex.trans he,fun _ => ?_⟩
  exact ⟨_,unwatchAllKeys_client (update_self _ _ _) h,rfl,rfl⟩

lemma step_exec (h : Watching c w true s) (hst : s.step (.command c .exec) = some (.ok t)) :
    RanNothing c s t := by
  obtain ⟨cl,hc,_,hd⟩ := h.client
  rw [step,ite_none_right_eq_some,hc] at hst
  obtain ⟨he,hst⟩ := hst
  simp only [map_some,some.injEq,processCommand,WatchCommand.immediate,
    Bool.not_true,Bool.and_false,call] at hst
  exact exec_dirty (isNone_iff_eq_none.mp he) hc (hd rfl) hst

lemma step_watch {keys : List Sds} (hc : s.clients c = some cl) (hm : cl.multi = false)
    (hkey : key ∈ keys) (hst : s.step (.command c (.watch keys)) = some (.ok t)) :
    Watching c (cl.db,key) false t := by
  rw [step,ite_none_right_eq_some,hc] at hst
  obtain ⟨he,hst⟩ := hst
  simp only [map_some,processCommand,hm,Bool.false_and,call,
    Bool.false_eq_true,if_false,some.injEq,Except.ok.injEq] at hst
  subst hst
  obtain ⟨ws,hws,_,hmem⟩ := watchAll_client hc keys
  refine ⟨⟨_,hws,hmem key hkey,fun hf => (Bool.false_ne_true hf).elim⟩,?_⟩
  intro qs hex
  rw [watchAll_executing,isNone_iff_eq_none.mp he] at hex
  cases hex

/-- Client `c` runs WATCH on `key` in database `d` and keeps it to its EXEC from `t` to `t'`.
In between the step `a` of another client leads from `s` to `s'` and changes the key. -/
structure WatchedExec (c : ClientId) (d : Fin (n+1)) (key : Sds) (a : WatchAct V)
    (s s' t t' : WatchServer n V) : Prop where
  watch : ∃ s₀ s₁ cl keys bs, (watchServer n V).Reachable s₀ ∧ s₀.clients c = some cl ∧
    cl.multi = false ∧ cl.db = d ∧ key ∈ keys ∧
    s₀.step (.command c (.watch keys)) = some (.ok s₁) ∧
    (watchServer n V).runFrom s₁ bs = some (.ok s) ∧
    (watchServer n V).Guarded (fun s b => ¬s.releases c b) s₁ bs
  other : ∃ c', s.actor a = some c' ∧ c' ≠ c
  step : s.step a = some (.ok s')
  changed : s'.dict d key ≠ s.dict d key
  rest : ∃ bs, (watchServer n V).runFrom s' bs = some (.ok t) ∧
    (watchServer n V).Guarded (fun s b => ¬s.releases c b) s' bs
  exec : t.step (.command c .exec) = some (.ok t')

lemma WatchedExec.of_run (c c' : ClientId) (d : Fin (n+1)) (key : Sds) (keys : List Sds)
    (as bs : List (WatchAct V)) (a : WatchAct V) (bs' : List (WatchAct V)) {v v' : Option V}
    {r : Option (ClientId × List (WatchCommand V))} (hne : c' ≠ c) (hkey : key ∈ keys)
    (hv : v' ≠ v) (hkept : ∀ b ∈ bs, ∀ s : WatchServer n V, ¬s.releases c b)
    (hkept' : ∀ b ∈ bs', ∀ s : WatchServer n V, ¬s.releases c b)
    (hclient : ((watchServer n V).run as).map (Except.map fun s =>
      (s.clients c).map fun cl => (cl.multi,cl.db)) = some (.ok (some (false,d))))
    (hbefore : ((watchServer n V).run (as ++ .command c (.watch keys) :: bs)).map
      (Except.map fun s => (s.actor a,s.dict d key)) = some (.ok (some c',v)))
    (hafter : ((watchServer n V).run (as ++ .command c (.watch keys) :: bs ++ [a])).map
      (Except.map fun s => s.dict d key) = some (.ok v'))
    (hend : ((watchServer n V).run (as ++ .command c (.watch keys) :: bs ++ [a] ++ bs' ++
      [.command c .exec])).map (Except.map fun s => s.executing) = some (.ok r)) :
    ∃ s s' t t', WatchedExec c d key a s s' t t' ∧ t'.executing = r := by
  let M := watchServer n V
  obtain ⟨t',ht',hr⟩ := M.observed _ _ _ hend
  obtain ⟨t,ht,hexec⟩ := M.runFrom_concat_inv ht'
  obtain ⟨s',hs',hrest⟩ := M.runFrom_append_inv ht
  obtain ⟨s,hs,hstep⟩ := M.runFrom_concat_inv hs'
  obtain ⟨s₀,hs₀,hbs⟩ := M.runFrom_append_inv hs
  obtain ⟨s₁,hwatch,hbs⟩ := M.runFrom_cons_inv hbs
  obtain ⟨cl,hcl,hmd⟩ := map_eq_some_iff.mp (M.observed_of_run hclient hs₀)
  obtain ⟨hm,hdb⟩ := Prod.mk.inj hmd
  have hs_seen := M.observed_of_run hbefore hs
  obtain ⟨hactor,hold⟩ := Prod.mk.inj hs_seen
  have hnew := M.observed_of_run hafter hs'
  refine ⟨s,s',t,t',⟨?_,⟨c',hactor,hne⟩,hstep,?_,⟨bs',hrest,?_⟩,hexec⟩,hr⟩
  · exact ⟨s₀,s₁,cl,keys,bs,⟨as,hs₀⟩,hcl,hm,hdb,hkey,hwatch,hbs,M.guarded_forall s₁ bs hkept⟩
  · rw [hold,hnew]
    exact hv
  · exact M.guarded_forall s' bs' hkept'

/-- EXEC runs nothing after a change that overlooks no client. -/
theorem exec_runs_nothing {a : WatchAct V} {s' t' : WatchServer n V}
    (h : WatchedExec c d key a s s' t t') (hseen : s.noneOverlooked a) : RanNothing c t t' := by
  obtain ⟨s₀,s₁,cl,keys,bs,hreach,hc,hm,rfl,hkey,hwatch,hrun,hkept⟩ := h.watch
  obtain ⟨c',hactor,hne⟩ := h.other
  obtain ⟨bs',hrun',hkept'⟩ := h.rest
  have hs₁ : (watchServer n V).Reachable s₁ := hreach.step (a := .command c (.watch keys)) hwatch
  have hs : Watching c (cl.db,key) false s :=
    (watchServer n V).invariant_from (fun _ _ _ hi hr hst => step_watching hi hr hst) bs
      (step_watch hc hm hkey hwatch) hkept hrun
  have hs' : Watching c (cl.db,key) true s' :=
    step_dirty hs (reachable_booked (hs₁.runFrom hrun)) hactor hne hseen h.step h.changed
  have ht : Watching c (cl.db,key) true t :=
    (watchServer n V).invariant_from (fun _ _ _ hi hr hst => step_watching hi hr hst) bs'
      hs' hkept' hrun'
  exact step_exec ht h.exec

end WatchServer

namespace Sample

def watchKey : Sds := [107]

def queued : List (WatchAct Nat) :=
  [.command 1 .multi,.command 1 (.keyspace (.write [([110],some 5)]))]

end Sample

namespace WatchServer
open Sample

theorem exec_runs_nothing_after_set : ∃ s s' t t' : WatchServer 1 Nat,
      WatchedExec 1 0 watchKey (.command 2 (.keyspace (.write [(watchKey,some 7)]))) s s' t t' ∧
      t'.executing = none ∧ RanNothing 1 t t' := by
  obtain ⟨s,s',t,t',h,hex⟩ := WatchedExec.of_run (n := 1) 1 2 0 watchKey [watchKey]
    [.accept 1,.accept 2] [] (.command 2 (.keyspace (.write [(watchKey,some 7)]))) queued
    (v := none) (r := none) (by decide) (by decide) (some_ne_none 7) (by simp)
    (by simp [queued,releases])
    (by decide) (by decide) (by decide) (by decide)
  refine ⟨s,s',t,t',h,hex,exec_runs_nothing h ?_⟩
  intro x cl b hruns _
  simp only [runs,bind_eq_some_iff,ite_none_left_eq_some] at hruns
  obtain ⟨_,_,_,hb⟩ := hruns
  cases hb
  trivial

/-- Two clients watch the key, one of them twice and in two databases; that one leaves. -/
theorem run_keeps_books_shared : ∃ s : WatchServer 1 Nat,
    (s.watchedKeys (0,watchKey) = some [1] ∧ s.watchedKeys (1,watchKey) = none) ∧ s.Booked := by
  obtain ⟨s,hrun,hs⟩ := (watchServer 1 Nat).observed
    [.accept 1,.accept 2,.command 2 (.watch [watchKey,watchKey]),.command 1 (.watch [watchKey]),
      .command 2 (.select 1),.command 2 (.watch [watchKey]),.freeClient 2]
    (fun s => (s.watchedKeys (0,watchKey),s.watchedKeys (1,watchKey))) (some [1],none) (by decide)
  obtain ⟨_,hr,hb⟩ := run_keeps_books hrun
  cases hr
  exact ⟨s,Prod.mk.inj hs,hb⟩

/-- Another client sets the key in database 1 and swaps the two databases. -/
theorem exec_runs_after_swapdb : ∃ s s' t t' : WatchServer 1 Nat,
      WatchedExec 1 0 watchKey (.command 2 (.keyspace (.swapdb 0 1))) s s' t t' ∧
      t'.executing = some (1,[.keyspace (.write [([110],some 5)])]) := by
  exact WatchedExec.of_run 1 2 0 watchKey [watchKey] [.accept 1,.accept 2]
    [.command 2 (.select 1),.command 2 (.keyspace (.write [(watchKey,some 7)]))]
    (.command 2 (.keyspace (.swapdb 0 1))) queued (v := none) (by decide) (by decide)
    (some_ne_none 7) (by simp [releases]) (by simp [queued,releases])
    (by decide) (by decide) (by decide) (by decide)

end WatchServer
end RedRock
