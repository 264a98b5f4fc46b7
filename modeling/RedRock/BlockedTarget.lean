import RedRock.Sleepers

/-!
The calls of `serveClientBlockedOnList` that a server makes: what the receiver is told, what is
propagated, and what the call leaves at the destination of BRPOPLPUSH.
-/

namespace RedRock
open Lib List Function BlockServer Queues

inductive ServeReply where
  | pair (key value : Sds)
  | bulk (value : Sds)
  | wrongType
  deriving DecidableEq

def popName : ListEnd → Sds
  | .head => [76,80,79,80]
  | .tail => [82,80,79,80]

def rpoplpushName : Sds := [82,80,79,80,76,80,85,83,72]

/-- `propagated` has the database and the arguments of each call of `propagate`, `before` and
`after` are the values of the destination. -/
structure ServeCall (n : Nat) where
  receiver : ClientId
  key : DbKey n
  target : Option (DbKey n)
  value : Sds
  before : Option BlockVal
  after : Option BlockVal
  reply : ServeReply
  propagated : List (Fin (n+1) × List Sds)
  deriving DecidableEq

structure ServeServer (n : Nat) where
  server : BlockServer n
  calls : List (ServeCall n)

namespace ServeServer
variable {n : Nat}

/-- The last result is `C_OK`. -/
def serveClientBlockedOnList (s : BlockServer n) (receiver : ClientId) (k : DbKey n)
    (target : Option (DbKey n)) (value : Sds) (side : ListEnd) :
    BlockServer n × ServeReply × List (Fin (n+1) × List Sds) × Bool :=
  match target with
  | none =>
    (s.note (.serve receiver k value),.pair k.2 value,[(k.1,[popName side,k.2])],true)
  | some dst =>
    match s.dict dst with
    | none | some (.coll .list _) =>
      ((s.rpoplpushHandlePush dst value).note (.serve receiver k value),.bulk value,
        [(k.1,[rpoplpushName,k.2,dst.2])],true)
    | some _ => (s,.wrongType,[],false)

def serveCall (s : BlockServer n) (receiver : ClientId) (k : DbKey n)
    (target : Option (DbKey n)) (value : Sds) (side : ListEnd) : ServeCall n :=
  let r := serveClientBlockedOnList s receiver k target value side
  ⟨receiver,k,target,value,target.bind s.dict,target.bind r.1.dict,r.2.1,r.2.2.1⟩

/-- `listTypePush` of `serveClientsBlockedOnListKey` where a client could not be served. -/
def serveOrUndo (s : BlockServer n) (receiver : ClientId) (k : DbKey n)
    (target : Option (DbKey n)) (value : Sds) (side : ListEnd) : BlockServer n :=
  let r := serveClientBlockedOnList s receiver k target value side
  if r.2.2.2 then r.1 else r.1.listTypePush k side value

def serveList (k : DbKey n) : Nat → ServeServer n → Except BlockFault (ServeServer n)
  | 0, x => .ok x
  | m+1, x =>
    match queue x.server.blockingKeys k with
    | [] => .error .emptyQueue
    | c :: cs =>
      match (x.server.bpop c).filter (·.btype = .list) with
      | none => serveList k m ⟨x.server.rotate k c cs,x.calls⟩
      | some b =>
        match x.server.popVal .list k b.side with
        | none => .ok x
        | some (value,s) => do
          let s ← s.unblockClient c
          let target := b.target.map fun dst => (b.db,dst)
          serveList k m ⟨serveOrUndo s c k target value b.side,
            x.calls ++ [serveCall s c k target value b.side]⟩

def serveClientsBlockedOnListKey (x : ServeServer n) (k : DbKey n) :
    Except BlockFault (ServeServer n) := do
  let x ← serveList k (queue x.server.blockingKeys k).length x
  return ⟨x.server.deleteIfEmpty k,x.calls⟩

def handleKey (x : ServeServer n) (k : DbKey n) : Except BlockFault (ServeServer n) :=
  match x.server.dict k with
  | some (.coll .list _) =>
    serveClientsBlockedOnListKey
      ⟨{ x.server with dbReadyKeys := update x.server.dbReadyKeys k false },x.calls⟩ k
  | _ => (x.server.handleKey k).map fun s => ⟨s,x.calls⟩

def handleRounds : Nat → ServeServer n → Except BlockFault (ServeServer n)
  | 0, x => .ok x
  | m+1, x =>
    if x.server.readyKeys = [] then .ok x
    else do
      let x ← x.server.readyKeys.foldlM handleKey ⟨{ x.server with readyKeys := [] },x.calls⟩
      handleRounds m x

def handleClientsBlockedOnKeys (x : ServeServer n) : Except BlockFault (ServeServer n) :=
  handleRounds (x.server.blockedClients + 1) x

def step (x : ServeServer n) : BlockAct n → Option (Except BlockFault (ServeServer n))
  | .call c d q =>
    if (x.server.bpop c).isSome then none
    else some (handleClientsBlockedOnKeys ⟨x.server.proc c d false q,x.calls⟩)
  | .exec c qs =>
    if (x.server.bpop c).isSome then none
    else some (handleClientsBlockedOnKeys
      ⟨qs.foldl (fun s q => s.proc c q.1 true q.2) x.server,x.calls⟩)
  | a => (x.server.step a).map fun r => r.map fun s => ⟨s,x.calls⟩

end ServeServer

def serveServer (n : Nat) : Machine (ServeServer n) (BlockAct n) BlockFault where
  init := ⟨(blockServer n).init,[]⟩
  step := ServeServer.step

namespace ServeCall
variable {n : Nat}

/-- The elements of the list that `v` logically is, if it is one or absent. -/
def listOf : Option BlockVal → Option (List Sds)
  | none => some []
  | some (.coll .list xs) => some xs
  | some (.dumped .list xs) => some xs
  | _ => none

def Delivered (call : ServeCall n) (dst : DbKey n) (xs : List Sds) : Prop :=
  call.reply = .bulk call.value ∧
  call.after = some (.coll .list (call.value :: xs)) ∧
  call.propagated = [(call.key.1,[rpoplpushName,call.key.2,dst.2])]

def isDumped : Option BlockVal → Bool
  | some (.dumped _ _) => true
  | _ => false

def Exact (call : ServeCall n) : Prop :=
  ∀ dst xs, call.target = some dst → listOf call.before = some xs →
    (call.Delivered dst xs ↔ isDumped call.before = false)

end ServeCall

namespace ServeServer
variable {n : Nat} {x y : ServeServer n} {k : DbKey n}
variable {xs : List Sds} {cs : List ClientId} {s : BlockServer n} {dst : DbKey n} {c : ClientId}
  {b : Bpop n} {target : Option (DbKey n)} {value : Sds} {side : ListEnd}

section
variable (c k value side)

lemma serve_delivers
    (h : s.dict dst = none ∨ ∃ xs, s.dict dst = some (.coll .list xs)) :
    serveClientBlockedOnList s c k (some dst) value side =
      ((s.rpoplpushHandlePush dst value).note (.serve c k value),.bulk value,
        [(k.1,[rpoplpushName,k.2,dst.2])],true) := by
  rcases h with h | ⟨xs,h⟩
  all_goals simp [serveClientBlockedOnList,h]

lemma serve_refuses {v : BlockVal} (h : s.dict dst = some v) (hv : ∀ xs, v ≠ .coll .list xs) :
    serveClientBlockedOnList s c k (some dst) value side = (s,.wrongType,[],false) := by
  match v, hv with
  | .coll .list xs, hv => exact absurd rfl (hv xs)
  | .coll .zset xs, _ => simp [serveClientBlockedOnList,h]
  | .dumped bt xs, _ => simp [serveClientBlockedOnList,h]
  | .other, _ => simp [serveClientBlockedOnList,h]

end

lemma serve_server (side : ListEnd) : s.serveClientBlockedOnList c k target value =
      ((serveClientBlockedOnList s c k target value side).1,
        (serveClientBlockedOnList s c k target value side).2.2.2) := by
  cases target with
  | none => rfl
  | some dst =>
    rcases h : s.dict dst with _ | ⟨_ | _,xs⟩ | ⟨bt,xs⟩ | _
    all_goals simp [serveClientBlockedOnList,BlockServer.serveClientBlockedOnList,h]

lemma push_dict (value : Sds)
    (h : s.dict dst = none ∧ xs = [] ∨ s.dict dst = some (.coll .list xs)) :
    (s.rpoplpushHandlePush dst value).dict dst = some (.coll .list (value :: xs)) := by
  rcases h with ⟨h,rfl⟩ | h
  · have hadd : s.rpoplpushHandlePush dst value =
        (s.signalKeyAsReady dst).setVal dst (some (.coll .list [value])) := by
      simp only [rpoplpushHandlePush,h,dbAdd]
      exact signal_setVal s dst _
    rw [hadd,setVal_self]
  have hpush : s.rpoplpushHandlePush dst value =
      s.setVal dst (some (.coll .list (value :: xs))) := by
    simp [rpoplpushHandlePush,listTypePush,h,ListEnd.push]
  rw [hpush,setVal_self]

lemma listOf_cases {v : Option BlockVal} (h : ServeCall.listOf v = some xs) :
    (v = none ∧ xs = [] ∨ v = some (.coll .list xs)) ∧ ServeCall.isDumped v = false ∨
      v = some (.dumped .list xs) ∧ ServeCall.isDumped v = true := by
  match v, h with
  | none, h =>
    cases h
    exact .inl ⟨.inl ⟨rfl,rfl⟩,rfl⟩
  | some (.coll .list ys), h =>
    cases h
    exact .inl ⟨.inr rfl,rfl⟩
  | some (.dumped .list ys), h =>
    cases h
    exact .inr ⟨rfl,rfl⟩

lemma serveCall_exact : (serveCall s c k target value side).Exact := by
  rintro dst xs hdst hxs
  obtain rfl : target = some dst := hdst
  rcases listOf_cases hxs with ⟨hv,hmem⟩ | ⟨hv,hdump⟩
  · refine iff_of_true ?_ hmem
    have hcases : s.dict dst = none ∨ ∃ xs, s.dict dst = some (.coll .list xs) :=
      hv.imp And.left fun h => ⟨xs,h⟩
    have hr := serve_delivers k c value side hcases
    have hafter := push_dict value hv
    refine ⟨congrArg (fun r => r.2.1) hr,?_,congrArg (fun r => r.2.2.1) hr⟩
    exact (congrArg (fun r => r.1.dict dst) hr).trans hafter
  refine iff_of_false ?_ (by simp [hdump])
  have hr := serve_refuses k c value side (v := .dumped .list xs) hv (by simp)
  rintro ⟨hreply,-,-⟩
  cases hreply.symm.trans (congrArg (fun r => r.2.1) hr)

lemma serveOrUndo_eq (m : Nat) :
    (match s.serveClientBlockedOnList c k target value with
      | (s,true) => BlockServer.serveList k m s
      | (s,false) => BlockServer.serveList k m (s.listTypePush k side value)) =
      BlockServer.serveList k m (serveOrUndo s c k target value side) := by
  rw [serve_server side]
  simp only [serveOrUndo]
  cases (serveClientBlockedOnList s c k target value side).2.2.2 with
  | true | false => rfl

lemma serveList_server (m : Nat) (x : ServeServer n) :
    (serveList k m x).map server = BlockServer.serveList k m x.server := by
  induction m generalizing x with
  | zero => rfl
  | succ m ih =>
    cases hq : queue x.server.blockingKeys k with
    | nil =>
      simp only [serveList,BlockServer.serveList,hq]
      rfl
    | cons c cs =>
      cases hb : (x.server.bpop c).filter (·.btype = .list) with
      | none =>
        simp only [serveList,BlockServer.serveList,hq,hb]
        exact ih _
      | some b =>
        cases hpop : x.server.popVal .list k b.side with
        | none =>
          simp only [serveList,BlockServer.serveList,hq,hb,hpop]
          rfl
        | some r =>
          simp only [serveList,BlockServer.serveList,hq,hb,hpop]
          cases r.2.unblockClient c with
          | error e => rfl
          | ok s => exact (ih _).trans (serveOrUndo_eq m).symm

lemma handleKey_server (x : ServeServer n) (k : DbKey n) :
    (handleKey x k).map server = x.server.handleKey k := by
  simp only [handleKey]
  split
  · rename_i xs h
    simp only [BlockServer.handleKey,h]
    exact map_bind_eq (serveList_server _ _) fun _ => rfl
  cases x.server.handleKey k with
  | error | ok => rfl

lemma handleKeys_server (ks : List (DbKey n)) (x : ServeServer n) :
    (ks.foldlM handleKey x).map server = ks.foldlM BlockServer.handleKey x.server := by
  induction ks generalizing x with
  | nil => rfl
  | cons k ks ih =>
    simp only [foldlM_cons]
    exact map_bind_eq (handleKey_server x k) ih

lemma handleRounds_server (m : Nat) (x : ServeServer n) :
    (handleRounds m x).map server = BlockServer.handleRounds m x.server := by
  induction m generalizing x with
  | zero => rfl
  | succ m ih =>
    simp only [handleRounds,BlockServer.handleRounds]
    split
    · rfl
    · exact map_bind_eq (handleKeys_server _ _) ih

lemma step_server (x : ServeServer n) (a : BlockAct n) :
    (step x a).map (·.map server) = x.server.step a := by
  have hplain (r : Option (Except BlockFault (BlockServer n))) :
      (r.map fun r => r.map fun s => (⟨s,x.calls⟩ : ServeServer n)).map (·.map server) = r := by
    cases r with
    | none => rfl
    | some r => cases r <;> rfl
  cases a with
  | call c d q | exec c qs =>
    simp only [step,BlockServer.step]
    split
    · rfl
    · exact congrArg some (handleRounds_server _ _)
  | unblock | dump | restore => exact hplain _

lemma run_server (as : List (BlockAct n)) :
    ((serveServer n).run as).map (·.map server) = (blockServer n).run as :=
  (serveServer n).runFrom_map step_server as (serveServer n).init

def Records (xs ys : List (ServeCall n)) : Prop :=
  ∃ calls, ys = xs ++ calls ∧ ∀ call ∈ calls, call.Exact

namespace Records
variable {xs ys zs : List (ServeCall n)}

lemma refl (xs : List (ServeCall n)) : Records xs xs := ⟨[],(List.append_nil xs).symm,by simp⟩

lemma trans (h : Records xs ys) (h' : Records ys zs) : Records xs zs := by
  obtain ⟨as,rfl,has⟩ := h
  obtain ⟨bs,rfl,hbs⟩ := h'
  refine ⟨as ++ bs,append_assoc xs as bs,?_⟩
  intro call hcall
  exact (mem_append.mp hcall).elim (has call) (hbs call)

lemma call : Records xs (xs ++ [serveCall s c k target value side]) := by
  refine ⟨_,rfl,?_⟩
  intro call hcall
  rw [mem_singleton.mp hcall]
  exact serveCall_exact

end Records

lemma serveList_records (m : Nat) (h : serveList k m x = .ok y) : Records x.calls y.calls := by
  induction m generalizing x with
  | zero =>
    cases h
    exact .refl _
  | succ m ih =>
    simp only [serveList] at h
    split at h
    · cases h
    rename_i c cs _
    split at h
    · have hrec := ih h
      exact hrec
    rename_i b _
    split at h
    · cases h
      exact .refl _
    rename_i value s _
    obtain ⟨s',_,h⟩ := bind_ok.mp h
    exact Records.call.trans (ih h)

lemma handleKey_records (h : handleKey x k = .ok y) : Records x.calls y.calls := by
  simp only [handleKey] at h
  split at h
  · obtain ⟨z,hz,h⟩ := bind_ok.mp h
    cases h
    have hrec := serveList_records _ hz
    exact hrec
  obtain ⟨s,_,rfl⟩ := map_ok.mp h
  exact .refl _

lemma handleKeys_records (ks : List (DbKey n)) (h : ks.foldlM handleKey x = .ok y) :
    Records x.calls y.calls := by
  induction ks generalizing x with
  | nil =>
    cases h
    exact .refl _
  | cons k ks ih =>
    rw [foldlM_cons] at h
    obtain ⟨z,hz,h⟩ := bind_ok.mp h
    exact (handleKey_records hz).trans (ih h)

lemma handleRounds_records (m : Nat) (h : handleRounds m x = .ok y) :
    Records x.calls y.calls := by
  induction m generalizing x with
  | zero =>
    cases h
    exact .refl _
  | succ m ih =>
    simp only [handleRounds] at h
    split at h
    · cases h
      exact .refl _
    obtain ⟨z,hz,h⟩ := bind_ok.mp h
    exact (handleKeys_records _ hz).trans (ih h)

lemma step_records {a : BlockAct n} (h : step x a = some (.ok y)) : Records x.calls y.calls := by
  have hplain {r : Option (Except BlockFault (BlockServer n))}
      (h : (r.map fun r => r.map fun s => (⟨s,x.calls⟩ : ServeServer n)) = some (.ok y)) :
      Records x.calls y.calls := by
    obtain ⟨s,_,rfl⟩ := map_map_ok.mp h
    exact .refl _
  cases a with
  | call c d q | exec c qs =>
    simp only [step] at h
    split at h
    · cases h
    have hrec := handleRounds_records _ (Option.some.inj h)
    exact hrec
  | unblock | dump | restore => exact hplain h

/-- In every run each call of `serveClientBlockedOnList` for a destination that is a list or
absent delivers the element exactly if that list is in memory. -/
theorem target_served_iff {as : List (BlockAct n)}
    (hrun : (serveServer n).run as = some (.ok x)) : ∀ call ∈ x.calls, call.Exact := by
  refine (serveServer n).invariant (I := fun x => ∀ call ∈ x.calls, call.Exact) ?_ ?_ ⟨as,hrun⟩
  · intro call hcall
    cases hcall
  intro x a y hx hstep call hcall
  obtain ⟨calls,hcalls,hexact⟩ := step_records hstep
  rw [hcalls] at hcall
  exact (mem_append.mp hcall).elim (hx call) (hexact call)

namespace Sample

def waiting : List (BlockAct 0) :=
  [.call 2 0 (.push [100] [[97]] .tail),.call 1 0 (.brpoplpush [115] [100])]

def arrives : BlockAct 0 := .call 2 0 (.push [115] [[120]] .tail)

def served : ServeCall 0 :=
  ⟨1,(0,[115]),some (0,[100]),[120],some (.coll .list [[97]]),some (.coll .list [[120],[97]]),
    .bulk [120],[(0,[rpoplpushName,[115],[100]])]⟩

def refused : ServeCall 0 :=
  ⟨1,(0,[115]),some (0,[100]),[120],some (.dumped .list [[97]]),some (.dumped .list [[97]]),
    .wrongType,[]⟩

end Sample
open Sample

theorem target_served_in_memory :
    ∃ x call, (serveServer 0).run (Sample.waiting ++ [Sample.arrives]) = some (.ok x) ∧
      call ∈ x.calls ∧ call.receiver = 1 ∧ call.Delivered (0,[100]) [[97]] := by
  obtain ⟨x,hx,hmem⟩ := (serveServer 0).exists_run (waiting ++ [arrives]) (served ∈ ·.calls)
    (by decide)
  exact ⟨x,_,hx,hmem,rfl,(target_served_iff hx _ hmem (0,[100]) [[97]] rfl rfl).mpr rfl⟩

/-- The destination is dumped while the client waits: it is told that the list it names is of
the wrong type, and the element stays at the source. -/
theorem dumped_target_refused :
    ∃ x call, (serveServer 0).run (Sample.waiting ++ [.dump (0,[100]),Sample.arrives]) =
        some (.ok x) ∧
      call ∈ x.calls ∧ call.receiver = 1 ∧ call.target = some (0,[100]) ∧
      ServeCall.listOf call.before = some [[97]] ∧ call.reply = .wrongType ∧
      call.propagated = [] ∧ ¬call.Delivered (0,[100]) [[97]] ∧
      x.server.dict (0,[115]) = some (.coll .list [[120]]) := by
  obtain ⟨x,hx,hmem,hdict⟩ := (serveServer 0).exists_run (waiting ++ [.dump (0,[100]),arrives])
    (fun x => refused ∈ x.calls ∧ x.server.dict (0,[115]) = some (.coll .list [[120]]))
    (by decide)
  refine ⟨x,_,hx,hmem,rfl,rfl,rfl,rfl,rfl,?_,hdict⟩
  rintro ⟨hreply,_,_⟩
  cases hreply

lemma unblockClient_dict {s t : BlockServer n} (h : s.unblockClient c = .ok t) :
    t.dict = s.dict := by
  simp only [unblockClient] at h
  split at h
  · cases h
  split at h
  · cases h
  split at h
  · cases h
  cases h
  rfl

def ServedFirst (x y : ServeServer n) (k : DbKey n) (c : ClientId) (b : Bpop n)
    (xs : List Sds) : Prop :=
  ∃ s value rest calls, b.side.pop xs = some (value,rest) ∧
    s.dict = update x.server.dict k (some (.coll .list rest)) ∧
    y.calls = x.calls ++ serveCall s c k (b.target.map fun dst => (b.db,dst)) value b.side :: calls

lemma serveList_first {m : Nat} (hq : queue x.server.blockingKeys k = c :: cs)
    (hc : x.server.bpop c = some b) (hb : b.btype = .list)
    (hk : x.server.dict k = some (.coll .list xs)) (hxs : xs ≠ []) (h : serveList k (m+1) x = .ok y) :
    ServedFirst x y k c b xs := by
  obtain ⟨value,rest,hpop⟩ := b.side.pop_isSome hxs
  have hval : x.server.popVal .list k b.side =
      some (value,x.server.setVal k (some (.coll .list rest))) := by
    rw [popVal_coll b.side hk,hpop]
    rfl
  have hwait : (x.server.bpop c).filter (·.btype = .list) = some b := by simp [hc,hb]
  simp only [serveList,hq,hwait,hval] at h
  obtain ⟨s,hs,h⟩ := bind_ok.mp h
  obtain ⟨calls,hcalls,_⟩ := serveList_records m h
  refine ⟨s,value,rest,calls,hpop,unblockClient_dict hs,?_⟩
  exact hcalls.trans (append_assoc _ _ _)

lemma handleRounds_first {m : Nat} (hready : x.server.readyKeys = [k])
    (hq : queue x.server.blockingKeys k = c :: cs) (hc : x.server.bpop c = some b)
    (hb : b.btype = .list) (hk : x.server.dict k = some (.coll .list xs)) (hxs : xs ≠ [])
    (h : handleRounds (m+1) x = .ok y) : ServedFirst x y k c b xs := by
  have hne : x.server.readyKeys ≠ [] := by simp [hready]
  simp only [handleRounds,if_neg hne] at h
  obtain ⟨z,hz,h⟩ := bind_ok.mp h
  obtain ⟨later,hlater,_⟩ := handleRounds_records m h
  rw [hready,foldlM_cons] at hz
  obtain ⟨w,hw,hz⟩ := bind_ok.mp hz
  cases hz
  simp only [handleKey,hk] at hw
  obtain ⟨v,hv,hw⟩ := bind_ok.mp hw
  cases hw
  simp only [hq,length_cons] at hv
  obtain ⟨s,value,rest,calls,hpop,hdict,hcalls⟩ := serveList_first (x := ⟨{ x.server with
      readyKeys := []
      dbReadyKeys := update x.server.dbReadyKeys k false },x.calls⟩) hq hc hb hk hxs hv
  refine ⟨s,value,rest,calls ++ later,hpop,hdict,?_⟩
  rw [hlater]
  exact (congrArg (· ++ later) hcalls).trans (append_assoc _ _ _)

/-- What the first client that waits for a list at an absent key is served is one of the
elements pushed there. -/
theorem push_serves {c c' : ClientId} {vals : List Sds} {side : ListEnd}
    (hidle : Idle x.server) (hq : queue x.server.blockingKeys k = c :: cs)
    (hc : x.server.bpop c = some b) (hb : b.btype = .list) (hk : x.server.dict k = none)
    (hvals : vals ≠ []) (h : step x (.call c' k.1 (.push k.2 vals side)) = some (.ok y)) :
    ServedFirst x y k c b (vals.foldl side.push []) := by
  have hmem : k ∈ x.server.blockingKeys := mem_of_mem_queue (hq ▸ mem_cons_self)
  have hflag : x.server.dbReadyKeys k = false := by
    by_contra hflag
    have hready := hidle.1.awake.flagged k (by simpa using hflag)
    simp [hidle.2] at hready
  obtain ⟨u,hpush,hdict,hready,hqueue,hbpop⟩ : ∃ u : BlockServer n,
      x.server.proc c' k.1 false (.push k.2 vals side) = u ∧
      u.dict = update x.server.dict k (some (.coll .list (vals.foldl side.push []))) ∧
      u.readyKeys = [k] ∧ u.blockingKeys = x.server.blockingKeys ∧ u.bpop = x.server.bpop := by
    refine ⟨_,rfl,?_⟩
    simp [proc,pushGenericCommand,hvals,hk,dbAdd,
      signalKeyAsReady,setVal,hmem,hflag,hidle.2,note]
  simp only [step,hpush] at h
  split at h
  · cases h
  rw [← hqueue] at hq
  rw [← hbpop] at hc
  have huk : u.dict k = some (.coll .list (vals.foldl side.push [])) := by
    rw [hdict,update_self]
  obtain ⟨s,value,rest,calls,hpop,hs,hcalls⟩ := handleRounds_first (x := ⟨u,x.calls⟩) hready hq
    hc hb huk (side.pushAll_ne_nil (.inl hvals)) (Option.some.inj h)
  refine ⟨s,value,rest,calls,hpop,?_,hcalls⟩
  rw [hs,hdict,update_idem]

/-- After every run in which each command is heard, a push to an absent key does not stop the
server, and the first in line that waits for a list there is served from what was pushed. -/
theorem push_wakes_first {as : List (BlockAct n)} {c c' : ClientId} {vals : List Sds}
    (side : ListEnd) (hg : (blockServer n).Guarded heardStep (blockServer n).init as)
    (hrun : (serveServer n).run as = some (.ok x)) (hq : queue x.server.blockingKeys k = c :: cs)
    (hc : x.server.bpop c = some b) (hb : b.btype = .list) (hk : x.server.dict k = none)
    (hvals : vals ≠ []) (hc' : x.server.bpop c' = none) :
    ∃ y, step x (.call c' k.1 (.push k.2 vals side)) = some (.ok y) ∧
      ServedFirst x y k c b (vals.foldl side.push []) := by
  have hr : (blockServer n).run as = some (.ok x.server) := by
    rw [← run_server,hrun]
    rfl
  obtain ⟨s,hs,hidle⟩ := (blockServer n).guarded_run_ok (I := Idle)
    (fun _ _ _ hs ha hst => step_idle hs ha hst) as init_idle hg hr
  cases hs
  have hst := step_server x (.call c' k.1 (.push k.2 vals side))
  cases hy : step x (.call c' k.1 (.push k.2 vals side)) with
  | none => simp [step,hc'] at hy
  | some r =>
    rw [hy] at hst
    obtain ⟨t,ht,_⟩ := step_idle hidle (by exact trivial) hst.symm
    obtain ⟨y,rfl,_⟩ := map_ok.mp ht
    exact ⟨y,rfl,push_serves hidle hq hc hb hk hvals hy⟩

theorem push_wakes_waiting : ∃ x y b, (serveServer 0).run Sample.waiting = some (.ok x) ∧
    step x Sample.arrives = some (.ok y) ∧ ServedFirst x y (0,[115]) 1 b [[120]] := by
  obtain ⟨x,hx,hq,hc,hk,hc'⟩ := (serveServer 0).exists_run waiting
    (fun x => queue x.server.blockingKeys (0,[115]) = [1] ∧
      x.server.bpop 1 = some ⟨0,.list,[[115]],some [100],.tail⟩ ∧
      x.server.dict (0,[115]) = none ∧ x.server.bpop 2 = none) (by decide)
  obtain ⟨y,hy,hs⟩ := push_wakes_first .tail
    (by exact ⟨trivial,fun _ _ => ⟨trivial,fun _ _ => trivial⟩⟩) hx hq hc rfl hk
    (show [[120]] ≠ [] by simp) hc'
  exact ⟨x,y,_,hx,hy,hs⟩

end ServeServer
end RedRock
