import RedRock.PopSpec
import RedRock.Sleepers

/-! The queues of `blocked.c` serve the line of waiting clients, as long as clients only push to
lists and pop from them with BLPOP and BRPOP. -/

namespace RedRock
open Lib List Option PopSpec PopEvent Function Queues

namespace BlockServer
variable {n : Nat} {s t u : BlockServer n} {σ τ : PopSpec n} {c : ClientId} {b : Bpop n}
  {k : DbKey n} {P : List (DbKey n)}

structure Implements (s : BlockServer n) (σ : PopSpec n) : Prop where
  queued : Queued s
  lists : ∀ k, s.dict k = none ∧ σ.lists k = [] ∨ s.dict k = some (.coll .list (σ.lists k))
  queue : ∀ k, Queues.queue s.blockingKeys k = queueOf σ.order k
  waiting : ∀ w, w ∈ σ.waiters ↔ ∃ b, s.bpop w.client = some b ∧ w.keys = b.dbKeys ∧ w.side = b.side
  plain : ∀ c b, s.bpop c = some b → b.btype = .list ∧ b.target = none

namespace Implements

section
variable (h : Implements s σ)
include h

lemma list_eq {bt : BlockType} {xs : List Sds}
    (hk : s.dict k = some (.coll bt xs)) : bt = .list ∧ σ.lists k = xs := by
  rcases h.lists k with ⟨hnone,_⟩ | hsome
  · cases hnone.symm.trans hk
  cases hsome.symm.trans hk
  exact ⟨rfl,rfl⟩

lemma waits_eq (c : ClientId) : σ.waits c = (s.bpop c).isSome := by
  rw [Bool.eq_iff_iff,waits,List.any_eq_true,isSome_iff_exists]
  constructor
  · rintro ⟨w,hw,hc⟩
    obtain ⟨b,hb,_⟩ := (h.waiting w).mp hw
    rw [of_decide_eq_true hc] at hb
    exact ⟨b,hb⟩
  rintro ⟨b,hb⟩
  exact ⟨⟨c,b.dbKeys,b.side⟩,(h.waiting _).mpr ⟨b,hb,rfl,rfl⟩,decide_eq_true rfl⟩

lemma first_eq {cs : List ClientId} (hq : Queues.queue s.blockingKeys k = c :: cs) :
    ∃ b, s.bpop c = some b ∧ σ.first k = some ⟨c,b.dbKeys,b.side⟩ := by
  have hmap : queueOf σ.order k =
      (σ.waiters.filter fun w => k ∈ w.keys).map Waiter.client := by
    rw [queueOf,order,List.filter_map,List.map_map]
    refine congrArg (map Waiter.client) (filter_congr fun w _ => ?_)
    simp
  rw [h.queue,hmap] at hq
  obtain ⟨w,ws,hfilter,hc,_⟩ := map_eq_cons_iff.mp hq
  have hfirst : σ.first k = some w := by
    rw [first,← head?_filter,hfilter]
    rfl
  obtain ⟨b,hb,hkeys,hside⟩ := (h.waiting w).mp (mem_of_find?_eq_some hfirst)
  rw [hc] at hb
  refine ⟨b,hb,?_⟩
  rw [hfirst,← hc,← hkeys,← hside]

lemma note (e : PopEvent n) : Implements (s.note e) σ :=
  ⟨h.queued.of_eq rfl rfl rfl,h.lists,h.queue,h.waiting,h.plain⟩

lemma signals (hsig : Signals P s t) : Implements t σ := by
  rw [hsig.eq]
  exact ⟨h.queued.of_eq rfl rfl rfl,h.lists,h.queue,h.waiting,h.plain⟩

lemma setVal {v : Option BlockVal} {xs : List Sds}
    (hv : v = none ∧ xs = [] ∨ v = some (.coll .list xs)) :
    Implements (s.setVal k v) { σ with lists := update σ.lists k xs } := by
  refine ⟨h.queued.of_eq rfl rfl rfl,?_,h.queue,h.waiting,h.plain⟩
  intro j
  by_cases hj : j = k
  · subst hj
    simpa using hv
  rw [setVal_of_ne s v hj]
  simpa [hj] using h.lists j

lemma unblocked (hu : Unblocked c s t) :
    Implements t { σ with waiters := σ.waiters.filter fun w => w.client ≠ c } := by
  have horder : (order { σ with waiters := σ.waiters.filter fun w => w.client ≠ c }) =
      σ.order.filter fun x => x.1 ≠ c := by
    rw [order,order,List.filter_map]
    rfl
  refine ⟨hu.queued h.queued,?_,?_,?_,?_⟩
  · intro k
    rw [hu.dict]
    exact h.lists k
  · intro k
    rw [hu.queue,horder,queueOf_filter,← h.queue,(h.queued.nodup k).erase_eq_filter]
    exact filter_congr fun x _ => by simp [bne,Bool.beq_eq_decide_eq]
  · intro w
    rw [mem_filter,h.waiting]
    constructor
    · rintro ⟨⟨b,hb,hrest⟩,hne⟩
      exact ⟨b,(hu.bpop_of_ne (of_decide_eq_true hne)).trans hb,hrest⟩
    rintro ⟨b,hb,hrest⟩
    obtain ⟨hne,hb⟩ := hu.of_bpop hb
    exact ⟨⟨b,hb,hrest⟩,decide_eq_true hne⟩
  · intro x b hb
    exact h.plain x b (hu.of_bpop hb).2

lemma blocks (hb : Blocks c b s t) (hplain : b.btype = .list ∧ b.target = none) :
    Implements t { σ with waiters := σ.waiters ++ [⟨c,b.dbKeys,b.side⟩] } := by
  refine ⟨hb.queued h.queued,?_,?_,?_,?_⟩
  · have hdict : t.dict = s.dict := by rw [hb.eq]
    intro k
    rw [hdict]
    exact h.lists k
  · intro k
    rw [hb.queue,order,map_append,map_singleton,queueOf_concat,h.queue]
    by_cases hk : k ∈ b.dbKeys
    · rw [if_pos hk,if_pos hk]
      rfl
    rw [if_neg hk,if_neg hk]
    rfl
  · intro w
    rw [mem_append,h.waiting,mem_singleton]
    by_cases hw : w.client = c
    · constructor
      · rintro (⟨b',hb',_⟩ | rfl)
        · rw [hw,hb.was] at hb'
          cases hb'
        · exact ⟨b,hb.bpop_self,rfl,rfl⟩
      rintro ⟨b',hb',hkeys,hside⟩
      rw [hw,hb.bpop_self] at hb'
      cases hb'
      refine .inr ?_
      cases w
      simp_all
    rw [hb.bpop_of_ne hw]
    constructor
    · rintro (hold | rfl)
      · exact hold
      · exact absurd rfl hw
    · exact .inl
  intro x b' hb'
  rcases hb.of_bpop hb' with ⟨_,rfl⟩ | ⟨_,hb'⟩
  · exact hplain
  · exact h.plain x b' hb'

lemma deleteIfEmpty (k : DbKey n) : Implements (s.deleteIfEmpty k) σ := by
  unfold BlockServer.deleteIfEmpty
  split
  · rename_i bt hk
    obtain ⟨_,hnil⟩ := h.list_eq hk
    have hdel := h.setVal (k := k) (.inl ⟨rfl,hnil⟩)
    rw [update_eq_self] at hdel
    exact hdel
  · exact h

end

end Implements

def Yields (s : BlockServer n) (σ : PopSpec n) (ps : List (DbKey n × List Sds))
    (t : BlockServer n) : Prop :=
  ∃ es τ, t.log = s.log ++ es ∧ (popSpec n).runFrom σ es = some (.ok τ) ∧ Implements t τ ∧
    es.filterMap pushed = ps

namespace Yields

lemma refl (h : Implements s σ) : Yields s σ [] s := ⟨[],σ,(append_nil _).symm,rfl,h,rfl⟩

lemma quiet (h : Implements t σ) (hlog : t.log = s.log) : Yields s σ [] t :=
  ⟨[],σ,hlog.trans (append_nil _).symm,rfl,h,rfl⟩

lemma event {e : PopEvent n} (hstep : σ.step e = some (.ok τ)) (hlog : t.log = s.log ++ [e])
    (h : Implements t τ) : Yields s σ e.pushed.toList t := by
  refine ⟨[e],τ,hlog,?_,h,?_⟩
  · exact ((popSpec n).runFrom_cons_ok hstep).mpr rfl
  cases he : e.pushed with
  | none | some => simp [he]

lemma trans {ps qs : List (DbKey n × List Sds)} (h : Yields s σ ps t)
    (h' : ∀ τ, Implements t τ → Yields t τ qs u) : Yields s σ (ps ++ qs) u := by
  obtain ⟨es,τ,hlog,hrun,hi,hps⟩ := h
  obtain ⟨es',τ',hlog',hrun',hi',hqs⟩ := h' τ hi
  refine ⟨es ++ es',τ',?_,?_,hi',?_⟩
  · rw [hlog',hlog,append_assoc]
  · rw [(popSpec n).runFrom_append hrun,hrun']
  · rw [filterMap_append,hps,hqs]

lemma then_quiet {ps : List (DbKey n × List Sds)} (h : Yields s σ ps t)
    (h' : ∀ τ, Implements t τ → Yields t τ [] u) : Yields s σ ps u := by
  have hu := h.trans h'
  rwa [append_nil] at hu

end Yields

lemma serve_yields {xs rest : List Sds} {x : Sds} (h : Implements s σ)
    (hc : s.bpop c = some b) (hfirst : σ.first k = some ⟨c,b.dbKeys,b.side⟩)
    (hk : s.dict k = some (.coll .list xs)) (hpop : b.side.pop xs = some (x,rest))
    (hu : (s.setVal k (some (.coll .list rest))).unblockClient c = .ok t) :
    Yields s σ [] (t.note (.serve c k x)) := by
  have h₁ : Implements (s.setVal k (some (.coll .list rest)))
      { σ with lists := update σ.lists k rest } := h.setVal (.inr rfl)
  obtain ⟨t',ht',hun⟩ := unblockClient_ok h₁.queued hc
  cases hu.symm.trans ht'
  have hlist := (h.list_eq hk).2
  refine Yields.event (e := .serve c k x)
    (τ := ⟨update σ.lists k rest,σ.waiters.filter fun w => w.client ≠ c⟩) ?_ ?_ ?_
  · simp [PopSpec.step,hfirst,PopSpec.take,hlist,hpop]
  · rw [note,hun.eq]
    rfl
  · exact (h₁.unblocked hun).note _

lemma serveList_yields (m : Nat) (h : Implements s σ) (hrun : serveList k m s = .ok t) :
    Yields s σ [] t := by
  induction m generalizing s σ with
  | zero =>
    cases hrun
    exact .refl h
  | succ m ih =>
    rw [serveList] at hrun
    split at hrun
    · cases hrun
    rename_i c cs hq
    obtain ⟨b,hc,hfirst⟩ := h.first_eq hq
    obtain ⟨hbt,htarget⟩ := h.plain c b hc
    have hfilter : (s.bpop c).filter (·.btype = .list) = some b := by simp [hc,Option.filter,hbt]
    simp only [hfilter,htarget,map_none,serveClientBlockedOnList] at hrun
    split at hrun
    · cases hrun
      exact .refl h
    rename_i x s₁ hpop
    obtain ⟨xs,rest,hk,hend,rfl⟩ := popVal_some hpop
    obtain ⟨s₂,hu,hrest⟩ := bind_ok.mp hrun
    exact (serve_yields h hc hfirst hk hend hu).trans fun τ hi => ih hi hrest

lemma handleKey_yields (h : Implements s σ) (hrun : s.handleKey k = .ok t) : Yields s σ [] t := by
  let s₀ : BlockServer n := { s with dbReadyKeys := update s.dbReadyKeys k false }
  have h₀ : Implements s₀ σ := ⟨h.queued.of_eq rfl rfl rfl,h.lists,h.queue,h.waiting,h.plain⟩
  have hclear : Yields s σ [] s₀ := .quiet h₀ rfl
  refine hclear.then_quiet fun τ hτ => ?_
  unfold handleKey at hrun
  dsimp only at hrun
  split at hrun
  · obtain ⟨u,hu,he⟩ := bind_ok.mp hrun
    cases he
    refine (serveList_yields _ hτ hu).then_quiet fun ρ hρ => .quiet (hρ.deleteIfEmpty k) ?_
    unfold deleteIfEmpty
    split
    · rfl
    · rfl
  · rename_i xs hk
    cases (hτ.list_eq hk).1
  rw [← Except.ok.inj hrun]
  exact .refl hτ

lemma handleKeys_yields (ks : List (DbKey n)) (h : Implements s σ)
    (hrun : ks.foldlM handleKey s = .ok t) : Yields s σ [] t := by
  induction ks generalizing s σ with
  | nil =>
    cases hrun
    exact .refl h
  | cons k ks ih =>
    rw [foldlM_cons] at hrun
    obtain ⟨u,hu,hrest⟩ := bind_ok.mp hrun
    exact (handleKey_yields h hu).trans fun τ hi => ih hi hrest

lemma handleRounds_yields (m : Nat) (h : Implements s σ) (hrun : handleRounds m s = .ok t) :
    Yields s σ [] t := by
  induction m generalizing s σ with
  | zero =>
    cases hrun
    exact .refl h
  | succ m ih =>
    rw [handleRounds] at hrun
    split at hrun
    · cases hrun
      exact .refl h
    obtain ⟨u,hu,hrest⟩ := bind_ok.mp hrun
    have h₀ : Implements { s with readyKeys := [] } σ :=
      ⟨h.queued.of_eq rfl rfl rfl,h.lists,h.queue,h.waiting,h.plain⟩
    obtain ⟨es,τ,hlog,hes⟩ := handleKeys_yields s.readyKeys h₀ hu
    have hround : Yields s σ [] u := ⟨es,τ,hlog,hes⟩
    exact hround.trans fun τ hi => ih hi hrest

lemma push_yields {vals : List Sds} (h : Implements s σ) (hvals : vals ≠ []) (side : ListEnd) :
    Yields s σ [(k,vals)] (s.pushGenericCommand k vals side) := by
  have hstep : σ.step (.push k side vals) = some (.ok { σ with
      lists := update σ.lists k (vals.foldl side.push (σ.lists k)) }) := rfl
  unfold pushGenericCommand
  rw [if_neg hvals]
  rcases h.lists k with ⟨hnone,hnil⟩ | hsome
  · rw [hnil] at hstep
    simp only [hnone]
    have hsig := signal_signals (P := [])
      (s.setVal k (some (.coll .list (vals.foldl side.push [])))) k
    refine Yields.event hstep ?_ (((h.setVal (.inr rfl)).signals hsig).note _)
    rw [dbAdd,note,hsig.eq]
    rfl
  simp only [hsome]
  exact Yields.event hstep rfl ((h.setVal (.inr rfl)).note _)

lemma pop_yields {bt : BlockType} {side : ListEnd} {x : Sds} (h : Implements s σ)
    (hc : s.bpop c = none) (hpop : s.popVal bt k side = some (x,t)) :
    Yields s σ [] ((t.deleteIfEmpty k).note (.pop c k side x)) := by
  obtain ⟨xs,rest,hk,hend,rfl⟩ := popVal_some hpop
  obtain ⟨rfl,hlist⟩ := h.list_eq hk
  have hwaits : σ.waits c = false := by rw [h.waits_eq,hc]; rfl
  refine Yields.event (e := .pop c k side x)
    (τ := { σ with lists := update σ.lists k rest }) ?_ ?_ ?_
  · simp [PopSpec.step,PopSpec.take,hwaits,hlist,hend]
  · rw [note,deleteIfEmpty_setVal]
    rfl
  · exact ((h.setVal (.inr rfl)).deleteIfEmpty k).note _

lemma bpop_yields {keys : List Sds} {multi : Bool} {d : Fin (n+1)} (h : Implements s σ)
    (hc : s.bpop c = none) (side : ListEnd) :
    Yields s σ [] (s.blockingPopGenericCommand c d multi .list keys side) := by
  unfold blockingPopGenericCommand
  split
  · exact .refl h
  · split
    · exact .refl h
    rename_i hpop
    exact pop_yields h hc hpop
  split
  · exact .refl h
  rename_i hblock
  simp only [Bool.or_eq_true,List.isEmpty_iff,not_or,Bool.not_eq_true] at hblock
  obtain ⟨b,_,hbt,htarget,hside,_,hb⟩ := blockForKeys_blocks d .list none side hc hblock.2
  have hwaits : σ.waits c = false := by rw [h.waits_eq,hc]; rfl
  have hkeys : b.dbKeys ≠ [] := by simpa [Bpop.dbKeys] using hb.keys.1
  refine Yields.event (e := .wait c b.dbKeys b.side)
    (τ := { σ with waiters := σ.waiters ++ [⟨c,b.dbKeys,b.side⟩] }) ?_ ?_
    (h.blocks hb ⟨hbt,htarget⟩)
  · simp [PopSpec.step,hwaits,hkeys]
  · rw [hb.eq]

end BlockServer

namespace BlockCommand
variable {n : Nat}

def listOnly : BlockCommand n → Bool
  | .push _ _ _ | .bpop .list _ _ => true
  | _ => false

def pushes (d : Fin (n+1)) : BlockCommand n → List (DbKey n × List Sds)
  | .push key vals _ => if vals = [] then [] else [((d,key),vals)]
  | _ => []

end BlockCommand

namespace BlockAct
variable {n : Nat}

def listOnly : BlockAct n → Bool
  | .call _ _ q => q.listOnly
  | .exec _ qs => qs.all fun x => x.2.listOnly
  | _ => false

def pushes : BlockAct n → List (DbKey n × List Sds)
  | .call _ d q => q.pushes d
  | .exec _ qs => qs.flatMap fun x => x.2.pushes x.1
  | _ => []

end BlockAct

namespace BlockServer
variable {n : Nat} {s t : BlockServer n} {σ : PopSpec n} {c : ClientId} {d : Fin (n+1)}
variable {q : BlockCommand n} {a : BlockAct n}

lemma heard_of_listOnly (h : q.listOnly = true) : s.heard d q := by
  cases q with
  | push | bpop => trivial
  | _ => cases h

lemma proc_yields {multi : Bool} (h : Implements s σ) (hc : s.bpop c = none)
    (hq : q.listOnly = true) : Yields s σ (q.pushes d) (s.proc c d multi q) := by
  cases q with
  | push key vals side =>
    rw [proc,BlockCommand.pushes]
    split
    · rename_i hnil
      rw [pushGenericCommand,if_pos hnil]
      exact .refl h
    rename_i hvals
    exact push_yields h hvals side
  | bpop bt keys side =>
    cases bt with
    | list => exact bpop_yields h hc side
    | zset => cases hq
  | _ => cases hq

lemma proc_bpop (hq : q.listOnly = true) : (s.proc c d true q).bpop = s.bpop := by
  cases q with
  | push key vals side =>
    rw [proc,pushGenericCommand]
    split
    · rfl
    split
    · rename_i hk
      have hsig := signal_signals (P := [])
        (s.setVal (d,key) (some (.coll .list (vals.foldl side.push [])))) (d,key)
      rw [dbAdd,note,hsig.eq]
      rfl
    · rfl
    · rfl
  | bpop bt keys side =>
    rw [proc,blockingPopGenericCommand]
    split
    · rfl
    · split
      · rfl
      rename_i hpop
      obtain ⟨xs,rest,_,_,rfl⟩ := popVal_some hpop
      rw [deleteIfEmpty_setVal]
      rfl
    · rfl
  | _ => cases hq

lemma exec_yields (qs : List (Fin (n+1) × BlockCommand n)) (h : Implements s σ)
    (hc : s.bpop c = none) (hq : ∀ x ∈ qs, x.2.listOnly = true) :
    Yields s σ (qs.flatMap fun x => x.2.pushes x.1)
      (qs.foldl (fun s x => s.proc c x.1 true x.2) s) := by
  induction qs generalizing s σ with
  | nil => exact .refl h
  | cons x qs ih =>
    have hx := hq x mem_cons_self
    have hbpop : (s.proc c x.1 true x.2).bpop c = none := by rw [proc_bpop hx,hc]
    rw [flatMap_cons,foldl_cons]
    exact (proc_yields h hc hx).trans fun τ hi =>
      ih hi hbpop fun y hy => hq y (mem_cons_of_mem x hy)

lemma step_yields (h : Implements s σ) (ha : a.listOnly = true) (hst : s.step a = some (.ok t)) :
    Yields s σ a.pushes t := by
  cases a with
  | call c d q =>
    rw [step,ite_none_left_eq_some,some.injEq] at hst
    obtain ⟨hc,hst⟩ := hst
    rw [not_isSome_iff_eq_none] at hc
    have hp : Yields s σ (q.pushes d) (s.proc c d false q) := proc_yields h hc ha
    exact hp.then_quiet fun τ hi => handleRounds_yields _ hi hst
  | exec c qs =>
    rw [step,ite_none_left_eq_some,some.injEq] at hst
    obtain ⟨hc,hst⟩ := hst
    rw [not_isSome_iff_eq_none] at hc
    have hq : ∀ x ∈ qs, x.2.listOnly = true := all_eq_true.mp ha
    exact (exec_yields qs h hc hq).then_quiet fun τ hi => handleRounds_yields _ hi hst
  | unblock | dump | restore => cases ha

def listAt (s : BlockServer n) (k : DbKey n) : List Sds :=
  match s.dict k with
  | some (.coll .list xs) => xs
  | _ => []

/-- What holds of blocking pops after the calls `as`. The log has the pushes of the calls. Each
element that was pushed is in a list or was delivered, once, and this key by key. The log is a
history of the line, in which every client that is served is the first that waits for the key
and gets the element at its end; a client is served once for each time it has waited, and what
waits at the end are the clients that are blocked, with the queues they are in. -/
structure PopsServed (as : List (BlockAct n)) (s : BlockServer n) : Prop where
  pushes : s.log.filterMap pushed = as.flatMap BlockAct.pushes
  elements : allPushed s.log =
    ∑ k ∈ pushedKeys s.log, (s.listAt k : Multiset Sds) + allDelivered s.log
  noOthers : ∀ k ∉ pushedKeys s.log, s.listAt k = []
  elementsAt : ∀ k, pushedAt k s.log =
    (s.listAt k : Multiset Sds) + deliveredAt k s.log
  served : ∀ es c k x es', s.log = es ++ .serve c k x :: es' → ∃ σ w rest,
    (popSpec n).run es = some (.ok σ) ∧ σ.first k = some w ∧ w.client = c ∧ k ∈ w.keys ∧
    w.side.pop (σ.lists k) = some (x,rest)
  turns : ∀ c, s.log.countP (isWait c) =
    s.log.countP (isServe c) + (s.bpop c).isSome.toNat
  line : ∃ σ, (popSpec n).run s.log = some (.ok σ) ∧ Implements s σ
  relation : ∀ c k, c ∈ Queues.queue s.blockingKeys k ↔ ∃ b, s.bpop c = some b ∧ k ∈ b.dbKeys

lemma Implements.listAt_eq (h : Implements s σ) (k : DbKey n) : s.listAt k = σ.lists k := by
  rcases h.lists k with ⟨hnone,hnil⟩ | hsome
  · simp [listAt,hnone,hnil]
  · simp [listAt,hsome]

lemma PopsServed.of_line {as : List (BlockAct n)} (hrun : (popSpec n).run s.log = some (.ok σ))
    (h : Implements s σ) (hpushes : s.log.filterMap pushed = as.flatMap BlockAct.pushes) :
    PopsServed as s where
  pushes := hpushes
  elements := by
    rw [(PopSpec.balance_all hrun).1]
    simp only [h.listAt_eq]
  noOthers k hk := by
    rw [h.listAt_eq]
    exact (PopSpec.balance_all hrun).2 k hk
  elementsAt k := by
    rw [h.listAt_eq]
    exact PopSpec.balance hrun k
  served := by
    intro es c k x es' hlog
    rw [hlog] at hrun
    obtain ⟨ρ,hρ,hrest⟩ := (popSpec n).runFrom_append_inv hrun
    obtain ⟨ρ',hstep,_⟩ := (popSpec n).runFrom_cons_inv hrest
    obtain ⟨w,rest,hfirst,hc,hpop,_⟩ := PopSpec.serve_some hstep
    exact ⟨ρ,w,rest,hρ,hfirst,hc,(PopSpec.first_some hfirst).2,hpop⟩
  turns c := by
    rw [PopSpec.turns hrun,h.waits_eq]
  line := ⟨σ,hrun,h⟩
  relation := h.queued.listed

lemma init_implements : Implements (blockServer n).init (popSpec n).init := by
  refine ⟨init_idle.1.queued,?_,?_,?_,?_⟩
  · intro k
    exact .inl ⟨rfl,rfl⟩
  · intro k
    rfl
  · intro w
    simp [popSpec,blockServer]
  intro c b hb
  cases hb

lemma heardStep_of_listOnly (h : a.listOnly = true) (s : BlockServer n) : s.heardStep a := by
  cases a with
  | call c d q => exact heard_of_listOnly h
  | exec c qs =>
    have hall : ∀ x ∈ qs, x.2.listOnly = true := all_eq_true.mp h
    rw [heardStep]
    clear h
    induction qs generalizing s with
    | nil => trivial
    | cons x qs ih =>
      exact ⟨heard_of_listOnly (hall x mem_cons_self),
        ih _ fun y hy => hall y (mem_cons_of_mem x hy)⟩
  | unblock | dump | restore => cases h

theorem blocking_pops_served {as : List (BlockAct n)} {r : Except BlockFault (BlockServer n)}
    (hcalls : ∀ a ∈ as, a.listOnly = true) (hr : (blockServer n).run as = some r) :
    ∃ s, r = .ok s ∧ PopsServed as s := by
  have hheard : (blockServer n).Guarded heardStep (blockServer n).init as :=
    (blockServer n).guarded_forall _ as fun a ha s => heardStep_of_listOnly (hcalls a ha) s
  have hlist : (blockServer n).Guarded (fun _ a => a.listOnly = true) (blockServer n).init as :=
    (blockServer n).guarded_forall _ as fun a ha _ => hcalls a ha
  obtain ⟨s,rfl,_⟩ := (blockServer n).guarded_run_ok (I := Idle)
    (fun _ _ _ hs ha hst => step_idle hs ha hst) as init_idle hheard hr
  refine ⟨s,rfl,?_⟩
  have hsim := (blockServer n).simulates_from
    (R := fun s ps => ∃ σ, (popSpec n).run s.log = some (.ok σ) ∧ Implements s σ ∧
      s.log.filterMap pushed = ps)
    (fun a ps => ps ++ a.pushes) ?_ as (x := []) ⟨(popSpec n).init,rfl,init_implements,rfl⟩ hlist hr
  · rw [Machine.follow_collect,nil_append] at hsim
    obtain ⟨σ,hrun,hi,hpushes⟩ := hsim
    exact .of_line hrun hi hpushes
  · rintro s a t ps ⟨σ,hrun,hi,rfl⟩ ha hst
    obtain ⟨es,τ,hlog,hes,ht,hps⟩ := step_yields hi ha hst
    refine ⟨τ,?_,ht,?_⟩
    · rw [hlog,Machine.run,(popSpec n).runFrom_append hrun,hes]
    · rw [hlog,filterMap_append,hps]

end BlockServer

namespace Sample

/-- Two clients wait for `b`, the first also for `a`, and one transaction pushes to both. -/
def sharedKeys : List (BlockAct 0) :=
  [.call 1 0 (.bpop .list [[97],[98]] .head),.call 2 0 (.bpop .list [[98]] .tail),
    .exec 3 [(0,.push [98] [[120],[121]] .tail),(0,.push [97] [[122]] .tail)]]

end Sample

namespace BlockServer
open Sample

theorem blocking_pops_served_shared : ∃ s, (blockServer 0).run sharedKeys = some (.ok s) ∧
      s.log = [.wait 1 [(0,[97]),(0,[98])] .head,.wait 2 [(0,[98])] .tail,
        .push (0,[98]) .tail [[120],[121]],.push (0,[97]) .tail [[122]],
        .serve 1 (0,[98]) [120],.serve 2 (0,[98]) [121]] ∧
      PopsServed sharedKeys s := by
  refine Machine.exists_run_and _ (by decide) fun s hs _ => ?_
  obtain ⟨t,ht,hserved⟩ := blocking_pops_served (by decide) hs
  cases ht
  exact hserved

end BlockServer
end RedRock
