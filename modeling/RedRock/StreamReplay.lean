import RedRock.StreamViews

/-!
The effect of a stream command that is propagated depends only on the entries of the stream and on
the views of its groups. A command that is issued has the effect of those that are propagated for
it.
-/

namespace RedRock
open Lib List Option Function StreamKey StreamID StreamCG StreamLog

@[ext] structure StreamView where
  log : StreamLog
  groups : Sds → Option GroupView

namespace StreamView

def new : StreamView := ⟨empty,fun _ => none⟩

def setGroup (v : StreamView) (group : Sds) (w : GroupView) : StreamView :=
  { v with groups := Function.update v.groups group (some w) }

def modify (v : StreamView) (group : Sds) (f : GroupView → GroupView) : StreamView :=
  { v with groups := Function.update v.groups group ((v.groups group).map f) }

def trimmed (log : StreamLog) : Option StreamTrim → StreamLog
  | none => log
  | some m => log.trim m.left

def add (v : StreamView) (id : StreamID) (fields : StreamFields) (maxlen : Option StreamTrim) :
    StreamView :=
  if v.log.lastId < id then { v with log := trimmed (v.log.append id fields) maxlen } else v

def create (v : StreamView) (group : Sds) (id : Option StreamID) : StreamView :=
  if (v.groups group).isSome then v
  else v.setGroup group ⟨id.getD v.log.lastId,fun _ => none⟩

def replay (v : Option StreamView) : StreamCommand → Option StreamView
  | .xadd none _ _ => v
  | .xadd (some id) fields maxlen =>
    if fields = [] ∨ id = zero then v else some ((v.getD new).add id fields maxlen)
  | .xdel ids => v.map fun v => { v with log := (StreamState.deleteLoop ids 0 v.log).2 }
  | .xtrim maxlen => v.map fun v => { v with log := v.log.trim maxlen.left }
  | .xgroupCreate group id mkstream =>
    if v.isNone ∧ ¬mkstream then v else some ((v.getD new).create group id)
  | .xgroupSetid group id =>
    v.map fun v => v.modify group fun w => { w with lastId := id.getD v.log.lastId }
  | .xgroupDestroy group => v.map fun v => { v with groups := Function.update v.groups group none }
  | .xgroupDelconsumer group consumer => v.map fun v => v.modify group (·.dismiss consumer)
  | .xreadgroup _ _ _ _ _ => v
  | .xclaim group consumer minidle ids opts =>
    v.map fun v => v.modify group (·.command v.log (.xclaim group consumer minidle ids opts))
  | .xack group ids => v.map fun v => v.modify group (·.ack ids)

/-- The commands that are propagated: `XADD` has its identifier, `XCLAIM` takes what is not idle
too, and a read is not among them. -/
def Replayable : StreamCommand → Prop
  | .xadd id _ _ => id.isSome
  | .xreadgroup _ _ _ _ _ => False
  | .xclaim _ _ minidle _ _ => minidle = 0
  | _ => True

variable {v : StreamView} {group : Sds}

lemma modify_modify (f f' : GroupView → GroupView) :
    (v.modify group f).modify group f' = v.modify group (f' ∘ f) := by
  apply StreamView.ext
  · rfl
  · simp only [modify,update_self,update_idem,Option.map_map]

lemma modify_id : v.modify group id = v := by
  apply StreamView.ext
  · rfl
  · simp only [modify,Option.map_id_fun,id_eq,update_eq_self]

lemma modify_of_none (h : v.groups group = none) (f : GroupView → GroupView) :
    v.modify group f = v := by
  apply StreamView.ext
  · rfl
  simp only [modify,h,map_none]
  exact update_eq_self_iff.mpr h.symm

end StreamView

namespace PropagatedFor
variable {group : Sds} {cmd : StreamCommand} {cmds : List StreamCommand}

lemma replayable (h : PropagatedFor group cmd) : StreamView.Replayable cmd := by
  cases h with
  | claim => rfl
  | setid => trivial

lemma replay (h : PropagatedFor group cmd) (v : StreamView) :
    StreamView.replay (some v) cmd = some (v.modify group (·.command v.log cmd)) := by
  cases h with
  | claim | setid => rfl

lemma foldl_replay (h : ∀ cmd ∈ cmds, PropagatedFor group cmd) (v : StreamView) :
    cmds.foldl StreamView.replay (some v) =
      some (v.modify group fun w => cmds.foldl (GroupView.command v.log) w) := by
  induction cmds generalizing v with
  | nil => exact congrArg some StreamView.modify_id.symm
  | cons cmd cmds ih =>
    rw [foldl_cons,(h cmd mem_cons_self).replay,
      ih fun cmd hm => h cmd (mem_cons_of_mem _ hm),StreamView.modify_modify]
    rfl

end PropagatedFor

namespace StreamKey
variable {k : StreamKey} {g g' : StreamCG} {group : Sds}

def Consistent (k : StreamKey) : Prop := ∀ group g, k.cgroups.find group = some g → g.PelInv

def view (k : StreamKey) : StreamView := ⟨k.log,fun group => (k.cgroups.find group).map (·.view)⟩

@[simp] lemma view_log : k.view.log = k.log := rfl

lemma view_group (h : k.cgroups.find group = some g) : k.view.groups group = some g.view := by
  simp only [view,h,map_some]

lemma view_group_none (h : k.cgroups.find group = none) : k.view.groups group = none := by
  simp only [view,h,map_none]

lemma Consistent.setGroup (hk : k.Consistent) (h : g.PelInv) : (k.setGroup group g).Consistent := by
  intro group' g' hf
  rw [StreamKey.setGroup,Rax.find_insert] at hf
  split at hf
  · cases hf
    exact h
  · exact hk group' g' hf

lemma view_insert (g : StreamCG) : (k.setGroup group g).view = k.view.setGroup group g.view := by
  apply StreamView.ext
  · rfl
  funext group'
  simp only [view,StreamView.setGroup,StreamKey.setGroup,Rax.find_insert]
  by_cases hg : group' = group
  · subst hg
    simp
  · simp [hg]

lemma view_setGroup (hf : k.cgroups.find group = some g) {f : GroupView → GroupView}
    (hg : g'.view = f g.view) : (k.setGroup group g').view = k.view.modify group f := by
  rw [view_insert,hg,StreamView.modify,view_group hf]
  rfl

lemma streamNew_consistent : streamNew.Consistent := by
  intro group g hf
  cases hf

lemma view_streamNew : streamNew.view = StreamView.new := rfl

lemma streamCreateCG_inv (id : StreamID) : (streamCreateCG id).PelInv := by
  have hpa : ∀ c i, (streamCreateCG id).pelAt c i = none := fun _ _ => rfl
  refine ⟨fun _ _ => ⟨rfl,rfl⟩,fun name c => ?_,fun i p => ?_,fun c i p h => ?_,fun i i' p h => ?_⟩
  · constructor
    · intro h
      cases h
    rintro ⟨k,hk,_⟩
    cases hk
  · simp only [hpa]
    constructor
    · intro h
      cases h
    rintro ⟨_,h⟩
    cases h
  · rw [hpa] at h
    cases h
  · cases h

end StreamKey

namespace StreamState
variable {s : StreamState}
variable {cmd : StreamCommand} {f : StreamKey → StreamCG → Result} {r : Result}

def Consistent (s : StreamState) : Prop := ∀ k, s = some k → k.Consistent

def view (s : StreamState) : Option StreamView := Option.map StreamKey.view s

def Propagates (s : StreamState) (r : Result) : Prop :=
  ∃ reply s' cmds, r = .ok (reply,s',cmds) ∧ Consistent s' ∧
    (∀ cmd ∈ cmds, StreamView.Replayable cmd) ∧ view s' = cmds.foldl StreamView.replay (view s)

def Replays (s : StreamState) (r : Result) (cmd : StreamCommand) : Prop :=
  ∃ reply s' cmds, r = .ok (reply,s',cmds) ∧ Consistent s' ∧ view s' = StreamView.replay (view s) cmd

/-- The effect of the command is told from the view, and it is propagated when it has one. -/
def AsIssued (s : StreamState) (r : Result) (cmd : StreamCommand) : Prop :=
  ∃ reply s' cmds, r = .ok (reply,s',cmds) ∧ Consistent s' ∧
    view s' = StreamView.replay (view s) cmd ∧
    (cmds = [] ∧ view s' = view s ∨ ∃ cmd', cmds = [cmd'] ∧ StreamView.Replayable cmd' ∧
      StreamView.replay (view s) cmd' = view s')

lemma AsIssued.replays (h : AsIssued s r cmd) : Replays s r cmd := by
  obtain ⟨reply,s',cmds,hr,hc,hv,_⟩ := h
  exact ⟨reply,s',cmds,hr,hc,hv⟩

lemma AsIssued.propagates (h : AsIssued s r cmd) : Propagates s r := by
  obtain ⟨reply,s',cmds,hr,hc,_,hcmds⟩ := h
  refine ⟨reply,s',cmds,hr,hc,?_⟩
  rcases hcmds with ⟨rfl,hv⟩ | ⟨cmd',rfl,hcmd,hv⟩
  · exact ⟨fun _ hm => absurd hm not_mem_nil,hv⟩
  refine ⟨fun cmd'' hm => ?_,hv.symm⟩
  cases mem_singleton.mp hm
  exact hcmd

lemma fails_asIssued (hs : Consistent s) (e : StreamError)
    (h : StreamView.replay (view s) cmd = view s) : AsIssued s (s.fails e) cmd :=
  ⟨.error e,s,[],rfl,hs,h.symm,.inl ⟨rfl,rfl⟩⟩

lemma getD_consistent (h : Consistent s) : (s.getD streamNew).Consistent := by
  cases s with
  | none => exact streamNew_consistent
  | some k => exact h k rfl

lemma getD_view : (s.getD streamNew).view = (view s).getD StreamView.new := by
  cases s with
  | none => exact view_streamNew
  | some k => rfl

lemma setLog_consistent {k : StreamKey} (h : k.Consistent) (log : StreamLog) :
    Consistent (some (k.setLog log)) := by
  intro k' hk'
  cases hk'
  exact h

lemma trim_left (log : StreamLog) (m : StreamTrim) :
    log.trim (m.rewrite (log.trim m.left).entries.length).left = log.trim m.left := by
  cases m with
  | exact n => rfl
  | approx n left =>
    apply StreamLog.ext
    · simp only [StreamTrim.rewrite,StreamTrim.left,trim,length_drop]
      congr 1
      omega
    · rfl

lemma xadd_none (now : Int) (fields : StreamFields) (maxlen : Option StreamTrim)
    (h : (s.getD streamNew).log.lastId ≠ max) :
    s.xadd now none fields maxlen = s.xadd now (some (streamNextID (BitVec.ofInt 64 now)
      (s.getD streamNew).log.lastId)) fields maxlen := by
  have hlt := lt_streamNextID h (BitVec.ofInt 64 now)
  unfold xadd
  split
  · rfl
  have hz : some (streamNextID (BitVec.ofInt 64 now)
      (s.getD streamNew).log.lastId) ≠ some zero := by
    intro hz
    rw [some.inj hz] at hlt
    exact not_lt_of_ge (zero_le _) hlt
  rw [if_neg (some_ne_none _).symm,if_neg hz]
  rfl

lemma deleteLoop_spec (ids : List StreamID) (deleted : Nat) (log : StreamLog) :
    deleted ≤ (deleteLoop ids deleted log).1 ∧
      (deleteLoop ids deleted log).2 = (deleteLoop ids 0 log).2 ∧
      ((deleteLoop ids deleted log).1 = deleted → (deleteLoop ids deleted log).2 = log) := by
  induction ids generalizing deleted log with
  | nil => exact ⟨le_refl _,rfl,fun _ => rfl⟩
  | cons id ids ih =>
    rw [deleteLoop]
    obtain ⟨hle,heq,hsame⟩ := ih (if log.has id then deleted + 1 else deleted) (log.delete id)
    obtain ⟨_,heq₀,_⟩ := ih (if log.has id then 0 + 1 else 0) (log.delete id)
    have hmore : deleted ≤ if log.has id then deleted + 1 else deleted := by
      split
      · omega
      · exact le_refl _
    refine ⟨le_trans hmore hle,heq.trans heq₀.symm,fun hd => ?_⟩
    · by_cases hhas : log.has id = true
      · rw [if_pos hhas] at hle hd
        omega
      rw [if_neg hhas] at hsame hd ⊢
      rw [hsame hd]
      apply StreamLog.ext
      · apply filter_eq_self.mpr
        intro e he
        apply decide_eq_true
        intro hid
        exact hhas (List.any_eq_true.mpr ⟨e,he,decide_eq_true hid⟩)
      · rfl

lemma setGroup_consistent {k : StreamKey} {g : StreamCG} {group : Sds}
    (h : Consistent (some k)) (hg : g.PelInv) : Consistent (some (k.setGroup group g)) := by
  intro k' hk'
  cases hk'
  exact (h k rfl).setGroup hg

section
variable (hs : Consistent s)
include hs

lemma xadd_some (now : Int) (id : StreamID) (fields : StreamFields) (maxlen : Option StreamTrim) :
    AsIssued s (s.xadd now (some id) fields maxlen) (.xadd (some id) fields maxlen) := by
  unfold xadd
  split
  · rename_i hf
    exact fails_asIssued hs _ (if_pos (.inl hf))
  rename_i hf
  split
  · rename_i hz
    exact fails_asIssued hs _ (if_pos (.inr (some.inj hz)))
  rename_i hz
  have hpos : zero < id := lt_of_le_of_ne (zero_le id) fun h => hz (h ▸ rfl)
  have hcond : ¬(fields = [] ∨ id = zero) := by
    rintro (h | h)
    · exact hf h
    · exact hz (congrArg some h)
  have hreplay : ∀ m, StreamView.replay (view s) (.xadd (some id) fields m) =
      some ((s.getD streamNew).view.add id fields m) := by
    intro m
    rw [StreamView.replay,if_neg hcond,getD_view]
  -- an identifier is refused only by a stream that is there
  have hrefused : ¬(s.getD streamNew).log.lastId < id → ∀ e,
      AsIssued s (fails (some (s.getD streamNew)) e) (.xadd (some id) fields maxlen) := by
    intro hlt e
    cases s with
    | none => exact absurd hpos hlt
    | some k =>
      apply fails_asIssued hs
      rw [hreplay,StreamView.add]
      exact congrArg some (if_neg hlt)
  simp only [getD_some]
  split
  · rename_i hmax
    apply hrefused
    rw [hmax]
    exact not_lt_of_ge (le_max id)
  split
  · rename_i hle
    exact hrefused (not_lt_of_ge (streamCompareID_nonpos_iff.mp hle)) _
  rename_i hlt
  rw [streamCompareID_nonpos_iff,not_le] at hlt
  have hlt' : (s.getD streamNew).view.log.lastId < id := hlt
  refine ⟨_,_,_,rfl,setLog_consistent (getD_consistent hs) _,?_,.inr ⟨_,rfl,rfl,?_⟩⟩
  · rw [hreplay,StreamView.add,if_pos hlt']
    rfl
  rw [hreplay,StreamView.add,if_pos hlt']
  cases maxlen with
  | none => rfl
  | some m =>
    simp only [map_some,StreamView.trimmed,view_log]
    rw [trim_left]
    rfl

lemma xadd_propagates (now : Int) (id : Option StreamID)
    (fields : StreamFields) (maxlen : Option StreamTrim) :
    Propagates s (s.xadd now id fields maxlen) := by
  cases id with
  | some id => exact (xadd_some hs now id fields maxlen).propagates
  | none =>
    by_cases hmax : (s.getD streamNew).log.lastId = max
    · have hfails : ∃ e, s.xadd now none fields maxlen = s.fails e := by
        unfold xadd
        split
        · exact ⟨_,rfl⟩
        rw [if_neg (some_ne_none _).symm]
        simp only [hmax,if_true]
        cases s with
        | none => exact absurd hmax (by decide)
        | some k => exact ⟨_,rfl⟩
      obtain ⟨e,he⟩ := hfails
      exact ⟨_,s,[],he,hs,fun _ hm => absurd hm not_mem_nil,rfl⟩
    rw [xadd_none now fields maxlen hmax]
    exact (xadd_some hs now _ fields maxlen).propagates

lemma xdel_asIssued (ids : List StreamID) : AsIssued s (s.xdel ids) (.xdel ids) := by
  cases s with
  | none => exact ⟨_,none,[],rfl,hs,rfl,.inl ⟨rfl,rfl⟩⟩
  | some k =>
    refine ⟨_,_,_,rfl,setLog_consistent (hs k rfl) _,rfl,?_⟩
    obtain ⟨_,_,hsame⟩ := deleteLoop_spec ids 0 k.log
    by_cases hd : (deleteLoop ids 0 k.log).1 = 0
    · refine .inl ⟨if_pos hd,?_⟩
      rw [hsame hd]
      rfl
    · exact .inr ⟨.xdel ids,if_neg hd,trivial,rfl⟩

lemma xtrim_asIssued (maxlen : StreamTrim) : AsIssued s (s.xtrim maxlen) (.xtrim maxlen) := by
  cases s with
  | none => exact ⟨_,none,[],rfl,hs,rfl,.inl ⟨rfl,rfl⟩⟩
  | some k =>
    refine ⟨_,_,_,rfl,setLog_consistent (hs k rfl) _,rfl,?_⟩
    by_cases hd : k.log.entries.length - (k.log.trim maxlen.left).entries.length = 0
    · refine .inl ⟨if_pos hd,?_⟩
      have hlog : k.log.trim maxlen.left = k.log := by
        apply StreamLog.ext
        · simp only [trim,length_drop] at hd ⊢
          rw [show k.log.entries.length - maxlen.left = 0 from by omega,drop_zero]
        · rfl
      rw [hlog]
      rfl
    refine .inr ⟨_,if_neg hd,trivial,?_⟩
    have htrim := trim_left k.log maxlen
    simp only [StreamView.replay,view,map_some,view_log,htrim]
    rfl

section
variable (group)

lemma xgroupCreate_asIssued (id : Option StreamID) (mkstream : Bool) :
    AsIssued s (s.xgroupCreate group id mkstream) (.xgroupCreate group id mkstream) := by
  have hview : (view s).isNone = s.isNone := isNone_map
  unfold xgroupCreate
  split
  · rename_i hn
    apply fails_asIssued hs
    rw [StreamView.replay,hview,if_pos hn]
  rename_i hn
  have hreplay : StreamView.replay (view s) (.xgroupCreate group id mkstream) =
      some ((s.getD streamNew).view.create group id) := by
    rw [StreamView.replay,hview,if_neg hn,getD_view]
  simp only
  split
  · -- only a stream that is there has the group
    rename_i hbusy
    cases s with
    | none => cases hbusy
    | some k =>
      apply fails_asIssued hs
      obtain ⟨g,hg⟩ := isSome_iff_exists.mp hbusy
      rw [hreplay,StreamView.create,if_pos]
      · rfl
      · exact isSome_iff_exists.mpr ⟨_,view_group hg⟩
  rename_i hfree
  have hnone : (s.getD streamNew).cgroups.find group = none :=
    not_isSome_iff_eq_none.mp hfree
  have hafter : view (some ((s.getD streamNew).setGroup group
      (.streamCreateCG (id.getD (s.getD streamNew).log.lastId)))) =
      StreamView.replay (view s) (.xgroupCreate group id mkstream) := by
    rw [hreplay,StreamView.create,view_group_none hnone,if_neg (by decide)]
    exact congrArg some (view_insert _)
  refine ⟨_,_,_,rfl,?_,hafter,.inr ⟨_,rfl,trivial,hafter.symm⟩⟩
  intro k hk
  cases hk
  exact (getD_consistent hs).setGroup (streamCreateCG_inv _)

lemma withGroup_cases :
    (∃ e, (∀ f, s.withGroup group f = s.fails e) ∧ ∀ effect : StreamLog → GroupView → GroupView,
        (view s).map (fun v => v.modify group (effect v.log)) = view s) ∨
    ∃ k g, s = some k ∧ (∀ f, s.withGroup group f = f k g) ∧ g.PelInv ∧ ∀ g', g'.PelInv →
      Consistent (some (k.setGroup group g')) ∧ ∀ effect, g'.view = effect g.view →
        view (some (k.setGroup group g')) = some (k.view.modify group effect) := by
  cases s with
  | none => exact .inl ⟨_,fun _ => rfl,fun _ => rfl⟩
  | some k =>
    cases hg : k.cgroups.find group with
    | none =>
      refine .inl ⟨.noGroup,fun f => ?_,fun effect => ?_⟩
      · simp only [withGroup,hg]
      · exact congrArg some (StreamView.modify_of_none (view_group_none hg) _)
    | some g =>
      refine .inr ⟨k,g,rfl,fun f => ?_,hs k rfl group g hg,fun g' hinv => ?_⟩
      · simp only [withGroup,hg]
      exact ⟨setGroup_consistent hs hinv,fun _ hv =>
        congrArg some (view_setGroup hg hv)⟩

lemma withGroup_asIssued (cmd : StreamCommand) (effect : StreamLog → GroupView → GroupView)
    (hreplay : StreamView.replay (view s) cmd = (view s).map fun v => v.modify group (effect v.log))
    (hcmd : StreamView.Replayable cmd)
    (hf : ∀ k g, g.PelInv → ∃ reply g', f k g = .ok (reply,some (k.setGroup group g'),[cmd]) ∧
      g'.PelInv ∧ g'.view = effect k.log g.view) : AsIssued s (s.withGroup group f) cmd := by
  rcases withGroup_cases hs group with ⟨e,hr,hv⟩ | ⟨k,g,rfl,hr,hg,hset⟩
  · rw [hr]
    exact fails_asIssued hs e (hreplay.trans (hv effect))
  obtain ⟨reply,g',hr',hinv,hv⟩ := hf k g hg
  obtain ⟨hc,hview⟩ := hset g' hinv
  have hafter := (hview (effect k.log) hv).trans hreplay.symm
  exact ⟨reply,_,_,(hr f).trans hr',hc,hafter,.inr ⟨cmd,rfl,hcmd,hafter.symm⟩⟩

lemma xgroupSetid_asIssued (id : Option StreamID) :
    AsIssued s (s.xgroupSetid group id) (.xgroupSetid group id) := by
  apply withGroup_asIssued hs group (.xgroupSetid group id)
    (fun log w => { w with lastId := id.getD log.lastId }) rfl trivial
  intro k g h
  exact ⟨_,_,rfl,h.setLastId _,rfl⟩

lemma xgroupDelconsumer_asIssued (group consumer : Sds) :
    AsIssued s (s.xgroupDelconsumer group consumer) (.xgroupDelconsumer group consumer) := by
  apply withGroup_asIssued hs group (.xgroupDelconsumer group consumer)
    (fun _ w => w.dismiss consumer) rfl trivial
  intro k g h
  obtain ⟨pending,g',hg',hinv,hv⟩ := delConsumer_view h consumer
  refine ⟨.num pending,g',?_,hinv,hv⟩
  rw [hg']
  rfl

lemma xgroupDestroy_asIssued : AsIssued s (s.xgroupDestroy group) (.xgroupDestroy group) := by
  cases s with
  | none => exact fails_asIssued hs _ rfl
  | some k =>
    cases hg : k.cgroups.find group with
    | none =>
      have hr : xgroupDestroy group (some k) = .ok (.num 0,some k,[]) := by
        simp only [xgroupDestroy,hg]
      rw [hr]
      refine ⟨_,_,_,rfl,hs,?_,.inl ⟨rfl,rfl⟩⟩
      apply congrArg some
      apply StreamView.ext
      · rfl
      · exact (update_eq_self_iff.mpr (view_group_none hg).symm).symm
    | some g =>
      have hr : xgroupDestroy group (some k) =
          .ok (.num 1,some { k with cgroups := k.cgroups.remove group },[.xgroupDestroy group]) := by
        simp only [xgroupDestroy,hg]
      have hafter : view (some { k with cgroups := k.cgroups.remove group }) =
          StreamView.replay (view (some k)) (.xgroupDestroy group) := by
        apply congrArg some
        apply StreamView.ext
        · rfl
        funext group'
        by_cases hgg : group' = group
        · subst hgg
          simp [StreamKey.view,Rax.find_remove]
        · simp [StreamKey.view,Rax.find_remove,hgg]
      rw [hr]
      refine ⟨_,_,_,rfl,?_,hafter,.inr ⟨_,rfl,trivial,hafter.symm⟩⟩
      intro k' hk'
      cases hk'
      intro group' g' hf
      rw [Rax.find_remove] at hf
      split at hf
      · cases hf
      · exact hs k rfl group' g' hf

lemma xack_asIssued (ids : List (Option StreamID)) :
    AsIssued s (s.xack group ids) (.xack group ids) := by
  cases s with
  | none => exact ⟨_,none,[],rfl,hs,rfl,.inl ⟨rfl,rfl⟩⟩
  | some k =>
    cases hg : k.cgroups.find group with
    | none =>
      have hr : xack group ids (some k) = .ok (.num 0,some k,[]) := by
        simp only [xack,hg]
      rw [hr]
      refine ⟨_,_,_,rfl,hs,?_,.inl ⟨rfl,rfl⟩⟩
      exact congrArg some (StreamView.modify_of_none (view_group_none hg) _).symm
    | some g =>
      obtain ⟨invalid,n,g',hg',hinv,hv,_,hsame⟩ := ackLoop_spec ids 0 (hs k rfl group g hg)
      have hr : xack group ids (some k) =
          .ok (if invalid then .error .invalidId else .num n,some (k.setGroup group g'),
            if n = 0 then [] else [.xack group ids]) := by
        simp only [xack,hg,hg',bind,Except.bind]
        rfl
      have hafter : view (some (k.setGroup group g')) =
          StreamView.replay (view (some k)) (.xack group ids) :=
        congrArg some (view_setGroup hg hv)
      rw [hr]
      refine ⟨_,_,_,rfl,setGroup_consistent hs hinv,hafter,?_⟩
      by_cases hn : n = 0
      · refine .inl ⟨if_pos hn,?_⟩
        apply congrArg some
        rw [hsame hn,view_setGroup hg (f := id) rfl,StreamView.modify_id]
      · exact .inr ⟨_,if_neg hn,trivial,hafter.symm⟩

lemma withGroup_propagates
    (hf : ∀ k g, g.PelInv → ∃ reply g' cmds, f k g = .ok (reply,some (k.setGroup group g'),cmds) ∧
      g'.PelInv ∧ (∀ cmd ∈ cmds, PropagatedFor group cmd) ∧
      g'.view = cmds.foldl (GroupView.command k.log) g.view) :
    Propagates s (s.withGroup group f) := by
  rcases withGroup_cases hs group with ⟨e,hr,_⟩ | ⟨k,g,rfl,hr,hg,hset⟩
  · exact ⟨_,_,[],hr f,hs,fun _ hm => absurd hm not_mem_nil,rfl⟩
  obtain ⟨reply,g',cmds,hr',hinv,hprop,hv⟩ := hf k g hg
  obtain ⟨hc,hview⟩ := hset g' hinv
  refine ⟨reply,_,cmds,(hr f).trans hr',hc,fun cmd hm => (hprop cmd hm).replayable,?_⟩
  rw [hview (fun w => cmds.foldl (GroupView.command k.log) w) hv]
  exact (PropagatedFor.foldl_replay hprop k.view).symm

end

lemma xreadgroup_propagates (now : Int) (group consumer : Sds)
    (id : StreamID) (count : Nat) (noack : Bool) :
    Propagates s (s.xreadgroup now group consumer id count noack) := by
  cases s with
  | none => exact ⟨_,_,[],rfl,hs,fun _ hm => absurd hm not_mem_nil,rfl⟩
  | some k =>
    apply withGroup_propagates hs group
    intro k g h
    obtain ⟨reply,g',cmds,hg',hinv,hprop,hv⟩ :=
      xreadgroup_spec h k.log group consumer now id count noack
    refine ⟨reply,g',cmds,?_,hinv,hprop,hv⟩
    rw [hg']
    rfl

lemma xclaim_propagates (now : Int) (group consumer : Sds) (minidle : Int)
    (ids : List StreamID) (opts : XclaimOptions) :
    Propagates s (s.xclaim now group consumer minidle ids opts) := by
  cases s with
  | none => exact ⟨_,_,[],rfl,hs,fun _ hm => absurd hm not_mem_nil,rfl⟩
  | some k =>
    apply withGroup_propagates hs group
    intro k g h
    obtain ⟨reply,g',cmds,hg',hinv,hprop,hv,_⟩ :=
      xclaim_spec h k.log group consumer now minidle ids opts
    refine ⟨reply,g',cmds,?_,hinv,hprop,hv⟩
    rw [hg']
    rfl

lemma xclaim_replays (now : Int) (group consumer : Sds)
    (ids : List StreamID) (opts : XclaimOptions) :
    Replays s (s.xclaim now group consumer 0 ids opts) (.xclaim group consumer 0 ids opts) := by
  cases s with
  | none => exact ⟨_,_,[],rfl,hs,rfl⟩
  | some k =>
    unfold xclaim
    rcases withGroup_cases hs group with ⟨e,hr,hv⟩ | ⟨k,g,hk,hr,hg,hset⟩
    · exact ⟨_,_,[],hr _,hs,(hv fun log w => w.command log (.xclaim group consumer 0 ids opts)).symm⟩
    obtain ⟨reply,g',cmds,hg',hinv,_,_,hzero⟩ :=
      xclaim_spec hg k.log group consumer now 0 ids opts
    obtain ⟨hc,hview⟩ := hset g' hinv
    cases hk
    refine ⟨reply,_,cmds,(hr _).trans ?_,hc,hview _ (hzero rfl)⟩
    rw [hg']
    rfl

lemma exec_propagates (now : Int) (cmd : StreamCommand) : Propagates s (s.exec now cmd) := by
  cases cmd with
  | xadd id fields maxlen => exact xadd_propagates hs now id fields maxlen
  | xdel ids => exact (xdel_asIssued hs ids).propagates
  | xtrim maxlen => exact (xtrim_asIssued hs maxlen).propagates
  | xgroupCreate group id mkstream => exact (xgroupCreate_asIssued hs group id mkstream).propagates
  | xgroupSetid group id => exact (xgroupSetid_asIssued hs group id).propagates
  | xgroupDestroy group => exact (xgroupDestroy_asIssued hs group).propagates
  | xgroupDelconsumer group consumer =>
    exact (xgroupDelconsumer_asIssued hs group consumer).propagates
  | xreadgroup group consumer id count noack =>
    exact xreadgroup_propagates hs now group consumer id count noack
  | xclaim group consumer minidle ids opts =>
    exact xclaim_propagates hs now group consumer minidle ids opts
  | xack group ids => exact (xack_asIssued hs group ids).propagates

lemma exec_replays (now : Int) (h : StreamView.Replayable cmd) :
    Replays s (s.exec now cmd) cmd := by
  cases cmd with
  | xadd id fields maxlen =>
    obtain ⟨id,rfl⟩ := isSome_iff_exists.mp h
    exact (xadd_some hs now id fields maxlen).replays
  | xdel ids => exact (xdel_asIssued hs ids).replays
  | xtrim maxlen => exact (xtrim_asIssued hs maxlen).replays
  | xgroupCreate group id mkstream => exact (xgroupCreate_asIssued hs group id mkstream).replays
  | xgroupSetid group id => exact (xgroupSetid_asIssued hs group id).replays
  | xgroupDestroy group => exact (xgroupDestroy_asIssued hs group).replays
  | xgroupDelconsumer group consumer => exact (xgroupDelconsumer_asIssued hs group consumer).replays
  | xreadgroup group consumer id count noack => cases h
  | xclaim group consumer minidle ids opts =>
    cases h
    exact xclaim_replays hs now group consumer ids opts
  | xack group ids => exact (xack_asIssued hs group ids).replays

end

end StreamState
end RedRock
