import RedRock.Dataset

/-!
The functions of `db.c` keep `hotKeys` in step with the dictionary through hooks.
A property of one database that survives each hook survives every keyspace
operation that has one.
-/

namespace RedRock
open Lib

/-- `I` is kept where a value is stored and its key goes through `addHotKeyIfNeed`,
where a key leaves the dictionary and the index together, where both are emptied,
and where an object changes in place. -/
structure KeptByHooks (I : RedisDb → Prop) : Prop where
  put : ∀ {db key val}, I db → (key ∈ db.dict → val ≠ .valueInRock) →
    I (addHotKeyIfNeed true key val { db with dict := db.dict.insert key val })
  delete : ∀ {db} (key), I db → I { db with
    hotKeys := db.hotKeys.erase key, dict := db.dict.erase key }
  clear : ∀ db : RedisDb, I { db with hotKeys := ∅, dict := ∅ }
  modify : ∀ {db : RedisDb} {key old o}, I db → db.dict.lookup key = some (.mem old) →
    old.refcount = 1 → o.refcount = 1 → o.type = old.type →
    I { db with dict := db.dict.insert key (.mem o) }
  expires : ∀ {db} (ex), I db → I { db with expires := ex }

namespace Server
variable {n : Nat} {s t u : Server n} {d : Fin (n+1)} {key : Sds} {I : RedisDb → Prop}

def WhenHot (I : RedisDb → Prop) (s : Server n) : Prop :=
  s.alreadyInitHotKeys = true → ∀ d, I (s.db d)

lemma WhenHot.updDb (h : s.WhenHot I) {f : RedisDb → RedisDb}
    (hf : s.alreadyInitHotKeys = true → I (s.db d) → I (f (s.db d))) : (s.updDb d f).WhenHot I := by
  intro hi e
  have hs := h hi
  rw [updDb_db]
  split
  · rename_i he
    subst he
    exact hf hi (hs e)
  · exact hs e

lemma WhenHot.dbSwapDatabases {i j : Fin (n+1)} (h : s.WhenHot I)
    (hw : s.alreadyInitHotKeys = true →
      I { s.db i with dict := (s.db j).dict, expires := (s.db j).expires } ∧
      I { s.db j with dict := (s.db i).dict, expires := (s.db i).expires }) :
    (s.dbSwapDatabases i j).WhenHot I := by
  rw [swapDb_eq]
  intro hi
  exact forall_swapDb (P := fun _ => I) (h hi) (hw hi).1 (hw hi).2

lemma WhenHot.keptByOps (hI : KeptByHooks I) : KeptByOps (n := n) (WhenHot I) where
  dbAdd h hu := by
    obtain ⟨hk,rfl⟩ := dbAdd_ok.mp hu
    refine h.updDb fun hi hd => ?_
    rw [hi]
    exact hI.put hd fun hmem => absurd hmem hk
  dbOverwrite h hu := by
    obtain ⟨_,rfl⟩ := dbOverwrite_ok.mp hu
    refine h.updDb fun hi hd => ?_
    rw [hi]
    exact hI.put hd fun _ hv => by cases hv
  dbSyncDelete d key h := by
    refine h.updDb fun hi hd => ?_
    simp only [deleteHotKeyIfNeed,hi,Bool.not_true,Bool.false_eq_true,if_false]
    exact hI.expires _ (hI.delete key hd)
  setExpire d key when h := by
    cases when with
    | none => exact h
    | some t => exact h.updDb (f := fun db => { db with expires := _ }) fun _ hd => hI.expires _ hd
  emptyOneDb h hu := by
    obtain ⟨b,rfl,hb⟩ := emptyOneDb_ok hu
    rcases hb with rfl | ⟨rfl,_⟩
    · exact h.updDb (f := fun db => { db with hotKeys := ∅, dict := ∅, expires := ∅ })
        fun _ _ => hI.expires ∅ (hI.clear _)
    intro hi
    cases hi

lemma WhenHot.applyOp {o : KsOp n} (hI : KeptByHooks I) (h : s.WhenHot I)
    (hen : s.opEnabled o = true) (ho : o.hasHook = true) (hu : s.applyOp o = .ok u) :
    u.WhenHot I := by
  refine (WhenHot.keptByOps hI).applyOp h ho (fun d key o' hm => ?_) hu
  subst hm
  have hc : s.canModify d key o' = true := hen
  refine h.updDb fun _ hd => ?_
  unfold canModify at hc
  split at hc
  · rename_i old hl
    obtain ⟨ho,hr,ht⟩ := of_decide_eq_true hc
    exact hI.modify hd hl ho hr ht
  · cases hc

end Server
end RedRock
