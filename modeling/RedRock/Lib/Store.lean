import Mathlib

/-!
Several keyed maps side by side, as plain functions, and the operations on them.
A relation between two stores may depend on the place a value is stored in; the
operations that leave values in their place keep every such relation.
-/

namespace RedRock.Lib
open List Option

section
variable {α β : Type} {r r' : α → β → Prop}
variable {y : Option β} {l' : List β} {l : List α}

lemma optionRel_some {a : α} : Rel r (some a) y ↔ ∃ b, y = some b ∧ r a b := by
  constructor
  · intro h
    cases h with
    | some h => exact ⟨_,rfl,h⟩
  rintro ⟨b,rfl,h⟩
  exact .some h

lemma optionRel_none : Rel r none y ↔ y = none := by
  constructor
  · intro h
    cases h
    rfl
  rintro rfl
  exact .none

lemma optionRel_mono {x : Option α} (h : Rel r x y) (hr : ∀ a b, r a b → r' a b) :
    Rel r' x y := by
  cases h with
  | some h => exact .some (hr _ _ h)
  | none => exact .none

lemma exists_right_of_forall₂ (h : List.Forall₂ r l l') {a : α} (ha : a ∈ l) :
    ∃ b ∈ l', r a b := by
  induction h with
  | nil => cases ha
  | cons hab _ ih =>
    rcases mem_cons.mp ha with rfl | ha
    · exact ⟨_,mem_cons_self,hab⟩
    obtain ⟨b,hb,hr⟩ := ih ha
    exact ⟨b,mem_cons_of_mem _ hb,hr⟩

lemma exists_left_of_forall₂ (h : List.Forall₂ r l l') {b : β} (hb : b ∈ l') : ∃ a ∈ l, r a b :=
  exists_right_of_forall₂ (r := flip r) h.flip hb

end

abbrev Store (ι κ α : Type) : Type := ι → κ → Option α

inductive StoreOp (ι κ α : Type) where
  | put (i : ι) (k : κ) (a : α)
  | del (i : ι) (k : κ)
  | clear (i : ι)
  | clearAll
  | rename (i : ι) (src dst : κ) (nx : Bool)
  | move (i j : ι) (k : κ)
  | swap (i j : ι)

namespace StoreOp
variable {ι κ α β : Type}

def map (f : α → β) : StoreOp ι κ α → StoreOp ι κ β
  | .put i k a => .put i k (f a)
  | .del i k => .del i k
  | .clear i => .clear i
  | .clearAll => .clearAll
  | .rename i src dst nx => .rename i src dst nx
  | .move i j k => .move i j k
  | .swap i j => .swap i j

/-- The operation leaves every value it keeps under its key. -/
def stays : StoreOp ι κ α → Bool
  | .rename _ _ _ _ | .move _ _ _ | .swap _ _ => false
  | _ => true

end StoreOp

namespace Store
variable {ι κ α β γ : Type} [DecidableEq ι] [DecidableEq κ]
variable {σ : Store ι κ α} {x : Option α}

def set (σ : Store ι κ α) (i : ι) (k : κ) (x : Option α) : Store ι κ α :=
  fun j l => if j = i ∧ l = k then x else σ j l

lemma set_set (σ : Store ι κ α) (i : ι) (k : κ) (x y : Option α) :
    (σ.set i k x).set i k y = σ.set i k y := by
  funext j l
  simp only [set]
  split <;> rfl

def apply (σ : Store ι κ α) : StoreOp ι κ α → Store ι κ α
  | .put i k a => σ.set i k (some a)
  | .del i k => σ.set i k none
  | .clear i => fun j l => if j = i then none else σ j l
  | .clearAll => fun _ _ => none
  | .rename i src dst nx =>
    match σ i src with
    | none => σ
    | some a =>
      if src = dst ∨ (nx = true ∧ (σ i dst).isSome) then σ
      else (σ.set i dst (some a)).set i src none
  | .move i j k =>
    match σ i k with
    | none => σ
    | some a => if i = j ∨ (σ j k).isSome then σ else (σ.set j k (some a)).set i k none
  | .swap i j => fun l => if l = j then σ i else if l = i then σ j else σ l

protected def map (f : α → β) (σ : Store ι κ α) : Store ι κ β := fun i k => (σ i k).map f

lemma map_set (f : α → β) (σ : Store ι κ α) (i : ι) (k : κ) (x : Option α) :
    (σ.set i k x).map f = (σ.map f).set i k (x.map f) := by
  funext j l
  simp only [Store.map,set]
  split <;> rfl

lemma map_apply (f : α → β) (σ : Store ι κ α) (o : StoreOp ι κ α) :
    (σ.apply o).map f = (σ.map f).apply (o.map f) := by
  cases o with
  | put i k a => exact map_set f σ i k (some a)
  | del i k => exact map_set f σ i k none
  | clear i =>
    funext j l
    simp only [apply,StoreOp.map,Store.map]
    split <;> rfl
  | clearAll => rfl
  | rename i src dst nx =>
    have hsrc : σ.map f i src = (σ i src).map f := rfl
    have hdst : (σ.map f i dst).isSome = (σ i dst).isSome := by simp [Store.map]
    simp only [apply,StoreOp.map,hsrc,hdst]
    cases σ i src with
    | none => rfl
    | some a =>
      simp only [map_some]
      split
      · rfl
      rw [map_set,map_set]
      rfl
  | move i j k =>
    have hsrc : σ.map f i k = (σ i k).map f := rfl
    have hdst : (σ.map f j k).isSome = (σ j k).isSome := by simp [Store.map]
    simp only [apply,StoreOp.map,hsrc,hdst]
    cases σ i k with
    | none => rfl
    | some a =>
      simp only [map_some]
      split
      · rfl
      rw [map_set,map_set]
      rfl
  | swap i j =>
    funext l k
    simp only [apply,StoreOp.map,Store.map]
    split
    · rfl
    · split <;> rfl

/-- The store a sequence of operations builds from an empty one. -/
def replay (os : List (StoreOp ι κ α)) : Store ι κ α := os.foldl apply fun _ _ => none

lemma replay_append (os : List (StoreOp ι κ α)) (o : StoreOp ι κ α) :
    replay (os ++ [o]) = (replay os).apply o := by
  simp [replay]

lemma of_set {i j : ι} {k l : κ} {a : α} (hx : x ≠ some a) (h : σ.set i k x j l = some a) :
    σ j l = some a := by
  simp only [set] at h
  split at h
  · exact absurd h hx
  · exact h

/-- A value that an operation neither brings in nor moves was there before. -/
theorem of_apply {o : StoreOp ι κ α} {a : α} (hput : ∀ i k, o ≠ .put i k a)
    (hren : ∀ i src dst nx, o = .rename i src dst nx → σ i src ≠ some a)
    (hmove : ∀ i j k, o = .move i j k → σ i k ≠ some a) (hswap : ∀ i j, o = .swap i j → i = j)
    {i : ι} {k : κ} (h : σ.apply o i k = some a) : σ i k = some a := by
  cases o with
  | put j l b =>
    refine of_set ?_ h
    rintro ⟨rfl⟩
    exact hput j l rfl
  | del j l => exact of_set (by simp) h
  | clear j =>
    simp only [apply] at h
    split at h
    · cases h
    · exact h
  | clearAll => cases h
  | rename j src dst nx =>
    have hne := hren j src dst nx rfl
    cases hs : σ j src with
    | none => simpa [apply,hs] using h
    | some b =>
      simp only [apply,hs] at h
      split at h
      · exact h
      rw [hs] at hne
      exact of_set hne (of_set (by simp) h)
  | move j l m =>
    have hne := hmove j l m rfl
    cases hs : σ j m with
    | none => simpa [apply,hs] using h
    | some b =>
      simp only [apply,hs] at h
      split at h
      · exact h
      rw [hs] at hne
      exact of_set hne (of_set (by simp) h)
  | swap j l =>
    cases hswap j l rfl
    simp only [apply] at h
    split at h
    · rename_i hi
      rw [hi]
      exact h
    · exact h

def Rel (R : ι → κ → α → β → Prop) (σ : Store ι κ α) (τ : Store ι κ β) : Prop :=
  ∀ i k, Option.Rel (R i k) (σ i k) (τ i k)

namespace Rel
variable {R : ι → κ → α → β → Prop} {σ : Store ι κ α} {τ : Store ι κ β}

lemma set (h : Rel R σ τ) {i : ι} {k : κ} {y : Option β} (hxy : Option.Rel (R i k) x y) :
    Rel R (σ.set i k x) (τ.set i k y) := by
  intro j l
  by_cases hjl : j = i ∧ l = k
  · obtain ⟨rfl,rfl⟩ := hjl
    simpa [Store.set] using hxy
  · simpa [Store.set,hjl] using h j l

/-- An operation that stays keeps a relation that holds between the values it
brings in. -/
theorem apply (h : Rel R σ τ) {o : StoreOp ι κ γ} {f : γ → α} {g : γ → β}
    (ho : o.stays = true) (hfg : ∀ i k c, R i k (f c) (g c)) :
    Rel R (σ.apply (o.map f)) (τ.apply (o.map g)) := by
  cases o with
  | put i k c => exact h.set (.some (hfg i k c))
  | del i k => exact h.set .none
  | clear i =>
    intro j l
    simp only [StoreOp.map,Store.apply]
    split
    · exact .none
    · exact h j l
  | clearAll => exact fun _ _ => .none
  | rename | move | swap => cases ho

end Rel
end Store
end RedRock.Lib
