import Mathlib

namespace RedRock.Lib
open Option

variable {ε α β : Type}
variable {x : Except ε α} {f : α → Except ε β} {b : β}

lemma bind_ok : (x >>= f) = .ok b ↔ ∃ a, x = .ok a ∧ f a = .ok b := by
  cases x <;> simp [bind,Except.bind]

@[simp] lemma pure_ok {a b : α} : (pure a : Except ε α) = .ok b ↔ b = a := by
  simp [pure,Except.pure,eq_comm]

lemma map_ok {f : α → β} : x.map f = .ok b ↔ ∃ a, x = .ok a ∧ f a = b := by
  cases x <;> simp [Except.map]

lemma map_bind_eq {f : α → β} {y : Except ε β} {F : α → Except ε α} {G : β → Except ε β}
    (h : x.map f = y) (hF : ∀ a, (F a).map f = G (f a)) : (x >>= F).map f = y >>= G := by
  subst h
  cases x with
  | error e => rfl
  | ok a => exact hF a

lemma isOk_iff : x.isOk = true ↔ ∃ a, x = .ok a := by
  cases x <;> simp [Except.isOk,Except.toBool]

lemma map_map_ok {x : Option (Except ε α)} {f : α → β} :
    x.map (Except.map f) = some (.ok b) ↔ ∃ a, x = some (.ok a) ∧ f a = b := by
  rcases x with _ | _ | a <;> simp [Except.map]

lemma map_map_error_iff {x : Option (Except ε α)} {f : α → β} {e : ε} :
    x.map (Except.map f) = some (.error e) ↔ x = some (.error e) := by
  rcases x with _ | _ | a <;> simp [Except.map]

/-! A step that is there only where `p` holds. -/

lemma enabled_iff {p : Prop} [Decidable p] {a b : α} :
    (if p then some a else none) = some b ↔ p ∧ a = b := by
  rw [ite_none_right_eq_some,some_inj]

lemma enabled_ok_iff {p : Prop} [Decidable p] {a b : α} :
    (if p then some (.ok a : Except ε α) else none) = some (.ok b) ↔ p ∧ a = b := by
  rw [enabled_iff,Except.ok.injEq]

/-- Whenever `x` fails, it fails with an error in `P`. -/
def OnlyErrors (P : ε → Prop) (x : Except ε α) : Prop := ∀ e, x = .error e → P e

namespace OnlyErrors
variable {P Q : ε → Prop} {x y : Except ε α}

lemma ok (a : α) : OnlyErrors P (.ok a : Except ε α) := by
  intro e h
  cases h

lemma pure (a : α) : OnlyErrors P (Pure.pure a : Except ε α) := ok a

lemma error {e : ε} (h : P e) : OnlyErrors P (.error e : Except ε α) := by
  intro e' he
  cases he
  exact h

lemma bind (hx : OnlyErrors P x) (hf : ∀ a, x = .ok a → OnlyErrors P (f a)) :
    OnlyErrors P (x >>= f) := by
  cases x with
  | error e => exact error (hx e rfl)
  | ok a => exact hf a rfl

lemma ite {p : Prop} [Decidable p] (hx : p → OnlyErrors P x) (hy : ¬ p → OnlyErrors P y) :
    OnlyErrors P (if p then x else y) := by
  split
  · exact hx ‹p›
  · exact hy ‹¬ p›

lemma mapM {l : List α} (h : ∀ a, OnlyErrors P (f a)) : OnlyErrors P (l.mapM f) := by
  induction l with
  | nil => exact ok []
  | cons a l ih =>
    rw [List.mapM_cons]
    exact bind (h a) fun b _ => bind ih fun bs _ => pure (b :: bs)

end OnlyErrors
end RedRock.Lib
