import RedRock.Lib.Errors

namespace RedRock.Lib
open List Option

/-- A machine over states `σ`, actions `α` and faults `ε`. An action is disabled
in a state (`none`), stops the machine with a fault, or leads to a next state. -/
structure Machine (σ α ε : Type) where
  init : σ
  step : σ → α → Option (Except ε σ)

namespace Machine
variable {σ α ε τ : Type} (M : Machine σ α ε)
variable {C : σ → α → Prop} {I : σ → Prop} {as : List α} {s u : σ} {β : Type} {a : α}
  {R : σ → τ → Prop} {r : Except ε σ} {x : τ}

def runFrom : σ → List α → Option (Except ε σ)
  | s, [] => some (.ok s)
  | s, a :: as =>
    match M.step s a with
    | some (.ok t) => runFrom t as
    | r => r

def run (as : List α) : Option (Except ε σ) := M.runFrom M.init as

/-- `s` is reached by some sequence of actions from the initial state. -/
def Reachable (s : σ) : Prop := ∃ as : List α, M.run as = some (.ok s)

/-- Every action taken along `as` from `s` meets `C` in the state it is taken in. -/
def Guarded (C : σ → α → Prop) : σ → List α → Prop
  | _, [] => True
  | s, a :: as => C s a ∧ ∀ t, M.step s a = some (.ok t) → Guarded C t as

lemma runFrom_cons_ok {t u : σ} (h : M.step s a = some (.ok t)) :
    M.runFrom s (a :: as) = some (.ok u) ↔ M.runFrom t as = some (.ok u) := by
  simp [runFrom,h]

lemma runFrom_cons_inv (h : M.runFrom s (a :: as) = some (.ok u)) :
    ∃ t, M.step s a = some (.ok t) ∧ M.runFrom t as = some (.ok u) := by
  unfold runFrom at h
  split at h
  · rename_i t ht
    exact ⟨t,ht,h⟩
  rename_i r hr
  exact absurd h (hr u)

lemma runFrom_append {t : σ} (h : M.runFrom s as = some (.ok t)) (bs : List α) :
    M.runFrom s (as ++ bs) = M.runFrom t bs := by
  induction as generalizing s with
  | nil =>
    cases h
    rfl
  | cons a as ih =>
    obtain ⟨v,hv,hr⟩ := M.runFrom_cons_inv h
    rw [← ih hr]
    simp [runFrom,hv]

variable {M} in
lemma Reachable.runFrom {t : σ} (h : M.Reachable s) (hr : M.runFrom s as = some (.ok t)) :
    M.Reachable t := by
  obtain ⟨bs,hbs⟩ := h
  exact ⟨bs ++ as,(M.runFrom_append hbs as).trans hr⟩

variable {M} in
lemma Reachable.step {t : σ} {a : α} (h : M.Reachable s) (hst : M.step s a = some (.ok t)) :
    M.Reachable t := by
  have hr : M.runFrom s [a] = some (.ok t) := by simp [Machine.runFrom,hst]
  exact h.runFrom hr

lemma runFrom_append_inv {as bs : List α} (h : M.runFrom s (as ++ bs) = some (.ok u)) :
    ∃ t, M.runFrom s as = some (.ok t) ∧ M.runFrom t bs = some (.ok u) := by
  induction as generalizing s with
  | nil => exact ⟨s,rfl,h⟩
  | cons b as ih =>
    obtain ⟨t,ht,hr⟩ := M.runFrom_cons_inv h
    obtain ⟨v,hv,hs⟩ := ih hr
    exact ⟨v,(M.runFrom_cons_ok ht).mpr hv,hs⟩

lemma runFrom_concat_inv (h : M.runFrom s (as ++ [a]) = some (.ok u)) :
    ∃ t, M.runFrom s as = some (.ok t) ∧ M.step t a = some (.ok u) := by
  obtain ⟨t,ht,hu⟩ := M.runFrom_append_inv h
  obtain ⟨v,hv,hr⟩ := M.runFrom_cons_inv hu
  cases hr
  exact ⟨t,ht,hv⟩

/-- The abstract run that follows the same actions: `f a` is what action `a`
does to the abstract state. -/
def follow (f : α → τ → τ) : List α → τ → τ
  | [], x => x
  | a :: as, x => follow f as (f a x)

/-- A relation to the abstract state that every step keeps holds after every run. -/
theorem simulates_from (f : α → τ → τ) {R : σ → τ → Prop}
    (hs : ∀ s a t x, R s x → C s a → M.step s a = some (.ok t) → R t (f a x))
    (as : List α) {s u : σ} {x : τ} (hi : R s x) (hg : M.Guarded C s as)
    (h : M.runFrom s as = some (.ok u)) : R u (follow f as x) := by
  induction as generalizing s x with
  | nil =>
    simp only [runFrom,some.injEq,Except.ok.injEq] at h
    exact h ▸ hi
  | cons a as ih =>
    obtain ⟨t,ht,hr⟩ := M.runFrom_cons_inv h
    exact ih (hs s a t x hi hg.1 ht) (hg.2 t ht) hr

lemma invariant_from (hs : ∀ s a t, I s → C s a → M.step s a = some (.ok t) → I t) (as : List α)
    (hi : I s) (hg : M.Guarded C s as) (h : M.runFrom s as = some (.ok u)) : I u :=
  M.simulates_from (fun _ _ => ()) (R := fun s _ => I s) (fun s a t _ => hs s a t) as (x := ()) hi
    hg h

/-- What every guarded step preserves holds after every guarded run. -/
theorem guarded_invariant (h0 : I M.init)
    (hs : ∀ s a t, I s → C s a → M.step s a = some (.ok t) → I t) {u : σ}
    (hg : M.Guarded C M.init as) (h : M.run as = some (.ok u)) : I u :=
  M.invariant_from hs as h0 hg h

lemma guarded_trivial (s : σ) (as : List α) : M.Guarded (fun _ _ => True) s as := by
  induction as generalizing s with
  | nil => trivial
  | cons a as ih => exact ⟨trivial,fun t _ => ih t⟩

variable {M} in
lemma Guarded.and {C D : σ → α → Prop} (hC : M.Guarded C s as) (hD : M.Guarded D s as) :
    M.Guarded (fun s a => C s a ∧ D s a) s as := by
  induction as generalizing s with
  | nil => trivial
  | cons a as ih => exact ⟨⟨hC.1,hD.1⟩,fun t ht => ih (hC.2 t ht) (hD.2 t ht)⟩

lemma guarded_forall (s : σ) (as : List α) (h : ∀ a ∈ as, ∀ s, C s a) : M.Guarded C s as := by
  induction as generalizing s with
  | nil => trivial
  | cons a as ih =>
    exact ⟨h a (by simp) s,fun t _ => ih t fun b hb => h b (by simp [hb])⟩

def checkGuarded (C : σ → α → Prop) [∀ s a, Decidable (C s a)] : σ → List α → Bool
  | _, [] => true
  | s, a :: as =>
    decide (C s a) && match M.step s a with
      | some (.ok t) => checkGuarded C t as
      | _ => true

lemma guarded_check (C : σ → α → Prop) [∀ s a, Decidable (C s a)] (s : σ) (as : List α)
    (h : M.checkGuarded C s as = true) : M.Guarded C s as := by
  induction as generalizing s with
  | nil => trivial
  | cons a as ih =>
    rw [checkGuarded,Bool.and_eq_true] at h
    refine ⟨of_decide_eq_true h.1,fun t ht => ih t ?_⟩
    simpa [ht] using h.2

/-- What every step preserves holds in every reachable state. -/
theorem invariant (h0 : I M.init) (hs : ∀ s a t, I s → M.step s a = some (.ok t) → I t) {u : σ}
    (h : M.Reachable u) : I u := by
  obtain ⟨as,has⟩ := h
  exact M.guarded_invariant (C := fun _ _ => True) h0
    (fun s a t hi _ ht => hs s a t hi ht) (M.guarded_trivial _ as) has

/-- Where no step lowers `μ`, a run keeps `μ` exactly when each of its steps does. -/
theorem measure_kept_iff [PartialOrder β] {μ : σ → β}
    (hs : ∀ s a t, I s → M.step s a = some (.ok t) → I t ∧ μ s ≤ μ t ∧ (μ t = μ s ↔ C s a))
    (as : List α) (hi : I s) (h : M.runFrom s as = some (.ok u)) :
    μ s ≤ μ u ∧ (μ u = μ s ↔ M.Guarded C s as) := by
  induction as generalizing s with
  | nil =>
    simp only [runFrom,some.injEq,Except.ok.injEq] at h
    simp [h,Guarded]
  | cons a as ih =>
    obtain ⟨t,ht,hr⟩ := M.runFrom_cons_inv h
    obtain ⟨hit,hle,hkept⟩ := hs s a t hi ht
    obtain ⟨hle',hkept'⟩ := ih hit hr
    refine ⟨le_trans hle hle',fun he => ?_,fun hg => ?_⟩
    · have hst : μ t = μ s := le_antisymm (he ▸ hle') hle
      refine ⟨hkept.mp hst,fun t' ht' => ?_⟩
      cases ht.symm.trans ht'
      exact hkept'.mp (he.trans hst.symm)
    · exact (hkept'.mpr (hg.2 t ht)).trans (hkept.mpr hg.1)

lemma observed (as : List α) (f : σ → β) (b : β)
    (h : (M.run as).map (Except.map f) = some (.ok b)) : ∃ s, M.run as = some (.ok s) ∧ f s = b :=
  map_map_ok.mp h

/-- A run whose last state can be seen to satisfy `P` by evaluation. -/
lemma exists_run (as : List α) (P : σ → Prop) [DecidablePred P]
    (h : (M.run as).map (Except.map fun s => decide (P s)) = some (.ok true)) :
    ∃ s, M.run as = some (.ok s) ∧ P s := by
  obtain ⟨s,hs,hP⟩ := M.observed as _ _ h
  exact ⟨s,hs,of_decide_eq_true hP⟩

lemma exists_run_and {P Q : σ → Prop} [DecidablePred P]
    (h : (M.run as).map (Except.map fun s => decide (P s)) = some (.ok true))
    (hQ : ∀ s, M.run as = some (.ok s) → P s → Q s) : ∃ s, M.run as = some (.ok s) ∧ P s ∧ Q s := by
  obtain ⟨s,hs,hP⟩ := M.exists_run as P h
  exact ⟨s,hs,hP,hQ s hs hP⟩

lemma observed_of_run {f : σ → β} {b : β}
    (h : (M.run as).map (Except.map f) = some (.ok b)) (hs : M.runFrom M.init as = some (.ok s)) :
    f s = b := by
  rw [run,hs] at h
  injection h with h
  injection h

lemma step_observed (as : List α) (a : α) (f : σ → β) (b : β)
    (h : (M.run (as ++ [a])).map (Except.map f) = some (.ok b)) :
    ∃ s t, M.run as = some (.ok s) ∧ M.step s a = some (.ok t) ∧ f t = b := by
  obtain ⟨t,ht,hb⟩ := M.observed (as ++ [a]) f b h
  obtain ⟨s,hs,hst⟩ := M.runFrom_concat_inv ht
  exact ⟨s,t,hs,hst,hb⟩

lemma follow_collect (g : α → List β) (as : List α) (x : List β) :
    follow (fun a x => x ++ g a) as x = x ++ as.flatMap g := by
  induction as generalizing x with
  | nil => simp [follow]
  | cons a as ih => rw [follow,ih,flatMap_cons,append_assoc]

section
variable (f : α → τ → τ)

/-- Where every guarded step goes through and keeps the relation, so does every guarded run. -/
theorem exists_simulation
    (hs : ∀ s a x, R s x → C s a → ∃ t, M.step s a = some (.ok t) ∧ R t (f a x)) (as : List α)
    (hi : R s x) (hg : M.Guarded C s as) :
    ∃ u, M.runFrom s as = some (.ok u) ∧ R u (follow f as x) := by
  induction as generalizing s x with
  | nil => exact ⟨s,rfl,hi⟩
  | cons a as ih =>
    obtain ⟨t,ht,hit⟩ := hs s a x hi hg.1
    obtain ⟨u,hu,hiu⟩ := ih hit (hg.2 t ht)
    exact ⟨u,(M.runFrom_cons_ok ht).mpr hu,hiu⟩

/-- Where every guarded step goes through and preserves `I`, so does every guarded run. -/
theorem exists_guarded_run (hs : ∀ s a, I s → C s a → ∃ t, M.step s a = some (.ok t) ∧ I t)
    (as : List α) {s : σ} (hi : I s) (hg : M.Guarded C s as) :
    ∃ u, M.runFrom s as = some (.ok u) ∧ I u :=
  M.exists_simulation (R := fun s (_ : Unit) => I s) (fun _ x => x) (fun s a _ => hs s a) as
    (x := ()) hi hg

/-- Where no guarded step fails and each keeps the relation, no guarded run fails. -/
theorem guarded_simulates
    (hs : ∀ s a r x, R s x → C s a → M.step s a = some r → ∃ t, r = .ok t ∧ R t (f a x))
    (as : List α) {s : σ} (hi : R s x) (hg : M.Guarded C s as) (h : M.runFrom s as = some r) :
    ∃ u, r = .ok u ∧ R u (follow f as x) := by
  induction as generalizing s x with
  | nil =>
    cases h
    exact ⟨s,rfl,hi⟩
  | cons a as ih =>
    rw [runFrom] at h
    split at h
    · rename_i t ht
      obtain ⟨t',he,hit⟩ := hs s a _ x hi hg.1 ht
      cases he
      exact ih hit (hg.2 t ht) h
    rename_i hn
    obtain ⟨t,rfl,hit⟩ := hs s a r x hi hg.1 h
    exact absurd h (hn t)

end

/-- Where no guarded step fails and each preserves `I`, no guarded run fails. -/
theorem guarded_run_ok (hs : ∀ s a r, I s → C s a → M.step s a = some r → ∃ t, r = .ok t ∧ I t)
    (as : List α) {s : σ} (hi : I s) (hg : M.Guarded C s as) (h : M.runFrom s as = some r) :
    ∃ u, r = .ok u ∧ I u :=
  M.guarded_simulates (R := fun s (_ : Unit) => I s) (fun _ x => x)
    (fun s a r _ => hs s a r) as (x := ()) hi hg h

/-- What `f` records along the run of `as` from `s`. -/
def history (f : σ → α → σ → τ → τ) : σ → τ → List α → τ
  | _, x, [] => x
  | s, x, a :: as =>
    match M.step s a with
    | some (.ok t) => history f t (f s a t x) as
    | _ => x

lemma history_invariant {f : σ → α → σ → τ → τ} {I : σ → τ → Prop}
    (hs : ∀ s a t x, I s x → M.step s a = some (.ok t) → I t (f s a t x)) (as : List α) (hi : I s x)
    (h : M.runFrom s as = some (.ok u)) : I u (M.history f s x as) := by
  induction as generalizing s x with
  | nil =>
    simp only [runFrom,some.injEq,Except.ok.injEq] at h
    exact h ▸ hi
  | cons a as ih =>
    obtain ⟨t,ht,hr⟩ := M.runFrom_cons_inv h
    rw [history,ht]
    exact ih (hs s a t x hi ht) hr

/-- A machine whose steps are those of `N` seen through `f` has its runs. -/
theorem runFrom_map {N : Machine τ α ε} {f : σ → τ}
    (h : ∀ s a, (M.step s a).map (Except.map f) = N.step (f s) a) (as : List α) (s : σ) :
    (M.runFrom s as).map (Except.map f) = N.runFrom (f s) as := by
  induction as generalizing s with
  | nil => rfl
  | cons a as ih =>
    have hs := h s a
    simp only [runFrom]
    rw [← hs]
    match M.step s a with
    | none => rfl
    | some (.error e) => rfl
    | some (.ok t) => exact ih t

end Machine
end RedRock.Lib
