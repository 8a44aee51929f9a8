import Mathlib.Data.Option.Basic

/-!
# Computations over a state that may throw

A computation takes a state, and leaves a state behind also where it throws.

`Keeps` is an invariant of a computation, however it ends.  `Returns` is a total
rule: from every state with the first condition the computation ends with this
value, in a state with the second one.  Both go through sequences.  What a
computation returned is traced back with `bind_eq_ok`.
-/

/-- A computation over a state, which may throw. -/
def Stateful (σ ε α : Type) : Type := σ → Except ε α × σ

namespace Stateful

variable {σ ε α β : Type}

instance : Monad (Stateful σ ε) where
  pure a := fun s => (.ok a, s)
  bind x f := fun s =>
    match x s with
    | (.ok a, s) => f a s
    | (.error e, s) => (.error e, s)

/-- A value or an exception, without a look at the state. -/
def ofExcept (result : Except ε α) : Stateful σ ε α := fun s => (result, s)

theorem bind_of_ok {x : Stateful σ ε α} {s s₁ : σ} {a : α} (h : x s = (.ok a, s₁))
    (f : α → Stateful σ ε β) : (x >>= f) s = f a s₁ := by
  change (match x s with | (.ok a, s) => f a s | (.error e, s) => (.error e, s)) = _
  rw [h]

/-- A sequence returns only through a value of its first part. -/
theorem bind_eq_ok {x : Stateful σ ε α} {f : α → Stateful σ ε β} {s s' : σ} {b : β} :
    (x >>= f) s = (.ok b, s') ↔ ∃ a s₁, x s = (.ok a, s₁) ∧ f a s₁ = (.ok b, s') := by
  change (match x s with | (.ok a, s) => f a s | (.error e, s) => (.error e, s)) = _ ↔ _
  cases hx : x s with
  | mk result s₁ =>
      cases result with
      | error e => simp
      | ok a =>
          constructor
          · exact fun h => ⟨a, s₁, rfl, h⟩
          · rintro ⟨a, s₁, hrun, h⟩
            cases hrun
            exact h

/-! ## Invariants -/

/-- The computation leaves a state with `P` where it finds one. -/
def Keeps (P : σ → Prop) (x : Stateful σ ε α) : Prop := ∀ s, P s → P (x s).2

theorem Keeps.pure {P : σ → Prop} (a : α) : Keeps P (pure a : Stateful σ ε α) := fun _ h => h

theorem Keeps.bind {P : σ → Prop} {x : Stateful σ ε α} {f : α → Stateful σ ε β} (hx : Keeps P x)
    (hf : ∀ a, Keeps P (f a)) : Keeps P (x >>= f) := by
  intro s h
  have hs := hx s h
  change P (match x s with | (.ok a, s) => f a s | (.error e, s) => (.error e, s)).2
  cases hrun : x s with
  | mk result s₁ =>
      rw [hrun] at hs
      cases result with
      | error e => exact hs
      | ok a => exact hf a s₁ hs

theorem Keeps.of_eq {P : σ → Prop} {x : Stateful σ ε α} {s s' : σ} {result : Except ε α}
    (hx : Keeps P x) (hrun : x s = (result, s')) (h : P s) : P s' := by
  have hs := hx s h
  rw [hrun] at hs
  exact hs

/-! ## Total rules -/

/-- From every state with `P` the computation returns the value, and leaves a
state with `Q`. -/
def Returns (P : σ → Prop) (x : Stateful σ ε α) (a : α) (Q : σ → Prop) : Prop :=
  ∀ s, P s → ∃ s', x s = (.ok a, s') ∧ Q s'

theorem Returns.pure {P : σ → Prop} (a : α) : Returns P (pure a : Stateful σ ε α) a P :=
  fun s h => ⟨s, rfl, h⟩

theorem Returns.ofExcept {P : σ → Prop} {result : Except ε α} {a : α} (h : result = .ok a) :
    Returns P (ofExcept result) a P :=
  fun s hs => ⟨s, by rw [Stateful.ofExcept, h], hs⟩

theorem Returns.bind {P Q R : σ → Prop} {x : Stateful σ ε α} {f : α → Stateful σ ε β} {a : α}
    {b : β} (hx : Returns P x a Q) (hf : Returns Q (f a) b R) : Returns P (x >>= f) b R := by
  intro s h
  obtain ⟨s₁, hrun, hs₁⟩ := hx s h
  obtain ⟨s', hrun', hs'⟩ := hf s₁ hs₁
  exact ⟨s', (bind_of_ok hrun f).trans hrun', hs'⟩

end Stateful
