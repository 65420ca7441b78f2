import Mathlib

/-!
# Computations that may raise

A computation on a state that raises keeps the state it has reached, and a handler goes on from there.

* `bind_ok`, `bind_error`, `tryCatch_ok` and `tryCatch_error` run a computation with a known outcome.
* `tryCatch_cases`, `ofExcept_cases`, `get_cases` and `perform_cases` are rules for what holds of the
  result of a computation whatever the outcomes of its steps.
-/

universe u

namespace Raising

variable {ε σ α β : Type u} {x : EStateM ε σ α} {f : α → EStateM ε σ β} {g : ε → EStateM ε σ α}
  {s s' : σ} {a : α} {e : ε}

/-! ## Known outcomes -/

theorem bind_ok (h : x s = .ok a s') : (x >>= f) s = f a s' := by
  show EStateM.bind x f s = _
  rw [EStateM.bind, h]

theorem bind_error (h : x s = .error e s') : (x >>= f) s = .error e s' := by
  show EStateM.bind x f s = _
  rw [EStateM.bind, h]

theorem tryCatch_ok (h : x s = .ok a s') : tryCatch x g s = .ok a s' := by
  show EStateM.tryCatch x g s = _
  rw [EStateM.tryCatch, h]

theorem tryCatch_error (h : x s = .error e s') : tryCatch x g s = g e s' := by
  show EStateM.tryCatch x g s = _
  rw [EStateM.tryCatch, h]
  rfl

theorem error_ne_ok {outcome : Except ε α} (h : outcome = .error e) : outcome ≠ .ok a := by
  rw [h]
  nofun

/-! ## All outcomes -/

section cases

variable {P : EStateM.Result ε σ β → Prop} {Q : EStateM.Result ε σ α → Prop}

/-- A handler runs where the body has raised. -/
theorem tryCatch_cases (ok : ∀ a s', x s = .ok a s' → Q (.ok a s'))
    (error : ∀ e s', x s = .error e s' → Q (g e s')) : Q (tryCatch x g s) := by
  cases h : x s with
  | ok a s' =>
      rw [tryCatch_ok h]
      exact ok a s' h
  | error e s' =>
      rw [tryCatch_error h]
      exact error e s' h

/-- A value that is there, or an exception. -/
theorem ofExcept_cases {outcome : Except ε α} (ok : ∀ a, outcome = .ok a → P (f a s))
    (error : ∀ e, outcome = .error e → P (.error e s)) : P ((ofExcept outcome >>= f) s) := by
  cases outcome with
  | ok a =>
      have hrun : (ofExcept (.ok a) : EStateM ε σ α) s = .ok a s := rfl
      rw [bind_ok hrun]
      exact ok a rfl
  | error e =>
      have hrun : (ofExcept (.error e) : EStateM ε σ α) s = .error e s := rfl
      rw [bind_error hrun]
      exact error e rfl

end cases

/-! ## Steps with an effect -/

section steps

variable {ε σ β : Type} {s : σ} {f : Unit → EStateM ε σ β} {P : EStateM.Result ε σ β → Prop}
  {outcome : Except ε Unit} {effect : σ → σ}

/-- A step with an effect, or that raises without one. -/
def perform (outcome : Except ε Unit) (effect : σ → σ) : EStateM ε σ Unit := fun s ↦
  match outcome with
  | .ok () => .ok () (effect s)
  | .error e => .error e s

/-- Looking at the state. -/
theorem get_cases {f : σ → EStateM ε σ β} (h : P (f s s)) : P ((get >>= f) s) := h

/-- A step that has its effect, or none. -/
theorem perform_cases (ok : outcome = .ok () → P (f () (effect s)))
    (error : ∀ e, outcome = .error e → P (.error e s)) : P ((perform outcome effect >>= f) s) := by
  cases outcome with
  | ok a =>
      have hrun : perform (.ok a : Except ε Unit) effect s = .ok () (effect s) := rfl
      rw [bind_ok hrun]
      exact ok rfl
  | error e =>
      have hrun : perform (.error e) effect s = .error e s := rfl
      rw [bind_error hrun]
      exact error e rfl

end steps

end Raising
