import Mathlib.Logic.Basic

/-!
# Computations that can fail

A sequence of two computations is taken apart by what it ends in: `of_bind_ok` for a value,
`of_bind_error` for a fault.
-/

namespace Lib

section
variable {ε α β : Type} {e : ε}

@[simp] theorem ok_bind (a : α) (f : α → Except ε β) : (.ok a : Except ε α) >>= f = f a := rfl

@[simp] theorem pure_ok (a : α) : (pure a : Except ε α) = .ok a := rfl

variable {x : Except ε α} {f : α → Except ε β}

theorem of_bind_ok {b : β} (h : x >>= f = .ok b) : ∃ a, x = .ok a ∧ f a = .ok b := by
  cases x with
  | error => cases h
  | ok a => exact ⟨a, rfl, h⟩

theorem of_bind_error (h : x >>= f = .error e) :
    x = .error e ∨ ∃ a, x = .ok a ∧ f a = .error e := by
  cases x with
  | error =>
    cases h
    exact .inl rfl
  | ok a => exact .inr ⟨a, rfl, h⟩

end

end Lib
