import Mathlib

/-! Postconditions of computations that may end in an error. `Meets allowed x P`
says that `x` ends in a value satisfying `P` or in one of the allowed errors. -/
namespace Kthxvm.Lib.Triple

universe u v

variable {ε : Type v} {α β : Type u} {allowed : ε → Prop}

def Meets (allowed : ε → Prop) (x : Except ε α) (P : α → Prop) : Prop :=
  match x with
  | .ok a => P a
  | .error e => allowed e

theorem Meets.ok {P : α → Prop} {a : α} (h : P a) : Meets allowed (.ok a) P := h

theorem Meets.error {P : α → Prop} {e : ε} (h : allowed e) : Meets allowed (.error e) P := h

theorem Meets.of_eq {x : Except ε α} {P : α → Prop} {a : α} (h : x = .ok a) (hP : P a) :
    Meets allowed x P := by
  rw [h]
  exact hP

theorem Meets.bind {x : Except ε α} {f : α → Except ε β} {P : α → Prop} {Q : β → Prop}
    (hx : Meets allowed x P) (hf : ∀ a, P a → Meets allowed (f a) Q) :
    Meets allowed (x >>= f) Q := by
  cases x with
  | ok a => exact hf a hx
  | error e => exact hx

theorem Meets.step {x : Except ε α} {f : α → Except ε β} {Q : β → Prop} {a : α}
    (h : x = .ok a) (hf : Meets allowed (f a) Q) : Meets allowed (x >>= f) Q := by
  rw [h]
  exact hf

theorem Meets.mono {allowed' : ε → Prop} {x : Except ε α} {P Q : α → Prop}
    (hx : Meets allowed x P) (he : ∀ e, allowed e → allowed' e) (h : ∀ a, P a → Q a) :
    Meets allowed' x Q := by
  cases x with
  | ok a => exact h a hx
  | error e => exact he e hx

theorem Meets.allowed_of_error {x : Except ε α} {P : α → Prop} (h : Meets allowed x P) {e : ε}
    (he : x = .error e) : allowed e := by
  rw [he] at h
  exact h

/-- Continuations that agree wherever the error `e` is not met may be exchanged. -/
theorem bind_eq_of_ne_error {x : Except ε α} {f f' : α → Except ε β} {e : ε}
    (h : x >>= f ≠ .error e) (hf : ∀ a, f a ≠ .error e → f' a = f a) : x >>= f' = x >>= f := by
  cases x with
  | ok a => exact hf a h
  | error e' => rfl

end Kthxvm.Lib.Triple
