/-
  File:      SwiftBitcoinKernel/Logic/Relating.lean
  Subject:   Two computations that may fail, side by side.

  Two computations are related if they fail with one error, of a kind that is allowed, or return
  related values. A property of pairs of runs is then proved along the program text, one rule for
  each of its constructs. Nothing of any one program is in this file.

  * `of_except_bind` -- a sequence that returns, taken apart;
  * `Related E R x y`, `Related.bind`, `Related.mono`, `Related.known`.
-/
import Mathlib.Logic.Basic

namespace SwiftBitcoinKernel.Logic

variable {ε α α' β β' : Type}

/-- An `Except` that returns has gone through its first part. -/
theorem of_except_bind {x : Except ε α} {f : α → Except ε β} {b : β} (h : (x >>= f) = .ok b) :
    ∃ a, x = .ok a ∧ f a = .ok b := by
  cases x with
  | error e => cases h
  | ok a => exact ⟨a, rfl, h⟩

/-- **Related computations**: one error with `E`, or values with `R`. -/
inductive Related (E : ε → Prop) (R : α → α' → Prop) : Except ε α → Except ε α' → Prop
  | error {e : ε} (h : E e) : Related E R (.error e) (.error e)
  | ok {a : α} {a' : α'} (h : R a a') : Related E R (.ok a) (.ok a')

section Rules

variable {E : ε → Prop} {R : α → α' → Prop} {S : β → β' → Prop} {x : Except ε α}
  {x' : Except ε α'}

theorem Related.bind {f : α → Except ε β} {f' : α' → Except ε β'} (h : Related E R x x')
    (hnext : ∀ a a', R a a' → Related E S (f a) (f' a')) :
    Related E S (x >>= f) (x' >>= f') := by
  cases h with
  | error h => exact .error h
  | ok h => exact hnext _ _ h

theorem Related.mono {R' : α → α' → Prop} (h : Related E R x x')
    (hR : ∀ a a', R a a' → R' a a') : Related E R' x x' := by
  cases h with
  | error h => exact .error h
  | ok h => exact .ok (hR _ _ h)

/-- What is known of the two computations is known of their values. -/
theorem Related.known (h : Related E R x x') :
    Related E (fun a a' => R a a' ∧ x = .ok a ∧ x' = .ok a') x x' := by
  cases h with
  | error h => exact .error h
  | ok h => exact .ok ⟨h, rfl, rfl⟩

end Rules

end SwiftBitcoinKernel.Logic
