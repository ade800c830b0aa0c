/-
  File:      SwiftBitcoinKernel/Logic/Throwing.lean
  Subject:   Computations over a state that may throw, and triples for them.

  A throwing function that calls out is read as a computation `Throwing σ ε α`: from a state it ends
  in a state, with a value or with an error. What it did before it threw stays done. Nothing of any
  one program is in this file.

  * `Throwing`, with its `Monad` and `MonadExcept` instances, and the primitive `act`;
  * `Throws P x Q R` -- from `P`, `x` returns with `Q` or throws with `R`; one rule for each
    primitive, for `bind`, for the conditional and for `tryCatch`.
-/
import Mathlib.Logic.Basic

namespace SwiftBitcoinKernel.Logic

variable {σ ε α β : Type}

/-! ## 1. Computations -/

/-- A computation over `σ` that answers an `α` or throws an `ε`. -/
def Throwing (σ ε α : Type) : Type := σ → Except ε α × σ

namespace Throwing

/-- What follows a computation: nothing, once it has thrown. -/
def andThen (r : Except ε α × σ) (f : α → Throwing σ ε β) : Except ε β × σ :=
  match r with
  | (.ok a, s) => f a s
  | (.error e, s) => (.error e, s)

/-- What catches a computation: nothing, unless it has thrown. -/
def orElse (r : Except ε α × σ) (f : ε → Throwing σ ε α) : Except ε α × σ :=
  match r with
  | (.ok a, s) => (.ok a, s)
  | (.error e, s) => f e s

instance : Monad (Throwing σ ε) where
  pure a := fun s => (.ok a, s)
  bind x f := fun s => andThen (x s) f

instance : MonadExcept ε (Throwing σ ε) where
  throw e := fun s => (.error e, s)
  tryCatch x f := fun s => orElse (x s) f

/-- One operation on the state, with its answer. -/
def act (f : σ → α × σ) : Throwing σ ε α := fun s => (.ok (f s).1, (f s).2)

end Throwing

/-! ## 2. Triples -/

open Throwing

/-- What a computation leaves: `Q` where it has returned, `R` where it has thrown. -/
def Outcome (r : Except ε α × σ) (Q : α → σ → Prop) (R : ε → σ → Prop) : Prop :=
  match r with
  | (.ok a, s) => Q a s
  | (.error e, s) => R e s

/-- **The triple**: from a state with `P`, `x` returns with `Q` or throws with `R`. -/
def Throws (P : σ → Prop) (x : Throwing σ ε α) (Q : α → σ → Prop) (R : ε → σ → Prop) : Prop :=
  ∀ s, P s → Outcome (x s) Q R

variable {P : σ → Prop} {Q : α → σ → Prop} {R : ε → σ → Prop}

theorem throws_pure (a : α) (h : ∀ s, P s → Q a s) : Throws P (pure a : Throwing σ ε α) Q R := h

theorem throws_throw (e : ε) (h : ∀ s, P s → R e s) :
    Throws P (throw e : Throwing σ ε α) Q R := h

theorem throws_act {f : σ → α × σ} (h : ∀ s, P s → Q (f s).1 (f s).2) :
    Throws P (act f : Throwing σ ε α) Q R := h

theorem throws_bind {x : Throwing σ ε α} {f : α → Throwing σ ε β} {Q' : β → σ → Prop}
    (h : Throws P x Q R) (hf : ∀ a, Throws (Q a) (f a) Q' R) : Throws P (x >>= f) Q' R := by
  intro s hs
  have hx := h s hs
  show Outcome (andThen (x s) f) Q' R
  cases hr : x s with
  | mk o s' =>
    rw [hr] at hx
    cases o with
    | ok a => exact hf a s' hx
    | error e => exact hx

/-- The handler starts from what the body leaves where it throws. -/
theorem throws_tryCatch {x : Throwing σ ε α} {f : ε → Throwing σ ε α} {R' : ε → σ → Prop}
    (h : Throws P x Q R') (hf : ∀ e, Throws (R' e) (f e) Q R) : Throws P (tryCatch x f) Q R := by
  intro s hs
  have hx := h s hs
  show Outcome (orElse (x s) f) Q R
  cases hr : x s with
  | mk o s' =>
    rw [hr] at hx
    cases o with
    | ok a => exact hx
    | error e => exact hf e s' hx

theorem throws_ite {c : Prop} [Decidable c] {x y : Throwing σ ε α}
    (hx : c → Throws P x Q R) (hy : ¬c → Throws P y Q R) :
    Throws P (if c then x else y) Q R := by
  by_cases hc : c
  · rw [if_pos hc]; exact hx hc
  · rw [if_neg hc]; exact hy hc

theorem throws_mono {x : Throwing σ ε α} {R' : ε → σ → Prop} (h : Throws P x Q R')
    (hR : ∀ e s, R' e s → R e s) : Throws P x Q R := by
  intro s hs
  have hx := h s hs
  cases hr : x s with
  | mk o s' =>
    rw [hr] at hx
    cases o with
    | ok a => exact hx
    | error e => exact hR e s' hx

end SwiftBitcoinKernel.Logic
