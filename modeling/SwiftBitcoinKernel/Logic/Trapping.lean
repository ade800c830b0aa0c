/-
  File:      SwiftBitcoinKernel/Logic/Trapping.lean
  Subject:   Computations that may trap, and the loop without a bound.

  A trap is no error: no handler catches it, and nothing runs after it. A `while true` is run on
  fuel, and answers `none` where the fuel is used up. Nothing of any one program is in this file.

  * `Checked` -- a value, or a trap;
  * `Fault`, `check`, `lift`, `catching` -- traps beside the errors of `Throwing`;
  * `Round`, `whileTrue` -- the loop, over the variables it carries from round to round;
  * `whileTrue_of_rounds` -- what its rounds do one after the other, the loop does, whatever fuel it
    has beyond their number; `whileTrue_cases` -- the loop, by what makes a round go on;
  * `Refines` -- a computation does what one without traps does, unless it traps; one rule for each
    way to build it.
-/
import SwiftBitcoinKernel.Logic.Throwing

namespace SwiftBitcoinKernel.Logic

variable {σ ε α β γ : Type}

/-! ## 1. Traps -/

/-- A value, or a trap. -/
inductive Checked (α : Type) where
  | value (a : α)
  | trap
  deriving DecidableEq, Repr

/-- There is no trap. -/
def Checked.returns : Checked α → Bool
  | .value _ => true
  | .trap => false

instance : Monad Checked where
  pure := .value
  bind x f := match x with
    | .value a => f a
    | .trap => .trap

/-- How a computation ends that does not return. -/
inductive Fault (ε : Type) where
  | trap
  | threw (e : ε)
  deriving DecidableEq, Repr

/-- A checked value, among the effects. -/
def check : Checked α → Throwing σ (Fault ε) α
  | .value a => pure a
  | .trap => throw .trap

/-- What a computation without traps leaves. -/
def lifted : Except ε α × σ → Except (Fault ε) α × σ
  | (.ok a, s) => (.ok a, s)
  | (.error e, s) => (.error (.threw e), s)

/-- A computation without traps, among those that may have one. -/
def lift (x : Throwing σ ε α) : Throwing σ (Fault ε) α := fun s => lifted (x s)

/-- `do … catch`: traps are not caught. -/
def catching (x : Throwing σ (Fault ε) α) (f : ε → Throwing σ (Fault ε) α) :
    Throwing σ (Fault ε) α :=
  tryCatch x fun
    | .trap => throw .trap
    | .threw e => f e

namespace Throwing

variable {s s' : σ} {a : α} {e : ε} {x : Throwing σ ε α} {f : α → Throwing σ ε β}

theorem bind_of_ok (h : x s = (.ok a, s')) : (x >>= f) s = f a s' := by
  show andThen (x s) f = f a s'
  rw [h]
  rfl

theorem bind_of_error (h : x s = (.error e, s')) : (x >>= f) s = (.error e, s') := by
  show andThen (x s) f = (.error e, s')
  rw [h]
  rfl

/-- A bind that has returned, by its parts. -/
theorem of_bind_ok {b : β} (h : (x >>= f) s = (.ok b, s')) :
    ∃ a s₁, x s = (.ok a, s₁) ∧ f a s₁ = (.ok b, s') := by
  change andThen (x s) f = (.ok b, s') at h
  match hx : x s with
  | (.ok a, s₁) =>
    rw [hx] at h
    exact ⟨a, s₁, rfl, h⟩
  | (.error e, s₁) =>
    rw [hx] at h
    cases h

end Throwing

section Catching

variable {s s' : σ} {a : α} {e : ε} {x : Throwing σ (Fault ε) α}
  {f : ε → Throwing σ (Fault ε) α}

theorem catching_of_ok (h : x s = (.ok a, s')) : catching x f s = (.ok a, s') := by
  show Throwing.orElse (x s) _ = _
  rw [h]
  rfl

theorem catching_of_threw (h : x s = (.error (.threw e), s')) : catching x f s = f e s' := by
  show Throwing.orElse (x s) _ = _
  rw [h]
  rfl

theorem catching_of_trap (h : x s = (.error .trap, s')) : catching x f s = (.error .trap, s') := by
  show Throwing.orElse (x s) _ = _
  rw [h]
  rfl

end Catching

/-! ## 2. The loop -/

/-- How a round of a loop ends: with `continue`, or with a value to return. -/
inductive Round (β α : Type) where
  | again (b : β)
  | done (a : α)
  deriving DecidableEq, Repr

/-- `while true`, for at most so many rounds. -/
def whileTrue (body : β → Throwing σ ε (Round β α)) : Nat → β → Throwing σ ε (Option α)
  | 0, _ => pure none
  | fuel + 1, b => do
    match ← body b with
    | .again b' => whileTrue body fuel b'
    | .done a => return some a

/-- The round that is the last, and what the loop leaves after it. -/
inductive Ends : Except ε (Round β α) × σ → Except ε (Option α) × σ → Prop where
  | done {a : α} {s : σ} : Ends (.ok (.done a), s) (.ok (some a), s)
  | threw {e : ε} {s : σ} : Ends (.error e, s) (.error e, s)

variable {body : β → Throwing σ ε (Round β α)}

theorem whileTrue_again {fuel : Nat} {b b' : β} {s s' : σ}
    (h : body b s = (.ok (.again b'), s')) :
    whileTrue body (fuel + 1) b s = whileTrue body fuel b' s' :=
  Throwing.bind_of_ok h

theorem whileTrue_ends {fuel : Nat} {b : β} {s : σ} {r : Except ε (Option α) × σ}
    (h : Ends (body b s) r) : whileTrue body (fuel + 1) b s = r := by
  generalize hlast : body b s = last at h
  cases h with
  | done => exact Throwing.bind_of_ok hlast
  | threw => exact Throwing.bind_of_error hlast

/-- **The loop by its rounds**: `k` of them go on, and the next is the last. -/
theorem whileTrue_of_rounds {b : Nat → β} {s : Nat → σ} {k fuel : Nat}
    {r : Except ε (Option α) × σ}
    (hagain : ∀ i < k, body (b i) (s i) = (.ok (.again (b (i + 1))), s (i + 1)))
    (hlast : Ends (body (b k) (s k)) r) (hfuel : k < fuel) :
    whileTrue body fuel (b 0) (s 0) = r := by
  induction k generalizing b s fuel with
  | zero =>
    obtain ⟨fuel, rfl⟩ := Nat.exists_eq_succ_of_ne_zero (Nat.ne_of_gt hfuel)
    exact whileTrue_ends hlast
  | succ k ih =>
    obtain ⟨fuel, rfl⟩ := Nat.exists_eq_succ_of_ne_zero (Nat.ne_of_gt (Nat.zero_lt_of_lt hfuel))
    rw [whileTrue_again (hagain 0 (Nat.succ_pos k))]
    exact ih (b := fun i => b (i + 1)) (s := fun i => s (i + 1))
      (fun i hi => hagain (i + 1) (Nat.succ_lt_succ hi)) hlast (Nat.lt_of_succ_lt_succ hfuel)

/-- Where every round goes on, the fuel is used up. -/
theorem whileTrue_exhausted {b : Nat → β} {s : Nat → σ} {fuel : Nat}
    (hagain : ∀ i < fuel, body (b i) (s i) = (.ok (.again (b (i + 1))), s (i + 1))) :
    whileTrue body fuel (b 0) (s 0) = (.ok none, s fuel) := by
  induction fuel generalizing b s with
  | zero => rfl
  | succ fuel ih =>
    rw [whileTrue_again (hagain 0 (Nat.succ_pos fuel))]
    exact ih (b := fun i => b (i + 1)) (s := fun i => s (i + 1))
      fun i hi => hagain (i + 1) (Nat.succ_lt_succ hi)

/-- Up to a bound, a property holds, or there is a first exception. -/
theorem forall_lt_or_first (P : Nat → Prop) (n : Nat) :
    (∀ i < n, P i) ∨ ∃ k < n, (∀ i < k, P i) ∧ ¬P k := by
  induction n with
  | zero => exact .inl fun i hi => absurd hi (Nat.not_lt_zero i)
  | succ n ih =>
    rcases ih with hall | ⟨k, hk, hfirst⟩
    · by_cases hn : P n
      · refine .inl fun i hi => ?_
        rcases Nat.lt_succ_iff_lt_or_eq.1 hi with hlt | rfl
        · exact hall i hlt
        · exact hn
      · exact .inr ⟨n, Nat.lt_succ_self n, hall, hn⟩
    · exact .inr ⟨k, Nat.lt_succ_of_lt hk, hfirst⟩

/-- **The loop by what makes a round go on**: the fuel is used up, or the first round that does not
    go on is the last. -/
theorem whileTrue_cases {P : Nat → Prop} {b : Nat → β} {s : Nat → σ}
    (hagain : ∀ i, P i → body (b i) (s i) = (.ok (.again (b (i + 1))), s (i + 1))) (fuel : Nat) :
    ((∀ i < fuel, P i) ∧ whileTrue body fuel (b 0) (s 0) = (.ok none, s fuel)) ∨
      ∃ k < fuel, (∀ i < k, P i) ∧ ¬P k ∧
        ∀ r, Ends (body (b k) (s k)) r → whileTrue body fuel (b 0) (s 0) = r := by
  rcases forall_lt_or_first P fuel with hall | ⟨k, hk, hbefore, hstop⟩
  · exact .inl ⟨hall, whileTrue_exhausted fun i hi => hagain i (hall i hi)⟩
  · refine .inr ⟨k, hk, hbefore, hstop, fun r hlast => ?_⟩
    exact whileTrue_of_rounds (fun i hi => hagain i (hbefore i hi)) hlast hk

/-! ## 3. Traps aside -/

/-- What two computations leave, where the first may have trapped. -/
inductive Agrees (R : β → α → Prop) : Except (Fault ε) β × σ → Except ε α × σ → Prop where
  | trap {s : σ} {r : Except ε α × σ} : Agrees R (.error .trap, s) r
  | ok {b : β} {a : α} {s : σ} (h : R b a) : Agrees R (.ok b, s) (.ok a, s)
  | threw {e : ε} {s : σ} : Agrees R (.error (.threw e), s) (.error e, s)

/-- **Refinement**: unless `x` traps, it leaves what `y` does, with values that `R` relates. -/
def Refines (R : β → α → Prop) (x : Throwing σ (Fault ε) β) (y : Throwing σ ε α) : Prop :=
  ∀ s, Agrees R (x s) (y s)

section Refines

variable {α' β' : Type} {R : β → α → Prop} {R' : β' → α' → Prop} {x : Throwing σ (Fault ε) β}
  {y : Throwing σ ε α}

theorem refines_pure {b : β} {a : α} (h : R b a) :
    Refines R (pure b : Throwing σ (Fault ε) β) (pure a : Throwing σ ε α) := fun _ => .ok h

theorem refines_throw (e : ε) :
    Refines R (throw (.threw e) : Throwing σ (Fault ε) β) (throw e : Throwing σ ε α) :=
  fun _ => .threw

theorem refines_lift (y : Throwing σ ε α) : Refines Eq (lift y) y := by
  intro s
  unfold lift
  generalize y s = r
  match r with
  | (.ok a, s') => exact .ok rfl
  | (.error e, s') => exact .threw

theorem refines_bind {f : β → Throwing σ (Fault ε) β'} {g : α → Throwing σ ε α'}
    (h : Refines R x y) (hf : ∀ b a, R b a → Refines R' (f b) (g a)) :
    Refines R' (x >>= f) (y >>= g) := by
  intro s
  have hx := h s
  show Agrees R' (Throwing.andThen (x s) f) (Throwing.andThen (y s) g)
  generalize x s = r, y s = r' at hx ⊢
  cases hx with
  | trap => exact .trap
  | ok hr => exact hf _ _ hr _
  | threw => exact .threw

/-- Where a check fails, nothing more is asked. -/
theorem refines_check {γ : Type} {c : Checked γ} {f : γ → Throwing σ (Fault ε) β}
    (hf : ∀ v, c = .value v → Refines R (f v) y) : Refines R (check c >>= f) y := by
  intro s
  cases c with
  | value v => exact hf v rfl s
  | trap => exact .trap

theorem refines_catching {f : ε → Throwing σ (Fault ε) β} {g : ε → Throwing σ ε α}
    (h : Refines R x y) (hf : ∀ e, Refines R (f e) (g e)) :
    Refines R (catching x f) (tryCatch y g) := by
  intro s
  have hx := h s
  show Agrees R (Throwing.orElse (x s) _) (Throwing.orElse (y s) g)
  generalize x s = r, y s = r' at hx ⊢
  cases hx with
  | trap => exact .trap
  | ok hr => exact .ok hr
  | threw => exact hf _ _

end Refines

end SwiftBitcoinKernel.Logic
