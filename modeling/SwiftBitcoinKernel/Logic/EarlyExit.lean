/-
  File:      SwiftBitcoinKernel/Logic/EarlyExit.lean
  Subject:   Computations over a state that may return early, loops of them, and triples.

  A function that yields, calls out and returns from the middle of its body is read here as a
  computation `Exit σ α`: from a state it ends in a state, with a value (`some a`, the body goes
  on) or without one (`none`, the function has returned). Nothing of any one program is in this
  file.

  * `Exit`, its `Monad` instance, and the primitives `stop`, `act`, `tell`;
  * `Exit.iter` -- `while true`: the body run `n` times, or until it stops;
  * `Triple P m Q R` -- from `P`, `m` goes on with `Q` or has returned with `R`; rules for the
    primitives, for `bind`, for the conditional and for `iter` (`triple_iter`);
  * `iter_last` -- `n + 1` rounds are `n` rounds and one more.
-/
import Mathlib.Logic.Basic

namespace SwiftBitcoinKernel.Logic

variable {σ α β : Type}

/-! ## 1. Computations -/

/-- A computation over `σ` that answers an `α`, or has returned early. -/
def Exit (σ α : Type) : Type := σ → Option α × σ

namespace Exit

/-- What follows a computation: nothing, once it has returned. -/
def andThen (r : Option α × σ) (f : α → Exit σ β) : Option β × σ :=
  match r with
  | (some a, s) => f a s
  | (none, s) => (none, s)

instance : Monad (Exit σ) where
  pure a := fun s => (some a, s)
  bind m f := fun s => andThen (m s) f

/-- The early return. -/
def stop : Exit σ α := fun s => (none, s)

/-- One operation on the state, with its answer. -/
def act (f : σ → α × σ) : Exit σ α := fun s => (some (f s).1, (f s).2)

/-- One operation on the state, without an answer. -/
def tell (f : σ → σ) : Exit σ Unit := fun s => (some (), f s)

@[simp] theorem pure_run (a : α) (s : σ) : (pure a : Exit σ α) s = (some a, s) := rfl

@[simp] theorem bind_run (m : Exit σ α) (f : α → Exit σ β) (s : σ) :
    (m >>= f) s = andThen (m s) f := rfl

@[simp] theorem stop_run (s : σ) : (stop : Exit σ α) s = (none, s) := rfl

@[simp] theorem act_run (f : σ → α × σ) (s : σ) : act f s = (some (f s).1, (f s).2) := rfl

@[simp] theorem tell_run (f : σ → σ) (s : σ) : tell f s = (some (), f s) := rfl

@[simp] theorem andThen_some (a : α) (s : σ) (f : α → Exit σ β) : andThen (some a, s) f = f a s :=
  rfl

@[simp] theorem andThen_none (s : σ) (f : α → Exit σ β) : andThen (none, s) f = (none, s) := rfl

/-! ## 2. Loops -/

/-- `while true` over a loop variable: `n` rounds of `body`, fewer if one of them returns. -/
def iter (body : α → Exit σ α) : Nat → α → Exit σ α
  | 0, a => pure a
  | n + 1, a => body a >>= iter body n

theorem iter_succ (body : α → Exit σ α) (n : Nat) (a : α) (s : σ) :
    iter body (n + 1) a s = andThen (body a s) (iter body n) := rfl

/-- `n + 1` rounds are `n` rounds and then one more. -/
theorem iter_last (body : α → Exit σ α) (n : Nat) (a : α) (s : σ) :
    iter body (n + 1) a s = andThen (iter body n a s) body := by
  induction n generalizing a s with
  | zero =>
    show andThen (body a s) (iter body 0) = body a s
    cases body a s with
    | mk o s₁ => cases o <;> rfl
  | succ n ih =>
    rw [iter_succ, iter_succ body n]
    cases body a s with
    | mk o s₁ =>
      cases o with
      | none => rfl
      | some b => exact ih b s₁

end Exit

/-! ## 3. Triples -/

open Exit

/-- What a computation leaves: `Q` where it goes on, `R` where it has returned. -/
def Leaves (r : Option α × σ) (Q : α → σ → Prop) (R : σ → Prop) : Prop :=
  match r with
  | (some a, s) => Q a s
  | (none, s) => R s

/-- **The triple**: from a state with `P`, `m` goes on with `Q` or has returned with `R`. -/
def Triple (P : σ → Prop) (m : Exit σ α) (Q : α → σ → Prop) (R : σ → Prop) : Prop :=
  ∀ s, P s → Leaves (m s) Q R

theorem leaves_mono {r : Option α × σ} {Q Q' : α → σ → Prop} {R R' : σ → Prop}
    (h : Leaves r Q R) (hQ : ∀ a s, Q a s → Q' a s) (hR : ∀ s, R s → R' s) : Leaves r Q' R' := by
  obtain ⟨o, s⟩ := r
  cases o with
  | none => exact hR s h
  | some a => exact hQ a s h

theorem leaves_andThen {r : Option α × σ} {f : α → Exit σ β} {Q : α → σ → Prop}
    {Q' : β → σ → Prop} {R : σ → Prop} (h : Leaves r Q R) (hf : ∀ a, Triple (Q a) (f a) Q' R) :
    Leaves (andThen r f) Q' R := by
  obtain ⟨o, s⟩ := r
  cases o with
  | none => exact h
  | some a => exact hf a s h

/-- Where it cannot go on, it has returned. -/
theorem leaves_returned {r : Option α × σ} {Q : α → σ → Prop} {R : σ → Prop} (h : Leaves r Q R)
    (hQ : ∀ a, ¬Q a r.2) : r.1 = none ∧ R r.2 := by
  obtain ⟨o, s⟩ := r
  cases o with
  | none => exact ⟨rfl, h⟩
  | some a => exact absurd h (hQ a)

/-- An assertion left on every way out holds in the state reached. -/
theorem leaves_state {r : Option α × σ} {I : σ → Prop} (h : Leaves r (fun _ => I) I) : I r.2 := by
  obtain ⟨o, s⟩ := r
  cases o <;> exact h

section Rules

variable {P P' : σ → Prop} {Q Q' : α → σ → Prop} {R R' : σ → Prop}

theorem triple_mono {m : Exit σ α} (h : Triple P m Q R) (hP : ∀ s, P' s → P s)
    (hQ : ∀ a s, Q a s → Q' a s) (hR : ∀ s, R s → R' s) : Triple P' m Q' R' :=
  fun s hs => leaves_mono (h s (hP s hs)) hQ hR

theorem triple_pure (a : α) (h : ∀ s, P s → Q a s) : Triple P (pure a) Q R := h

theorem triple_act {f : σ → α × σ} (h : ∀ s, P s → Q (f s).1 (f s).2) : Triple P (act f) Q R := h

theorem triple_tell {Q : Unit → σ → Prop} {f : σ → σ} (h : ∀ s, P s → Q () (f s)) :
    Triple P (tell f) Q R := h

theorem triple_bind {m : Exit σ α} {f : α → Exit σ β} {Q' : β → σ → Prop} (h : Triple P m Q R)
    (hf : ∀ a, Triple (Q a) (f a) Q' R) : Triple P (m >>= f) Q' R :=
  fun s hs => leaves_andThen (h s hs) hf

theorem triple_ite {c : Prop} [Decidable c] {m₁ m₂ : Exit σ α}
    (h₁ : c → Triple P m₁ Q R) (h₂ : ¬ c → Triple P m₂ Q R) :
    Triple P (if c then m₁ else m₂) Q R := by
  by_cases hc : c
  · rw [if_pos hc]; exact h₁ hc
  · rw [if_neg hc]; exact h₂ hc

/-- **The loop rule**: an assertion indexed by the rounds done, kept by one round, holds after
    every number of rounds; where the loop has returned, the body's exit assertion holds. -/
theorem triple_iter {I : Nat → α → σ → Prop} {body : α → Exit σ α} {R : σ → Prop}
    (h : ∀ k a, Triple (I k a) (body a) (I (k + 1)) R) (n : Nat) :
    ∀ k a, Triple (I k a) (iter body n a) (I (k + n)) R := by
  induction n with
  | zero => exact fun k a => triple_pure a fun s hs => hs
  | succ n ih =>
    intro k a
    refine triple_bind (h k a) fun b => ?_
    have e : k + (n + 1) = k + 1 + n := by omega
    rw [e]
    exact ih (k + 1) b

end Rules

end SwiftBitcoinKernel.Logic
