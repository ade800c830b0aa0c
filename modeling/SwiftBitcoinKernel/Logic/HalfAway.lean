/-
  File:      SwiftBitcoinKernel/Logic/HalfAway.lean
  Subject:   The nearest integer, with ties away from zero.

  Over any ordered field with a floor. Mathlib's `round` has its ties upwards, which is the same for
  what is not negative.

  * `HalfAway x n` -- `n` is the nearest integer to `x`, and farther from zero where there are two;
  * `roundAway` -- the one there is (`halfAway_iff`), computed;
  * `roundAway_intCast`, `roundAway_neg`, `roundAway_mono`, `abs_roundAway_le`.
-/
import Mathlib.Algebra.Order.Round
import Mathlib.Tactic.Abel
import Mathlib.Tactic.Linarith

namespace SwiftBitcoinKernel.Logic

variable {K : Type*} [Field K] [LinearOrder K]

/-- The nearest integer; of two, the one away from zero. -/
def HalfAway (x : K) (n : ℤ) : Prop := |x - n| ≤ 1 / 2 ∧ (|x - n| = 1 / 2 → |x| < |(n : K)|)

theorem halfAway_neg {x : K} {n : ℤ} (h : HalfAway x n) : HalfAway (-x) (-n) := by
  obtain ⟨hnear, htie⟩ := h
  have habs : |-x - ((-n : ℤ) : K)| = |x - n| := by
    rw [Int.cast_neg, ← abs_neg]
    congr 1
    abel
  refine ⟨habs.symm ▸ hnear, fun hhalf => ?_⟩
  rw [abs_neg, Int.cast_neg, abs_neg]
  exact htie (habs ▸ hhalf)

variable [FloorRing K]

/-- It, computed. -/
def roundAway (x : K) : ℤ := if 0 ≤ x then round x else -round (-x)

theorem roundAway_of_nonneg {x : K} (h : 0 ≤ x) : roundAway x = round x := if_pos h

theorem roundAway_of_neg {x : K} (h : x < 0) : roundAway x = -round (-x) := if_neg (not_le.2 h)

variable [IsStrictOrderedRing K]

theorem roundAway_zero : roundAway (0 : K) = 0 := by
  rw [roundAway_of_nonneg le_rfl, round_zero]

theorem roundAway_neg (x : K) : roundAway (-x) = -roundAway x := by
  rcases lt_trichotomy x 0 with h | h | h
  · rw [roundAway_of_neg h, roundAway_of_nonneg (by linarith), neg_neg]
  · rw [h, neg_zero, roundAway_zero, neg_zero]
  · rw [roundAway_of_nonneg h.le, roundAway_of_neg (by linarith), neg_neg]

theorem roundAway_intCast (n : ℤ) : roundAway (n : K) = n := by
  rcases le_or_gt 0 (n : K) with h | h
  · rw [roundAway_of_nonneg h, round_intCast]
  · rw [roundAway_of_neg h, ← Int.cast_neg, round_intCast, neg_neg]

theorem round_nonneg {x : K} (h : 0 ≤ x) : 0 ≤ round x := by
  rw [round_eq]
  exact Int.floor_nonneg.2 (by linarith)

/-- Larger numbers are rounded to larger ones. -/
theorem roundAway_mono {x y : K} (h : x ≤ y) : roundAway x ≤ roundAway y := by
  have hround : ∀ {a b : K}, a ≤ b → round a ≤ round b := by
    intro a b hab
    rw [round_eq, round_eq]
    exact Int.floor_mono (by linarith)
  rcases le_or_gt 0 x with hx | hx
  · rw [roundAway_of_nonneg hx, roundAway_of_nonneg (hx.trans h)]
    exact hround h
  · rw [roundAway_of_neg hx]
    have hleft := round_nonneg (show 0 ≤ -x by linarith)
    rcases le_or_gt 0 y with hy | hy
    · rw [roundAway_of_nonneg hy]
      have hright := round_nonneg hy
      omega
    · rw [roundAway_of_neg hy]
      have := hround (show -y ≤ -x by linarith)
      omega

/-- Of what is not negative, it is the one `round` finds. -/
theorem halfAway_of_nonneg {x : K} (hx : 0 ≤ x) (n : ℤ) : HalfAway x n ↔ n = round x := by
  rw [eq_comm, round_eq_iff, Set.mem_Ico]
  constructor
  · intro ⟨hnear, htie⟩
    have hbounds := abs_le.1 hnear
    refine ⟨by linarith, lt_of_le_of_ne (by linarith) fun heq => ?_⟩
    -- a tie below `x` is not away from zero
    have hhalf : x - n = 1 / 2 := by linarith
    have haway := htie (by rw [hhalf]; exact abs_of_pos (by norm_num))
    rw [abs_of_nonneg hx] at haway
    rcases le_or_gt 0 (n : K) with hn | hn
    · rw [abs_of_nonneg hn] at haway
      linarith
    · rw [abs_of_neg hn] at haway
      have hminus : (n : K) ≤ -1 := by
        have hint : n ≤ -1 := by
          have : n < 0 := by exact_mod_cast hn
          omega
        exact_mod_cast hint
      linarith
  · intro ⟨hlow, hhigh⟩
    refine ⟨abs_le.2 ⟨by linarith, by linarith⟩, fun hhalf => ?_⟩
    rcases abs_eq (by norm_num : (0 : K) ≤ 1 / 2) |>.1 hhalf with h | h
    · linarith
    · rw [abs_of_nonneg hx, abs_of_nonneg (by linarith)]
      linarith

/-- **There is one nearest integer away from zero, and it is computed.** -/
theorem halfAway_iff (x : K) (n : ℤ) : HalfAway x n ↔ n = roundAway x := by
  rcases le_or_gt 0 x with hx | hx
  · rw [roundAway_of_nonneg hx]
    exact halfAway_of_nonneg hx n
  · rw [roundAway_of_neg hx]
    have hminus : 0 ≤ -x := by linarith
    constructor
    · intro h
      have := (halfAway_of_nonneg hminus (-n)).1 (halfAway_neg h)
      omega
    · intro h
      have hneg := halfAway_neg ((halfAway_of_nonneg hminus (round (-x))).2 rfl)
      rw [neg_neg, ← h] at hneg
      exact hneg

theorem halfAway_roundAway (x : K) : HalfAway x (roundAway x) := (halfAway_iff x _).2 rfl

/-- It is at most half away. -/
theorem abs_roundAway_le (x : K) : |(roundAway x : K)| ≤ |x| + 1 / 2 := by
  have hnear := (halfAway_roundAway x).1
  have htriangle := abs_sub_abs_le_abs_sub ((roundAway x : ℤ) : K) x
  rw [abs_sub_comm] at htriangle
  linarith

end SwiftBitcoinKernel.Logic
