/-
  File:      SwiftBitcoinKernel/Models/BTCAmount.lean
  Subject:   `BTCAmount`, between satoshis and a BTC `Decimal`.

  A `Decimal` is a sign, a mantissa of 128 bits and a decimal exponent of eight, or NaN. What
  Foundation computes with it is a parameter, `DecimalOps`; what is assumed of it is `Lawful`: exact
  where the result has a representation, NaN where it is too large for one, `.plain` rounding half
  away from zero, and an `int64Value` that is exact in range and never traps.

  * `btc`, `ofBTC`, `initFrom` -- the source's `btc`, `init(btc:)`, `init(from:)`;
  * `product_cases` -- the product with 10^8 has a representation, or is too large for any;
  * `ofBTC_exact` -- so an amount that fits is exact: the product is rounded once;
  * `ofBTC_faithful` -- with what follows from it: the round trip, the order, the sign;
  * `ofBTC_refuses_iff` -- an amount that does not fit is not noticed.
-/
import Mathlib.Data.Rat.Floor
import Mathlib.Tactic.NormNum
import Mathlib.Tactic.Positivity
import SwiftBitcoinKernel.Logic.HalfAway
import SwiftBitcoinKernel.Logic.Trapping

namespace SwiftBitcoinKernel

open Logic

/-! ## 1. Decimals -/

/-- A `Decimal` that is a number. A sign over a zero mantissa is how NaN is kept. -/
structure FiniteDecimal where
  negative : Bool
  mantissa : Nat
  exponent : Int
  mantissa_lt : mantissa < 340282366920938463463374607431768211456
  exponent_ge : -128 ≤ exponent
  exponent_le : exponent ≤ 127
  mantissa_ne : negative = true → mantissa ≠ 0

/-- `Decimal`. -/
inductive Decimal where
  | nan
  | finite (d : FiniteDecimal)

namespace FiniteDecimal

/-- The sign, as a factor. -/
def factor : Bool → ℚ
  | true => -1
  | false => 1

/-- The number it stands for. -/
def value (d : FiniteDecimal) : ℚ := factor d.negative * d.mantissa * 10 ^ d.exponent

/-- `-d`: zero has no other sign. -/
def neg (d : FiniteDecimal) : FiniteDecimal where
  negative := !d.negative && d.mantissa != 0
  mantissa := d.mantissa
  exponent := d.exponent
  mantissa_lt := d.mantissa_lt
  exponent_ge := d.exponent_ge
  exponent_le := d.exponent_le
  mantissa_ne h := bne_iff_ne.1 (Bool.and_eq_true_iff.1 h).2

/-- The integer, as it stands. -/
def ofInt (n : Int) (h : n.natAbs < 340282366920938463463374607431768211456) :
    FiniteDecimal where
  negative := n < 0
  mantissa := n.natAbs
  exponent := 0
  mantissa_lt := h
  exponent_ge := by decide
  exponent_le := by decide
  mantissa_ne hneg := by
    have := of_decide_eq_true hneg
    omega

theorem toInt_bounds (n : Int64) :
    -9223372036854775808 ≤ n.toInt ∧ n.toInt < 9223372036854775808 := ⟨n.le_toInt, n.toInt_lt⟩

theorem natAbs_toInt_lt (n : Int64) :
    n.toInt.natAbs < 340282366920938463463374607431768211456 := by
  have hbounds := toInt_bounds n
  omega

/-- `Decimal(_: Int64)`. -/
def ofInt64 (n : Int64) : FiniteDecimal := ofInt n.toInt (natAbs_toInt_lt n)

theorem value_neg (d : FiniteDecimal) : d.neg.value = -d.value := by
  unfold value neg
  dsimp only
  by_cases hm : d.mantissa = 0
  · simp [hm]
  · rw [bne_iff_ne.2 hm, Bool.and_true]
    cases d.negative with
    | true => simp [factor]
    | false => simp [factor]

theorem value_ofInt (n : Int) (h : n.natAbs < 340282366920938463463374607431768211456) :
    (ofInt n h).value = n := by
  unfold value ofInt
  dsimp only
  rw [zpow_zero, mul_one, ← Int.cast_natCast n.natAbs]
  by_cases hneg : n < 0
  · have habs : (n.natAbs : ℤ) = -n := by omega
    rw [decide_eq_true hneg, habs, Int.cast_neg]
    unfold factor
    rw [neg_one_mul, neg_neg]
  · have habs : (n.natAbs : ℤ) = n := by omega
    rw [decide_eq_false hneg, habs]
    exact one_mul _

theorem value_ofInt64 (n : Int64) : (ofInt64 n).value = n.toInt := value_ofInt _ _

/-- Its distance from zero. -/
theorem abs_value (d : FiniteDecimal) : |d.value| = d.mantissa * (10 : ℚ) ^ d.exponent := by
  unfold value
  have hpower : (0 : ℚ) < 10 ^ d.exponent := zpow_pos (by norm_num) _
  rw [abs_mul, abs_mul, abs_of_pos hpower, Nat.abs_cast]
  cases d.negative with
  | true => norm_num [factor]
  | false => norm_num [factor]

/-- What no `Decimal` reaches. -/
def limit : ℚ := 340282366920938463463374607431768211456 * 10 ^ (127 : ℤ)

theorem abs_value_lt (d : FiniteDecimal) : |d.value| < limit := by
  rw [abs_value]
  have hmantissa : (d.mantissa : ℚ) < 340282366920938463463374607431768211456 := by
    exact_mod_cast d.mantissa_lt
  have hpower : (10 : ℚ) ^ d.exponent ≤ 10 ^ (127 : ℤ) :=
    zpow_le_zpow_right₀ (by norm_num) d.exponent_le
  have hpos : (0 : ℚ) < 10 ^ (127 : ℤ) := zpow_pos (by norm_num) _
  exact mul_lt_mul hmantissa hpower (zpow_pos (by norm_num) _) (by norm_num)

/-! ## 2. What has a representation -/

/-- Some `Decimal` is this number. -/
def Representable (q : ℚ) : Prop := ∃ d : FiniteDecimal, d.value = q

/-- Eight places up, with `k` of them in the mantissa and the others in the exponent. -/
theorem representable_shift (d : FiniteDecimal) (k : Nat) (e : Int)
    (hm : d.mantissa * 10 ^ k < 340282366920938463463374607431768211456) (hlow : -128 ≤ e)
    (hhigh : e ≤ 127) (hshift : d.exponent + 8 = e + k) :
    Representable (d.value * 100000000) := by
  have hne : d.negative = true → d.mantissa * 10 ^ k ≠ 0 := fun h =>
    Nat.mul_ne_zero (d.mantissa_ne h) (pow_ne_zero k (by decide))
  refine ⟨⟨d.negative, d.mantissa * 10 ^ k, e, hm, hlow, hhigh, hne⟩, ?_⟩
  unfold value
  dsimp only
  have hten : (10 : ℚ) ≠ 0 := by norm_num
  have hpower : (10 : ℚ) ^ d.exponent * 100000000 = 10 ^ e * 10 ^ k := by
    calc (10 : ℚ) ^ d.exponent * 100000000 = 10 ^ d.exponent * 10 ^ (8 : ℤ) := by norm_num
      _ = 10 ^ (d.exponent + 8) := (zpow_add₀ hten _ _).symm
      _ = 10 ^ (e + k) := by rw [hshift]
      _ = 10 ^ e * 10 ^ k := by rw [zpow_add₀ hten, zpow_natCast]
  rw [mul_assoc (factor d.negative * (d.mantissa : ℚ)), hpower]
  push_cast
  ring

/-- The product with 10^8 has a representation, or is too large for any. -/
theorem product_cases (d : FiniteDecimal) :
    Representable (d.value * 100000000) ∨ limit ≤ |d.value * 100000000| := by
  by_cases hexp : d.exponent ≤ 119
  · -- the exponent has room for all eight places
    refine Or.inl (representable_shift d 0 (d.exponent + 8) ?_ ?_ ?_ ?_)
    · rw [pow_zero, mul_one]
      exact d.mantissa_lt
    · have := d.exponent_ge
      omega
    · omega
    · simp
  · -- it is filled up, and the other places go to the mantissa
    have hhigh := d.exponent_le
    obtain ⟨k, hk⟩ : ∃ k : Nat, (k : ℤ) = d.exponent + 8 - 127 :=
      ⟨(d.exponent + 8 - 127).toNat, by omega⟩
    by_cases hm : d.mantissa * 10 ^ k < 340282366920938463463374607431768211456
    · exact Or.inl (representable_shift d k 127 hm (by decide) le_rfl (by omega))
    · right
      have hmantissa : (340282366920938463463374607431768211456 : ℚ) ≤ d.mantissa * 10 ^ k := by
        exact_mod_cast not_lt.1 hm
      have hten : (10 : ℚ) ≠ 0 := by norm_num
      have hvalue : |d.value * 100000000| = d.mantissa * 10 ^ k * 10 ^ (127 : ℤ) := by
        calc |d.value * 100000000| = d.mantissa * 10 ^ d.exponent * 100000000 := by
              rw [abs_mul, abs_value]
              norm_num
          _ = d.mantissa * (10 ^ d.exponent * 10 ^ (8 : ℤ)) := by
              rw [mul_assoc]
              norm_num
          _ = d.mantissa * 10 ^ (k + (127 : ℤ)) := by
              rw [← zpow_add₀ hten]
              congr 2
              omega
          _ = d.mantissa * 10 ^ k * 10 ^ (127 : ℤ) := by
              rw [zpow_add₀ hten, zpow_natCast, mul_assoc]
      rw [hvalue]
      exact mul_le_mul_of_nonneg_right hmantissa (zpow_nonneg (by norm_num) _)

/-- What is a number of satoshis is not too large. -/
theorem representable_of_halfAway (d : FiniteDecimal) (n : Int64)
    (h : HalfAway (d.value * 100000000) n.toInt) : Representable (d.value * 100000000) := by
  rcases product_cases d with hrep | hlarge
  · exact hrep
  · have hnear := h.1
    have htriangle := abs_sub_abs_le_abs_sub (d.value * 100000000) (n.toInt : ℚ)
    have hbound : |(n.toInt : ℚ)| < 9223372036854775809 := by
      have hbounds := toInt_bounds n
      have habs : |n.toInt| < 9223372036854775809 := abs_lt.2 ⟨by omega, by omega⟩
      exact_mod_cast habs
    have hlimit : (9223372036854775810 : ℚ) ≤ limit := by
      unfold limit
      norm_num
    linarith

/-- Of eight decimal places, a number of satoshis in BTC. -/
theorem representable_satoshis (n : Int64) : Representable ((n.toInt : ℚ) / 100000000) := by
  refine ⟨⟨n.toInt < 0, n.toInt.natAbs, -8, natAbs_toInt_lt n, by decide, by decide,
    (ofInt64 n).mantissa_ne⟩, ?_⟩
  have hint : factor (decide (n.toInt < 0)) * n.toInt.natAbs = n.toInt := by
    have := value_ofInt64 n
    unfold value ofInt64 ofInt at this
    dsimp only at this
    rwa [zpow_zero, mul_one] at this
  unfold value
  dsimp only
  rw [hint]
  norm_num
  ring

theorem representable_ofInt (n : ℤ) (h : n.natAbs < 340282366920938463463374607431768211456) :
    Representable (n : ℚ) := ⟨ofInt n h, value_ofInt n h⟩

/-- Rounding to an integer leaves the mantissas in bounds. -/
theorem representable_roundAway (d : FiniteDecimal) : Representable (roundAway d.value : ℚ) := by
  rcases lt_or_ge d.exponent 0 with hexp | hexp
  · refine representable_ofInt _ ?_
    have hround := abs_roundAway_le d.value
    have hmantissa : (d.mantissa : ℚ) < 340282366920938463463374607431768211456 := by
      exact_mod_cast d.mantissa_lt
    have htenth : |d.value| ≤ d.mantissa / 10 := by
      rw [abs_value]
      have hpower : (10 : ℚ) ^ d.exponent ≤ 10 ^ (-1 : ℤ) :=
        zpow_le_zpow_right₀ (by norm_num) (by omega)
      calc (d.mantissa : ℚ) * 10 ^ d.exponent ≤ d.mantissa * 10 ^ (-1 : ℤ) :=
            mul_le_mul_of_nonneg_left hpower (Nat.cast_nonneg _)
        _ = d.mantissa / 10 := by norm_num [div_eq_mul_inv]
    have hbound : |(roundAway d.value : ℚ)| < 340282366920938463463374607431768211456 := by
      linarith
    have hint : |roundAway d.value| < 340282366920938463463374607431768211456 := by
      exact_mod_cast hbound
    rw [Int.abs_eq_natAbs] at hint
    omega
  · -- without decimal places it is an integer already
    obtain ⟨k, hk⟩ := Int.eq_ofNat_of_zero_le hexp
    obtain ⟨n, hn⟩ : ∃ n : ℤ, d.value = n := by
      unfold value
      rw [hk]
      refine ⟨(if d.negative then -1 else 1) * d.mantissa * 10 ^ k, ?_⟩
      push_cast
      rw [zpow_natCast]
      cases d.negative <;> rfl
    refine ⟨d, ?_⟩
    rw [hn, roundAway_intCast]

end FiniteDecimal

/-! ## 3. Foundation -/

/-- What the source calls of Foundation. -/
structure DecimalOps where
  /-- `*`. -/
  mul : Decimal → Decimal → Decimal
  /-- `/`. -/
  div : Decimal → Decimal → Decimal
  /-- `rounding(accordingToBehavior:)` with the handler of the source: `.plain`, scale 0. It may
      raise. -/
  rounding : Decimal → Checked Decimal
  /-- `int64Value`. -/
  int64Value : Decimal → Int64

/-- What is assumed of it. Nothing is said of rounding NaN. -/
structure DecimalOps.Lawful (F : DecimalOps) : Prop where
  mul_exact : ∀ a b : FiniteDecimal, FiniteDecimal.Representable (a.value * b.value) →
    ∃ c : FiniteDecimal, F.mul (.finite a) (.finite b) = .finite c ∧ c.value = a.value * b.value
  mul_overflow : ∀ a b : FiniteDecimal, FiniteDecimal.limit ≤ |a.value * b.value| →
    F.mul (.finite a) (.finite b) = .nan
  mul_nan : ∀ b, F.mul .nan b = .nan
  div_exact : ∀ a b : FiniteDecimal, b.value ≠ 0 →
    FiniteDecimal.Representable (a.value / b.value) →
    ∃ c : FiniteDecimal, F.div (.finite a) (.finite b) = .finite c ∧ c.value = a.value / b.value
  rounding_plain : ∀ a : FiniteDecimal, ∃ (c : FiniteDecimal) (n : ℤ),
    F.rounding (.finite a) = .value (.finite c) ∧ HalfAway a.value n ∧ c.value = n
  int64Value_exact : ∀ (a : FiniteDecimal) (n : Int64), a.value = n.toInt →
    F.int64Value (.finite a) = n
  int64Value_nan : F.int64Value .nan = 0

section Exact

open Classical

/-- It is an integer of 64 bits. -/
def FiniteDecimal.IsInt64 (d : FiniteDecimal) : Prop := ∃ n : Int64, d.value = n.toInt

/-- The `Decimal` of a number, if it has one. -/
noncomputable def Decimal.exactly (q : ℚ) : Decimal :=
  if h : FiniteDecimal.Representable q then .finite h.choose else .nan

theorem Decimal.exactly_of_representable {q : ℚ} (h : FiniteDecimal.Representable q) :
    ∃ c : FiniteDecimal, Decimal.exactly q = .finite c ∧ c.value = q :=
  ⟨h.choose, dif_pos h, h.choose_spec⟩

/-- Foundation, with nothing else represented than what must be: a result is exact or NaN. What
    rounding NaN does is open. -/
noncomputable def exactDecimals (ofNaN : Checked Decimal) : DecimalOps where
  mul
    | .finite a, .finite b => .exactly (a.value * b.value)
    | _, _ => .nan
  div
    | .finite a, .finite b => .exactly (a.value / b.value)
    | _, _ => .nan
  rounding
    | .finite a => .value (.exactly (roundAway a.value : ℚ))
    | .nan => ofNaN
  int64Value
    | .finite a => if h : a.IsInt64 then h.choose else 0
    | .nan => 0

theorem exactDecimals_lawful (ofNaN : Checked Decimal) : (exactDecimals ofNaN).Lawful where
  mul_exact _ _ h := Decimal.exactly_of_representable h
  mul_overflow a b h := by
    refine dif_neg fun hrep => ?_
    obtain ⟨c, hc⟩ := hrep
    rw [← hc] at h
    exact absurd c.abs_value_lt (not_lt.2 h)
  mul_nan _ := rfl
  div_exact _ _ _ h := Decimal.exactly_of_representable h
  rounding_plain a := by
    obtain ⟨c, hc, hvalue⟩ := Decimal.exactly_of_representable a.representable_roundAway
    exact ⟨c, roundAway a.value, congrArg Checked.value hc, halfAway_roundAway _, hvalue⟩
  int64Value_exact a n h := by
    have hsome : a.IsInt64 := ⟨n, h⟩
    have hchosen := hsome.choose_spec
    have hsame : (hsome.choose.toInt : ℚ) = n.toInt := hchosen.symm.trans h
    refine (dif_pos hsome).trans (Int64.toInt_inj.1 ?_)
    exact_mod_cast hsame
  int64Value_nan := rfl

end Exact

/-! ## 4. Amounts -/

/-- `BTCAmount`. -/
structure BTCAmount where
  satoshis : Int64
  deriving DecidableEq, Repr

namespace BTCAmount

/-- `satoshisPerBTC`. -/
def satoshisPerBTC : Int64 := 100000000

/-- `btc`. -/
def btc (F : DecimalOps) (a : BTCAmount) : Decimal :=
  F.div (.finite (.ofInt64 a.satoshis)) (.finite (.ofInt64 satoshisPerBTC))

/-- `init(btc:)`. -/
def ofBTC (F : DecimalOps) (btc : Decimal) : Checked BTCAmount := do
  let scaled ← F.rounding (F.mul btc (.finite (.ofInt64 satoshisPerBTC)))
  return ⟨F.int64Value scaled⟩

/-- `init(from:)`, on what `decode(Decimal.self)` gives. -/
def initFrom {ε : Type} (F : DecimalOps) (raw : Except ε Decimal) :
    Checked (Except ε BTCAmount) :=
  match raw with
  | .error e => .value (.error e)
  | .ok d => do
    let amount ← ofBTC F d
    return .ok amount

/-- The integer operations that report an overflow: the result wraps around. -/
def reporting (wrapped : Int64) (exact : Int) : Int64 × Bool :=
  (wrapped, decide (wrapped.toInt ≠ exact))

/-- `precondition(!overflow, …)`, and the amount. -/
def unlessOverflow : Int64 × Bool → Checked BTCAmount
  | (_, true) => .trap
  | (result, false) => .value ⟨result⟩

/-- `+`. -/
def add (lhs rhs : BTCAmount) : Checked BTCAmount :=
  unlessOverflow (reporting (lhs.satoshis + rhs.satoshis)
    (lhs.satoshis.toInt + rhs.satoshis.toInt))

/-- `-`. -/
def subtract (lhs rhs : BTCAmount) : Checked BTCAmount :=
  unlessOverflow (reporting (lhs.satoshis - rhs.satoshis)
    (lhs.satoshis.toInt - rhs.satoshis.toInt))

/-- `-`, of one amount. -/
def negate (value : BTCAmount) : Checked BTCAmount :=
  unlessOverflow (reporting (0 - value.satoshis) (0 - value.satoshis.toInt))

/-- `*`. -/
def scale (lhs : BTCAmount) (rhs : Int64) : Checked BTCAmount :=
  unlessOverflow (reporting (lhs.satoshis * rhs) (lhs.satoshis.toInt * rhs.toInt))

/-- `<`. -/
def less (lhs rhs : BTCAmount) : Bool := decide (lhs.satoshis < rhs.satoshis)

/-- What wraps around at 2^64 is taken only where it did not. -/
theorem unlessOverflow_value_iff {wrapped : Int64} {exact : Int}
    (hwrap : wrapped.toInt = exact.bmod 18446744073709551616) (c : BTCAmount) :
    unlessOverflow (reporting wrapped exact) = .value c ↔ c.satoshis.toInt = exact := by
  unfold reporting
  by_cases hexact : wrapped.toInt = exact
  · rw [decide_eq_false (not_not.2 hexact)]
    constructor
    · intro h
      cases h
      exact hexact
    · intro h
      have hsame : wrapped = c.satoshis := Int64.toInt_inj.1 (hexact.trans h.symm)
      exact congrArg Checked.value (congrArg BTCAmount.mk hsame)
  · rw [decide_eq_true hexact]
    refine ⟨fun h => (nomatch h), fun h => absurd ?_ hexact⟩
    -- an integer that some `Int64` is does not wrap
    have hbounds := FiniteDecimal.toInt_bounds c.satoshis
    rw [hwrap]
    exact Int.bmod_eq_of_le (by omega) (by omega)

/-- **The operators give the exact amount, or trap.** -/
theorem operators_exact (a b c : BTCAmount) (n : Int64) :
    (a.add b = .value c ↔ c.satoshis.toInt = a.satoshis.toInt + b.satoshis.toInt) ∧
    (a.subtract b = .value c ↔ c.satoshis.toInt = a.satoshis.toInt - b.satoshis.toInt) ∧
    (a.negate = .value c ↔ c.satoshis.toInt = 0 - a.satoshis.toInt) ∧
    (a.scale n = .value c ↔ c.satoshis.toInt = a.satoshis.toInt * n.toInt) :=
  ⟨unlessOverflow_value_iff (Int64.toInt_add _ _) c,
    unlessOverflow_value_iff (Int64.toInt_sub _ _) c,
    unlessOverflow_value_iff (Int64.toInt_sub _ _) c,
    unlessOverflow_value_iff (Int64.toInt_mul _ _) c⟩

/-! ## 5. Amounts that fit -/

end BTCAmount

/-- There is an amount of this many BTC, to the nearest satoshi. -/
def FiniteDecimal.Fits (d : FiniteDecimal) : Prop :=
  ∃ n : Int64, HalfAway (d.value * 100000000) n.toInt

namespace BTCAmount

theorem value_satoshisPerBTC : (FiniteDecimal.ofInt64 satoshisPerBTC).value = 100000000 := by
  rw [FiniteDecimal.value_ofInt64]
  have h : satoshisPerBTC.toInt = 100000000 := by decide
  rw [h]
  norm_num

section Lawful

variable {F : DecimalOps} (hF : F.Lawful)
include hF

/-- A product with a representation is rounded, and what is rounded is converted. -/
theorem ofBTC_of_representable (d : FiniteDecimal)
    (h : FiniteDecimal.Representable (d.value * 100000000)) :
    ∃ (c : FiniteDecimal) (n : ℤ), HalfAway (d.value * 100000000) n ∧ c.value = n ∧
      ofBTC F (.finite d) = .value ⟨F.int64Value (.finite c)⟩ := by
  rw [← value_satoshisPerBTC] at h ⊢
  obtain ⟨product, hproduct, hexact⟩ := hF.mul_exact d _ h
  obtain ⟨rounded, n, hrounded, hhalf, hvalue⟩ := hF.rounding_plain product
  refine ⟨rounded, n, hexact ▸ hhalf, hvalue, ?_⟩
  unfold ofBTC
  rw [hproduct, hrounded]
  rfl

/-- The satoshis are the product, rounded once. -/
theorem ofBTC_exact (d : FiniteDecimal) (n : Int64)
    (h : HalfAway (d.value * 100000000) n.toInt) : ofBTC F (.finite d) = .value ⟨n⟩ := by
  obtain ⟨c, m, hhalf, hvalue, hofBTC⟩ :=
    ofBTC_of_representable hF d (d.representable_of_halfAway n h)
  have hm : m = n.toInt :=
    ((halfAway_iff _ _).1 hhalf).trans ((halfAway_iff _ _).1 h).symm
  rw [hofBTC, hF.int64Value_exact c n (hm ▸ hvalue)]

theorem ofBTC_btc (a : BTCAmount) : ofBTC F (a.btc F) = .value a := by
  have hne : (FiniteDecimal.ofInt64 satoshisPerBTC).value ≠ 0 := by
    rw [value_satoshisPerBTC]
    norm_num
  have hrep : FiniteDecimal.Representable ((FiniteDecimal.ofInt64 a.satoshis).value /
      (FiniteDecimal.ofInt64 satoshisPerBTC).value) := by
    rw [value_satoshisPerBTC, FiniteDecimal.value_ofInt64]
    exact FiniteDecimal.representable_satoshis a.satoshis
  obtain ⟨c, hc, hvalue⟩ := hF.div_exact _ _ hne hrep
  have hwhole : c.value * 100000000 = a.satoshis.toInt := by
    rw [hvalue, value_satoshisPerBTC, FiniteDecimal.value_ofInt64]
    exact div_mul_cancel₀ _ (by norm_num)
  unfold btc
  rw [hc]
  refine ofBTC_exact hF c a.satoshis ((halfAway_iff _ _).2 ?_)
  rw [hwhole, roundAway_intCast]

theorem ofBTC_mono {d e : FiniteDecimal} (hd : d.Fits) (he : e.Fits) (hle : d.value ≤ e.value) :
    ∃ a b, ofBTC F (.finite d) = .value a ∧ ofBTC F (.finite e) = .value b ∧
      b.less a = false := by
  obtain ⟨n, hn⟩ := hd
  obtain ⟨m, hm⟩ := he
  refine ⟨⟨n⟩, ⟨m⟩, ofBTC_exact hF d n hn, ofBTC_exact hF e m hm, ?_⟩
  have hround : n.toInt ≤ m.toInt := by
    rw [(halfAway_iff _ _).1 hn, (halfAway_iff _ _).1 hm]
    exact roundAway_mono (mul_le_mul_of_nonneg_right hle (by norm_num))
  refine decide_eq_false fun hlt => ?_
  exact absurd (Int64.lt_iff_toInt_lt.1 hlt) (not_lt.2 hround)

theorem ofBTC_neg {d : FiniteDecimal} (hd : d.Fits) (hneg : d.neg.Fits) :
    ∃ a b, ofBTC F (.finite d) = .value a ∧ ofBTC F (.finite d.neg) = .value b ∧
      a.negate = .value b := by
  obtain ⟨n, hn⟩ := hd
  obtain ⟨m, hm⟩ := hneg
  refine ⟨⟨n⟩, ⟨m⟩, ofBTC_exact hF d n hn, ofBTC_exact hF d.neg m hm, ?_⟩
  refine (operators_exact ⟨n⟩ ⟨n⟩ ⟨m⟩ n).2.2.1.2 ?_
  rw [FiniteDecimal.value_neg, neg_mul] at hm
  rw [(halfAway_iff _ _).1 hm, (halfAway_iff _ _).1 hn, roundAway_neg, zero_sub]

end Lawful

/-- **An amount that fits is exact.** The product is rounded once, half away from zero; so every
    amount is got back from its BTC, the order is kept, and the sign is that of the `Decimal`. -/
theorem ofBTC_faithful (F : DecimalOps) (hF : F.Lawful) :
    (∀ (d : FiniteDecimal) (n : Int64), HalfAway (d.value * 100000000) n.toInt →
      ofBTC F (.finite d) = .value ⟨n⟩) ∧
    (∀ a : BTCAmount, ofBTC F (a.btc F) = .value a) ∧
    (∀ d e : FiniteDecimal, d.Fits → e.Fits → d.value ≤ e.value →
      ∃ a b, ofBTC F (.finite d) = .value a ∧ ofBTC F (.finite e) = .value b ∧
        b.less a = false) ∧
    (∀ d : FiniteDecimal, d.Fits → d.neg.Fits →
      ∃ a b, ofBTC F (.finite d) = .value a ∧ ofBTC F (.finite d.neg) = .value b ∧
        a.negate = .value b) :=
  ⟨fun d n h => ofBTC_exact hF d n h, fun a => ofBTC_btc hF a,
    fun _ _ hd he hle => ofBTC_mono hF hd he hle, fun _ hd hneg => ofBTC_neg hF hd hneg⟩

/-- The largest mantissa, some 34 thousand million BTC: eight places up it does not fit 128 bits. -/
def fullMantissa : FiniteDecimal where
  negative := false
  mantissa := 340282366920938463463374607431768211455
  exponent := -28
  mantissa_lt := by decide
  exponent_ge := by decide
  exponent_le := by decide
  mantissa_ne h := nomatch h

theorem ofBTC_faithful_full :
    HalfAway (fullMantissa.value * 100000000) (3402823669209384635 : Int64).toInt ∧
      ofBTC (exactDecimals .trap) (.finite fullMantissa) = .value ⟨3402823669209384635⟩ := by
  have hint : (3402823669209384635 : Int64).toInt = 3402823669209384635 := by decide
  have hhalf : HalfAway (fullMantissa.value * 100000000) (3402823669209384635 : Int64).toInt := by
    have hdistance : |fullMantissa.value * 100000000 - (3402823669209384635 : ℤ)| < 1 / 2 := by
      unfold FiniteDecimal.value fullMantissa FiniteDecimal.factor
      norm_num [abs_lt]
    rw [hint]
    exact ⟨hdistance.le, fun h => absurd h hdistance.ne⟩
  exact ⟨hhalf, (ofBTC_faithful _ (exactDecimals_lawful .trap)).1 fullMantissa _ hhalf⟩

end BTCAmount

/-! ## 6. Amounts that do not fit -/

namespace Decimal

/-- There is no amount of this many BTC. -/
def Unfit : Decimal → Prop
  | .nan => True
  | .finite d => ¬d.Fits

/-- The product with 10^8 is NaN. -/
def Overflows : Decimal → Prop
  | .nan => True
  | .finite d => FiniteDecimal.limit ≤ |d.value * 100000000|

end Decimal

namespace BTCAmount

section Lawful

variable {F : DecimalOps} (hF : F.Lawful)
include hF

/-- A product that is NaN goes to the rounding. -/
theorem ofBTC_of_overflows {d : Decimal} (h : d.Overflows) :
    ofBTC F d = F.rounding .nan >>= fun scaled => .value ⟨F.int64Value scaled⟩ := by
  have hnan : F.mul d (.finite (.ofInt64 satoshisPerBTC)) = .nan := by
    cases d with
    | nan => exact hF.mul_nan _
    | finite d =>
      refine hF.mul_overflow d _ ?_
      rw [value_satoshisPerBTC]
      exact h
  unfold ofBTC
  rw [hnan]
  rfl

/-- Any other product is rounded and converted, whether it fits or not. -/
theorem ofBTC_of_not_overflows {d : Decimal} (h : ¬d.Overflows) :
    ∃ a, ofBTC F d = .value a := by
  cases d with
  | nan => exact absurd trivial h
  | finite d =>
    have hrep := d.product_cases.resolve_right h
    obtain ⟨c, _, _, _, hofBTC⟩ := ofBTC_of_representable hF d hrep
    exact ⟨_, hofBTC⟩

theorem ofBTC_trap_iff (d : Decimal) :
    ofBTC F d = .trap ↔ d.Overflows ∧ F.rounding .nan = .trap := by
  by_cases hover : d.Overflows
  · rw [ofBTC_of_overflows hF hover]
    cases hnan : F.rounding .nan with
    | value r => exact ⟨fun h => (nomatch h), fun h => nomatch h.2⟩
    | trap => exact ⟨fun _ => ⟨hover, rfl⟩, fun _ => rfl⟩
  · obtain ⟨a, ha⟩ := ofBTC_of_not_overflows hF hover
    rw [ha]
    exact ⟨fun h => (nomatch h), fun h => absurd h.1 hover⟩

end Lawful

/-- Decoding adds no check of its own. -/
theorem initFrom_value_iff {ε : Type} (F : DecimalOps) (d : Decimal) (a : BTCAmount) :
    initFrom F (.ok d : Except ε Decimal) = .value (.ok a) ↔ ofBTC F d = .value a := by
  unfold initFrom
  dsimp only
  cases ofBTC F d with
  | trap => exact ⟨fun h => (nomatch h), fun h => (nomatch h)⟩
  | value b =>
    constructor
    · intro h
      cases h
      rfl
    · intro h
      cases h
      rfl

/-- **An amount that does not fit is not refused**, unless the product is NaN and rounding NaN
    raises: an `Int64` is made of every other. -/
theorem ofBTC_refuses_iff {ε : Type} (F : DecimalOps) (hF : F.Lawful) (d : Decimal) :
    (d.Unfit → ofBTC F d = .trap ∧
      ∀ a, initFrom F (.ok d : Except ε Decimal) ≠ .value (.ok a)) ↔
    (d.Unfit → d.Overflows ∧ F.rounding .nan = .trap) := by
  rw [← ofBTC_trap_iff hF d]
  refine ⟨fun hrefused hd => (hrefused hd).1, fun htrap hd => ⟨htrap hd, fun a ha => ?_⟩⟩
  rw [initFrom_value_iff, htrap hd] at ha
  cases ha

/-- NaN is refused where rounding it raises. -/
theorem ofBTC_refuses_nan :
    Decimal.nan.Unfit ∧ ofBTC (exactDecimals .trap) .nan = .trap ∧
      ∀ a, initFrom (exactDecimals .trap) (.ok .nan : Except String Decimal) ≠ .value (.ok a) :=
  ⟨trivial, (ofBTC_refuses_iff _ (exactDecimals_lawful .trap) .nan).2
    (fun _ => ⟨trivial, rfl⟩) trivial⟩

/-- 10^12 BTC. -/
def trillion : FiniteDecimal where
  negative := false
  mantissa := 1
  exponent := 12
  mantissa_lt := by decide
  exponent_ge := by decide
  exponent_le := by decide
  mantissa_ne h := nomatch h

theorem value_trillion : trillion.value * 100000000 = ((100000000000000000000 : ℤ) : ℚ) := by
  unfold FiniteDecimal.value trillion FiniteDecimal.factor
  norm_num

/-- A million million BTC make an amount, by the initialiser and by decoding, and so does NaN. -/
theorem trillion_taken :
    (exactDecimals (.value .nan)).Lawful ∧ (Decimal.finite trillion).Unfit ∧
    (∃ a, ofBTC (exactDecimals (.value .nan)) (.finite trillion) = .value a ∧
      initFrom (exactDecimals (.value .nan)) (.ok (.finite trillion) : Except String Decimal) =
        .value (.ok a)) ∧
    ofBTC (exactDecimals (.value .nan)) .nan = .value ⟨0⟩ := by
  have hlawful := exactDecimals_lawful (.value .nan)
  refine ⟨hlawful, ?_, ?_, rfl⟩
  · intro h
    obtain ⟨n, hn⟩ := h
    rw [halfAway_iff, value_trillion, roundAway_intCast] at hn
    have hbounds := FiniteDecimal.toInt_bounds n
    omega
  · have hover : ¬(Decimal.finite trillion).Overflows := by
      show ¬FiniteDecimal.limit ≤ |trillion.value * 100000000|
      unfold FiniteDecimal.limit
      rw [value_trillion]
      norm_num
    obtain ⟨a, ha⟩ := ofBTC_of_not_overflows hlawful hover
    exact ⟨a, ha, (initFrom_value_iff _ _ a).2 ha⟩

end BTCAmount

end SwiftBitcoinKernel
