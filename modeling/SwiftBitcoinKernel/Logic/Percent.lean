/-
  File:      SwiftBitcoinKernel/Logic/Percent.lean
  Subject:   Percent-encoding of bytes, for any set of bytes that are left as they are.

  Nothing of any one program is in this file.

  * `encode allowed` -- every byte outside `allowed` becomes a percent sign and two digits;
  * `Decodes` -- what a decoder has to do on plain bytes and on escapes; what it does with a percent
    sign that starts no escape is left open;
  * `decode_encode`, `encode_injective` -- such a decoder undoes the encoding, if the percent sign
    is not in the set;
  * `encode_eq_self_iff` -- the encoding changes nothing just if there is nothing to escape.
-/
import Mathlib.Logic.Function.Basic

namespace SwiftBitcoinKernel.Logic.Percent

/-- A hexadecimal digit, in upper case. -/
def digit (n : UInt8) : UInt8 := if n < 10 then 48 + n else 55 + n

/-- A percent sign and the two digits of a byte. -/
def escape (b : UInt8) : List UInt8 := [37, digit (b / 16), digit (b % 16)]

/-- The text with every byte outside `allowed` escaped. -/
def encode (allowed : UInt8 → Bool) (s : List UInt8) : List UInt8 :=
  s.flatMap fun b => if allowed b then [b] else escape b

/-- `decode` is a percent-decoder. -/
structure Decodes (decode : List UInt8 → List UInt8) : Prop where
  nil : decode [] = []
  plain : ∀ b rest, b ≠ 37 → decode (b :: rest) = b :: decode rest
  escaped : ∀ b rest, decode (escape b ++ rest) = b :: decode rest

variable {decode : List UInt8 → List UInt8} {allowed : UInt8 → Bool} {b : UInt8}
  {s s' : List UInt8}

theorem encode_cons_allowed (h : allowed b = true) :
    encode allowed (b :: s) = b :: encode allowed s := by
  unfold encode
  rw [List.flatMap_cons, if_pos h]
  rfl

theorem encode_cons_escaped (h : ¬allowed b = true) :
    encode allowed (b :: s) = escape b ++ encode allowed s := by
  unfold encode
  rw [List.flatMap_cons, if_neg h]

/-- **A decoder undoes the encoding.** -/
theorem decode_encode (hdecode : Decodes decode) (hpercent : allowed 37 = false)
    (s : List UInt8) : decode (encode allowed s) = s := by
  induction s with
  | nil => exact hdecode.nil
  | cons b s ih =>
    by_cases hb : allowed b = true
    · have hplain : b ≠ 37 := by
        rintro rfl
        rw [hpercent] at hb
        cases hb
      rw [encode_cons_allowed hb, hdecode.plain b _ hplain, ih]
    · rw [encode_cons_escaped hb, hdecode.escaped, ih]

/-- No two texts have one encoding. -/
theorem encode_injective (hdecode : Decodes decode) (hpercent : allowed 37 = false) :
    Function.Injective (encode allowed) :=
  Function.LeftInverse.injective (decode_encode hdecode hpercent)

/-- The encoding leaves a text of allowed bytes as it is. -/
theorem encode_eq_self (h : ∀ b ∈ s, allowed b = true) : encode allowed s = s := by
  induction s with
  | nil => rfl
  | cons b s ih =>
    have hrest : ∀ b' ∈ s, allowed b' = true := fun b' hb' => h b' (List.mem_cons_of_mem _ hb')
    rw [encode_cons_allowed (h b List.mem_cons_self), ih hrest]

theorem encode_append (s t : List UInt8) :
    encode allowed (s ++ t) = encode allowed s ++ encode allowed t := List.flatMap_append

/-- The encoding is never shorter. -/
theorem length_le_encode (s : List UInt8) : s.length ≤ (encode allowed s).length := by
  induction s with
  | nil => exact Nat.le_refl 0
  | cons b s ih =>
    by_cases hb : allowed b = true
    · rw [encode_cons_allowed hb]
      exact Nat.succ_le_succ ih
    · rw [encode_cons_escaped hb, List.length_append, List.length_cons]
      have hthree : (escape b).length = 3 := rfl
      omega

/-- **The encoding changes nothing just if there is nothing to escape.** -/
theorem encode_eq_self_iff : encode allowed s = s ↔ ∀ b ∈ s, allowed b = true := by
  refine ⟨fun h => ?_, encode_eq_self⟩
  induction s with
  | nil => exact fun b hb => nomatch hb
  | cons b s ih =>
    by_cases hb : allowed b = true
    · rw [encode_cons_allowed hb, List.cons.injEq] at h
      intro b' hb'
      rcases List.mem_cons.1 hb' with rfl | hb'
      · exact hb
      · exact ih h.2 b' hb'
    · -- an escape would make the text longer
      have hlength := congrArg List.length h
      rw [encode_cons_escaped hb, List.length_append, List.length_cons] at hlength
      have hthree : (escape b).length = 3 := rfl
      have hle : s.length ≤ (encode allowed s).length := length_le_encode s
      omega

end SwiftBitcoinKernel.Logic.Percent
