/-
  File:      SwiftBitcoinKernel/Logic/Base64.lean
  Subject:   Base64: bytes written by letters of six bits, padded to groups of four.

  * `alphabet`, `letter`, `value`, `value_letter` -- the letters and what each stands for;
  * `sextets`, `sextets_lt` -- the groups of six bits of some bytes, three bytes to four of them;
  * `encode`, `encode_length` -- their letters and the padding, a multiple of four in all;
  * `letter_ne_pad`, `mem_encode` -- a letter is no padding, and nothing else is written.
-/
import Mathlib.Data.List.Basic

namespace SwiftBitcoinKernel.Logic.Base64

/-- The letters, in the order of their values. -/
def alphabet : List UInt8 :=
  "ABCDEFGHIJKLMNOPQRSTUVWXYZabcdefghijklmnopqrstuvwxyz0123456789+/".toUTF8.data.toList

/-- The letter of a value. -/
def letter (v : Nat) : UInt8 := alphabet.getD v 0

/-- The value of a letter. -/
def value (c : UInt8) : Option Nat := alphabet.idxOf? c

/-- The byte that pads. -/
def pad : UInt8 := 61

/-- The groups of six bits; the last one is filled up with zeros. -/
def sextets : List UInt8 → List Nat
  | [] => []
  | [a] => [a.toNat / 4, a.toNat % 4 * 16]
  | [a, b] => [a.toNat / 4, a.toNat % 4 * 16 + b.toNat / 16, b.toNat % 16 * 4]
  | a :: b :: c :: rest =>
    a.toNat / 4 :: (a.toNat % 4 * 16 + b.toNat / 16) :: (b.toNat % 16 * 4 + c.toNat / 64) ::
      c.toNat % 64 :: sextets rest

/-- How many bytes pad the letters. -/
def padding (bytes : List UInt8) : Nat := (3 - bytes.length % 3) % 3

/-- The text of some bytes. -/
def encode (bytes : List UInt8) : List UInt8 :=
  (sextets bytes).map letter ++ List.replicate (padding bytes) pad

theorem value_letter {v : Nat} (h : v < 64) : value (letter v) = some v := by
  have hall : ∀ v : Fin 64, value (letter v) = some v.val := by decide +kernel
  exact hall ⟨v, h⟩

theorem letter_ne_pad {v : Nat} (h : v < 64) : letter v ≠ pad := by
  have hall : ∀ v : Fin 64, letter v ≠ pad := by decide +kernel
  exact hall ⟨v, h⟩

theorem sextets_lt {bytes : List UInt8} {v : Nat} (h : v ∈ sextets bytes) : v < 64 := by
  induction bytes using sextets.induct with
  | case1 => cases h
  | case2 a =>
    have ha := a.toNat_lt
    simp only [sextets, List.mem_cons, List.not_mem_nil, or_false] at h
    omega
  | case3 a b =>
    have ha := a.toNat_lt
    have hb := b.toNat_lt
    simp only [sextets, List.mem_cons, List.not_mem_nil, or_false] at h
    omega
  | case4 a b c rest ih =>
    have ha := a.toNat_lt
    have hb := b.toNat_lt
    have hc := c.toNat_lt
    simp only [sextets, List.mem_cons] at h
    rcases h with h | h | h | h | h
    · omega
    · omega
    · omega
    · omega
    · exact ih h

/-- **The text of bytes is a multiple of four letters and pads long.** -/
theorem encode_length (bytes : List UInt8) : (encode bytes).length % 4 = 0 := by
  have hsum : ((sextets bytes).length + padding bytes) % 4 = 0 := by
    induction bytes using sextets.induct with
    | case1 => rfl
    | case2 a => simp [sextets, padding]
    | case3 a b => simp [sextets, padding]
    | case4 a b c rest ih =>
      have hpad : padding (a :: b :: c :: rest) = padding rest := by
        simp only [padding, List.length_cons]
        omega
      rw [hpad]
      simp only [sextets, List.length_cons]
      omega
  simpa [encode] using hsum

/-- Nothing but letters and padding is written. -/
theorem mem_encode {bytes : List UInt8} {c : UInt8} (h : c ∈ encode bytes) :
    (∃ v < 64, c = letter v) ∨ c = pad := by
  rcases List.mem_append.mp h with h | h
  · obtain ⟨v, hv, rfl⟩ := List.mem_map.mp h
    exact .inl ⟨v, sextets_lt hv, rfl⟩
  · exact .inr (List.mem_replicate.mp h).2

end SwiftBitcoinKernel.Logic.Base64
