/-
  File:      SwiftBitcoinKernel/Sync/HashCodec.lean
  Subject:   Hashes on the wire: display hex and back, and back and display hex.

  A hash is held in internal byte order and written in the reverse one, in lower-case digits. What
  a server reports is read by `internalHash`, which takes either case, and goes into the URL of a
  block as `displayHex` writes it.

  * `hexDigit_digit`, `digit_hexDigit` -- the digits, both ways;
  * `byte_digits` -- a byte from its two digits;
  * `data_display`, `display_data` -- the same for every byte of a text, by one induction each;
  * `trimming_of_hex` -- trimming leaves digits alone;
  * `hash_round_trips` -- the codec, and what the block URLs carry.
-/
import SwiftBitcoinKernel.Sync.EsploraGrammar

namespace SwiftBitcoinKernel

namespace EsploraAPI

/-! ## 1. Digits -/

theorem digit_hexDigit {n : Nat} (h : n < 16) : digit 16 (hexDigit n) = some n := by
  have hall : ∀ n : Fin 16, digit 16 (hexDigit n) = some n.val := by decide
  exact hall ⟨n, h⟩

theorem isHex_hexDigit {n : Nat} (h : n < 16) : isHex (hexDigit n) = true := by
  rw [← digit_hex_isSome, digit_hexDigit h]
  rfl

/-- A digit that is read is written in lower case. -/
theorem hexDigit_digit {c : Char} {n : Nat} (h : digit 16 c = some n) : hexDigit n = c.toLower := by
  have hall : ∀ k : Fin 128, (digit 16 (Char.ofNat k)).all
      (fun n => hexDigit n == (Char.ofNat k).toLower) = true := by decide
  have hlt : c.toNat < 128 := by
    rw [digit_eq_some] at h
    omega
  have hc := hall ⟨c.toNat, hlt⟩
  rw [Char.ofNat_toNat, h] at hc
  exact beq_iff_eq.1 hc

/-! ## 2. Bytes -/

/-- The two digits of a byte. -/
def display (b : UInt8) : List Char := [hexDigit (b.toNat / 16), hexDigit (b.toNat % 16)]

/-- **A byte from its digits**, in either case. -/
theorem byte_digits {a b : Char} {high low : Nat} (ha : digit 16 a = some high)
    (hb : digit 16 b = some low) : byte [a, b] = some (UInt8.ofNat (high * 16 + low)) := by
  have hhigh := digit_lt ha
  have hlow := digit_lt hb
  have hplus : a ≠ '+' := by
    intro h
    rw [h, show digit 16 '+' = none by decide] at ha
    cases ha
  have hminus : a ≠ '-' := by
    intro h
    rw [h, show digit 16 '-' = none by decide] at ha
    cases ha
  unfold byte
  rw [integer_plain hplus hminus, magnitude_two, ha, hb, Option.bind_some, Option.map_some,
    Option.map_some, Option.filter_some, if_pos (decide_eq_true (by omega)), Option.map_some,
    Int.toNat_natCast]

theorem byte_display (b : UInt8) : byte (display b) = some b := by
  have hb := b.toNat_lt
  have hhalves : b.toNat / 16 * 16 + b.toNat % 16 = b.toNat := by omega
  rw [display, byte_digits (digit_hexDigit (by omega)) (digit_hexDigit (by omega)), hhalves,
    UInt8.ofNat_toNat]

/-- What is written is read. -/
theorem data_display (bytes : Data) : data (bytes.flatMap display) = some bytes := by
  induction bytes with
  | nil => rfl
  | cons b bytes ih =>
    have hfirst : data (display b ++ bytes.flatMap display) = (byte (display b)).bind
        fun first => (data (bytes.flatMap display)).map fun more => first :: more := rfl
    rw [List.flatMap_cons, hfirst, byte_display, Option.bind_some, ih, Option.map_some]

/-- What is read is written, in lower case. -/
theorem display_data {text : List Char} (hhex : text.all isHex = true) {bytes : Data}
    (h : data text = some bytes) : bytes.flatMap display = text.map Char.toLower := by
  induction text using data.induct generalizing bytes with
  | case1 =>
    cases h
    rfl
  | case2 c => cases h
  | case3 a b rest ih =>
    rw [List.all_cons, List.all_cons, Bool.and_eq_true, Bool.and_eq_true, ← digit_hex_isSome,
      ← digit_hex_isSome] at hhex
    obtain ⟨high, ha⟩ := Option.isSome_iff_exists.1 hhex.1
    obtain ⟨low, hb⟩ := Option.isSome_iff_exists.1 hhex.2.1
    have hhigh := digit_lt ha
    have hlow := digit_lt hb
    rw [data, byte_digits ha hb, Option.bind_some] at h
    obtain ⟨more, hmore, rfl⟩ := Option.map_eq_some_iff.1 h
    have hvalue : (UInt8.ofNat (high * 16 + low)).toNat = high * 16 + low := by
      rw [UInt8.toNat_ofNat']
      omega
    have hfirst : display (UInt8.ofNat (high * 16 + low)) = [a.toLower, b.toLower] := by
      rw [display, hvalue, show (high * 16 + low) / 16 = high by omega,
        show (high * 16 + low) % 16 = low by omega, hexDigit_digit ha, hexDigit_digit hb]
    rw [List.flatMap_cons, hfirst, ih hhex.2.2 hmore]
    rfl

/-! ## 3. Texts -/

/-- No digit is trimmed. -/
theorem not_whitespace_of_hex {c : Char} (h : isHex c = true) : whitespaceOrNewline c = false := by
  rw [isHex_iff] at h
  unfold whitespaceOrNewline
  have hval : c.val.toNat = c.toNat := rfl
  simp only [hval, Bool.or_eq_false_iff, Bool.and_eq_false_iff, decide_eq_false_iff_not,
    beq_eq_false_iff_ne]
  omega

theorem trimming_of_hex {text : List Char} (h : text.all isHex = true) : trimming text = text := by
  have hkept : ∀ l : List Char, (∀ c ∈ l, isHex c = true) → l.dropWhile whitespaceOrNewline = l := by
    intro l hl
    cases l with
    | nil => rfl
    | cons c l =>
      rw [List.dropWhile_cons_of_neg]
      rw [not_whitespace_of_hex (hl c List.mem_cons_self)]
      exact Bool.false_ne_true
  rw [List.all_eq_true] at h
  unfold trimming
  rw [hkept text h, hkept text.reverse fun c hc => h c (List.mem_reverse.1 hc), List.reverse_reverse]

/-- The digits that a hash is displayed by. -/
theorem display_all_hex (bytes : Data) : (bytes.flatMap display).all isHex = true := by
  rw [List.all_eq_true]
  intro c hc
  obtain ⟨b, -, hb⟩ := List.mem_flatMap.1 hc
  have hlt := b.toNat_lt
  rw [display, List.mem_cons, List.mem_singleton] at hb
  rcases hb with rfl | rfl
  · exact isHex_hexDigit (by omega)
  · exact isHex_hexDigit (by omega)

theorem displayHex_toList (hash : Data) : (displayHex hash).toList = hash.reverse.flatMap display :=
  String.toList_ofList

/-! ## 4. Hashes -/

/-- A hash that is displayed is read back. -/
theorem internalHash_displayHex {hash : Data} (h : hash.length = 32) :
    internalHash (displayHex hash) = some hash := by
  have htrim : trimming (displayHex hash).toList = hash.reverse.flatMap display := by
    rw [displayHex_toList, trimming_of_hex (display_all_hex _)]
  have hdata := data_display hash.reverse
  have hlength := data_length hdata
  rw [List.length_reverse, h] at hlength
  unfold internalHash
  dsimp only
  rw [htrim, if_pos hlength, hdata, Option.map_some, List.reverse_reverse]

/-- Digits that are read as a hash are displayed again, in lower case. -/
theorem displayHex_internalHash {text : String} (h : hashText (trimming text.toList) = true) :
    ∃ hash : Hash, internalHash text = some hash.val ∧
      displayHex hash.val = String.ofList ((trimming text.toList).map Char.toLower) := by
  have hsome : (internalHash text).isSome = true := by
    rw [internalHash_isSome, h, Bool.true_or]
  obtain ⟨hash, hhash⟩ := Option.isSome_iff_exists.1 hsome
  refine ⟨⟨hash, internalHash_length hhash⟩, hhash, ?_⟩
  obtain ⟨hlength, hhex⟩ := of_decide_eq_true h
  unfold internalHash at hhash
  dsimp only at hhash
  rw [if_pos hlength] at hhash
  obtain ⟨bytes, hdata, rfl⟩ := Option.map_eq_some_iff.1 hhash
  refine String.toList_inj.1 ?_
  rw [displayHex_toList, List.reverse_reverse, display_data hhex hdata, String.toList_ofList]

theorem hashFrom_eq_some {body : Data} {text : String} {hash : Hash} (hbody : utf8 body = some text)
    (hhash : internalHash text = some hash.val) : Esplora.hashFrom body = some hash := by
  unfold Esplora.hashFrom
  rw [hbody, Option.bind_some]
  split
  · rename_i d hd
    have hval : d = hash.val := Option.some.inj (hd.symm.trans hhash)
    exact congrArg some (Subtype.ext hval)
  · rename_i hnone
    rw [hhash] at hnone
    cases hnone

/-- **The hash codec.** Every hash is read back from its display, and every 64 digits are displayed
    again as they are, in lower case: so the hash a server reports is the one its block and header
    are asked by. -/
theorem hash_round_trips :
    (∀ hash : Data, hash.length = 32 → internalHash (displayHex hash) = some hash) ∧
    (∀ text : String, hashText (trimming text.toList) = true →
      ∃ hash : Hash, internalHash text = some hash.val ∧
        displayHex hash.val = String.ofList ((trimming text.toList).map Char.toLower)) ∧
    ∀ (body : Data) (text : String), utf8 body = some text →
      hashText (trimming text.toList) = true →
      ∃ hash : Hash, Esplora.hashFrom body = some hash ∧
        blockRawURL hash.val =
          "block/" ++ String.ofList ((trimming text.toList).map Char.toLower) ++ "/raw" ∧
        blockHeaderURL hash.val =
          "block/" ++ String.ofList ((trimming text.toList).map Char.toLower) ++ "/header" := by
  refine ⟨fun hash h => internalHash_displayHex h, fun text h => displayHex_internalHash h, ?_⟩
  intro body text hbody htext
  obtain ⟨hash, hhash, hdisplay⟩ := displayHex_internalHash htext
  refine ⟨hash, ?_, ?_, ?_⟩
  · exact hashFrom_eq_some hbody hhash
  · rw [← hdisplay]
    rfl
  · rw [← hdisplay]
    rfl

theorem mixed_case_round_trips :
    ∃ hash : Hash,
      Esplora.hashFrom ((List.replicate 32 [65, 98]).flatten ++ [10]) = some hash ∧
        blockRawURL hash.val = "block/" ++
          String.ofList ((List.replicate 32 ['a', 'b']).flatten) ++ "/raw" := by
  obtain ⟨hash, hhash, hraw, -⟩ := hash_round_trips.2.2
    ((List.replicate 32 [65, 98]).flatten ++ [10])
    (String.ofList ((List.replicate 32 ['A', 'b']).flatten ++ ['\n'])) (by decide) (by decide)
  refine ⟨hash, hhash, hraw.trans ?_⟩
  decide

end EsploraAPI

end SwiftBitcoinKernel
