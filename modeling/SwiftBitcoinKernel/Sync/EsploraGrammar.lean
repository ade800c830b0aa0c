/-
  File:      SwiftBitcoinKernel/Sync/EsploraGrammar.lean
  Subject:   The texts that the parsers of `EsploraAPI` and `bestTip()` accept.

  A hash is to be 64 hexadecimal digits, raw data an even number of them, a height a decimal number
  that is no less than zero. `UInt8(_:radix:)` and `Int(_:)`, which read the pairs and the height,
  take a sign as well.

  * `isHex`, `isNumber`, `decimalValue` -- the grammars;
  * `signedPair`, `signedHex`, `signedHeight` -- what is accepted beside them;
  * `byte_isSome`, `data_isSome`, `int_isSome` -- the parsers accept just the one and the other;
  * `bestTip_refuses`, `bestTip_proceeds` -- a height body in `bestTip()`;
  * `parsers_exact_iff` -- so a parser accepts its grammar just where there is no sign.
-/
import SwiftBitcoinKernel.Sync.BestTip

namespace SwiftBitcoinKernel

open Logic

namespace EsploraAPI

/-! ## 1. The grammars -/

/-- `[0-9]`. -/
def isDecimal (c : Char) : Bool := '0' ≤ c ∧ c ≤ '9'

/-- `[0-9a-fA-F]`. -/
def isHex (c : Char) : Bool := isDecimal c ∨ ('a' ≤ c ∧ c ≤ 'f') ∨ ('A' ≤ c ∧ c ≤ 'F')

/-- A non-empty string of decimal digits. -/
def isNumber (text : List Char) : Bool := text ≠ [] ∧ text.all isDecimal

/-- Its value, after the digits read so far. -/
def decimalValue (value : Nat) (text : List Char) : Nat :=
  text.foldl (fun value c => value * 10 + (c.toNat - '0'.toNat)) value

/-- A text of an even number of hexadecimal digits. -/
def hexText (text : List Char) : Bool := text.length % 2 = 0 ∧ text.all isHex

/-- The decimal numbers that are an `Int`. -/
def plainHeight (text : List Char) : Bool :=
  isNumber text ∧ decimalValue 0 text ≤ 9223372036854775807

/-! ## 2. What is accepted beside them -/

/-- A sign and a digit that together are a `UInt8`. -/
def signedPair (a b : Char) : Bool := (a = '+' ∧ isHex b) ∨ (a = '-' ∧ b = '0')

/-- Two hexadecimal digits. -/
def hexPair (a b : Char) : Bool := isHex a && isHex b

/-- A text that is pairs, with `P` each. -/
def allPairs (P : Char → Char → Bool) : List Char → Bool
  | [] => true
  | [_] => false
  | a :: b :: rest => P a b && allPairs P rest

/-- A text with a pair that has `P`. -/
def anyPair (P : Char → Char → Bool) : List Char → Bool
  | a :: b :: rest => P a b || anyPair P rest
  | _ => false

/-- Pairs of which each is hexadecimal or signed, and one is signed. -/
def signedHex (text : List Char) : Bool :=
  allPairs (fun a b => hexPair a b || signedPair a b) text && anyPair signedPair text

/-- A sign before a number, with the whole an `Int`. -/
def signedHeight : List Char → Bool
  | '+' :: rest => plainHeight rest
  | '-' :: rest => isNumber rest ∧ decimalValue 0 rest ≤ 9223372036854775808
  | _ => false

/-! ## 3. Digits -/

theorem char_le {a b : Char} : a ≤ b ↔ a.toNat ≤ b.toNat := Char.le_def

theorem isDecimal_iff (c : Char) : isDecimal c = true ↔ 48 ≤ c.toNat ∧ c.toNat ≤ 57 := by
  simp only [isDecimal, char_le, decide_eq_true_eq]
  exact Iff.rfl

theorem isHex_iff (c : Char) : isHex c = true ↔
    (48 ≤ c.toNat ∧ c.toNat ≤ 57) ∨ (97 ≤ c.toNat ∧ c.toNat ≤ 102) ∨
      (65 ≤ c.toNat ∧ c.toNat ≤ 70) := by
  simp only [isHex, isDecimal_iff, char_le, decide_eq_true_eq]
  exact Iff.rfl

/-- A digit by its character. -/
theorem digit_eq_some {radix n : Nat} {c : Char} :
    digit radix c = some n ↔ n < radix ∧
      ((48 ≤ c.toNat ∧ c.toNat ≤ 57 ∧ n = c.toNat - 48) ∨
        (97 ≤ c.toNat ∧ c.toNat ≤ 102 ∧ n = c.toNat - 87) ∨
        (65 ≤ c.toNat ∧ c.toNat ≤ 70 ∧ n = c.toNat - 55)) := by
  unfold digit
  simp only [char_le, Option.filter_eq_some_iff, decide_eq_true_eq]
  have h0 : '0'.toNat = 48 := rfl
  have h9 : '9'.toNat = 57 := rfl
  have ha : 'a'.toNat = 97 := rfl
  have hf : 'f'.toNat = 102 := rfl
  have hA : 'A'.toNat = 65 := rfl
  have hF : 'F'.toNat = 70 := rfl
  rw [h0, h9, ha, hf, hA, hF]
  split
  · simp only [Option.some.injEq]
    omega
  split
  · simp only [Option.some.injEq]
    omega
  split
  · simp only [Option.some.injEq]
    omega
  · simp only [reduceCtorEq, false_and, false_iff]
    omega

theorem digit_hex_isSome (c : Char) : (digit 16 c).isSome = isHex c := by
  rw [Bool.eq_iff_iff, isHex_iff, Option.isSome_iff_exists]
  simp only [digit_eq_some]
  constructor
  · intro ⟨n, hn, h⟩
    omega
  · intro h
    rcases h with h | h | h
    · exact ⟨c.toNat - 48, by omega, .inl ⟨h.1, h.2, rfl⟩⟩
    · exact ⟨c.toNat - 87, by omega, .inr (.inl ⟨h.1, h.2, rfl⟩)⟩
    · exact ⟨c.toNat - 55, by omega, .inr (.inr ⟨h.1, h.2, rfl⟩)⟩

theorem digit_decimal {c : Char} (h : isDecimal c = true) :
    digit 10 c = some (c.toNat - '0'.toNat) := by
  rw [isDecimal_iff] at h
  have h0 : '0'.toNat = 48 := rfl
  rw [digit_eq_some]
  omega

theorem digit_not_decimal {c : Char} (h : isDecimal c = false) : digit 10 c = none := by
  refine Option.eq_none_iff_forall_ne_some.2 fun n hn => ?_
  have hnot : ¬(48 ≤ c.toNat ∧ c.toNat ≤ 57) := by
    rw [← isDecimal_iff, h]
    exact Bool.false_ne_true
  rw [digit_eq_some] at hn
  omega

/-- The one digit of value zero. -/
theorem eq_zero_of_digit {c : Char} (h : digit 16 c = some 0) : c = '0' := by
  rw [digit_eq_some] at h
  refine Char.toNat_inj.1 ?_
  show c.toNat = 48
  omega

theorem digits_decimal (value : Nat) (text : List Char) :
    digits 10 value text = if text.all isDecimal then some (decimalValue value text) else none := by
  induction text generalizing value with
  | nil => rfl
  | cons c rest ih =>
    unfold digits
    cases hc : isDecimal c with
    | true =>
      rw [digit_decimal hc, Option.bind_some, ih, List.all_cons, hc, Bool.true_and]
      rfl
    | false =>
      rw [digit_not_decimal hc, List.all_cons, hc]
      rfl

/-- A number, where it is one. -/
theorem magnitude_decimal (text : List Char) :
    magnitude 10 text = if isNumber text then some (decimalValue 0 text) else none := by
  unfold magnitude isNumber
  by_cases hnil : text = []
  · rw [if_pos hnil, if_neg]
    intro h
    exact (of_decide_eq_true h).1 hnil
  · rw [if_neg hnil, digits_decimal]
    cases hall : text.all isDecimal with
    | true => rw [if_pos rfl, if_pos (decide_eq_true ⟨hnil, rfl⟩)]
    | false =>
      rw [if_neg Bool.false_ne_true, if_neg]
      intro h
      exact Bool.false_ne_true (of_decide_eq_true h).2

/-! ## 4. The parsers -/

section Integer

variable {radix : Nat} {least greatest : Int} {rest : List Char}

theorem integer_plus : integer radix least greatest ('+' :: rest) =
    ((magnitude radix rest).map fun n : Nat => (n : Int)).filter fun n =>
      least ≤ n ∧ n ≤ greatest := by
  show Option.filter _ (Option.map (fun n : Int => n) ((magnitude radix rest).bind _)) = _
  cases magnitude radix rest with
  | none => rfl
  | some n => rfl

theorem integer_minus : integer radix least greatest ('-' :: rest) =
    ((magnitude radix rest).map fun n : Nat => -(n : Int)).filter fun n =>
      least ≤ n ∧ n ≤ greatest := by
  show Option.filter _ (Option.map (fun n : Int => -n) ((magnitude radix rest).bind _)) = _
  cases magnitude radix rest with
  | none => rfl
  | some n => rfl

theorem integer_plain {c : Char} (hplus : c ≠ '+') (hminus : c ≠ '-') :
    integer radix least greatest (c :: rest) =
      ((magnitude radix (c :: rest)).map fun n : Nat => (n : Int)).filter fun n =>
        least ≤ n ∧ n ≤ greatest := by
  unfold integer
  dsimp only
  split
  · rename_i heq
    exact absurd (List.cons.inj heq).1 hplus
  · rename_i heq
    exact absurd (List.cons.inj heq).1 hminus
  · cases magnitude radix (c :: rest) with
    | none => rfl
    | some n => rfl

end Integer

theorem magnitude_one (b : Char) : magnitude 16 [b] = digit 16 b := by
  show (digit 16 b).bind (fun d => some (0 * 16 + d)) = digit 16 b
  cases digit 16 b with
  | none => rfl
  | some d => simp

theorem magnitude_two (a b : Char) : magnitude 16 [a, b] =
    (digit 16 a).bind fun d => (digit 16 b).map fun e => d * 16 + e := by
  show (digit 16 a).bind (fun d => (digit 16 b).bind fun e => some ((0 * 16 + d) * 16 + e)) = _
  cases digit 16 a with
  | none => rfl
  | some d =>
    cases digit 16 b with
    | none => rfl
    | some e => simp

theorem digit_lt {c : Char} {n : Nat} (h : digit 16 c = some n) : n < 16 := (digit_eq_some.1 h).1

theorem byte_plus (b : Char) : (byte ['+', b]).isSome = isHex b := by
  unfold byte
  rw [Option.isSome_map, integer_plus, magnitude_one, ← digit_hex_isSome]
  cases hb : digit 16 b with
  | none => rfl
  | some n =>
    have hn := digit_lt hb
    simp only [Option.map_some, Option.filter_some, Option.isSome_some]
    rw [if_pos (decide_eq_true (by omega))]
    rfl

theorem byte_minus (b : Char) : (byte ['-', b]).isSome = decide (b = '0') := by
  unfold byte
  rw [Option.isSome_map, integer_minus, magnitude_one]
  by_cases hzero : b = '0'
  · rw [hzero]
    decide
  · rw [decide_eq_false hzero]
    cases hb : digit 16 b with
    | none => rfl
    | some n =>
      have hn : n ≠ 0 := by
        intro hn
        rw [hn] at hb
        exact hzero (eq_zero_of_digit hb)
      simp only [Option.map_some, Option.filter_some]
      rw [if_neg]
      · rfl
      · intro h
        have := (of_decide_eq_true h).1
        omega

theorem byte_plain {a b : Char} (hplus : a ≠ '+') (hminus : a ≠ '-') :
    (byte [a, b]).isSome = hexPair a b := by
  unfold byte hexPair
  rw [Option.isSome_map, integer_plain hplus hminus, magnitude_two]
  rw [← digit_hex_isSome, ← digit_hex_isSome]
  cases ha : digit 16 a with
  | none => rfl
  | some d =>
    cases hb : digit 16 b with
    | none => rfl
    | some e =>
      have hd := digit_lt ha
      have he := digit_lt hb
      simp only [Option.bind_some, Option.map_some, Option.filter_some, Option.isSome_some]
      rw [if_pos (decide_eq_true (by omega))]
      rfl

/-- **The pairs that are read as a byte.** -/
theorem byte_isSome (a b : Char) : (byte [a, b]).isSome = (hexPair a b || signedPair a b) := by
  by_cases hplus : a = '+'
  · rw [hplus, byte_plus]
    cases hb : isHex b with
    | true => simp [signedPair, hb]
    | false => simp [signedPair, hexPair, hb]
  by_cases hminus : a = '-'
  · rw [hminus, byte_minus]
    have hsign : isHex '-' = false := by decide
    simp [signedPair, hexPair, hsign]
  · rw [byte_plain hplus hminus]
    simp [signedPair, hplus, hminus]

theorem data_isSome (text : List Char) :
    (data text).isSome = allPairs (fun a b => hexPair a b || signedPair a b) text := by
  induction text using data.induct with
  | case1 => rfl
  | case2 c => rfl
  | case3 a b rest ih =>
    unfold data allPairs
    rw [← byte_isSome, ← ih]
    cases byte [a, b] with
    | none => rfl
    | some first =>
      rw [Option.bind_some, Option.isSome_map]
      rfl

/-- A number up to the bound that its type, and the sign before it, set. -/
theorem number_within (text : List Char) {f : Nat → Int} {least greatest : Int} {bound : Nat}
    (hbound : ∀ n, (least ≤ f n ∧ f n ≤ greatest) ↔ n ≤ bound) :
    (((magnitude 10 text).map f).filter fun n => least ≤ n ∧ n ≤ greatest).isSome =
      decide (isNumber text = true ∧ decimalValue 0 text ≤ bound) := by
  rw [magnitude_decimal]
  cases isNumber text with
  | false => rfl
  | true =>
    rw [if_pos rfl, Option.map_some, Option.filter_some]
    by_cases hfits : decimalValue 0 text ≤ bound
    · rw [if_pos (decide_eq_true ((hbound _).2 hfits)), decide_eq_true ⟨rfl, hfits⟩]
      rfl
    · rw [if_neg fun h => hfits ((hbound _).1 (of_decide_eq_true h)),
        decide_eq_false fun h => hfits h.2]
      rfl

theorem number_fits (text : List Char) :
    (((magnitude 10 text).map fun n : Nat => (n : Int)).filter fun n =>
      -9223372036854775808 ≤ n ∧ n ≤ 9223372036854775807).isSome = plainHeight text :=
  number_within text fun n => by omega

theorem int_minus (rest : List Char) :
    (int ('-' :: rest)).isSome = signedHeight ('-' :: rest) := by
  unfold int
  rw [integer_minus]
  exact number_within rest fun n => by omega

/-- A number starts with a digit. -/
theorem plainHeight_sign {c : Char} {rest : List Char} (hc : isDecimal c = false) :
    plainHeight (c :: rest) = false := by
  simp [plainHeight, isNumber, hc]

theorem signedHeight_plain {c : Char} {rest : List Char} (hplus : c ≠ '+') (hminus : c ≠ '-') :
    signedHeight (c :: rest) = false := by
  unfold signedHeight
  split
  · rename_i heq
    exact absurd (List.cons.inj heq).1 hplus
  · rename_i heq
    exact absurd (List.cons.inj heq).1 hminus
  · rfl

/-- **The texts that are read as a height.** -/
theorem int_isSome (text : List Char) :
    (int text).isSome = (plainHeight text || signedHeight text) := by
  cases text with
  | nil => rfl
  | cons c rest =>
    by_cases hplus : c = '+'
    · subst hplus
      unfold int
      rw [integer_plus, number_fits, plainHeight_sign (by decide), Bool.false_or]
      rfl
    by_cases hminus : c = '-'
    · subst hminus
      rw [int_minus, plainHeight_sign (by decide), Bool.false_or]
    · unfold int
      rw [integer_plain hplus hminus, number_fits, signedHeight_plain hplus hminus, Bool.or_false]

/-! ## 5. With and without signs -/

/-- A pair with a sign is not hexadecimal. -/
theorem hexPair_of_signed {a b : Char} (h : signedPair a b = true) : hexPair a b = false := by
  have hplus : isHex '+' = false := by decide
  have hminus : isHex '-' = false := by decide
  unfold signedPair at h
  rcases of_decide_eq_true h with ⟨rfl, _⟩ | ⟨rfl, _⟩
  · simp [hexPair, hplus]
  · simp [hexPair, hminus]

theorem hexText_eq (text : List Char) : hexText text = allPairs hexPair text := by
  induction text using data.induct with
  | case1 => rfl
  | case2 c => rfl
  | case3 a b rest ih =>
    unfold allPairs
    rw [← ih]
    have hparity : (a :: b :: rest).length % 2 = rest.length % 2 := by
      simp only [List.length_cons]
      omega
    unfold hexText hexPair
    rw [hparity, List.all_cons, List.all_cons]
    cases isHex a <;> cases isHex b <;> simp

/-- Pairs without a sign are hexadecimal, and the other way round. -/
theorem allPairs_hex_iff (text : List Char) :
    allPairs hexPair text = true ↔
      allPairs (fun a b => hexPair a b || signedPair a b) text = true ∧
        anyPair signedPair text = false := by
  induction text using data.induct with
  | case1 => exact ⟨fun _ => ⟨rfl, rfl⟩, fun _ => rfl⟩
  | case2 c => exact ⟨fun h => (by cases h), fun h => (by cases h.1)⟩
  | case3 a b rest ih =>
    unfold allPairs anyPair
    simp only [Bool.and_eq_true, Bool.or_eq_true, Bool.or_eq_false_iff, ih]
    constructor
    · intro h
      obtain ⟨hpair, hrest, hsigns⟩ := h
      refine ⟨⟨.inl hpair, hrest⟩, ?_, hsigns⟩
      refine Bool.eq_false_iff.2 fun hsigned => ?_
      rw [hexPair_of_signed hsigned] at hpair
      cases hpair
    · intro h
      obtain ⟨⟨hpair, hrest⟩, hsign, hsigns⟩ := h
      refine ⟨hpair.resolve_right ?_, hrest, hsigns⟩
      rw [hsign]
      exact Bool.false_ne_true

/-- A grammar and what is accepted beside it. -/
theorem accepted_iff {accepted grammar beside : Bool} (hboth : accepted = (grammar || beside))
    (hnot : beside = true → grammar = false) :
    (accepted = true ↔ grammar = true) ↔ ¬beside = true := by
  cases grammar <;> cases beside <;> simp_all

theorem data_accepted (text : List Char) :
    (data text).isSome = (hexText text || signedHex text) := by
  rw [data_isSome, hexText_eq, Bool.eq_iff_iff, Bool.or_eq_true, allPairs_hex_iff]
  unfold signedHex
  cases anyPair signedPair text <;> simp

theorem hexText_of_signed {text : List Char} (h : signedHex text = true) : hexText text = false := by
  rw [hexText_eq]
  refine Bool.eq_false_iff.2 fun hhex => ?_
  have hsigns := ((allPairs_hex_iff text).1 hhex).2
  unfold signedHex at h
  rw [hsigns, Bool.and_false] at h
  cases h

/-- 64 hexadecimal digits. -/
def hashText (text : List Char) : Bool := text.length = 64 ∧ text.all isHex

/-- 64 characters with a sign among them that is accepted. -/
def signedHash (text : List Char) : Bool := text.length = 64 ∧ signedHex text

theorem internalHash_isSome (hex : String) : (internalHash hex).isSome =
    (hashText (trimming hex.toList) || signedHash (trimming hex.toList)) := by
  unfold internalHash hashText signedHash
  dsimp only
  by_cases hlen : (trimming hex.toList).length = 64
  · rw [if_pos hlen, Option.isSome_map, data_accepted]
    unfold hexText
    simp [hlen]
  · rw [if_neg hlen]
    simp [hlen]

theorem hashText_of_signed {text : List Char} (h : signedHash text = true) :
    hashText text = false := by
  obtain ⟨hlen, hsigned⟩ := of_decide_eq_true h
  have hhex := of_decide_eq_false (hexText_of_signed hsigned)
  refine decide_eq_false fun hash => hhex ⟨?_, hash.2⟩
  rw [hlen]

theorem plainHeight_of_signed {text : List Char} (h : signedHeight text = true) :
    plainHeight text = false := by
  cases text with
  | nil => cases h
  | cons c rest =>
    by_cases hplus : c = '+'
    · exact plainHeight_sign (by rw [hplus]; decide)
    by_cases hminus : c = '-'
    · exact plainHeight_sign (by rw [hminus]; decide)
    · rw [signedHeight_plain hplus hminus] at h
      cases h

end EsploraAPI

/-! ## 6. A height in `bestTip()` -/

section Height

open EsploraAPI

variable {S : Esplora} {s s₁ : EsploraState} {body : Data}

/-- `bestTip()`, once it has a height. -/
def Esplora.tipAt (S : Esplora) (height : Int) : EsploraM BlockTip := do
  let hashData ← S.fetchData tipHashURL
  match Esplora.hashFrom hashData with
  | none =>
    throw (.invalidResponse s!"expected 64-char hex tip hash, got '{Esplora.raw hashData}'")
  | some hash => return ⟨hash, height, none⟩

theorem bestTip_proceeds {height : Int} (hfetch : S.fetchData tipHeightURL s = (.ok body, s₁))
    (hheight : Esplora.heightFrom body = some height) : S.bestTip s = S.tipAt height s₁ := by
  unfold Esplora.heightFrom at hheight
  unfold Esplora.bestTip
  rw [Throwing.bind_of_ok hfetch, hheight]
  rfl

theorem bestTip_refuses (hfetch : S.fetchData tipHeightURL s = (.ok body, s₁))
    (hheight : Esplora.heightFrom body = none) :
    S.bestTip s = (.error (.invalidResponse
      s!"expected numeric tip height, got '{Esplora.raw body}'"), s₁) := by
  unfold Esplora.heightFrom at hheight
  unfold Esplora.bestTip
  rw [Throwing.bind_of_ok hfetch, hheight]
  rfl

/-- **The parsers and their grammars.** For the text of a response: the hash, the data and the
    height are accepted just where the trimmed text is of the grammar, unless it is one of those
    with a sign. With a height that is accepted `bestTip()` goes on to the hash, and without one it
    throws. -/
theorem parsers_exact_iff {text : String} (htext : EsploraAPI.utf8 body = some text) :
    (((internalHash text).isSome = true ↔ hashText (trimming text.toList) = true) ↔
        ¬signedHash (trimming text.toList) = true) ∧
      (((data (trimming text.toList)).isSome = true ↔ hexText (trimming text.toList) = true) ↔
        ¬signedHex (trimming text.toList) = true) ∧
      (((Esplora.heightFrom body).isSome = true ↔ plainHeight (trimming text.toList) = true) ↔
        ¬signedHeight (trimming text.toList) = true) ∧
      ∀ (S : Esplora) (s s₁ : EsploraState), S.fetchData tipHeightURL s = (.ok body, s₁) →
        (∀ height, Esplora.heightFrom body = some height → S.bestTip s = S.tipAt height s₁) ∧
        (Esplora.heightFrom body = none → S.bestTip s = (.error (.invalidResponse
          s!"expected numeric tip height, got '{Esplora.raw body}'"), s₁)) := by
  have hheight : Esplora.heightFrom body = int (trimming text.toList) := by
    unfold Esplora.heightFrom
    rw [htext]
    rfl
  refine ⟨accepted_iff (internalHash_isSome text) hashText_of_signed,
    accepted_iff (data_accepted _) hexText_of_signed, ?_, fun S s s₁ hfetch => ⟨?_, ?_⟩⟩
  · rw [hheight]
    exact accepted_iff (int_isSome _) plainHeight_of_signed
  · exact fun height hsome => bestTip_proceeds hfetch hsome
  · exact fun hnone => bestTip_refuses hfetch hnone

/-- A height of five, with a line feed. -/
theorem parsers_exact_five : (Esplora.heightFrom [0x35, 0x0a]).isSome = true := by
  have htext : EsploraAPI.utf8 [0x35, 0x0a] = some "5\n" := by decide +kernel
  have h := (parsers_exact_iff htext).2.2.1
  exact (h.2 (by decide +kernel)).2 (by decide +kernel)

/-- 32 times `+f` is read as a hash, `-0` as a byte, and `-5` as a height. -/
theorem parsers_take_signs :
    (Esplora.hashFrom (List.replicate 32 [0x2b, 0x66]).flatten = some (Hash.repeating 0x0f) ∧
        hashText (trimming (String.ofList (List.replicate 32 ['+', 'f']).flatten).toList) = false) ∧
      (data ['-', '0'] = some [0] ∧ hexText ['-', '0'] = false) ∧
      Esplora.heightFrom [0x2d, 0x35] = some (-5) ∧ plainHeight ['-', '5'] = false := by
  refine ⟨⟨?_, ?_⟩, ⟨?_, ?_⟩, ?_, ?_⟩ <;> decide +kernel

end Height

end SwiftBitcoinKernel
