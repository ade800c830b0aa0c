/-
  File:      SwiftBitcoinKernel/Rpc/ReaderTokens.lean
  Subject:   `getJsonToken` on well-formed text: the next token is the one it was written with.

  * `pushBack_char` -- the filter passes UTF-8 through; `pushBackU_pair` -- and collates pairs;
  * `readItem`, `lexString_items` -- a string is read as the characters it stands for, but for what
    `collate` makes of a surrogate pair;
  * `getJsonToken_number` -- a number is read whole;
  * `readTok`, `getJsonToken_renders` -- the tokens, one by one.
-/
import Mathlib.Tactic.Ring
import SwiftBitcoinKernel.Logic.Json
import SwiftBitcoinKernel.Rpc.Reader

namespace SwiftBitcoinKernel

open Logic
open Logic.Json (Item Tok Renders)

/-! ## 1. Code points in UTF-8 -/

/-- A marker in front of `i` bits. -/
theorem marker_or (mark i : Nat) {x : Nat} (hmark : 2 ^ i ∣ mark) (hx : x < 2 ^ i) :
    mark ||| x = x + mark := by
  obtain ⟨k, rfl⟩ := hmark
  rw [← Nat.two_pow_add_eq_or_of_lt hx, Nat.add_comm]

theorem and_3F (x : Nat) : x &&& 0x3F = x % 64 := Nat.and_two_pow_sub_one_eq_mod x 6

theorem shiftRight_6 (x : Nat) : x >>> 6 = x / 64 := Nat.shiftRight_eq_div_pow x 6

theorem shiftRight_12 (x : Nat) : x >>> 12 = x / 4096 := Nat.shiftRight_eq_div_pow x 12

theorem shiftRight_18 (x : Nat) : x >>> 18 = x / 262144 := Nat.shiftRight_eq_div_pow x 18

/-- Four bytes, from 2^16 on. -/
theorem appendCodepoint_four {n : Nat} (hlow : 0x10000 ≤ n) (hhigh : n ≤ 0x1FFFFF) :
    appendCodepoint n = [UInt8.ofNat (n / 262144 + 240), UInt8.ofNat (n / 4096 % 64 + 128),
      UInt8.ofNat (n / 64 % 64 + 128), UInt8.ofNat (n % 64 + 128)] := by
  unfold appendCodepoint
  rw [if_neg (by omega), if_neg (by omega), if_neg (by omega), if_pos hhigh, and_3F, and_3F,
    and_3F, shiftRight_6, shiftRight_12, shiftRight_18, marker_or 0xF0 3 (by decide) (by omega),
    marker_or 0x80 6 (by decide) (by omega), marker_or 0x80 6 (by decide) (by omega), marker_or 0x80 6 (by decide) (by omega)]

/-- Of a character it is UTF-8. -/
theorem appendCodepoint_toNat (c : Char) : appendCodepoint c.toNat = String.utf8EncodeChar c := by
  have hscalar := Json.scalar_toNat c
  by_cases h1 : c.toNat ≤ 0x7f
  · rw [Json.utf8_one h1]
    exact if_pos h1
  by_cases h2 : c.toNat ≤ 0x7FF
  · rw [Json.utf8_two h1 h2]
    unfold appendCodepoint
    rw [if_neg h1, if_pos h2, and_3F, shiftRight_6, marker_or 0xC0 6 (by decide) (by omega),
      marker_or 0x80 6 (by decide) (by omega)]
  by_cases h3 : c.toNat ≤ 0xFFFF
  · rw [Json.utf8_three h2 h3]
    unfold appendCodepoint
    rw [if_neg h1, if_neg h2, if_pos h3, and_3F, and_3F, shiftRight_6, shiftRight_12,
      marker_or 0xE0 4 (by decide) (by omega), marker_or 0x80 6 (by decide) (by omega), marker_or 0x80 6 (by decide) (by omega)]
  · rw [Json.utf8_four h3, appendCodepoint_four (by omega) (by omega)]

/-! ## 2. The filter -/

namespace JSONUTF8StringFilter

variable {w : JSONUTF8StringFilter}

/-- Between two characters, with nothing wrong so far. -/
structure Clean (w : JSONUTF8StringFilter) : Prop where
  valid : w.isValid = true
  state : w.state = 0
  surpair : w.surpair = 0

theorem Clean.finalize (hw : w.Clean) : w.finalize = true := by
  unfold JSONUTF8StringFilter.finalize
  rw [hw.state, hw.surpair, hw.valid]
  rfl

theorem pushBackU_scalar {n : Nat} (hstate : w.state = 0) (hsurpair : w.surpair = 0)
    (hn : n < 0xD800 ∨ 0xE000 ≤ n) :
    w.pushBackU n = { w with str := w.str ++ appendCodepoint n } := by
  unfold pushBackU
  rw [if_neg (not_not.2 hstate)]
  dsimp only
  rw [if_neg (by omega), if_neg (by omega), if_neg (not_not.2 hsurpair)]

theorem pushBack_ascii {b : UInt8} (hstate : w.state = 0) (hb : b < 0x80) :
    w.pushBack b = { w with str := w.str ++ [b] } := by
  unfold pushBack
  rw [if_pos hstate, if_pos hb]

theorem pushBack_lead2 {x : Nat} (hstate : w.state = 0) (hx : x < 32) :
    w.pushBack (UInt8.ofNat (x + 192)) = { w with codepoint := x <<< 6, state := 6 } := by
  have hall : ∀ x < 32, ¬UInt8.ofNat (x + 192) < 0x80 ∧ ¬UInt8.ofNat (x + 192) < 0xc0 ∧
      UInt8.ofNat (x + 192) < 0xe0 ∧ (UInt8.ofNat (x + 192)).toNat &&& 0x1f = x := by decide
  obtain ⟨h1, h2, h3, hbits⟩ := hall x hx
  unfold pushBack
  rw [if_pos hstate, if_neg h1, if_neg h2, if_pos h3, hbits]

theorem pushBack_lead3 {x : Nat} (hstate : w.state = 0) (hx : x < 16) :
    w.pushBack (UInt8.ofNat (x + 224)) = { w with codepoint := x <<< 12, state := 12 } := by
  have hall : ∀ x < 16, ¬UInt8.ofNat (x + 224) < 0x80 ∧ ¬UInt8.ofNat (x + 224) < 0xc0 ∧
      ¬UInt8.ofNat (x + 224) < 0xe0 ∧ UInt8.ofNat (x + 224) < 0xf0 ∧
      (UInt8.ofNat (x + 224)).toNat &&& 0x0f = x := by decide
  obtain ⟨h1, h2, h3, h4, hbits⟩ := hall x hx
  unfold pushBack
  rw [if_pos hstate, if_neg h1, if_neg h2, if_neg h3, if_pos h4, hbits]

theorem pushBack_lead4 {x : Nat} (hstate : w.state = 0) (hx : x < 8) :
    w.pushBack (UInt8.ofNat (x + 240)) = { w with codepoint := x <<< 18, state := 18 } := by
  have hall : ∀ x < 8, ¬UInt8.ofNat (x + 240) < 0x80 ∧ ¬UInt8.ofNat (x + 240) < 0xc0 ∧
      ¬UInt8.ofNat (x + 240) < 0xe0 ∧ ¬UInt8.ofNat (x + 240) < 0xf0 ∧
      UInt8.ofNat (x + 240) < 0xf8 ∧ (UInt8.ofNat (x + 240)).toNat &&& 0x07 = x := by decide
  obtain ⟨h1, h2, h3, h4, h5, hbits⟩ := hall x hx
  unfold pushBack
  rw [if_pos hstate, if_neg h1, if_neg h2, if_neg h3, if_neg h4, if_pos h5, hbits]

/-- Six bits more. -/
theorem join_bits (n k : Nat) : (n / 64) <<< (k + 6) ||| (n % 64) <<< k = n <<< k := by
  have hlt : (n % 64) <<< k < 2 ^ (k + 6) := by
    rw [Nat.shiftLeft_eq, pow_add, mul_comm (2 ^ k)]
    exact Nat.mul_lt_mul_of_pos_right (Nat.mod_lt _ (by decide)) (Nat.two_pow_pos k)
  rw [← Nat.shiftLeft_add_eq_or_of_lt hlt, Nat.shiftLeft_eq, Nat.shiftLeft_eq, Nat.shiftLeft_eq,
    pow_add]
  have hdiv := Nat.div_add_mod n 64
  calc n / 64 * (2 ^ k * 2 ^ 6) + n % 64 * 2 ^ k = (64 * (n / 64) + n % 64) * 2 ^ k := by ring
    _ = n * 2 ^ k := by rw [hdiv]

/-- A byte in the middle of a character, whose code point is complete but for `k` bits after it. -/
theorem pushBack_tail {n k : Nat} (hstate : w.state = k + 6)
    (hcode : w.codepoint = (n / 64) <<< (k + 6)) :
    w.pushBack (UInt8.ofNat (n % 64 + 128)) =
      if k = 0 then { w with state := k, codepoint := n <<< k }.pushBackU (n <<< k)
      else { w with state := k, codepoint := n <<< k } := by
  have hall : ∀ x < 64, (UInt8.ofNat (x + 128)).toNat &&& 0xc0 = 0x80 ∧
      (UInt8.ofNat (x + 128)).toNat &&& 0x3f = x := by decide
  obtain ⟨hmark, hbits⟩ := hall (n % 64) (Nat.mod_lt _ (by decide))
  unfold pushBack
  rw [if_neg (by omega), if_neg (not_not.2 hmark)]
  dsimp only
  rw [hstate, Nat.add_sub_cancel, hbits, hcode, join_bits]

/-- From `w`, these bytes were written, and nothing is open. -/
structure Wrote (w : JSONUTF8StringFilter) (bytes : Data) (w' : JSONUTF8StringFilter) : Prop where
  clean : w'.Clean
  str : w'.str = w.str ++ bytes

theorem Clean.pushBackU (hw : w.Clean) {n : Nat} (hn : n < 0xD800 ∨ 0xE000 ≤ n) :
    w.Wrote (appendCodepoint n) (w.pushBackU n) := by
  rw [pushBackU_scalar hw.state hw.surpair hn]
  exact ⟨⟨hw.valid, hw.state, hw.surpair⟩, rfl⟩

/-- The last byte of a character. -/
theorem pushBack_last (hw : w.Clean) (c : Char) :
    w.Wrote (String.utf8EncodeChar c)
      ({ w with codepoint := (c.toNat / 64) <<< 6, state := 6 }.pushBack
        (UInt8.ofNat (c.toNat % 64 + 128))) := by
  have hscalar := Json.scalar_toNat c
  have hopen : Clean { w with codepoint := c.toNat, state := 0 } := ⟨hw.valid, rfl, hw.surpair⟩
  have hwrote := hopen.pushBackU (n := c.toNat) (by omega)
  rw [pushBack_tail (n := c.toNat) (k := 0) rfl rfl, if_pos rfl, Nat.shiftLeft_zero,
    ← appendCodepoint_toNat]
  exact ⟨hwrote.clean, hwrote.str⟩

/-- **The filter passes UTF-8 through.** -/
theorem pushBack_char (hw : w.Clean) (c : Char) :
    w.Wrote (String.utf8EncodeChar c) ((String.utf8EncodeChar c).foldl pushBack w) := by
  have hscalar := Json.scalar_toNat c
  -- the bytes before the last leave a code point without its last six bits
  have hlast := pushBack_last hw c
  have hmiddle : ∀ n, n / 64 / 64 = n / 4096 := fun n => Nat.div_div_eq_div_mul n 64 64
  have hupper : ∀ n, n / 4096 / 64 = n / 262144 := fun n => Nat.div_div_eq_div_mul n 4096 64
  by_cases h1 : c.toNat ≤ 0x7f
  · have hall : ∀ n ≤ 0x7f, UInt8.ofNat n < 0x80 := by decide
    rw [Json.utf8_one h1, List.foldl_cons, List.foldl_nil,
      pushBack_ascii hw.state (hall _ h1)]
    exact ⟨⟨hw.valid, hw.state, hw.surpair⟩, rfl⟩
  by_cases h2 : c.toNat ≤ 0x7FF
  · rw [Json.utf8_two h1 h2] at hlast ⊢
    rw [List.foldl_cons, List.foldl_cons, List.foldl_nil, pushBack_lead2 hw.state (by omega)]
    exact hlast
  by_cases h3 : c.toNat ≤ 0xFFFF
  · rw [Json.utf8_three h2 h3] at hlast ⊢
    rw [List.foldl_cons, List.foldl_cons, List.foldl_cons, List.foldl_nil,
      pushBack_lead3 hw.state (by omega),
      pushBack_tail (n := c.toNat / 64) (k := 6) rfl (by rw [hmiddle]), if_neg (by decide)]
    exact hlast
  · rw [Json.utf8_four h3] at hlast ⊢
    rw [List.foldl_cons, List.foldl_cons, List.foldl_cons, List.foldl_cons, List.foldl_nil,
      pushBack_lead4 hw.state (by omega),
      pushBack_tail (n := c.toNat / 4096) (k := 12) rfl (by rw [hupper]), if_neg (by decide),
      pushBack_tail (n := c.toNat / 64) (k := 6) rfl (by rw [hmiddle]), if_neg (by decide)]
    exact hlast

/-- A surrogate pair. -/
theorem pushBackU_pair (hw : w.Clean) {high low : Nat} (hhigh : 0xD800 ≤ high ∧ high < 0xDC00)
    (hlow : 0xDC00 ≤ low ∧ low < 0xE000) :
    w.Wrote (appendCodepoint (collate high low)) ((w.pushBackU high).pushBackU low) := by
  have hopened : w.pushBackU high = { w with surpair := high } := by
    unfold JSONUTF8StringFilter.pushBackU
    rw [if_neg (not_not.2 hw.state)]
    dsimp only
    rw [if_pos hhigh, if_neg (not_not.2 hw.surpair)]
  have hclosed : { w with surpair := high }.pushBackU low =
      { w with str := w.str ++ appendCodepoint (collate high low), surpair := 0 } := by
    unfold JSONUTF8StringFilter.pushBackU
    rw [if_neg (not_not.2 hw.state)]
    dsimp only
    rw [if_neg (by omega), if_pos hlow, if_pos (by omega)]
  rw [hopened, hclosed]
  exact ⟨⟨hw.valid, hw.state, rfl⟩, rfl⟩

end JSONUTF8StringFilter

/-! ## 3. Strings -/

section Strings

open JSONUTF8StringFilter

variable {w : JSONUTF8StringFilter} {rest : Data}

/-- What an item of a string is read as: itself, but for the pairs. -/
def readItem : Item → Data
  | .pair high low _ _ => appendCodepoint (collate high.value low.value)
  | i => i.bytes

/-- What a string is read as. -/
def readItems (s : List Item) : Data := s.flatMap readItem

/-- A byte that stands for itself. -/
def Unescaped (b : UInt8) : Prop := ¬b < 0x20 ∧ b ≠ 0x5c ∧ b ≠ 0x22

theorem scanString_unescaped {b : UInt8} (hb : Unescaped b) :
    scanString (b :: rest) w = scanString rest (w.pushBack b) := by
  rw [scanString.eq_def]
  dsimp only
  rw [if_neg hb.1, if_neg hb.2.1, if_neg hb.2.2]

theorem scanString_unescapedAll {bytes : Data} (h : ∀ b ∈ bytes, Unescaped b) :
    scanString (bytes ++ rest) w = scanString rest (bytes.foldl pushBack w) := by
  induction bytes generalizing w with
  | nil => rfl
  | cons b bytes ih =>
    rw [List.cons_append, scanString_unescaped (h b (List.mem_cons_self ..)),
      ih fun c hc => h c (List.mem_cons_of_mem _ hc)]
    rfl

/-- The bytes of an unescaped character. -/
theorem unescaped_utf8 {c : Char} (hcontrol : 0x20 ≤ c.toNat) (hquotation : c ≠ '\x22')
    (hsolidus : c ≠ '\x5c') : ∀ b ∈ String.utf8EncodeChar c, Unescaped b := by
  have hone : ∀ n < 128, 0x20 ≤ n ∧ n ≠ 0x22 ∧ n ≠ 0x5c → Unescaped (UInt8.ofNat n) := by
    unfold Unescaped
    decide +kernel
  have hmore : ∀ n < 256, 128 ≤ n → Unescaped (UInt8.ofNat n) := by
    unfold Unescaped
    decide +kernel
  have hscalar := Json.scalar_toNat c
  intro b hb
  by_cases h1 : c.toNat ≤ 0x7f
  · rw [Json.utf8_one h1, List.mem_singleton] at hb
    have hne : ∀ d : Char, c ≠ d → c.toNat ≠ d.toNat := fun d hd h =>
      hd (Char.toNat_inj.1 h)
    rw [hb]
    exact hone _ (by omega) ⟨hcontrol, hne _ hquotation, hne _ hsolidus⟩
  by_cases h2 : c.toNat ≤ 0x7FF
  · simp only [Json.utf8_two h1 h2, List.mem_cons, List.not_mem_nil, or_false] at hb
    rcases hb with rfl | rfl <;> exact hmore _ (by omega) (by omega)
  by_cases h3 : c.toNat ≤ 0xFFFF
  · simp only [Json.utf8_three h2 h3, List.mem_cons, List.not_mem_nil, or_false] at hb
    rcases hb with rfl | rfl | rfl <;> exact hmore _ (by omega) (by omega)
  · simp only [Json.utf8_four h3, List.mem_cons, List.not_mem_nil, or_false] at hb
    rcases hb with rfl | rfl | rfl | rfl <;> exact hmore _ (by omega) (by omega)

theorem jsonHexDigit_byte (d : Json.HexDigit) : jsonHexDigit d.byte = some d.value.val := by
  have hall : ∀ (v : Fin 16) (u : Bool),
      jsonHexDigit (Json.HexDigit.byte ⟨v, u⟩) = some v.val := by decide
  exact hall d.value d.upper

theorem scanString_unit (u : Json.HexUnit) (hrest : rest.isEmpty = false) :
    scanString (u.text ++ rest) w = scanString rest (w.pushBackU u.value) := by
  have hvalue : hatoui u.d₀.byte u.d₁.byte u.d₂.byte u.d₃.byte = some u.value := by
    unfold hatoui
    rw [jsonHexDigit_byte, jsonHexDigit_byte, jsonHexDigit_byte, jsonHexDigit_byte]
    rfl
  show scanString (0x5c :: 0x75 :: u.d₀.byte :: u.d₁.byte :: u.d₂.byte :: u.d₃.byte :: rest) w = _
  rw [scanString.eq_def]
  dsimp only
  rw [if_neg (by decide), if_pos rfl, if_pos rfl, hrest, if_neg Bool.false_ne_true, hvalue]

theorem scanString_escape (e : Json.Escape) :
    scanString (0x5c :: e.letter :: rest) w =
      scanString rest (w.pushBack (UInt8.ofNat e.char.toNat)) := by
  have hletter : e.letter ≠ 0x75 := by cases e <;> decide
  have hunescape : unescape e.letter = some (UInt8.ofNat e.char.toNat) := by cases e <;> decide
  rw [scanString.eq_def]
  dsimp only
  rw [if_neg (by decide), if_pos rfl, if_neg hletter, hunescape]

/-- An item is read. -/
theorem scanString_item (hw : w.Clean) (i : Item) (hrest : rest.isEmpty = false) :
    ∃ w', scanString (i.text ++ rest) w = scanString rest w' ∧ w.Wrote (readItem i) w' := by
  cases i with
  | raw c hcontrol hquotation hsolidus =>
    exact ⟨_, scanString_unescapedAll (unescaped_utf8 hcontrol hquotation hsolidus), pushBack_char hw c⟩
  | escape e =>
    have hascii : e.char.toNat ≤ 0x7f := by cases e <;> decide
    have hwrote := pushBack_char hw e.char
    refine ⟨_, scanString_escape e, ?_⟩
    show w.Wrote (String.utf8EncodeChar e.char) _
    rw [Json.utf8_one hascii] at hwrote ⊢
    exact hwrote
  | unit u hscalar =>
    refine ⟨_, scanString_unit u hrest, ?_⟩
    have hlt := u.value_lt
    have hchar : (Char.ofNat u.value).toNat = u.value := Json.toNat_ofNat (by omega)
    show w.Wrote (String.utf8EncodeChar (Char.ofNat u.value)) _
    rw [← appendCodepoint_toNat, hchar]
    exact hw.pushBackU (by omega)
  | pair high low hhigh hlow =>
    refine ⟨_, ?_, pushBackU_pair hw hhigh hlow⟩
    show scanString ((high.text ++ low.text) ++ rest) w = _
    rw [List.append_assoc, scanString_unit high rfl, scanString_unit low hrest]

/-- So are all of them. -/
theorem scanString_items (hw : w.Clean) (s : List Item) (hrest : rest.isEmpty = false) :
    ∃ w', scanString (s.flatMap Item.text ++ rest) w = scanString rest w' ∧
      w.Wrote (readItems s) w' := by
  induction s generalizing w with
  | nil => exact ⟨w, rfl, hw, (List.append_nil _).symm⟩
  | cons i s ih =>
    have hmore : (s.flatMap Item.text ++ rest).isEmpty = false := by
      rw [List.isEmpty_eq_false_iff] at hrest ⊢
      exact List.append_ne_nil_of_right_ne_nil _ hrest
    obtain ⟨w₁, hfirst, hwrote₁⟩ := scanString_item hw i hmore
    obtain ⟨w₂, hothers, hwrote₂⟩ := ih hwrote₁.clean
    refine ⟨w₂, ?_, hwrote₂.clean, ?_⟩
    · rw [List.flatMap_cons, List.append_assoc, hfirst, hothers]
    · rw [hwrote₂.str, hwrote₁.str, List.append_assoc]
      rfl

/-- A string, up to its closing quotation mark. -/
theorem lexString_items (s : List Item) (rest : Data) :
    lexString (s.flatMap Item.text ++ 0x22 :: rest) = .tok (.string (readItems s)) rest := by
  have hinitial : Clean .initial := ⟨rfl, rfl, rfl⟩
  obtain ⟨w', hscan, hwrote⟩ := scanString_items hinitial s (rfl : (0x22 :: rest).isEmpty = false)
  have hend : scanString (0x22 :: rest) w' = some (w', rest) := by
    rw [scanString.eq_def]
    dsimp only
    rw [if_neg (by decide), if_neg (by decide), if_pos rfl]
  unfold lexString
  rw [hscan, hend]
  dsimp only
  rw [if_pos hwrote.clean.finalize, hwrote.str]
  rfl

end Strings

/-! ## 4. Numbers -/

section Numbers

variable {numStr rest : Data}

/-- No digit comes next. -/
def EndsDigits (rest : Data) : Prop := startsWithDigit rest = false

/-- Nothing that comes next would go on with a number. -/
structure EndsNumber (rest : Data) : Prop where
  digit : EndsDigits rest
  point : rest.head? ≠ some 0x2e
  lower : rest.head? ≠ some 0x65
  upper : rest.head? ≠ some 0x45

theorem takeWhile_digits {ds : Data} (hds : ∀ b ∈ ds, jsonIsDigit b = true)
    (hrest : EndsDigits rest) : (ds ++ rest).takeWhile jsonIsDigit = ds := by
  rw [List.takeWhile_append_of_pos hds]
  cases rest with
  | nil => exact List.append_nil ds
  | cons b rest =>
    have hb : jsonIsDigit b = false := hrest
    rw [List.takeWhile_cons_of_neg (Bool.eq_false_iff.1 hb)]
    exact List.append_nil ds

theorem dropWhile_digits {ds : Data} (hds : ∀ b ∈ ds, jsonIsDigit b = true)
    (hrest : EndsDigits rest) : (ds ++ rest).dropWhile jsonIsDigit = rest := by
  rw [List.dropWhile_append_of_pos hds]
  cases rest with
  | nil => rfl
  | cons b rest =>
    have hb : jsonIsDigit b = false := hrest
    exact List.dropWhile_cons_of_neg (Bool.eq_false_iff.1 hb)

theorem startsWithDigit_digits (ds : Json.Digits) (rest : Data) :
    startsWithDigit (ds.bytes ++ rest) = true := by
  obtain ⟨bytes, hne, hdigits⟩ := ds
  cases bytes with
  | nil => exact absurd rfl hne
  | cons b bytes => exact hdigits b (List.mem_cons_self ..)

theorem copyDigits_digits (ds : Json.Digits) (hrest : EndsDigits rest) :
    copyDigits (ds.bytes ++ rest) = some (ds.bytes, rest) := by
  unfold copyDigits
  rw [if_pos (startsWithDigit_digits ds rest), takeWhile_digits ds.digits hrest,
    dropWhile_digits ds.digits hrest]

theorem exponentSign_text (e : Json.Exponent) (rest : Data) :
    exponentSign (e.signText ++ (e.digits.bytes ++ rest)) = e.signText := by
  obtain ⟨upper, sign, ⟨bytes, hne, hdigits⟩⟩ := e
  cases sign with
  | some minus => cases minus <;> rfl
  | none =>
    cases bytes with
    | nil => exact absurd rfl hne
    | cons b bytes =>
      -- a digit is no sign
      have hsign : ∀ b, jsonIsDigit b = true → (b = 0x2d || b = 0x2b) = false :=
        forall_byte (by decide +kernel)
      show (if (b = 0x2d || b = 0x2b) = true then [b] else []) = []
      rw [hsign b (hdigits b (List.mem_cons_self ..))]
      rfl

theorem lexExponent_text (n : Json.Number) (hrest : EndsNumber rest) :
    lexExponent numStr (n.exponentText ++ rest) = .tok (.number (numStr ++ n.exponentText)) rest := by
  unfold Json.Number.exponentText
  cases n.exponent with
  | none =>
    rw [List.append_nil]
    cases rest with
    | nil => rfl
    | cons b rest =>
      have hnot : (b = 0x65 || b = 0x45) = false := by
        rw [Bool.or_eq_false_iff]
        exact ⟨decide_eq_false fun h => hrest.lower (congrArg some h),
          decide_eq_false fun h => hrest.upper (congrArg some h)⟩
      show (if (b = 0x65 || b = 0x45) = true then _ else _) = _
      rw [hnot]
      rfl
  | some e =>
    have hmark : ((if e.upper then (0x45 : UInt8) else 0x65) = 0x65 ||
        (if e.upper then (0x45 : UInt8) else 0x65) = 0x45) = true := by
      cases e.upper <;> decide
    have hdrop : (e.signText ++ (e.digits.bytes ++ rest)).drop e.signText.length =
        e.digits.bytes ++ rest := List.drop_left
    show lexExponent numStr ((if e.upper then 0x45 else 0x65) ::
      ((e.signText ++ e.digits.bytes) ++ rest)) = _
    unfold lexExponent
    dsimp only
    rw [if_pos hmark, List.append_assoc, exponentSign_text, hdrop,
      copyDigits_digits e.digits hrest.digit]
    rfl

/-- The exponent, if there is one, ends the digits before it, and is no fraction. -/
theorem exponentText_ends (n : Json.Number) (hrest : EndsNumber rest) :
    EndsDigits (n.exponentText ++ rest) ∧ (n.exponentText ++ rest).head? ≠ some 0x2e := by
  unfold Json.Number.exponentText
  cases n.exponent with
  | none => exact ⟨hrest.digit, hrest.point⟩
  | some e =>
    obtain ⟨upper, sign, digits⟩ := e
    cases upper with
    | true => exact ⟨(by decide : jsonIsDigit 0x45 = false), by simp [Json.Exponent.text]⟩
    | false => exact ⟨(by decide : jsonIsDigit 0x65 = false), by simp [Json.Exponent.text]⟩

theorem lexFraction_text (n : Json.Number) (hrest : EndsNumber rest) :
    lexFraction numStr (n.fractionText ++ (n.exponentText ++ rest)) =
      .tok (.number (numStr ++ (n.fractionText ++ n.exponentText))) rest := by
  obtain ⟨hdigit, hpoint⟩ := exponentText_ends n hrest
  have hexponent : ∀ {numStr : Data}, lexExponent numStr (n.exponentText ++ rest) = _ :=
    lexExponent_text n hrest
  unfold Json.Number.fractionText
  cases n.fraction with
  | none =>
    rw [List.nil_append, List.nil_append, ← hexponent]
    generalize n.exponentText ++ rest = raw at hpoint
    unfold lexFraction
    cases raw with
    | nil => rfl
    | cons b raw =>
      dsimp only
      rw [if_neg fun h => hpoint (congrArg some h)]
  | some ds =>
    show lexFraction numStr (0x2e :: (ds.bytes ++ (n.exponentText ++ rest))) = _
    unfold lexFraction
    dsimp only
    rw [if_pos rfl, copyDigits_digits ds hdigit]
    dsimp only
    rw [hexponent, List.append_assoc]

/-- The fraction, or what comes in its place, ends the digits before it. -/
theorem fractionText_ends (n : Json.Number) (hrest : EndsNumber rest) :
    EndsDigits (n.fractionText ++ (n.exponentText ++ rest)) := by
  unfold Json.Number.fractionText
  cases n.fraction with
  | none => exact (exponentText_ends n hrest).1
  | some ds => exact (by decide : jsonIsDigit 0x2e = false)

/-- After a whole part there is no leading zero: a zero in front is all of it. -/
theorem noLeadingZero_text (n : Json.Number) {d : UInt8} {ds : Data}
    (hwhole : n.whole.bytes = d :: ds) (hrest : EndsNumber rest) :
    leadingZero (d :: (ds ++ (n.fractionText ++ (n.exponentText ++ rest)))) = false := by
  unfold leadingZero
  dsimp only
  by_cases hd : d = 0x30
  · have hone := n.noLeadingZero (by rw [hwhole, hd]; rfl)
    rw [hwhole, List.length_cons] at hone
    have hds : ds = [] := List.eq_nil_of_length_eq_zero (by omega)
    have hend := fractionText_ends n hrest
    rw [hds, List.nil_append, show startsWithDigit _ = false from hend, Bool.and_false]
  · rw [decide_eq_false hd, Bool.false_and]

/-- What a byte that starts a number is not. -/
theorem lexAt_number {first : UInt8} {raw : Data}
    (hfirst : (first = 0x2d || jsonIsDigit first) = true) :
    lexAt first raw = lexNumber first raw := by
  have hnot : ∀ b, (b = 0x2d || jsonIsDigit b) = true →
      b ≠ 0x7b ∧ b ≠ 0x7d ∧ b ≠ 0x5b ∧ b ≠ 0x5d ∧ b ≠ 0x3a ∧ b ≠ 0x2c ∧
        (b = 0x6e || b = 0x74 || b = 0x66) = false := forall_byte (by decide +kernel)
  obtain ⟨h1, h2, h3, h4, h5, h6, h7⟩ := hnot first hfirst
  unfold lexAt
  rw [if_neg h1, if_neg h2, if_neg h3, if_neg h4, if_neg h5, if_neg h6, h7,
    if_neg Bool.false_ne_true, if_pos hfirst]

theorem getJsonToken_cons {ch : UInt8} {raw : Data} (h : jsonIsSpace ch = false) :
    getJsonToken (ch :: raw) = lexAt ch raw := by
  unfold getJsonToken
  rw [List.dropWhile_cons_of_neg (Bool.eq_false_iff.1 h)]

/-- **A number is read whole.** -/
theorem getJsonToken_number (n : Json.Number) (hrest : EndsNumber rest) :
    getJsonToken (n.text ++ rest) = .tok (.number n.text) rest := by
  obtain ⟨d, ds, hwhole⟩ := List.exists_cons_of_ne_nil n.whole.nonempty
  have hdigits := n.whole.digits
  rw [hwhole] at hdigits
  have hd : jsonIsDigit d = true := hdigits d (List.mem_cons_self ..)
  have hnot : ∀ b, jsonIsDigit b = true → b ≠ 0x2d ∧ jsonIsSpace b = false :=
    forall_byte (by decide +kernel)
  obtain ⟨hminus, hspace⟩ := hnot d hd
  have hzero := noLeadingZero_text n hwhole hrest
  have hends := fractionText_ends n hrest
  have htext : n.text ++ rest = (if n.minus then [0x2d] else []) ++
      d :: (ds ++ (n.fractionText ++ (n.exponentText ++ rest))) := by
    unfold Json.Number.text
    rw [hwhole]
    simp only [List.append_assoc, List.cons_append]
  have hnumber : n.text = (if n.minus then [0x2d] else []) ++
      d :: (ds ++ (n.fractionText ++ n.exponentText)) := by
    unfold Json.Number.text
    rw [hwhole]
    simp only [List.append_assoc, List.cons_append]
  rw [htext, hnumber]
  cases n.minus with
  | false =>
    have htake := takeWhile_digits (fun b hb => hdigits b (List.mem_cons_of_mem _ hb)) hends
    have hdrop := dropWhile_digits (fun b hb => hdigits b (List.mem_cons_of_mem _ hb)) hends
    show getJsonToken (d :: _) = _
    rw [getJsonToken_cons hspace, lexAt_number (by rw [hd, Bool.or_true])]
    unfold lexNumber firstDigit
    rw [hd, if_pos rfl, hzero, if_neg Bool.false_ne_true, decide_eq_false hminus, Bool.false_and,
      Bool.false_and, if_neg Bool.false_ne_true, htake, hdrop, lexFraction_text n hrest]
    rfl
  | true =>
    have htake := takeWhile_digits hdigits hends
    have hdrop := dropWhile_digits hdigits hends
    have hstart := startsWithDigit_digits n.whole (n.fractionText ++ (n.exponentText ++ rest))
    rw [hwhole] at hstart
    show getJsonToken (0x2d :: ((d :: ds) ++ _)) = _
    rw [getJsonToken_cons (by decide), lexAt_number (by decide)]
    unfold lexNumber firstDigit
    rw [if_neg (by decide : ¬jsonIsDigit 0x2d = true), List.cons_append, hzero,
      if_neg Bool.false_ne_true, ← List.cons_append, hstart, Bool.not_true, Bool.and_false,
      if_neg Bool.false_ne_true, htake, hdrop, lexFraction_text n hrest]
    rfl

end Numbers

/-! ## 5. Tokens -/

section Tokens

variable {t : Tok} {ts : List Tok} {s : Data}

/-- What a token is read as. -/
def readTok : Tok → JToken
  | .beginArray => .arrOpen
  | .endArray => .arrClose
  | .beginObject => .objOpen
  | .endObject => .objClose
  | .nameSeparator => .colon
  | .valueSeparator => .comma
  | .null => .kwNull
  | .bool true => .kwTrue
  | .bool false => .kwFalse
  | .number n => .number n.text
  | .string s => .string (readItems s)

/-- After a value: the end, or a token that closes or parts values. -/
def Closing (ts : List Tok) : Prop := ∀ t ∈ ts.head?, t.closes = true

/-- A number has its end there. -/
theorem endsNumber_of_renders (h : Renders ts s) (hclosing : Closing ts) : EndsNumber s := by
  have hbyte : ∀ b, (Json.isSpace b || b = 0x5d || b = 0x7d || b = 0x2c) = true →
      jsonIsDigit b = false ∧ b ≠ 0x2e ∧ b ≠ 0x65 ∧ b ≠ 0x45 := forall_byte (by decide +kernel)
  have hends : ∀ (b : UInt8) (rest : Data),
      (Json.isSpace b || b = 0x5d || b = 0x7d || b = 0x2c) = true → EndsNumber (b :: rest) := by
    intro b rest hb
    obtain ⟨hdigit, hpoint, hlower, hupper⟩ := hbyte b hb
    exact ⟨hdigit, fun h => hpoint (Option.some.inj h), fun h => hlower (Option.some.inj h),
      fun h => hupper (Option.some.inj h)⟩
  cases h with
  | nil hspace =>
    cases s with
    | nil => exact ⟨rfl, by simp, by simp, by simp⟩
    | cons b s => exact hends b s (by rw [hspace b (List.mem_cons_self ..)]; rfl)
  | @cons space s t ts hspace hrest =>
    cases space with
    | cons b space => exact hends b _ (by rw [hspace b (List.mem_cons_self ..)]; rfl)
    | nil =>
      have hcloses := hclosing t rfl
      cases t with
      | endArray => exact hends _ _ (by decide)
      | endObject => exact hends _ _ (by decide)
      | valueSeparator => exact hends _ _ (by decide)
      | _ => cases hcloses

theorem getJsonToken_text (t : Tok) (s : Data) (hend : ∀ n, t = .number n → EndsNumber s) :
    getJsonToken (t.text ++ s) = .tok (readTok t) s := by
  cases t with
  | number n => exact getJsonToken_number n (hend n rfl)
  | string items =>
    show getJsonToken (0x22 :: ((items.flatMap Item.text ++ [0x22]) ++ s)) = _
    rw [getJsonToken_cons (by decide), List.append_assoc]
    exact lexString_items items s
  | bool b => cases b <;> exact getJsonToken_cons (by decide)
  | _ => exact getJsonToken_cons (by decide)

theorem getJsonToken_space {space : Data} (hspace : ∀ b ∈ space, Json.isSpace b = true)
    (raw : Data) : getJsonToken (space ++ raw) = getJsonToken raw := by
  have hjson : ∀ b ∈ space, jsonIsSpace b = true := hspace
  unfold getJsonToken
  rw [List.dropWhile_append_of_pos hjson]

/-- **The next token of a text is the one it was written with.** -/
theorem getJsonToken_renders (h : Renders (t :: ts) s) (hend : ∀ n, t = .number n → Closing ts) :
    ∃ s', getJsonToken s = .tok (readTok t) s' ∧ Renders ts s' := by
  cases h with
  | @cons space s _ _ hspace hrest =>
    refine ⟨s, ?_, hrest⟩
    rw [getJsonToken_space hspace]
    exact getJsonToken_text t s fun n hn => endsNumber_of_renders hrest (hend n hn)

theorem getJsonToken_blank (h : Renders [] s) : getJsonToken s = .none := by
  cases h with
  | nil hspace =>
    rw [← List.append_nil s, getJsonToken_space hspace]
    rfl

end Tokens

end SwiftBitcoinKernel
