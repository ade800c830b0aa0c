/-
  File:      SwiftBitcoinKernel/Logic/Json.lean
  Subject:   The grammar of JSON texts, as bytes.

  A text is a sequence of tokens with white space around them, and the tokens are those of a tree.
  Nothing of any one program is in this file.

  * `HexUnit`, `Item`, `Number`, `Tok` -- the tokens: what a string and a number are made of, each
    with the bytes it is written as. An ill-formed one cannot be built: no lone half of a surrogate
    pair, no leading zero;
  * `Item.char`, `Item.bytes` -- the character an item of a string stands for, and its UTF-8;
  * `Tree`, `Tree.tokens`, `Tree.depth`, `Tree.strings` -- the trees, the tokens they are written
    with, how deep they nest, and what strings are in them;
  * `Renders`, `Spells` -- a text is written with these tokens, or is that of a tree.
-/
import Mathlib.Data.List.TakeWhile

namespace SwiftBitcoinKernel.Logic.Json

/-! ## 1. Strings -/

/-- White space. -/
def isSpace (b : UInt8) : Bool := b = 0x20 || b = 0x09 || b = 0x0a || b = 0x0d

/-- A decimal digit. -/
def isDigit (b : UInt8) : Bool := 0x30 ≤ b && b ≤ 0x39

/-- A hexadecimal digit, in one of the two cases. -/
structure HexDigit where
  value : Fin 16
  upper : Bool
  deriving DecidableEq, Repr

/-- Its byte. -/
def HexDigit.byte (d : HexDigit) : UInt8 :=
  if d.value.val < 10 then UInt8.ofNat (0x30 + d.value.val)
  else if d.upper then UInt8.ofNat (0x37 + d.value.val)
  else UInt8.ofNat (0x57 + d.value.val)

/-- Four hexadecimal digits: a unit of UTF-16. -/
structure HexUnit where
  d₀ : HexDigit
  d₁ : HexDigit
  d₂ : HexDigit
  d₃ : HexDigit
  deriving DecidableEq, Repr

namespace HexUnit

/-- The number. -/
def value (u : HexUnit) : Nat :=
  ((u.d₀.value.val * 16 + u.d₁.value.val) * 16 + u.d₂.value.val) * 16 + u.d₃.value.val

/-- As it is escaped. -/
def text (u : HexUnit) : List UInt8 :=
  [0x5c, 0x75, u.d₀.byte, u.d₁.byte, u.d₂.byte, u.d₃.byte]

theorem value_lt (u : HexUnit) : u.value < 65536 := by
  unfold value
  omega

end HexUnit

/-- A character is a Unicode scalar value. -/
theorem scalar_toNat (c : Char) :
    c.toNat < 0xD800 ∨ 0xDFFF < c.toNat ∧ c.toNat < 0x110000 := c.valid

theorem toNat_ofNat {n : Nat} (h : n < 0xD800 ∨ 0xDFFF < n ∧ n < 0x110000) :
    (Char.ofNat n).toNat = n := by
  have hvalid : n.isValidChar := h
  rw [Char.ofNat, dif_pos hvalid]
  rfl

section Utf8

variable {c : Char}

theorem utf8_one (h : c.toNat ≤ 0x7f) : String.utf8EncodeChar c = [UInt8.ofNat c.toNat] :=
  if_pos h

theorem utf8_two (hlow : ¬c.toNat ≤ 0x7f) (hhigh : c.toNat ≤ 0x7ff) :
    String.utf8EncodeChar c =
      [UInt8.ofNat (c.toNat / 64 + 192), UInt8.ofNat (c.toNat % 64 + 128)] := by
  have hmod : c.toNat / 64 % 32 = c.toNat / 64 := Nat.mod_eq_of_lt (by omega)
  rw [← hmod]
  exact (if_neg hlow).trans (if_pos hhigh)

theorem utf8_three (hlow : ¬c.toNat ≤ 0x7ff) (hhigh : c.toNat ≤ 0xffff) :
    String.utf8EncodeChar c =
      [UInt8.ofNat (c.toNat / 4096 + 224), UInt8.ofNat (c.toNat / 64 % 64 + 128),
        UInt8.ofNat (c.toNat % 64 + 128)] := by
  have hmod : c.toNat / 4096 % 16 = c.toNat / 4096 := Nat.mod_eq_of_lt (by omega)
  have hascii : ¬c.toNat ≤ 0x7f := by omega
  rw [← hmod]
  exact (if_neg hascii).trans ((if_neg hlow).trans (if_pos hhigh))

theorem utf8_four (hlow : ¬c.toNat ≤ 0xffff) :
    String.utf8EncodeChar c =
      [UInt8.ofNat (c.toNat / 262144 + 240), UInt8.ofNat (c.toNat / 4096 % 64 + 128),
        UInt8.ofNat (c.toNat / 64 % 64 + 128), UInt8.ofNat (c.toNat % 64 + 128)] := by
  have hscalar := scalar_toNat c
  have hmod : c.toNat / 262144 % 8 = c.toNat / 262144 := Nat.mod_eq_of_lt (by omega)
  have hascii : ¬c.toNat ≤ 0x7f := by omega
  have htwo : ¬c.toNat ≤ 0x7ff := by omega
  rw [← hmod]
  exact (if_neg hascii).trans ((if_neg htwo).trans (if_neg hlow))

end Utf8

/-- The escapes of two characters. -/
inductive Escape where
  | quotation
  | reverseSolidus
  | solidus
  | backspace
  | formFeed
  | lineFeed
  | carriageReturn
  | tab
  deriving DecidableEq, Repr

/-- The byte after the reverse solidus. -/
def Escape.letter : Escape → UInt8
  | .quotation => 0x22
  | .reverseSolidus => 0x5c
  | .solidus => 0x2f
  | .backspace => 0x62
  | .formFeed => 0x66
  | .lineFeed => 0x6e
  | .carriageReturn => 0x72
  | .tab => 0x74

/-- The character it stands for. -/
def Escape.char : Escape → Char
  | .quotation => '\x22'
  | .reverseSolidus => '\x5c'
  | .solidus => '\x2f'
  | .backspace => '\x08'
  | .formFeed => '\x0c'
  | .lineFeed => '\x0a'
  | .carriageReturn => '\x0d'
  | .tab => '\x09'

/-- A character of a string, as it is written. -/
inductive Item where
  /-- Unescaped. -/
  | raw (c : Char) (control : 0x20 ≤ c.toNat) (quotation : c ≠ '\x22') (solidus : c ≠ '\x5c')
  | escape (e : Escape)
  /-- A unit that is a character. -/
  | unit (u : HexUnit) (scalar : u.value < 0xD800 ∨ 0xE000 ≤ u.value)
  /-- A surrogate pair. -/
  | pair (high low : HexUnit) (first : 0xD800 ≤ high.value ∧ high.value < 0xDC00)
      (second : 0xDC00 ≤ low.value ∧ low.value < 0xE000)

namespace Item

/-- As it is written. -/
def text : Item → List UInt8
  | .raw c _ _ _ => String.utf8EncodeChar c
  | .escape e => [0x5c, e.letter]
  | .unit u _ => u.text
  | .pair high low _ _ => high.text ++ low.text

/-- The character. -/
def char : Item → Char
  | .raw c _ _ _ => c
  | .escape e => e.char
  | .unit u _ => Char.ofNat u.value
  | .pair high low _ _ =>
    Char.ofNat (0x10000 + (high.value - 0xD800) * 0x400 + (low.value - 0xDC00))

/-- The character, in UTF-8. -/
def bytes (i : Item) : List UInt8 := String.utf8EncodeChar i.char

end Item

/-- What a string says, in UTF-8. -/
def stringBytes (s : List Item) : List UInt8 := s.flatMap Item.bytes

/-! ## 2. Numbers -/

/-- One digit or more. -/
structure Digits where
  bytes : List UInt8
  nonempty : bytes ≠ []
  digits : ∀ b ∈ bytes, isDigit b = true

/-- An exponent; of its sign, `true` is a minus. -/
structure Exponent where
  upper : Bool
  sign : Option Bool
  digits : Digits

/-- A number. -/
structure Number where
  minus : Bool
  whole : Digits
  fraction : Option Digits
  exponent : Option Exponent
  noLeadingZero : whole.bytes.head? = some 0x30 → whole.bytes.length = 1

/-- As it is written: its sign. -/
def Exponent.signText (e : Exponent) : List UInt8 :=
  match e.sign with
  | some true => [0x2d]
  | some false => [0x2b]
  | none => []

/-- As it is written. -/
def Exponent.text (e : Exponent) : List UInt8 :=
  (if e.upper then 0x45 else 0x65) :: (e.signText ++ e.digits.bytes)

namespace Number

/-- The fraction, as it is written. -/
def fractionText (n : Number) : List UInt8 :=
  match n.fraction with
  | some digits => 0x2e :: digits.bytes
  | none => []

/-- The exponent, as it is written. -/
def exponentText (n : Number) : List UInt8 :=
  match n.exponent with
  | some exponent => exponent.text
  | none => []

/-- As it is written. -/
def text (n : Number) : List UInt8 :=
  (if n.minus then [0x2d] else []) ++ n.whole.bytes ++ n.fractionText ++ n.exponentText

end Number

/-! ## 3. Tokens -/

/-- A token. -/
inductive Tok where
  | beginArray
  | endArray
  | beginObject
  | endObject
  | nameSeparator
  | valueSeparator
  | null
  | bool (b : Bool)
  | number (n : Number)
  | string (s : List Item)

namespace Tok

/-- As it is written. -/
def text : Tok → List UInt8
  | .beginArray => [0x5b]
  | .endArray => [0x5d]
  | .beginObject => [0x7b]
  | .endObject => [0x7d]
  | .nameSeparator => [0x3a]
  | .valueSeparator => [0x2c]
  | .null => [0x6e, 0x75, 0x6c, 0x6c]
  | .bool true => [0x74, 0x72, 0x75, 0x65]
  | .bool false => [0x66, 0x61, 0x6c, 0x73, 0x65]
  | .number n => n.text
  | .string s => 0x22 :: (s.flatMap Item.text ++ [0x22])

/-- It ends a value, or parts it from the next: what may follow a value. -/
def closes : Tok → Bool
  | .endArray => true
  | .endObject => true
  | .valueSeparator => true
  | _ => false

end Tok

/-- The text is written with these tokens, and with white space between them. -/
inductive Renders : List Tok → List UInt8 → Prop where
  | nil {space : List UInt8} (hspace : ∀ b ∈ space, isSpace b = true) : Renders [] space
  | cons {space s : List UInt8} {t : Tok} {ts : List Tok}
      (hspace : ∀ b ∈ space, isSpace b = true) (hrest : Renders ts s) :
      Renders (t :: ts) (space ++ (t.text ++ s))

/-- Every token is at least a byte. -/
theorem Tok.text_ne_nil (t : Tok) : t.text ≠ [] := by
  cases t with
  | number n =>
    unfold text Number.text
    simp [n.whole.nonempty]
  | bool b => cases b <;> exact List.cons_ne_nil _ _
  | _ => exact List.cons_ne_nil _ _

theorem Renders.length_le {ts : List Tok} {s : List UInt8} (h : Renders ts s) :
    ts.length ≤ s.length := by
  induction h with
  | nil => exact Nat.zero_le _
  | @cons space s t ts _ _ ih =>
    have hpos := List.length_pos_iff.2 t.text_ne_nil
    simp only [List.length_cons, List.length_append]
    omega

/-! ## 4. Trees -/

/-- A value, as it is written but for the white space. -/
inductive Tree where
  | null
  | bool (b : Bool)
  | number (n : Number)
  | string (s : List Item)
  | array (elements : List Tree)
  | object (members : List (List Item × Tree))

mutual

/-- The tokens of a value. -/
def Tree.tokens : Tree → List Tok
  | .null => [.null]
  | .bool b => [.bool b]
  | .number n => [.number n]
  | .string s => [.string s]
  | .array [] => [.beginArray, .endArray]
  | .array (t :: ts) => .beginArray :: (t.tokens ++ (moreElements ts ++ [.endArray]))
  | .object [] => [.beginObject, .endObject]
  | .object ((name, t) :: ms) =>
    .beginObject :: .string name :: .nameSeparator ::
      (t.tokens ++ (moreMembers ms ++ [.endObject]))

/-- Those of the elements after the first. -/
def moreElements : List Tree → List Tok
  | [] => []
  | t :: ts => .valueSeparator :: (t.tokens ++ moreElements ts)

/-- Those of the members after the first. -/
def moreMembers : List (List Item × Tree) → List Tok
  | [] => []
  | (name, t) :: ms =>
    .valueSeparator :: .string name :: .nameSeparator :: (t.tokens ++ moreMembers ms)

end

mutual

/-- How deep arrays and objects nest. -/
def Tree.depth : Tree → Nat
  | .array ts => depthElements ts + 1
  | .object ms => depthMembers ms + 1
  | _ => 0

/-- The deepest of the elements. -/
def depthElements : List Tree → Nat
  | [] => 0
  | t :: ts => max t.depth (depthElements ts)

/-- The deepest of the members. -/
def depthMembers : List (List Item × Tree) → Nat
  | [] => 0
  | (_, t) :: ms => max t.depth (depthMembers ms)

end

mutual

/-- The strings of a value, the names among them. -/
def Tree.strings : Tree → List (List Item)
  | .string s => [s]
  | .array ts => elementStrings ts
  | .object ms => memberStrings ms
  | _ => []

/-- Those of the elements. -/
def elementStrings : List Tree → List (List Item)
  | [] => []
  | t :: ts => t.strings ++ elementStrings ts

/-- Those of the members. -/
def memberStrings : List (List Item × Tree) → List (List Item)
  | [] => []
  | (name, t) :: ms => name :: (t.strings ++ memberStrings ms)

end

/-- The text is that of the tree. -/
def Spells (t : Tree) (s : List UInt8) : Prop := Renders t.tokens s

end SwiftBitcoinKernel.Logic.Json
