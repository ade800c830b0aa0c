/-
  File:      SwiftBitcoinKernel/Sync/EsploraAPI.lean
  Subject:   What goes over the wire: request paths, and the texts that come back.

  `EsploraAPI.swift`, and the Foundation and standard-library calls it parses with, read as
  functions on characters:

  * `utf8`, `trimming` -- `String(data:encoding: .utf8)`, `trimmingCharacters(in:)`;
  * `integer` -- `Int(_:)` and `UInt8(_:radix:)`: an optional sign, then digits, within the width;
  * `data`, `internalHash`, `displayHex` -- `EsploraAPI`'s codec between display hex and bytes in
    internal order; a hash that parses has 32 bytes (`internalHash_length`).

  The source counts and pairs `Character`s, the model scalars. A text in which the two differ has
  a scalar that is neither a hexadecimal digit nor a sign, and is refused by both.
-/
import SwiftBitcoinKernel.Sync.Update

namespace SwiftBitcoinKernel

namespace EsploraAPI

/-! ## 1. Texts -/

/-- `String(data:encoding: .utf8)`. -/
def utf8 (d : Data) : Option String := String.fromUTF8? ⟨d.toArray⟩

/-- `CharacterSet.whitespacesAndNewlines`. -/
def whitespaceOrNewline (c : Char) : Bool :=
  let n := c.val.toNat
  (9 ≤ n && n ≤ 13) || n == 0x20 || n == 0x85 || n == 0xA0 || n == 0x1680 ||
    (0x2000 ≤ n && n ≤ 0x200A) || n == 0x2028 || n == 0x2029 || n == 0x202F || n == 0x205F ||
    n == 0x3000

/-- `trimmingCharacters(in: .whitespacesAndNewlines)`. -/
def trimming (text : List Char) : List Char :=
  ((text.dropWhile whitespaceOrNewline).reverse.dropWhile whitespaceOrNewline).reverse

/-! ## 2. Numbers -/

/-- The value of a digit, for a radix up to 16. -/
def digit (radix : Nat) (c : Char) : Option Nat :=
  let value :=
    if '0' ≤ c ∧ c ≤ '9' then some (c.toNat - '0'.toNat)
    else if 'a' ≤ c ∧ c ≤ 'f' then some (c.toNat - 'a'.toNat + 10)
    else if 'A' ≤ c ∧ c ≤ 'F' then some (c.toNat - 'A'.toNat + 10)
    else none
  value.filter fun n => n < radix

/-- The digits of a number, most significant first, after those read so far. -/
def digits (radix : Nat) : Nat → List Char → Option Nat
  | value, [] => some value
  | value, c :: rest => (digit radix c).bind fun d => digits radix (value * radix + d) rest

/-- A non-empty sequence of digits. -/
def magnitude (radix : Nat) (text : List Char) : Option Nat :=
  if text = [] then none else digits radix 0 text

/-- The integer initializers with a text: `nil` beyond `least` and `greatest`. -/
def integer (radix : Nat) (least greatest : Int) (text : List Char) : Option Int :=
  let value : Option Int :=
    match text with
    | '+' :: rest => (magnitude radix rest).map fun n => (n : Int)
    | '-' :: rest => (magnitude radix rest).map fun n => -(n : Int)
    | text => (magnitude radix text).map fun n => (n : Int)
  value.filter fun n => least ≤ n ∧ n ≤ greatest

/-- `Int(_:)`. -/
def int (text : List Char) : Option Int :=
  integer 10 (-9223372036854775808) 9223372036854775807 text

/-- `UInt8(_:radix: 16)`. -/
def byte (text : List Char) : Option UInt8 :=
  (integer 16 0 255 text).map fun n => UInt8.ofNat n.toNat

/-! ## 3. Hashes -/

/-- `EsploraAPI.data(fromHex:)`. -/
def data : List Char → Option Data
  | [] => some []
  | [_] => none
  | a :: b :: rest => (byte [a, b]).bind fun first => (data rest).map fun more => first :: more

/-- `EsploraAPI.internalHash(fromDisplayHex:)`. -/
def internalHash (hex : String) : Option Data :=
  let trimmed := trimming hex.toList
  if trimmed.length = 64 then (data trimmed).map List.reverse else none

/-- One half of a byte in `String(format: "%02x", _)`. -/
def hexDigit (n : Nat) : Char := ("0123456789abcdef".toList)[n]?.getD '0'

/-- `EsploraAPI.displayHex(fromInternal:)`. -/
def displayHex (hash : Data) : String :=
  String.ofList (hash.reverse.flatMap fun b => [hexDigit (b.toNat / 16), hexDigit (b.toNat % 16)])

theorem data_length {text : List Char} {d : Data} (h : data text = some d) :
    text.length = 2 * d.length := by
  induction text using data.induct generalizing d with
  | case1 =>
    cases h
    rfl
  | case2 c => cases h
  | case3 a b rest ih =>
    unfold data at h
    obtain ⟨first, _, h⟩ := Option.bind_eq_some_iff.1 h
    obtain ⟨more, hmore, rfl⟩ := Option.map_eq_some_iff.1 h
    have hlen := ih hmore
    simp only [List.length_cons]
    omega

/-- What parses as a hash has the length of one. -/
theorem internalHash_length {hex : String} {d : Data} (h : internalHash hex = some d) :
    d.length = 32 := by
  unfold internalHash at h
  dsimp only at h
  split at h
  · rename_i hlen
    obtain ⟨display, hdata, rfl⟩ := Option.map_eq_some_iff.1 h
    have := data_length hdata
    rw [List.length_reverse]
    omega
  · cases h

/-! ## 4. Paths -/

/-- `EsploraAPI.tipHeightURL(base:)`, below the endpoint. -/
def tipHeightURL : String := "blocks/tip/height"

/-- `EsploraAPI.tipHashURL(base:)`. -/
def tipHashURL : String := "blocks/tip/hash"

/-- `EsploraAPI.blockHashAtHeightURL(base:height:)`. -/
def blockHashAtHeightURL (height : Int) : String := s!"block-height/{height}"

/-- `EsploraAPI.blockHeaderURL(base:hashInternal:)`. -/
def blockHeaderURL (hashInternal : Data) : String := s!"block/{displayHex hashInternal}/header"

/-- `EsploraAPI.blockRawURL(base:hashInternal:)`. -/
def blockRawURL (hashInternal : Data) : String := s!"block/{displayHex hashInternal}/raw"

end EsploraAPI

end SwiftBitcoinKernel
