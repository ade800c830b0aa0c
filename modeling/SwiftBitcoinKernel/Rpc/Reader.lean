/-
  File:      SwiftBitcoinKernel/Rpc/Reader.lean
  Subject:   `UniValue::read`, byte by byte, with what it leaves behind when it fails.

  * `RawValue` -- a `UniValue` while it is built: an object may have a key without its value;
  * `JSONUTF8StringFilter` -- what the bytes and code points of a string go through;
  * `getJsonToken` -- the next token and the text after it. A C string ends in a NUL, so what the
    source reads one byte beyond the text is no digit;
  * `ReadState`, `readStep` -- a token, and the mask of what is expected. The stack of pointers is
    kept as the open containers from the innermost outwards;
  * `runRead`, `readValue` -- the loop, on fuel;
  * `readValue_isSome` -- the fuel is never used up: every token is at least a byte.
-/
import SwiftBitcoinKernel.Rpc.UniValue

namespace SwiftBitcoinKernel

/-! ## 1. Values under construction -/

/-- `UniValue`, by the members of the class: keys and values are lists of their own. -/
inductive RawValue where
  | null
  | bool (b : Bool)
  | num (text : Data)
  | str (s : Data)
  | arr (values : List RawValue)
  | obj (keys : List Data) (values : List RawValue)

/-! ## 2. Strings -/

/-- `JSONUTF8StringFilter`, with `str` what is written so far. -/
structure JSONUTF8StringFilter where
  str : Data
  isValid : Bool
  codepoint : Nat
  state : Nat
  surpair : Nat

/-- `append_codepoint`. -/
def appendCodepoint (codepoint : Nat) : Data :=
  if codepoint ≤ 0x7f then [UInt8.ofNat codepoint]
  else if codepoint ≤ 0x7FF then
    [UInt8.ofNat (0xC0 ||| (codepoint >>> 6)), UInt8.ofNat (0x80 ||| (codepoint &&& 0x3F))]
  else if codepoint ≤ 0xFFFF then
    [UInt8.ofNat (0xE0 ||| (codepoint >>> 12)),
      UInt8.ofNat (0x80 ||| ((codepoint >>> 6) &&& 0x3F)),
      UInt8.ofNat (0x80 ||| (codepoint &&& 0x3F))]
  else if codepoint ≤ 0x1FFFFF then
    [UInt8.ofNat (0xF0 ||| (codepoint >>> 18)),
      UInt8.ofNat (0x80 ||| ((codepoint >>> 12) &&& 0x3F)),
      UInt8.ofNat (0x80 ||| ((codepoint >>> 6) &&& 0x3F)),
      UInt8.ofNat (0x80 ||| (codepoint &&& 0x3F))]
  else []

/-- The code point of a surrogate pair, as `push_back_u` computes it. -/
def collate (high low : Nat) : Nat :=
  0x10000 ||| ((high - 0xD800) <<< 10) ||| (low - 0xDC00)

namespace JSONUTF8StringFilter

/-- A new filter. -/
def initial : JSONUTF8StringFilter := ⟨[], true, 0, 0, 0⟩

/-- `push_back_u`. -/
def pushBackU (w : JSONUTF8StringFilter) (codepoint : Nat) : JSONUTF8StringFilter :=
  let w := if w.state ≠ 0 then { w with isValid := false } else w
  if 0xD800 ≤ codepoint ∧ codepoint < 0xDC00 then
    if w.surpair ≠ 0 then { w with isValid := false } else { w with surpair := codepoint }
  else if 0xDC00 ≤ codepoint ∧ codepoint < 0xE000 then
    if w.surpair ≠ 0 then
      { w with str := w.str ++ appendCodepoint (collate w.surpair codepoint), surpair := 0 }
    else { w with isValid := false }
  else if w.surpair ≠ 0 then { w with isValid := false }
  else { w with str := w.str ++ appendCodepoint codepoint }

/-- `push_back`. -/
def pushBack (w : JSONUTF8StringFilter) (ch : UInt8) : JSONUTF8StringFilter :=
  if w.state = 0 then
    if ch < 0x80 then { w with str := w.str ++ [ch] }
    else if ch < 0xc0 then { w with isValid := false }
    else if ch < 0xe0 then { w with codepoint := (ch.toNat &&& 0x1f) <<< 6, state := 6 }
    else if ch < 0xf0 then { w with codepoint := (ch.toNat &&& 0x0f) <<< 12, state := 12 }
    else if ch < 0xf8 then { w with codepoint := (ch.toNat &&& 0x07) <<< 18, state := 18 }
    else { w with isValid := false }
  else
    let w := if ch.toNat &&& 0xc0 ≠ 0x80 then { w with isValid := false } else w
    let w := { w with state := w.state - 6 }
    let w := { w with codepoint := w.codepoint ||| ((ch.toNat &&& 0x3f) <<< w.state) }
    if w.state = 0 then w.pushBackU w.codepoint else w

/-- `finalize`. -/
def finalize (w : JSONUTF8StringFilter) : Bool := w.state = 0 && w.surpair = 0 && w.isValid

end JSONUTF8StringFilter

/-- `json_isspace`. -/
def jsonIsSpace (ch : UInt8) : Bool := ch = 0x20 || ch = 0x09 || ch = 0x0a || ch = 0x0d

/-- `json_isdigit`. -/
def jsonIsDigit (ch : UInt8) : Bool := 0x30 ≤ ch && ch ≤ 0x39

/-- A digit of `hatoui`. -/
def jsonHexDigit (ch : UInt8) : Option Nat :=
  if jsonIsDigit ch then some (ch.toNat - 0x30)
  else if 0x61 ≤ ch && ch ≤ 0x66 then some (ch.toNat - 0x61 + 10)
  else if 0x41 ≤ ch && ch ≤ 0x46 then some (ch.toNat - 0x41 + 10)
  else none

/-- `hatoui`, of four digits. -/
def hatoui (a b c d : UInt8) : Option Nat := do
  let a ← jsonHexDigit a
  let b ← jsonHexDigit b
  let c ← jsonHexDigit c
  let d ← jsonHexDigit d
  return ((a * 16 + b) * 16 + c) * 16 + d

/-- What an escape other than `\u` writes. -/
def unescape (ch : UInt8) : Option UInt8 :=
  if ch = 0x22 then some 0x22
  else if ch = 0x5c then some 0x5c
  else if ch = 0x2f then some 0x2f
  else if ch = 0x62 then some 0x08
  else if ch = 0x66 then some 0x0c
  else if ch = 0x6e then some 0x0a
  else if ch = 0x72 then some 0x0d
  else if ch = 0x74 then some 0x09
  else none

/-- The loop over the bytes of a string, after its quotation mark: the filter, and the text after
    the closing one. -/
def scanString : Data → JSONUTF8StringFilter → Option (JSONUTF8StringFilter × Data)
  | [], _ => none
  | ch :: raw, writer =>
    if ch < 0x20 then none
    else if ch = 0x5c then
      match raw with
      | [] => none
      | ch :: raw =>
        if ch = 0x75 then
          match raw with
          | a :: b :: c :: d :: raw =>
            -- the source asks for one byte more than the four digits
            if raw.isEmpty then none
            else
              match hatoui a b c d with
              | some codepoint => scanString raw (writer.pushBackU codepoint)
              | none => none
          | _ => none
        else
          match unescape ch with
          | some ch => scanString raw (writer.pushBack ch)
          | none => none
    else if ch = 0x22 then some (writer, raw)
    else scanString raw (writer.pushBack ch)

/-! ## 3. Tokens -/

/-- `jtokentype`, with `tokenVal`. -/
inductive JToken where
  | objOpen
  | objClose
  | arrOpen
  | arrClose
  | colon
  | comma
  | kwNull
  | kwTrue
  | kwFalse
  | number (val : Data)
  | string (val : Data)
  deriving DecidableEq, Repr

/-- What `getJsonToken` gives: no token, an error, or a token and the text after it. -/
inductive Lexed where
  | none
  | err
  | tok (t : JToken) (rest : Data)
  deriving DecidableEq, Repr

/-- There is a digit. -/
def startsWithDigit (raw : Data) : Bool :=
  match raw with
  | ch :: _ => jsonIsDigit ch
  | [] => false

/-- Digits of a fraction or an exponent: there has to be one. -/
def copyDigits (raw : Data) : Option (Data × Data) :=
  if startsWithDigit raw then some (raw.takeWhile jsonIsDigit, raw.dropWhile jsonIsDigit) else none

/-- The sign of an exponent, if it has one. -/
def exponentSign (raw : Data) : Data :=
  match raw with
  | ch :: _ => if ch = 0x2d || ch = 0x2b then [ch] else []
  | [] => []

/-- Part 3 of a number, with `numStr` what is copied so far: the exponent. -/
def lexExponent (numStr raw : Data) : Lexed :=
  match raw with
  | e :: raw =>
    if e = 0x65 || e = 0x45 then
      match copyDigits (raw.drop (exponentSign raw).length) with
      | some (digits, rest) => .tok (.number (numStr ++ e :: (exponentSign raw ++ digits))) rest
      | none => .err
    else .tok (.number numStr) (e :: raw)
  | [] => .tok (.number numStr) []

/-- Part 2: the fraction. -/
def lexFraction (numStr raw : Data) : Lexed :=
  match raw with
  | ch :: raw =>
    if ch = 0x2e then
      match copyDigits raw with
      | some (digits, rest) => lexExponent (numStr ++ ch :: digits) rest
      | none => .err
    else lexExponent numStr (ch :: raw)
  | [] => lexExponent numStr []

/-- The text from the first digit on: `first` itself, or what comes after it. -/
def firstDigit (first : UInt8) (raw : Data) : Data := if jsonIsDigit first then first :: raw else raw

/-- A zero, and a digit after it. -/
def leadingZero (digits : Data) : Bool :=
  match digits with
  | ch :: raw => ch = 0x30 && startsWithDigit raw
  | [] => false

/-- A number that starts with `first`. Part 1: no leading zero, and a digit after the sign unless
    the text ends there. -/
def lexNumber (first : UInt8) (raw : Data) : Lexed :=
  if leadingZero (firstDigit first raw) then .err
  else if first = 0x2d && !raw.isEmpty && !startsWithDigit raw then .err
  else lexFraction (first :: raw.takeWhile jsonIsDigit) (raw.dropWhile jsonIsDigit)

/-- A keyword: `strncmp` against each of the three. -/
def lexKeyword (raw : Data) : Lexed :=
  if (ascii "null").isPrefixOf raw then .tok .kwNull (raw.drop 4)
  else if (ascii "true").isPrefixOf raw then .tok .kwTrue (raw.drop 4)
  else if (ascii "false").isPrefixOf raw then .tok .kwFalse (raw.drop 5)
  else .err

/-- A string. -/
def lexString (raw : Data) : Lexed :=
  match scanString raw .initial with
  | some (writer, rest) => if writer.finalize then .tok (.string writer.str) rest else .err
  | none => .err

/-- The token that starts with `ch`. -/
def lexAt (ch : UInt8) (raw : Data) : Lexed :=
  if ch = 0x7b then .tok .objOpen raw
  else if ch = 0x7d then .tok .objClose raw
  else if ch = 0x5b then .tok .arrOpen raw
  else if ch = 0x5d then .tok .arrClose raw
  else if ch = 0x3a then .tok .colon raw
  else if ch = 0x2c then .tok .comma raw
  else if ch = 0x6e || ch = 0x74 || ch = 0x66 then lexKeyword (ch :: raw)
  else if ch = 0x2d || jsonIsDigit ch then lexNumber ch raw
  else if ch = 0x22 then lexString raw
  else .err

/-- `getJsonToken`. -/
def getJsonToken (raw : Data) : Lexed :=
  match raw.dropWhile jsonIsSpace with
  | [] => .none
  | ch :: raw => lexAt ch raw

/-! ## 4. The loop -/

/-- `expectMask`. -/
structure ExpectMask where
  objName : Bool
  colon : Bool
  arrValue : Bool
  value : Bool
  notValue : Bool
  deriving DecidableEq, Repr

/-- An open container: its type, and what is in it so far. -/
structure OpenValue where
  isObj : Bool
  keys : List Data
  values : List RawValue

namespace OpenValue

/-- The container, as it is. -/
def toRaw (top : OpenValue) : RawValue :=
  if top.isObj then .obj top.keys top.values else .arr top.values

/-- `values.push_back`. -/
def push (top : OpenValue) (v : RawValue) : OpenValue := { top with values := top.values ++ [v] }

/-- `keys.push_back`. -/
def pushKey (top : OpenValue) (key : Data) : OpenValue := { top with keys := top.keys ++ [key] }

end OpenValue

/-- The variables of `UniValue::read`; `this` counts where the stack is empty. -/
structure ReadState where
  this : RawValue
  stack : List OpenValue
  expect : ExpectMask
  tok : Option JToken

/-- A value inside the containers around it. -/
def enclosed (v : RawValue) : List OpenValue → RawValue
  | [] => v
  | top :: stack => enclosed (top.push v).toRaw stack

namespace ReadState

/-- After `clear()`. -/
def initial : ReadState := ⟨.null, [], ⟨false, false, false, false, false⟩, none⟩

/-- `*this`. -/
def value (s : ReadState) : RawValue :=
  match s.stack with
  | [] => s.this
  | top :: stack => enclosed top.toRaw stack

/-- A value that is complete: into the container on top, or `*this`. -/
def place (s : ReadState) (v : RawValue) : ReadState :=
  match s.stack with
  | [] => { s with this := v }
  | top :: stack =>
    { s with stack := top.push v :: stack, expect := { s.expect with notValue := true } }

end ReadState

namespace JToken

/-- `isValueOpen`: `jsonTokenIsValue`, or a container opens. -/
def isValueOpen : JToken → Bool
  | .objClose => false
  | .arrClose => false
  | .colon => false
  | .comma => false
  | _ => true

/-- `JTOK_STRING`. -/
def isString : JToken → Bool
  | .string _ => true
  | _ => false

end JToken

/-- The checks against the mask, in their order; none is a `return false`. -/
def checkExpect (e : ExpectMask) (tok : JToken) : Option ExpectMask := do
  let e ←
    if e.value then
      if tok.isValueOpen then some { e with value := false } else none
    else if e.arrValue then
      if tok.isValueOpen || tok = .arrClose then some { e with arrValue := false } else none
    else if e.objName then
      if tok = .objClose || tok.isString then some e else none
    else if e.colon then
      if tok = .colon then some { e with colon := false } else none
    else if tok = .colon then none
    else some e
  if e.notValue then
    if tok.isValueOpen then none else some { e with notValue := false }
  else some e

/-- `case JTOK_OBJ_OPEN`, `case JTOK_ARR_OPEN`. -/
def openContainer (s : ReadState) (isObj : Bool) : ReadState × Bool :=
  let s := { s with stack := ⟨isObj, [], []⟩ :: s.stack }
  if s.stack.length > maxJSONDepth then (s, false)
  else if isObj then ({ s with expect := { s.expect with objName := true } }, true)
  else ({ s with expect := { s.expect with arrValue := true } }, true)

/-- `case JTOK_OBJ_CLOSE`, `case JTOK_ARR_CLOSE`. -/
def closeContainer (s : ReadState) (isObj : Bool) : ReadState × Bool :=
  match s.stack with
  | [] => (s, false)
  | top :: stack =>
    if s.tok = some .comma then (s, false)
    else if top.isObj ≠ isObj then (s, false)
    else
      let expect := { s.expect with objName := false, notValue := true }
      match stack with
      | [] => ({ s with this := top.toRaw, stack := [], expect := expect }, true)
      | below :: stack =>
        ({ s with stack := below.push top.toRaw :: stack, expect := expect }, true)

/-- The switch over the token, on a mask that was checked. `s.tok` is the token before. -/
def actOn (s : ReadState) (tok : JToken) : ReadState × Bool :=
  match tok with
  | .objOpen => openContainer s true
  | .arrOpen => openContainer s false
  | .objClose => closeContainer s true
  | .arrClose => closeContainer s false
  | .colon =>
    match s.stack with
    | [] => (s, false)
    | top :: _ =>
      if top.isObj then ({ s with expect := { s.expect with value := true } }, true) else (s, false)
  | .comma =>
    match s.stack with
    | [] => (s, false)
    | top :: _ =>
      if s.tok = some .comma || s.tok = some .arrOpen then (s, false)
      else if top.isObj then ({ s with expect := { s.expect with objName := true } }, true)
      else ({ s with expect := { s.expect with arrValue := true } }, true)
  | .kwNull => (s.place .null, true)
  | .kwTrue => (s.place (.bool true), true)
  | .kwFalse => (s.place (.bool false), true)
  | .number val => (s.place (.num val), true)
  | .string val =>
    if s.expect.objName then
      match s.stack with
      -- a name is expected only inside an object
      | [] => (s, false)
      | top :: stack =>
        let expect := { s.expect with objName := false, colon := true, notValue := true }
        ({ s with stack := top.pushKey val :: stack, expect := expect }, true)
    else (s.place (.str val), true)

/-- The body of the loop, on a token; `false` is a `return false`. -/
def readStep (s : ReadState) (tok : JToken) : ReadState × Bool :=
  match checkExpect s.expect tok with
  | none => (s, false)
  | some expect =>
    let r := actOn { s with expect := expect } tok
    ({ r.1 with tok := some tok }, r.2)

/-- The loop, and the check for what follows: what is returned, and `*this`. -/
def runRead : Nat → Data → ReadState → Option (Bool × RawValue)
  | 0, _, _ => none
  | fuel + 1, raw, s =>
    match getJsonToken raw with
    | .none => some (false, s.value)
    | .err => some (false, s.value)
    | .tok tok rest =>
      let r := readStep s tok
      if !r.2 then some (false, r.1.value)
      else if r.1.stack.isEmpty then some (decide (getJsonToken rest = .none), r.1.value)
      else runRead fuel rest r.1

/-- `UniValue::read`. -/
def readValue (str : Data) : Option (Bool × RawValue) := runRead (str.length + 1) str .initial

/-! ## 5. Every token is at least a byte -/

theorem scanString_length {raw : Data} {w : JSONUTF8StringFilter}
    {r : JSONUTF8StringFilter × Data} (h : scanString raw w = some r) :
    r.2.length < raw.length := by
  fun_induction scanString raw w with
  | case5 _ _ _ _ _ _ _ _ _ _ ih =>
    have := ih h
    simp only [List.length_cons]
    omega
  | case8 _ _ _ _ _ _ _ ih =>
    have := ih h
    simp only [List.length_cons]
    omega
  | case10 =>
    cases h
    exact Nat.lt_succ_self _
  | case11 _ _ _ _ _ _ ih =>
    have := ih h
    simp only [List.length_cons]
    omega
  -- the other branches are errors
  | _ => cases h

theorem copyDigits_length {raw : Data} {r : Data × Data} (h : copyDigits raw = some r) :
    r.2.length ≤ raw.length := by
  unfold copyDigits at h
  split at h
  · cases h
    exact (List.dropWhile_sublist _).length_le
  · cases h

theorem lexExponent_length {numStr raw rest : Data} {t : JToken}
    (h : lexExponent numStr raw = .tok t rest) : rest.length ≤ raw.length := by
  unfold lexExponent at h
  split at h
  · split at h
    · split at h
      · rename_i hdigits
        cases h
        have hle := copyDigits_length hdigits
        rw [List.length_drop] at hle
        rw [List.length_cons]
        exact hle.trans ((Nat.sub_le _ _).trans (Nat.le_succ _))
      · cases h
    · cases h
      exact le_rfl
  · cases h
    exact le_rfl

theorem lexFraction_length {numStr raw rest : Data} {t : JToken}
    (h : lexFraction numStr raw = .tok t rest) : rest.length ≤ raw.length := by
  unfold lexFraction at h
  split at h
  · split at h
    · split at h
      · rename_i hdigits
        have hle := copyDigits_length hdigits
        exact (lexExponent_length h).trans (hle.trans (Nat.le_succ _))
      · cases h
    · exact lexExponent_length h
  · exact lexExponent_length h

theorem lexNumber_length {first : UInt8} {raw rest : Data} {t : JToken}
    (h : lexNumber first raw = .tok t rest) : rest.length ≤ raw.length := by
  unfold lexNumber at h
  split at h
  · cases h
  · split at h
    · cases h
    · exact (lexFraction_length h).trans (List.dropWhile_sublist _).length_le

theorem lexKeyword_length {ch : UInt8} {raw rest : Data} {t : JToken}
    (h : lexKeyword (ch :: raw) = .tok t rest) : rest.length ≤ raw.length := by
  unfold lexKeyword at h
  split at h
  · cases h
    exact (List.drop_sublist 3 raw).length_le
  · split at h
    · cases h
      exact (List.drop_sublist 3 raw).length_le
    · split at h
      · cases h
        exact (List.drop_sublist 4 raw).length_le
      · cases h

theorem lexString_length {raw rest : Data} {t : JToken} (h : lexString raw = .tok t rest) :
    rest.length ≤ raw.length := by
  unfold lexString at h
  split at h
  · rename_i hscan
    split at h
    · cases h
      exact (scanString_length hscan).le
    · cases h
  · cases h

theorem lexAt_length {ch : UInt8} {raw rest : Data} {t : JToken}
    (h : lexAt ch raw = .tok t rest) : rest.length ≤ raw.length := by
  have hhere : ∀ {u : JToken}, Lexed.tok u raw = .tok t rest → rest.length ≤ raw.length := by
    intro u hu
    cases hu
    exact le_rfl
  unfold lexAt at h
  split at h
  · exact hhere h
  split at h
  · exact hhere h
  split at h
  · exact hhere h
  split at h
  · exact hhere h
  split at h
  · exact hhere h
  split at h
  · exact hhere h
  split at h
  · exact lexKeyword_length h
  split at h
  · exact lexNumber_length h
  split at h
  · exact lexString_length h
  · cases h

theorem getJsonToken_length {raw rest : Data} {t : JToken}
    (h : getJsonToken raw = .tok t rest) : rest.length < raw.length := by
  unfold getJsonToken at h
  have hdrop := (List.dropWhile_sublist jsonIsSpace (l := raw)).length_le
  split at h
  · cases h
  · rename_i hraw
    have hle := lexAt_length h
    rw [hraw, List.length_cons] at hdrop
    omega

theorem runRead_isSome (fuel : Nat) (raw : Data) (s : ReadState) (h : raw.length < fuel) :
    (runRead fuel raw s).isSome = true := by
  induction fuel generalizing raw s with
  | zero => omega
  | succ fuel ih =>
    unfold runRead
    split
    · rfl
    · rfl
    · rename_i hlex
      have hlt := getJsonToken_length hlex
      dsimp only
      split
      · rfl
      · split
        · rfl
        · exact ih _ _ (by omega)

/-- **`read` returns**, whatever the text. -/
theorem readValue_isSome (str : Data) : (readValue str).isSome = true :=
  runRead_isSome _ str .initial (Nat.lt_succ_self _)

end SwiftBitcoinKernel
