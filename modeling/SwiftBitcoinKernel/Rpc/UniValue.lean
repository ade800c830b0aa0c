/-
  File:      SwiftBitcoinKernel/Rpc/UniValue.lean
  Subject:   `UniValue`, the JSON values of Core, as they are written and as far as they nest.

  * `UniValue`, `NumText` -- the values; a number is its text, and the text is one of a number;
  * `write` -- `UniValue::write` without indentation, with `json_escape`;
  * `write_noNul` -- no text written has a NUL in it, whatever the strings: a C string holds it;
  * `depth`, `readNesting`, `readNesting_brackets` -- the stack of `UniValue::read` and its bound
    `MAX_JSON_DEPTH`: on the text of a value it is met just if the value nests no deeper.
-/
import Mathlib.Data.List.TakeWhile
import SwiftBitcoinKernel.Sync.Update

namespace SwiftBitcoinKernel

/-! ## 1. The values -/

/-- The bytes of an ASCII text. -/
def ascii (s : String) : Data := s.toList.map fun c => UInt8.ofNat c.toNat

/-- The characters of a JSON number. -/
def isNumChar (c : Char) : Bool := c.isDigit || c ∈ ['-', '+', '.', 'e', 'E']

/-- The text of a number. -/
structure NumText where
  text : String
  valid : ∀ c ∈ text.toList, isNumChar c = true

/-- `UniValue`. The bytes of a string or a key are any. -/
inductive UniValue where
  | null
  | bool (b : Bool)
  | num (n : NumText)
  | str (s : Data)
  | arr (values : List UniValue)
  | obj (entries : List (Data × UniValue))

theorem isNumChar_repr (n : Nat) : ∀ c ∈ n.repr.toList, isNumChar c = true := by
  intro c hc
  have hmem : c ∈ Nat.toDigits 10 n := by simpa [Nat.repr] using hc
  have hdigit : c.isDigit = true := Nat.isDigit_of_mem_toDigits (by omega) (by omega) hmem
  simp [isNumChar, hdigit]

/-- `UniValue::setInt`: the decimal text. -/
def NumText.ofInt (z : Int) : NumText where
  text := z.repr
  valid := by
    intro c hc
    cases z with
    | ofNat n => exact isNumChar_repr n c hc
    | negSucc n =>
      have hrepr : (Int.negSucc n).repr.toList = '-' :: (n + 1).repr.toList := by
        simp [Int.repr]
      rw [hrepr, List.mem_cons] at hc
      rcases hc with rfl | hc
      · rfl
      · exact isNumChar_repr _ c hc

/-- `find_value`: the first entry of that key, or null. -/
def UniValue.findValue (v : UniValue) (key : Data) : UniValue :=
  match v with
  | .obj entries => ((entries.find? fun e => e.1 = key).map Prod.snd).getD .null
  | _ => .null

/-! ## 2. Writing -/

/-- A hexadecimal digit, in lower case. -/
def hexByte (n : UInt8) : UInt8 := if n < 10 then 48 + n else 87 + n

/-- `escapes[ch]`, or the byte itself where there is none. -/
def escape (b : UInt8) : Data :=
  if b = 8 then ascii "\\b"
  else if b = 9 then ascii "\\t"
  else if b = 10 then ascii "\\n"
  else if b = 12 then ascii "\\f"
  else if b = 13 then ascii "\\r"
  else if b = 34 then ascii "\\\""
  else if b = 92 then ascii "\\\\"
  else if b < 32 ∨ b = 127 then ascii "\\u00" ++ [hexByte (b / 16), hexByte (b % 16)]
  else [b]

/-- `json_escape`, with the quotes. -/
def quote (s : Data) : Data := ascii "\"" ++ s.flatMap escape ++ ascii "\""

mutual

/-- `UniValue::write()`. -/
def UniValue.write : UniValue → Data
  | .null => ascii "null"
  | .bool b => if b then ascii "true" else ascii "false"
  | .num n => ascii n.text
  | .str s => quote s
  | .arr values => ascii "[" ++ writeArray values ++ ascii "]"
  | .obj entries => ascii "\x7b" ++ writeObject entries ++ ascii "\x7d"

/-- `writeArray`. -/
def writeArray : List UniValue → Data
  | [] => []
  | [v] => v.write
  | v :: rest => v.write ++ ascii "," ++ writeArray rest

/-- `writeObject`. -/
def writeObject : List (Data × UniValue) → Data
  | [] => []
  | [e] => writeEntry e
  | e :: rest => writeEntry e ++ ascii "," ++ writeObject rest

/-- One key and its value. -/
def writeEntry : Data × UniValue → Data
  | (key, v) => quote key ++ ascii ":" ++ v.write

end

/-- What holds of all 256 of them holds of every byte. -/
theorem forall_byte {P : UInt8 → Prop} (h : ∀ n : Fin 256, P (UInt8.ofNat n)) (b : UInt8) :
    P b := by
  have hb := h ⟨b.toNat, b.toNat_lt⟩
  rwa [UInt8.ofNat_toNat] at hb

theorem escape_noNul : ∀ b, 0 ∉ escape b := forall_byte (by decide +kernel)

theorem quote_noNul (s : Data) : 0 ∉ quote s := by
  have hescape : 0 ∉ s.flatMap escape := by
    intro h
    obtain ⟨b, -, hb⟩ := List.mem_flatMap.1 h
    exact escape_noNul b hb
  have hmark : (0 : UInt8) ∉ ascii "\"" := by decide
  simp only [quote, List.mem_append, not_or]
  exact ⟨⟨hmark, hescape⟩, hmark⟩

/-- The characters of a number are ASCII, and none is NUL. -/
theorem isNumChar_byte {c : Char} (h : isNumChar c = true) : UInt8.ofNat c.toNat ≠ 0 := by
  simp only [isNumChar, Bool.or_eq_true, decide_eq_true_eq, List.mem_cons, List.not_mem_nil,
    or_false] at h
  rcases h with hdigit | rfl | rfl | rfl | rfl | rfl
  · have hrange : 48 ≤ c.toNat ∧ c.toNat ≤ 57 := by
      simpa [Char.isDigit, UInt32.le_iff_toNat_le] using hdigit
    intro hzero
    have hmod : c.toNat % 256 = 0 := by simpa using congrArg UInt8.toNat hzero
    omega
  all_goals decide

theorem numText_noNul (n : NumText) : 0 ∉ ascii n.text := by
  intro h
  obtain ⟨c, hc, hzero⟩ := List.mem_map.1 h
  exact isNumChar_byte (n.valid c hc) hzero

mutual

/-- **What is written has no NUL in it.** -/
theorem write_noNul : ∀ v : UniValue, 0 ∉ v.write
  | .null => by decide
  | .bool b => by cases b <;> decide
  | .num n => numText_noNul n
  | .str s => quote_noNul s
  | .arr values => by
    simp only [UniValue.write, List.mem_append, not_or]
    exact ⟨⟨by decide, writeArray_noNul values⟩, by decide⟩
  | .obj entries => by
    simp only [UniValue.write, List.mem_append, not_or]
    exact ⟨⟨by decide, writeObject_noNul entries⟩, by decide⟩

theorem writeArray_noNul : ∀ values : List UniValue, 0 ∉ writeArray values
  | [] => List.not_mem_nil
  | [v] => write_noNul v
  | v :: w :: rest => by
    simp only [writeArray, List.mem_append, not_or]
    exact ⟨⟨write_noNul v, by decide⟩, writeArray_noNul (w :: rest)⟩

theorem writeObject_noNul : ∀ entries : List (Data × UniValue), 0 ∉ writeObject entries
  | [] => List.not_mem_nil
  | [e] => writeEntry_noNul e
  | e :: e' :: rest => by
    simp only [writeObject, List.mem_append, not_or]
    exact ⟨⟨writeEntry_noNul e, by decide⟩, writeObject_noNul (e' :: rest)⟩

theorem writeEntry_noNul : ∀ e : Data × UniValue, 0 ∉ writeEntry e
  | (key, v) => by
    simp only [writeEntry, List.mem_append, not_or]
    exact ⟨⟨quote_noNul key, by decide⟩, write_noNul v⟩

end

/-- `to_heap`: the text with its terminator. -/
def toHeap (text : Data) : Data := text ++ [0]

/-- The bytes `strlen` counts: those before the first NUL. -/
def cString (bytes : Data) : Data := bytes.takeWhile (· ≠ 0)

/-- A C string holds a written value whole. -/
theorem cString_write (v : UniValue) : cString (toHeap v.write) = v.write := by
  have hall : ∀ b ∈ v.write, decide (b ≠ 0) = true := by
    intro b hb
    have hne : b ≠ 0 := fun h => write_noNul v (h ▸ hb)
    exact decide_eq_true hne
  unfold cString toHeap
  rw [List.takeWhile_append_of_pos hall]
  exact List.append_nil _

/-! ## 3. Nesting -/

/-- `MAX_JSON_DEPTH`. -/
def maxJSONDepth : Nat := 512

/-- The tokens that move the stack of `UniValue::read`. -/
inductive Bracket where
  | opening
  | closing

mutual

/-- The brackets of a value's text. -/
def UniValue.brackets : UniValue → List Bracket
  | .arr values => .opening :: (arrayBrackets values ++ [.closing])
  | .obj entries => .opening :: (objectBrackets entries ++ [.closing])
  | _ => []

/-- Those between the brackets of an array. -/
def arrayBrackets : List UniValue → List Bracket
  | [] => []
  | v :: rest => v.brackets ++ arrayBrackets rest

/-- Those between the braces of an object. -/
def objectBrackets : List (Data × UniValue) → List Bracket
  | [] => []
  | e :: rest => entryBrackets e ++ objectBrackets rest

/-- Those of one value. -/
def entryBrackets : Data × UniValue → List Bracket
  | (_, v) => v.brackets

end

mutual

/-- How many containers are open at once, at most. -/
def UniValue.depth : UniValue → Nat
  | .arr values => 1 + arrayDepth values
  | .obj entries => 1 + objectDepth entries
  | _ => 0

/-- The deepest value of an array. -/
def arrayDepth : List UniValue → Nat
  | [] => 0
  | v :: rest => max v.depth (arrayDepth rest)

/-- The deepest value of an object. -/
def objectDepth : List (Data × UniValue) → Nat
  | [] => 0
  | e :: rest => max (entryDepth e) (objectDepth rest)

/-- That of one value. -/
def entryDepth : Data × UniValue → Nat
  | (_, v) => v.depth

end

/-- The loop of `UniValue::read`, by the size of its stack: it returns false where the stack has
    grown beyond the bound. -/
def readNesting : Nat → List Bracket → Bool
  | _, [] => true
  | stack, .opening :: rest =>
    if stack + 1 > maxJSONDepth then false else readNesting (stack + 1) rest
  | stack, .closing :: rest => readNesting (stack - 1) rest

/-- The brackets take the stack up by `d` and back: from any stack within the bound they pass just
    if `d` more fit. -/
def Nests (brackets : List Bracket) (d : Nat) : Prop :=
  ∀ stack rest, stack ≤ maxJSONDepth → readNesting stack (brackets ++ rest) =
    (decide (stack + d ≤ maxJSONDepth) && readNesting stack rest)

theorem nests_nil : Nests [] 0 := by
  intro stack rest hstack
  simp [hstack]

theorem nests_append {b b' : List Bracket} {d d' : Nat} (h : Nests b d) (h' : Nests b' d') :
    Nests (b ++ b') (max d d') := by
  intro stack rest hstack
  rw [List.append_assoc, h stack _ hstack, h' stack _ hstack, ← Bool.and_assoc]
  congr 1
  rw [← Bool.decide_and]
  exact decide_eq_decide.2 (by omega)

/-- A container takes one place for itself. -/
theorem nests_container {inner : List Bracket} {d : Nat} (h : Nests inner d) :
    Nests (.opening :: (inner ++ [.closing])) (1 + d) := by
  intro stack rest hstack
  simp only [List.cons_append, List.append_assoc, List.nil_append, readNesting]
  by_cases hfull : stack + 1 > maxJSONDepth
  · have hover : ¬stack + (1 + d) ≤ maxJSONDepth := by omega
    simp [hfull, hover]
  · rw [if_neg hfull, h (stack + 1) _ (by omega)]
    simp only [readNesting, Nat.add_sub_cancel]
    rw [Nat.add_assoc]

mutual

theorem nests_value : ∀ v : UniValue, Nests v.brackets v.depth
  | .null | .bool _ | .num _ | .str _ => nests_nil
  | .arr values => nests_container (nests_array values)
  | .obj entries => nests_container (nests_object entries)

theorem nests_array : ∀ values : List UniValue, Nests (arrayBrackets values) (arrayDepth values)
  | [] => nests_nil
  | v :: rest => nests_append (nests_value v) (nests_array rest)

theorem nests_object : ∀ entries : List (Data × UniValue),
    Nests (objectBrackets entries) (objectDepth entries)
  | [] => nests_nil
  | e :: rest => nests_append (nests_entry e) (nests_object rest)

theorem nests_entry : ∀ e : Data × UniValue, Nests (entryBrackets e) (entryDepth e)
  | (_, v) => nests_value v

end

/-- **Reading the text of a value meets the bound just if the value does.** -/
theorem readNesting_brackets (v : UniValue) :
    readNesting 0 v.brackets = decide (v.depth ≤ maxJSONDepth) := by
  have h := nests_value v 0 [] (Nat.zero_le _)
  rw [List.append_nil, Nat.zero_add] at h
  rw [h]
  exact Bool.and_true _

end SwiftBitcoinKernel
