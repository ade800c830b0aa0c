/-
  File:      SwiftBitcoinKernel/Rpc/Dispatch.lean
  Subject:   What `bitcoin_rpc` dispatches for a text of parameters.

  `params.read` tells a text it could not read from one it could; `bitcoin_rpc` does not look. So a
  command is executed for every text, with whatever `read` had built of it.

  * `Core.BridgeCall`, `Core.bitcoinRpcCall` -- a call on a bridge that is ready: what was executed,
    and what was returned;
  * `Item.carries`, `readItems_eq_iff` -- the surrogate pairs whose code point `collate` gets wrong,
    and that they alone are read as something else;
  * `treeRaw_eq_iff` -- two readings of strings that give one value agree on its strings;
  * `Core.Faithful` -- a command is executed with the parameters sent, or not at all;
  * `bitcoinRpcCall_faithful_iff` -- it is so for well-formed texts without such a pair, and for no
    others.
-/
import SwiftBitcoinKernel.Rpc.ReaderComplete
import SwiftBitcoinKernel.Rpc.Server

namespace SwiftBitcoinKernel

open Logic
open Logic.Json (Item Tree Spells)

/-! ## 1. The call -/

namespace Core

/-- A call: the commands executed, with their parameters, and the C string returned. -/
structure BridgeCall where
  dispatched : List (Data × RawValue)
  reply : Data

/-- `if (!params.isArray())`: an array, or an array of that one value. -/
def arrayOf : RawValue → RawValue
  | .arr values => .arr values
  | v => .arr [v]

/-- The parameters, of a text that may be null; what `read` returns is not looked at. -/
def bridgeParams (paramsJson : Option Data) : Option RawValue :=
  match paramsJson with
  | none => some (.arr [])
  | some s =>
    if s.isEmpty then some (.arr [])
    else (readValue s).map fun r => arrayOf r.2

/-- `bitcoin_rpc`, on a bridge that is ready, for a method that is not null. -/
def bitcoinRpcCall (execute : Data → RawValue → CallOutcome) (method : Data)
    (paramsJson : Option Data) : Option BridgeCall :=
  (bridgeParams paramsJson).map fun params =>
    ⟨[(method, params)], bitcoinRpc (execute method params)⟩

/-- The text is JSON, and nests no deeper than `read` goes. -/
def WellFormed (s : Data) : Prop := ∃ t, Spells t s ∧ t.depth ≤ maxJSONDepth

/-- A command is executed with the parameters that were sent, or not at all: none for a null or an
    empty text, an array as it is, any other value in an array, and an error for what is no JSON. -/
structure Faithful (method : Data) (paramsJson : Option Data) (call : BridgeCall) : Prop where
  null : paramsJson = none → call.dispatched = [(method, .arr [])]
  empty : paramsJson = some [] → call.dispatched = [(method, .arr [])]
  array : ∀ s ts, paramsJson = some s → Spells (.array ts) s →
    (Tree.array ts).depth ≤ maxJSONDepth →
    call.dispatched = [(method, .arr (treeRaws Json.stringBytes ts))]
  value : ∀ s t, paramsJson = some s → Spells t s → t.depth ≤ maxJSONDepth →
    (∀ ts, t ≠ .array ts) → call.dispatched = [(method, .arr [treeRaw Json.stringBytes t])]
  malformed : ∀ s, paramsJson = some s → s ≠ [] → ¬WellFormed s →
    call.dispatched = [] ∧ ∃ e : ErrorObject, call.reply = bitcoinRpc (.thrown e)

end Core

/-! ## 2. Surrogate pairs -/

/-- The pairs of which `collate` loses a carry: its 2^16 is in the high half already. -/
def carries : Item → Bool
  | .pair high _ _ _ => (high.value - 0xD800) / 64 % 2 = 1
  | _ => false

theorem collate_eq {high low : Nat} (hlow : 0xDC00 ≤ low ∧ low < 0xE000) :
    collate high low = (64 ||| (high - 0xD800)) * 1024 + (low - 0xDC00) := by
  have hlt : low - 0xDC00 < 2 ^ 10 := by
    norm_num
    omega
  have hplane : 0x10000 = 64 <<< 10 := by decide
  unfold collate
  rw [hplane, ← Nat.shiftLeft_or_distrib, ← Nat.shiftLeft_add_eq_or_of_lt hlt, Nat.shiftLeft_eq]

/-- With the bit there, nothing is added. -/
theorem or_64 (x : Nat) (hx : x < 1024) :
    64 ||| x = if x / 64 % 2 = 1 then x else x + 64 := by
  have hall : ∀ x < 1024, 64 ||| x = if x / 64 % 2 = 1 then x else x + 64 := by decide +kernel
  exact hall x hx

/-- The code point of a pair. -/
def pairPoint (high low : Nat) : Nat := 0x10000 + (high - 0xD800) * 0x400 + (low - 0xDC00)

/-- It is computed just where no carry is lost; both are beyond 2^16. -/
theorem collate_cases {high low : Nat} (hhigh : 0xD800 ≤ high ∧ high < 0xDC00)
    (hlow : 0xDC00 ≤ low ∧ low < 0xE000) :
    (collate high low = pairPoint high low ↔ ¬(high - 0xD800) / 64 % 2 = 1) ∧
      0x10000 ≤ collate high low ∧ collate high low ≤ 0x1FFFFF := by
  rw [collate_eq hlow, or_64 _ (by omega)]
  unfold pairPoint
  split
  · refine ⟨⟨fun h => ?_, fun h => ?_⟩, ?_, ?_⟩ <;> omega
  · refine ⟨⟨fun h => ?_, fun h => ?_⟩, ?_, ?_⟩ <;> omega

theorem ofNat_byte_inj {a b : Nat} (ha : a < 256) (hb : b < 256)
    (h : UInt8.ofNat a = UInt8.ofNat b) : a = b := by
  have hnat := congrArg UInt8.toNat h
  rw [UInt8.toNat_ofNat', UInt8.toNat_ofNat'] at hnat
  norm_num at hnat
  omega

theorem appendCodepoint_inj {n m : Nat} (hn : 0x10000 ≤ n ∧ n ≤ 0x1FFFFF)
    (hm : 0x10000 ≤ m ∧ m ≤ 0x1FFFFF) (h : appendCodepoint n = appendCodepoint m) : n = m := by
  rw [appendCodepoint_four hn.1 hn.2, appendCodepoint_four hm.1 hm.2] at h
  obtain ⟨h₀, h⟩ := List.cons.inj h
  obtain ⟨h₁, h⟩ := List.cons.inj h
  obtain ⟨h₂, h⟩ := List.cons.inj h
  obtain ⟨h₃, -⟩ := List.cons.inj h
  have e₀ := ofNat_byte_inj (by omega) (by omega) h₀
  have e₁ := ofNat_byte_inj (by omega) (by omega) h₁
  have e₂ := ofNat_byte_inj (by omega) (by omega) h₂
  have e₃ := ofNat_byte_inj (by omega) (by omega) h₃
  omega

/-- What a pair says, in UTF-8. -/
theorem bytes_pair {high low : Json.HexUnit} (hhigh : 0xD800 ≤ high.value ∧ high.value < 0xDC00)
    (hlow : 0xDC00 ≤ low.value ∧ low.value < 0xE000) :
    (Item.pair high low hhigh hlow).bytes = appendCodepoint (pairPoint high.value low.value) := by
  have hchar : (Char.ofNat (pairPoint high.value low.value)).toNat =
      pairPoint high.value low.value := by
    refine Json.toNat_ofNat (.inr ?_)
    unfold pairPoint
    omega
  have hutf8 := appendCodepoint_toNat (Char.ofNat (pairPoint high.value low.value))
  rw [hchar] at hutf8
  exact hutf8.symm

theorem pairPoint_bounds {high low : Nat} (hhigh : 0xD800 ≤ high ∧ high < 0xDC00)
    (hlow : 0xDC00 ≤ low ∧ low < 0xE000) :
    0x10000 ≤ pairPoint high low ∧ pairPoint high low ≤ 0x1FFFFF := by
  unfold pairPoint
  omega

/-- An item is read as what it says, unless it is one of those pairs. -/
theorem readItem_eq_iff (i : Item) : readItem i = i.bytes ↔ carries i = false := by
  cases i with
  | pair high low hhigh hlow =>
    obtain ⟨hiff, hbounds⟩ := collate_cases hhigh hlow
    have hcarries : carries (Item.pair high low hhigh hlow) = false ↔
        ¬(high.value - 0xD800) / 64 % 2 = 1 := decide_eq_false_iff_not
    rw [bytes_pair, hcarries, ← hiff]
    constructor
    · exact appendCodepoint_inj hbounds (pairPoint_bounds hhigh hlow)
    · exact congrArg appendCodepoint
  | _ => exact iff_of_true rfl rfl

/-- In any case as many bytes. -/
theorem readItem_length (i : Item) : (readItem i).length = i.bytes.length := by
  by_cases hcarries : carries i = false
  · rw [(readItem_eq_iff i).2 hcarries]
  · cases i with
    | pair high low hhigh hlow =>
      obtain ⟨-, hbounds⟩ := collate_cases hhigh hlow
      have hpoint := pairPoint_bounds hhigh hlow
      have hread : readItem (Item.pair high low hhigh hlow) =
          appendCodepoint (collate high.value low.value) := rfl
      rw [hread, bytes_pair, appendCodepoint_four hpoint.1 hpoint.2,
        appendCodepoint_four hbounds.1 hbounds.2]
      simp only [List.length_cons, List.length_nil]
    | _ => exact absurd rfl hcarries

/-- So a string is read as what it says, unless one of them is in it. -/
theorem readItems_eq_iff (s : List Item) :
    readItems s = Json.stringBytes s ↔ ∀ i ∈ s, carries i = false := by
  induction s with
  | nil => exact iff_of_true rfl (List.forall_mem_nil _)
  | cons i s ih =>
    have hsplit : readItems (i :: s) = Json.stringBytes (i :: s) ↔
        readItem i = i.bytes ∧ readItems s = Json.stringBytes s := by
      constructor
      · intro h
        exact List.append_inj h (readItem_length i)
      · intro h
        show readItem i ++ readItems s = i.bytes ++ Json.stringBytes s
        rw [h.1, h.2]
    rw [hsplit, readItem_eq_iff, ih, List.forall_mem_cons]

/-! ## 3. Readings of strings -/

section Readings

variable {f g : List Item → Data}

mutual

/-- Two readings that give one value agree on its strings. -/
theorem treeRaw_eq_iff : ∀ t : Tree, treeRaw f t = treeRaw g t ↔ ∀ s ∈ t.strings, f s = g s
  | .null => iff_of_true rfl (List.forall_mem_nil _)
  | .bool _ => iff_of_true rfl (List.forall_mem_nil _)
  | .number _ => iff_of_true rfl (List.forall_mem_nil _)
  | .string s => by
    rw [treeRaw, treeRaw, RawValue.str.injEq, Tree.strings, List.forall_mem_singleton]
  | .array ts => by
    rw [treeRaw, treeRaw, RawValue.arr.injEq, Tree.strings]
    exact treeRaws_eq_iff ts
  | .object ms => by
    rw [treeRaw, treeRaw, RawValue.obj.injEq, Tree.strings]
    exact memberRaws_eq_iff ms

theorem treeRaws_eq_iff : ∀ ts : List Tree,
    treeRaws f ts = treeRaws g ts ↔ ∀ s ∈ Json.elementStrings ts, f s = g s
  | [] => iff_of_true rfl (List.forall_mem_nil _)
  | t :: ts => by
    rw [treeRaws, treeRaws, List.cons.injEq, Json.elementStrings, List.forall_mem_append,
      treeRaw_eq_iff t, treeRaws_eq_iff ts]

theorem memberRaws_eq_iff : ∀ ms : List (List Item × Tree),
    ((ms.map fun m => f m.1) = (ms.map fun m => g m.1) ∧ memberRaws f ms = memberRaws g ms) ↔
      ∀ s ∈ Json.memberStrings ms, f s = g s
  | [] => iff_of_true ⟨rfl, rfl⟩ (List.forall_mem_nil _)
  | (name, t) :: ms => by
    rw [List.map_cons, List.map_cons, List.cons.injEq, memberRaws, memberRaws, List.cons.injEq,
      Json.memberStrings, List.forall_mem_cons, List.forall_mem_append, treeRaw_eq_iff t,
      ← memberRaws_eq_iff ms]
    constructor
    · intro h
      exact ⟨h.1.1, h.2.1, h.1.2, h.2.2⟩
    · intro h
      exact ⟨⟨h.1, h.2.2.1⟩, h.2.1, h.2.2.2⟩

end

end Readings

/-- No string of the tree has one of those pairs. -/
def Uncarried (t : Tree) : Prop := ∀ s ∈ t.strings, ∀ i ∈ s, carries i = false

/-- A tree is read as what it says just if it has none. -/
theorem treeRaw_read_iff (t : Tree) :
    treeRaw readItems t = treeRaw Json.stringBytes t ↔ Uncarried t := by
  rw [treeRaw_eq_iff]
  exact forall₂_congr fun s _ => readItems_eq_iff s

/-! ## 4. Every text -/

namespace Core

variable (execute : Data → RawValue → CallOutcome) (method : Data) {s : Data}

theorem ne_nil_of_spells {t : Tree} (h : Spells t s) : s ≠ [] := by
  have hpos : 0 < t.tokens.length := by
    cases t with
    | array ts => rw [tokens_array]; exact Nat.succ_pos _
    | object ms => rw [tokens_object]; exact Nat.succ_pos _
    | _ => exact Nat.one_pos
  exact List.length_pos_iff.1 (hpos.trans_le h.length_le)

/-- A text that is not empty is read, and something is executed. -/
theorem bitcoinRpcCall_read (hs : s ≠ []) :
    ∃ r, readValue s = some r ∧ bitcoinRpcCall execute method (some s) =
      some ⟨[(method, arrayOf r.2)], bitcoinRpc (execute method (arrayOf r.2))⟩ := by
  obtain ⟨r, hr⟩ := Option.isSome_iff_exists.1 (readValue_isSome s)
  refine ⟨r, hr, ?_⟩
  unfold bitcoinRpcCall bridgeParams
  dsimp only
  rw [List.isEmpty_eq_false_iff.2 hs, if_neg Bool.false_ne_true, hr]
  rfl

/-- For the text of a tree, it is its value, with the strings as they are read. -/
theorem bitcoinRpcCall_spells {t : Tree} (h : Spells t s) (hdepth : t.depth ≤ maxJSONDepth) :
    ∃ reply, bitcoinRpcCall execute method (some s) =
      some ⟨[(method, arrayOf (treeRaw readItems t))], reply⟩ := by
  obtain ⟨r, hr, hcall⟩ := bitcoinRpcCall_read execute method (ne_nil_of_spells h)
  rw [readValue_complete h hdepth] at hr
  cases hr
  exact ⟨_, hcall⟩

/-- In an array or not, it is one value. -/
theorem arrayOf_treeRaw_iff (f g : List Item → Data) (t : Tree) :
    arrayOf (treeRaw f t) = arrayOf (treeRaw g t) ↔ treeRaw f t = treeRaw g t := by
  have hone : ∀ v w : RawValue, RawValue.arr [v] = .arr [w] ↔ v = w := by
    intro v w
    rw [RawValue.arr.injEq, List.cons.injEq, and_iff_left rfl]
  cases t with
  | array ts => exact Iff.rfl
  | _ => exact hone _ _

variable {method}

/-- What a faithful call executes for the text of a tree. -/
theorem Faithful.spells {call : BridgeCall} (h : Faithful method (some s) call) {t : Tree}
    (ht : Spells t s) (hdepth : t.depth ≤ maxJSONDepth) :
    call.dispatched = [(method, arrayOf (treeRaw Json.stringBytes t))] := by
  cases t with
  | array ts => exact h.array s ts rfl ht hdepth
  | _ => exact h.value s _ rfl ht hdepth fun ts hts => by cases hts

/-- For a text that nothing is said of but by its tree. -/
theorem faithful_of_spells {params : RawValue} {reply : Data} (hwell : WellFormed s)
    (h : ∀ t, Spells t s → t.depth ≤ maxJSONDepth →
      params = arrayOf (treeRaw Json.stringBytes t)) :
    Faithful method (some s) ⟨[(method, params)], reply⟩ where
  null hnone := by cases hnone
  empty hempty := by
    obtain ⟨t, ht, -⟩ := hwell
    exact absurd (Option.some.inj hempty) (ne_nil_of_spells ht)
  array s' ts hs' ht hdepth := by
    cases hs'
    rw [h _ ht hdepth]
    rfl
  value s' t hs' ht hdepth hnot := by
    cases hs'
    rw [h t ht hdepth]
    cases t with
    | array ts => exact absurd rfl (hnot ts)
    | _ => rfl
  malformed s' hs' _ hmalformed := by
    cases hs'
    exact absurd hwell hmalformed

/-- For no text at all. -/
theorem faithful_of_blank {paramsJson : Option Data} {reply : Data}
    (hblank : ∀ s, paramsJson = some s → s = []) :
    Faithful method paramsJson ⟨[(method, .arr [])], reply⟩ where
  null _ := rfl
  empty _ := rfl
  array s _ hs ht _ := absurd (hblank s hs) (ne_nil_of_spells ht)
  value s _ hs ht _ _ := absurd (hblank s hs) (ne_nil_of_spells ht)
  malformed s hs hne _ := absurd (hblank s hs) hne

/-- **The texts for which a command is executed with what was sent, or not at all**: null, empty, or
    JSON of bounded nesting without one of those surrogate pairs. -/
theorem bitcoinRpcCall_faithful_iff (execute : Data → RawValue → CallOutcome) (method : Data)
    (paramsJson : Option Data) :
    (∃ call, bitcoinRpcCall execute method paramsJson = some call ∧
      Faithful method paramsJson call) ↔
    ∀ s, paramsJson = some s → s ≠ [] →
      WellFormed s ∧ ∀ t, Spells t s → t.depth ≤ maxJSONDepth → Uncarried t := by
  constructor
  · intro h s hs hne
    obtain ⟨call, hcall, hfaithful⟩ := h
    subst hs
    constructor
    · -- something is executed, whatever the text
      by_contra hmalformed
      obtain ⟨r, -, hread⟩ := bitcoinRpcCall_read execute method hne
      rw [hread] at hcall
      cases hcall
      cases (hfaithful.malformed s rfl hne hmalformed).1
    · intro t ht hdepth
      have hsent := hfaithful.spells ht hdepth
      obtain ⟨reply, hread⟩ := bitcoinRpcCall_spells execute method ht hdepth
      rw [hread] at hcall
      cases hcall
      have hsame := (Prod.mk.inj (List.cons.inj hsent).1).2
      exact (treeRaw_read_iff t).1 ((arrayOf_treeRaw_iff _ _ t).1 hsame)
  · intro h
    cases paramsJson with
    | none => exact ⟨_, rfl, faithful_of_blank fun s hs => by cases hs⟩
    | some s =>
      by_cases hne : s = []
      · subst hne
        exact ⟨_, rfl, faithful_of_blank fun s hs => (Option.some.inj hs).symm⟩
      · obtain ⟨hwell, huncarried⟩ := h s rfl hne
        obtain ⟨r, hr, hcall⟩ := bitcoinRpcCall_read execute method hne
        refine ⟨_, hcall, faithful_of_spells hwell fun t ht hdepth => ?_⟩
        rw [readValue_complete ht hdepth] at hr
        cases hr
        exact (arrayOf_treeRaw_iff _ _ t).2 ((treeRaw_read_iff t).2 (huncarried t ht hdepth))

/-- The truncated text `[1` is no JSON, and the command is executed with the array of 1. -/
theorem truncated_text_dispatched :
    ¬WellFormed (ascii "[1") ∧
      bitcoinRpcCall (fun _ _ => .result .null) (ascii "getblockhash") (some (ascii "[1")) =
        some ⟨[(ascii "getblockhash", .arr [.num (ascii "1")])], bitcoinRpc (.result .null)⟩ := by
  have hread : readValue (ascii "[1") = some (false, .arr [.num (ascii "1")]) := rfl
  refine ⟨fun hwell => ?_, ?_⟩
  · obtain ⟨t, ht, hdepth⟩ := hwell
    rw [readValue_complete ht hdepth] at hread
    cases hread
  · obtain ⟨r, hr, hcall⟩ := bitcoinRpcCall_read (fun _ _ => .result .null) (ascii "getblockhash")
      (show ascii "[1" ≠ [] by decide)
    rw [hread] at hr
    cases hr
    exact hcall

end Core

end SwiftBitcoinKernel
