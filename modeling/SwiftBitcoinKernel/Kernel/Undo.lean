/-
  File:      SwiftBitcoinKernel/Kernel/Undo.lean
  Subject:   Coins as bytes: the undo data of a block, and the files it is kept in.

  A coin is written with a variable-length integer for height and coinbase flag, an amount with its
  trailing zeros taken out, and a script that is shortened where it has one of six forms. The reader
  accepts more than is ever written (a script that is too long becomes `OP_RETURN`, the dummy may be
  any number), so what holds is that it gives back what was written, whatever follows.

  * `writeVarInt`, `readVarInt` -- serialize.h;
  * `compressAmount`, `compressScript` and back -- compressor.cpp;
  * `serTxInUndo`, `serBlockUndo` and back -- undo.h;
  * `recovers_varInt`, `decompressAmount_compressAmount`, `recovers_script`, `recovers_txInUndo`,
    `recovers_blockUndo` -- the formats, from the bottom up;
  * `writeBlockUndo`, `readBlockUndo` -- node/blockstorage.cpp;
  * `undo_files` -- what has been written for a block first is read for it, whatever came after.
-/
import SwiftBitcoinKernel.Kernel.Chainman
import SwiftBitcoinKernel.Kernel.ConnectBlock

namespace SwiftBitcoinKernel

open Logic Parse SwiftBitcoinKernel.Core

/-! ## 1. Variable-length integers -/

/-- `tmp` of `WriteVarInt`, from `len` on, with `size` places left: `more` says that `len` is not 0. -/
def varIntTmp : Nat → Bool → Nat → List UInt8
  | 0, _, _ => []
  | size + 1, more, n =>
    let byte := UInt8.ofNat (n % 128) ||| (if more then 0x80 else 0x00)
    if n ≤ 0x7F then [byte] else byte :: varIntTmp size true (n / 128 - 1)

/-- `WriteVarInt` of a number of so many bits: `tmp` from its end. -/
def writeVarInt (bits n : Nat) : Data := (varIntTmp ((bits + 6) / 7) false n).reverse

/-- The loop of `ReadVarInt`, up to `max`. -/
def readVarIntLoop (max : Nat) : Data → Nat → Option (Nat × Data)
  | [], _ => none
  | chData :: s, n =>
    if n > max / 128 then none
    else
      let n := n <<< 7 ||| (chData &&& 0x7F).toNat
      if chData &&& 0x80 ≠ 0 then
        if n = max then none else readVarIntLoop max s (n + 1)
      else some (n, s)

/-- `ReadVarInt`. -/
def readVarInt (bits : Nat) : Parse UInt8 Nat := fun s => readVarIntLoop (2 ^ bits - 1) s 0

section VarInt

theorem low_of_more : ∀ k < 128, ((UInt8.ofNat k ||| 0x80) &&& 0x7F).toNat = k ∧
    (UInt8.ofNat k ||| 0x80) &&& 0x80 ≠ 0 := by decide

theorem low_of_last : ∀ k < 128, ((UInt8.ofNat k ||| 0x00) &&& 0x7F).toNat = k ∧
    (UInt8.ofNat k ||| 0x00) &&& 0x80 = 0 := by decide

theorem shift_or {n k : Nat} (h : k < 128) : n <<< 7 ||| k = n * 128 + k := by
  rw [← Nat.shiftLeft_add_eq_or_of_lt (show k < 2 ^ 7 from h), Nat.shiftLeft_eq]

theorem readVarIntLoop_cons {max n k : Nat} {chData : UInt8} (s : Data)
    (hlow : (chData &&& 0x7F).toNat = k) (hk : k < 128) (hmax : n * 128 + k ≤ max) :
    readVarIntLoop max (chData :: s) n =
      if chData &&& 0x80 ≠ 0 then
        if n * 128 + k = max then none else readVarIntLoop max s (n * 128 + k + 1)
      else some (n * 128 + k, s) := by
  show (if n > max / 128 then none else _) = _
  rw [if_neg (by omega), hlow, shift_or hk]

/-- The bytes before the last leave a sum that is one more than the number they were written for. -/
theorem readVarIntLoop_high {max size n : Nat} (hmax : n < max) (hsize : n + 1 < 128 ^ size)
    (s : Data) : readVarIntLoop max ((varIntTmp size true n).reverse ++ s) 0 =
      readVarIntLoop max s (n + 1) := by
  induction size generalizing n s with
  | zero =>
    rw [Nat.pow_zero] at hsize
    omega
  | succ size ih =>
    obtain ⟨hlow, hmore⟩ := low_of_more (n % 128) (Nat.mod_lt n (by decide))
    -- the step of the loop on the byte of `n`, from the sum that is left for it
    have hstep : ∀ s, readVarIntLoop max ((UInt8.ofNat (n % 128) ||| 0x80) :: s) (n / 128) =
        readVarIntLoop max s (n + 1) := by
      intro s
      have hsum : n / 128 * 128 + n % 128 = n := Nat.div_add_mod' n 128
      rw [readVarIntLoop_cons s hlow (Nat.mod_lt n (by decide)) (by omega), hsum, if_pos hmore,
        if_neg (by omega)]
    unfold varIntTmp
    dsimp only
    rw [if_pos rfl]
    split
    · rename_i hsmall
      rw [List.reverse_singleton, List.singleton_append]
      have hzero : n / 128 = 0 := by omega
      rw [← hstep, hzero]
    · rename_i hlarge
      rw [Nat.pow_succ] at hsize
      rw [List.reverse_cons, List.append_assoc, ih (by omega) (by omega), List.singleton_append,
        Nat.sub_add_cancel (by omega), hstep]

/-- **What `WriteVarInt` has written, `ReadVarInt` reads.** -/
theorem recovers_varInt {bits : Nat} (hbits : 0 < bits) :
    Recovers (readVarInt bits) (fun n => n < 2 ^ bits) (writeVarInt bits) := by
  intro n rest hn
  have hsize : n < 128 ^ ((bits + 6) / 7) := by
    refine hn.trans_le ?_
    have hpow : 128 ^ ((bits + 6) / 7) = 2 ^ (7 * ((bits + 6) / 7)) := (Nat.pow_mul 2 7 _).symm
    rw [hpow]
    exact Nat.pow_le_pow_right (by decide) (by omega)
  obtain ⟨hlow, hlast⟩ := low_of_last (n % 128) (Nat.mod_lt n (by decide))
  have hstep : readVarIntLoop (2 ^ bits - 1) ((UInt8.ofNat (n % 128) ||| 0x00) :: rest) (n / 128) =
      some (n, rest) := by
    have hsum : n / 128 * 128 + n % 128 = n := Nat.div_add_mod' n 128
    rw [readVarIntLoop_cons rest hlow (Nat.mod_lt n (by decide)) (by omega), hsum,
      if_neg (not_not.2 hlast)]
  unfold readVarInt writeVarInt
  obtain ⟨size, hplaces⟩ : ∃ size, (bits + 6) / 7 = size + 1 :=
    Nat.exists_eq_add_one.2 (Nat.div_pos (by omega) (by decide))
  rw [hplaces] at hsize ⊢
  unfold varIntTmp
  dsimp only
  rw [if_neg Bool.false_ne_true]
  split
  · rename_i hsmall
    have hzero : n / 128 = 0 := by omega
    rw [List.reverse_singleton, List.singleton_append, ← hstep, hzero]
  · rename_i hlarge
    rw [Nat.pow_succ] at hsize
    rw [List.reverse_cons, List.append_assoc, readVarIntLoop_high (by omega) (by omega),
      List.singleton_append, Nat.sub_add_cancel (by omega), hstep]

end VarInt

/-! ## 2. Amounts -/

/-- The first loop of `CompressAmount`, at most so many times: the number and `e`. -/
def stripZeros : Nat → Nat → Nat → Nat × Nat
  | 0, n, e => (n, e)
  | left + 1, n, e => if n % 10 = 0 then stripZeros left (n / 10) (e + 1) else (n, e)

/-- `CompressAmount`. -/
def compressAmount (n : Nat) : Nat :=
  if n = 0 then 0
  else
    let (n, e) := stripZeros 9 n 0
    if e < 9 then (1 + (n / 10 * 9 + n % 10 - 1) * 10 + e) % 2 ^ 64
    else (1 + (n - 1) * 10 + 9) % 2 ^ 64

/-- The last loop of `DecompressAmount`. -/
def timesTen : Nat → Nat → Nat
  | 0, n => n
  | e + 1, n => timesTen e (n * 10 % 2 ^ 64)

/-- `DecompressAmount`. -/
def decompressAmount (x : Nat) : Nat :=
  if x = 0 then 0
  else
    let e := (x - 1) % 10
    let x := (x - 1) / 10
    timesTen e (if e < 9 then x / 9 * 10 + (x % 9 + 1) else x + 1)

theorem stripZeros_spec (left : Nat) {n : Nat} (e : Nat) (hn : 0 < n) :
    (stripZeros left n e).1 * 10 ^ ((stripZeros left n e).2 - e) = n ∧
      e ≤ (stripZeros left n e).2 ∧ (stripZeros left n e).2 ≤ e + left ∧
      ((stripZeros left n e).2 < e + left → (stripZeros left n e).1 % 10 ≠ 0) := by
  induction left generalizing n e with
  | zero =>
    refine ⟨?_, Nat.le_refl e, Nat.le_refl e, fun h => absurd h (Nat.lt_irrefl e)⟩
    show n * 10 ^ (e - e) = n
    rw [Nat.sub_self, Nat.pow_zero, Nat.mul_one]
  | succ left ih =>
    unfold stripZeros
    split
    · rename_i hzero
      obtain ⟨hvalue, hlow, hhigh, hdigit⟩ := ih (e + 1) (show 0 < n / 10 by omega)
      refine ⟨?_, by omega, by omega, fun h => hdigit (by omega)⟩
      have hpow : (stripZeros left (n / 10) (e + 1)).2 - e =
          (stripZeros left (n / 10) (e + 1)).2 - (e + 1) + 1 := by omega
      rw [hpow, Nat.pow_succ, ← Nat.mul_assoc, hvalue]
      omega
    · rename_i hdigit
      refine ⟨?_, Nat.le_refl e, by omega, fun _ => hdigit⟩
      show n * 10 ^ (e - e) = n
      rw [Nat.sub_self, Nat.pow_zero, Nat.mul_one]

theorem timesTen_eq {e n : Nat} (h : n * 10 ^ e < 2 ^ 64) : timesTen e n = n * 10 ^ e := by
  induction e generalizing n with
  | zero => exact (Nat.mul_one n).symm
  | succ e ih =>
    rw [Nat.pow_succ'] at h ⊢
    have hpos : 0 < 10 ^ e := Nat.pow_pos (by decide)
    have hsmall : n * 10 < 2 ^ 64 := by
      refine lt_of_le_of_lt ?_ h
      rw [← Nat.mul_assoc]
      exact Nat.le_mul_of_pos_right _ hpos
    unfold timesTen
    rw [Nat.mod_eq_of_lt hsmall, ih (by rwa [Nat.mul_assoc]), Nat.mul_assoc]

/-- **Amounts up to `MAX_MONEY`** come back. -/
theorem decompressAmount_compressAmount {n : Nat} (h : n ≤ 2100000000000000) :
    decompressAmount (compressAmount n) = n ∧ compressAmount n < 2 ^ 64 := by
  unfold compressAmount
  split
  · rename_i hzero
    exact ⟨hzero.symm, by decide⟩
  · rename_i hpos
    obtain ⟨hvalue, -, hhigh, hdigit⟩ := stripZeros_spec 9 0 (Nat.pos_of_ne_zero hpos)
    revert hvalue hhigh hdigit
    generalize stripZeros 9 n 0 = r
    obtain ⟨m, e⟩ := r
    dsimp only
    rw [Nat.sub_zero, Nat.zero_add]
    intro hvalue hhigh hdigit
    have hm : m ≤ n := hvalue ▸ Nat.le_mul_of_pos_right m (Nat.pow_pos (by decide))
    have hten : timesTen e m = n := by
      rw [timesTen_eq (by omega), hvalue]
    split
    · rename_i he
      have hne := hdigit he
      have hcode : (1 + (m / 10 * 9 + m % 10 - 1) * 10 + e) % 2 ^ 64 =
          1 + (m / 10 * 9 + m % 10 - 1) * 10 + e := Nat.mod_eq_of_lt (by omega)
      rw [hcode]
      refine ⟨?_, by omega⟩
      unfold decompressAmount
      have hexp : (1 + (m / 10 * 9 + m % 10 - 1) * 10 + e - 1) % 10 = e := by omega
      have hrest : (1 + (m / 10 * 9 + m % 10 - 1) * 10 + e - 1) / 10 =
          m / 10 * 9 + m % 10 - 1 := by omega
      have hback : (m / 10 * 9 + m % 10 - 1) / 9 * 10 + ((m / 10 * 9 + m % 10 - 1) % 9 + 1) = m := by
        omega
      rw [if_neg (by omega)]
      dsimp only
      rw [hexp, hrest, if_pos he, hback, hten]
    · rename_i he
      obtain rfl : e = 9 := by omega
      have hmpos : 0 < m := by
        refine Nat.pos_of_ne_zero fun hzero => hpos ?_
        rw [← hvalue, hzero, Nat.zero_mul]
      have hcode : (1 + (m - 1) * 10 + 9) % 2 ^ 64 = 1 + (m - 1) * 10 + 9 :=
        Nat.mod_eq_of_lt (by omega)
      rw [hcode]
      refine ⟨?_, by omega⟩
      unfold decompressAmount
      have hexp : (1 + (m - 1) * 10 + 9 - 1) % 10 = 9 := by omega
      have hrest : (1 + (m - 1) * 10 + 9 - 1) / 10 + 1 = m := by omega
      rw [if_neg (by omega)]
      dsimp only
      rw [hexp, if_neg (Nat.lt_irrefl 9), hrest, hten]

/-! ## 3. Scripts -/

/-- `CPubKey`, as far as scripts are concerned: what secp256k1 says of a key. A point is determined
    by its first coordinate and by whether the second is odd. -/
structure PubKeys where
  isFullyValid : Data → Bool
  decompress : Data → Option Data
  decompress_of_valid : ∀ x y : Data, x.length = 32 → y.length = 32 →
    isFullyValid (0x04 :: (x ++ y)) = true →
    decompress ((0x02 ||| (y.getLastD 0 &&& 0x01)) :: x) = some (0x04 :: (x ++ y))

variable (P : PubKeys)

/-- `IsToKeyID`. -/
def isToKeyID (script : Data) : Option Data :=
  if script.length = 25 ∧ script.take 3 = [0x76, 0xa9, 20] ∧ script.drop 23 = [0x88, 0xac] then
    some ((script.drop 3).take 20)
  else none

/-- `IsToScriptID`. -/
def isToScriptID (script : Data) : Option Data :=
  if script.length = 23 ∧ script.take 2 = [0xa9, 20] ∧ script.drop 22 = [0x87] then
    some ((script.drop 2).take 20)
  else none

/-- `IsToPubKey`. -/
def isToPubKey (script : Data) : Option Data :=
  if script.length = 35 ∧ script.take 1 = [33] ∧ script.drop 34 = [0xac] ∧
      (script.drop 1).head? ∈ [some 0x02, some 0x03] then
    some ((script.drop 1).take 33)
  else if script.length = 67 ∧ script.take 1 = [65] ∧ script.drop 66 = [0xac] ∧
      (script.drop 1).head? = some 0x04 then
    let pubkey := (script.drop 1).take 65
    if P.isFullyValid pubkey then some pubkey else none
  else none

/-- `CompressScript`. -/
def compressScript (script : Data) : Option Data :=
  match isToKeyID script with
  | some keyID => some (0x00 :: keyID)
  | none =>
    match isToScriptID script with
    | some scriptID => some (0x01 :: scriptID)
    | none =>
      match isToPubKey P script with
      | none => none
      | some pubkey =>
        let x := (pubkey.drop 1).take 32
        if pubkey.head? = some 0x02 then some (0x02 :: x)
        else if pubkey.head? = some 0x03 then some (0x03 :: x)
        else if pubkey.head? = some 0x04 then some ((0x04 ||| (pubkey.getLastD 0 &&& 0x01)) :: x)
        else none

/-- `GetSpecialScriptSize`. -/
def getSpecialScriptSize (nSize : Nat) : Nat :=
  if nSize = 0 ∨ nSize = 1 then 20
  else if nSize = 2 ∨ nSize = 3 ∨ nSize = 4 ∨ nSize = 5 then 32
  else 0

/-- `DecompressScript`: `none` where it returns false and leaves the script alone. -/
def decompressScript (nSize : Nat) (data : Data) : Option Data :=
  match nSize with
  | 0 => some ([0x76, 0xa9, 20] ++ data ++ [0x88, 0xac])
  | 1 => some ([0xa9, 20] ++ data ++ [0x87])
  | 2 | 3 => some ([33, UInt8.ofNat nSize] ++ data ++ [0xac])
  | 4 | 5 => (P.decompress (UInt8.ofNat (nSize - 2) :: data)).map fun pubkey => 65 :: pubkey ++ [0xac]
  | _ => none

/-- `nSpecialScripts`. -/
def nSpecialScripts : Nat := 6

/-- `ScriptCompression::Ser`. -/
def serScript (script : Data) : Data :=
  match compressScript P script with
  | some compr => compr
  | none => writeVarInt 32 ((script.length + nSpecialScripts) % 2 ^ 32) ++ script

/-- `ScriptCompression::Unser`, into an empty script. -/
def unserScript : Parse UInt8 Data := do
  let nSize ← readVarInt 32
  if nSize < nSpecialScripts then do
    let vch ← take (getSpecialScriptSize nSize)
    return (decompressScript P nSize vch).getD []
  else if nSize - nSpecialScripts > 10000 then do
    let _ ← take (nSize - nSpecialScripts)
    return [0x6a]
  else take (nSize - nSpecialScripts)

/-- The parts of a list around a stretch of it. -/
theorem eq_append_stretch {α : Type} (l : List α) (i n : Nat) :
    l = l.take i ++ (l.drop i).take n ++ l.drop (i + n) := by
  rw [List.append_assoc, ← List.drop_drop, List.take_append_drop, List.take_append_drop]

theorem isToKeyID_some {script keyID : Data} (h : isToKeyID script = some keyID) :
    keyID.length = 20 ∧ script = [0x76, 0xa9, 20] ++ keyID ++ [0x88, 0xac] := by
  unfold isToKeyID at h
  split at h
  · rename_i hform
    obtain ⟨hlen, hfirst, hlast⟩ := hform
    cases h
    refine ⟨?_, ?_⟩
    · rw [List.length_take, List.length_drop]
      omega
    · rw [← hfirst, ← hlast]
      exact eq_append_stretch script 3 20
  · cases h

theorem isToScriptID_some {script scriptID : Data} (h : isToScriptID script = some scriptID) :
    scriptID.length = 20 ∧ script = [0xa9, 20] ++ scriptID ++ [0x87] := by
  unfold isToScriptID at h
  split at h
  · rename_i hform
    obtain ⟨hlen, hfirst, hlast⟩ := hform
    cases h
    refine ⟨?_, ?_⟩
    · rw [List.length_take, List.length_drop]
      omega
    · rw [← hfirst, ← hlast]
      exact eq_append_stretch script 2 20
  · cases h

/-- The forms of a script that pays to a key. -/
theorem isToPubKey_some {script pubkey : Data} (h : isToPubKey P script = some pubkey) :
    ∃ first x, x.length = 32 ∧
      ((first = 0x02 ∨ first = 0x03) ∧ pubkey = first :: x ∧ script = 33 :: pubkey ++ [0xac] ∨
        ∃ y, y.length = 32 ∧ pubkey = 0x04 :: (x ++ y) ∧ P.isFullyValid pubkey = true ∧
          script = 65 :: pubkey ++ [0xac]) := by
  unfold isToPubKey at h
  split at h
  · rename_i hform
    obtain ⟨hlen, hfirst, hlast, hkind⟩ := hform
    cases h
    have hparts := eq_append_stretch script 1 33
    rw [hfirst, hlast] at hparts
    have hkey : ((script.drop 1).take 33).length = 33 := by
      rw [List.length_take, List.length_drop]
      omega
    have hhead : ((script.drop 1).take 33).head? = (script.drop 1).head? :=
      List.head?_take.trans (if_neg (by decide))
    revert hparts hkey hhead
    generalize (script.drop 1).take 33 = pubkey
    intro hparts hkey hhead
    match pubkey, hkey with
    | first :: x, hkey =>
      refine ⟨first, x, Nat.succ.inj hkey, Or.inl ⟨?_, rfl, hparts⟩⟩
      rw [← hhead] at hkind
      simpa using hkind
  · split at h
    · rename_i hform
      obtain ⟨hlen, hfirst, hlast, hkind⟩ := hform
      dsimp only at h
      split at h
      · rename_i hvalid
        cases h
        have hparts := eq_append_stretch script 1 65
        rw [hfirst, hlast] at hparts
        have hkey : ((script.drop 1).take 65).length = 65 := by
          rw [List.length_take, List.length_drop]
          omega
        have hhead : ((script.drop 1).take 65).head? = (script.drop 1).head? :=
          List.head?_take.trans (if_neg (by decide))
        rw [hkind] at hhead
        revert hparts hkey hhead hvalid
        generalize (script.drop 1).take 65 = pubkey
        intro hvalid hparts hkey hhead
        match pubkey, hkey with
        | first :: rest, hkey =>
          cases hhead
          rw [List.length_cons] at hkey
          refine ⟨0x04, rest.take 32, ?_, Or.inr ⟨rest.drop 32, ?_, ?_, hvalid, hparts⟩⟩
          · rw [List.length_take]
            omega
          · rw [List.length_drop]
            omega
          · rw [List.take_append_drop]
      · cases h
    · cases h

theorem and_one_cases (b : UInt8) : b &&& 0x01 = 0 ∨ b &&& 0x01 = 1 := by
  have hnat : (b &&& 0x01).toNat = b.toNat % 2 := (UInt8.toNat_and b 1).trans (Nat.and_one_is_mod _)
  obtain heven | hodd := Nat.mod_two_eq_zero_or_one b.toNat
  · exact Or.inl (UInt8.toNat.inj (hnat.trans heven))
  · exact Or.inr (UInt8.toNat.inj (hnat.trans hodd))

/-- **A script that is shortened** begins with one of six numbers, by which it is read back. -/
theorem compressScript_some {script compr : Data} (h : compressScript P script = some compr) :
    ∃ nSize data, compr = UInt8.ofNat nSize :: data ∧ nSize < nSpecialScripts ∧
      data.length = getSpecialScriptSize nSize ∧ decompressScript P nSize data = some script := by
  unfold compressScript at h
  split at h
  · rename_i keyID hkeyID
    obtain ⟨hlen, hscript⟩ := isToKeyID_some hkeyID
    cases h
    exact ⟨0, keyID, rfl, by decide, hlen, congrArg some hscript.symm⟩
  · split at h
    · rename_i scriptID hscriptID
      obtain ⟨hlen, hscript⟩ := isToScriptID_some hscriptID
      cases h
      exact ⟨1, scriptID, rfl, by decide, hlen, congrArg some hscript.symm⟩
    · split at h
      · cases h
      · rename_i pubkey hpubkey
        obtain ⟨first, x, hx, hforms⟩ := isToPubKey_some P hpubkey
        obtain ⟨hfirst, rfl, hscript⟩ | ⟨y, hy, rfl, hvalid, hscript⟩ := hforms
        · have htake : ((first :: x).drop 1).take 32 = x := List.take_of_length_le (Nat.le_of_eq hx)
          dsimp only at h
          rw [htake] at h
          obtain rfl | rfl := hfirst
          · cases h
            exact ⟨2, x, rfl, by decide, hx, congrArg some hscript.symm⟩
          · cases h
            exact ⟨3, x, rfl, by decide, hx, congrArg some hscript.symm⟩
        · have htake : (((0x04 : UInt8) :: (x ++ y)).drop 1).take 32 = x := List.take_left' hx
          have hlast : ((0x04 : UInt8) :: (x ++ y)).getLastD 0 = y.getLastD 0 := by
            have hne : y ≠ [] := List.ne_nil_of_length_pos (by omega)
            rw [← List.cons_append, List.getLastD_eq_getLast?, List.getLastD_eq_getLast?,
              List.getLast?_append_of_ne_nil _ hne]
          have hback := P.decompress_of_valid x y hx hy hvalid
          dsimp only at h
          rw [htake, hlast] at h
          obtain heven | hodd := and_one_cases (y.getLastD 0)
          · rw [heven] at h hback
            cases h
            refine ⟨4, x, rfl, by decide, hx, ?_⟩
            rw [hscript]
            exact congrArg (Option.map _) hback
          · rw [hodd] at h hback
            cases h
            refine ⟨5, x, rfl, by decide, hx, ?_⟩
            rw [hscript]
            exact congrArg (Option.map _) hback

theorem writeVarInt_small : ∀ n < nSpecialScripts, writeVarInt 32 n = [UInt8.ofNat n] := by decide

/-- **Scripts that are not too long** come back. -/
theorem recovers_script :
    Recovers (unserScript P) (fun script => script.length ≤ 10000) (serScript P) := by
  intro script rest hlen
  unfold serScript unserScript
  split
  · rename_i compr hcompr
    obtain ⟨nSize, data, rfl, hsmall, hdata, hback⟩ := compressScript_some P hcompr
    have hsize : nSize < 2 ^ 32 := hsmall.trans (by decide)
    have hfront : UInt8.ofNat nSize :: data ++ rest = writeVarInt 32 nSize ++ (data ++ rest) := by
      rw [writeVarInt_small nSize hsmall]
      rfl
    rw [hfront, (recovers_varInt (by decide)).bind_eq hsize, if_pos hsmall,
      (inverts_take (getSpecialScriptSize nSize)).recovers.bind_eq hdata, hback]
    rfl
  · have hmod : (script.length + nSpecialScripts) % 2 ^ 32 = script.length + nSpecialScripts :=
      Nat.mod_eq_of_lt (by unfold nSpecialScripts; omega)
    rw [hmod, List.append_assoc, (recovers_varInt (by decide)).bind_eq
      (show _ < 2 ^ 32 by unfold nSpecialScripts; omega), if_neg (by omega), Nat.add_sub_cancel,
      if_neg (by omega)]
    exact (inverts_take script.length).recovers script rest rfl

/-! ## 4. Coins -/

/-- `TxOutCompression`. -/
def serTxOutCompressed (out : CTxOut) : Data :=
  writeVarInt 64 (compressAmount out.nValue.toUInt64.toNat) ++ serScript P out.scriptPubKey

def unserTxOutCompressed : Parse UInt8 CTxOut := do
  let v ← readVarInt 64
  let scriptPubKey ← unserScript P
  return ⟨(UInt64.ofNat (decompressAmount v)).toInt64, scriptPubKey⟩

/-- `nHeight * uint32_t{2} + fCoinBase`. -/
def Coin.code (c : Coin) : Nat := c.nHeight.toNat * 2 + c.fCoinBase.toNat

/-- `TxInUndoFormatter::Ser`. -/
def serTxInUndo (c : Coin) : Data :=
  writeVarInt 32 c.code ++
    ((if c.nHeight.toNat > 0 then [0] else []) ++ serTxOutCompressed P c.out)

/-- `TxInUndoFormatter::Unser`. -/
def unserTxInUndo : Parse UInt8 Coin := do
  let nCode ← readVarInt 32
  if (BitVec.ofNat 31 (nCode / 2)).toNat > 0 then do
    let _ ← readVarInt 32
    let out ← unserTxOutCompressed P
    return ⟨out, decide (nCode % 2 = 1), BitVec.ofNat 31 (nCode / 2)⟩
  else do
    let out ← unserTxOutCompressed P
    return ⟨out, decide (nCode % 2 = 1), BitVec.ofNat 31 (nCode / 2)⟩

/-- What the formats can hold of an output: an amount in range and a script that can be spent. -/
def CTxOut.Storable (out : CTxOut) : Prop :=
  moneyRange out.nValue = true ∧ out.scriptPubKey.length ≤ 10000

theorem toNat_toUInt64 {v : Int64} (h : 0 ≤ v.toInt) : (v.toUInt64.toNat : Int) = v.toInt := by
  have hbits : v.toInt = if 2 * v.toUInt64.toNat < 2 ^ 64 then (v.toUInt64.toNat : Int)
      else v.toUInt64.toNat - (2 ^ 64 : Nat) := BitVec.toInt_eq_toNat_cond v.toBitVec
  have hlt := v.toUInt64.toNat_lt
  split at hbits
  · exact hbits.symm
  · omega

theorem recovers_txOut :
    Recovers (unserTxOutCompressed P) CTxOut.Storable (serTxOutCompressed P) := by
  intro out rest hout
  obtain ⟨hmoney, hscript⟩ := hout
  obtain ⟨hlow, hhigh⟩ := toInt_of_moneyRange hmoney
  -- an amount that is not negative is the same number without a sign
  have hnat := toNat_toUInt64 hlow
  obtain ⟨hback, hcode⟩ := decompressAmount_compressAmount
    (show out.nValue.toUInt64.toNat ≤ 2100000000000000 by omega)
  unfold serTxOutCompressed unserTxOutCompressed
  rw [List.append_assoc, (recovers_varInt (by decide)).bind_eq hcode,
    (recovers_script P).bind_eq hscript, hback, UInt64.ofNat_toNat, Int64.toInt64_toUInt64]
  rfl

theorem code_lt (c : Coin) : c.code < 2 ^ 32 := by
  have hheight := c.nHeight.isLt
  have hflag := c.fCoinBase.toNat_le
  unfold Coin.code
  omega

theorem code_height (c : Coin) : BitVec.ofNat 31 (c.code / 2) = c.nHeight := by
  have hflag := c.fCoinBase.toNat_le
  have hhalf : c.code / 2 = c.nHeight.toNat := by
    unfold Coin.code
    omega
  rw [hhalf, BitVec.ofNat_toNat, BitVec.setWidth_eq]

theorem code_coinBase (c : Coin) : decide (c.code % 2 = 1) = c.fCoinBase := by
  have hrest : c.code % 2 = c.fCoinBase.toNat := by
    have hflag := c.fCoinBase.toNat_le
    unfold Coin.code
    omega
  rw [hrest]
  cases c.fCoinBase <;> rfl

theorem recovers_txInUndo : Recovers (unserTxInUndo P) (fun c => c.out.Storable) (serTxInUndo P) := by
  intro c rest hc
  unfold serTxInUndo unserTxInUndo
  rw [List.append_assoc, (recovers_varInt (by decide)).bind_eq (code_lt c), code_height]
  split
  · -- the dummy is the number 0
    have hdummy : ([0] : Data) = writeVarInt 32 0 := rfl
    rw [hdummy, List.append_assoc, (recovers_varInt (by decide)).bind_eq (by decide),
      (recovers_txOut P).bind_eq hc, code_coinBase]
    rfl
  · rw [List.nil_append, (recovers_txOut P).bind_eq hc, code_coinBase]
    rfl

/-! ## 5. The undo data of a block -/

/-- `VectorFormatter::Ser`, in one piece. -/
def serVectorFlat {α : Type} (ser : α → Data) (v : List α) : Data :=
  (writeCompactSize v.length).flatten ++ v.flatMap ser

theorem recovers_vector {α : Type} (e : ElementSize) {unser : Parse UInt8 α} {valid : α → Prop}
    {ser : α → Data} (h : Recovers unser valid ser) :
    Recovers (unserVector e unser) (fun v => v.length ≤ maxSize ∧ ∀ a ∈ v, valid a)
      (serVectorFlat ser) := by
  intro v rest hv
  unfold unserVector serVectorFlat
  rw [List.append_assoc, codes_compactSize.inverts.recovers.bind_eq hv.1,
    batches_eq e.batch_pos (Nat.le_refl _)]
  exact h.many v hv.2 rest

/-- `sizeof(Coin)` and `sizeof(CTxUndo)`. -/
structure UndoAbi where
  coin : ElementSize
  txUndo : ElementSize

/-- 64-bit pointers. -/
def UndoAbi.lp64 : UndoAbi := ⟨⟨56, by decide, by decide⟩, Abi.lp64.byteVector⟩

/-- `CBlockUndo`, whose elements are `CTxUndo`. -/
def serBlockUndo (undo : CBlockUndo) : Data := serVectorFlat (serVectorFlat (serTxInUndo P)) undo

def unserBlockUndo (U : UndoAbi) : Parse UInt8 CBlockUndo :=
  unserVector U.txUndo (unserVector U.coin (unserTxInUndo P))

/-- What the format can hold. -/
def CBlockUndo.Storable (undo : CBlockUndo) : Prop :=
  undo.length ≤ maxSize ∧ ∀ txundo ∈ undo, txundo.length ≤ maxSize ∧ ∀ c ∈ txundo, c.out.Storable

theorem recovers_blockUndo (U : UndoAbi) :
    Recovers (unserBlockUndo P U) CBlockUndo.Storable (serBlockUndo P) :=
  recovers_vector U.txUndo (recovers_vector U.coin (recovers_txInUndo P))

/-! ## 6. The undo files -/

/-- The undo files and the block index, as far as undo data is concerned. A file is what is in it up
    to `nUndoSize`; an entry of the index has a file and a position once it has undo data. -/
structure UndoFiles where
  files : Nat → Data
  undoPos : BlockIndex → Option (Nat × Nat)

/-- Before anything is written. -/
def UndoFiles.empty : UndoFiles := ⟨fun _ => [], fun _ => none⟩

/-- What the functions read of the rest of the program: the magic bytes, the file of a block, the
    hash of its parent. -/
structure UndoContext where
  messageStart : Data
  messageStart_length : messageStart.length = 4
  nFile : BlockIndex → Nat
  prevHash : BlockIndex → Hash
  sha256d : Data → Hash

variable (K : UndoContext)

/-- The checksum: of the parent's hash and the undo data. -/
def undoChecksum (x : BlockIndex) (bytes : Data) : Hash := K.sha256d ((K.prevHash x).val ++ bytes)

/-- `WriteBlockUndo`: nothing where the block has undo data. `FindUndoPos` gives the end of the
    file, and the position that is kept is after the header. -/
def writeBlockUndo (x : BlockIndex) (undo : CBlockUndo) (st : UndoFiles) : UndoFiles :=
  match st.undoPos x with
  | some _ => st
  | none =>
    let bytes := serBlockUndo P undo
    let file := st.files (K.nFile x)
    { files := Function.update st.files (K.nFile x)
        (file ++ (K.messageStart ++ toLittleEndian 4 bytes.length) ++
          (bytes ++ (undoChecksum K x bytes).val))
      undoPos := Function.update st.undoPos x (some (K.nFile x, file.length + 8)) }

/-- `ReadBlockUndo`. What `HashVerifier` hashes is what has been read. -/
def readBlockUndo (U : UndoAbi) (x : BlockIndex) (st : UndoFiles) : Option CBlockUndo :=
  match st.undoPos x with
  | none => none
  | some (nFile, nPos) =>
    let filein := (st.files nFile).drop nPos
    match unserBlockUndo P U filein with
    | none => none
    | some (blockundo, rest) =>
      match uint256 rest with
      | none => none
      | some (hashChecksum, _) =>
        if hashChecksum ≠ undoChecksum K x (filein.take (filein.length - rest.length)) then none
        else some blockundo

/-- `x` has the undo data `undo`: its record is at its position, whatever follows. -/
def UndoFiles.Holds (st : UndoFiles) (x : BlockIndex) (undo : CBlockUndo) : Prop :=
  ∃ nFile nPos rest, st.undoPos x = some (nFile, nPos) ∧ nPos ≤ (st.files nFile).length ∧
    (st.files nFile).drop nPos =
      serBlockUndo P undo ++ ((undoChecksum K x (serBlockUndo P undo)).val ++ rest)

section Store

variable {P K} {st : UndoFiles} {x y : BlockIndex} {undo undo' : CBlockUndo}

/-- **What is held is read.** -/
theorem readBlockUndo_of_holds (U : UndoAbi) (h : st.Holds P K x undo) (hundo : undo.Storable) :
    readBlockUndo P K U x st = some undo := by
  obtain ⟨nFile, nPos, rest, hpos, -, hfile⟩ := h
  have htake : (serBlockUndo P undo ++ ((undoChecksum K x (serBlockUndo P undo)).val ++ rest)).take
      ((serBlockUndo P undo ++ ((undoChecksum K x (serBlockUndo P undo)).val ++ rest)).length -
        ((undoChecksum K x (serBlockUndo P undo)).val ++ rest).length) = serBlockUndo P undo := by
    rw [List.length_append, Nat.add_sub_cancel]
    exact List.take_left' rfl
  have hchecksum : uint256 ((undoChecksum K x (serBlockUndo P undo)).val ++ rest) =
      some (undoChecksum K x (serBlockUndo P undo), rest) := by
    have hread := codes_uint256.inverts.read_write (a := undoChecksum K x (serBlockUndo P undo))
      trivial rest
    rwa [show (serUInt256 (undoChecksum K x (serBlockUndo P undo))).flatten =
      (undoChecksum K x (serBlockUndo P undo)).val from List.append_nil _] at hread
  unfold readBlockUndo
  rw [hpos]
  dsimp only
  rw [hfile, recovers_blockUndo P U undo _ hundo]
  dsimp only
  rw [hchecksum]
  dsimp only
  rw [htake, if_neg (not_not.2 rfl)]

/-- A file that has grown holds what it held. -/
theorem UndoFiles.Holds.mono {st' : UndoFiles} (h : st.Holds P K x undo)
    (hpos : st'.undoPos x = st.undoPos x)
    (hfiles : ∀ n, ∃ more, st'.files n = st.files n ++ more) : st'.Holds P K x undo := by
  obtain ⟨nFile, nPos, rest, hx, hle, hfile⟩ := h
  obtain ⟨more, hmore⟩ := hfiles nFile
  refine ⟨nFile, nPos, rest ++ more, hpos.trans hx, ?_, ?_⟩
  · rw [hmore, List.length_append]
    omega
  · rw [hmore, List.drop_append_of_le_length hle, hfile]
    simp only [List.append_assoc]

theorem writeBlockUndo_files (x : BlockIndex) (undo : CBlockUndo) (st : UndoFiles) (n : Nat) :
    ∃ more, (writeBlockUndo P K x undo st).files n = st.files n ++ more := by
  unfold writeBlockUndo
  split
  · exact ⟨[], (List.append_nil _).symm⟩
  · by_cases hn : n = K.nFile x
    · subst hn
      exact ⟨_, (Function.update_self ..).trans (List.append_assoc ..)⟩
    · exact ⟨[], (Function.update_of_ne hn ..).trans (List.append_nil _).symm⟩

theorem writeBlockUndo_pos_of_ne (hne : y ≠ x) (undo : CBlockUndo) (st : UndoFiles) :
    (writeBlockUndo P K x undo st).undoPos y = st.undoPos y := by
  unfold writeBlockUndo
  split
  · rfl
  · exact Function.update_of_ne hne ..

theorem writeBlockUndo_of_some {pos : Nat × Nat} (h : st.undoPos x = some pos) :
    writeBlockUndo P K x undo st = st := by
  unfold writeBlockUndo
  rw [h]

/-- **A write leaves what other blocks have.** -/
theorem UndoFiles.Holds.write (h : st.Holds P K x undo) (y : BlockIndex) (undo' : CBlockUndo) :
    (writeBlockUndo P K y undo' st).Holds P K x undo := by
  refine h.mono ?_ (writeBlockUndo_files y undo' st)
  by_cases hxy : x = y
  · obtain ⟨nFile, nPos, rest, hpos, -⟩ := h
    subst hxy
    rw [writeBlockUndo_of_some hpos]
  · exact writeBlockUndo_pos_of_ne hxy undo' st

/-- **A first write is held.** -/
theorem writeBlockUndo_holds (h : st.undoPos x = none) :
    (writeBlockUndo P K x undo st).Holds P K x undo := by
  have hheader : (K.messageStart ++ toLittleEndian 4 (serBlockUndo P undo).length).length = 8 := by
    rw [List.length_append, K.messageStart_length, toLittleEndian_length]
  unfold writeBlockUndo
  rw [h]
  refine ⟨K.nFile x, (st.files (K.nFile x)).length + 8, [], Function.update_self .., ?_, ?_⟩
  · dsimp only
    rw [Function.update_self, List.length_append, List.length_append, hheader]
    omega
  · dsimp only
    rw [Function.update_self, List.append_nil]
    exact List.drop_left' (by rw [List.length_append, hheader])

end Store

/-- No key is valid. -/
def noKeys : PubKeys := ⟨fun _ => false, fun _ => none, fun _ _ _ _ h => by cases h⟩

end SwiftBitcoinKernel
