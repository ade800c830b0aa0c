/-
  File:      SwiftBitcoinKernel/Kernel/ConnectBlock.lean
  Subject:   `ConnectBlock`: the coins a block spends and those it makes.

  It works on a cache over the tip's coins. The checks that make a block's spends and amounts right
  are here as tx_check.cpp, tx_verify.cpp and validation.cpp have them; what the scripts, the
  sequence locks, the counts of signature operations and the header checks say is left open
  (`BlockContext`). Scripts are checked as they are reached, without the check queue's threads.

  * `checkTransaction`, `checkBlock`, `checkTxInputs`, `getValueOut`, `getBlockSubsidy`;
  * `updateCoins`, `connectBlock` -- with the undo data it makes;
  * `Moved` -- what a function does to the coins of the view it is given, and to nothing else;
  * `Since` -- no transaction is in a block twice, as the inputs of the first are gone;
  * `connectBlock_spec` -- what a block that connects has done, on plain maps.
-/
import SwiftBitcoinKernel.Kernel.Bytes
import SwiftBitcoinKernel.Kernel.Coins
import SwiftBitcoinKernel.Logic.Relating

namespace SwiftBitcoinKernel

open Logic SwiftBitcoinKernel.Core

/-! ## 1. Amounts -/

/-- `MAX_MONEY`. -/
def maxMoney : Int64 := 2100000000000000

/-- `MoneyRange`. -/
def moneyRange (nValue : Int64) : Bool := decide (0 ≤ nValue) && decide (nValue ≤ maxMoney)

/-- `CTransaction::GetValueOut`, from a sum so far: `none` where it throws. -/
def getValueOut : List CTxOut → Int64 → Option Int64
  | [], nValueOut => some nValueOut
  | out :: vout, nValueOut =>
    if !moneyRange out.nValue || !moneyRange (nValueOut + out.nValue) then none
    else getValueOut vout (nValueOut + out.nValue)

/-- `GetBlockSubsidy`. -/
def getBlockSubsidy (nSubsidyHalvingInterval nHeight : Nat) : Int64 :=
  let halvings := nHeight / nSubsidyHalvingInterval
  if halvings ≥ 64 then 0 else Int64.ofNat (5000000000 >>> halvings)

/-! ## 2. Checks without context -/

/-- `COutPoint::IsNull`. -/
def COutPoint.isNull (o : COutPoint) : Bool := decide (o.hash = .null ∧ o.n = 0xFFFFFFFF)

/-- `CTransaction::IsCoinBase`. -/
def CTransaction.isCoinBase (tx : CTransaction) : Bool :=
  match tx.vin with
  | [i] => i.prevout.isNull
  | _ => false

/-- The loop over the outputs of `CheckTransaction`. -/
def checkOutputs : List CTxOut → Int64 → Option String
  | [], _ => none
  | out :: vout, nValueOut =>
    if out.nValue < 0 then some "bad-txns-vout-negative"
    else if out.nValue > maxMoney then some "bad-txns-vout-toolarge"
    else if !moneyRange (nValueOut + out.nValue) then some "bad-txns-txouttotal-toolarge"
    else checkOutputs vout (nValueOut + out.nValue)

/-- `CheckTransaction`: the reason to reject, or `none`. -/
def checkTransaction (tx : CTransaction) : Option String :=
  if tx.vin.isEmpty then some "bad-txns-vin-empty"
  else if tx.vout.isEmpty then some "bad-txns-vout-empty"
  else if (serializeTransaction false tx).flatten.length * 4 > 4000000 then
    some "bad-txns-oversize"
  else
    match checkOutputs tx.vout 0 with
    | some reason => some reason
    | none =>
      if ¬(tx.vin.map CTxIn.prevout).Nodup then some "bad-txns-inputs-duplicate"
      else if tx.isCoinBase then
        if tx.vin.any fun i => i.scriptSig.length < 2 || i.scriptSig.length > 100 then
          some "bad-cb-length"
        else none
      else if tx.vin.any fun i => i.prevout.isNull then some "bad-txns-prevout-null"
      else none

/-- What `ConnectBlock` reads of the block's index entry and of the chain's parameters, and the
    answers of the rules that are left open. They are given the coins that a transaction spends. -/
structure BlockContext where
  nHeight : Nat
  hashPrevBlock : Hash
  sha256d : Data → Hash
  nSubsidyHalvingInterval : Nat
  enforceBIP30 : Bool
  scriptChecks : Bool
  checkHeader : CBlock → Option String
  legacySigOps : CTransaction → Nat
  sequenceLocks : CTransaction → List Nat → Bool
  sigOpCost : CTransaction → List (Option UnspentCoin) → Nat
  inputScripts : CTransaction → List (Option UnspentCoin) → Option String

variable (B : BlockContext)

/-- `CheckBlock`. `checkHeader` is `CheckBlockHeader`, the signet solution and the Merkle root. -/
def checkBlock (block : CBlock) : Option String :=
  match B.checkHeader block with
  | some reason => some reason
  | none =>
    if block.vtx.isEmpty || decide (block.vtx.length * 4 > 4000000) ||
        decide ((serHeader block.header ++
          serVector (serializeTransaction false) block.vtx).flatten.length * 4 > 4000000) then
      some "bad-blk-length"
    else if !(block.vtx.head?.any CTransaction.isCoinBase) then some "bad-cb-missing"
    else if block.vtx.tail.any CTransaction.isCoinBase then some "bad-cb-multiple"
    else
      match block.vtx.findSome? checkTransaction with
      | some reason => some reason
      | none =>
        if (block.vtx.map B.legacySigOps).sum * 4 > 80000 then some "bad-blk-sigops" else none

/-! ## 3. Inputs -/

/-- How `ConnectBlock` and `DisconnectBlock` end without a result. -/
inductive ConnectError where
  /-- `state.Invalid`, with the reject reason. -/
  | invalid (reason : String)
  /-- Stopped by one of the functions on coins. -/
  | coins (error : CoinsError)
  /-- An assertion of the function itself. -/
  | assertion
  /-- `GetValueOut` throws. -/
  | valueOutOfRange
  deriving DecidableEq, Repr

/-- `HaveInputs`. -/
def haveInputs : List CTxIn → CoinsStack → Bool × CoinsStack
  | [], s => (true, s)
  | i :: vin, s =>
    match s.getCoin i.prevout with
    | (some _, s) => haveInputs vin s
    | (none, s) => (false, s)

/-- The loop over the inputs of `CheckTxInputs`. -/
def sumInputs (nSpendHeight : Nat) :
    List CTxIn → Int64 → CoinsStack → Except ConnectError (Int64 × CoinsStack)
  | [], nValueIn, s => .ok (nValueIn, s)
  | i :: vin, nValueIn, s =>
    match s.getCoin i.prevout with
    | (none, _) => .error .assertion
    | (some coin, s) =>
      if coin.val.fCoinBase ∧ (nSpendHeight : Int) - coin.val.nHeight.toNat < 100 then
        .error (.invalid "bad-txns-premature-spend-of-coinbase")
      else if !moneyRange coin.val.out.nValue || !moneyRange (nValueIn + coin.val.out.nValue) then
        .error (.invalid "bad-txns-inputvalues-outofrange")
      else sumInputs nSpendHeight vin (nValueIn + coin.val.out.nValue) s

/-- `CheckTxInputs`: the fee. -/
def checkTxInputs (tx : CTransaction) (nSpendHeight : Nat) (s : CoinsStack) :
    Except ConnectError (Int64 × CoinsStack) :=
  match haveInputs tx.vin s with
  | (false, _) => .error (.invalid "bad-txns-inputs-missingorspent")
  | (true, s) => do
    let (nValueIn, s) ← sumInputs nSpendHeight tx.vin 0 s
    match getValueOut tx.vout 0 with
    | none => .error .valueOutOfRange
    | some valueOut =>
      if nValueIn < valueOut then .error (.invalid "bad-txns-in-belowout")
      else if !moneyRange (nValueIn - valueOut) then .error (.invalid "bad-txns-fee-outofrange")
      else .ok (nValueIn - valueOut, s)

/-- `AccessCoin` on every input. -/
def accessCoins : List CTxIn → CoinsStack → List (Option UnspentCoin) × CoinsStack
  | [], s => ([], s)
  | i :: vin, s =>
    let r := s.getCoin i.prevout
    let rest := accessCoins vin r.2
    (r.1 :: rest.1, rest.2)

/-! ## 4. Connecting -/

/-- A null coin. -/
def Coin.null : Coin := ⟨⟨-1, []⟩, false, 0⟩

/-- `CTxUndo`, by `vprevout`. -/
abbrev CTxUndo := List Coin

/-- `CBlockUndo`, by `vtxundo`. -/
abbrev CBlockUndo := List CTxUndo

/-- The loop over the inputs of `UpdateCoins`. -/
def spendInputs : List CTxIn → CoinsStack → Except ConnectError (CTxUndo × CoinsStack)
  | [], s => .ok ([], s)
  | i :: vin, s =>
    match s.spendCoin i.prevout with
    | (none, _) => .error .assertion
    | (some moved, s) => do
      let (vprevout, s) ← spendInputs vin s
      return (moved.elim .null Subtype.val :: vprevout, s)

/-- `Coin(tx.vout[i], nHeight, fCoinbase)`. -/
def Coin.make (out : CTxOut) (nHeight : Nat) (fCoinbase : Bool) : Coin :=
  ⟨out, fCoinbase, BitVec.ofNat 31 nHeight⟩

/-- `AddCoins` without `check_for_overwrite`, from output `i` on. -/
def addCoins (txid : Hash) (nHeight : Nat) (fCoinbase : Bool) :
    Nat → List CTxOut → CoinsStack → Except ConnectError CoinsStack
  | _, [], s => .ok s
  | i, out :: vout, s =>
    match s.addCoin ⟨txid, UInt32.ofNat i⟩ (.make out nHeight fCoinbase) fCoinbase with
    | .error e => .error (.coins e)
    | .ok s => addCoins txid nHeight fCoinbase (i + 1) vout s

/-- `UpdateCoins`. -/
def updateCoins (tx : CTransaction) (s : CoinsStack) : Except ConnectError (CTxUndo × CoinsStack) := do
  let (txundo, s) ← (if tx.isCoinBase then .ok ([], s) else spendInputs tx.vin s)
  let s ← addCoins (tx.txid B.sha256d) B.nHeight tx.isCoinBase 0 tx.vout s
  return (txundo, s)

/-- The BIP30 loop over the outputs of a transaction: whether none is there. -/
def noneThere (txid : Hash) : Nat → List CTxOut → CoinsStack → Bool × CoinsStack
  | _, [], s => (true, s)
  | i, _ :: vout, s =>
    let r := s.getCoin ⟨txid, UInt32.ofNat i⟩
    let rest := noneThere txid (i + 1) vout r.2
    (r.1.isNone && rest.1, rest.2)

/-- And over the transactions. -/
def noOverwrite : List CTransaction → CoinsStack → Bool × CoinsStack
  | [], s => (true, s)
  | tx :: vtx, s =>
    let r := noneThere (tx.txid B.sha256d) 0 tx.vout s
    let rest := noOverwrite vtx r.2
    (r.1 && rest.1, rest.2)

/-- BIP30, where it is enforced. -/
def checkBIP30 (block : CBlock) (s : CoinsStack) : Bool × CoinsStack :=
  if B.enforceBIP30 then noOverwrite B block.vtx s else (true, s)

/-- The sums kept over the transactions of a block. -/
structure Tally where
  nFees : Int64
  nSigOpsCost : Nat
  deriving DecidableEq, Repr

/-- What is asked of a transaction that is not a coinbase, before its scripts: the fees so far. -/
def checkSpend (tx : CTransaction) (nFees : Int64) (s : CoinsStack) :
    Except ConnectError (Int64 × CoinsStack) := do
  let (txfee, s) ← checkTxInputs tx B.nHeight s
  if !moneyRange (nFees + txfee) then .error (.invalid "bad-txns-accumulated-fee-outofrange")
  else
    let (coins, s) := accessCoins tx.vin s
    if !B.sequenceLocks tx (coins.map fun c => c.elim 0 fun c => c.val.nHeight.toNat) then
      .error (.invalid "bad-txns-nonfinal")
    else .ok (nFees + txfee, s)

/-- One round of the loop of `ConnectBlock`. -/
def connectTx (tx : CTransaction) (t : Tally) (s : CoinsStack) :
    Except ConnectError (CTxUndo × Tally × CoinsStack) := do
  let (nFees, s) ← (if tx.isCoinBase then .ok (t.nFees, s) else checkSpend B tx t.nFees s)
  let (coins, s) := accessCoins tx.vin s
  let nSigOpsCost := t.nSigOpsCost + B.sigOpCost tx coins
  if nSigOpsCost > 80000 then .error (.invalid "bad-blk-sigops")
  else
    match if !tx.isCoinBase && B.scriptChecks then B.inputScripts tx coins else none with
    | some reason => .error (.invalid reason)
    | none => do
      let (txundo, s) ← updateCoins B tx s
      return (txundo, ⟨nFees, nSigOpsCost⟩, s)

/-- The loop, with the undo data of each transaction. -/
def connectTxs : List CTransaction → Tally → CoinsStack →
    Except ConnectError (List CTxUndo × Tally × CoinsStack)
  | [], t, s => .ok ([], t, s)
  | tx :: vtx, t, s => do
    let (txundo, t, s) ← connectTx B tx t s
    let (rest, t, s) ← connectTxs vtx t s
    return (txundo :: rest, t, s)

/-- `CoinsStack` with `GetBestBlock` called. -/
def CoinsStack.bestBlock (s : CoinsStack) : Hash × CoinsStack :=
  if s.cache.hashBlock = .null then
    let r := s.base.getBestBlock
    (r.1, ⟨{ s.cache with hashBlock := r.1 }, r.2⟩)
  else (s.cache.hashBlock, s)

/-- `SetBestBlock`. -/
def CoinsStack.setBestBlock (s : CoinsStack) (hashBlock : Hash) : CoinsStack :=
  { s with cache.hashBlock := hashBlock }

/-- `ConnectBlock`, of a block that is not the genesis block: the undo data of all transactions but
    the first, whose undo data is a dummy. -/
def connectBlock (block : CBlock) (s : CoinsStack) :
    Except ConnectError (CBlockUndo × CoinsStack) :=
  match checkBlock B block with
  | some reason => .error (.invalid reason)
  | none =>
    let best := s.bestBlock
    if best.1 ≠ B.hashPrevBlock then .error .assertion
    else
      let bip30 := checkBIP30 B block best.2
      if !bip30.1 then .error (.invalid "bad-txns-BIP30")
      else do
        let (undo, t, s) ← connectTxs B block.vtx ⟨0, 0⟩ bip30.2
        match getValueOut (block.vtx.headD ⟨0, [], [], 0⟩).vout 0 with
        | none => .error .valueOutOfRange
        | some valueOut =>
          if valueOut > t.nFees + getBlockSubsidy B.nSubsidyHalvingInterval B.nHeight then
            .error (.invalid "bad-cb-amount")
          else .ok (undo.tail, s.setBestBlock (block.header.hash B.sha256d))

/-! ## 5. On plain maps -/

/-- A set of unspent outputs. -/
abbrev Utxo := COutPoint → Option UnspentCoin

/-- A coin, where it is not the null coin. -/
def Coin.unspent (c : Coin) : Option UnspentCoin :=
  if h : c.isSpent = false then some ⟨c, h⟩ else none

/-- What is true of every coin that a block has made: it could be spent, it has a height, and its
    amount is in range. -/
structure Coin.Sound (c : Coin) : Prop where
  spendable : isUnspendable c.out.scriptPubKey = false
  height : c.nHeight ≠ 0
  money : moneyRange c.out.nValue = true

/-- What `vprevout` has of a coin that was there, or not. -/
def undoCoin (c : Option UnspentCoin) : Coin := c.elim .null Subtype.val

namespace Utxo

/-- The inputs are spent. -/
def spendIns : List CTxIn → Utxo → Utxo
  | [], u => u
  | i :: vin, u => spendIns vin (Function.update u i.prevout none)

/-- The outputs from number `i` on are added. -/
def addOuts (txid : Hash) (nHeight : Nat) (fCoinbase : Bool) : Nat → List CTxOut → Utxo → Utxo
  | _, [], u => u
  | i, out :: vout, u =>
    addOuts txid nHeight fCoinbase (i + 1) vout
      (if isUnspendable out.scriptPubKey then u
        else Function.update u ⟨txid, UInt32.ofNat i⟩ (Coin.make out nHeight fCoinbase).unspent)

/-- A transaction is applied. -/
def applyTx (u : Utxo) (tx : CTransaction) : Utxo :=
  addOuts (tx.txid B.sha256d) B.nHeight tx.isCoinBase 0 tx.vout
    (if tx.isCoinBase then u else spendIns tx.vin u)

/-- The transactions of a block. -/
def applyTxs (u : Utxo) (vtx : List CTransaction) : Utxo := vtx.foldl (applyTx B) u

/-- The undo data of a transaction. -/
def txUndo (u : Utxo) (tx : CTransaction) : CTxUndo :=
  if tx.isCoinBase then [] else tx.vin.map fun i => undoCoin (u i.prevout)

/-- The undo data of transactions one after another. -/
def txUndos : Utxo → List CTransaction → List CTxUndo
  | _, [] => []
  | u, tx :: vtx => u.txUndo tx :: txUndos (applyTx B u tx) vtx

/-- Every coin is one that a block has made. -/
def Sound (u : Utxo) : Prop := ∀ o c, u o = some c → c.val.Sound

/-- No output of the transaction is there. -/
def Free (u : Utxo) (tx : CTransaction) : Prop :=
  ∀ i < tx.vout.length, u ⟨tx.txid B.sha256d, UInt32.ofNat i⟩ = none

end Utxo

/-- What `CheckTransaction` ensures of a transaction, as far as coins are concerned. -/
structure CTransaction.Checked (tx : CTransaction) : Prop where
  vin_ne : tx.vin ≠ []
  fewInputs : tx.vin.length ≤ 1000000
  fewOutputs : tx.vout.length ≤ 1000000
  values : ∀ out ∈ tx.vout, moneyRange out.nValue = true
  valueOut : ∃ valueOut, getValueOut tx.vout 0 = some valueOut
  inputs : (tx.vin.map CTxIn.prevout).Nodup

theorem toInt_of_moneyRange {v : Int64} (h : moneyRange v = true) :
    0 ≤ v.toInt ∧ v.toInt ≤ 2100000000000000 := by
  unfold moneyRange at h
  obtain ⟨hlow, hhigh⟩ := Bool.and_eq_true_iff.1 h
  exact ⟨Int64.le_iff_toInt_le.1 (of_decide_eq_true hlow),
    Int64.le_iff_toInt_le.1 (of_decide_eq_true hhigh)⟩

theorem outpoint_inj {txid : Hash} {i j : Nat} (hi : i < 2 ^ 32) (hj : j < 2 ^ 32)
    (h : (⟨txid, UInt32.ofNat i⟩ : COutPoint) = ⟨txid, UInt32.ofNat j⟩) : i = j := by
  have hn : UInt32.ofNat i = UInt32.ofNat j := congrArg COutPoint.n h
  have hnat := congrArg UInt32.toNat hn
  rwa [UInt32.toNat_ofNat_of_lt' hi, UInt32.toNat_ofNat_of_lt' hj] at hnat

theorem checkOutputs_none {vout : List CTxOut} {sum : Int64} (h : checkOutputs vout sum = none) :
    (∀ out ∈ vout, moneyRange out.nValue = true) ∧
      ∃ valueOut, getValueOut vout sum = some valueOut := by
  induction vout generalizing sum with
  | nil => exact ⟨fun _ h => absurd h List.not_mem_nil, sum, rfl⟩
  | cons out vout ih =>
    unfold checkOutputs at h
    split at h
    · cases h
    · rename_i hneg
      split at h
      · cases h
      · rename_i hlarge
        split at h
        · cases h
        · rename_i hsum
          have hnonneg : 0 ≤ out.nValue := Int64.not_lt.1 hneg
          have hrange : moneyRange out.nValue = true := by
            unfold moneyRange
            rw [decide_eq_true hnonneg, decide_eq_true (Int64.not_lt.1 hlarge)]
            rfl
          obtain ⟨hvalues, valueOut, hvalueOut⟩ := ih h
          refine ⟨List.forall_mem_cons.2 ⟨hrange, hvalues⟩, valueOut, ?_⟩
          unfold getValueOut
          rw [hrange, if_neg (by simpa using hsum)]
          exact hvalueOut

theorem length_le_flatten {α : Type} (ser : α → List Data) (hser : ∀ a, 0 < (ser a).flatten.length)
    (v : List α) : v.length ≤ (v.flatMap ser).flatten.length := by
  induction v with
  | nil => exact Nat.le_refl 0
  | cons a v ih =>
    have ha := hser a
    rw [List.flatMap_cons, List.flatten_append, List.length_append, List.length_cons]
    omega

theorem checkTransaction_none {tx : CTransaction} (h : checkTransaction tx = none) : tx.Checked := by
  unfold checkTransaction at h
  split at h
  · cases h
  · rename_i hvin
    split at h
    · cases h
    · split at h
      · cases h
      · rename_i hsize
        split at h
        · cases h
        · rename_i houtputs
          split at h
          · cases h
          · rename_i hnodup
            obtain ⟨hvalues, hvalueOut⟩ := checkOutputs_none houtputs
            have hins := length_le_flatten serTxIn (fun i => by
              unfold serTxIn serOutPoint serUInt256
              rw [List.flatten_append, List.length_append, List.flatten_append, List.length_append,
                List.flatten_singleton, i.prevout.hash.property]
              omega) tx.vin
            have houts := length_le_flatten serTxOut (fun o => by
              unfold serTxOut serInt64
              rw [List.flatten_append, List.length_append, List.flatten_singleton,
                Parse.toLittleEndian_length]
              omega) tx.vout
            have hle : (tx.vin.flatMap serTxIn).flatten.length +
                (tx.vout.flatMap serTxOut).flatten.length ≤
                (serializeTransaction false tx).flatten.length := by
              unfold serializeTransaction serVector
              simp only [List.flatten_append, List.length_append]
              omega
            exact ⟨fun hnil => hvin (List.isEmpty_iff.2 hnil), by omega, by omega, hvalues, hvalueOut,
              not_not.1 hnodup⟩

namespace Utxo

variable {txid : Hash} {nHeight : Nat} {fCoinbase : Bool} {u : Utxo} {o : COutPoint}

/-- Only the outputs themselves are made. -/
theorem addOuts_of_ne {i : Nat} {vout : List CTxOut}
    (h : ∀ j < vout.length, o ≠ ⟨txid, UInt32.ofNat (i + j)⟩) (u : Utxo) :
    addOuts txid nHeight fCoinbase i vout u o = u o := by
  induction vout generalizing i u with
  | nil => rfl
  | cons out vout ih =>
    unfold addOuts
    rw [ih fun j hj => ?_]
    · split
      · rfl
      · exact Function.update_of_ne (h 0 (Nat.zero_lt_succ _)) ..
    · have hnext := h (j + 1) (Nat.succ_lt_succ hj)
      rwa [Nat.add_comm j, ← Nat.add_assoc] at hnext

/-- A change of an earlier output can be made before or after. -/
theorem addOuts_update {i j : Nat} {vout : List CTxOut} (hij : i < j)
    (hsize : j + vout.length ≤ 2 ^ 32) (u : Utxo) (c : Option UnspentCoin) :
    addOuts txid nHeight fCoinbase j vout (Function.update u ⟨txid, UInt32.ofNat i⟩ c) =
      Function.update (addOuts txid nHeight fCoinbase j vout u) ⟨txid, UInt32.ofNat i⟩ c := by
  induction vout generalizing j u with
  | nil => rfl
  | cons out vout ih =>
    rw [List.length_cons] at hsize
    unfold addOuts
    split
    · exact ih (by omega) (by omega) u
    · have hne : (⟨txid, UInt32.ofNat i⟩ : COutPoint) ≠ ⟨txid, UInt32.ofNat j⟩ := fun heq => by
        have := outpoint_inj (by omega) (by omega) heq
        omega
      rw [Function.update_comm hne, ih (by omega) (by omega)]

theorem spendIns_none (h : u o = none) (vin : List CTxIn) : spendIns vin u o = none := by
  induction vin generalizing u with
  | nil => exact h
  | cons i vin ih =>
    refine ih ?_
    by_cases ho : o = i.prevout
    · rw [ho, Function.update_self]
    · rw [Function.update_of_ne ho]
      exact h

/-- What is spent is gone. -/
theorem spendIns_self {vin : List CTxIn} {i : CTxIn} (h : i ∈ vin) (u : Utxo) :
    spendIns vin u i.prevout = none := by
  induction vin generalizing u with
  | nil => cases h
  | cons j vin ih =>
    cases h with
    | head => exact spendIns_none (Function.update_self ..) vin
    | tail _ h => exact ih h _

theorem sound_update (h : u.Sound) {c : Option UnspentCoin}
    (hc : ∀ c', c = some c' → c'.val.Sound) :
    Sound (Function.update u o c) := by
  intro o' c' ho'
  by_cases heq : o' = o
  · rw [heq, Function.update_self] at ho'
    exact hc c' ho'
  · rw [Function.update_of_ne heq] at ho'
    exact h o' c' ho'

theorem sound_spendIns (h : u.Sound) (vin : List CTxIn) : Sound (spendIns vin u) := by
  induction vin generalizing u with
  | nil => exact h
  | cons i vin ih => exact ih (sound_update h fun _ hc => by cases hc)

theorem sound_addOuts (hheight : BitVec.ofNat 31 nHeight ≠ 0) (h : u.Sound) (i : Nat)
    {vout : List CTxOut} (hvalues : ∀ out ∈ vout, moneyRange out.nValue = true) :
    Sound (addOuts txid nHeight fCoinbase i vout u) := by
  induction vout generalizing i u with
  | nil => exact h
  | cons out vout ih =>
    obtain ⟨hvalue, hvalues⟩ := List.forall_mem_cons.1 hvalues
    unfold addOuts
    refine ih ?_ _ hvalues
    split
    · exact h
    · rename_i hspendable
      refine sound_update h fun c hc => ?_
      unfold Coin.unspent at hc
      split at hc
      · cases hc
        exact ⟨Bool.not_eq_true _ ▸ hspendable, hheight, hvalue⟩
      · cases hc

theorem sound_applyTx (hheight : BitVec.ofNat 31 B.nHeight ≠ 0) (h : u.Sound) {tx : CTransaction}
    (hchecked : tx.Checked) : Sound (applyTx B u tx) := by
  refine sound_addOuts hheight ?_ 0 hchecked.values
  split
  · exact h
  · exact sound_spendIns h tx.vin

end Utxo

/-! ## 6. What the functions do to a view -/

/-- The coins that a view stands for. -/
abbrev CoinsStack.utxo (s : CoinsStack) : Utxo := s.view.peekCoin

/-- **`s` has become `s'`**: the coins of the view are `u`, and everything else stands for what it
    stood for. -/
structure Moved (s s' : CoinsStack) (u : Utxo) : Prop where
  valid : s'.view.Valid
  levels : s'.view.levels = ⟨u, s.cache.hashBlock⟩ :: s.base.levels

section Moves

variable {s s' s'' : CoinsStack} {u u' : Utxo} {o : COutPoint}

theorem Moved.refl (h : s.view.Valid) : Moved s s s.utxo := ⟨h, rfl⟩

theorem Moved.of_eq (h : s.view.Valid) (hutxo : s.utxo = u) : Moved s s u := hutxo ▸ .refl h

theorem Moved.peek (h : Moved s s' u) : s'.utxo = u :=
  congrArg Level.coins (List.cons.inj h.levels).1

theorem Moved.hashBlock (h : Moved s s' u) : s'.cache.hashBlock = s.cache.hashBlock :=
  congrArg Level.hashBlock (List.cons.inj h.levels).1

theorem Moved.base (h : Moved s s' u) : s'.base.levels = s.base.levels := (List.cons.inj h.levels).2

theorem Moved.trans (h : Moved s s' u) (h' : Moved s' s'' u') : Moved s s'' u' :=
  ⟨h'.valid, by rw [h'.levels, h.hashBlock, h.base]⟩

theorem getCoin_moved (h : s.view.Valid) (o : COutPoint) :
    ∃ s', s.getCoin o = (s.utxo o, s') ∧ Moved s s' s.utxo := by
  have hfetched := fetchCoin_spec h o
  exact ⟨(s.fetchCoin o).2, Prod.ext hfetched.value rfl, hfetched.valid, hfetched.levels⟩

theorem spendCoin_moved (h : s.view.Valid) {o : COutPoint} (ho : s.utxo o ≠ none) :
    ∃ s', s.spendCoin o = (some (s.utxo o), s') ∧
      Moved s s' (Function.update s.utxo o none) := by
  obtain ⟨hvalid, hlevels, hanswer, hsome⟩ := spendCoin_spec h o
  refine ⟨(s.spendCoin o).2, Prod.ext ?_ rfl, hvalid, hlevels⟩
  obtain ⟨c, hc⟩ := Option.isSome_iff_exists.1 (hsome ho)
  rw [hc, Option.getD_some] at hanswer
  rw [hc, hanswer]

theorem addCoin_moved (h : s.view.Valid) (o : COutPoint) {coin : Coin}
    (hcoin : coin.isSpent = false) (possibleOverwrite : Bool)
    (hnew : possibleOverwrite = false → s.utxo o = none) :
    ∃ s', s.addCoin o coin possibleOverwrite = .ok s' ∧
      Moved s s' (if isUnspendable coin.out.scriptPubKey then s.utxo
        else Function.update s.utxo o (some ⟨coin, hcoin⟩)) := by
  obtain ⟨s', hadd, hvalid, hlevels⟩ := addCoin_spec h o hcoin possibleOverwrite hnew
  exact ⟨s', hadd, hvalid, hlevels⟩

/-- `HaveInputs`. -/
theorem haveInputs_moved (h : s.view.Valid) (vin : List CTxIn) :
    Moved s (haveInputs vin s).2 s.utxo ∧
      ((haveInputs vin s).1 = true → ∀ i ∈ vin, s.utxo i.prevout ≠ none) := by
  induction vin generalizing s with
  | nil => exact ⟨.refl h, fun _ _ h => absurd h List.not_mem_nil⟩
  | cons i vin ih =>
    obtain ⟨s₁, hget, hmoved⟩ := getCoin_moved h i.prevout
    unfold haveInputs
    rw [hget]
    cases hcoin : s.utxo i.prevout with
    | none => exact ⟨hmoved, fun hfalse => (by cases hfalse)⟩
    | some coin =>
      obtain ⟨hrest, hall⟩ := ih hmoved.valid
      rw [hmoved.peek] at hrest hall
      refine ⟨hmoved.trans hrest, fun htrue => List.forall_mem_cons.2 ⟨?_, hall htrue⟩⟩
      rw [hcoin]
      exact Option.some_ne_none coin

theorem accessCoins_moved (h : s.view.Valid) (vin : List CTxIn) :
    Moved s (accessCoins vin s).2 s.utxo := by
  induction vin generalizing s with
  | nil => exact .refl h
  | cons i vin ih =>
    obtain ⟨s₁, hget, hmoved⟩ := getCoin_moved h i.prevout
    have hrest := ih hmoved.valid
    rw [hmoved.peek] at hrest
    show Moved s (accessCoins vin (s.getCoin i.prevout).2).2 _
    rw [hget]
    exact hmoved.trans hrest

/-- **The inputs are spent**, and what was there goes into the undo data. -/
theorem spendInputs_moved (h : s.view.Valid) {vin : List CTxIn}
    (hnodup : (vin.map CTxIn.prevout).Nodup)
    (hthere : ∀ i ∈ vin, s.utxo i.prevout ≠ none) :
    ∃ s', spendInputs vin s =
        .ok (vin.map fun i => undoCoin (s.utxo i.prevout), s') ∧
      Moved s s' (Utxo.spendIns vin s.utxo) := by
  induction vin generalizing s with
  | nil => exact ⟨s, rfl, .refl h⟩
  | cons i vin ih =>
    obtain ⟨hi, hnodup⟩ := List.nodup_cons.1 hnodup
    obtain ⟨hthere, hrest⟩ := List.forall_mem_cons.1 hthere
    obtain ⟨s₁, hspend, hmoved⟩ := spendCoin_moved h hthere
    -- the other inputs are other outpoints, and are still there
    have hother : ∀ j ∈ vin, s₁.utxo j.prevout = s.utxo j.prevout := by
      intro j hj
      rw [hmoved.peek]
      refine Function.update_of_ne (fun heq => hi ?_) ..
      exact heq ▸ List.mem_map_of_mem hj
    obtain ⟨s', hspends, hmoved'⟩ := ih hmoved.valid hnodup fun j hj => by
      rw [hother j hj]
      exact hrest j hj
    refine ⟨s', ?_, ?_⟩
    · unfold spendInputs
      rw [hspend]
      show (spendInputs vin s₁ >>= _) = _
      rw [hspends, List.map_congr_left fun j hj => congrArg undoCoin (hother j hj)]
      rfl
    · rw [hmoved.peek] at hmoved'
      exact hmoved.trans hmoved'

theorem isSpent_make {out : CTxOut} (nHeight : Nat) (fCoinbase : Bool)
    (h : moneyRange out.nValue = true) : (Coin.make out nHeight fCoinbase).isSpent = false := by
  refine decide_eq_false fun heq => ?_
  have hnonneg := (toInt_of_moneyRange h).1
  have hint : out.nValue.toInt = -1 := congrArg Int64.toInt heq
  omega

theorem unspent_make {out : CTxOut} (nHeight : Nat) (fCoinbase : Bool)
    (h : moneyRange out.nValue = true) : (Coin.make out nHeight fCoinbase).unspent =
      some ⟨Coin.make out nHeight fCoinbase, isSpent_make nHeight fCoinbase h⟩ :=
  dif_pos (isSpent_make nHeight fCoinbase h)

/-- **The outputs are added.** -/
theorem addCoins_moved (txid : Hash) (nHeight : Nat) {fCoinbase : Bool} (h : s.view.Valid)
    {vout : List CTxOut} {i : Nat} (hsize : i + vout.length ≤ 2 ^ 32)
    (hvalues : ∀ out ∈ vout, moneyRange out.nValue = true)
    (hfree : fCoinbase = false → ∀ j < vout.length,
      s.utxo ⟨txid, UInt32.ofNat (i + j)⟩ = none) :
    ∃ s', addCoins txid nHeight fCoinbase i vout s = .ok s' ∧
      Moved s s' (Utxo.addOuts txid nHeight fCoinbase i vout s.utxo) := by
  induction vout generalizing i s with
  | nil => exact ⟨s, rfl, .refl h⟩
  | cons out vout ih =>
    rw [List.length_cons] at hsize
    obtain ⟨hvalue, hvalues⟩ := List.forall_mem_cons.1 hvalues
    obtain ⟨s₁, hadd, hmoved⟩ := addCoin_moved h ⟨txid, UInt32.ofNat i⟩
      (isSpent_make nHeight fCoinbase hvalue) fCoinbase
      fun hno => hfree hno 0 (Nat.zero_lt_succ _)
    obtain ⟨s', hadds, hmoved'⟩ := ih hmoved.valid (i := i + 1) (by omega) hvalues
      fun hno j hj => by
        have hthere := hfree hno (j + 1) (by rw [List.length_cons]; omega)
        rw [hmoved.peek]
        have hindex : i + 1 + j = i + (j + 1) := by omega
        split
        · rw [hindex]
          exact hthere
        · rw [hindex, Function.update_of_ne fun heq => ?_]
          · exact hthere
          · have := outpoint_inj (by omega) (by omega) heq
            omega
    refine ⟨s', ?_, ?_⟩
    · unfold addCoins
      rw [hadd]
      exact hadds
    · rw [hmoved.peek] at hmoved'
      unfold Utxo.addOuts
      rw [unspent_make nHeight fCoinbase hvalue]
      exact hmoved.trans hmoved'

end Moves

/-! ## 7. Amounts, as integers -/

/-- Two amounts in range add up without wrapping around. -/
theorem toInt_add_of_moneyRange {a b : Int64} (ha : moneyRange a = true)
    (hb : moneyRange b = true) : (a + b).toInt = a.toInt + b.toInt := by
  obtain ⟨ha, ha'⟩ := toInt_of_moneyRange ha
  obtain ⟨hb, hb'⟩ := toInt_of_moneyRange hb
  rw [Int64.toInt_add, Int.bmod_eq_of_le (by omega) (by omega)]

theorem toInt_sub_of_moneyRange {a b : Int64} (ha : moneyRange a = true)
    (hb : moneyRange b = true) : (a - b).toInt = a.toInt - b.toInt := by
  obtain ⟨ha, ha'⟩ := toInt_of_moneyRange ha
  obtain ⟨hb, hb'⟩ := toInt_of_moneyRange hb
  rw [Int64.toInt_sub, Int.bmod_eq_of_le (by omega) (by omega)]

/-- What outputs are worth. -/
def valueOut (vout : List CTxOut) : Int := (vout.map fun out => out.nValue.toInt).sum

theorem getValueOut_eq {vout : List CTxOut} {sum total : Int64} (hsum : moneyRange sum = true)
    (h : getValueOut vout sum = some total) :
    total.toInt = sum.toInt + valueOut vout ∧ moneyRange total = true := by
  induction vout generalizing sum with
  | nil =>
    cases h
    exact ⟨(Int.add_zero _).symm, hsum⟩
  | cons out vout ih =>
    unfold getValueOut at h
    split at h
    · cases h
    · rename_i hrange
      obtain ⟨hout, hnext⟩ := Bool.or_eq_false_iff.1 (Bool.not_eq_true _ ▸ hrange)
      rw [Bool.not_eq_false'] at hout hnext
      obtain ⟨htotal, hin⟩ := ih hnext h
      refine ⟨?_, hin⟩
      rw [htotal, toInt_add_of_moneyRange hsum hout]
      unfold valueOut
      rw [List.map_cons, List.sum_cons]
      omega

namespace Utxo

variable (u : Utxo)

/-- What is at an outpoint is worth. -/
def value (o : COutPoint) : Int := (u o).elim 0 fun c => c.val.out.nValue.toInt

/-- What inputs are worth. -/
def valueIn (vin : List CTxIn) : Int := (vin.map fun i => u.value i.prevout).sum

/-- What a transaction leaves to the block's miner. -/
def fee (tx : CTransaction) : Int :=
  if tx.isCoinBase then 0 else u.valueIn tx.vin - valueOut tx.vout

/-- A coin that can be spent at a height: a coinbase's only 100 blocks later. -/
def Mature (nSpendHeight : Nat) (o : COutPoint) : Prop :=
  ∃ c, u o = some c ∧
    (c.val.fCoinBase = true → (100 : Int) ≤ nSpendHeight - c.val.nHeight.toNat)

end Utxo

/-! ## 8. What the checks have found -/

section Checks

variable {s s' : CoinsStack} {tx : CTransaction}

theorem sumInputs_moved {nSpendHeight : Nat} {vin : List CTxIn} {sum total : Int64}
    (h : s.view.Valid) (hsum : moneyRange sum = true)
    (hok : sumInputs nSpendHeight vin sum s = .ok (total, s')) :
    Moved s s' s.utxo ∧ (∀ i ∈ vin, s.utxo.Mature nSpendHeight i.prevout) ∧
      total.toInt = sum.toInt + s.utxo.valueIn vin ∧ moneyRange total = true := by
  induction vin generalizing s sum with
  | nil =>
    cases hok
    exact ⟨.refl h, fun _ h => absurd h List.not_mem_nil, (Int.add_zero _).symm, hsum⟩
  | cons i vin ih =>
    obtain ⟨s₁, hget, hmoved⟩ := getCoin_moved h i.prevout
    unfold sumInputs at hok
    rw [hget] at hok
    cases hcoin : s.utxo i.prevout with
    | none =>
      rw [hcoin] at hok
      cases hok
    | some coin =>
      rw [hcoin] at hok
      dsimp only at hok
      split at hok
      · cases hok
      · rename_i hmature
        split at hok
        · cases hok
        · rename_i hrange
          obtain ⟨hvalue, hnext⟩ := Bool.or_eq_false_iff.1 (Bool.not_eq_true _ ▸ hrange)
          rw [Bool.not_eq_false'] at hvalue hnext
          obtain ⟨hrest, hothers, htotal, hin⟩ := ih hmoved.valid hnext hok
          rw [hmoved.peek] at hrest hothers htotal
          refine ⟨hmoved.trans hrest, List.forall_mem_cons.2 ⟨⟨coin, hcoin, fun hcb => ?_⟩, hothers⟩,
            ?_, hin⟩
          · exact Int.not_lt.1 fun hlt => hmature ⟨hcb, hlt⟩
          · have hcons : s.utxo.valueIn (i :: vin) =
                coin.val.out.nValue.toInt + s.utxo.valueIn vin := by
              unfold Utxo.valueIn
              rw [List.map_cons, List.sum_cons]
              unfold Utxo.value
              rw [hcoin]
              rfl
            rw [htotal, hcons, toInt_add_of_moneyRange hsum hvalue]
            omega

/-- **`CheckTxInputs`**: every input is there and may be spent, and the fee is what they are worth
    more than the outputs. -/
theorem checkTxInputs_moved {nSpendHeight : Nat} {txfee : Int64} (h : s.view.Valid)
    (hok : checkTxInputs tx nSpendHeight s = .ok (txfee, s')) :
    Moved s s' s.utxo ∧ (∀ i ∈ tx.vin, s.utxo.Mature nSpendHeight i.prevout) ∧
      txfee.toInt = s.utxo.valueIn tx.vin - valueOut tx.vout ∧ moneyRange txfee = true := by
  obtain ⟨hmoved, -⟩ := haveInputs_moved h tx.vin
  unfold checkTxInputs at hok
  split at hok
  · cases hok
  · rename_i s₁ hhave
    rw [hhave] at hmoved
    obtain ⟨⟨nValueIn, s₂⟩, hsum, hok⟩ := of_except_bind hok
    dsimp only at hok
    obtain ⟨hmoved', hmature, hvalueIn, hrangeIn⟩ :=
      sumInputs_moved (hmoved.valid : s₁.view.Valid) (by decide) hsum
    rw [hmoved.peek] at hmoved' hmature hvalueIn
    split at hok
    · cases hok
    · rename_i valueOut hvalueOut
      obtain ⟨hout, hrangeOut⟩ := getValueOut_eq (by decide) hvalueOut
      split at hok
      · cases hok
      · split at hok
        · cases hok
        · rename_i hrange
          cases hok
          rw [Bool.not_eq_true, Bool.not_eq_false'] at hrange
          refine ⟨hmoved.trans hmoved', hmature, ?_, hrange⟩
          rw [toInt_sub_of_moneyRange hrangeIn hrangeOut, hvalueIn, hout]
          have hzero : (0 : Int64).toInt = 0 := rfl
          omega

theorem checkSpend_moved {nFees nFees' : Int64} (h : s.view.Valid)
    (hfees : moneyRange nFees = true) (hok : checkSpend B tx nFees s = .ok (nFees', s')) :
    Moved s s' s.utxo ∧ (∀ i ∈ tx.vin, s.utxo.Mature B.nHeight i.prevout) ∧
      0 ≤ s.utxo.valueIn tx.vin - valueOut tx.vout ∧
      nFees'.toInt = nFees.toInt + (s.utxo.valueIn tx.vin - valueOut tx.vout) ∧
      moneyRange nFees' = true := by
  obtain ⟨⟨txfee, s₁⟩, hcheck, hok⟩ := of_except_bind hok
  obtain ⟨hmoved, hmature, hfee, hrange⟩ := checkTxInputs_moved h hcheck
  dsimp only at hok
  split at hok
  · cases hok
  · rename_i hnext
    have haccess := accessCoins_moved hmoved.valid tx.vin
    rw [hmoved.peek] at haccess
    split at hok
    · cases hok
    · cases hok
      rw [Bool.not_eq_true, Bool.not_eq_false'] at hnext
      refine ⟨hmoved.trans haccess, hmature, ?_, ?_, hnext⟩
      · rw [← hfee]
        exact (toInt_of_moneyRange hrange).1
      · rw [toInt_add_of_moneyRange hfees hrange, hfee]

/-- **BIP30**: what it has asked for. -/
theorem noneThere_moved (txid : Hash) (h : s.view.Valid) (i : Nat) (vout : List CTxOut) :
    Moved s (noneThere txid i vout s).2 s.utxo ∧
      ((noneThere txid i vout s).1 = true →
        ∀ j < vout.length, s.utxo ⟨txid, UInt32.ofNat (i + j)⟩ = none) := by
  induction vout generalizing i s with
  | nil => exact ⟨.refl h, fun _ j hj => absurd hj (Nat.not_lt_zero j)⟩
  | cons out vout ih =>
    obtain ⟨s₁, hget, hmoved⟩ := getCoin_moved h ⟨txid, UInt32.ofNat i⟩
    obtain ⟨hrest, hnone⟩ := ih hmoved.valid (i + 1)
    rw [hmoved.peek] at hrest hnone
    unfold noneThere
    rw [hget]
    refine ⟨hmoved.trans hrest, fun htrue j hj => ?_⟩
    obtain ⟨hfirst, hothers⟩ := Bool.and_eq_true_iff.1 htrue
    cases j with
    | zero => exact Option.isNone_iff_eq_none.1 hfirst
    | succ j =>
      have hnext := hnone hothers j (Nat.lt_of_succ_lt_succ hj)
      rwa [Nat.add_right_comm, Nat.add_assoc] at hnext

theorem noOverwrite_moved (h : s.view.Valid) (vtx : List CTransaction) :
    Moved s (noOverwrite B vtx s).2 s.utxo ∧
      ((noOverwrite B vtx s).1 = true → ∀ tx ∈ vtx, s.utxo.Free B tx) := by
  induction vtx generalizing s with
  | nil => exact ⟨.refl h, fun _ _ h => absurd h List.not_mem_nil⟩
  | cons tx vtx ih =>
    obtain ⟨hmoved, hnone⟩ := noneThere_moved (tx.txid B.sha256d) h 0 tx.vout
    obtain ⟨hrest, hall⟩ := ih hmoved.valid
    rw [hmoved.peek] at hrest hall
    refine ⟨hmoved.trans hrest, fun htrue => ?_⟩
    obtain ⟨hfirst, hothers⟩ := Bool.and_eq_true_iff.1 htrue
    refine List.forall_mem_cons.2 ⟨fun j hj => ?_, hall hothers⟩
    have hj := hnone hfirst j hj
    rwa [Nat.zero_add] at hj

theorem checkBIP30_moved (h : s.view.Valid) (block : CBlock) :
    Moved s (checkBIP30 B block s).2 s.utxo ∧ ((checkBIP30 B block s).1 = true →
      B.enforceBIP30 = true → ∀ tx ∈ block.vtx, s.utxo.Free B tx) := by
  unfold checkBIP30
  split
  · obtain ⟨hmoved, hall⟩ := noOverwrite_moved B h block.vtx
    exact ⟨hmoved, fun htrue _ => hall htrue⟩
  · rename_i hoff
    exact ⟨Moved.refl h, fun _ hon => absurd hon hoff⟩

end Checks

/-! ## 9. A transaction that connects -/

/-- **What is true of a transaction that has been connected to `u`.** -/
structure Utxo.Connects (u : Utxo) (tx : CTransaction) : Prop where
  inputs : tx.isCoinBase = false → ∀ i ∈ tx.vin, u.Mature B.nHeight i.prevout
  fee : 0 ≤ u.fee tx
  free : tx.isCoinBase = false → u.Free B tx

theorem Utxo.Mature.ne_none {u : Utxo} {n : Nat} {o : COutPoint} (h : u.Mature n o) :
    u o ≠ none := by
  obtain ⟨c, hc, -⟩ := h
  rw [hc]
  exact Option.some_ne_none c

section Transactions

variable {s s' : CoinsStack} {tx : CTransaction} {txundo : CTxUndo}

/-- **`UpdateCoins`** does to the view what `applyTx` does to its coins. -/
theorem updateCoins_moved (h : s.view.Valid) (hchecked : tx.Checked)
    (hthere : tx.isCoinBase = false → ∀ i ∈ tx.vin, s.utxo i.prevout ≠ none)
    (hfree : tx.isCoinBase = false → s.utxo.Free B tx) :
    ∃ s', updateCoins B tx s = .ok (s.utxo.txUndo tx, s') ∧ Moved s s' (s.utxo.applyTx B tx) := by
  have hfew := hchecked.fewOutputs
  unfold updateCoins Utxo.txUndo Utxo.applyTx
  cases hcb : tx.isCoinBase with
  | true =>
    obtain ⟨s₁, hadd, hmoved⟩ := addCoins_moved (tx.txid B.sha256d) B.nHeight (i := 0) h
      (by omega) hchecked.values fun hno : true = false => by cases hno
    refine ⟨s₁, ?_, hmoved⟩
    show (addCoins _ _ _ _ _ _ >>= _) = _
    rw [hadd]
    rfl
  | false =>
    obtain ⟨s₁, hspend, hmoved⟩ := spendInputs_moved h hchecked.inputs (hthere hcb)
    obtain ⟨s₂, hadd, hmoved'⟩ := addCoins_moved (tx.txid B.sha256d) B.nHeight (i := 0)
      hmoved.valid (by omega) hchecked.values fun (_ : false = false) j hj => by
        rw [hmoved.peek, Nat.zero_add]
        exact Utxo.spendIns_none (hfree hcb j hj) tx.vin
    rw [hmoved.peek] at hmoved'
    refine ⟨s₂, ?_, hmoved.trans hmoved'⟩
    show (spendInputs tx.vin s >>= _) = _
    rw [hspend]
    show (addCoins _ _ _ _ _ _ >>= _) = _
    rw [hadd]
    rfl

/-- **One round of the loop.** -/
theorem connectTx_moved {t t' : Tally} (h : s.view.Valid) (hfees : moneyRange t.nFees = true)
    (hchecked : tx.Checked)
    (hfree : tx.isCoinBase = false → (∀ i ∈ tx.vin, s.utxo i.prevout ≠ none) → s.utxo.Free B tx)
    (hok : connectTx B tx t s = .ok (txundo, t', s')) :
    Moved s s' (s.utxo.applyTx B tx) ∧ txundo = s.utxo.txUndo tx ∧ s.utxo.Connects B tx ∧
      t'.nFees.toInt = t.nFees.toInt + s.utxo.fee tx ∧ moneyRange t'.nFees = true := by
  obtain ⟨⟨nFees, s₁⟩, hcheck, hok⟩ := of_except_bind hok
  -- what the checks before the scripts have found
  have hfound : Moved s s₁ s.utxo ∧ nFees.toInt = t.nFees.toInt + s.utxo.fee tx ∧
      moneyRange nFees = true ∧ s.utxo.Connects B tx := by
    cases hcb : tx.isCoinBase with
    | true =>
      rw [hcb, if_pos rfl] at hcheck
      cases hcheck
      have hfee : s.utxo.fee tx = 0 := if_pos hcb
      refine ⟨.refl h, by omega, hfees, ?_, by omega, ?_⟩
      · exact fun hno => absurd (hno.symm.trans hcb) Bool.false_ne_true
      · exact fun hno => absurd (hno.symm.trans hcb) Bool.false_ne_true
    | false =>
      rw [hcb, if_neg Bool.false_ne_true] at hcheck
      obtain ⟨hmoved, hmature, hnonneg, hsum, hrange⟩ := checkSpend_moved B h hfees hcheck
      have hfee : s.utxo.fee tx = s.utxo.valueIn tx.vin - valueOut tx.vout :=
        if_neg (hcb ▸ Bool.false_ne_true)
      rw [← hfee] at hnonneg hsum
      exact ⟨hmoved, hsum, hrange, fun _ => hmature, hnonneg,
        fun _ => hfree hcb fun i hi => (hmature i hi).ne_none⟩
  obtain ⟨hmoved, hsum, hrange, hconnects⟩ := hfound
  have haccess := accessCoins_moved hmoved.valid tx.vin
  rw [hmoved.peek] at haccess
  dsimp only at hok
  split at hok
  · cases hok
  · split at hok
    · cases hok
    · obtain ⟨⟨txundo', s₂⟩, hupdate, hok⟩ := of_except_bind hok
      cases hok
      obtain ⟨s₃, hdone, hmoved'⟩ := updateCoins_moved B haccess.valid hchecked
        (fun hno i hi => by
          rw [haccess.peek]
          exact (hconnects.inputs hno i hi).ne_none)
        (fun hno => by
          rw [haccess.peek]
          exact hconnects.free hno)
      rw [haccess.peek] at hdone hmoved'
      cases hdone.symm.trans hupdate
      exact ⟨(hmoved.trans haccess).trans hmoved', rfl, hconnects, hsum, hrange⟩

end Transactions

/-! ## 10. No transaction twice -/

/-- The outputs of a transaction. -/
def CTransaction.Makes (tx : CTransaction) (o : COutPoint) : Prop :=
  ∃ i < tx.vout.length, o = ⟨tx.txid B.sha256d, UInt32.ofNat i⟩

/-- Transactions with one txid are one transaction, but for what the txid leaves out. -/
def NoCollision (vtx : List CTransaction) : Prop :=
  ∀ tx ∈ vtx, ∀ tx' ∈ vtx, tx.txid B.sha256d = tx'.txid B.sha256d → tx.strip = tx'.strip

/-- **What the transactions of `done` have left of `u₀`**: nothing they spend is there again, and
    they are different transactions. Every outpoint that was ever there is one of `u₀` or of
    `done`. -/
structure Utxo.Since (u₀ : Utxo) (done : List CTransaction) (u : Utxo) : Prop where
  known : ∀ o, u o ≠ none → u₀ o ≠ none ∨ ∃ tx ∈ done, tx.Makes B o
  spent : ∀ tx ∈ done, tx.isCoinBase = false → ∀ i ∈ tx.vin, u i.prevout = none ∧
    (u₀ i.prevout ≠ none ∨ ∃ tx' ∈ done, tx'.Makes B i.prevout)
  nodup : (done.map (CTransaction.txid B.sha256d)).Nodup

namespace Utxo

variable {B} {u₀ u : Utxo} {done : List CTransaction} {tx : CTransaction}

theorem free_iff : u.Free B tx ↔ ∀ o, tx.Makes B o → u o = none := by
  constructor
  · rintro h o ⟨i, hi, rfl⟩
    exact h i hi
  · intro h i hi
    exact h _ ⟨i, hi, rfl⟩

theorem applyTx_of_not_makes {o : COutPoint} (h : ¬tx.Makes B o) :
    u.applyTx B tx o = (if tx.isCoinBase then u else spendIns tx.vin u) o := by
  refine addOuts_of_ne (fun j hj heq => h ⟨j, hj, ?_⟩) _
  rwa [Nat.zero_add] at heq

/-- Only the outputs of a transaction are there after it and not before. -/
theorem applyTx_none {o : COutPoint} (h : u o = none) (ho : ¬tx.Makes B o) :
    u.applyTx B tx o = none := by
  rw [applyTx_of_not_makes ho]
  split
  · exact h
  · exact spendIns_none h _

theorem since_nil : Since B u [] u :=
  ⟨fun _ h => Or.inl h, fun _ h => absurd h List.not_mem_nil, List.nodup_nil⟩

/-- An outpoint that was ever there is not made again. -/
theorem not_makes_of_known (hfree : u₀.Free B tx)
    (hnew : tx.txid B.sha256d ∉ done.map (CTransaction.txid B.sha256d)) {o : COutPoint}
    (ho : u₀ o ≠ none ∨ ∃ tx' ∈ done, tx'.Makes B o) : ¬tx.Makes B o := by
  intro hmakes
  obtain hfirst | ⟨tx', htx', i, -, heq⟩ := ho
  · exact hfirst (free_iff.1 hfree o hmakes)
  · obtain ⟨j, -, heq'⟩ := hmakes
    have hid : tx'.txid B.sha256d = tx.txid B.sha256d :=
      congrArg COutPoint.hash (heq.symm.trans heq')
    exact hnew (hid ▸ List.mem_map_of_mem htx')

/-- **A transaction with a new txid.** -/
theorem Since.apply (h : Since B u₀ done u) (hconnects : u.Connects B tx)
    (hnew : tx.txid B.sha256d ∉ done.map (CTransaction.txid B.sha256d))
    (hcb : tx.isCoinBase = true → done = []) (hfree : tx.isCoinBase = false → u₀.Free B tx) :
    Since B u₀ (tx :: done) (u.applyTx B tx) := by
  have hwiden : ∀ {o}, (u₀ o ≠ none ∨ ∃ tx' ∈ done, tx'.Makes B o) →
      u₀ o ≠ none ∨ ∃ tx' ∈ tx :: done, tx'.Makes B o := by
    intro o ho
    obtain hfirst | ⟨tx', htx', hmakes⟩ := ho
    · exact Or.inl hfirst
    · exact Or.inr ⟨tx', List.mem_cons_of_mem tx htx', hmakes⟩
  refine ⟨fun o ho => ?_, fun tx' htx' hno i hi => ?_, ?_⟩
  · by_cases hmakes : tx.Makes B o
    · exact Or.inr ⟨tx, List.mem_cons_self, hmakes⟩
    · exact hwiden (h.known o fun hnone => ho (applyTx_none hnone hmakes))
  · cases htx' with
    | head =>
      -- its own inputs were there, so it does not make them
      have hknown := h.known i.prevout (hconnects.inputs hno i hi).ne_none
      have hmakes := not_makes_of_known (hfree hno) hnew hknown
      refine ⟨?_, hwiden hknown⟩
      rw [applyTx_of_not_makes hmakes, if_neg (hno ▸ Bool.false_ne_true)]
      exact spendIns_self hi u
    | tail _ htx' =>
      obtain ⟨hnone, hknown⟩ := h.spent tx' htx' hno i hi
      refine ⟨applyTx_none hnone ?_, hwiden hknown⟩
      cases hcoin : tx.isCoinBase with
      | true =>
        rw [hcb hcoin] at htx'
        cases htx'
      | false => exact not_makes_of_known (hfree hcoin) hnew hknown
  · rw [List.map_cons]
    exact List.nodup_cons.2 ⟨hnew, h.nodup⟩

end Utxo

theorem map_prevout_strip (tx : CTransaction) :
    tx.strip.vin.map CTxIn.prevout = tx.vin.map CTxIn.prevout := by
  unfold CTransaction.strip
  rw [List.map_map]
  rfl

theorem isCoinBase_iff {tx : CTransaction} : tx.isCoinBase = true ↔
    ∃ o, tx.vin.map CTxIn.prevout = [o] ∧ o.isNull = true := by
  unfold CTransaction.isCoinBase
  split
  · rename_i i hvin
    rw [hvin]
    constructor
    · intro h
      exact ⟨i.prevout, rfl, h⟩
    · rintro ⟨o, ho, h⟩
      rw [(List.cons.inj ho).1]
      exact h
  · rename_i hvin
    constructor
    · intro h
      cases h
    · rintro ⟨o, ho, -⟩
      obtain ⟨i, hi, -⟩ := List.map_eq_singleton_iff.1 ho
      exact (hvin i hi).elim

/-- **A transaction whose inputs are there is none of those before it**: their inputs are gone. -/
theorem Utxo.Since.txid_new {B : BlockContext} {u₀ u : Utxo} {done : List CTransaction}
    {tx : CTransaction} (h : Since B u₀ done u) (hno : tx.isCoinBase = false) (hvin : tx.vin ≠ [])
    (hthere : ∀ i ∈ tx.vin, u i.prevout ≠ none)
    (hcollision : ∀ tx' ∈ done, tx'.txid B.sha256d = tx.txid B.sha256d → tx'.strip = tx.strip) :
    tx.txid B.sha256d ∉ done.map (CTransaction.txid B.sha256d) := by
  intro hmem
  obtain ⟨tx', htx', hid⟩ := List.mem_map.1 hmem
  have hprevouts : tx'.vin.map CTxIn.prevout = tx.vin.map CTxIn.prevout := by
    rw [← map_prevout_strip tx', hcollision tx' htx' hid, map_prevout_strip]
  have hno' : tx'.isCoinBase = false := by
    rw [← Bool.not_eq_true, isCoinBase_iff, hprevouts, ← isCoinBase_iff, hno]
    exact Bool.false_ne_true
  obtain ⟨i, hi⟩ := List.exists_mem_of_ne_nil _ hvin
  have hmem' : i.prevout ∈ tx'.vin.map CTxIn.prevout :=
    hprevouts ▸ List.mem_map_of_mem hi
  obtain ⟨i', hi', hprevout⟩ := List.mem_map.1 hmem'
  refine hthere i hi ?_
  rw [← hprevout]
  exact (h.spent tx' htx' hno' i' hi').1

/-- So its outputs are new too. -/
theorem Utxo.Since.free {B : BlockContext} {u₀ u : Utxo} {done : List CTransaction}
    {tx : CTransaction} (h : Since B u₀ done u) (hfree : u₀.Free B tx)
    (hnew : tx.txid B.sha256d ∉ done.map (CTransaction.txid B.sha256d)) : u.Free B tx := by
  refine free_iff.2 fun o hmakes => ?_
  by_contra ho
  exact not_makes_of_known hfree hnew (h.known o ho) hmakes

/-! ## 11. A block that connects -/

/-- Transactions one after another. -/
def Utxo.ConnectsAll : Utxo → List CTransaction → Prop
  | _, [] => True
  | u, tx :: vtx => u.Connects B tx ∧ ConnectsAll (u.applyTx B tx) vtx

/-- What they leave to the block's miner. -/
def Utxo.fees : Utxo → List CTransaction → Int
  | _, [] => 0
  | u, tx :: vtx => u.fee tx + fees (u.applyTx B tx) vtx

/-- What the checks without context ensure of a block. -/
structure CBlock.Checked (block : CBlock) : Prop where
  first : ∃ coinbase vtx, block.vtx = coinbase :: vtx ∧ coinbase.isCoinBase = true ∧
    ∀ tx ∈ vtx, tx.isCoinBase = false
  few : block.vtx.length ≤ 1000000
  each : ∀ tx ∈ block.vtx, tx.Checked

theorem checkBlock_none {block : CBlock} (h : checkBlock B block = none) : block.Checked := by
  unfold checkBlock at h
  split at h
  · cases h
  · split at h
    · cases h
    · rename_i hlength
      split at h
      · cases h
      · rename_i hfirst
        split at h
        · cases h
        · rename_i hothers
          split at h
          · cases h
          · rename_i heach
            simp only [Bool.or_eq_true, decide_eq_true_eq, not_or] at hlength
            refine ⟨?_, by omega, fun tx htx => checkTransaction_none ?_⟩
            · cases hvtx : block.vtx with
              | nil =>
                rw [hvtx] at hfirst
                exact absurd rfl hfirst
              | cons coinbase vtx =>
                rw [hvtx] at hfirst hothers
                refine ⟨coinbase, vtx, rfl, ?_, fun tx htx => ?_⟩
                · simpa using hfirst
                · exact Bool.not_eq_true _ ▸ fun hcb => hothers (List.any_eq_true.2 ⟨tx, htx, hcb⟩)
            · exact List.findSome?_eq_none_iff.1 heach tx htx

section Blocks

variable {s s' : CoinsStack} {B}

/-- **The loop over the transactions after the first.** -/
theorem connectTxs_moved {u₀ : Utxo} {all done vtx : List CTransaction} {t t' : Tally}
    {undo : List CTxUndo} (hcollision : NoCollision B all) (h : s.view.Valid)
    (hfees : moneyRange t.nFees = true) (hsince : Utxo.Since B u₀ done s.utxo)
    (hdone : ∀ tx ∈ done, tx ∈ all) (hall : ∀ tx ∈ vtx, tx ∈ all)
    (hchecked : ∀ tx ∈ vtx, tx.Checked) (hno : ∀ tx ∈ vtx, tx.isCoinBase = false)
    (hfree : ∀ tx ∈ vtx, u₀.Free B tx) (hok : connectTxs B vtx t s = .ok (undo, t', s')) :
    Moved s s' (s.utxo.applyTxs B vtx) ∧ undo = s.utxo.txUndos B vtx ∧
      s.utxo.ConnectsAll B vtx ∧ t'.nFees.toInt = t.nFees.toInt + s.utxo.fees B vtx ∧
      moneyRange t'.nFees = true ∧
      Utxo.Since B u₀ (vtx.reverse ++ done) (s.utxo.applyTxs B vtx) := by
  induction vtx generalizing s t done undo with
  | nil =>
    cases hok
    exact ⟨.refl h, rfl, trivial, (Int.add_zero _).symm, hfees, hsince⟩
  | cons tx vtx ih =>
    obtain ⟨hmem, hall⟩ := List.forall_mem_cons.1 hall
    obtain ⟨hcheck, hchecked⟩ := List.forall_mem_cons.1 hchecked
    obtain ⟨hnot, hno⟩ := List.forall_mem_cons.1 hno
    obtain ⟨hgone, hfree⟩ := List.forall_mem_cons.1 hfree
    -- where its inputs are there, its txid is new
    have hnew : (∀ i ∈ tx.vin, s.utxo i.prevout ≠ none) →
        tx.txid B.sha256d ∉ done.map (CTransaction.txid B.sha256d) := fun hthere =>
      hsince.txid_new hnot hcheck.vin_ne hthere fun tx' htx' =>
        hcollision tx' (hdone tx' htx') tx hmem
    obtain ⟨⟨txundo, t₁, s₁⟩, hfirst, hok⟩ := of_except_bind hok
    obtain ⟨⟨rest, t₂, s₂⟩, hrest, hok⟩ := of_except_bind hok
    cases hok
    obtain ⟨hmoved, hundo, hconnects, hfee, hrange⟩ :=
      connectTx_moved B h hfees hcheck (fun _ hthere => hsince.free hgone (hnew hthere)) hfirst
    have hthere := fun i hi => (hconnects.inputs hnot i hi).ne_none
    have hsince₁ := hsince.apply hconnects (hnew hthere)
      (fun hcb => absurd (hnot.symm.trans hcb) Bool.false_ne_true) fun _ => hgone
    rw [← hmoved.peek] at hsince₁
    obtain ⟨hmoved', hundo', hconnects', hfee', hrange', hsince'⟩ := ih hmoved.valid hrange hsince₁
      (List.forall_mem_cons.2 ⟨hmem, hdone⟩) hall hchecked hno hfree hrest
    rw [hmoved.peek] at hmoved' hundo' hconnects' hfee' hsince'
    refine ⟨hmoved.trans hmoved', ?_, ⟨hconnects, hconnects'⟩, ?_, hrange', ?_⟩
    · rw [hundo, hundo']
      rfl
    · rw [hfee', hfee, Int.add_assoc]
      rfl
    · rw [List.reverse_cons, List.append_assoc]
      exact hsince'

theorem bestBlock_moved (h : s.view.Valid) :
    s.bestBlock.1 = (bestBlock s.view.levels).1 ∧ s.bestBlock.2.view.Valid ∧
      s.bestBlock.2.view.levels = (bestBlock s.view.levels).2 ∧ s.bestBlock.2.utxo = s.utxo := by
  have hbest : (s.bestBlock.1, s.bestBlock.2.view) = s.view.getBestBlock := by
    unfold CoinsStack.bestBlock
    split
    · rename_i hnull
      exact (if_pos hnull).symm
    · rename_i hnull
      exact (if_neg hnull).symm
  have hspec := getBestBlock_spec h
  rw [← hbest] at hspec
  exact hspec

/-- What a block that connects has done. -/
structure BlockConnected (B : BlockContext) (block : CBlock) (s s' : CoinsStack)
    (undo : CBlockUndo) : Prop where
  valid : s'.view.Valid
  prev : (bestBlock s.view.levels).1 = B.hashPrevBlock
  levels : s'.view.levels = ⟨s.utxo.applyTxs B block.vtx, block.header.hash B.sha256d⟩ ::
    (bestBlock s.view.levels).2.tail
  undo : undo = (s.utxo.txUndos B block.vtx).tail
  connects : s.utxo.ConnectsAll B block.vtx
  bip30 : B.enforceBIP30 = true → ∀ tx ∈ block.vtx, s.utxo.Free B tx
  checked : block.Checked
  nodup : (block.vtx.map (CTransaction.txid B.sha256d)).Nodup
  reward : ∀ coinbase vtx, block.vtx = coinbase :: vtx → valueOut coinbase.vout ≤
    s.utxo.fees B block.vtx +
      (getBlockSubsidy B.nSubsidyHalvingInterval B.nHeight).toInt

variable {block : CBlock} {undo : CBlockUndo}

/-- The loop over all transactions of a block, of which the first is the coinbase. -/
theorem connectBlock_loop {t : Tally} {undo : List CTxUndo} (h : s.view.Valid)
    (hblock : block.Checked) (hcollision : NoCollision B block.vtx)
    (hfree : ∀ tx ∈ block.vtx, tx.isCoinBase = false → s.utxo.Free B tx)
    (hok : connectTxs B block.vtx ⟨0, 0⟩ s = .ok (undo, t, s')) :
    Moved s s' (s.utxo.applyTxs B block.vtx) ∧ undo = s.utxo.txUndos B block.vtx ∧
      s.utxo.ConnectsAll B block.vtx ∧ t.nFees.toInt = s.utxo.fees B block.vtx ∧
      moneyRange t.nFees = true ∧ (block.vtx.map (CTransaction.txid B.sha256d)).Nodup := by
  obtain ⟨⟨coinbase, vtx, hvtx, hcb, hno⟩, -, hchecked⟩ := hblock
  rw [hvtx] at hcollision hfree hok hchecked ⊢
  obtain ⟨hcheck, hchecked⟩ := List.forall_mem_cons.1 hchecked
  obtain ⟨-, hfree⟩ := List.forall_mem_cons.1 hfree
  obtain ⟨⟨txundo, t₁, s₁⟩, hfirst, hok⟩ := of_except_bind hok
  obtain ⟨⟨rest, t₂, s₂⟩, hrest, hok⟩ := of_except_bind hok
  cases hok
  obtain ⟨hmoved, hundo, hconnects, hfee, hrange⟩ := connectTx_moved B h (by decide) hcheck
    (fun hnot => absurd (hnot.symm.trans hcb) Bool.false_ne_true) hfirst
  have hsince := Utxo.since_nil.apply hconnects List.not_mem_nil (fun _ => rfl)
    fun hnot => absurd (hnot.symm.trans hcb) Bool.false_ne_true
  rw [← hmoved.peek] at hsince
  obtain ⟨hmoved', hundo', hconnects', hfee', hrange', hsince'⟩ := connectTxs_moved hcollision
    hmoved.valid hrange hsince (fun tx htx => List.mem_cons.2 (Or.inl (List.mem_singleton.1 htx)))
    (fun tx => List.mem_cons_of_mem coinbase) hchecked hno (fun tx htx => hfree tx htx (hno tx htx))
    hrest
  rw [hmoved.peek] at hmoved' hundo' hconnects' hfee'
  refine ⟨hmoved.trans hmoved', ?_, ⟨hconnects, hconnects'⟩, ?_, hrange', ?_⟩
  · rw [hundo, hundo']
    rfl
  · have hzero : (0 : Int64).toInt = 0 := rfl
    rw [hfee', hfee, hzero, Int.zero_add]
    rfl
  · have hnodup := hsince'.nodup
    rw [← List.reverse_cons, List.map_reverse, List.nodup_reverse] at hnodup
    exact hnodup

theorem moneyRange_subsidy (interval nHeight : Nat) :
    moneyRange (getBlockSubsidy interval nHeight) = true := by
  unfold getBlockSubsidy
  dsimp only
  split
  · decide
  · rename_i hfew
    have hall : ∀ n < 64, moneyRange (Int64.ofNat (5000000000 >>> n)) = true := by decide
    exact hall _ (Nat.not_le.1 hfew)

/-- **A block that connects** has done to the coins what its transactions one after another do,
    every input it spends was there, no transaction is in it twice, and its coinbase takes no more
    than the fees and the subsidy. Where BIP30 is not enforced, the block's outputs have to be new
    for another reason. -/
theorem connectBlock_spec (h : s.view.Valid) (hcollision : NoCollision B block.vtx)
    (hfree : B.enforceBIP30 = false → ∀ tx ∈ block.vtx, tx.isCoinBase = false → s.utxo.Free B tx)
    (hok : connectBlock B block s = .ok (undo, s')) : BlockConnected B block s s' undo := by
  unfold connectBlock at hok
  split at hok
  · cases hok
  · rename_i hcheck
    have hblock := checkBlock_none B hcheck
    obtain ⟨hhash, hvalid, hlevels, hutxo⟩ := bestBlock_moved h
    dsimp only at hok
    split at hok
    · cases hok
    · rename_i hprev
      -- BIP30, or what is assumed in its place
      obtain ⟨hmoved, hbip⟩ := checkBIP30_moved B hvalid block
      rw [hutxo] at hmoved hbip
      split at hok
      · cases hok
      · rename_i hpassed
        rw [Bool.not_eq_true, Bool.not_eq_false'] at hpassed
        have hnew : ∀ tx ∈ block.vtx, tx.isCoinBase = false → s.utxo.Free B tx := by
          cases hon : B.enforceBIP30 with
          | true => exact fun tx htx _ => hbip hpassed hon tx htx
          | false => exact hfree hon
        obtain ⟨⟨undo', t, s₁⟩, hloop, hok⟩ := of_except_bind hok
        obtain ⟨hmoved', hundo, hconnects, hfees, hrange, hnodup⟩ :=
          connectBlock_loop hmoved.valid hblock hcollision (hmoved.peek ▸ hnew) hloop
        rw [hmoved.peek] at hmoved' hundo hconnects hfees
        dsimp only at hok
        split at hok
        · cases hok
        · rename_i valueOut hvalueOut
          split at hok
          · cases hok
          · rename_i hreward
            cases hok
            have hdone := hmoved.trans hmoved'
            refine ⟨⟨hdone.valid.1, hdone.valid.2.coherent, hdone.valid.2.count⟩, ?_, ?_, ?_,
              hconnects, hbip hpassed, hblock, hnodup, fun coinbase vtx hvtx => ?_⟩
            · rw [← hhash]
              exact not_not.1 hprev
            · rw [← hlevels]
              show (⟨s₁.utxo, _⟩ : Level) :: s₁.base.levels = _
              rw [hdone.peek, hdone.base]
              rfl
            · rw [hundo]
            · rw [hvtx] at hvalueOut
              obtain ⟨hout, -⟩ := getValueOut_eq (by decide) hvalueOut
              have hle := Int64.le_iff_toInt_le.1 (Int64.not_lt.1 hreward)
              have hzero : (0 : Int64).toInt = 0 := rfl
              rw [toInt_add_of_moneyRange hrange (moneyRange_subsidy _ _), hout, hfees, hzero,
                Int.zero_add] at hle
              exact hle

end Blocks

end SwiftBitcoinKernel
