/-
  File:      SwiftBitcoinKernel/Kernel/Replay.lean
  Subject:   `DisconnectBlock` and `RollforwardBlock` on coins that are half written.

  After a crash in the middle of a flush the database has some coins of the old tip and some of the
  new one. `ReplayBlocks` disconnects the old branch all the same, and connects the new one without
  checks. On such coins a block may be found not to have been connected at all, so
  `DISCONNECT_UNCLEAN` is let pass; what the functions rely on is that they write coins and delete
  coins whatever is there.

  * `rollforwardBlock` -- validation.cpp, with `AddCoins` that checks for coins that are there;
  * `txWrites`, `blockWrites`, `blockUnwrites` -- which outpoints are written, with what;
  * `disconnectBlock_writes`, `rollforwardBlock_writes` -- on any valid view the functions return,
    and do just these writes;
  * `applyTxs_eq_writes` -- connecting a block does the same writes as rolling it forward;
  * `undoFits_of_connected`, `blockUnwrites_eq` -- the undo data of a block that was connected fits
    it, and its writes lead back.
-/
import SwiftBitcoinKernel.Kernel.DisconnectBlock
import SwiftBitcoinKernel.Logic.Writes

namespace SwiftBitcoinKernel

open Logic SwiftBitcoinKernel.Core

variable (B : BlockContext)

/-! ## 1. Rolling forward -/

/-- `SpendCoin` on every input, whatever it returns. -/
def spendAny : List CTxIn → CoinsStack → CoinsStack
  | [], s => s
  | i :: vin, s => spendAny vin (s.spendCoin i.prevout).2

/-- `AddCoins` with `check_for_overwrite`, from output `i` on. -/
def addCoinsChecked (txid : Hash) (nHeight : Nat) (fCoinbase : Bool) :
    Nat → List CTxOut → CoinsStack → Except CoinsError CoinsStack
  | _, [], s => .ok s
  | i, out :: vout, s => do
    let r := s.getCoin ⟨txid, UInt32.ofNat i⟩
    let s ← r.2.addCoin ⟨txid, UInt32.ofNat i⟩ (.make out nHeight fCoinbase) r.1.isSome
    addCoinsChecked txid nHeight fCoinbase (i + 1) vout s

/-- One transaction of `RollforwardBlock`. -/
def rollforwardTx (tx : CTransaction) (s : CoinsStack) : Except CoinsError CoinsStack :=
  addCoinsChecked (tx.txid B.sha256d) B.nHeight tx.isCoinBase 0 tx.vout
    (if tx.isCoinBase then s else spendAny tx.vin s)

/-- `RollforwardBlock`, with the block that was read. -/
def rollforwardBlock : List CTransaction → CoinsStack → Except CoinsError CoinsStack
  | [], s => .ok s
  | tx :: vtx, s => do
    let s ← rollforwardTx B tx s
    rollforwardBlock vtx s

/-! ## 2. Which outpoints are written -/

/-- An outpoint and its coin, or none. -/
abbrev CoinWrite := COutPoint × Option UnspentCoin

/-- Every input is deleted. -/
def inputWrites (vin : List CTxIn) : List CoinWrite := vin.map fun i => (i.prevout, none)

/-- Every output that can be spent gets a value. -/
def outputWrites (txid : Hash) (value : CTxOut → Option UnspentCoin) :
    Nat → List CTxOut → List CoinWrite
  | _, [] => []
  | i, out :: vout =>
    (if isUnspendable out.scriptPubKey then [] else [(⟨txid, UInt32.ofNat i⟩, value out)]) ++
      outputWrites txid value (i + 1) vout

/-- What a transaction writes. -/
def txWrites (tx : CTransaction) : List CoinWrite :=
  (if tx.isCoinBase then [] else inputWrites tx.vin) ++
    outputWrites (tx.txid B.sha256d) (fun out => (Coin.make out B.nHeight tx.isCoinBase).unspent) 0
      tx.vout

/-- What a block writes. -/
def blockWrites (vtx : List CTransaction) : List CoinWrite := vtx.flatMap (txWrites B)

/-- The inputs put back, the last one first. -/
def restoreWrites : List CTxIn → CTxUndo → List CoinWrite
  | i :: vin, coin :: vprevout => restoreWrites vin vprevout ++ [(i.prevout, coin.unspent)]
  | _, _ => []

/-- What taking back a transaction writes. -/
def txUnwrites (tx : CTransaction) (txundo : Option CTxUndo) : List CoinWrite :=
  outputWrites (tx.txid B.sha256d) (fun _ => none) 0 tx.vout ++
    txundo.elim [] (restoreWrites tx.vin)

/-- The transactions after the first, the last one first. -/
def txsUnwrites : List CTransaction → CBlockUndo → List CoinWrite
  | tx :: vtx, txundo :: undo => txsUnwrites vtx undo ++ txUnwrites B tx (some txundo)
  | _, _ => []

/-- What taking back a block writes. -/
def blockUnwrites (block : CBlock) (undo : CBlockUndo) : List CoinWrite :=
  match block.vtx with
  | [] => []
  | coinbase :: vtx => txsUnwrites B vtx undo ++ txUnwrites B coinbase none

/-! ## 3. Connecting, as writes -/

namespace Utxo

variable {u : Utxo}

theorem spendIns_eq_writes (vin : List CTxIn) : spendIns vin u = writes (inputWrites vin) u := by
  induction vin generalizing u with
  | nil => rfl
  | cons i vin ih => exact ih

theorem addOuts_eq_writes (txid : Hash) (nHeight : Nat) (fCoinbase : Bool) (i : Nat)
    (vout : List CTxOut) : addOuts txid nHeight fCoinbase i vout u =
      writes (outputWrites txid (fun out => (Coin.make out nHeight fCoinbase).unspent) i vout) u := by
  induction vout generalizing i u with
  | nil => rfl
  | cons out vout ih =>
    unfold addOuts outputWrites
    rw [ih, writes_append]
    split <;> rfl

theorem applyTx_eq_writes (tx : CTransaction) : u.applyTx B tx = writes (txWrites B tx) u := by
  unfold applyTx txWrites
  rw [addOuts_eq_writes, writes_append]
  split
  · rfl
  · rw [spendIns_eq_writes]

/-- **A block that is connected does its writes.** -/
theorem applyTxs_eq_writes (vtx : List CTransaction) :
    u.applyTxs B vtx = writes (blockWrites B vtx) u := by
  induction vtx generalizing u with
  | nil => rfl
  | cons tx vtx ih =>
    show (u.applyTx B tx).applyTxs B vtx = writes (txWrites B tx ++ blockWrites B vtx) u
    rw [ih, applyTx_eq_writes, writes_append]

end Utxo

/-! ## 4. Rolling forward, as writes -/

section AnyView

variable {s : CoinsStack} {B}

theorem spendCoin_writes (h : s.view.Valid) (o : COutPoint) :
    Moved s (s.spendCoin o).2 (Function.update s.utxo o none) := by
  obtain ⟨hvalid, hlevels, -⟩ := spendCoin_spec h o
  exact ⟨hvalid, hlevels⟩

theorem spendAny_writes (h : s.view.Valid) (vin : List CTxIn) :
    Moved s (spendAny vin s) (writes (inputWrites vin) s.utxo) := by
  induction vin generalizing s with
  | nil => exact .refl h
  | cons i vin ih =>
    have hfirst := spendCoin_writes h i.prevout
    have hrest := ih hfirst.valid
    rw [hfirst.peek] at hrest
    exact hfirst.trans hrest

/-- A coin is written whether one is there or not. -/
theorem addCoin_any (h : s.view.Valid) (o : COutPoint) {coin : Coin} (hcoin : coin.isSpent = false) :
    ∃ s', (s.getCoin o).2.addCoin o coin (s.getCoin o).1.isSome = .ok s' ∧
      Moved s s' (if isUnspendable coin.out.scriptPubKey then s.utxo
        else Function.update s.utxo o (some ⟨coin, hcoin⟩)) := by
  obtain ⟨s₁, hget, hmoved⟩ := getCoin_moved h o
  rw [hget]
  obtain ⟨s₂, hadd, hmoved'⟩ := addCoin_moved hmoved.valid o hcoin (s.utxo o).isSome fun hnone => by
    rw [hmoved.peek]
    simpa using hnone
  rw [hmoved.peek] at hmoved'
  exact ⟨s₂, hadd, hmoved.trans hmoved'⟩

theorem addCoinsChecked_writes (txid : Hash) {nHeight : Nat} {fCoinbase : Bool} {vout : List CTxOut}
    (h : s.view.Valid) (i : Nat) (hvalues : ∀ out ∈ vout, moneyRange out.nValue = true) :
    ∃ s', addCoinsChecked txid nHeight fCoinbase i vout s = .ok s' ∧ Moved s s'
      (writes (outputWrites txid (fun out => (Coin.make out nHeight fCoinbase).unspent) i vout)
        s.utxo) := by
  induction vout generalizing i s with
  | nil => exact ⟨s, rfl, .refl h⟩
  | cons out vout ih =>
    obtain ⟨hvalue, hvalues⟩ := List.forall_mem_cons.1 hvalues
    obtain ⟨s₁, hadd, hmoved⟩ := addCoin_any h ⟨txid, UInt32.ofNat i⟩
      (isSpent_make nHeight fCoinbase hvalue)
    obtain ⟨s₂, hadds, hmoved'⟩ := ih hmoved.valid (i + 1) hvalues
    refine ⟨s₂, ?_, hmoved.trans ?_⟩
    · show ((s.getCoin _).2.addCoin _ _ (s.getCoin _).1.isSome >>= _) = _
      rw [hadd]
      exact hadds
    · unfold outputWrites
      rw [writes_append, unspent_make nHeight fCoinbase hvalue]
      rw [hmoved.peek] at hmoved'
      refine (congrArg (Moved s₁ s₂) (congrArg _ ?_)).mp hmoved'
      show (if isUnspendable out.scriptPubKey then s.utxo else _) = _
      split <;> rfl

theorem rollforwardTx_writes {tx : CTransaction} (h : s.view.Valid) (hchecked : tx.Checked) :
    ∃ s', rollforwardTx B tx s = .ok s' ∧ Moved s s' (writes (txWrites B tx) s.utxo) := by
  have hspent : Moved s (if tx.isCoinBase then s else spendAny tx.vin s)
      (writes (if tx.isCoinBase then [] else inputWrites tx.vin) s.utxo) := by
    split
    · exact .refl h
    · exact spendAny_writes h tx.vin
  obtain ⟨s', hadd, hmoved⟩ :=
    addCoinsChecked_writes (tx.txid B.sha256d) hspent.valid 0 hchecked.values
  rw [hspent.peek] at hmoved
  refine ⟨s', hadd, ?_⟩
  unfold txWrites
  rw [writes_append]
  exact hspent.trans hmoved

/-- **`RollforwardBlock`** returns on any valid view, and does the writes of the block. -/
theorem rollforwardBlock_writes {vtx : List CTransaction} (h : s.view.Valid)
    (hchecked : ∀ tx ∈ vtx, tx.Checked) :
    ∃ s', rollforwardBlock B vtx s = .ok s' ∧ Moved s s' (writes (blockWrites B vtx) s.utxo) := by
  induction vtx generalizing s with
  | nil => exact ⟨s, rfl, .refl h⟩
  | cons tx vtx ih =>
    obtain ⟨hcheck, hchecked⟩ := List.forall_mem_cons.1 hchecked
    obtain ⟨s₁, htx, hmoved⟩ := rollforwardTx_writes (B := B) h hcheck
    obtain ⟨s₂, hrest, hmoved'⟩ := ih hmoved.valid hchecked
    rw [hmoved.peek, ← writes_append] at hmoved'
    refine ⟨s₂, ?_, hmoved.trans hmoved'⟩
    unfold rollforwardBlock
    rw [htx]
    exact hrest

/-! ## 5. Disconnecting, as writes -/

theorem spendOutputs_writes (txid : Hash) (nHeight : Nat) (isCoinBase : Bool) (h : s.view.Valid)
    (i : Nat) (vout : List CTxOut) : Moved s (spendOutputs txid nHeight isCoinBase i vout s).2
      (writes (outputWrites txid (fun _ => none) i vout) s.utxo) := by
  induction vout generalizing i s with
  | nil => exact .refl h
  | cons out vout ih =>
    unfold spendOutputs outputWrites
    split
    · exact ih h (i + 1)
    · have hfirst := spendCoin_writes h ⟨txid, UInt32.ofNat i⟩
      have hrest := ih hfirst.valid (i + 1)
      rw [hfirst.peek] at hrest
      exact hfirst.trans hrest

/-- What undo data has to be: coins that blocks have made. -/
def CTxUndo.Sound (txundo : CTxUndo) : Prop :=
  ∀ c ∈ txundo, c.Sound ∧ c.isSpent = false

/-- **`ApplyTxInUndo`**: a coin is put back whether one is there or not. -/
theorem applyTxInUndo_writes (h : s.view.Valid) (o : COutPoint) {c : Coin} (hsound : c.Sound)
    (hspent : c.isSpent = false) : ∃ res s', applyTxInUndo c s o = .ok (res, s') ∧ res ≠ .failed ∧
      Moved s s' (Function.update s.utxo o c.unspent) := by
  obtain ⟨s', hadd, hmoved⟩ := addCoin_any h o hspent
  have hunspent : c.unspent = some ⟨c, hspent⟩ := dif_pos hspent
  simp only [hsound.spendable, Bool.false_eq_true, if_false, ← hunspent] at hmoved
  refine ⟨if (s.getCoin o).1.isNone then .ok else .unclean, s', ?_, ?_, hmoved⟩
  · unfold applyTxInUndo
    simp only [hsound.height, if_false, Option.not_isNone]
    rw [hadd]
    rfl
  · split <;> exact fun hfailed => by cases hfailed

theorem restoreInputs_writes (vin : List CTxIn) {vprevout : CTxUndo} (h : s.view.Valid)
    (hsound : vprevout.Sound) : ∃ clean s', restoreInputs vin vprevout s = .ok (some clean, s') ∧
      Moved s s' (writes (restoreWrites vin vprevout) s.utxo) := by
  induction vin generalizing vprevout with
  | nil => exact ⟨true, s, rfl, .refl h⟩
  | cons i vin ih =>
    cases vprevout with
    | nil => exact ⟨true, s, rfl, .refl h⟩
    | cons c vprevout =>
      obtain ⟨hc, hrest⟩ := List.forall_mem_cons.1 hsound
      obtain ⟨clean, s₁, hlater, hmoved⟩ := ih hrest
      obtain ⟨res, s₂, hfirst, hres, hmoved'⟩ :=
        applyTxInUndo_writes hmoved.valid i.prevout hc.1 hc.2
      rw [hmoved.peek] at hmoved'
      have hall : Moved s s₂ (writes (restoreWrites (i :: vin) (c :: vprevout)) s.utxo) := by
        unfold restoreWrites
        rw [writes_append]
        exact hmoved.trans hmoved'
      cases res with
      | failed => exact absurd rfl hres
      | ok =>
        refine ⟨clean, s₂, ?_, hall⟩
        simp only [restoreInputs, hlater, hfirst, bind, Except.bind]
        rfl
      | unclean =>
        refine ⟨false, s₂, ?_, hall⟩
        simp only [restoreInputs, hlater, hfirst, bind, Except.bind]
        rfl

/-- What undo data of a transaction has to be: one such coin for each input. -/
structure UndoFits (tx : CTransaction) (txundo : CTxUndo) : Prop where
  length : txundo.length = tx.vin.length
  sound : txundo.Sound

theorem disconnectTx_writes (tx : CTransaction) (txundo : Option CTxUndo) (bip30Exception : Bool)
    (h : s.view.Valid) (hfits : ∀ vprevout, txundo = some vprevout → UndoFits tx vprevout) :
    ∃ clean s', disconnectTx B bip30Exception tx txundo s = .ok (some clean, s') ∧
      Moved s s' (writes (txUnwrites B tx txundo) s.utxo) := by
  have houts :=
    spendOutputs_writes (tx.txid B.sha256d) B.nHeight tx.isCoinBase h 0 tx.vout
  unfold disconnectTx txUnwrites
  dsimp only
  rw [writes_append]
  cases txundo with
  | none => exact ⟨_, _, rfl, houts⟩
  | some vprevout =>
    obtain ⟨hlength, hsound⟩ := hfits vprevout rfl
    obtain ⟨clean, s', hrestore, hmoved⟩ := restoreInputs_writes tx.vin houts.valid hsound
    rw [houts.peek] at hmoved
    dsimp only
    rw [if_neg (not_not.2 hlength), hrestore]
    exact ⟨_, s', rfl, houts.trans hmoved⟩

theorem disconnectTxs_writes {vtx : List CTransaction} {undo : CBlockUndo} (bip30Exception : Bool)
    (h : s.view.Valid) (hfits : List.Forall₂ UndoFits vtx undo) :
    ∃ clean s', disconnectTxs B bip30Exception vtx undo s = .ok (some clean, s') ∧
      Moved s s' (writes (txsUnwrites B vtx undo) s.utxo) := by
  induction hfits with
  | nil => exact ⟨true, s, rfl, .refl h⟩
  | @cons tx txundo vtx undo hfirst hrest ih =>
    obtain ⟨clean, s₁, hlater, hmoved⟩ := ih
    obtain ⟨clean', s₂, htx, hmoved'⟩ := disconnectTx_writes (B := B) tx (some txundo)
      bip30Exception hmoved.valid fun vprevout heq => by
        cases heq
        exact hfirst
    rw [hmoved.peek] at hmoved'
    refine ⟨clean && clean', s₂, ?_, ?_⟩
    · simp only [disconnectTxs, hlater, htx, bind, Except.bind]
      rfl
    · unfold txsUnwrites
      rw [writes_append]
      exact hmoved.trans hmoved'

/-- **`DisconnectBlock`** with undo data that fits the block does not fail on any valid view, and
    does the writes that take the block back. -/
theorem disconnectBlock_writes {block : CBlock} {coinbase : CTransaction} {vtx : List CTransaction}
    {undo : CBlockUndo} (bip30Exception : Bool) (h : s.view.Valid)
    (hvtx : block.vtx = coinbase :: vtx) (hfits : List.Forall₂ UndoFits vtx undo) :
    ∃ res s', disconnectBlock B bip30Exception block undo s = .ok (res, s') ∧ res ≠ .failed ∧
      s'.view.Valid ∧ s'.view.levels =
        ⟨writes (blockUnwrites B block undo) s.utxo, B.hashPrevBlock⟩ :: s.base.levels := by
  obtain ⟨clean, s₁, hlater, hmoved⟩ := disconnectTxs_writes (B := B) bip30Exception h hfits
  obtain ⟨clean', s₂, hfirst, hmoved'⟩ := disconnectTx_writes (B := B) coinbase none
    bip30Exception hmoved.valid fun _ heq => by cases heq
  rw [hmoved.peek] at hmoved'
  have hall := hmoved.trans hmoved'
  refine ⟨if clean && clean' then .ok else .unclean, s₂.setBestBlock B.hashPrevBlock, ?_, ?_,
    ⟨hall.valid.1, hall.valid.2.coherent, hall.valid.2.count⟩, ?_⟩
  · unfold disconnectBlock
    rw [hvtx]
    dsimp only
    rw [if_neg (not_not.2 hfits.length_eq.symm)]
    simp only [hlater, hfirst, bind, Except.bind]
    rfl
  · split <;> exact fun hfailed => by cases hfailed
  · unfold blockUnwrites
    rw [hvtx]
    dsimp only
    rw [writes_append]
    show (⟨s₂.utxo, B.hashPrevBlock⟩ : Level) :: s₂.base.levels = _
    rw [hall.peek, hall.base]

end AnyView

/-! ## 6. A block that was connected -/

section Connected

variable {B} {u : Utxo} {s s' : CoinsStack} {block : CBlock} {undo : CBlockUndo}

theorem Utxo.sound_applyTxs (hheight : BitVec.ofNat 31 B.nHeight ≠ 0) (h : u.Sound)
    {vtx : List CTransaction} (hchecked : ∀ tx ∈ vtx, tx.Checked) : (u.applyTxs B vtx).Sound := by
  induction vtx generalizing u with
  | nil => exact h
  | cons tx vtx ih =>
    obtain ⟨hcheck, hchecked⟩ := List.forall_mem_cons.1 hchecked
    exact ih (sound_applyTx B hheight h hcheck) hchecked

theorem undoFits_txUndo {tx : CTransaction} (hsound : u.Sound) (hno : tx.isCoinBase = false)
    (hconnects : u.Connects B tx) : UndoFits tx (u.txUndo tx) := by
  have hundo : u.txUndo tx = tx.vin.map fun i => undoCoin (u i.prevout) :=
    if_neg (hno ▸ Bool.false_ne_true)
  rw [hundo]
  refine ⟨List.length_map _, fun c hc => ?_⟩
  obtain ⟨i, hi, rfl⟩ := List.mem_map.1 hc
  obtain ⟨c, hcoin, -⟩ := hconnects.inputs hno i hi
  rw [hcoin]
  exact ⟨hsound _ c hcoin, c.property⟩

theorem undoFits_txUndos {vtx : List CTransaction} (hheight : BitVec.ofNat 31 B.nHeight ≠ 0)
    (hsound : u.Sound) (hchecked : ∀ tx ∈ vtx, tx.Checked)
    (hno : ∀ tx ∈ vtx, tx.isCoinBase = false) (hconnects : u.ConnectsAll B vtx) :
    List.Forall₂ UndoFits vtx (u.txUndos B vtx) := by
  induction vtx generalizing u with
  | nil => exact .nil
  | cons tx vtx ih =>
    obtain ⟨hcheck, hchecked⟩ := List.forall_mem_cons.1 hchecked
    obtain ⟨hnot, hno⟩ := List.forall_mem_cons.1 hno
    obtain ⟨hfirst, hconnects⟩ := hconnects
    exact .cons (undoFits_txUndo hsound hnot hfirst)
      (ih (Utxo.sound_applyTx B hheight hsound hcheck) hchecked hno hconnects)

/-- **The undo data of a block that was connected** has a coin that a block has made for every input
    of every transaction after the first. -/
theorem undoFits_of_connected (hdone : BlockConnected B block s s' undo)
    (hheight : 0 < B.nHeight ∧ B.nHeight < 2 ^ 31) (hsound : s.utxo.Sound) :
    ∃ coinbase vtx, block.vtx = coinbase :: vtx ∧ List.Forall₂ UndoFits vtx undo := by
  obtain ⟨coinbase, vtx, hvtx, -, hno⟩ := hdone.checked.first
  have hchecked := hdone.checked.each
  have hconnects := hdone.connects
  have hundo := hdone.undo
  rw [hvtx] at hchecked hconnects hundo
  obtain ⟨hcheck, hchecked⟩ := List.forall_mem_cons.1 hchecked
  refine ⟨coinbase, vtx, hvtx, ?_⟩
  rw [hundo]
  exact undoFits_txUndos (height_ne_zero hheight)
    (Utxo.sound_applyTx B (height_ne_zero hheight) hsound hcheck) hchecked hno hconnects.2

/-- **Its writes lead back**, as `DisconnectBlock` does on the coins that the block has left. -/
theorem blockUnwrites_eq (hdone : BlockConnected B block s s' undo)
    (hheight : 0 < B.nHeight ∧ B.nHeight < 2 ^ 31) (hsound : s.utxo.Sound)
    (hfree : ∀ tx ∈ block.vtx, s.utxo.Free B tx) :
    writes (blockUnwrites B block undo) s'.utxo = s.utxo := by
  obtain ⟨coinbase, vtx, hvtx, hfits⟩ := undoFits_of_connected hdone hheight hsound
  obtain ⟨s₂, hback, -, hlevels⟩ :=
    disconnectBlock_moved false hdone hheight hsound hfree hdone.valid rfl
  obtain ⟨res, s₃, hwrites, -, -, hlevels'⟩ :=
    disconnectBlock_writes (B := B) false hdone.valid hvtx hfits
  rw [hback] at hwrites
  cases hwrites
  rw [hlevels] at hlevels'
  exact (congrArg Level.coins (List.cons.inj hlevels').1).symm

end Connected

end SwiftBitcoinKernel
