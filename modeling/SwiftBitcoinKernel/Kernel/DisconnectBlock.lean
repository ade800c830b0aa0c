/-
  File:      SwiftBitcoinKernel/Kernel/DisconnectBlock.lean
  Subject:   `DisconnectBlock`: the coins of a block taken back.

  The outputs of a block's transactions are spent and the coins in its undo data put back, the last
  transaction first. Each function is taken back by the one that undoes it, on the view it has
  left, so that the loops meet in the middle.

  * `applyTxInUndo`, `disconnectBlock`;
  * `spendOutputs_moved`, `restoreInputs_moved`, `disconnectTx_moved` -- the inverses, one by one;
  * `disconnect_connect` -- a block that has been connected, disconnected with its undo data, gives
    back the coins there were, and it is clean.
-/
import SwiftBitcoinKernel.Kernel.ConnectBlock

namespace SwiftBitcoinKernel

open Logic SwiftBitcoinKernel.Core

variable (B : BlockContext)

/-! ## 1. Disconnecting -/

/-- `DisconnectResult`. -/
inductive DisconnectResult where
  | ok | unclean | failed
  deriving DecidableEq, Repr

/-- `AccessByTxid`, from output `n` on, with `fuel` outputs left below `MAX_OUTPUTS_PER_BLOCK`. -/
def accessByTxid (txid : Hash) : Nat → Nat → CoinsStack → Option UnspentCoin × CoinsStack
  | 0, _, s => (none, s)
  | fuel + 1, n, s =>
    match s.getCoin ⟨txid, UInt32.ofNat n⟩ with
    | (some coin, s) => (some coin, s)
    | (none, s) => accessByTxid txid fuel (n + 1) s

/-- `ApplyTxInUndo`. -/
def applyTxInUndo (undo : Coin) (s : CoinsStack) (out : COutPoint) :
    Except CoinsError (DisconnectResult × CoinsStack) :=
  let found := s.getCoin out
  let fClean := found.1.isNone
  let s := found.2
  let restored : Option Coin × CoinsStack :=
    if undo.nHeight = 0 then
      let alternate := accessByTxid out.hash 111111 0 s
      (alternate.1.map fun a => { undo with nHeight := a.val.nHeight, fCoinBase := a.val.fCoinBase },
        alternate.2)
    else (some undo, s)
  match restored with
  | (none, s) => .ok (.failed, s)
  | (some undo, s) => do
    let s ← s.addCoin out undo !fClean
    return (if fClean then .ok else .unclean, s)

/-- The outputs of a transaction are spent: whether each was there as the block made it. -/
def spendOutputs (txid : Hash) (nHeight : Nat) (isCoinBase : Bool) :
    Nat → List CTxOut → CoinsStack → Bool × CoinsStack
  | _, [], s => (true, s)
  | i, out :: vout, s =>
    if isUnspendable out.scriptPubKey then spendOutputs txid nHeight isCoinBase (i + 1) vout s
    else
      let r := s.spendCoin ⟨txid, UInt32.ofNat i⟩
      let coin := (r.1.getD none).elim Coin.null Subtype.val
      let clean := r.1.isSome && decide (out = coin.out ∧ nHeight = coin.nHeight.toNat ∧
        isCoinBase = coin.fCoinBase)
      let rest := spendOutputs txid nHeight isCoinBase (i + 1) vout r.2
      (clean && rest.1, rest.2)

/-- The inputs of a transaction are restored, the last one first: `none` where one fails. -/
def restoreInputs : List CTxIn → CTxUndo → CoinsStack →
    Except CoinsError (Option Bool × CoinsStack)
  | i :: vin, coin :: vprevout, s => do
    let (later, s) ← restoreInputs vin vprevout s
    match later with
    | none => return (none, s)
    | some clean =>
      let (res, s) ← applyTxInUndo coin s i.prevout
      match res with
      | .failed => return (none, s)
      | .ok => return (some clean, s)
      | .unclean => return (some false, s)
  | _, _, s => .ok (some true, s)

/-- One transaction: its outputs, and its inputs unless it is the first of the block. -/
def disconnectTx (bip30Exception : Bool) (tx : CTransaction) (txundo : Option CTxUndo)
    (s : CoinsStack) : Except CoinsError (Option Bool × CoinsStack) :=
  let r := spendOutputs (tx.txid B.sha256d) B.nHeight tx.isCoinBase 0 tx.vout s
  let clean := r.1 || (tx.isCoinBase && bip30Exception)
  match txundo with
  | none => .ok (some clean, r.2)
  | some vprevout =>
    if vprevout.length ≠ tx.vin.length then .ok (none, r.2)
    else do
      let (restored, s) ← restoreInputs tx.vin vprevout r.2
      return (restored.map (clean && ·), s)

/-- The transactions after the first, the last one first. -/
def disconnectTxs (bip30Exception : Bool) : List CTransaction → CBlockUndo → CoinsStack →
    Except CoinsError (Option Bool × CoinsStack)
  | tx :: vtx, txundo :: undo, s => do
    let (later, s) ← disconnectTxs bip30Exception vtx undo s
    match later with
    | none => return (none, s)
    | some clean =>
      let (res, s) ← disconnectTx B bip30Exception tx (some txundo) s
      return (res.map (clean && ·), s)
  | _, _, s => .ok (some true, s)

/-- `DisconnectBlock`, with the undo data that was read. `bip30Exception` is `!fEnforceBIP30`. -/
def disconnectBlock (bip30Exception : Bool) (block : CBlock) (undo : CBlockUndo) (s : CoinsStack) :
    Except CoinsError (DisconnectResult × CoinsStack) :=
  match block.vtx with
  | [] => .ok (.failed, s)
  | coinbase :: vtx =>
    if undo.length ≠ vtx.length then .ok (.failed, s)
    else do
      let (later, s) ← disconnectTxs B bip30Exception vtx undo s
      match later with
      | none => return (.failed, s)
      | some clean =>
        let (first, s) ← disconnectTx B bip30Exception coinbase none s
        match first with
        | none => return (.failed, s)
        | some clean' =>
          return (if clean && clean' then .ok else .unclean, s.setBestBlock B.hashPrevBlock)

/-! ## 2. The inverses -/

section Inverses

variable {s : CoinsStack} {B} {u : Utxo}

/-- **The outputs that were added are spent**, and each is as it was added. -/
theorem spendOutputs_moved {txid : Hash} {nHeight : Nat} {isCoinBase : Bool} {vout : List CTxOut}
    {i : Nat} (h : s.view.Valid) (hsize : i + vout.length ≤ 2 ^ 32) (hheight : nHeight < 2 ^ 31)
    (hvalues : ∀ out ∈ vout, moneyRange out.nValue = true)
    (hfree : ∀ j < vout.length, u ⟨txid, UInt32.ofNat (i + j)⟩ = none)
    (hutxo : s.utxo = Utxo.addOuts txid nHeight isCoinBase i vout u) :
    (spendOutputs txid nHeight isCoinBase i vout s).1 = true ∧
      Moved s (spendOutputs txid nHeight isCoinBase i vout s).2 u := by
  induction vout generalizing i s with
  | nil => exact ⟨rfl, .of_eq h hutxo⟩
  | cons out vout ih =>
    rw [List.length_cons] at hsize
    obtain ⟨hvalue, hvalues⟩ := List.forall_mem_cons.1 hvalues
    have hfree' : ∀ j < vout.length, u ⟨txid, UInt32.ofNat (i + 1 + j)⟩ = none := fun j hj => by
      have hnext := hfree (j + 1) (Nat.succ_lt_succ hj)
      rwa [Nat.add_comm j, ← Nat.add_assoc] at hnext
    unfold Utxo.addOuts at hutxo
    unfold spendOutputs
    split
    · rename_i hunspendable
      rw [if_pos hunspendable] at hutxo
      exact ih h (by omega) hvalues hfree' hutxo
    · rename_i hspendable
      have hunspent := unspent_make nHeight isCoinBase hvalue
      rw [if_neg hspendable, Utxo.addOuts_update (Nat.lt_succ_self i) (by omega), hunspent] at hutxo
      have hcoin : s.utxo ⟨txid, UInt32.ofNat i⟩ = _ := (congrFun hutxo _).trans (Function.update_self ..)
      obtain ⟨s₁, hspend, hmoved⟩ := spendCoin_moved h (hcoin ▸ Option.some_ne_none _)
      -- what the later outputs are added to, without this one
      have hlater : Function.update s.utxo ⟨txid, UInt32.ofNat i⟩ none =
          Utxo.addOuts txid nHeight isCoinBase (i + 1) vout u := by
        rw [hutxo, Function.update_idem, Function.update_eq_self_iff]
        rw [Utxo.addOuts_of_ne fun j hj heq => ?_]
        · exact (hfree 0 (Nat.zero_lt_succ _)).symm
        · have := outpoint_inj (by omega) (by omega) heq
          omega
      obtain ⟨hclean, hmoved'⟩ := ih hmoved.valid (by omega) hvalues hfree' (hmoved.peek.trans hlater)
      rw [hspend, hcoin]
      refine ⟨Bool.and_eq_true_iff.2 ⟨?_, hclean⟩, hmoved.trans hmoved'⟩
      refine Bool.and_eq_true_iff.2 ⟨rfl, decide_eq_true ⟨rfl, ?_, rfl⟩⟩
      exact (Nat.mod_eq_of_lt hheight).symm

/-- **`ApplyTxInUndo`** where nothing is in the way. -/
theorem applyTxInUndo_moved (h : s.view.Valid) {o : COutPoint} (ho : s.utxo o = none)
    (c : UnspentCoin) (hsound : c.val.Sound) :
    ∃ s', applyTxInUndo c.val s o = .ok (.ok, s') ∧
      Moved s s' (Function.update s.utxo o (some c)) := by
  obtain ⟨s₁, hget, hmoved⟩ := getCoin_moved h o
  obtain ⟨s₂, hadd, hmoved'⟩ := addCoin_moved hmoved.valid o c.property false
    fun _ => (congrFun hmoved.peek o).trans ho
  rw [hsound.spendable, if_neg Bool.false_ne_true, hmoved.peek] at hmoved'
  refine ⟨s₂, ?_, hmoved.trans hmoved'⟩
  unfold applyTxInUndo
  dsimp only
  rw [hget, ho, if_neg hsound.height]
  show (s₁.addCoin o c.val false >>= _) = _
  rw [hadd]
  rfl

/-- **The inputs that were spent are restored.** -/
theorem restoreInputs_moved {vin : List CTxIn} (h : s.view.Valid)
    (hnodup : (vin.map CTxIn.prevout).Nodup) (hthere : ∀ i ∈ vin, u i.prevout ≠ none)
    (hsound : u.Sound) (hutxo : s.utxo = Utxo.spendIns vin u) :
    ∃ s', restoreInputs vin (vin.map fun i => undoCoin (u i.prevout)) s = .ok (some true, s') ∧
      Moved s s' u := by
  induction vin generalizing u with
  | nil => exact ⟨s, rfl, .of_eq h hutxo⟩
  | cons i vin ih =>
    obtain ⟨hi, hnodup⟩ := List.nodup_cons.1 hnodup
    obtain ⟨hthere, hothers⟩ := List.forall_mem_cons.1 hthere
    obtain ⟨c, hc⟩ := Option.ne_none_iff_exists'.1 hthere
    have hother : ∀ j ∈ vin, Function.update u i.prevout none j.prevout = u j.prevout := by
      intro j hj
      refine Function.update_of_ne (fun heq => hi ?_) ..
      exact heq ▸ List.mem_map_of_mem hj
    -- the later inputs first, on the coins without this one
    obtain ⟨s₁, hlater, hmoved⟩ := ih hnodup
      (fun j hj => by
        rw [hother j hj]
        exact hothers j hj)
      (Utxo.sound_update hsound fun _ hnone => by cases hnone) hutxo
    rw [List.map_congr_left fun j hj => congrArg undoCoin (hother j hj)] at hlater
    obtain ⟨s₂, hundo, hmoved'⟩ := applyTxInUndo_moved hmoved.valid
      ((congrFun hmoved.peek i.prevout).trans (Function.update_self ..)) c (hsound _ c hc)
    rw [hmoved.peek, Function.update_idem, ← hc, Function.update_eq_self] at hmoved'
    refine ⟨s₂, ?_, hmoved.trans hmoved'⟩
    show (restoreInputs vin _ s >>= _) = _
    rw [hlater]
    show (applyTxInUndo (undoCoin (u i.prevout)) s₁ i.prevout >>= _) = _
    rw [hc]
    show (applyTxInUndo c.val s₁ i.prevout >>= _) = _
    rw [hundo]
    rfl

theorem height_ne_zero {nHeight : Nat} (h : 0 < nHeight ∧ nHeight < 2 ^ 31) :
    BitVec.ofNat 31 nHeight ≠ 0 := by
  intro hzero
  have hnat : nHeight % 2 ^ 31 = 0 := congrArg BitVec.toNat hzero
  rw [Nat.mod_eq_of_lt h.2] at hnat
  omega

/-- **A transaction that has been applied is taken back**: its outputs, and its inputs unless it
    is the coinbase. -/
theorem disconnectTx_moved {tx : CTransaction} (bip30Exception : Bool) (h : s.view.Valid)
    (hheight : B.nHeight < 2 ^ 31) (hchecked : tx.Checked) (hsound : u.Sound)
    (hconnects : u.Connects B tx) (hfree : u.Free B tx) (hutxo : s.utxo = u.applyTx B tx) :
    ∃ s', disconnectTx B bip30Exception tx (if tx.isCoinBase then none else some (u.txUndo tx)) s =
        .ok (some true, s') ∧ Moved s s' u := by
  have hfew := hchecked.fewOutputs
  have hgone : ∀ j < tx.vout.length, (if tx.isCoinBase then u else Utxo.spendIns tx.vin u)
      ⟨tx.txid B.sha256d, UInt32.ofNat (0 + j)⟩ = none := by
    intro j hj
    rw [Nat.zero_add]
    split
    · exact hfree j hj
    · exact Utxo.spendIns_none (hfree j hj) tx.vin
  obtain ⟨hclean, hmoved⟩ := spendOutputs_moved h (by omega) hheight hchecked.values hgone hutxo
  unfold disconnectTx
  dsimp only
  rw [hclean, Bool.true_or]
  cases hcb : tx.isCoinBase with
  | true =>
    rw [hcb] at hmoved
    exact ⟨_, rfl, hmoved⟩
  | false =>
    rw [hcb] at hmoved
    obtain ⟨s₁, hrestore, hmoved'⟩ := restoreInputs_moved hmoved.valid hchecked.inputs
      (fun i hi => (hconnects.inputs hcb i hi).ne_none) hsound hmoved.peek
    refine ⟨s₁, ?_, hmoved.trans hmoved'⟩
    have hundo : u.txUndo tx = tx.vin.map fun i => undoCoin (u i.prevout) :=
      if_neg (hcb ▸ Bool.false_ne_true)
    rw [if_neg Bool.false_ne_true, hundo]
    dsimp only
    rw [if_neg (not_not.2 (List.length_map _)), hrestore]
    rfl

/-- **The loop**, from the last transaction. -/
theorem disconnectTxs_moved {vtx : List CTransaction} (bip30Exception : Bool) (h : s.view.Valid)
    (hheight : 0 < B.nHeight ∧ B.nHeight < 2 ^ 31) (hchecked : ∀ tx ∈ vtx, tx.Checked)
    (hno : ∀ tx ∈ vtx, tx.isCoinBase = false) (hsound : u.Sound)
    (hconnects : u.ConnectsAll B vtx) (hutxo : s.utxo = u.applyTxs B vtx) :
    ∃ s', disconnectTxs B bip30Exception vtx (u.txUndos B vtx) s = .ok (some true, s') ∧
      Moved s s' u := by
  induction vtx generalizing u with
  | nil => exact ⟨s, rfl, .of_eq h hutxo⟩
  | cons tx vtx ih =>
    obtain ⟨hcheck, hchecked⟩ := List.forall_mem_cons.1 hchecked
    obtain ⟨hnot, hno⟩ := List.forall_mem_cons.1 hno
    obtain ⟨hfirst, hconnects⟩ := hconnects
    obtain ⟨s₁, hlater, hmoved⟩ := ih hchecked hno
      (Utxo.sound_applyTx B (height_ne_zero hheight) hsound hcheck) hconnects hutxo
    obtain ⟨s₂, hundone, hmoved'⟩ := disconnectTx_moved bip30Exception hmoved.valid hheight.2 hcheck
      hsound hfirst (hfirst.free hnot) hmoved.peek
    rw [hnot, if_neg Bool.false_ne_true] at hundone
    refine ⟨s₂, ?_, hmoved.trans hmoved'⟩
    show (disconnectTxs B bip30Exception vtx _ s >>= _) = _
    rw [hlater]
    show (disconnectTx B bip30Exception tx (some (u.txUndo tx)) s₁ >>= _) = _
    rw [hundone]
    rfl

end Inverses

/-! ## 3. A block taken back -/

section Blocks

variable {s s' : CoinsStack} {B} {block : CBlock} {undo : CBlockUndo}

theorem length_txUndos (u : Utxo) (vtx : List CTransaction) :
    (u.txUndos B vtx).length = vtx.length := by
  induction vtx generalizing u with
  | nil => rfl
  | cons tx vtx ih => exact congrArg Nat.succ (ih _)

/-- What `connectBlock` has done, `disconnectBlock` takes back, on any view with its coins. -/
theorem disconnectBlock_moved {s₁ : CoinsStack} (bip30Exception : Bool)
    (hdone : BlockConnected B block s s' undo) (hheight : 0 < B.nHeight ∧ B.nHeight < 2 ^ 31)
    (hsound : s.utxo.Sound) (hfree : ∀ tx ∈ block.vtx, s.utxo.Free B tx)
    (h : s₁.view.Valid) (hutxo : s₁.utxo = s'.utxo) :
    ∃ s₂, disconnectBlock B bip30Exception block undo s₁ = .ok (.ok, s₂) ∧ s₂.view.Valid ∧
      s₂.view.levels = ⟨s.utxo, B.hashPrevBlock⟩ :: s₁.base.levels := by
  obtain ⟨coinbase, vtx, hvtx, hcb, hno⟩ := hdone.checked.first
  have happlied : s₁.utxo = s.utxo.applyTxs B block.vtx :=
    hutxo.trans (congrArg Level.coins (List.cons.inj hdone.levels).1)
  have hchecked := hdone.checked.each
  have hconnects := hdone.connects
  have hundo := hdone.undo
  rw [hvtx] at happlied hchecked hconnects hundo hfree
  obtain ⟨hcheck, hchecked⟩ := List.forall_mem_cons.1 hchecked
  obtain ⟨hgone, -⟩ := List.forall_mem_cons.1 hfree
  obtain ⟨hfirst, hconnects⟩ := hconnects
  obtain ⟨s₂, hlater, hmoved⟩ := disconnectTxs_moved bip30Exception h hheight hchecked hno
    (Utxo.sound_applyTx B (height_ne_zero hheight) hsound hcheck) hconnects happlied
  obtain ⟨s₃, hundone, hmoved'⟩ := disconnectTx_moved bip30Exception hmoved.valid hheight.2 hcheck
    hsound hfirst hgone hmoved.peek
  rw [hcb, if_pos rfl] at hundone
  have hall := hmoved.trans hmoved'
  refine ⟨s₃.setBestBlock B.hashPrevBlock, ?_,
    ⟨hall.valid.1, hall.valid.2.coherent, hall.valid.2.count⟩, ?_⟩
  · unfold disconnectBlock
    rw [hvtx]
    dsimp only
    rw [if_neg (not_not.2 ?_)]
    · rw [hundo]
      show (disconnectTxs B bip30Exception vtx (Utxo.txUndos B _ vtx) s₁ >>= _) = _
      rw [hlater]
      dsimp only [bind, Except.bind]
      rw [hundone]
      rfl
    · rw [hundo]
      exact length_txUndos _ vtx
  · show (⟨s₃.utxo, B.hashPrevBlock⟩ : Level) :: s₃.base.levels = _
    rw [hall.peek, hall.base]

/-- **Connecting a block and disconnecting it again changes nothing.** Whatever the caches between
    have been through, on any view with the coins that the block has left, its undo data takes it
    back: the result is `DISCONNECT_OK`, and the coins and the best block are those before. Where
    BIP30 is not enforced, the block's outputs have to be new for another reason. -/
theorem disconnect_connect {s₁ : CoinsStack} (bip30Exception : Bool) (h : s.view.Valid)
    (hheight : 0 < B.nHeight ∧ B.nHeight < 2 ^ 31) (hsound : s.utxo.Sound)
    (hcollision : NoCollision B block.vtx)
    (hfree : B.enforceBIP30 = false → ∀ tx ∈ block.vtx, s.utxo.Free B tx)
    (hok : connectBlock B block s = .ok (undo, s')) (h₁ : s₁.view.Valid)
    (hutxo : s₁.utxo = s'.utxo) :
    ∃ s₂, disconnectBlock B bip30Exception block undo s₁ = .ok (.ok, s₂) ∧ s₂.view.Valid ∧
      s₂.utxo = s.utxo ∧ s₂.cache.hashBlock = s.bestBlock.1 ∧
      s₂.base.levels = s₁.base.levels := by
  have hdone := connectBlock_spec h hcollision (fun hoff tx htx _ => hfree hoff tx htx) hok
  have hnew : ∀ tx ∈ block.vtx, s.utxo.Free B tx := by
    cases hon : B.enforceBIP30 with
    | true => exact hdone.bip30 hon
    | false => exact hfree hon
  obtain ⟨s₂, hundone, hvalid, hlevels⟩ :=
    disconnectBlock_moved bip30Exception hdone hheight hsound hnew h₁ hutxo
  obtain ⟨hhead, hbase⟩ := List.cons.inj hlevels
  refine ⟨s₂, hundone, hvalid, congrArg Level.coins hhead, ?_, hbase⟩
  rw [(bestBlock_moved h).1, hdone.prev]
  exact congrArg Level.hashBlock hhead

end Blocks

/-- Block 200 on a chain of one coin, with a hash that tells lengths apart. -/
def payContext : BlockContext where
  nHeight := 200
  hashPrevBlock := Hash.repeating 2
  sha256d := fun d => Hash.repeating (UInt8.ofNat d.length)
  nSubsidyHalvingInterval := 210000
  enforceBIP30 := true
  scriptChecks := true
  checkHeader := fun _ => none
  legacySigOps := fun _ => 0
  sequenceLocks := fun _ _ => true
  sigOpCost := fun _ _ => 0
  inputScripts := fun _ _ => none

/-- The coin, and where it is. -/
def paidCoin : UnspentCoin := ⟨⟨⟨5000, [0x51]⟩, true, 1⟩, rfl⟩

def paidOutPoint : COutPoint := ⟨Hash.repeating 1, 0⟩

/-- A cache over a database with the coin. -/
def payView : CoinsStack :=
  ⟨.create true, .db (fun o => if o = paidOutPoint then some paidCoin else none) (Hash.repeating 2)⟩

/-- The coin is spent in two outputs, the second of which cannot be spent, and the coinbase takes
    the subsidy and the fee. -/
def payBlock : CBlock where
  header := ⟨1, Hash.repeating 2, Hash.repeating 0, 0, 0, 0⟩
  vtx := [⟨1, [⟨⟨.null, 0xFFFFFFFF⟩, [1, 2], 0, []⟩], [⟨5000000010, [0x51]⟩], 0⟩,
    ⟨2, [⟨paidOutPoint, [], 0, []⟩], [⟨4000, [0x51]⟩, ⟨990, [0x6a]⟩], 0⟩]

theorem payView_valid : payView.view.Valid := ⟨trivial, coherent_empty, rfl⟩

theorem payView_sound : payView.utxo.Sound := by
  intro o c ho
  have hcoin : (if o = paidOutPoint then some paidCoin else none) = some c := ho
  split at hcoin
  · cases hcoin
    exact ⟨rfl, by decide, by decide⟩
  · cases hcoin

theorem payBlock_noCollision : NoCollision payContext payBlock.vtx := by
  unfold NoCollision
  decide +kernel

theorem payBlock_connects : ∃ undo s', connectBlock payContext payBlock payView = .ok (undo, s') := by
  have hok : (connectBlock payContext payBlock payView).toBool = true := by
    decide +kernel
  cases hconnect : connectBlock payContext payBlock payView with
  | error e =>
    rw [hconnect] at hok
    cases hok
  | ok r => exact ⟨r.1, r.2, rfl⟩

theorem disconnect_connect_pay : ∃ undo s' s₂,
    connectBlock payContext payBlock payView = .ok (undo, s') ∧
    disconnectBlock payContext false payBlock undo s' = .ok (.ok, s₂) ∧
    s₂.utxo = payView.utxo := by
  obtain ⟨undo, s', hok⟩ := payBlock_connects
  have hdone := connectBlock_spec payView_valid payBlock_noCollision
    (fun hoff => absurd hoff.symm Bool.false_ne_true) hok
  obtain ⟨s₂, hundone, -, hutxo, -⟩ := disconnect_connect false payView_valid (by decide)
    payView_sound payBlock_noCollision (fun hoff => absurd hoff.symm Bool.false_ne_true) hok
    hdone.valid rfl
  exact ⟨undo, s', s₂, hok, hundone, hutxo⟩

end SwiftBitcoinKernel
