/-
  File:      SwiftBitcoinKernel/Kernel/Verdict.lean
  Subject:   What `ConnectBlock` answers depends on the coins, not on the caches.

  A view is a stack of caches, and which coins are cached, and with which flags, depends on
  everything that has happened to it. Two views that stand for the same coins are put side by side,
  and every function of `ConnectBlock` is run on both.

  * `Same` -- two views with the same coins;
  * `getCoin_same`, …, `connectTxs_same` -- one lemma for each function;
  * `connectBlock_same` -- one reason to reject the block, or the same undo data and the same coins
    after; no assertion fails, and nothing is thrown;
  * `connectBlock_of_checked` -- a block that connects with more of its scripts checked connects.
-/
import SwiftBitcoinKernel.Kernel.DisconnectBlock

namespace SwiftBitcoinKernel

open Logic SwiftBitcoinKernel.Core

/-- Two views that stand for the same coins. -/
structure Same (s₁ s₂ : CoinsStack) : Prop where
  left : s₁.view.Valid
  right : s₂.view.Valid
  utxo : s₁.utxo = s₂.utxo

/-- The same answer, and views that stand for the same coins after it. -/
def SameAnswer {α : Type} (r₁ r₂ : α × CoinsStack) : Prop := r₁.1 = r₂.1 ∧ Same r₁.2 r₂.2

/-- The block is rejected: no other end of the function. -/
def Rejects (e : ConnectError) : Prop := ∃ reason, e = .invalid reason

section Functions

variable {s₁ s₂ : CoinsStack} {B : BlockContext} {tx : CTransaction}

theorem getCoin_same (h : Same s₁ s₂) (o : COutPoint) :
    ∃ s₁' s₂', s₁.getCoin o = (s₁.utxo o, s₁') ∧ s₂.getCoin o = (s₁.utxo o, s₂') ∧
      Same s₁' s₂' ∧ s₁'.utxo = s₁.utxo := by
  obtain ⟨s₁', hget₁, hmoved₁⟩ := getCoin_moved h.left o
  obtain ⟨s₂', hget₂, hmoved₂⟩ := getCoin_moved h.right o
  refine ⟨s₁', s₂', hget₁, ?_, ⟨hmoved₁.valid, hmoved₂.valid, ?_⟩, hmoved₁.peek⟩
  · rw [hget₂, h.utxo]
  · rw [hmoved₁.peek, hmoved₂.peek, h.utxo]

theorem haveInputs_same (h : Same s₁ s₂) (vin : List CTxIn) :
    SameAnswer (haveInputs vin s₁) (haveInputs vin s₂) := by
  induction vin generalizing s₁ s₂ with
  | nil => exact ⟨rfl, h⟩
  | cons i vin ih =>
    obtain ⟨s₁', s₂', hget₁, hget₂, h', -⟩ := getCoin_same h i.prevout
    unfold haveInputs
    rw [hget₁, hget₂]
    cases s₁.utxo i.prevout with
    | none => exact ⟨rfl, h'⟩
    | some coin => exact ih h'

theorem accessCoins_same (h : Same s₁ s₂) (vin : List CTxIn) :
    SameAnswer (accessCoins vin s₁) (accessCoins vin s₂) := by
  induction vin generalizing s₁ s₂ with
  | nil => exact ⟨rfl, h⟩
  | cons i vin ih =>
    obtain ⟨s₁', s₂', hget₁, hget₂, h', -⟩ := getCoin_same h i.prevout
    obtain ⟨hrest, hsame⟩ := ih h'
    unfold accessCoins
    rw [hget₁, hget₂]
    exact ⟨congrArg (s₁.utxo i.prevout :: ·) hrest, hsame⟩

theorem sumInputs_same {vin : List CTxIn} (h : Same s₁ s₂)
    (hthere : ∀ i ∈ vin, s₁.utxo i.prevout ≠ none) (nSpendHeight : Nat) (sum : Int64) :
    Related Rejects SameAnswer (sumInputs nSpendHeight vin sum s₁)
      (sumInputs nSpendHeight vin sum s₂) := by
  induction vin generalizing s₁ s₂ sum with
  | nil => exact .ok ⟨rfl, h⟩
  | cons i vin ih =>
    obtain ⟨hhere, hthere⟩ := List.forall_mem_cons.1 hthere
    obtain ⟨s₁', s₂', hget₁, hget₂, h', hutxo⟩ := getCoin_same h i.prevout
    unfold sumInputs
    rw [hget₁, hget₂]
    cases hcoin : s₁.utxo i.prevout with
    | none => exact absurd hcoin hhere
    | some coin =>
      dsimp only
      split
      · exact .error ⟨_, rfl⟩
      · split
        · exact .error ⟨_, rfl⟩
        · rw [← hutxo] at hthere
          exact ih h' hthere _

theorem checkTxInputs_same (h : Same s₁ s₂) (hchecked : tx.Checked) (nSpendHeight : Nat) :
    Related Rejects SameAnswer (checkTxInputs tx nSpendHeight s₁)
      (checkTxInputs tx nSpendHeight s₂) := by
  obtain ⟨valueOut, hvalueOut⟩ := hchecked.valueOut
  obtain ⟨hanswer, h'⟩ := haveInputs_same h tx.vin
  obtain ⟨hmoved, hthere⟩ := haveInputs_moved h.left tx.vin
  unfold checkTxInputs
  revert hanswer h' hmoved hthere
  generalize haveInputs tx.vin s₁ = r₁
  generalize haveInputs tx.vin s₂ = r₂
  obtain ⟨have₁, s₁'⟩ := r₁
  obtain ⟨have₂, s₂'⟩ := r₂
  intro hanswer h' hmoved hthere
  dsimp only at hanswer h' hmoved hthere
  subst hanswer
  cases have₁ with
  | false => exact .error ⟨_, rfl⟩
  | true =>
    have hthere' := hthere rfl
    rw [← hmoved.peek] at hthere'
    refine (sumInputs_same h' hthere' nSpendHeight 0).bind fun r₁ r₂ hr => ?_
    obtain ⟨nValueIn, s₁''⟩ := r₁
    obtain ⟨nValueIn', s₂''⟩ := r₂
    obtain ⟨hvalue, hsame⟩ := hr
    dsimp only at hvalue hsame ⊢
    subst hvalue
    rw [hvalueOut]
    dsimp only
    split
    · exact .error ⟨_, rfl⟩
    · split
      · exact .error ⟨_, rfl⟩
      · exact .ok ⟨rfl, hsame⟩

theorem checkSpend_same (h : Same s₁ s₂) (hchecked : tx.Checked) (nFees : Int64) :
    Related Rejects SameAnswer (checkSpend B tx nFees s₁) (checkSpend B tx nFees s₂) := by
  refine (checkTxInputs_same h hchecked B.nHeight).bind fun r₁ r₂ hr => ?_
  obtain ⟨txfee, s₁'⟩ := r₁
  obtain ⟨txfee', s₂'⟩ := r₂
  obtain ⟨hfee, h'⟩ := hr
  dsimp only at hfee h' ⊢
  subst hfee
  obtain ⟨hcoins, hsame⟩ := accessCoins_same h' tx.vin
  split
  · exact .error ⟨_, rfl⟩
  · rw [hcoins]
    split
    · exact .error ⟨_, rfl⟩
    · exact .ok ⟨rfl, hsame⟩

theorem noneThere_same (h : Same s₁ s₂) (txid : Hash) (i : Nat) (vout : List CTxOut) :
    SameAnswer (noneThere txid i vout s₁) (noneThere txid i vout s₂) := by
  induction vout generalizing s₁ s₂ i with
  | nil => exact ⟨rfl, h⟩
  | cons out vout ih =>
    obtain ⟨s₁', s₂', hget₁, hget₂, h', -⟩ := getCoin_same h ⟨txid, UInt32.ofNat i⟩
    obtain ⟨hrest, hsame⟩ := ih h' (i + 1)
    unfold noneThere
    rw [hget₁, hget₂]
    exact ⟨congrArg (Option.isNone _ && ·) hrest, hsame⟩

theorem noOverwrite_same (h : Same s₁ s₂) (vtx : List CTransaction) :
    SameAnswer (noOverwrite B vtx s₁) (noOverwrite B vtx s₂) := by
  induction vtx generalizing s₁ s₂ with
  | nil => exact ⟨rfl, h⟩
  | cons tx vtx ih =>
    obtain ⟨hfirst, h'⟩ := noneThere_same h (tx.txid B.sha256d) 0 tx.vout
    obtain ⟨hrest, hsame⟩ := ih h'
    unfold noOverwrite
    dsimp only
    rw [hfirst, hrest]
    exact ⟨rfl, hsame⟩

/-- The same undo data and sums, and the same coins. -/
def SameRound {α : Type} (r₁ r₂ : α × Tally × CoinsStack) : Prop :=
  r₁.1 = r₂.1 ∧ r₁.2.1 = r₂.2.1 ∧ Same r₁.2.2 r₂.2.2

/-- One round. The outputs have to be new where the inputs are there, as an `AddCoin` that
    overwrites would depend on the cache. -/
theorem connectTx_same {t : Tally} (h : Same s₁ s₂) (hfees : moneyRange t.nFees = true)
    (hchecked : tx.Checked)
    (hfree : tx.isCoinBase = false → (∀ i ∈ tx.vin, s₁.utxo i.prevout ≠ none) →
      s₁.utxo.Free B tx) :
    Related Rejects SameRound (connectTx B tx t s₁) (connectTx B tx t s₂) := by
  -- what the checks before the scripts leave
  have hcheck : Related Rejects (fun r₁ r₂ : Int64 × CoinsStack => SameAnswer r₁ r₂ ∧ r₁.2.utxo = s₁.utxo ∧
        (tx.isCoinBase = false → ∀ i ∈ tx.vin, s₁.utxo i.prevout ≠ none))
      (if tx.isCoinBase then .ok (t.nFees, s₁) else checkSpend B tx t.nFees s₁)
      (if tx.isCoinBase then .ok (t.nFees, s₂) else checkSpend B tx t.nFees s₂) := by
    cases hcb : tx.isCoinBase with
    | true => exact .ok ⟨⟨rfl, h⟩, rfl, fun hno => by cases hno⟩
    | false =>
      simp only [Bool.false_eq_true, if_false]
      refine (checkSpend_same h hchecked t.nFees).known.mono fun r₁ r₂ hr => ?_
      obtain ⟨hsame, hok, -⟩ := hr
      obtain ⟨hmoved, hmature, -⟩ := checkSpend_moved B h.left hfees hok
      exact ⟨hsame, hmoved.peek, fun _ i hi => (hmature i hi).ne_none⟩
  refine hcheck.bind fun r₁ r₂ hr => ?_
  obtain ⟨nFees, s₁'⟩ := r₁
  obtain ⟨nFees', s₂'⟩ := r₂
  obtain ⟨⟨heq, h'⟩, hutxo, hthere⟩ := hr
  dsimp only at heq h' hutxo ⊢
  subst heq
  obtain ⟨hcoins, h''⟩ := accessCoins_same h' tx.vin
  have haccess := accessCoins_moved h'.left tx.vin
  rw [hutxo] at haccess
  rw [hcoins]
  split
  · exact .error ⟨_, rfl⟩
  · split
    · exact .error ⟨_, rfl⟩
    · -- both add and spend the same coins
      obtain ⟨s₁'', hupdate₁, hmoved₁⟩ := updateCoins_moved B h''.left hchecked
        (fun hno i hi => by
          rw [haccess.peek]
          exact hthere hno i hi)
        (fun hno => by
          rw [haccess.peek]
          exact hfree hno (hthere hno))
      obtain ⟨s₂'', hupdate₂, hmoved₂⟩ := updateCoins_moved B h''.right hchecked
        (fun hno i hi => by
          rw [← h''.utxo, haccess.peek]
          exact hthere hno i hi)
        (fun hno => by
          rw [← h''.utxo, haccess.peek]
          exact hfree hno (hthere hno))
      rw [hupdate₁, hupdate₂]
      refine .ok ⟨?_, rfl, hmoved₁.valid, hmoved₂.valid, ?_⟩
      · show Utxo.txUndo _ tx = Utxo.txUndo _ tx
        rw [h''.utxo]
      · rw [hmoved₁.peek, hmoved₂.peek, h''.utxo]

/-- The loop over the transactions after the first. -/
theorem connectTxs_same {u₀ : Utxo} {all done vtx : List CTransaction} {t : Tally}
    (hcollision : NoCollision B all) (h : Same s₁ s₂) (hfees : moneyRange t.nFees = true)
    (hsince : Utxo.Since B u₀ done s₁.utxo) (hdone : ∀ tx ∈ done, tx ∈ all)
    (hall : ∀ tx ∈ vtx, tx ∈ all) (hchecked : ∀ tx ∈ vtx, tx.Checked)
    (hno : ∀ tx ∈ vtx, tx.isCoinBase = false) (hfree : ∀ tx ∈ vtx, u₀.Free B tx) :
    Related Rejects SameRound (connectTxs B vtx t s₁) (connectTxs B vtx t s₂) := by
  induction vtx generalizing s₁ s₂ t done with
  | nil => exact .ok ⟨rfl, rfl, h⟩
  | cons tx vtx ih =>
    obtain ⟨hmem, hall⟩ := List.forall_mem_cons.1 hall
    obtain ⟨hcheck, hchecked⟩ := List.forall_mem_cons.1 hchecked
    obtain ⟨hnot, hno⟩ := List.forall_mem_cons.1 hno
    obtain ⟨hgone, hfree⟩ := List.forall_mem_cons.1 hfree
    have hnew : (∀ i ∈ tx.vin, s₁.utxo i.prevout ≠ none) →
        tx.txid B.sha256d ∉ done.map (CTransaction.txid B.sha256d) := fun hthere =>
      hsince.txid_new hnot hcheck.vin_ne hthere fun tx' htx' =>
        hcollision tx' (hdone tx' htx') tx hmem
    refine (connectTx_same h hfees hcheck fun _ hthere =>
      hsince.free hgone (hnew hthere)).known.bind fun r₁ r₂ hr => ?_
    obtain ⟨txundo, t₁, s₁'⟩ := r₁
    obtain ⟨txundo', t₁', s₂'⟩ := r₂
    obtain ⟨⟨hundo, ht, h'⟩, hok, -⟩ := hr
    dsimp only at hundo ht h' ⊢
    subst hundo ht
    -- what the first transaction has done, for the invariant of those after it
    obtain ⟨hmoved, -, hconnects, -, hrange⟩ := connectTx_moved B h.left hfees hcheck
      (fun _ hthere => hsince.free hgone (hnew hthere)) hok
    have hsince' := hsince.apply hconnects
      (hnew fun i hi => (hconnects.inputs hnot i hi).ne_none)
      (fun hcb => absurd (hnot.symm.trans hcb) Bool.false_ne_true) fun _ => hgone
    rw [← hmoved.peek] at hsince'
    refine (ih h' hrange hsince' (List.forall_mem_cons.2 ⟨hmem, hdone⟩) hall hchecked hno
      hfree).bind fun r₁ r₂ hr => ?_
    obtain ⟨rest, t₂, s₁''⟩ := r₁
    obtain ⟨rest', t₂', s₂''⟩ := r₂
    obtain ⟨hrest, ht, h''⟩ := hr
    dsimp only at hrest ht h'' ⊢
    subst hrest ht
    exact .ok ⟨rfl, rfl, h''⟩

/-- The loop over all transactions of a block. -/
theorem connectBlock_loop_same {block : CBlock} (h : Same s₁ s₂) (hblock : block.Checked)
    (hcollision : NoCollision B block.vtx)
    (hfree : ∀ tx ∈ block.vtx, tx.isCoinBase = false → s₁.utxo.Free B tx) :
    Related Rejects SameRound (connectTxs B block.vtx ⟨0, 0⟩ s₁) (connectTxs B block.vtx ⟨0, 0⟩ s₂) := by
  obtain ⟨⟨coinbase, vtx, hvtx, hcb, hno⟩, -, hchecked⟩ := hblock
  rw [hvtx] at hcollision hfree hchecked ⊢
  obtain ⟨hcheck, hchecked⟩ := List.forall_mem_cons.1 hchecked
  obtain ⟨-, hfree⟩ := List.forall_mem_cons.1 hfree
  have hfirst : coinbase.isCoinBase = false → (∀ i ∈ coinbase.vin, s₁.utxo i.prevout ≠ none) →
      s₁.utxo.Free B coinbase := fun hnot => absurd (hnot.symm.trans hcb) Bool.false_ne_true
  refine (connectTx_same h (by decide) hcheck hfirst).known.bind fun r₁ r₂ hr => ?_
  obtain ⟨txundo, t₁, s₁'⟩ := r₁
  obtain ⟨txundo', t₁', s₂'⟩ := r₂
  obtain ⟨⟨hundo, ht, h'⟩, hok, -⟩ := hr
  dsimp only at hundo ht h' ⊢
  subst hundo ht
  obtain ⟨hmoved, -, hconnects, -, hrange⟩ := connectTx_moved B h.left (by decide) hcheck hfirst hok
  have hsince := Utxo.since_nil.apply hconnects List.not_mem_nil (fun _ => rfl)
    fun hnot => absurd (hnot.symm.trans hcb) Bool.false_ne_true
  rw [← hmoved.peek] at hsince
  refine (connectTxs_same hcollision h' hrange hsince
    (fun tx htx => List.mem_cons.2 (Or.inl (List.mem_singleton.1 htx)))
    (fun tx => List.mem_cons_of_mem coinbase) hchecked hno
    fun tx htx => hfree tx htx (hno tx htx)).bind fun r₁ r₂ hr => ?_
  obtain ⟨rest, t₂, s₁''⟩ := r₁
  obtain ⟨rest', t₂', s₂''⟩ := r₂
  obtain ⟨hrest, ht, h''⟩ := hr
  dsimp only at hrest ht h'' ⊢
  subst hrest ht
  exact .ok ⟨rfl, rfl, h''⟩

end Functions

/-- The view after a block: the same undo data, coins and best block. -/
def SameBlock (r₁ r₂ : CBlockUndo × CoinsStack) : Prop :=
  SameAnswer r₁ r₂ ∧ r₁.2.cache.hashBlock = r₂.2.cache.hashBlock

theorem checkBIP30_same {s₁ s₂ : CoinsStack} {B : BlockContext} (h : Same s₁ s₂)
    (block : CBlock) : SameAnswer (checkBIP30 B block s₁) (checkBIP30 B block s₂) := by
  unfold checkBIP30
  split
  · exact noOverwrite_same h block.vtx
  · exact ⟨rfl, h⟩

/-- **`ConnectBlock` cannot see the caches.** On two views that stand for the same coins, at the
    block's parent, it rejects the block for one reason, or succeeds on both, with the same undo data,
    the same coins and the same best block; it meets none of its assertions, and nothing is thrown.
    Where BIP30 is not enforced, the block's outputs have to be new for another reason. -/
theorem connectBlock_same {s₁ s₂ : CoinsStack} {B : BlockContext} {block : CBlock}
    (h₁ : s₁.view.Valid) (h₂ : s₂.view.Valid) (hutxo : s₁.utxo = s₂.utxo)
    (hbest₁ : s₁.bestBlock.1 = B.hashPrevBlock) (hbest₂ : s₂.bestBlock.1 = B.hashPrevBlock)
    (hcollision : NoCollision B block.vtx)
    (hfree : B.enforceBIP30 = false → ∀ tx ∈ block.vtx, tx.isCoinBase = false →
      s₁.utxo.Free B tx) :
    Related Rejects SameBlock (connectBlock B block s₁) (connectBlock B block s₂) := by
  obtain ⟨-, hvalid₁, -, hutxo₁⟩ := bestBlock_moved h₁
  obtain ⟨-, hvalid₂, -, hutxo₂⟩ := bestBlock_moved h₂
  have h : Same s₁.bestBlock.2 s₂.bestBlock.2 :=
    ⟨hvalid₁, hvalid₂, by rw [hutxo₁, hutxo₂, hutxo]⟩
  unfold connectBlock
  split
  · exact .error ⟨_, rfl⟩
  · rename_i hcheck
    have hblock := checkBlock_none B hcheck
    dsimp only
    rw [hbest₁, hbest₂, if_neg (not_not.2 rfl), if_neg (not_not.2 rfl)]
    obtain ⟨hanswer, h'⟩ := checkBIP30_same (B := B) h block
    obtain ⟨hmoved, hbip⟩ := checkBIP30_moved B hvalid₁ block
    rw [hutxo₁] at hmoved hbip
    rw [← hanswer]
    split
    · exact .error ⟨_, rfl⟩
    · rename_i hpassed
      rw [Bool.not_eq_true, Bool.not_eq_false'] at hpassed
      have hnew : ∀ tx ∈ block.vtx, tx.isCoinBase = false → s₁.utxo.Free B tx := by
        cases hon : B.enforceBIP30 with
        | true => exact fun tx htx _ => hbip hpassed hon tx htx
        | false => exact hfree hon
      refine (connectBlock_loop_same h' hblock hcollision
        (hmoved.peek ▸ hnew)).bind fun r₁ r₂ hr => ?_
      obtain ⟨undo, t, s₁'⟩ := r₁
      obtain ⟨undo', t', s₂'⟩ := r₂
      obtain ⟨hundo, ht, h''⟩ := hr
      dsimp only at hundo ht h'' ⊢
      subst hundo ht
      -- the coinbase has been checked as every transaction has
      obtain ⟨coinbase, vtx, hvtx, -⟩ := hblock.first
      obtain ⟨valueOut, hvalueOut⟩ :=
        (hblock.each coinbase (by rw [hvtx]; exact List.mem_cons_self)).valueOut
      rw [hvtx, List.headD_cons, hvalueOut]
      dsimp only
      split
      · exact .error ⟨_, rfl⟩
      · refine .ok ⟨⟨rfl, ?_, ?_, h''.utxo⟩, rfl⟩
        · exact ⟨h''.left.1, h''.left.2.coherent, h''.left.2.count⟩
        · exact ⟨h''.right.1, h''.right.2.coherent, h''.right.2.count⟩

section Scripts

variable {B : BlockContext} {fScriptChecks : Bool} {s : CoinsStack}

theorem noOverwrite_scriptChecks (vtx : List CTransaction) :
    noOverwrite { B with scriptChecks := fScriptChecks } vtx s = noOverwrite B vtx s := by
  induction vtx generalizing s with
  | nil => rfl
  | cons tx vtx ih =>
    unfold noOverwrite
    dsimp only
    rw [ih]

theorem checkBIP30_scriptChecks (block : CBlock) :
    checkBIP30 { B with scriptChecks := fScriptChecks } block s = checkBIP30 B block s := by
  unfold checkBIP30
  rw [noOverwrite_scriptChecks]

variable (hmore : B.scriptChecks = true → fScriptChecks = true)
include hmore

theorem connectTx_of_checked {tx : CTransaction} {t : Tally} {r : CTxUndo × Tally × CoinsStack}
    (h : connectTx { B with scriptChecks := fScriptChecks } tx t s = .ok r) :
    connectTx B tx t s = .ok r := by
  obtain ⟨⟨nFees, s₁⟩, hcheck, h⟩ := of_except_bind h
  have hcheck' : (if tx.isCoinBase then .ok (t.nFees, s) else checkSpend B tx t.nFees s) =
      Except.ok (nFees, s₁) := hcheck
  unfold connectTx
  rw [hcheck']
  dsimp only [bind, Except.bind] at h ⊢
  split at h
  · cases h
  · rename_i hcost
    rw [if_neg hcost]
    split at h
    · cases h
    · rename_i hscripts
      have hscripts' : (if (!tx.isCoinBase && B.scriptChecks) = true then
          B.inputScripts tx (accessCoins tx.vin s₁).1 else none) = none := by
        split
        · rename_i hon
          obtain ⟨hcoinbase, hon⟩ := Bool.and_eq_true_iff.1 hon
          rw [if_pos (Bool.and_eq_true_iff.2 ⟨hcoinbase, hmore hon⟩)] at hscripts
          exact hscripts
        · rfl
      rw [hscripts']
      exact h

theorem connectTxs_of_checked {vtx : List CTransaction} {t : Tally}
    {r : List CTxUndo × Tally × CoinsStack}
    (h : connectTxs { B with scriptChecks := fScriptChecks } vtx t s = .ok r) :
    connectTxs B vtx t s = .ok r := by
  induction vtx generalizing t s r with
  | nil => exact h
  | cons tx vtx ih =>
    obtain ⟨⟨txundo, t₁, s₁⟩, hfirst, h⟩ := of_except_bind h
    obtain ⟨⟨rest, t₂, s₂⟩, hrest, h⟩ := of_except_bind h
    unfold connectTxs
    rw [connectTx_of_checked hmore hfirst]
    dsimp only [bind, Except.bind]
    rw [ih hrest]
    exact h

/-- **Checking more scripts rejects more blocks**, and changes nothing else. -/
theorem connectBlock_of_checked {block : CBlock} {r : CBlockUndo × CoinsStack}
    (h : connectBlock { B with scriptChecks := fScriptChecks } block s = .ok r) :
    connectBlock B block s = .ok r := by
  unfold connectBlock at h ⊢
  have hsame : checkBlock { B with scriptChecks := fScriptChecks } block = checkBlock B block := rfl
  rw [hsame] at h
  cases hcheck : checkBlock B block with
  | some reason =>
    rw [hcheck] at h
    cases h
  | none =>
    rw [hcheck] at h
    dsimp only at h ⊢
    rw [checkBIP30_scriptChecks] at h
    split at h
    · cases h
    · rename_i hbest
      rw [if_neg hbest]
      split at h
      · cases h
      · rename_i hbip30
        rw [if_neg hbip30]
        obtain ⟨⟨undo, t, s'⟩, hloop, h⟩ := of_except_bind h
        rw [connectTxs_of_checked hmore hloop]
        exact h

end Scripts

end SwiftBitcoinKernel
