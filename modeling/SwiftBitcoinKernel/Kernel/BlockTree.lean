/-
  File:      SwiftBitcoinKernel/Kernel/BlockTree.lean
  Subject:   What each block of a tree leaves: its coins and its undo data.

  A header commits to its block, and its line of headers to the coins that the block can spend. So
  the coins after a block, its undo data and whether it connects depend on the block alone, whatever
  way the program has come to it; only whether its scripts are checked is decided each time anew.
  Here they are defined from the parent's coins, and what `DisconnectBlock` and `RollforwardBlock`
  write is followed along a branch.

  * `BlockTree` -- the blocks, and what the functions read of the parameters;
  * `BlockTree.utxo`, `BlockTree.undo`, `BlockTree.verdict`, `BlockTree.connects`;
  * `Regular`, `Accepted` -- what the tree's blocks have to be, and a block whose whole line connects;
  * `rollBackWrites`, `rollForwardWrites` -- the writes along a branch, which lead from the coins of
    one block to those of another.
-/
import SwiftBitcoinKernel.Kernel.Undo
import SwiftBitcoinKernel.Kernel.Verdict
import SwiftBitcoinKernel.Kernel.Replay
import SwiftBitcoinKernel.Logic.Ancestry

namespace SwiftBitcoinKernel

open Logic SwiftBitcoinKernel.Core

/-! ## 1. The tree -/

/-- The blocks that have been stored, and what the functions read of the parameters of the chain,
    of an index entry and of the machine. The height, the parent's hash and the hash function in
    `rules` are not used. `scriptChecks` there says that the scripts of the block are checked every
    time; where it is false, they may be skipped at one time (`-assumevalid`) and checked at
    another. -/
structure BlockTree where
  genesis : BlockHeader
  block : BlockIndex → CBlock
  sha256d : Data → Hash
  rules : BlockIndex → BlockContext
  bip30Exception : BlockIndex → Bool
  pubKeys : PubKeys
  abi : UndoAbi
  messageStart : Data
  messageStart_length : messageStart.length = 4
  nFile : BlockIndex → Nat

/-- `pprev == nullptr ? uint256() : pprev->GetBlockHash()`. -/
def prevHash (x : BlockIndex) : Hash := x.parent?.elim .null BlockIndex.hash

namespace BlockTree

variable (T : BlockTree)

/-- What `ConnectBlock` reads of an entry and of the parameters. -/
def context (x : BlockIndex) : BlockContext :=
  { T.rules x with nHeight := x.depth, hashPrevBlock := prevHash x, sha256d := T.sha256d }

/-- The same at a time when `fScriptChecks` has been decided, from the block that is assumed valid,
    the block index and the best header. -/
def contextAt (x : BlockIndex) (fScriptChecks : Bool) : BlockContext :=
  { T.context x with scriptChecks := fScriptChecks }

/-- What the undo files need. -/
def undoContext : UndoContext := ⟨T.messageStart, T.messageStart_length, T.nFile, prevHash, T.sha256d⟩

/-- `ReadBlock`, which compares the hash of what it has read. -/
def readBlock (x : BlockIndex) : Option CBlock :=
  if (T.block x).header.hash T.sha256d = x.hash then some (T.block x) else none

/-- **The coins after a block**: the transactions of its line, one after another. Those of genesis
    are not among the coins. -/
def utxo : BlockIndex → Utxo
  | .root _ => fun _ => none
  | .child p header =>
    (utxo p).applyTxs (T.context (.child p header)) (T.block (.child p header)).vtx

/-- The coins before a block. -/
def utxoBefore (x : BlockIndex) : Utxo := x.parent?.elim (fun _ => none) T.utxo

/-- The undo data of a block. -/
def undo (x : BlockIndex) : CBlockUndo :=
  ((T.utxoBefore x).txUndos (T.context x) (T.block x).vtx).tail

/-- A cache over a database at a block's parent. -/
def reference (x : BlockIndex) : CoinsStack :=
  ⟨.create true, .db (T.utxoBefore x) (prevHash x)⟩

/-- **Whether a block connects**, with its scripts checked or not. Genesis always does. -/
def verdict (x : BlockIndex) (fScriptChecks : Bool) : Bool :=
  x.parent?.isNone || (connectBlock (T.contextAt x fScriptChecks) (T.block x) (T.reference x)).toBool

/-- **Whether a block connects**, with its scripts checked where that is done every time. -/
def connects (x : BlockIndex) : Bool :=
  x.parent?.isNone || (connectBlock (T.context x) (T.block x) (T.reference x)).toBool

/-- **What an entry has to be**: its hash is not zero, its height is in the range of a coin's, the
    block that is stored for it has its hash, no two of its transactions have one txid unless they
    are one, and where BIP30 is not enforced, its outputs are new all the same. -/
structure Regular (x : BlockIndex) : Prop where
  hash : x.hash ≠ .null
  height : x.depth < 2 ^ 31
  stored : (T.block x).header.hash T.sha256d = x.hash
  collision : NoCollision (T.context x) (T.block x).vtx
  free : (T.context x).enforceBIP30 = false → ∀ tx ∈ (T.block x).vtx,
    (T.utxoBefore x).Free (T.context x) tx

/-- **A block whose whole line connects.** -/
def Accepted (x : BlockIndex) : Prop := ∀ y ∈ x.line, T.Regular y ∧ T.connects y = true

end BlockTree

/-! ## 2. One block -/

section Blocks

variable {T : BlockTree} {x p : BlockIndex} {header : BlockHeader}

theorem BlockTree.Accepted.of_mem (h : T.Accepted x) {y : BlockIndex} (hy : y ∈ x.line) :
    T.Accepted y :=
  fun _ hz => h _ (Lineage.mem_line_trans hy hz)

theorem BlockTree.Accepted.parent (h : T.Accepted (.child p header)) : T.Accepted p :=
  h.of_mem (List.mem_cons_of_mem _ Lineage.mem_line_self)

theorem BlockTree.Accepted.child (h : T.Accepted p) (hregular : T.Regular (.child p header))
    (hconnects : T.connects (.child p header) = true) : T.Accepted (.child p header) := by
  intro y hy
  rcases List.mem_cons.1 hy with rfl | hy
  · exact ⟨hregular, hconnects⟩
  · exact h y hy

theorem reference_valid (x : BlockIndex) : (T.reference x).view.Valid :=
  ⟨trivial, coherent_empty, rfl⟩

theorem reference_best (x : BlockIndex) :
    (T.reference x).bestBlock.1 = (T.context x).hashPrevBlock := rfl

/-- A block that was connected at some time connects. -/
theorem BlockTree.connects_of_verdict {fScriptChecks : Bool}
    (hmore : (T.rules x).scriptChecks = true → fScriptChecks = true)
    (h : T.verdict x fScriptChecks = true) : T.connects x = true := by
  unfold BlockTree.verdict at h
  unfold BlockTree.connects
  rcases Bool.or_eq_true_iff.1 h with hgenesis | hconnect
  · exact Bool.or_eq_true_iff.2 (.inl hgenesis)
  · refine Bool.or_eq_true_iff.2 (.inr ?_)
    cases hresult : connectBlock (T.contextAt x fScriptChecks) (T.block x) (T.reference x) with
    | error e =>
      rw [hresult] at hconnect
      cases hconnect
    | ok r =>
      rw [connectBlock_of_checked (B := T.context x) hmore hresult]
      rfl

/-- What `ConnectBlock` has done, of an entry that connects. -/
theorem connected_of_connects (hregular : T.Regular (.child p header))
    (hconnects : T.connects (.child p header) = true) :
    ∃ s', BlockConnected (T.context (.child p header)) (T.block (.child p header))
        (T.reference (.child p header)) s' (T.undo (.child p header)) ∧
      s'.utxo = T.utxo (.child p header) := by
  unfold BlockTree.connects at hconnects
  cases hresult : connectBlock (T.context (.child p header)) (T.block (.child p header))
      (T.reference (.child p header)) with
  | error e =>
    rw [hresult] at hconnects
    cases hconnects
  | ok r =>
    obtain ⟨undo, s'⟩ := r
    have hdone := connectBlock_spec (reference_valid (.child p header)) hregular.collision
      (fun hoff tx htx _ => hregular.free hoff tx htx) hresult
    have hundo : undo = T.undo (.child p header) := hdone.undo
    rw [hundo] at hdone
    exact ⟨s', hdone, congrArg Level.coins (List.cons.inj hdone.levels).1⟩

theorem heights (hregular : T.Regular (.child p header)) :
    0 < (T.context (.child p header)).nHeight ∧ (T.context (.child p header)).nHeight < 2 ^ 31 :=
  ⟨Nat.succ_pos _, hregular.height⟩

/-- **Every coin is one that a block has made.** -/
theorem sound_utxo (h : T.Accepted x) : (T.utxo x).Sound := by
  induction x with
  | root header => exact fun _ _ ho => by cases ho
  | child p header ih =>
    obtain ⟨hregular, hconnects⟩ := h _ Lineage.mem_line_self
    obtain ⟨s', hdone, -⟩ := connected_of_connects hregular hconnects
    exact Utxo.sound_applyTxs (height_ne_zero (heights hregular)) (ih h.parent) hdone.checked.each

/-- The outputs of a block are new. -/
theorem free_of_connects (hregular : T.Regular (.child p header))
    (hconnects : T.connects (.child p header) = true) :
    ∀ tx ∈ (T.block (.child p header)).vtx,
      (T.utxo p).Free (T.context (.child p header)) tx := by
  obtain ⟨s', hdone, -⟩ := connected_of_connects hregular hconnects
  cases hon : (T.context (.child p header)).enforceBIP30 with
  | true => exact hdone.bip30 hon
  | false => exact hregular.free hon

/-- **The undo data fits the block.** -/
theorem undoFits (h : T.Accepted (.child p header)) :
    ∃ coinbase vtx, (T.block (.child p header)).vtx = coinbase :: vtx ∧
      List.Forall₂ UndoFits vtx (T.undo (.child p header)) := by
  obtain ⟨hregular, hconnects⟩ := h _ Lineage.mem_line_self
  obtain ⟨s', hdone, -⟩ := connected_of_connects hregular hconnects
  exact undoFits_of_connected hdone (heights hregular) (sound_utxo h.parent)

/-- The writes that take a block back. -/
theorem writes_back (h : T.Accepted (.child p header)) :
    writes (blockUnwrites (T.context (.child p header)) (T.block (.child p header))
      (T.undo (.child p header))) (T.utxo (.child p header)) = T.utxo p := by
  obtain ⟨hregular, hconnects⟩ := h _ Lineage.mem_line_self
  obtain ⟨s', hdone, hutxo⟩ := connected_of_connects hregular hconnects
  have hback := blockUnwrites_eq hdone (heights hregular) (sound_utxo h.parent)
    (free_of_connects hregular hconnects)
  rw [hutxo] at hback
  exact hback

theorem length_le_of_spendable {script : Data} (h : isUnspendable script = false) :
    script.length ≤ 10000 := by
  unfold isUnspendable at h
  simp only [Bool.or_eq_false_iff, decide_eq_false_iff_not] at h
  omega

/-- **The undo data can be stored.** -/
theorem storable_undo (h : T.Accepted (.child p header)) :
    (T.undo (.child p header)).Storable := by
  obtain ⟨hregular, hconnects⟩ := h _ Lineage.mem_line_self
  obtain ⟨s', hdone, -⟩ := connected_of_connects hregular hconnects
  obtain ⟨coinbase, vtx, hvtx, hfits⟩ := undoFits h
  have hfew := hdone.checked.few
  have heach := hdone.checked.each
  rw [hvtx] at hfew heach
  have hmax : 1000000 ≤ maxSize := by decide
  have hlength := hfits.length_eq
  refine ⟨?_, fun txundo htxundo => ?_⟩
  · rw [List.length_cons] at hfew
    omega
  · obtain ⟨i, rfl⟩ := List.mem_iff_get.1 htxundo
    have hi : i < vtx.length := by
      rw [hlength]
      exact i.isLt
    have hfit := hfits.get hi i.isLt
    have hinputs := (heach _ (List.mem_cons_of_mem coinbase (List.get_mem vtx ⟨i, hi⟩))).fewInputs
    refine ⟨by rw [hfit.length]; omega, fun c hc => ?_⟩
    obtain ⟨hsound, -⟩ := hfit.sound c hc
    exact ⟨hsound.money, length_le_of_spendable hsound.spendable⟩

end Blocks

/-! ## 3. Branches -/

namespace BlockTree

variable (T : BlockTree)

/-- What is written when the blocks from `x` down to `fork` are disconnected. -/
def rollBackWrites (fork : BlockIndex) : BlockIndex → List CoinWrite
  | .root _ => []
  | .child p header =>
    if .child p header = fork then []
    else blockUnwrites (T.context (.child p header)) (T.block (.child p header))
      (T.undo (.child p header)) ++ rollBackWrites fork p

/-- What is written when blocks are rolled forward. -/
def rollForwardWrites (path : List BlockIndex) : List CoinWrite :=
  path.flatMap fun x => blockWrites (T.context x) (T.block x).vtx

end BlockTree

section Branches

variable {T : BlockTree} {x fork old new : BlockIndex}

/-- **Rolling back** leads to the coins of the fork. -/
theorem writes_rollBack (h : T.Accepted x) (hfork : fork ∈ x.line) :
    writes (T.rollBackWrites fork x) (T.utxo x) = T.utxo fork := by
  induction x with
  | root header =>
    rw [List.mem_singleton.1 hfork]
    rfl
  | child p header ih =>
    unfold BlockTree.rollBackWrites
    split
    · rename_i heq
      rw [heq]
      rfl
    · rename_i hne
      rw [writes_append, writes_back h]
      refine ih h.parent ?_
      rcases List.mem_cons.1 hfork with heq | hfork
      · exact absurd heq.symm hne
      · exact hfork

/-- **Rolling forward** leads from the coins of the fork. -/
theorem writes_rollForward (hfork : fork ∈ x.line) :
    writes (T.rollForwardWrites (x.above fork.depth)) (T.utxo fork) = T.utxo x := by
  induction x with
  | root header =>
    rw [List.mem_singleton.1 hfork]
    exact congrFun (congrArg writes (congrArg _ Lineage.above_depth)) _
  | child p header ih =>
    rcases List.mem_cons.1 hfork with rfl | hfork
    · rw [Lineage.above_depth]
      rfl
    · rw [Lineage.above_child (Lineage.depth_le_of_mem_line hfork)]
      unfold BlockTree.rollForwardWrites at ih ⊢
      rw [List.flatMap_append, writes_append, ih hfork, List.flatMap_singleton]
      exact (Utxo.applyTxs_eq_writes _ _).symm

/-- **From one block to another**: back to where their lines meet, and forward. -/
theorem writes_replay (hold : T.Accepted old) (hmeet : Lineage.Meet old new fork) :
    writes (T.rollBackWrites fork old ++ T.rollForwardWrites (new.above fork.depth))
      (T.utxo old) = T.utxo new := by
  rw [writes_append, writes_rollBack hold hmeet.left, writes_rollForward hmeet.right]

/-- From the empty database, genesis apart. -/
theorem writes_first : writes (T.rollForwardWrites (new.above 0)) (fun _ => none) = T.utxo new := by
  have horigin : T.utxo new.origin = fun _ => none := by
    induction new with
    | root header => rfl
    | child p header ih => exact ih
  have hdepth : new.origin.depth = 0 := by
    induction new with
    | root header => rfl
    | child p header ih => exact ih horigin
  have hwrites := writes_rollForward (T := T) (Lineage.origin_mem_line (x := new))
  rwa [horigin, hdepth] at hwrites

end Branches

end SwiftBitcoinKernel
