/-
  File:      SwiftBitcoinKernel/Kernel/Chainman.lean
  Subject:   The vendored kernel behind `ChainstateManager`: headers, blocks, and the active chain.

  `ChainstateManager.processBlockHeader` and `processBlock` are `ProcessNewBlockHeaders` and
  `ProcessNewBlock` of validation.cpp. The model has every step of theirs that moves the block
  index, the best header or the active chain. What the consensus rules say of a header or a block
  is left open (`Consensus`), and so are the clock and the interrupt flag a call finds (`Ambient`);
  disk and database errors, pruning and snapshots are left out.

  * `BlockIndex` -- `CBlockIndex` with its `pprev` link: a header and its line back to genesis;
  * `Chainman` -- `m_block_index` with its status flags, `setBlockIndexCandidates`,
    `m_best_header`, and the tip of the active chain;
  * `acceptBlockHeader`, `receivedBlockTransactions`, `invalidBlockFound`, `findMostWorkChain`,
    `activateBestChainStep`, `activateBestChain`, `acceptBlock` -- the functions of those names;
  * `processNewBlockHeaders`, `processNewBlock` -- the two calls of the Swift layer.
-/
import SwiftBitcoinKernel.Logic.Lineage
import SwiftBitcoinKernel.Sync.Update

namespace SwiftBitcoinKernel

open Logic

/-! ## 1. The block index -/

/-- `CBlockIndex`: a header together with `pprev`. -/
abbrev BlockIndex := Lineage BlockHeader

/-- `GetBlockHash()`. -/
def BlockIndex.hash (x : BlockIndex) : Hash := x.label.hash

/-- What `BlockValidationState` says of a block's body. A mutated block is rejected without a
    mark on its index entry. -/
inductive BodyCheck where
  | valid
  | mutated
  | invalid
  deriving DecidableEq, Repr

/-- The consensus rules, as far as the calls below consult them. `contextualCheckBlockHeader` reads
    the clock. `connectBlock` takes the entry alone: a header commits to its block, and its line of
    headers to the coins the block can spend. -/
structure Consensus where
  genesis : BlockHeader
  blockProof : BlockHeader → Nat
  checkBlockHeader : BlockHeader → Bool
  contextualCheckBlockHeader : Nat → BlockIndex → BlockHeader → Bool
  checkBlock : Block → Bool
  contextualCheckBlock : BlockIndex → Block → BodyCheck
  connectBlock : BlockIndex → Bool

/-- `nChainWork`. -/
def Consensus.chainWork (C : Consensus) (x : BlockIndex) : Nat := x.weight C.blockProof

/-- What a call finds around it: the clock, and the interrupt flag as it reads after each round of
    `ActivateBestChain`. -/
structure Ambient where
  now : Nat
  interrupted : Nat → Bool

/-- `ChainstateManager` with its one `Chainstate`. The status flags of an entry are membership in
    `haveData` and `failed`; `HaveNumChainTxs()` is membership in `linked`, whose order is that of
    `nSequenceId`; `unlinked` is `m_blocks_unlinked`, keyed by each entry's parent. -/
structure Chainman where
  blockIndex : List BlockIndex
  haveData : List BlockIndex
  failed : List BlockIndex
  linked : List BlockIndex
  unlinked : List BlockIndex
  candidates : List BlockIndex
  bestHeader : BlockIndex
  tip : BlockIndex

/-- A chainstate freshly loaded: genesis alone, connected. -/
def Chainman.fresh (C : Consensus) : Chainman where
  blockIndex := [.root C.genesis]
  haveData := [.root C.genesis]
  failed := []
  linked := [.root C.genesis]
  unlinked := []
  candidates := [.root C.genesis]
  bestHeader := .root C.genesis
  tip := .root C.genesis

/-- `m_block_index.find`. -/
def Chainman.find (k : Chainman) (hash : Hash) : Option BlockIndex :=
  k.blockIndex.find? fun x => decide (x.hash = hash)

/-- `m_chain.Contains`. -/
def Chainman.onActiveChain (k : Chainman) (x : BlockIndex) : Bool := decide (x ∈ k.tip.line)

variable (C : Consensus)

/-- `CBlockIndexWorkComparator`: less work, or as much and later to be linked. -/
def worse (k : Chainman) (x y : BlockIndex) : Bool :=
  decide (C.chainWork x < C.chainWork y) ||
    decide (C.chainWork x = C.chainWork y) && decide (k.linked.idxOf y < k.linked.idxOf x)

/-! ## 2. Headers -/

/-- `BlockManager::AddToBlockIndex`. The best header moves to strictly more work only. -/
def addToBlockIndex (header : BlockHeader) (k : Chainman) : BlockIndex × Chainman :=
  match k.find header.hash with
  | some x => (x, k)
  | none =>
    let x : BlockIndex :=
      match k.find header.prevHash with
      | some prev => .child prev header
      | none => .root header
    (x, { k with
      blockIndex := k.blockIndex ++ [x]
      bestHeader := if C.chainWork k.bestHeader < C.chainWork x then x else k.bestHeader })

/-- `ChainstateManager::AcceptBlockHeader`: `none` where it returns false. -/
def acceptBlockHeader (a : Ambient) (header : BlockHeader) (k : Chainman) :
    Option BlockIndex × Chainman :=
  let add := ((addToBlockIndex C header k).map some id : Option BlockIndex × Chainman)
  if header.hash = C.genesis.hash then add
  else
    match k.find header.hash with
    | some x => if x ∈ k.failed then (none, k) else (some x, k)
    | none =>
      if !C.checkBlockHeader header then (none, k)
      else
        match k.find header.prevHash with
        | none => (none, k)
        | some prev =>
          if prev ∈ k.failed then (none, k)
          else if !C.contextualCheckBlockHeader a.now prev header then (none, k)
          else add

/-- `ProcessNewBlockHeaders` on one header, `min_pow_checked`. -/
def processNewBlockHeaders (a : Ambient) (header : BlockHeader) (k : Chainman) : Bool × Chainman :=
  let r := acceptBlockHeader C a header k
  (r.1.isSome, r.2)

/-! ## 3. Bodies -/

/-- `TryAddBlockIndexCandidate`. -/
def tryAddBlockIndexCandidate (x : BlockIndex) (k : Chainman) : Chainman :=
  if worse C k x k.tip then k
  else if x ∈ k.candidates then k
  else { k with candidates := k.candidates ++ [x] }

/-- The queue of `ReceivedBlockTransactions`: link the first entry, and queue the stored entries
    that were waiting for it. -/
def linkQueue : Nat → List BlockIndex → Chainman → Chainman
  | 0, _, k => k
  | _ + 1, [], k => k
  | fuel + 1, x :: queue, k =>
    let linked := tryAddBlockIndexCandidate C x { k with linked := k.linked ++ [x] }
    linkQueue fuel (queue ++ linked.unlinked.filter fun y => decide (y.parent? = some x))
      { linked with unlinked := linked.unlinked.filter fun y => decide (y.parent? ≠ some x) }

/-- `ReceivedBlockTransactions`. -/
def receivedBlockTransactions (x : BlockIndex) (k : Chainman) : Chainman :=
  let k := { k with haveData := k.haveData ++ [x] }
  match x.parent? with
  | none => linkQueue C (k.unlinked.length + 1) [x] k
  | some prev =>
    if prev ∈ k.linked then linkQueue C (k.unlinked.length + 1) [x] k
    else if prev ∈ k.failed then k
    else { k with unlinked := k.unlinked ++ [x] }

/-- `RecalculateBestHeader`: from the active tip on, whatever has strictly more work. -/
def recalculateBestHeader (k : Chainman) : Chainman :=
  { k with
    bestHeader := k.blockIndex.foldl
      (fun best y => if y ∉ k.failed ∧ C.chainWork best < C.chainWork y then y else best) k.tip }

/-- `InvalidChainFound`: `SetBlockFailureFlags` on the descendants, and a new best header if the
    present one is among them. -/
def invalidChainFound (x : BlockIndex) (k : Chainman) : Chainman :=
  let k := { k with failed := k.failed ++ k.blockIndex.filter fun y => decide (y ≠ x ∧ x ∈ y.line) }
  if x ∈ k.bestHeader.line then recalculateBestHeader C k else k

/-- `InvalidBlockFound`, for a block that is not merely mutated. -/
def invalidBlockFound (x : BlockIndex) (k : Chainman) : Chainman :=
  invalidChainFound C x
    { k with
      failed := k.failed ++ [x]
      candidates := k.candidates.filter fun y => decide (y ≠ x) }

/-- The failure flags `InvalidBlockFound` sets: on the block and on what descends from it. -/
def Chainman.withFailed (k : Chainman) (x : BlockIndex) : Chainman :=
  { k with
    failed := k.failed ++ [x] ++ k.blockIndex.filter fun y => decide (y ≠ x ∧ x ∈ y.line)
    candidates := k.candidates.filter fun y => decide (y ≠ x) }

/-! ## 4. The active chain -/

/-- `*setBlockIndexCandidates.rbegin()`. -/
def bestCandidate (k : Chainman) : Option BlockIndex :=
  k.candidates.foldl
    (fun best x =>
      match best with
      | none => some x
      | some y => if worse C k y x then some x else some y) none

/-- `FindMostWorkChain`: candidates with a failed or missing block between them and the active
    chain are dropped on the way. -/
def findMostWorkChain : Nat → Chainman → Option BlockIndex × Chainman
  | 0, k => (none, k)
  | fuel + 1, k =>
    match bestCandidate C k with
    | none => (none, k)
    | some x =>
      let ahead := x.line.takeWhile fun y => !k.onActiveChain y
      match ahead.find? fun y => decide (y ∈ k.failed ∨ y ∉ k.haveData) with
      | none => (some x, k)
      | some bad =>
        let chain := ahead.takeWhile fun y => decide (y ≠ bad)
        findMostWorkChain fuel
          { k with
            failed := if bad ∈ k.failed then k.failed ++ chain else k.failed
            unlinked := if bad ∈ k.failed then k.unlinked else k.unlinked ++ chain
            candidates := k.candidates.filter fun y => decide (y ∉ chain ∧ y ≠ bad) }

/-- `PruneBlockIndexCandidates`. -/
def pruneBlockIndexCandidates (k : Chainman) : Chainman :=
  { k with candidates := k.candidates.filter fun y => !worse C k y k.tip }

/-- The blocks of `vpindexToConnect`, oldest first: `ConnectTip` each, until the tip has more work
    than `oldTip` or a block fails (the flag). `ActivateBestChainStep` takes them in groups of 32
    and calls `InvalidChainFound` once more on the last of the group, a descendant of the failed
    block or that block itself, which marks nothing new. -/
def connectTips (oldTip : BlockIndex) : List BlockIndex → Chainman → Chainman × Bool
  | [], k => (k, false)
  | x :: rest, k =>
    if C.connectBlock x then
      let k := pruneBlockIndexCandidates C { k with tip := x }
      if C.chainWork oldTip < C.chainWork x then (k, false) else connectTips oldTip rest k
    else (invalidBlockFound C x k, true)

/-- `ActivateBestChainStep`: disconnect down to the fork, then connect towards `mostWork`. -/
def activateBestChainStep (mostWork : BlockIndex) (k : Chainman) : Chainman × Bool :=
  connectTips C k.tip (k.tip.branch mostWork) { k with tip := k.tip.fork mostWork }

/-- `if (pindexMostWork == nullptr) pindexMostWork = FindMostWorkChain()`. -/
def orMostWorkChain (mostWork : Option BlockIndex) (k : Chainman) : Option BlockIndex × Chainman :=
  match mostWork with
  | some m => (some m, k)
  | none => findMostWorkChain C (k.candidates.length + 1) k

/-- The two nested loops of `ActivateBestChain`. `start` is `starting_tip` of the inner one, and
    `mostWork` is `pindexMostWork`, which a failed block resets. The interrupt flag is read only
    between rounds of the outer one. -/
def activate (a : Ambient) : Nat → BlockIndex → Option BlockIndex → Chainman → Chainman
  | 0, _, _, k => k
  | fuel + 1, start, mostWork, k =>
    match orMostWorkChain C mostWork k with
    | (none, k) => k
    | (some m, k) =>
      if m = k.tip then k
      else
        let r := activateBestChainStep C m k
        let next := if r.2 then none else some m
        if worse C r.1 r.1.tip start then activate a fuel start next r.1
        else if a.interrupted fuel then r.1
        else if next = some r.1.tip then r.1
        else activate a fuel r.1.tip next r.1

/-- `ActivateBestChain`. Every round connects a block or marks one as failed, so the square of the
    index's size bounds the rounds. -/
def activateBestChain (a : Ambient) (k : Chainman) : Chainman :=
  activate C a ((k.blockIndex.length + 1) * (k.blockIndex.length + 1)) k.tip none k

/-! ## 5. The calls of the Swift layer -/

/-- `AcceptBlock` for a requested block: whether it is accepted, and whether it is new. -/
def acceptBlock (a : Ambient) (block : Block) (k : Chainman) : (Bool × Bool) × Chainman :=
  match acceptBlockHeader C a block.header k with
  | (none, k) => ((false, false), k)
  | (some x, k) =>
    if x ∈ k.haveData then ((true, false), k)
    else
      match C.contextualCheckBlock x block with
      | .valid => ((true, true), receivedBlockTransactions C x k)
      | .mutated => ((false, false), k)
      | .invalid => ((false, false), invalidBlockFound C x k)

/-- `ProcessNewBlock`: success is that of `AcceptBlock`, whatever becomes of the active chain. -/
def processNewBlock (a : Ambient) (block : Block) (k : Chainman) : (Bool × Bool) × Chainman :=
  if !C.checkBlock block then ((false, false), k)
  else
    let r := acceptBlock C a block k
    if r.1.1 then (r.1, activateBestChain C a r.2) else r

/-- One call on the manager. -/
inductive KernelCall where
  | header (header : BlockHeader)
  | block (block : Block)

/-- `processBlockHeader` and `processBlock`, for what they do to the manager. -/
def perform (a : Ambient) (c : KernelCall) (k : Chainman) : Chainman :=
  match c with
  | .header header => (processNewBlockHeaders C a header k).2
  | .block block => (processNewBlock C a block k).2

/-- `ChainstateManager.bestEntry`: `m_best_header`. -/
def Chainman.bestEntry (k : Chainman) : BlockTreeEntry :=
  ⟨k.bestHeader.hash, k.bestHeader.depth, k.bestHeader.label.timestamp⟩

/-- The tip of `ChainstateManager.activeChain`. -/
def Chainman.activeTip (k : Chainman) : BlockTreeEntry :=
  ⟨k.tip.hash, k.tip.depth, k.tip.label.timestamp⟩

end SwiftBitcoinKernel
