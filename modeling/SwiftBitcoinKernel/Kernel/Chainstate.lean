/-
  File:      SwiftBitcoinKernel/Kernel/Chainstate.lean
  Subject:   `Chainstate`: the tip, its coins, what is on disk, and a crash at any point.

  The tip moves by `ConnectTip` and `DisconnectTip`, on a cache over the coins database. From time to
  time `FlushStateToDisk` writes the undo files and the block index, and then the cache, in batches.
  What was not written is lost in a crash; a flush that was interrupted is made good at the next
  start by `ReplayBlocks`, which may itself be interrupted.

  * `connectTip`, `disconnectTip`, `flushStateToDisk`, `replayBlocks`, `loadChainTip` -- the functions
    of those names; `Disk.loadChainstate` is `CompleteChainstateInitialization`;
  * `chainstate` -- the machine of all their runs. An assertion that fails, an exception and a fatal
    error are a state of their own, `failed`;
  * `Running.Ok`, `Disk.Ok` -- the invariant, which `CrashSafety` proves.

  Not here: pruning, snapshots, a disk that is full or gives errors.
-/
import SwiftBitcoinKernel.Kernel.BlockTree
import SwiftBitcoinKernel.Kernel.CoinsDB
import SwiftBitcoinKernel.Logic.Transition

namespace SwiftBitcoinKernel

open Logic SwiftBitcoinKernel.Core

/-! ## 1. What is in memory and what is on disk -/

/-- The block index and the undo files as they have been written, and the coins database. -/
structure Disk where
  index : List BlockIndex
  undo : UndoFiles
  db : CoinsDB

/-- Nothing has been written. -/
def Disk.empty : Disk := ⟨[], .empty, .empty⟩

/-- The program: `m_block_index`, the undo files with what is still in memory, the cache of
    `CoinsTip`, and `m_chain.Tip()`. -/
structure Running where
  index : List BlockIndex
  undo : UndoFiles
  cache : CCoinsViewCache
  tip : Option BlockIndex
  disk : Disk

/-- `CoinsTip`. -/
def Running.coinsTip (r : Running) : CoinsStack := ⟨r.cache, r.disk.db.view⟩

/-- The cache of `CoinsTip` after it was used as a base; the database below is only read. -/
def Running.withCoins (r : Running) (coinsTip : CCoinsView) : Running :=
  match coinsTip with
  | .cache c _ => { r with cache := c }
  | .db _ _ => r

/-- `LookupBlockIndex`. -/
def lookupBlockIndex (index : List BlockIndex) (hash : Hash) : Option BlockIndex :=
  index.find? fun x => decide (x.hash = hash)

/-- How a function ends that does not return. -/
inductive ChainFailure where
  /-- `assert`, or a null pointer followed. -/
  | assertion
  /-- "Failed to read block". -/
  | readBlock
  /-- "DisconnectBlock failed". -/
  | disconnectBlock
  /-- "reorganization to (or from) unknown block requested"; no index entry for the best block. -/
  | unknownBlock
  /-- "unknown inconsistent state". -/
  | unknownHeads
  | coins (error : CoinsError)
  | connect (error : ConnectError)
  | batch (error : BatchError)
  deriving DecidableEq, Repr

variable (T : BlockTree) (full : List DbWrite → Bool)

/-! ## 2. Moving the tip -/

/-- `ConnectBlock`: the undo data, unless it is the genesis block. Whether the scripts are checked
    is decided before. -/
def connectEntry (x : BlockIndex) (fScriptChecks : Bool) (block : CBlock) (s : CoinsStack) :
    Except ConnectError (Option CBlockUndo × CoinsStack) :=
  match x with
  | .root _ =>
    match checkBlock (T.context x) block with
    | some reason => .error (.invalid reason)
    | none =>
      let best := s.bestBlock
      if best.1 ≠ .null then .error .assertion else .ok (none, best.2.setBestBlock x.hash)
  | .child _ _ => do
    let (undo, s) ← connectBlock (T.contextAt x fScriptChecks) block s
    return (some undo, s)

/-- `WriteBlockUndo`, where there is undo data. -/
def writeUndo (x : BlockIndex) (undo : Option CBlockUndo) (st : UndoFiles) : UndoFiles :=
  undo.elim st fun undo => writeBlockUndo T.pubKeys T.undoContext x undo st

/-- `ConnectTip`: whether the block was connected. A block that is rejected leaves the cache as it
    was, as the overlay only peeks at it. -/
def connectTip (x : BlockIndex) (fScriptChecks : Bool) (r : Running) :
    Except ChainFailure (Bool × Running) :=
  if x.parent? ≠ r.tip then .error .assertion
  else
    match T.readBlock x with
    | none => .error .readBlock
    | some block =>
      match connectEntry T x fScriptChecks block ⟨.create true, r.coinsTip.view⟩ with
      | .error (.invalid _) => .ok (false, r)
      | .error e => .error (.connect e)
      | .ok (undo, s) =>
        match s.flush with
        | .error e => .error (.coins e)
        | .ok s =>
          .ok (true, { r.withCoins s.base with undo := writeUndo T x undo r.undo, tip := some x })

/-- `DisconnectBlock`, with `ReadBlockUndo`. -/
def disconnectEntry (x : BlockIndex) (block : CBlock) (undo : UndoFiles) (s : CoinsStack) :
    Except CoinsError (DisconnectResult × CoinsStack) :=
  match readBlockUndo T.pubKeys T.undoContext T.abi x undo with
  | none => .ok (.failed, s)
  | some blockUndo => disconnectBlock (T.context x) (T.bip30Exception x) block blockUndo s

/-- `DisconnectTip`. -/
def disconnectTip (r : Running) : Except ChainFailure Running :=
  match r.tip with
  | none => .error .assertion
  | some x =>
    match x.parent? with
    | none => .error .assertion
    | some p =>
      match T.readBlock x with
      | none => .error .readBlock
      | some block =>
        let view : CoinsStack := ⟨.create false, r.coinsTip.view⟩
        let best := view.bestBlock
        if best.1 ≠ x.hash then .error .assertion
        else
          match disconnectEntry T x block r.undo best.2 with
          | .error e => .error (.coins e)
          | .ok (.ok, s) =>
            match s.flush with
            | .error e => .error (.coins e)
            | .ok s => .ok { r.withCoins s.base with tip := some p }
          | .ok (_, _) => .error .disconnectBlock

/-! ## 3. Writing to disk -/

/-- The batches of a flush of `CoinsTip`; none where it has no best block. -/
def flushBatches (r : Running) : Except BatchError (List (List DbWrite)) :=
  let s := r.coinsTip.bestBlock
  if s.1 = .null then .ok [] else r.disk.db.batches full s.2.cache.hashBlock s.2.cache.cursor

/-- `FlushStateToDisk`, where it writes: the undo files and the block index first, then the coins,
    by `Flush` or by `Sync`. -/
def flushStateToDisk (empty : Bool) (r : Running) : Except ChainFailure Running :=
  let s := r.coinsTip.bestBlock
  if s.1 = .null then
    .ok { r with cache := s.2.cache, disk := ⟨r.index, r.undo, r.disk.db⟩ }
  else
    match flushBatches full r, if empty then s.2.flush else s.2.sync with
    | .error e, _ => .error (.batch e)
    | _, .error e => .error (.coins e)
    | .ok batches, .ok s =>
      .ok { r with cache := s.cache, disk := ⟨r.index, r.undo, r.disk.db.writeBatches batches⟩ }

/-- What a crash leaves: `none` between two flushes, `some n` in a flush that has written the block
    index and `n` batches. -/
def crash (at? : Option Nat) (r : Running) : Disk :=
  match at? with
  | none => r.disk
  | some n =>
    match flushBatches full r with
    | .error _ => r.disk
    | .ok batches => ⟨r.index, r.undo, r.disk.db.writeBatches (batches.take n)⟩

/-! ## 4. Starting -/

/-- `LoadGenesisBlock`. -/
def loadGenesisBlock (index : List BlockIndex) : List BlockIndex :=
  if (lookupBlockIndex index T.genesis.hash).isSome then index else index ++ [.root T.genesis]

/-- A round of the rollback loop of `ReplayBlocks`. -/
def rollBackBlock (undo : UndoFiles) (x : BlockIndex) (s : CoinsStack) :
    Except ChainFailure CoinsStack :=
  match T.readBlock x with
  | none => .error .readBlock
  | some block =>
    match disconnectEntry T x block undo s with
    | .error e => .error (.coins e)
    | .ok (.failed, _) => .error .disconnectBlock
    | .ok (_, s) => .ok s

/-- The rollback loop, from `x` down to the fork. -/
def rollBack (undo : UndoFiles) (fork : BlockIndex) :
    BlockIndex → CoinsStack → Except ChainFailure CoinsStack
  | .root header, s => if .root header = fork then .ok s else .error .assertion
  | .child p header, s =>
    if .child p header = fork then .ok s
    else do
      let s ← rollBackBlock T undo (.child p header) s
      rollBack undo fork p s

/-- `RollforwardBlock`, with `ReadBlock`. -/
def rollForwardBlock (x : BlockIndex) (s : CoinsStack) : Except ChainFailure CoinsStack :=
  match T.readBlock x with
  | none => .error .readBlock
  | some block =>
    match rollforwardBlock (T.context x) block.vtx s with
    | .error e => .error (.coins e)
    | .ok s => .ok s

/-- The loop that rolls forward, by height. -/
def rollForward : List BlockIndex → CoinsStack → Except ChainFailure CoinsStack
  | [], s => .ok s
  | x :: path, s => do
    let s ← rollForwardBlock T x s
    rollForward path s

/-- `ReplayBlocks` up to its flush: `none` where there is nothing to replay. `fork` is
    `LastCommonAncestor`. -/
def replayBlocks (index : List BlockIndex) (d : Disk) : Except ChainFailure (Option CoinsStack) :=
  match d.db.getHeadBlocks with
  | [] => .ok none
  | [hashNew, hashOld] =>
    match lookupBlockIndex index hashNew with
    | none => .error .unknownBlock
    | some pindexNew =>
      let cache : CoinsStack := ⟨.create false, d.db.view⟩
      if hashOld = .null then do
        let cache ← rollForward T (pindexNew.above 0) cache
        return some (cache.setBestBlock pindexNew.hash)
      else
        match lookupBlockIndex index hashOld with
        | none => .error .unknownBlock
        | some pindexOld => do
          let pindexFork := pindexOld.fork pindexNew
          let cache ← rollBack T d.undo pindexFork pindexOld cache
          let cache ← rollForward T (pindexNew.above pindexFork.depth) cache
          return some (cache.setBestBlock pindexNew.hash)
  | _ => .error .unknownHeads

/-- `InitCoinsCache` and `LoadChainTip`. -/
def loadChainTip (index : List BlockIndex) (d : Disk) : Except ChainFailure Running :=
  let coinsTip : CoinsStack := ⟨.create false, d.db.view⟩
  let best := coinsTip.bestBlock
  if best.1 = .null then .ok ⟨index, d.undo, best.2.cache, none, d⟩
  else
    match lookupBlockIndex index best.1 with
    | none => .error .unknownBlock
    | some x => .ok ⟨index, d.undo, best.2.cache, some x, d⟩

/-- `CompleteChainstateInitialization`: the running program, or what a crash on the way leaves,
    where `some n` is one after `n` batches of the flush of `ReplayBlocks`. -/
def Disk.loadChainstate (at? : Option Nat) (d : Disk) : Except ChainFailure (Running ⊕ Disk) := do
  let index := loadGenesisBlock T d.index
  let replayed ← replayBlocks T index d
  match replayed, at? with
  | none, some _ => return .inr d
  | none, none => return .inl (← loadChainTip index d)
  | some cache, at? =>
    match d.db.batches full cache.cache.hashBlock cache.cache.cursor, at? with
    | .error e, _ => .error (.batch e)
    | .ok batches, some n => return .inr { d with db := d.db.writeBatches (batches.take n) }
    | .ok batches, none =>
      return .inl (← loadChainTip index { d with db := d.db.writeBatches batches })

/-! ## 5. The machine -/

/-- The program runs, is down, or has failed. -/
inductive ChainSystem where
  | up (r : Running)
  | down (d : Disk)
  | failed (failure : ChainFailure)

/-- What can happen. `flush` is any call of `FlushStateToDisk` that writes, those in `ConnectTip`
    and `DisconnectTip` included. -/
inductive ChainEvent where
  | accept (x : BlockIndex)
  | connect (x : BlockIndex) (fScriptChecks : Bool)
  | disconnect
  | flush (empty : Bool)
  | crash (at? : Option Nat)
  | start (at? : Option Nat)

/-- `AddToBlockIndex`, of a header that is new and whose parent is there. -/
def acceptEntry (x : BlockIndex) (r : Running) : Option Running :=
  match x.parent? with
  | none => none
  | some p =>
    if lookupBlockIndex r.index x.hash = none ∧
        lookupBlockIndex r.index (BlockIndex.hash p) = some p then
      some { r with index := r.index ++ [x] }
    else none

/-- One event. `ActivateBestChainStep` connects entries of the index to the tip, and never
    disconnects genesis. -/
def ChainSystem.step : ChainSystem → ChainEvent → Option ChainSystem
  | .up r, .accept x => (acceptEntry x r).map .up
  | .up r, .connect x fScriptChecks =>
    if lookupBlockIndex r.index x.hash = some x ∧ x.parent? = r.tip then
      match connectTip T x fScriptChecks r with
      | .error e => some (.failed e)
      | .ok (_, r) => some (.up r)
    else none
  | .up r, .disconnect =>
    if (r.tip.bind Lineage.parent?).isSome then
      match disconnectTip T r with
      | .error e => some (.failed e)
      | .ok r => some (.up r)
    else none
  | .up r, .flush empty =>
    match flushStateToDisk full empty r with
    | .error e => some (.failed e)
    | .ok r => some (.up r)
  | .up r, .crash at? => some (.down (crash full at? r))
  | .down d, .start at? =>
    match d.loadChainstate T full at? with
    | .error e => some (.failed e)
    | .ok (.inl r) => some (.up r)
    | .ok (.inr d) => some (.down d)
  | _, _ => none

/-- **The chainstate**, from an empty disk. -/
def chainstate : Machine ChainSystem ChainEvent := ⟨.down .empty, ChainSystem.step T full⟩

/-! ## 6. The invariant -/

namespace BlockTree

/-- The coins at a tip, which is none at first. -/
def coinsAt (tip : Option BlockIndex) : Utxo := tip.elim (fun _ => none) T.utxo

/-- An index as `AddToBlockIndex` makes it. -/
structure Indexed (index : List BlockIndex) : Prop where
  regular : ∀ x ∈ index, T.Regular x
  origin : ∀ x ∈ index, x.origin = .root T.genesis
  parent : ∀ p header, .child p header ∈ index → p ∈ index
  unique : ∀ x ∈ index, ∀ y ∈ index, x.hash = y.hash → x = y

/-- Genesis is as it has to be. -/
structure GenesisOk : Prop where
  regular : T.Regular (.root T.genesis)
  checked : checkBlock (T.context (.root T.genesis)) (T.block (.root T.genesis)) = none

/-- Every undo position leads to the undo data of its block. -/
def Recorded (undo : UndoFiles) : Prop :=
  ∀ x, undo.undoPos x = none ∨ undo.Holds T.pubKeys T.undoContext x (T.undo x)

/-- A tip that can be left again: its line connects, and has undo data. -/
structure Reached (index : List BlockIndex) (undo : UndoFiles) (x : BlockIndex) : Prop where
  mem : x ∈ index
  accepted : T.Accepted x
  undone : ∀ p header, .child p header ∈ x.line → undo.undoPos (.child p header) ≠ none

end BlockTree

/-- The hash of a tip. -/
def tipHash (tip : Option BlockIndex) : Hash := tip.elim .null BlockIndex.hash

/-- **The database is at a tip.** -/
structure Disk.Settled (d : Disk) (tip : Option BlockIndex) : Prop where
  coins : d.db.coins = T.coinsAt tip
  best : d.db.getBestBlock = tipHash tip
  heads : d.db.getHeadBlocks = []
  reached : ∀ x, tip = some x → T.Reached d.index d.undo x

/-- **The database is between two tips**, and names them. -/
structure Disk.Torn (d : Disk) (old : Option BlockIndex) (new : BlockIndex) : Prop where
  coins : Between (T.coinsAt old) (T.utxo new) d.db.coins
  best : d.db.getBestBlock = .null
  heads : d.db.getHeadBlocks = [new.hash, tipHash old]
  reachedOld : ∀ x, old = some x → T.Reached d.index d.undo x
  reached : T.Reached d.index d.undo new

/-- **What is on disk.** -/
structure Disk.Ok (d : Disk) : Prop where
  indexed : T.Indexed d.index
  recorded : T.Recorded d.undo
  db : (∃ tip, d.Settled T tip) ∨ ∃ old new, d.Torn T old new

/-- **What is in memory**: the cache has the coins of the tip, over a database that is at the tip of
    the last flush, which can be left too. -/
structure Running.Ok (r : Running) : Prop where
  indexed : T.Indexed r.index
  recorded : T.Recorded r.undo
  reached : ∀ x, r.tip = some x → T.Reached r.index r.undo x
  valid : r.coinsTip.view.Valid
  utxo : r.coinsTip.utxo = T.coinsAt r.tip
  best : r.cache.hashBlock = tipHash r.tip
  diskIndexed : T.Indexed r.disk.index
  diskRecorded : T.Recorded r.disk.undo
  settled : ∃ tip, r.disk.Settled T tip ∧ (r.tip = none → tip = none) ∧
    ∀ x, tip = some x → T.Reached r.index r.undo x

/-- **The invariant of the machine.** -/
def ChainSystem.Ok : ChainSystem → Prop
  | .up r => r.Ok T
  | .down d => d.Ok T
  | .failed _ => False

section Lemmas

variable {T full} {index : List BlockIndex} {undo : UndoFiles} {x p : BlockIndex}
  {header : BlockHeader} {r : Running} {d : Disk}

theorem lookup_of_mem (h : T.Indexed index) (hx : x ∈ index) :
    lookupBlockIndex index x.hash = some x := by
  unfold lookupBlockIndex
  cases hfind : index.find? fun y => decide (y.hash = x.hash) with
  | none => exact absurd (List.find?_eq_none.1 hfind x hx) (by simp)
  | some y =>
    have hhash := List.find?_some hfind
    rw [decide_eq_true_iff] at hhash
    rw [h.unique y (List.mem_of_find?_eq_some hfind) x hx hhash]

theorem not_mem_of_lookup_none {hash : Hash} (h : lookupBlockIndex index hash = none) :
    ∀ y ∈ index, y.hash ≠ hash := by
  intro y hy hhash
  exact absurd (List.find?_eq_none.1 h y hy) (by simpa using hhash)

/-- A new entry, whose parent is there. -/
theorem BlockTree.Indexed.snoc (h : T.Indexed index) (hregular : T.Regular x)
    (hnew : lookupBlockIndex index x.hash = none) (horigin : x.origin = .root T.genesis)
    (hparent : ∀ p header, x = .child p header → p ∈ index) : T.Indexed (index ++ [x]) := by
  have hhash := not_mem_of_lookup_none hnew
  constructor
  · intro y hy
    rcases List.mem_append.1 hy with hy | hy
    · exact h.regular y hy
    · rw [List.mem_singleton.1 hy]
      exact hregular
  · intro y hy
    rcases List.mem_append.1 hy with hy | hy
    · exact h.origin y hy
    · rw [List.mem_singleton.1 hy]
      exact horigin
  · intro p header hy
    refine List.mem_append_left _ ?_
    rcases List.mem_append.1 hy with hy | hy
    · exact h.parent p header hy
    · exact hparent p header (List.mem_singleton.1 hy).symm
  · intro y hy z hz heq
    rcases List.mem_append.1 hy with hy | hy
    · rcases List.mem_append.1 hz with hz | hz
      · exact h.unique y hy z hz heq
      · rw [List.mem_singleton.1 hz] at heq
        exact absurd heq (hhash y hy)
    · rcases List.mem_append.1 hz with hz | hz
      · rw [List.mem_singleton.1 hy] at heq
        exact absurd heq.symm (hhash z hz)
      · rw [List.mem_singleton.1 hy, List.mem_singleton.1 hz]

/-- More entries and more undo data change nothing. -/
theorem BlockTree.Reached.mono {index' : List BlockIndex} {undo' : UndoFiles}
    (h : T.Reached index undo x) (hindex : ∀ y ∈ index, y ∈ index')
    (hundo : ∀ y, undo.undoPos y ≠ none → undo'.undoPos y ≠ none) : T.Reached index' undo' x :=
  ⟨hindex x h.mem, h.accepted, fun p header hmem => hundo _ (h.undone p header hmem)⟩

theorem tipHash_eq_null {tip : Option BlockIndex} (h : ∀ x, tip = some x → T.Reached index undo x)
    (hnull : tipHash tip = .null) : tip = none := by
  cases tip with
  | none => rfl
  | some x => exact absurd hnull ((h x rfl).accepted x Lineage.mem_line_self).1.hash

theorem readBlock_of_regular (h : T.Regular x) : T.readBlock x = some (T.block x) := if_pos h.stored

/-- **The undo data of a block that was connected** is read. -/
theorem readBlockUndo_of_reached (hrecorded : T.Recorded undo)
    (h : T.Reached index undo x) (hmem : .child p header ∈ x.line) :
    readBlockUndo T.pubKeys T.undoContext T.abi (.child p header) undo =
      some (T.undo (.child p header)) := by
  have hholds := (hrecorded (.child p header)).resolve_left (h.undone p header hmem)
  exact readBlockUndo_of_holds T.abi hholds (storable_undo (h.accepted.of_mem hmem))

end Lemmas

end SwiftBitcoinKernel
