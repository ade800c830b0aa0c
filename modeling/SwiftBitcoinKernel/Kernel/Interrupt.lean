/-
  File:      SwiftBitcoinKernel/Kernel/Interrupt.lean
  Subject:   The interrupt flag of a `Context`, and the kernel calls that read it.

  A context has one flag. `btck_context_interrupt` sets it, every manager made from the context
  reads it, and no call of the C API clears it again.

  * `SignalInterrupt`, `Context.interrupt` -- the flag, and its one setter;
  * `loadChainstate`, `verifyLoadedChainstate`, `ChainstateManager.create` -- opening a data
    directory. What the databases answer is left open (`Initialization`, `Datadir`); an answer of a
    call that reads the flag itself depends on it;
  * `importBlocks` -- `ImportBlocks`, for a kernel whose loading steps are left open;
  * `create_interrupted`, `importBlocks_interrupted` -- on a flagged context no manager can be
    created, and an import changes nothing and reports success.
-/
import Mathlib.Logic.Basic

namespace SwiftBitcoinKernel

/-! ## 1. The flag -/

/-- `util::SignalInterrupt`, by its `m_flag`. -/
structure SignalInterrupt where
  flag : Bool
  deriving DecidableEq, Repr

/-- `SignalInterrupt::operator()()`. `tokenWrite` says whether the token could be written; the flag
    is set before that is tried. -/
def SignalInterrupt.signal (tokenWrite : Bool) (i : SignalInterrupt) : Bool × SignalInterrupt :=
  (if i.flag then true else tokenWrite, ⟨true⟩)

/-- `Context`, by what a sync run and the calls below read of it. -/
structure Context where
  interruptFlag : SignalInterrupt
  deriving DecidableEq, Repr

/-- `btck_context_create`: a context starts without an interrupt. -/
def Context.create : Context := ⟨⟨false⟩⟩

/-- `Context.interrupt()`. -/
def Context.interrupt (tokenWrite : Bool) (c : Context) : Bool × Context :=
  ((c.interruptFlag.signal tokenWrite).1, ⟨(c.interruptFlag.signal tokenWrite).2⟩)

/-- The flag reads true. -/
def Context.isInterrupted (c : Context) : Bool := c.interruptFlag.flag

@[simp] theorem isInterrupted_interrupt (tokenWrite : Bool) (c : Context) :
    (c.interrupt tokenWrite).2.isInterrupted = true := rfl

theorem eq_of_isInterrupted {c c' : Context} (h : c.isInterrupted = true)
    (h' : c'.isInterrupted = true) : c = c' := by
  obtain ⟨⟨flag⟩⟩ := c
  obtain ⟨⟨flag'⟩⟩ := c'
  cases h
  cases h'
  rfl

/-! ## 2. Creating a manager -/

/-- `node::ChainstateLoadStatus`. -/
inductive ChainstateLoadStatus where
  | success | failure | failureFatal | failureIncompatibleDb | failureInsufficientDbcache
  | interrupted
  deriving DecidableEq, Repr

/-- `VerifyDBResult`. -/
inductive VerifyDBResult where
  | success | corruptedBlockDb | interrupted | skippedL3Checks | skippedMissingBlocks
  deriving DecidableEq, Repr

/-- `SnapshotCompletionResult`, as far as it is told apart. -/
inductive SnapshotCompletionResult where
  | success | skipped | failed
  deriving DecidableEq, Repr

/-- The options of loading that are read. -/
structure ChainstateLoadOptions where
  wipeChainstateDb : Bool
  prune : Bool
  requireFullVerification : Bool
  deriving DecidableEq, Repr

/-- What loading finds of one chainstate. -/
structure ChainstateFiles where
  initCoinsDB : Bool
  needsUpgrade : Bool
  replayBlocks : Bool
  bestBlockIsNull : Bool
  loadChainTip : Bool
  needsRedownload : Bool
  tipFromFuture : Bool
  /-- `VerifyDB`, which reads the flag. -/
  verifyDB : Bool → VerifyDBResult

/-- What one `CompleteChainstateInitialization` finds. -/
structure Initialization where
  /-- `LoadBlockIndex`, which reads the flag. -/
  loadBlockIndex : Bool → Bool
  blockIndexEmpty : Bool
  hasGenesis : Bool
  havePruned : Bool
  blockfilesIndexed : Bool
  loadGenesisBlock : Bool
  chainstates : List ChainstateFiles

/-- What `btck_chainstate_manager_create` finds. -/
structure Datadir where
  /-- The constructor of the manager does not throw. -/
  opens : Bool
  /-- `LoadAssumeutxoChainstate` finds one. -/
  snapshotChainstate : Bool
  deleteChainstate : Bool
  first : Initialization
  maybeValidateSnapshot : SnapshotCompletionResult
  validatedSnapshotCleanup : Bool
  /-- After the clean-up of a validated snapshot. -/
  second : Initialization
  /-- `ActivateBestChains`, which reads the flag. -/
  activateBestChains : Bool → Bool

/-- `is_coinsview_empty`. -/
def coinsviewEmpty (options : ChainstateLoadOptions) (f : ChainstateFiles) : Bool :=
  options.wipeChainstateDb || f.bestBlockIsNull

/-- The loop over the chainstates. -/
def initializeChainstates (options : ChainstateLoadOptions) :
    List ChainstateFiles → ChainstateLoadStatus
  | [] => .success
  | f :: rest =>
    if !f.initCoinsDB then .failure
    else if f.needsUpgrade then .failureIncompatibleDb
    else if !f.replayBlocks then .failure
    else if !coinsviewEmpty options f && !f.loadChainTip then .failure
    else initializeChainstates options rest

/-- `CompleteChainstateInitialization`, with the flag reading `interrupted`. -/
def completeChainstateInitialization (interrupted : Bool) (options : ChainstateLoadOptions)
    (d : Initialization) : ChainstateLoadStatus :=
  if interrupted then .interrupted
  else if !d.loadBlockIndex interrupted then
    if interrupted then .interrupted else .failure
  else if !d.blockIndexEmpty && !d.hasGenesis then .failureIncompatibleDb
  else if d.havePruned && !options.prune then .failure
  else if d.blockfilesIndexed && !d.loadGenesisBlock then .failure
  else
    match initializeChainstates options d.chainstates with
    | .success => if d.chainstates.any (·.needsRedownload) then .failure else .success
    | status => status

/-- `LoadChainstate`, and the chainstates it leaves. -/
def loadChainstate (interrupted : Bool) (options : ChainstateLoadOptions) (d : Datadir) :
    ChainstateLoadStatus × List ChainstateFiles :=
  if d.snapshotChainstate && options.wipeChainstateDb && !d.deleteChainstate then
    (.failureFatal, [])
  else
    match completeChainstateInitialization interrupted options d.first with
    | .success =>
      -- the snapshot is gone once the chainstate is wiped
      if !d.snapshotChainstate || options.wipeChainstateDb then (.success, d.first.chainstates)
      else
        match d.maybeValidateSnapshot with
        | .skipped => (.success, d.first.chainstates)
        | .failed => (.failureFatal, [])
        | .success =>
          if !d.validatedSnapshotCleanup then (.failureFatal, [])
          else
            (completeChainstateInitialization interrupted options d.second, d.second.chainstates)
    | status => (status, [])

/-- `VerifyLoadedChainstate`. -/
def verifyLoadedChainstate (interrupted : Bool) (options : ChainstateLoadOptions) :
    List ChainstateFiles → ChainstateLoadStatus
  | [] => .success
  | f :: rest =>
    if coinsviewEmpty options f then verifyLoadedChainstate interrupted options rest
    else if f.tipFromFuture then .failure
    else
      match f.verifyDB interrupted with
      | .success | .skippedMissingBlocks => verifyLoadedChainstate interrupted options rest
      | .interrupted => .interrupted
      | .corruptedBlockDb => .failure
      | .skippedL3Checks =>
        if options.requireFullVerification then .failureInsufficientDbcache
        else verifyLoadedChainstate interrupted options rest

/-- `KernelError`, the case of a manager that could not be created. -/
inductive KernelError where
  | chainstateManagerCreationFailed
  deriving DecidableEq, Repr

/-- `ChainstateManager.init(options:)` over `btck_chainstate_manager_create`: whether it throws. -/
def ChainstateManager.create (c : Context) (options : ChainstateLoadOptions) (d : Datadir) :
    Except KernelError Unit :=
  if !d.opens then .error .chainstateManagerCreationFailed
  else
    match loadChainstate c.isInterrupted options d with
    | (.success, chainstates) =>
      if verifyLoadedChainstate c.isInterrupted options chainstates ≠ .success then
        .error .chainstateManagerCreationFailed
      else if !d.activateBestChains c.isInterrupted then .error .chainstateManagerCreationFailed
      else .ok ()
    | _ => .error .chainstateManagerCreationFailed

theorem loadChainstate_interrupted (options : ChainstateLoadOptions) (d : Datadir) :
    (loadChainstate true options d).1 ≠ .success := by
  unfold loadChainstate
  split
  · nofun
  · exact nofun

/-- **A context that was interrupted opens no data directory**, whatever is in it. -/
theorem create_interrupted {c : Context} (h : c.isInterrupted = true)
    (options : ChainstateLoadOptions) (d : Datadir) :
    ChainstateManager.create c options d = .error .chainstateManagerCreationFailed := by
  unfold ChainstateManager.create
  split
  · rfl
  · rw [h]
    have hload := loadChainstate_interrupted options d
    split
    next chainstates hs =>
      rw [hs] at hload
      exact absurd rfl hload
    next => rfl

/-! ## 3. Importing blocks -/

/-- The kernel an import drives: its state `σ`, and the steps of loading. A block file is the list
    of rounds of the loop that reads it. -/
structure Importer (σ : Type) where
  blockfilesIndexed : σ → Bool
  /-- The block files of the data directory, in order; `none` where one does not open. -/
  blockFiles : List (Option (List (σ → σ)))
  /-- `WriteReindexing(false)`, `m_blockfiles_indexed = true`, `LoadGenesisBlock`. -/
  reindexed : σ → σ
  /-- `ActivateBestChains`, which reads the flag. -/
  activateBestChains : Bool → σ → σ

/-- `LoadExternalBlockFile`. -/
def loadExternalBlockFile {σ : Type} (interrupted : Bool) : List (σ → σ) → σ → σ
  | [], s => s
  | round :: rest, s =>
    if interrupted then s else loadExternalBlockFile interrupted rest (round s)

/-- The loop over the block files of a reindex: whether it returned from the import. -/
def reindexFiles {σ : Type} (interrupted : Bool) : List (Option (List (σ → σ))) → σ → Bool × σ
  | [], s => (false, s)
  | none :: _, s => (false, s)
  | some file :: rest, s =>
    let s := loadExternalBlockFile interrupted file s
    if interrupted then (true, s) else reindexFiles interrupted rest s

/-- The loop over the given files. A file that does not open is skipped. -/
def importFiles {σ : Type} (interrupted : Bool) : List (Option (List (σ → σ))) → σ → Bool × σ
  | [], s => (false, s)
  | none :: rest, s => importFiles interrupted rest s
  | some file :: rest, s =>
    let s := loadExternalBlockFile interrupted file s
    if interrupted then (true, s) else importFiles interrupted rest s

/-- `importBlocks(from:)` over `ImportBlocks`: what it returns, and the state it leaves. -/
def importBlocks {σ : Type} (c : Context) (I : Importer σ) (files : List (Option (List (σ → σ))))
    (s : σ) : Bool × σ :=
  let first := if I.blockfilesIndexed s then (false, s)
    else
      let r := reindexFiles c.isInterrupted I.blockFiles s
      if r.1 then r else (false, I.reindexed r.2)
  if first.1 then (true, first.2)
  else
    let r := importFiles c.isInterrupted files first.2
    if r.1 then (true, r.2) else (true, I.activateBestChains c.isInterrupted r.2)

theorem loadExternalBlockFile_interrupted {σ : Type} (file : List (σ → σ)) (s : σ) :
    loadExternalBlockFile true file s = s := by
  cases file <;> rfl

theorem importFiles_interrupted {σ : Type} {files : List (Option (List (σ → σ)))} (s : σ)
    (h : ∃ file, some file ∈ files) : importFiles true files s = (true, s) := by
  obtain ⟨file, hmem⟩ := h
  induction files with
  | nil => cases hmem
  | cons f rest ih =>
    cases f with
    | some f => simp [importFiles, loadExternalBlockFile_interrupted]
    | none =>
      refine ih ?_
      simpa using hmem

/-- **An import on an interrupted context reads no block, activates nothing, and returns `true`**:
    for an index that is up to date and at least one file that opens, and for a pending reindex
    whose first file opens. -/
theorem importBlocks_interrupted {σ : Type} {c : Context} (h : c.isInterrupted = true)
    (I : Importer σ) (files : List (Option (List (σ → σ)))) (s : σ)
    (hfiles : if I.blockfilesIndexed s then ∃ file, some file ∈ files
      else ∃ file rest, I.blockFiles = some file :: rest) :
    importBlocks c I files s = (true, s) := by
  unfold importBlocks
  rw [h]
  split at hfiles
  next hindexed =>
    simp [hindexed, importFiles_interrupted s hfiles]
  next hindexed =>
    obtain ⟨file, rest, hblocks⟩ := hfiles
    simp [hindexed, hblocks, reindexFiles, loadExternalBlockFile_interrupted]

end SwiftBitcoinKernel
