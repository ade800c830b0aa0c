/-
  File:      SwiftBitcoinKernel/Sync/Loop.lean
  Subject:   `runSyncLoop` (SyncLoop.swift), statement by statement.

  The loop runs against an `Environment`: the block source, the chainstate manager and the
  task's cancellation flag, behind one state that every call may move. A call's answer is a
  function of that state, and nothing is said about the state, so a source that grows, shrinks,
  reorganises, lies or throws, a kernel that answers anything, and every cancellation schedule
  are each some `Environment`.

  * `World` -- the environment's state, the trace of everything the loop did and was told, and
    the shared `Progress`;
  * `readLocalTip`, `describeSyncFailure` -- the source's private helpers;
  * `caught` -- the pair of catch clauses that closes each of the four `do` blocks;
  * `prepare` (the body before the loop), `iteration` (one round of `while true`), and
    `runSyncLoop`: `prepare`, then `n` rounds.
-/
import SwiftBitcoinKernel.Logic.EarlyExit
import SwiftBitcoinKernel.Sync.Update

namespace SwiftBitcoinKernel

open Logic

/-! ## 1. What the loop runs against -/

/-- The source, the manager and the task, as the loop calls them. `errorDescription` and
    `interpolation` are the texts of an error: `LocalizedError.errorDescription`, and `"\(error)"`.
    A manager without a best header traps in `bestEntry` and has no run, so `bestEntry` is total. -/
structure Environment where
  State : Type
  bestEntry : State → BlockTreeEntry
  isCancelled : State → Bool × State
  bestTip : State → Except SwiftError BlockTip × State
  blockHash : Int → State → Except SwiftError Data × State
  block : Data → State → Except SwiftError Block × State
  processBlock : Block → State → (Bool × Bool) × State
  errorDescription : SwiftError → Option String
  interpolation : SwiftError → String

/-- What one run does and is told, in order. -/
inductive Event where
  | yield (update : Update) (progress : Progress)
  | finish
  | isCancelled (answer : Bool)
  | resolved (answer : Except SwiftError BlockTip)
  | repolled (localTip : BlockTip) (answer : Except SwiftError BlockTip)
  | blockHash (height : Int) (answer : Except SwiftError Data)
  | block (hash : Data) (answer : Except SwiftError Block)
  | processBlock (block : Block) (success : Bool)

/-- The state of a run: `storage.progress` outlives it, the trace is its own. -/
structure World (E : Environment) where
  env : E.State
  trace : List Event
  progress : Progress

variable {E : Environment}

/-- The loop body, as a computation that may return. -/
abbrev SyncM (E : Environment) := Exit (World E)

/-- Append one event. -/
def World.log (w : World E) (e : Event) : World E := { w with trace := w.trace ++ [e] }

/-! ## 2. The calls the loop makes -/

/-- `continuation.yield(Update(state:tip:remoteTip:))`. -/
def yieldUpdate (state : UpdateState) (tip remoteTip : BlockTip) : SyncM E Unit :=
  Exit.tell fun w => w.log (.yield ⟨state, tip, remoteTip⟩ w.progress)

/-- `continuation.finish()`. -/
def finish : SyncM E Unit := Exit.tell fun w => w.log .finish

/-- A call to the source, the manager or the task: `f` answers, and the answer goes on record. -/
def ask {α : Type} (f : E.State → α × E.State) (record : α → Event) : SyncM E α :=
  Exit.act fun w => ((f w.env).1, { w with env := (f w.env).2 }.log (record (f w.env).1))

/-- `Task.isCancelled`. -/
def isCancelled : SyncM E Bool := ask E.isCancelled .isCancelled

/-- The first `storage.source.bestTip()`. -/
def resolveTip : SyncM E (Except SwiftError BlockTip) := ask E.bestTip .resolved

/-- The `storage.source.bestTip()` of the main loop, called with the local tip at `localTip`. -/
def repollTip (localTip : BlockTip) : SyncM E (Except SwiftError BlockTip) :=
  ask E.bestTip (.repolled localTip)

/-- `storage.source.blockHash(atHeight:)`. -/
def blockHash (height : Int) : SyncM E (Except SwiftError Data) :=
  ask (E.blockHash height) (.blockHash height)

/-- `storage.source.block(for:)`. -/
def blockFor (hash : Data) : SyncM E (Except SwiftError Block) :=
  ask (E.block hash) (.block hash)

/-- `storage.manager.processBlock(block)`; the loop drops `isNew`. -/
def processBlock (block : Block) : SyncM E Bool :=
  ask (fun s => ((E.processBlock block s).1.1, (E.processBlock block s).2)) (.processBlock block)

/-- `storage.progress.totalUnitCount = Int64(remoteTip.height)`. -/
def setTotal (remoteTip : BlockTip) : SyncM E Unit :=
  Exit.tell fun w => { w with progress := { w.progress with totalUnitCount := remoteTip.height } }

/-- `storage.progress.completedUnitCount = Int64(localTip.height)`. -/
def setCompleted (localTip : BlockTip) : SyncM E Unit :=
  Exit.tell fun w =>
    { w with progress := { w.progress with completedUnitCount := localTip.height } }

/-- `unknownRemoteTip`: the placeholder of the first update. -/
def unknownRemoteTip : BlockTip := ⟨Hash.repeating 0, 0, none⟩

/-- The tip a block tree entry stands for (`readLocalTip`'s initializer call). -/
def BlockTreeEntry.asTip (entry : BlockTreeEntry) : BlockTip :=
  ⟨entry.hash, entry.height, some entry.timestamp⟩

/-- `readLocalTip`. -/
def readLocalTip : SyncM E BlockTip :=
  Exit.act fun w => ((E.bestEntry w.env).asTip, w)

/-- `describeSyncFailure`. -/
def describeSyncFailure (E : Environment) (error : SwiftError) (context : String) : String :=
  match E.errorDescription error with
  | some msg => s!"{context}: {msg}"
  | none => s!"{context}: {E.interpolation error}"

/-! ## 3. The ways out -/

/-- `continuation.finish(); return`. -/
def finishAndReturn {α : Type} : SyncM E α := do
  finish
  Exit.stop

/-- `continuation.yield(.failed(reason)); continuation.finish(); return`. -/
def failAndReturn {α : Type} (reason : String) (tip remoteTip : BlockTip) : SyncM E α := do
  yieldUpdate (.failed reason) tip remoteTip
  finishAndReturn

/-- `catch is CancellationError { … } catch { … }`: each of the four `do` blocks of the source
    ends in this pair, with its own context text and tips. -/
def caught {α : Type} (error : SwiftError) (context : String) (tip remoteTip : BlockTip) :
    SyncM E α :=
  match error with
  | .cancellation => finishAndReturn
  | error => failAndReturn (describeSyncFailure E error context) tip remoteTip

/-! ## 4. The body -/

/-- The fork-point check, made only when resuming from a local tip above genesis. -/
def forkPointCheck (localTip remoteTip : BlockTip) : SyncM E Unit := do
  if localTip.height > 0 then
    if remoteTip.height < localTip.height then
      failAndReturn
        s!"remote is behind local (remote height {remoteTip.height} < local height {localTip.height})"
        localTip remoteTip
    else
      match ← blockHash localTip.height with
      | .ok remoteHashAtLocalHeight =>
        if remoteHashAtLocalHeight ≠ localTip.hash.val then
          failAndReturn
            s!"remote chain diverges at height {localTip.height} — reindex required"
            localTip remoteTip
      | .error e =>
        caught e s!"fork-point check at height {localTip.height}" localTip remoteTip

/-- Everything before the main loop. -/
def prepare : SyncM E (BlockTip × BlockTip) := do
  let localTip ← readLocalTip
  yieldUpdate .preparing localTip unknownRemoteTip
  match ← resolveTip with
  | .error e => caught e "resolving remote tip" localTip unknownRemoteTip
  | .ok remoteTip =>
    forkPointCheck localTip remoteTip
    setTotal remoteTip
    setCompleted localTip
    return (localTip, remoteTip)

/-- `if localTip.height >= remoteTip.height { … }`: re-poll, and finish unless the source has
    grown. The result is the remote tip the round goes on with. -/
def repoll (localTip remoteTip : BlockTip) : SyncM E BlockTip := do
  if localTip.height ≥ remoteTip.height then
    match ← repollTip localTip with
    | .error e =>
      caught e s!"re-checking remote tip at height {localTip.height}" localTip remoteTip
    | .ok freshRemote =>
      if freshRemote.height ≤ localTip.height then
        yieldUpdate .finished localTip freshRemote
        finishAndReturn
      else
        setTotal freshRemote
        return freshRemote
  else
    return remoteTip

/-- Fetch the block at `nextHeight`: its hash by height, then the block by hash. Both calls sit
    in one `do` block and share its catch clauses. -/
def fetchNext (localTip remoteTip : BlockTip) : SyncM E Block := do
  match ← blockHash (localTip.height + 1) with
  | .error e =>
    caught e s!"fetching block at height {localTip.height + 1}" localTip remoteTip
  | .ok hash =>
    match ← blockFor hash with
    | .error e =>
      caught e s!"fetching block at height {localTip.height + 1}" localTip remoteTip
    | .ok block => return block

/-- Hand the block to the kernel, re-read the local tip, report. -/
def connectNext (localTip remoteTip : BlockTip) (block : Block) : SyncM E BlockTip := do
  let success ← processBlock block
  if !success then
    failAndReturn s!"kernel rejected block at height {localTip.height + 1}" localTip remoteTip
  else
    let localTip ← readLocalTip
    setCompleted localTip
    yieldUpdate .syncing localTip remoteTip
    return localTip

/-- One round of `while true`, from the round's `localTip` and `remoteTip` to the next one's. -/
def iteration (tips : BlockTip × BlockTip) : SyncM E (BlockTip × BlockTip) := do
  if ← isCancelled then
    finishAndReturn
  else
    let remoteTip ← repoll tips.1 tips.2
    let block ← fetchNext tips.1 remoteTip
    let localTip ← connectNext tips.1 remoteTip block
    return (localTip, remoteTip)

/-- **`runSyncLoop`**, followed for `n` rounds of its main loop: `none` where it has returned. -/
def runSyncLoop (n : Nat) : SyncM E (BlockTip × BlockTip) := do
  let tips ← prepare
  Exit.iter iteration n tips

/-- A run, from the environment and the progress it starts with. -/
def run (E : Environment) (n : Nat) (env : E.State) (progress : Progress) :
    Option (BlockTip × BlockTip) × World E :=
  runSyncLoop n ⟨env, [], progress⟩

/-! ## 5. Runs of different lengths -/

/-- One more round of a run. -/
theorem run_succ (E : Environment) (n : Nat) (env : E.State) (progress : Progress) :
    run E (n + 1) env progress = Exit.andThen (run E n env progress) iteration := by
  show Exit.andThen (prepare _) (Exit.iter iteration (n + 1)) =
    Exit.andThen (Exit.andThen (prepare _) (Exit.iter iteration n)) iteration
  cases prepare (⟨env, [], progress⟩ : World E) with
  | mk o w =>
    cases o with
    | none => rfl
    | some tips => exact Exit.iter_last iteration n tips w

/-- A run that has returned is over. -/
theorem run_returned {n : Nat} {env : E.State} {progress : Progress} {w : World E}
    (h : run E n env progress = (none, w)) (k : Nat) : run E (n + k) env progress = (none, w) := by
  induction k with
  | zero => exact h
  | succ k ih => rw [← Nat.add_assoc, run_succ, ih, Exit.andThen_none]

end SwiftBitcoinKernel
