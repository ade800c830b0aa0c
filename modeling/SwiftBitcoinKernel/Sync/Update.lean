/-
  File:      SwiftBitcoinKernel/Sync/Update.lean
  Subject:   The values a sync run is made of: tips, updates, errors, the source's blocks.

  * `BlockTip` -- `BlockTip.swift`; the 32-byte precondition of its initializer is the subtype
    `Hash`, so a tip with another hash length cannot be built;
  * `Update`, `UpdateState` -- `BlockchainSync.Update` and its lifecycle states;
  * `SwiftError` -- `any Error` as far as a catch clause of the engine can tell errors apart:
    `CancellationError`, `URLError`, the cases of `BlockSourceError`, anything else;
  * `Progress` -- the two counters of `Foundation.Progress` the engine writes.
-/
import Mathlib.Logic.Basic

namespace SwiftBitcoinKernel

/-- `Foundation.Data`. -/
abbrev Data := List UInt8

/-- A block hash in internal byte order: exactly 32 bytes (`BlockTip.init`'s precondition, and
    the width of the kernel's `uint256`). -/
abbrev Hash := { d : Data // d.length = 32 }

/-- `Data(repeating: byte, count: 32)`. -/
def Hash.repeating (byte : UInt8) : Hash := ⟨List.replicate 32 byte, List.length_replicate⟩

/-- `BlockTip`: which block, at which height, and its header time where known. -/
structure BlockTip where
  hash : Hash
  height : Int
  timestamp : Option Nat
  deriving DecidableEq, Repr

/-- The two tips name the same block: `timestamp` is display data a source may leave out. -/
def BlockTip.SameBlock (a b : BlockTip) : Prop := a.hash = b.hash ∧ a.height = b.height

instance (a b : BlockTip) : Decidable (a.SameBlock b) :=
  inferInstanceAs (Decidable (a.hash = b.hash ∧ a.height = b.height))

/-- `BlockTreeEntry` as `readLocalTip` reads it. -/
structure BlockTreeEntry where
  hash : Hash
  height : Nat
  timestamp : Nat
  deriving DecidableEq, Repr

/-- `BlockHeader`: its own hash, its parent's, its time, and its difficulty target `nBits`. -/
structure BlockHeader where
  hash : Hash
  prevHash : Hash
  timestamp : Nat
  bits : Nat
  deriving DecidableEq, Repr

/-- `Block`: a parsed block, its header and its transactions. -/
structure Block where
  header : BlockHeader
  transactions : Data
  deriving DecidableEq, Repr

/-- `Block.hash`. -/
def Block.hash (b : Block) : Hash := b.header.hash

/-- `BlockchainSync.Update.State`. -/
inductive UpdateState where
  | preparing
  | syncing
  | finished
  | failed (reason : String)
  deriving DecidableEq, Repr

/-- `Update.State.isTerminal`. -/
def UpdateState.isTerminal : UpdateState → Bool
  | .preparing | .syncing => false
  | .finished | .failed _ => true

/-- `Update.State` is one of `.failed(_)`. -/
def UpdateState.isFailed : UpdateState → Bool
  | .failed _ => true
  | _ => false

/-- `BlockchainSync.Update`. -/
structure Update where
  state : UpdateState
  tip : BlockTip
  remoteTip : BlockTip
  deriving DecidableEq, Repr

/-- The `URLError.Code`s the engine tells apart; `other` is every code it does not name. -/
inductive URLErrorCode where
  | timedOut | networkConnectionLost | cannotConnectToHost | cannotFindHost | dnsLookupFailed
  | resourceUnavailable | badURL | secureConnectionFailed | cancelled | badServerResponse
  | userAuthenticationRequired
  | other (code : Int)
  deriving DecidableEq, Repr

/-- The argument of `Duration.seconds(_: Double)`: an exact number of seconds, or infinite. -/
inductive Seconds where
  | finite (value : Rat)
  | infinite
  deriving DecidableEq, Repr

/-- `seconds > 0`. -/
def Seconds.positive : Seconds → Bool
  | .finite value => decide (0 < value)
  | .infinite => true

/-- `any Error`. `invalidResponse` to `network` are the cases of `BlockSourceError`. -/
inductive SwiftError where
  | cancellation
  | url (code : URLErrorCode)
  | invalidResponse (details : String)
  | notFound
  | notSupported
  | rateLimited (retryAfter : Option Seconds)
  | network (underlying : SwiftError)
  | other (description : String)
  deriving DecidableEq, Repr

/-- `error is BlockSourceError`. -/
def SwiftError.isBlockSourceError : SwiftError → Bool
  | .invalidResponse _ | .notFound | .notSupported | .rateLimited _ | .network _ => true
  | .cancellation | .url _ | .other _ => false

/-- `Foundation.Progress`. -/
structure Progress where
  totalUnitCount : Int
  completedUnitCount : Int
  deriving DecidableEq, Repr

end SwiftBitcoinKernel
