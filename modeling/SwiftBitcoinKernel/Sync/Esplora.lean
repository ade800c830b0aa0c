/-
  File:      SwiftBitcoinKernel/Sync/Esplora.lean
  Subject:   `EsploraBlockSource`: the paced, retrying fetch, and the source built on it.

  Every place at which the task can be suspended is on record (`Suspension`), and a cancellation
  is delivered at one of them: from there on a sleep throws `CancellationError`, and an HTTP call
  what its client throws on cancellation.

  * `RequestPacer` -- `RequestPacer.swift`;
  * `Esplora` -- the source's own settings, and what it runs against: the HTTP client, the clock,
    the cancellation;
  * `attemptOnce`, `fetchData` -- one round of `while true`, and the loop. `left` is
    `maximumRetries - attempt`, so `attempt >= maximumRetries` is `left = 0`, and `Attempt left` has
    a next round only where one is left;
  * `bestTip`, `blockHash`, `block` -- the `BlockSource` conformance, as far as the engine calls it;
  * `esploraEnv` -- a sync run against this source.
-/
import SwiftBitcoinKernel.Logic.Throwing
import SwiftBitcoinKernel.Sync.EsploraAPI
import SwiftBitcoinKernel.Sync.Loop

namespace SwiftBitcoinKernel

open Logic

/-! ## 1. What the source runs against -/

/-- `RequestPacer`; instants and durations are those of `ContinuousClock`, in one fixed unit. -/
structure RequestPacer where
  minimumDelay : Int
  earliestNextStart : Int
  deriving DecidableEq, Repr

/-- `reserveNextSlot()`, at the clock reading `now`. -/
def RequestPacer.reserveNextSlot (p : RequestPacer) (now : Int) : Int × RequestPacer :=
  let start := if now > p.earliestNextStart then now else p.earliestNextStart
  (start, { p with earliestNextStart := start + p.minimumDelay })

/-- `URLResponse`, with the body it came with. -/
inductive HTTPResponse where
  | http (statusCode : Int) (retryAfter : Option String) (body : Data)
  | nonHTTP (body : Data)
  deriving DecidableEq, Repr

/-- The suspension points of `fetchData`. -/
inductive Suspension where
  /-- `Task.sleep(until: slot)`. -/
  | slotWait (slot : Int)
  /-- `httpClient.data(from:)`. -/
  | request (path : String)
  /-- `Task.sleep(for:)` after a 429 or 5xx response, inside the `do` block. -/
  | statusRetry (delay : Seconds)
  /-- `Task.sleep(for:)` after a network error, inside the catch clause. -/
  | networkRetry (delay : Seconds)
  deriving DecidableEq, Repr

/-- What an HTTP client throws when its task is cancelled. -/
inductive CancelledRequest where
  | cancellationError
  | urlErrorCancelled
  deriving DecidableEq, Repr

/-- The error thrown. -/
def CancelledRequest.error : CancelledRequest → SwiftError
  | .cancellationError => .cancellation
  | .urlErrorCancelled => .url .cancelled

/-- `EsploraBlockSource`, and its surroundings. `http` answers the `i`-th request and `clock` the
    `i`-th reading. `double` is `Double(_:)`, without NaN and minus infinity, which no test below
    lets through. The cancellation is delivered during the suspension numbered `cancelAt`. -/
structure Esplora where
  maximumRetries : Int
  baseRetryDelay : Rat
  http : String → Nat → Except SwiftError HTTPResponse
  clock : Nat → Int
  double : String → Option Seconds
  parseBlock : Data → Except String Block
  cancelAt : Option Nat
  cancelledRequest : Nat → CancelledRequest

/-- What the calls so far have left. -/
structure EsploraState where
  pacer : RequestPacer
  readings : Nat
  requests : Nat
  suspensions : List Suspension
  deriving DecidableEq, Repr

/-- The task has been cancelled by the time of suspension `i`. -/
def Esplora.cancelledBy (S : Esplora) (i : Nat) : Bool :=
  match S.cancelAt with
  | some j => decide (j ≤ i)
  | none => false

/-- The source's functions. -/
abbrev EsploraM := Throwing EsploraState SwiftError

namespace Esplora

variable (S : Esplora)

/-- `await pacer.reserveNextSlot()`. -/
def reserveNextSlot : EsploraM Int :=
  Throwing.act fun s =>
    let r := s.pacer.reserveNextSlot (S.clock s.readings)
    (r.1, { s with pacer := r.2, readings := s.readings + 1 })

/-- A suspension: whether the task is cancelled as it ends. -/
def suspend (point : Suspension) : EsploraM Bool :=
  Throwing.act fun s =>
    (S.cancelledBy s.suspensions.length, { s with suspensions := s.suspensions ++ [point] })

/-- `Task.sleep`. -/
def sleep (point : Suspension) : EsploraM Unit := do
  if ← S.suspend point then throw .cancellation

/-- The client's answer to the next request. -/
def answer (path : String) : EsploraM (Except SwiftError HTTPResponse) :=
  Throwing.act fun s => (S.http path s.requests, { s with requests := s.requests + 1 })

/-- What the client throws if the next request is cancelled. -/
def cancelledError : EsploraM SwiftError :=
  Throwing.act fun s =>
    ((S.cancelledRequest s.requests).error, { s with requests := s.requests + 1 })

/-- `httpClient.data(from: url)`. -/
def httpData (path : String) : EsploraM HTTPResponse := do
  if ← S.suspend (.request path) then
    throw (← S.cancelledError)
  else
    match ← S.answer path with
    | .ok response => return response
    | .error e => throw e

/-! ## 2. The fetch -/

/-- `retryAfterDuration(from:)`. -/
def retryAfterDuration (retryAfter : Option String) : Option Seconds :=
  (retryAfter.bind S.double).filter Seconds.positive

/-- `retryDelay(for:attempt:)`. -/
def retryDelay (retryAfter : Option String) (attempt : Nat) : Seconds :=
  match S.retryAfterDuration retryAfter with
  | some seconds => seconds
  | none => .finite (S.baseRetryDelay * 2 ^ min attempt 6)

end Esplora

/-- `isRetryableNetworkError(_:)`. -/
def isRetryableNetworkError : SwiftError → Bool
  | .url .timedOut | .url .networkConnectionLost | .url .cannotConnectToHost
  | .url .cannotFindHost | .url .dnsLookupFailed | .url .resourceUnavailable
  | .url .badURL | .url .secureConnectionFailed => true
  | _ => false

/-- How a round of the loop ends, where it does not throw: `return data`, or `continue`. -/
inductive Attempt : Nat → Type where
  | data {left : Nat} (d : Data) : Attempt left
  | again {left : Nat} : Attempt (left + 1)

namespace Esplora

variable (S : Esplora)

/-- A 429 or 5xx response. -/
def retryStatus (statusCode : Int) (retryAfter : Option String) (attempt : Nat) :
    (left : Nat) → EsploraM (Attempt left)
  | 0 =>
    if statusCode = 429 then throw (.rateLimited (S.retryAfterDuration retryAfter))
    else throw (.invalidResponse s!"HTTP {statusCode} after {attempt + 1} attempt(s)")
  | _ + 1 => do
    S.sleep (.statusRetry (S.retryDelay retryAfter attempt))
    return .again

/-- The `do` block of a round. -/
def request (path : String) (left attempt : Nat) : EsploraM (Attempt left) := do
  match ← S.httpData path with
  | .nonHTTP _ => throw (.invalidResponse "non-HTTP response")
  | .http statusCode retryAfter body =>
    if 200 ≤ statusCode ∧ statusCode < 300 then return .data body
    else if statusCode = 404 then throw .notFound
    else if statusCode = 429 ∨ (500 ≤ statusCode ∧ statusCode < 600) then
      S.retryStatus statusCode retryAfter attempt left
    else throw (.invalidResponse s!"HTTP {statusCode}")

/-- Its last catch clause. -/
def retryError (error : SwiftError) (attempt : Nat) : (left : Nat) → EsploraM (Attempt left)
  | 0 => throw (.network error)
  | _ + 1 =>
    if isRetryableNetworkError error then do
      S.sleep (.networkRetry (S.retryDelay none attempt))
      return .again
    else throw (.network error)

/-- One round of `while true` in `fetchData(url:)`. -/
def attemptOnce (path : String) (left attempt : Nat) : EsploraM (Attempt left) := do
  let slot ← S.reserveNextSlot
  S.sleep (.slotWait slot)
  tryCatch (S.request path left attempt) fun error =>
    if error.isBlockSourceError then throw error else S.retryError error attempt left

/-- The rounds, with `left` retries left. -/
def rounds (path : String) : (left attempt : Nat) → EsploraM Data
  | 0, attempt => do
    match ← S.attemptOnce path 0 attempt with
    | .data d => return d
  | left + 1, attempt => do
    match ← S.attemptOnce path (left + 1) attempt with
    | .data d => return d
    | .again => rounds path left (attempt + 1)

/-- `fetchData(url:)`. -/
def fetchData (path : String) : EsploraM Data := S.rounds path S.maximumRetries.toNat 0

/-! ## 3. The source -/

/-- The text of a response in an error message. -/
def raw (d : Data) : String := (EsploraAPI.utf8 d).getD "<non-utf8>"

/-- `EsploraAPI.internalHash(fromDisplayHex:)` on a response: a hash, by its length. -/
def hashFrom (d : Data) : Option Hash :=
  (EsploraAPI.utf8 d).bind fun text =>
    match h : EsploraAPI.internalHash text with
    | some hash => some ⟨hash, EsploraAPI.internalHash_length h⟩
    | none => none

/-- `bestTip()`. -/
def bestTip : EsploraM BlockTip := do
  let heightData ← S.fetchData EsploraAPI.tipHeightURL
  match (EsploraAPI.utf8 heightData).bind fun text =>
      EsploraAPI.int (EsploraAPI.trimming text.toList) with
  | none => throw (.invalidResponse s!"expected numeric tip height, got '{raw heightData}'")
  | some height =>
    let hashData ← S.fetchData EsploraAPI.tipHashURL
    match hashFrom hashData with
    | none => throw (.invalidResponse s!"expected 64-char hex tip hash, got '{raw hashData}'")
    | some hash => return ⟨hash, height, none⟩

/-- `blockHash(atHeight:)`. -/
def blockHash (height : Int) : EsploraM Data := do
  let d ← S.fetchData (EsploraAPI.blockHashAtHeightURL height)
  match hashFrom d with
  | none => throw (.invalidResponse s!"expected 64-char hex hash, got '{raw d}'")
  | some hash => return hash.val

/-- `block(for:)`. -/
def block (hash : Data) : EsploraM Block := do
  let d ← S.fetchData (EsploraAPI.blockRawURL hash)
  match S.parseBlock d with
  | .ok block => return block
  | .error description => throw (.invalidResponse s!"Block parse failed: {description}")

end Esplora

/-! ## 4. A run against it -/

/-- `ChainstateManager`, as a sync run calls it, and the texts of errors. -/
structure Manager where
  State : Type
  bestEntry : State → BlockTreeEntry
  processBlock : Block → State → (Bool × Bool) × State
  errorDescription : SwiftError → Option String
  interpolation : SwiftError → String

/-- A call on the source, beside the manager. -/
def beside {κ α : Type} (x : EsploraM α) (s : κ × EsploraState) :
    Except SwiftError α × (κ × EsploraState) :=
  ((x s.2).1, (s.1, (x s.2).2))

/-- The environment of a run driven by an `EsploraBlockSource`. -/
def esploraEnv (K : Manager) (S : Esplora) : Environment where
  State := K.State × EsploraState
  bestEntry s := K.bestEntry s.1
  isCancelled s :=
    -- true once the suspension at which the cancellation arrives is over
    (match S.cancelAt with
      | some j => decide (j < s.2.suspensions.length)
      | none => false, s)
  bestTip := beside S.bestTip
  blockHash height := beside (S.blockHash height)
  block hash := beside (S.block hash)
  processBlock b s := ((K.processBlock b s.1).1, ((K.processBlock b s.1).2, s.2))
  errorDescription := K.errorDescription
  interpolation := K.interpolation

end SwiftBitcoinKernel
