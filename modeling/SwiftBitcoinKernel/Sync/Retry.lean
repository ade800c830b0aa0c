/-
  File:      SwiftBitcoinKernel/Sync/Retry.lean
  Subject:   The retry loop of `EsploraBlockSource` as it is written: `while true`, an `Int` that
             counts the attempts, and the places at which Swift traps.

  `Sync/Esplora.lean` has the loop by the retries that are left, and no traps. Here `attempt + 1` and
  `attempt += 1` trap beyond `Int.max`, `Duration.seconds(_:)` on what is infinite or too long, and
  `Duration * Int` on a product that is too long.

  * `retryAfterDuration`, `retryDelay`, `request`, `attemptOnce`, `fetchData` -- the source's
    functions, in `EsploraLoop`;
  * `retryDelay_returns_iff` -- which hint of a server crashes the client;
  * `round_again`, `round_last`, `round_traps` -- a round, by the answer it is given;
  * `fetchData_retried_iff` -- the loop, by all of them: the retries it makes, the delays it sleeps,
    and how it ends;
  * `fetchData_sound` -- where it does not trap, it does what the loop of `Sync/Esplora.lean` does.
-/
import Mathlib.Data.Nat.Find
import Mathlib.Order.Bounds.Defs
import SwiftBitcoinKernel.Logic.Trapping
import SwiftBitcoinKernel.Sync.Esplora

namespace SwiftBitcoinKernel

open Logic

/-! ## 1. Durations -/

/-- The attoseconds of a `Duration` are a signed 128-bit integer. -/
def Seconds.fits : Seconds → Bool
  | .finite seconds =>
    -170141183460469231731687303715884105728 ≤ seconds * 1000000000000000000 ∧
      seconds * 1000000000000000000 < 170141183460469231731687303715884105728
  | .infinite => false

/-- The `Duration` of so many seconds. -/
def Seconds.duration (seconds : Seconds) : Checked Seconds :=
  if seconds.fits then .value seconds else .trap

/-- `attempt + 1`, for an `Int`. -/
def increment (attempt : Int) : Checked Int :=
  if attempt < 9223372036854775807 then .value (attempt + 1) else .trap

/-! ## 2. The loop -/

/-- The source's functions, with their traps. -/
abbrev EsploraLoop := Throwing EsploraState (Fault SwiftError)

namespace EsploraLoop

variable (S : Esplora)

/-- `retryAfterDuration(from:)`. -/
def retryAfterDuration (retryAfter : Option String) : Checked (Option Seconds) :=
  match retryAfter.bind S.double with
  | none => .value none
  | some seconds =>
    if seconds.positive then seconds.duration >>= fun duration => .value (some duration)
    else .value none

/-- `1 << min(attempt, 6)`; a shift by a negative count is one to the right. -/
def multiplier (attempt : Int) : Nat :=
  if min attempt 6 < 0 then 1 >>> (-min attempt 6).toNat else 1 <<< (min attempt 6).toNat

/-- `retryDelay(for:attempt:)`. -/
def retryDelay (retryAfter : Option String) (attempt : Int) : Checked Seconds := do
  match ← retryAfterDuration S retryAfter with
  | some after => return after
  | none => (Seconds.finite (S.baseRetryDelay * multiplier attempt)).duration

/-- The `do` block, from `guard let http` on. -/
def respond (attempt : Int) : HTTPResponse → EsploraLoop (Round Int Data)
  | .nonHTTP _ => throw (.threw (.invalidResponse "non-HTTP response"))
  | .http statusCode retryAfter body =>
    if 200 ≤ statusCode ∧ statusCode < 300 then return .done body
    else if statusCode = 404 then throw (.threw .notFound)
    else if statusCode = 429 ∨ (500 ≤ statusCode ∧ statusCode < 600) then
      if attempt ≥ S.maximumRetries then
        if statusCode = 429 then do
          let after ← check (retryAfterDuration S retryAfter)
          throw (.threw (.rateLimited after))
        else do
          let attempts ← check (increment attempt)
          throw (.threw (.invalidResponse s!"HTTP {statusCode} after {attempts} attempt(s)"))
      else do
        let delay ← check (retryDelay S retryAfter attempt)
        lift (S.sleep (.statusRetry delay))
        return .again (← check (increment attempt))
    else throw (.threw (.invalidResponse s!"HTTP {statusCode}"))

/-- The `do` block. -/
def request (path : String) (attempt : Int) : EsploraLoop (Round Int Data) := do
  respond S attempt (← lift (S.httpData path))

/-- The catch clauses. -/
def recover (attempt : Int) (error : SwiftError) : EsploraLoop (Round Int Data) :=
  if error.isBlockSourceError then throw (.threw error)
  else if attempt < S.maximumRetries ∧ isRetryableNetworkError error then do
    let delay ← check (retryDelay S none attempt)
    lift (S.sleep (.networkRetry delay))
    return .again (← check (increment attempt))
  else throw (.threw (.network error))

/-- A round. -/
def attemptOnce (path : String) (attempt : Int) : EsploraLoop (Round Int Data) := do
  let slot ← lift S.reserveNextSlot
  lift (S.sleep (.slotWait slot))
  catching (request S path attempt) (recover S attempt)

/-- `fetchData(url:)`, for at most so many rounds. -/
def fetchData (path : String) (fuel : Nat) : EsploraLoop (Option Data) :=
  whileTrue (attemptOnce S path) fuel 0

/-! ## 3. The hint of a server -/

variable {S : Esplora}

/-- A header with no positive number in it. -/
def NoHint (S : Esplora) (retryAfter : Option String) : Prop :=
  ∀ text seconds, retryAfter = some text → S.double text = some seconds → seconds.positive = false

theorem hint_eq_some {retryAfter : Option String} {seconds : Seconds} :
    S.retryAfterDuration retryAfter = some seconds ↔
      ∃ text, retryAfter = some text ∧ S.double text = some seconds ∧ seconds.positive = true := by
  unfold Esplora.retryAfterDuration
  rw [Option.filter_eq_some_iff, Option.bind_eq_some_iff]
  constructor
  · rintro ⟨⟨text, htext, hdouble⟩, hpos⟩
    exact ⟨text, htext, hdouble, hpos⟩
  · rintro ⟨text, htext, hdouble, hpos⟩
    exact ⟨⟨text, htext, hdouble⟩, hpos⟩

theorem hint_eq_none {retryAfter : Option String} :
    S.retryAfterDuration retryAfter = none ↔ NoHint S retryAfter := by
  constructor
  · intro hnone text seconds htext hdouble
    refine Bool.eq_false_iff.2 fun hpos => ?_
    rw [hint_eq_some.2 ⟨text, htext, hdouble, hpos⟩] at hnone
    cases hnone
  · intro hno
    refine Option.eq_none_iff_forall_ne_some.2 fun seconds hsome => ?_
    obtain ⟨text, htext, hdouble, hpos⟩ := hint_eq_some.1 hsome
    rw [hno text seconds htext hdouble] at hpos
    cases hpos

theorem retryAfterDuration_none {retryAfter : Option String}
    (h : S.retryAfterDuration retryAfter = none) :
    retryAfterDuration S retryAfter = .value none := by
  unfold retryAfterDuration
  cases hvalue : retryAfter.bind S.double with
  | none => rfl
  | some seconds =>
    obtain ⟨text, htext, hdouble⟩ := Option.bind_eq_some_iff.1 hvalue
    dsimp only
    rw [hint_eq_none.1 h text seconds htext hdouble]
    rfl

/-- The conversion is of a positive value of the header only. -/
theorem retryAfterDuration_some {retryAfter : Option String} {seconds : Seconds}
    (h : S.retryAfterDuration retryAfter = some seconds) :
    retryAfterDuration S retryAfter =
      seconds.duration >>= fun duration => .value (some duration) := by
  obtain ⟨text, rfl, hdouble, hpos⟩ := hint_eq_some.1 h
  unfold retryAfterDuration
  rw [Option.bind_some, hdouble]
  dsimp only
  rw [if_pos hpos]

theorem retryAfterDuration_fits {retryAfter : Option String} {seconds : Seconds}
    (h : S.retryAfterDuration retryAfter = some seconds) (hfits : seconds.fits = true) :
    retryAfterDuration S retryAfter = .value (some seconds) := by
  rw [retryAfterDuration_some h, Seconds.duration, if_pos hfits]
  rfl

theorem retryAfterDuration_traps {retryAfter : Option String} {seconds : Seconds}
    (h : S.retryAfterDuration retryAfter = some seconds) (hfits : ¬seconds.fits = true) :
    retryAfterDuration S retryAfter = .trap := by
  rw [retryAfterDuration_some h, Seconds.duration, if_neg hfits]
  rfl

theorem duration_returns (seconds : Seconds) : seconds.duration.returns = seconds.fits := by
  unfold Seconds.duration
  cases seconds.fits with
  | true => rfl
  | false => rfl

/-- **What a retry hint can do.** Both functions return exactly where a positive number of seconds
    in the header, if there is one, is finite and fits a `Duration`, and the backoff does where
    there is none. -/
theorem retryDelay_returns_iff (S : Esplora) (retryAfter : Option String) (attempt : Int) :
    ((retryAfterDuration S retryAfter).returns = true ∧
        (retryDelay S retryAfter attempt).returns = true) ↔
      (∀ text seconds, retryAfter = some text → S.double text = some seconds →
          seconds.positive = true → seconds.fits = true) ∧
        (NoHint S retryAfter →
          (Seconds.finite (S.baseRetryDelay * multiplier attempt)).fits = true) := by
  rw [← hint_eq_none]
  cases hhint : S.retryAfterDuration retryAfter with
  | none =>
    have hno := hint_eq_none.1 hhint
    have hdelay : retryDelay S retryAfter attempt =
        (Seconds.finite (S.baseRetryDelay * multiplier attempt)).duration := by
      unfold retryDelay
      rw [retryAfterDuration_none hhint]
      rfl
    rw [retryAfterDuration_none hhint, hdelay, duration_returns]
    refine ⟨fun ⟨_, hfits⟩ => ⟨?_, fun _ => hfits⟩, fun ⟨_, hfits⟩ => ⟨rfl, hfits rfl⟩⟩
    intro text seconds htext hdouble hpos
    rw [hno text seconds htext hdouble] at hpos
    cases hpos
  | some seconds =>
    obtain ⟨text, htext, hdouble, hpos⟩ := hint_eq_some.1 hhint
    by_cases hfits : seconds.fits = true
    · have hafter := retryAfterDuration_fits hhint hfits
      unfold retryDelay
      rw [hafter]
      refine ⟨fun _ => ⟨?_, nofun⟩, fun _ => ⟨rfl, rfl⟩⟩
      intro text' seconds' htext' hdouble' _
      rw [htext] at htext'
      cases htext'
      rw [hdouble] at hdouble'
      cases hdouble'
      exact hfits
    · rw [retryAfterDuration_traps hhint hfits]
      refine ⟨fun ⟨h, _⟩ => (by cases h), fun ⟨hall, _⟩ => ?_⟩
      exact absurd (hall text seconds htext hdouble hpos) hfits

/-- A server that answers 429 and never wants to be asked again. -/
def insatiable : Esplora where
  maximumRetries := 5
  baseRetryDelay := 1 / 2
  http _ _ := .ok (.http 429 (some "inf") [])
  clock _ := 0
  double text :=
    if text = "inf" then some .infinite
    else if text = "1e21" then some (.finite 1000000000000000000000) else none
  parseBlock _ := .error ""
  cancelAt := none
  cancelledRequest _ := .cancellationError

/-- A source that has not been used. -/
def unused : EsploraState := ⟨⟨1, 0⟩, 0, 0, []⟩

theorem hint_traps :
    (retryAfterDuration insatiable (some "inf")).returns = false ∧
      (retryDelay insatiable (some "inf") 0).returns = false ∧
      (retryDelay insatiable (some "1e21") 0).returns = false ∧
      (fetchData insatiable "/blocks/tip/height" 1 unused).1 = .error .trap := by
  refine ⟨rfl, rfl, ?_, rfl⟩
  decide +kernel

/-! ## 4. A round, where the task is not cancelled -/

/-- The state after the wait for a slot. -/
def begun (S : Esplora) (s : EsploraState) : EsploraState :=
  let slot := s.pacer.reserveNextSlot (S.clock s.readings)
  { s with
    pacer := slot.2
    readings := s.readings + 1
    suspensions := s.suspensions ++ [.slotWait slot.1] }

/-- The state after the answer. -/
def asked (S : Esplora) (path : String) (s : EsploraState) : EsploraState :=
  { begun S s with
    requests := s.requests + 1
    suspensions := (begun S s).suspensions ++ [.request path] }

/-- The state after a sleep. -/
def slept (point : Suspension) (s : EsploraState) : EsploraState :=
  { s with suspensions := s.suspensions ++ [point] }

variable {path : String} {s : EsploraState} {attempt : Int}

theorem suspend_eq (h : S.cancelAt = none) (point : Suspension) :
    S.suspend point s = (.ok false, slept point s) := by
  show ((Except.ok (S.cancelledBy s.suspensions.length) : Except SwiftError Bool), _) = _
  unfold Esplora.cancelledBy
  rw [h]
  rfl

theorem sleep_eq (h : S.cancelAt = none) (point : Suspension) :
    S.sleep point s = (.ok (), slept point s) := by
  unfold Esplora.sleep
  rw [Throwing.bind_of_ok (suspend_eq h point)]
  rfl

theorem httpData_eq (h : S.cancelAt = none) :
    S.httpData path s = (S.http path s.requests,
      { slept (.request path) s with requests := s.requests + 1 }) := by
  have hanswer : S.answer path (slept (.request path) s) = (.ok (S.http path s.requests),
      { slept (.request path) s with requests := s.requests + 1 }) := rfl
  refine (Throwing.bind_of_ok (suspend_eq h _)).trans ((Throwing.bind_of_ok hanswer).trans ?_)
  cases S.http path s.requests with
  | ok response => rfl
  | error e => rfl

theorem attemptOnce_eq (h : S.cancelAt = none) :
    attemptOnce S path attempt s = catching (request S path attempt) (recover S attempt) (begun S s) := by
  have hslot : lift S.reserveNextSlot s =
      (.ok (s.pacer.reserveNextSlot (S.clock s.readings)).1,
        { s with
          pacer := (s.pacer.reserveNextSlot (S.clock s.readings)).2
          readings := s.readings + 1 }) := rfl
  unfold attemptOnce
  rw [Throwing.bind_of_ok hslot, Throwing.bind_of_ok]
  unfold lift
  rw [sleep_eq h]
  rfl

/-! ## 5. What the loop is to do -/

/-- An answer after which the request may be made again: 429, 5xx, or a transient error. -/
def retryable : Except SwiftError HTTPResponse → Bool
  | .ok (.http statusCode _ _) => statusCode = 429 ∨ (500 ≤ statusCode ∧ statusCode < 600)
  | .ok (.nonHTTP _) => false
  | .error e => isRetryableNetworkError e

/-- A 5xx response. -/
def serverError : Except SwiftError HTTPResponse → Bool
  | .ok (.http statusCode _ _) => 500 ≤ statusCode ∧ statusCode < 600
  | _ => false

/-- The `Retry-After` header of an answer. -/
def retryAfter : Except SwiftError HTTPResponse → Option String
  | .ok (.http _ header _) => header
  | _ => none

/-- Its seconds, where they are positive. -/
def hintAfter (S : Esplora) (answer : Except SwiftError HTTPResponse) : Option Seconds :=
  ((retryAfter answer).bind S.double).filter Seconds.positive

/-- The delay before retry `i + 1`: the hint, or the backoff. -/
def delayAfter (S : Esplora) (answer : Except SwiftError HTTPResponse) (i : Nat) : Seconds :=
  (hintAfter S answer).getD (.finite (S.baseRetryDelay * 2 ^ min i 6))

/-- The result of a fetch, without the texts. -/
inductive FetchResult where
  | data (d : Data)
  | notFound
  | rateLimited (retryAfter : Option Seconds)
  | invalidResponse
  | network (underlying : SwiftError)
  deriving DecidableEq, Repr

/-- The result a loop has come to, if it has. -/
def FetchResult.of : Except (Fault SwiftError) (Option Data) → Option FetchResult
  | .ok (some d) => some (.data d)
  | .error (.threw .notFound) => some .notFound
  | .error (.threw (.rateLimited after)) => some (.rateLimited after)
  | .error (.threw (.invalidResponse _)) => some .invalidResponse
  | .error (.threw (.network e)) => some (.network e)
  | _ => none

/-- The result, by the last answer. -/
def resultOf (S : Esplora) : Except SwiftError HTTPResponse → FetchResult
  | .ok (.nonHTTP _) => .invalidResponse
  | .ok (.http statusCode header body) =>
    if 200 ≤ statusCode ∧ statusCode < 300 then .data body
    else if statusCode = 404 then .notFound
    else if statusCode = 429 then .rateLimited (hintAfter S (.ok (.http statusCode header body)))
    else .invalidResponse
  | .error e => .network e

/-- The sleep before a retry. -/
def retryPoint (delay : Seconds) : Except SwiftError HTTPResponse → Suspension
  | .ok _ => .statusRetry delay
  | .error _ => .networkRetry delay

/-! ## 6. A round, by its answer -/

theorem multiplier_eq (S : Esplora) (i : Nat) :
    S.baseRetryDelay * (multiplier i : Rat) = S.baseRetryDelay * 2 ^ min i 6 := by
  have hpower : (multiplier i : Rat) = 2 ^ min i 6 := by
    unfold multiplier
    have hnat : min (i : Int) 6 = ((min i 6 : Nat) : Int) := by omega
    rw [hnat, if_neg (by omega), Int.toNat_natCast]
    have hpowers : ∀ n < 7, ((1 <<< n : Nat) : Rat) = 2 ^ n := by decide +kernel
    exact hpowers (min i 6) (by omega)
  rw [hpower]

theorem delayAfter_hint {answer : Except SwiftError HTTPResponse} {seconds : Seconds} {i : Nat}
    (h : hintAfter S answer = some seconds) : delayAfter S answer i = seconds := by
  unfold delayAfter
  rw [h]
  rfl

theorem retryAfterDuration_value {answer : Except SwiftError HTTPResponse} {i : Nat}
    (hfits : (delayAfter S answer i).fits = true) :
    retryAfterDuration S (retryAfter answer) = .value (hintAfter S answer) := by
  cases hhint : hintAfter S answer with
  | none => exact retryAfterDuration_none hhint
  | some seconds =>
    rw [delayAfter_hint hhint] at hfits
    exact retryAfterDuration_fits hhint hfits

theorem retryDelay_value {answer : Except SwiftError HTTPResponse} {i : Nat}
    (hfits : (delayAfter S answer i).fits = true) :
    retryDelay S (retryAfter answer) i = .value (delayAfter S answer i) := by
  unfold retryDelay
  rw [retryAfterDuration_value hfits]
  cases hhint : hintAfter S answer with
  | some seconds =>
    rw [delayAfter_hint hhint]
    rfl
  | none =>
    have hdelay : delayAfter S answer i = .finite (S.baseRetryDelay * multiplier i) := by
      unfold delayAfter
      rw [hhint, multiplier_eq]
      rfl
    rw [hdelay] at hfits ⊢
    show Seconds.duration _ = _
    unfold Seconds.duration
    rw [if_pos hfits]

theorem increment_value {i : Nat} (h : (i : Int) < 9223372036854775807) :
    increment i = .value ((i + 1 : Nat) : Int) := by
  unfold increment
  rw [if_pos h]
  rfl

theorem request_ok {response : HTTPResponse} (h : S.cancelAt = none)
    (hanswer : S.http path s.requests = .ok response) :
    request S path attempt (begun S s) = respond S attempt response (asked S path s) := by
  refine Throwing.bind_of_ok ?_
  unfold lift
  rw [httpData_eq h]
  show lifted (S.http path s.requests, asked S path s) = _
  rw [hanswer]
  rfl

theorem request_error {e : SwiftError} (h : S.cancelAt = none)
    (hanswer : S.http path s.requests = .error e) :
    request S path attempt (begun S s) = (.error (.threw e), asked S path s) := by
  refine Throwing.bind_of_error ?_
  unfold lift
  rw [httpData_eq h]
  show lifted (S.http path s.requests, asked S path s) = _
  rw [hanswer]
  rfl

/-- A status that may be retried is neither a success nor 404. -/
theorem respond_retry {statusCode : Int} {header : Option String} {body : Data}
    (hstatus : statusCode = 429 ∨ (500 ≤ statusCode ∧ statusCode < 600)) :
    respond S attempt (.http statusCode header body) =
      if attempt ≥ S.maximumRetries then
        if statusCode = 429 then do
          let after ← check (retryAfterDuration S header)
          throw (.threw (.rateLimited after))
        else do
          let attempts ← check (increment attempt)
          throw (.threw (.invalidResponse s!"HTTP {statusCode} after {attempts} attempt(s)"))
      else do
        let delay ← check (retryDelay S header attempt)
        lift (S.sleep (.statusRetry delay))
        return .again (← check (increment attempt)) := by
  unfold respond
  dsimp only
  rw [if_neg (by omega), if_neg (by omega), if_pos hstatus]

/-- The end of both branches that go round again. -/
theorem sleeps_again {i : Nat} {delay : Seconds} {point : Seconds → Suspension}
    {st : EsploraState} {next : Checked Seconds} (h : S.cancelAt = none)
    (hnext : next = .value delay) (hi : (i : Int) < 9223372036854775807) :
    (do
        let delay ← check next
        lift (S.sleep (point delay))
        return Round.again (← check (increment i)) : EsploraLoop (Round Int Data)) st =
      (.ok (.again ((i + 1 : Nat) : Int)), slept (point delay) st) := by
  have hsleep : lift (S.sleep (point delay)) st = (.ok (), slept (point delay) st) := by
    unfold lift
    rw [sleep_eq h]
    rfl
  rw [hnext]
  refine (Throwing.bind_of_ok rfl).trans ((Throwing.bind_of_ok hsleep).trans ?_)
  rw [increment_value hi]
  rfl

/-- **A round that goes on.** -/
theorem round_again {i : Nat} {answer : Except SwiftError HTTPResponse} (h : S.cancelAt = none)
    (hanswer : S.http path s.requests = answer) (hretry : retryable answer = true)
    (hleft : (i : Int) < S.maximumRetries) (hint : S.maximumRetries ≤ 9223372036854775807)
    (hfits : (delayAfter S answer i).fits = true) :
    attemptOnce S path i s = (.ok (.again ((i + 1 : Nat) : Int)),
      slept (retryPoint (delayAfter S answer i) answer) (asked S path s)) := by
  have hi : (i : Int) < 9223372036854775807 := Int.lt_of_lt_of_le hleft hint
  have hdelay := retryDelay_value hfits
  rw [attemptOnce_eq h]
  cases answer with
  | ok response =>
    cases response with
    | nonHTTP body => cases hretry
    | http statusCode header body =>
      refine catching_of_ok ?_
      rw [request_ok h hanswer, respond_retry (of_decide_eq_true hretry),
        if_neg (Int.not_le.2 hleft)]
      exact sleeps_again h hdelay hi
  | error e =>
    rw [catching_of_threw (request_error h hanswer)]
    have hblock : e.isBlockSourceError = false := by
      cases e with
      | url code => rfl
      | _ => cases hretry
    unfold recover
    rw [hblock, if_neg Bool.false_ne_true, if_pos ⟨hleft, hretry⟩]
    exact sleeps_again h hdelay hi

/-- What the `do` block throws, the first catch clause throws again. -/
theorem round_rethrows {e : SwiftError} {st : EsploraState} (h : S.cancelAt = none)
    (hrequest : request S path attempt (begun S s) = (.error (.threw e), st))
    (he : e.isBlockSourceError = true) :
    attemptOnce S path attempt s = (.error (.threw e), st) := by
  rw [attemptOnce_eq h, catching_of_threw hrequest]
  unfold recover
  rw [if_pos he]
  rfl

/-- A response that is no success, after which there is no other request. -/
theorem respond_throws {i : Nat} {statusCode : Int} {header : Option String} {body : Data}
    {answer : Except SwiftError HTTPResponse} (st : EsploraState)
    (hanswer : answer = .ok (.http statusCode header body))
    (hsuccess : ¬(200 ≤ statusCode ∧ statusCode < 300))
    (hlast : retryable answer = false ∨ S.maximumRetries ≤ i)
    (hfits : (delayAfter S answer i).fits = true)
    (hint : serverError answer = true → (i : Int) < 9223372036854775807) :
    ∃ e, respond S i (.http statusCode header body) st = (.error (.threw e), st) ∧
      e.isBlockSourceError = true ∧
      FetchResult.of (.error (.threw e)) = some (resultOf S answer) := by
  subst hanswer
  unfold resultOf
  dsimp only
  rw [if_neg hsuccess]
  by_cases hmissing : statusCode = 404
  · refine ⟨.notFound, ?_, rfl, ?_⟩
    · unfold respond
      dsimp only
      rw [if_neg hsuccess, if_pos hmissing]
      rfl
    · rw [if_pos hmissing]
      rfl
  by_cases hstatus : statusCode = 429 ∨ (500 ≤ statusCode ∧ statusCode < 600)
  · -- it could be retried, but no retry is left
    have hnone : (i : Int) ≥ S.maximumRetries := by
      rcases hlast with hno | hnone
      · exact absurd hstatus (of_decide_eq_false hno)
      · exact hnone
    rw [if_neg hmissing, respond_retry hstatus, if_pos hnone]
    by_cases hlimited : statusCode = 429
    · refine ⟨.rateLimited (hintAfter S (.ok (.http statusCode header body))), ?_, rfl, ?_⟩
      · have hafter := retryAfterDuration_value hfits
        rw [if_pos hlimited]
        rw [show retryAfterDuration S header = _ from hafter]
        rfl
      · rw [if_pos hlimited]
        rfl
    · have hserver : 500 ≤ statusCode ∧ statusCode < 600 := hstatus.resolve_left hlimited
      refine ⟨.invalidResponse s!"HTTP {statusCode} after {((i + 1 : Nat) : Int)} attempt(s)",
        ?_, rfl, ?_⟩
      · rw [if_neg hlimited, increment_value (hint (decide_eq_true hserver))]
        rfl
      · rw [if_neg hlimited]
        rfl
  · refine ⟨.invalidResponse s!"HTTP {statusCode}", ?_, rfl, ?_⟩
    · unfold respond
      dsimp only
      rw [if_neg hsuccess, if_neg hmissing, if_neg hstatus]
      rfl
    · rw [if_neg hmissing, if_neg fun h => hstatus (.inl h)]
      rfl

/-- **The last round**, where the number of attempts is an `Int`. -/
theorem round_last {i : Nat} {answer : Except SwiftError HTTPResponse} (h : S.cancelAt = none)
    (hanswer : S.http path s.requests = answer)
    (hlast : retryable answer = false ∨ S.maximumRetries ≤ i)
    (hclient : ∀ e, answer = .error e → e.isBlockSourceError = false)
    (hfits : (delayAfter S answer i).fits = true)
    (hint : serverError answer = true → (i : Int) < 9223372036854775807) :
    ∃ r, Ends (attemptOnce S path i s) (r, asked S path s) ∧
      FetchResult.of r = some (resultOf S answer) := by
  cases answer with
  | error e =>
    have hrecover : recover S i e (asked S path s) =
        (.error (.threw (.network e)), asked S path s) := by
      unfold recover
      rw [hclient e rfl, if_neg Bool.false_ne_true, if_neg]
      · rfl
      · rintro ⟨hleft, hretry⟩
        rcases hlast with hno | hnone
        · rw [show isRetryableNetworkError e = false from hno] at hretry
          cases hretry
        · omega
    refine ⟨.error (.threw (.network e)), ?_, rfl⟩
    rw [attemptOnce_eq h, catching_of_threw (request_error h hanswer), hrecover]
    exact .threw
  | ok response =>
    have hrequest : request S path i (begun S s) = respond S i response (asked S path s) :=
      request_ok h hanswer
    cases response with
    | nonHTTP body =>
      refine ⟨.error (.threw (.invalidResponse "non-HTTP response")), ?_, rfl⟩
      rw [round_rethrows h hrequest rfl]
      exact .threw
    | http statusCode header body =>
      by_cases hsuccess : 200 ≤ statusCode ∧ statusCode < 300
      · refine ⟨.ok (some body), ?_, ?_⟩
        · rw [attemptOnce_eq h, catching_of_ok]
          · exact .done
          · rw [hrequest]
            unfold respond
            dsimp only
            rw [if_pos hsuccess]
            rfl
        · unfold resultOf
          dsimp only
          rw [if_pos hsuccess]
          rfl
      · obtain ⟨e, hthrows, hblock, hresult⟩ :=
          respond_throws (asked S path s) rfl hsuccess hlast hfits hint
        refine ⟨.error (.threw e), ?_, hresult⟩
        rw [round_rethrows h (hrequest.trans hthrows) hblock]
        exact .threw

/-- The text of the error after `Int.max` retries has a number in it that is no `Int`. -/
theorem round_traps {i : Nat} {answer : Except SwiftError HTTPResponse} (h : S.cancelAt = none)
    (hanswer : S.http path s.requests = answer) (hserver : serverError answer = true)
    (hnone : S.maximumRetries ≤ i) (hi : 9223372036854775807 ≤ (i : Int)) :
    attemptOnce S path i s = (.error .trap, asked S path s) := by
  match answer, hserver with
  | .ok (.http statusCode header body), hserver =>
    have hrange : 500 ≤ statusCode ∧ statusCode < 600 := of_decide_eq_true hserver
    rw [attemptOnce_eq h]
    refine catching_of_trap ?_
    rw [request_ok h hanswer, respond_retry (.inr hrange), if_pos hnone, if_neg (by omega)]
    refine Throwing.bind_of_error ?_
    unfold increment
    rw [if_neg (Int.not_lt.2 hi)]
    rfl

/-! ## 7. All rounds -/

/-- The answer to attempt `i` of a fetch that starts in `s`. -/
def answerAt (S : Esplora) (path : String) (s : EsploraState) (i : Nat) :
    Except SwiftError HTTPResponse :=
  S.http path (s.requests + i)

/-- The state after `i` rounds that went on. -/
def after (S : Esplora) (path : String) (s : EsploraState) : Nat → EsploraState
  | 0 => s
  | i + 1 =>
    slept (retryPoint (delayAfter S (answerAt S path s i) i) (answerAt S path s i))
      (asked S path (after S path s i))

/-- The delay of a sleep before a retry. -/
def retryDelayOf : Suspension → Option Seconds
  | .statusRetry delay | .networkRetry delay => some delay
  | .slotWait _ | .request _ => none

/-- A wait for a slot of the pacer. -/
def isSlotWait : Suspension → Bool
  | .slotWait _ => true
  | _ => false

/-- What a fetch from `s` has done after `k` retries. -/
structure Waited (S : Esplora) (path : String) (s : EsploraState) (k : Nat) (s' : EsploraState) :
    Prop where
  requests : s'.requests = s.requests + k
  slots : s'.readings = s.readings + k
  log : ∃ log, s'.suspensions = s.suspensions ++ log ∧ log.countP isSlotWait = k ∧
    log.filterMap retryDelayOf = (List.range k).map fun i => delayAfter S (answerAt S path s i) i

theorem retryDelayOf_point (delay : Seconds) (answer : Except SwiftError HTTPResponse) :
    retryDelayOf (retryPoint delay answer) = some delay := by
  cases answer with
  | ok => rfl
  | error => rfl

theorem isSlotWait_point (delay : Seconds) (answer : Except SwiftError HTTPResponse) :
    isSlotWait (retryPoint delay answer) = false := by
  cases answer with
  | ok => rfl
  | error => rfl

theorem asked_suspensions (S : Esplora) (path : String) (s : EsploraState) :
    ∃ slot, (asked S path s).suspensions = s.suspensions ++ [.slotWait slot, .request path] :=
  ⟨_, List.append_assoc _ _ _⟩

/-- The request after the last of `k` retries: a slot and an answer more, and no delay. -/
structure WaitedAsked (S : Esplora) (path : String) (s : EsploraState) (k : Nat)
    (s' : EsploraState) : Prop where
  requests : s'.requests = s.requests + (k + 1)
  slots : s'.readings = s.readings + (k + 1)
  log : ∃ log, s'.suspensions = s.suspensions ++ log ∧ log.countP isSlotWait = k + 1 ∧
    log.filterMap retryDelayOf = (List.range k).map fun i => delayAfter S (answerAt S path s i) i

theorem Waited.asked {k : Nat} {s' : EsploraState} (h : Waited S path s k s') :
    WaitedAsked S path s k (asked S path s') := by
  obtain ⟨hrequests, hslots, log, hlog, hwaits, hdelays⟩ := h
  obtain ⟨slot, hasked⟩ := asked_suspensions S path s'
  refine ⟨?_, ?_, log ++ [.slotWait slot, .request path], ?_, ?_, ?_⟩
  · show s'.requests + 1 = _
    rw [hrequests]
    rfl
  · show s'.readings + 1 = _
    rw [hslots]
    rfl
  · rw [hasked, hlog, List.append_assoc]
  · rw [List.countP_append, hwaits]
    rfl
  · rw [List.filterMap_append, hdelays]
    exact List.append_nil _

/-- The sleep after it makes it a retry. -/
theorem WaitedAsked.slept {k : Nat} {s' : EsploraState} (h : WaitedAsked S path s k s') :
    Waited S path s (k + 1)
      (slept (retryPoint (delayAfter S (answerAt S path s k) k) (answerAt S path s k)) s') := by
  obtain ⟨hrequests, hslots, log, hlog, hwaits, hdelays⟩ := h
  let answer := answerAt S path s k
  let point := retryPoint (delayAfter S answer k) answer
  refine ⟨hrequests, hslots, log ++ [point], ?_, ?_, ?_⟩
  · show s'.suspensions ++ [point] = _
    rw [hlog, List.append_assoc]
  · rw [List.countP_append, hwaits, List.countP_cons, isSlotWait_point]
    rfl
  · rw [List.filterMap_append, hdelays, List.filterMap_cons_some (retryDelayOf_point _ _),
      List.range_succ, List.map_append]
    rfl

theorem waited_after (S : Esplora) (path : String) (s : EsploraState) (k : Nat) :
    Waited S path s k (after S path s k) := by
  induction k with
  | zero => exact ⟨rfl, rfl, [], (List.append_nil _).symm, rfl, rfl⟩
  | succ k ih => exact ih.asked.slept

theorem http_after (S : Esplora) (path : String) (s : EsploraState) (i : Nat) :
    S.http path (after S path s i).requests = answerAt S path s i := by
  rw [(waited_after S path s i).requests]
  rfl

/-- **What `fetchData` does**: `k + 1` requests, each with a slot of its own and each but the first
    after the delay that the answer before it asks for, and the result that the last answer gives.
    -/
structure Retried (S : Esplora) (path : String) (s : EsploraState) (k : Nat)
    (r : Except (Fault SwiftError) (Option Data) × EsploraState) : Prop where
  requests : r.2.requests = s.requests + (k + 1)
  slots : r.2.readings = s.readings + (k + 1)
  log : ∃ log, r.2.suspensions = s.suspensions ++ log ∧ log.countP isSlotWait = k + 1 ∧
    log.filterMap retryDelayOf = (List.range k).map fun i => delayAfter S (answerAt S path s i) i
  result : FetchResult.of r.1 = some (resultOf S (answerAt S path s k))

theorem retried_of_waited {k : Nat} {r : Except (Fault SwiftError) (Option Data)}
    (hresult : FetchResult.of r = some (resultOf S (answerAt S path s k))) :
    Retried S path s k (r, asked S path (after S path s k)) := by
  obtain ⟨hrequests, hslots, hlog⟩ := (waited_after S path s k).asked
  exact ⟨hrequests, hslots, hlog, hresult⟩

/-- The retries that are made: as many as there are, or up to an answer that is final. -/
theorem least_retry (S : Esplora) (path : String) (s : EsploraState) :
    ∃ k, IsLeast {k | retryable (answerAt S path s k) = false ∨ (k : Int) = max 0 S.maximumRetries}
      k := by
  classical
  have hmember : ∃ k, retryable (answerAt S path s k) = false ∨
      (k : Int) = max 0 S.maximumRetries := ⟨S.maximumRetries.toNat, .inr (by omega)⟩
  exact ⟨Nat.find hmember, Nat.find_spec hmember, fun _ hk => Nat.find_min' hmember hk⟩

/-- Before them every answer may be retried, and a retry is left. -/
theorem before_least {k i : Nat}
    (hk : IsLeast {k | retryable (answerAt S path s k) = false ∨
      (k : Int) = max 0 S.maximumRetries} k) (hi : i < k) :
    retryable (answerAt S path s i) = true ∧ (i : Int) < S.maximumRetries := by
  have hlast : k ≤ S.maximumRetries.toNat := hk.2 (.inr (by omega))
  have hnot : ¬(retryable (answerAt S path s i) = false ∨ (i : Int) = max 0 S.maximumRetries) :=
    fun h => Nat.not_le.2 hi (hk.2 h)
  rw [not_or] at hnot
  exact ⟨Bool.ne_false_iff.1 hnot.1, by omega⟩

/-- So the loop goes on for `k` rounds. -/
theorem rounds_again {k : Nat} (huncancelled : S.cancelAt = none)
    (hint : S.maximumRetries ≤ 9223372036854775807)
    (hfits : ∀ i, (delayAfter S (answerAt S path s i) i).fits = true)
    (hk : IsLeast {k | retryable (answerAt S path s k) = false ∨
      (k : Int) = max 0 S.maximumRetries} k) (i : Nat) (hi : i < k) :
    attemptOnce S path (i : Int) (after S path s i) =
      (.ok (.again ((i + 1 : Nat) : Int)), after S path s (i + 1)) := by
  obtain ⟨hretry, hleft⟩ := before_least hk hi
  exact round_again huncancelled (http_after S path s i) hretry hleft hint (hfits i)

/-- The last answer, where all of `Int.max` retries are made. -/
theorem least_of_extreme (hmax : S.maximumRetries = 9223372036854775807)
    (hretries : ∀ i < 9223372036854775807, retryable (answerAt S path s i) = true) :
    IsLeast {k | retryable (answerAt S path s k) = false ∨ (k : Int) = max 0 S.maximumRetries}
      9223372036854775807 := by
  refine ⟨.inr (by omega), fun k hk => Nat.not_lt.1 fun hlt => ?_⟩
  rcases hk with hfinal | hused
  · rw [hretries k hlt] at hfinal
    cases hfinal
  · omega

/-- The loop that makes `Int.max` retries and is told 5xx at the end does not return. -/
theorem fetchData_traps (huncancelled : S.cancelAt = none)
    (hfits : ∀ i, (delayAfter S (answerAt S path s i) i).fits = true)
    (hmax : S.maximumRetries = 9223372036854775807)
    (hretries : ∀ i < 9223372036854775807, retryable (answerAt S path s i) = true)
    (hserver : serverError (answerAt S path s 9223372036854775807) = true) :
    fetchData S path 9223372036854775808 s =
      (.error .trap, asked S path (after S path s 9223372036854775807)) := by
  have htrap := round_traps huncancelled (http_after S path s _) hserver (Int.le_of_eq hmax)
    (Int.le_refl _)
  have hends : Ends (attemptOnce S path ((9223372036854775807 : Nat) : Int)
      (after S path s 9223372036854775807))
      (.error .trap, asked S path (after S path s 9223372036854775807)) := by
    rw [htrap]
    exact .threw
  exact whileTrue_of_rounds
    (rounds_again huncancelled (Int.le_of_eq hmax) hfits (least_of_extreme hmax hretries)) hends
    (by omega)

/-- The rounds up to the last answer, and its result. -/
theorem fetchData_loops {k fuel : Nat} (huncancelled : S.cancelAt = none)
    (hint : S.maximumRetries ≤ 9223372036854775807)
    (hclient : ∀ i e, answerAt S path s i = .error e → e.isBlockSourceError = false)
    (hfits : ∀ i, (delayAfter S (answerAt S path s i) i).fits = true)
    (hk : IsLeast {k | retryable (answerAt S path s k) = false ∨
      (k : Int) = max 0 S.maximumRetries} k)
    (hcount : serverError (answerAt S path s k) = true → (k : Int) < 9223372036854775807)
    (hfuel : k < fuel) :
    ∃ r, fetchData S path fuel s = (r, asked S path (after S path s k)) ∧
      FetchResult.of r = some (resultOf S (answerAt S path s k)) := by
  have hfinal : retryable (answerAt S path s k) = false ∨ S.maximumRetries ≤ k := by
    rcases hk.1 with hfinal | hused
    · exact .inl hfinal
    · exact .inr (by omega)
  obtain ⟨r, hends, hresult⟩ :=
    round_last huncancelled (http_after S path s k) hfinal (hclient k) (hfits k) hcount
  exact ⟨r, whileTrue_of_rounds (rounds_again huncancelled hint hfits hk) hends hfuel, hresult⟩

/-- **The retry loop**, for an uncancelled task, a client that throws no `BlockSourceError` and
    delays that fit a `Duration`: it ends, after `k` retries, where `k` is the least number at
    which the answer is final or the retries are used up, and has then done what it is to do;
    unless it makes `Int.max` retries and the answer to the last is a 5xx. -/
theorem fetchData_retried_iff (S : Esplora) (path : String) (s : EsploraState)
    (huncancelled : S.cancelAt = none) (hint : S.maximumRetries ≤ 9223372036854775807)
    (hclient : ∀ i e, answerAt S path s i = .error e → e.isBlockSourceError = false)
    (hfits : ∀ i, (delayAfter S (answerAt S path s i) i).fits = true) :
    ∃ k, IsLeast {k | retryable (answerAt S path s k) = false ∨
        (k : Int) = max 0 S.maximumRetries} k ∧
      ((∀ fuel, k < fuel → Retried S path s k (fetchData S path fuel s)) ↔
        ¬(S.maximumRetries = 9223372036854775807 ∧
          (∀ i < 9223372036854775807, retryable (answerAt S path s i) = true) ∧
          serverError (answerAt S path s 9223372036854775807) = true)) := by
  obtain ⟨k, hk⟩ := least_retry S path s
  refine ⟨k, hk, ?_⟩
  have hlast : k ≤ S.maximumRetries.toNat := hk.2 (.inr (by omega))
  constructor
  · rintro hall ⟨hmax, hretries, hserver⟩
    have hresult := (hall 9223372036854775808 (by omega)).result
    rw [fetchData_traps huncancelled hfits hmax hretries hserver] at hresult
    cases hresult
  · intro hnot fuel hfuel
    have hcount : serverError (answerAt S path s k) = true → (k : Int) < 9223372036854775807 := by
      intro hserver
      refine Int.not_le.1 fun hle => hnot ?_
      have hk' : k = 9223372036854775807 := by omega
      subst hk'
      exact ⟨by omega, fun i hi => (before_least hk hi).1, hserver⟩
    obtain ⟨r, hloop, hresult⟩ :=
      fetchData_loops huncancelled hint hclient hfits hk hcount hfuel
    rw [hloop]
    exact retried_of_waited hresult

/-- A source with a second of backoff whose client gives the answers of a list, and then others. -/
def scripted (maximumRetries : Int) (answers : List HTTPResponse) (others : HTTPResponse) :
    Esplora where
  maximumRetries := maximumRetries
  baseRetryDelay := 1
  http _ i := .ok (answers[i]?.getD others)
  clock _ := 0
  double text := if text = "7" then some (.finite 7) else none
  parseBlock _ := .error ""
  cancelAt := none
  cancelledRequest _ := .cancellationError

theorem scripted_fits (maximumRetries : Int) (answers : List HTTPResponse) (others : HTTPResponse)
    (path : String) (s : EsploraState) (i : Nat) :
    (delayAfter (scripted maximumRetries answers others)
      (answerAt (scripted maximumRetries answers others) path s i) i).fits = true := by
  generalize answerAt (scripted maximumRetries answers others) path s i = answer
  cases hhint : hintAfter (scripted maximumRetries answers others) answer with
  | some seconds =>
    obtain ⟨text, _, hdouble, _⟩ := hint_eq_some.1 hhint
    have hseven : seconds = .finite 7 := by
      change (if text = "7" then some (Seconds.finite 7) else none) = some seconds at hdouble
      split at hdouble
      · exact (Option.some.inj hdouble).symm
      · cases hdouble
    rw [delayAfter_hint hhint, hseven]
    decide +kernel
  | none =>
    unfold delayAfter
    rw [hhint]
    show (Seconds.finite (1 * 2 ^ min i 6)).fits = true
    have hpowers : ∀ n < 7, (Seconds.finite (1 * 2 ^ n)).fits = true := by decide +kernel
    exact hpowers (min i 6) (by omega)

/-- A 500, a 429 with a hint, and then the data. -/
theorem fetchData_retried_twice :
    Retried (scripted 5 [.http 500 none [], .http 429 (some "7") []] (.http 200 none [1, 2]))
      "/blocks/tip/height" unused 2
      (fetchData (scripted 5 [.http 500 none [], .http 429 (some "7") []] (.http 200 none [1, 2]))
        "/blocks/tip/height" 3 unused) := by
  obtain ⟨k, hk, hiff⟩ := fetchData_retried_iff
    (scripted 5 [.http 500 none [], .http 429 (some "7") []] (.http 200 none [1, 2]))
    "/blocks/tip/height" unused rfl (by decide) (fun _ _ h => (by cases h))
    (scripted_fits _ _ _ _ _)
  have htwo : k = 2 := by
    refine Nat.le_antisymm (hk.2 (.inl rfl)) (Nat.not_lt.1 fun hlt => ?_)
    rcases hk.1 with hfinal | hused
    · match k, hlt with
      | 0, _ => cases hfinal
      | 1, _ => cases hfinal
    · change (k : Int) = 5 at hused
      omega
  subst htwo
  exact hiff.2 (fun h => absurd h.1 (by decide)) 3 (by decide)

/-- A server that answers 500 for ever, to a client that may retry `Int.max` times. -/
theorem endless_retries_trap :
    IsLeast {k | retryable (answerAt (scripted 9223372036854775807 [] (.http 500 none []))
          "/blocks/tip/height" unused k) = false ∨
        (k : Int) = max 0 (scripted 9223372036854775807 [] (.http 500 none [])).maximumRetries}
      9223372036854775807 ∧
    ¬Retried (scripted 9223372036854775807 [] (.http 500 none [])) "/blocks/tip/height" unused
      9223372036854775807
      (fetchData (scripted 9223372036854775807 [] (.http 500 none [])) "/blocks/tip/height"
        9223372036854775808 unused) := by
  refine ⟨least_of_extreme rfl fun i _ => rfl, fun h => ?_⟩
  have hresult := h.result
  rw [fetchData_traps rfl (scripted_fits _ _ _ _ _) rfl (fun i _ => rfl) rfl] at hresult
  cases hresult

/-! ## 8. The loop by the retries that are left -/

theorem retryAfterDuration_sound {header : Option String} {after : Option Seconds}
    (h : retryAfterDuration S header = .value after) : after = S.retryAfterDuration header := by
  cases hhint : S.retryAfterDuration header with
  | none =>
    rw [retryAfterDuration_none hhint] at h
    cases h
    rfl
  | some seconds =>
    by_cases hfits : seconds.fits = true
    · rw [retryAfterDuration_fits hhint hfits] at h
      cases h
      rfl
    · rw [retryAfterDuration_traps hhint hfits] at h
      cases h

theorem retryDelay_sound {header : Option String} {i : Nat} {delay : Seconds}
    (h : retryDelay S header i = .value delay) : delay = S.retryDelay header i := by
  unfold retryDelay at h
  unfold Esplora.retryDelay
  cases hafter : retryAfterDuration S header with
  | trap =>
    rw [hafter] at h
    cases h
  | value after =>
    rw [hafter] at h
    rw [← retryAfterDuration_sound hafter]
    cases after with
    | some seconds =>
      cases h
      rfl
    | none =>
      change Seconds.duration _ = _ at h
      unfold Seconds.duration at h
      split at h
      · cases h
        rw [multiplier_eq]
      · cases h

theorem increment_sound {i : Nat} {next : Int} (h : increment i = .value next) :
    next = ((i + 1 : Nat) : Int) := by
  unfold increment at h
  split at h
  · cases h
    rfl
  · cases h

/-- The ends of a round, in the two models. -/
inductive SameRound (i : Nat) : (left : Nat) → Round Int Data → Attempt left → Prop where
  | done {left : Nat} (d : Data) : SameRound i left (.done d) (.data d)
  | again {left : Nat} : SameRound i (left + 1) (.again ((i + 1 : Nat) : Int)) .again

variable {left i : Nat}

theorem sleeps_sound {header : Option String} {point : Seconds → Suspension} :
    Refines (SameRound i (left + 1))
      (do
        let delay ← check (retryDelay S header i)
        lift (S.sleep (point delay))
        return .again (← check (increment i)))
      (do
        S.sleep (point (S.retryDelay header i))
        return .again) := by
  refine refines_check fun delay hdelay => ?_
  rw [retryDelay_sound hdelay]
  refine refines_bind (refines_lift _) fun _ _ _ => ?_
  refine refines_check fun next hnext => ?_
  rw [increment_sound hnext]
  exact refines_pure .again

theorem retryStatus_sound {statusCode : Int} {header : Option String} {body : Data}
    (hleft : S.maximumRetries.toNat = i + left)
    (hstatus : statusCode = 429 ∨ (500 ≤ statusCode ∧ statusCode < 600)) :
    Refines (SameRound i left) (respond S i (.http statusCode header body))
      (S.retryStatus statusCode header i left) := by
  rw [respond_retry hstatus]
  cases left with
  | zero =>
    rw [if_pos (show (i : Int) ≥ S.maximumRetries by omega)]
    unfold Esplora.retryStatus
    split
    · refine refines_check fun after hafter => ?_
      rw [retryAfterDuration_sound hafter]
      exact refines_throw _
    · refine refines_check fun attempts hattempts => ?_
      rw [increment_sound hattempts]
      exact refines_throw _
  | succ left =>
    rw [if_neg (show ¬(i : Int) ≥ S.maximumRetries by omega)]
    exact sleeps_sound

theorem request_sound (hleft : S.maximumRetries.toNat = i + left) :
    Refines (SameRound i left) (request S path i) (S.request path left i) := by
  refine refines_bind (refines_lift _) fun response response' hsame => ?_
  subst hsame
  cases response with
  | nonHTTP body => exact refines_throw _
  | http statusCode header body =>
    dsimp only
    by_cases hstatus : statusCode = 429 ∨ (500 ≤ statusCode ∧ statusCode < 600)
    · rw [if_neg (by omega), if_neg (by omega), if_pos hstatus]
      exact retryStatus_sound hleft hstatus
    · unfold respond
      dsimp only
      rw [if_neg hstatus, if_neg hstatus]
      split
      · exact refines_pure (.done body)
      · split
        · exact refines_throw _
        · exact refines_throw _

theorem recover_sound (hleft : S.maximumRetries.toNat = i + left) (error : SwiftError) :
    Refines (SameRound i left) (recover S i error)
      (if error.isBlockSourceError then throw error else S.retryError error i left) := by
  unfold recover
  split
  · exact refines_throw _
  · cases left with
    | zero =>
      rw [if_neg fun h => absurd h.1 (by omega)]
      exact refines_throw _
    | succ left =>
      have hlt : (i : Int) < S.maximumRetries := by omega
      unfold Esplora.retryError
      cases hretry : isRetryableNetworkError error with
      | true =>
        rw [if_pos ⟨hlt, rfl⟩]
        exact sleeps_sound
      | false =>
        rw [if_neg fun h => Bool.false_ne_true h.2]
        exact refines_throw _

theorem attemptOnce_sound (hleft : S.maximumRetries.toNat = i + left) :
    Refines (SameRound i left) (attemptOnce S path i) (S.attemptOnce path left i) := by
  refine refines_bind (refines_lift _) fun slot slot' hslot => ?_
  subst hslot
  refine refines_bind (refines_lift _) fun _ _ _ => ?_
  exact refines_catching (request_sound hleft) (recover_sound hleft)

theorem rounds_sound {fuel : Nat} (hleft : S.maximumRetries.toNat = i + left)
    (hfuel : left < fuel) :
    Refines (fun b a => b = some a) (whileTrue (attemptOnce S path) fuel i)
      (S.rounds path left i) := by
  induction left generalizing i fuel with
  | zero =>
    obtain ⟨fuel, rfl⟩ := Nat.exists_eq_succ_of_ne_zero (Nat.ne_of_gt hfuel)
    refine refines_bind (attemptOnce_sound hleft) fun b a hsame => ?_
    cases hsame with
    | done d => exact refines_pure rfl
  | succ left ih =>
    obtain ⟨fuel, rfl⟩ := Nat.exists_eq_succ_of_ne_zero (Nat.ne_of_gt (Nat.zero_lt_of_lt hfuel))
    refine refines_bind (attemptOnce_sound hleft) fun b a hsame => ?_
    cases hsame with
    | done d => exact refines_pure rfl
    | again => exact ih (by omega) (Nat.lt_of_succ_lt_succ hfuel)

/-- **The two models of the loop.** With fuel for its rounds, the loop returns or throws what the
    one of `Sync/Esplora.lean` does, and leaves the same state, cancelled or not; unless it traps.
    -/
theorem fetchData_sound (path : String) {fuel : Nat} (hfuel : S.maximumRetries.toNat < fuel) :
    Refines (fun b a => b = some a) (fetchData S path fuel) (S.fetchData path) :=
  rounds_sound (Nat.zero_add _).symm hfuel

end EsploraLoop

end SwiftBitcoinKernel
