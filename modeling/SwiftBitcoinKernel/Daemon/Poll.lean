/-
  File:      SwiftBitcoinKernel/Daemon/Poll.lean
  Subject:   `Daemon.poll` and the two `bootstrap`s: attempts with a back-off, until a deadline.

  The loop reads the clock, checks for a cancellation, makes an attempt, and sleeps where that has
  failed. A cancelled sleep throws, which `try?` swallows, so it is the next check that ends the
  loop, if the deadline has not.

  * `Moment`, `Polling`, `PollState` -- when the task is cancelled; what the clock reads and how the
    attempts end; what a call has done so far;
  * `round`, `poll` -- the source's loop;
  * `Stopped`, `poll_cases` -- a call, by the round it stops in;
  * `Polled` -- what the loop is to do where the task is not cancelled; `poll_polled`, `poll_ends`,
    `poll_cancelled` -- it does, it ends where sleeps take their time, and what a cancellation does;
  * `bootstrap`, `bootstrapFromCookie` -- the callers; `bootstrapFromCookie_returns_iff` -- what the
    second one returns on.
-/
import SwiftBitcoinKernel.Logic.Trapping
import SwiftBitcoinKernel.Rpc.Credentials

namespace SwiftBitcoinKernel

open Logic

/-! ## 1. The loop -/

/-- When the task is cancelled. Rounds are numbered from zero, with their checks, attempts and
    sleeps. -/
inductive Moment where
  /-- After the sleep before it, and before `Task.checkCancellation()`. -/
  | check (i : Nat)
  | attempt (i : Nat)
  | sleep (i : Nat)
  deriving DecidableEq, Repr

/-- The check of round `k` finds the task cancelled. -/
def Moment.beforeCheck (k : Nat) : Moment → Bool
  | .check i => i ≤ k
  | .attempt i => i < k
  | .sleep i => i < k

/-- The sleep of round `k` does. -/
def Moment.beforeWaking (k : Nat) : Moment → Bool
  | .check i | .attempt i | .sleep i => i ≤ k

/-- What a call of `poll` runs against: `clock` answers the `i`-th reading of `ContinuousClock`, in
    attoseconds, and `attempt` the `i`-th attempt. -/
structure Polling where
  clock : Nat → Int
  attempt : Nat → Except SwiftError Unit
  cancelAt : Option Moment

/-- What a call has done so far: how often it has read the clock, how its attempts have ended, the
    delays it has told `onWillSleep`, and its sleeps, each with the number of attempts made before
    it and its duration. -/
structure PollState where
  readings : Nat
  attempts : List (Except SwiftError Unit)
  delays : List Int
  sleeps : List (Nat × Int)

/-- Nothing. -/
def PollState.initial : PollState := ⟨0, [], [], []⟩

/-- `Duration.milliseconds(_:)`. -/
def milliseconds (n : Int) : Int := n * 1000000000000000

/-- `Duration.seconds(_:)`. -/
def seconds (n : Int) : Int := milliseconds (n * 1000)

namespace Polling

variable (S : Polling)

/-- `ContinuousClock.now`. -/
def now : Throwing PollState SwiftError Int :=
  Throwing.act fun s => (S.clock s.readings, { s with readings := s.readings + 1 })

/-- The check of round `k` finds the task cancelled. -/
def cancelledAt (k : Nat) : Bool := S.cancelAt.any (Moment.beforeCheck k)

/-- `try Task.checkCancellation()`. -/
def checkCancellation : Throwing PollState SwiftError Unit := do
  if ← Throwing.act fun s => (S.cancelledAt s.attempts.length, s) then throw .cancellation

/-- `try await attempt()`. -/
def attemptOnce : Throwing PollState SwiftError Unit := do
  match ← Throwing.act fun s =>
      (S.attempt s.attempts.length,
        { s with attempts := s.attempts ++ [S.attempt s.attempts.length] }) with
  | .ok () => return ()
  | .error error => throw error

/-- `onWillSleep?(delay)`. -/
def onWillSleep (delay : Int) : Throwing PollState SwiftError Unit :=
  Throwing.act fun s => ((), { s with delays := s.delays ++ [delay] })

/-- `try await Task.sleep(for: delay)`; a cancellation ends it early. -/
def sleep (delay : Int) : Throwing PollState SwiftError Unit := do
  if ← Throwing.act fun s =>
      (S.cancelAt.any (Moment.beforeWaking s.sleeps.length),
        { s with sleeps := s.sleeps ++ [(s.attempts.length, delay)] }) then throw .cancellation

/-- A round: the condition of the `while`, and its body. What follows the loop is a `throw`. -/
def round (deadline : Int) (vars : Int × Option SwiftError) :
    Throwing PollState SwiftError (Round (Int × Option SwiftError) Unit) := do
  let (delay, lastError) := vars
  let maxDelay := seconds 2
  if (← S.now) < deadline then
    S.checkCancellation
    tryCatch (do S.attemptOnce; return .done ()) fun error => do
      onWillSleep delay
      tryCatch (S.sleep delay) fun _ => pure ()
      return .again (min (delay * 2) maxDelay, some error)
  else throw (lastError.getD (.url .timedOut))

/-- `Daemon.poll(timeout:onWillSleep:attempt:)`, for at most so many rounds. -/
def poll (timeout : Int) (fuel : Nat) : Throwing PollState SwiftError (Option Unit) := do
  let deadline := (← S.now) + timeout
  whileTrue (S.round deadline) fuel (milliseconds 250, none)

/-! ## 2. Round by round -/

/-- The deadline of a call that begins with the first reading. -/
def deadline (timeout : Int) : Int := S.clock 0 + timeout

/-- The delay after the attempt numbered `i`. -/
def backoff (i : Nat) : Int := min (milliseconds 250 * 2 ^ i) (seconds 2)

/-- The last error before round `i`. -/
def lastError : Nat → Option SwiftError
  | 0 => none
  | i + 1 => match S.attempt i with
    | .error error => some error
    | .ok () => none

/-- What has been done before round `i`, and a number of readings. -/
def after (readings i : Nat) : PollState :=
  ⟨readings, (List.range i).map S.attempt, (List.range i).map backoff,
    (List.range i).map fun j => (j + 1, backoff j)⟩

/-- Round `i` goes on to the next. -/
structure GoesOn (deadline : Int) (i : Nat) : Prop where
  early : S.clock (i + 1) < deadline
  uncancelled : S.cancelledAt i = false
  failed : ∃ error, S.attempt i = .error error

/-- How a call ends in round `k`. -/
inductive Stopped (deadline : Int) (k : Nat) : Except SwiftError (Option Unit) × PollState → Prop where
  | late (h : deadline ≤ S.clock (k + 1)) :
      Stopped deadline k (.error ((S.lastError k).getD (.url .timedOut)), S.after (k + 2) k)
  | cancelled (h : S.clock (k + 1) < deadline) (hcancelled : S.cancelledAt k = true) :
      Stopped deadline k (.error .cancellation, S.after (k + 2) k)
  | succeeded (h : S.clock (k + 1) < deadline) (huncancelled : S.cancelledAt k = false)
      (hsucceeded : S.attempt k = .ok ()) : Stopped deadline k (.ok (some ()), { S.after (k + 2) k with
        attempts := (List.range (k + 1)).map S.attempt })

variable {S} {timeout deadline : Int} {i k fuel : Nat}

theorem backoff_succ (i : Nat) : backoff (i + 1) = min (backoff i * 2) (seconds 2) := by
  unfold backoff
  have hmax : (0 : Int) ≤ seconds 2 := by decide
  rw [Int.pow_succ, ← Int.mul_assoc]
  omega

section Steps

variable (S) (readings i : Nat)

/-- The attempt of round `i` is over, and nothing else of that round. -/
def tried : PollState := { S.after readings i with attempts := (List.range (i + 1)).map S.attempt }

theorem now_after : S.now (S.after readings i) = (.ok (S.clock readings), S.after (readings + 1) i) :=
  rfl

theorem length_after : (S.after readings i).attempts.length = i := by
  simp [after]

theorem checkCancellation_after : S.checkCancellation (S.after readings i) =
    if S.cancelledAt i then (.error .cancellation, S.after readings i)
    else (.ok (), S.after readings i) := by
  show (if S.cancelledAt (S.after readings i).attempts.length then throw .cancellation
    else pure () : Throwing PollState SwiftError Unit) (S.after readings i) = _
  rw [length_after]
  split
  · rfl
  · rfl

theorem attemptOnce_after : S.attemptOnce (S.after readings i) = (S.attempt i, S.tried readings i) := by
  have hact : (Throwing.act fun s : PollState => (S.attempt s.attempts.length,
      { s with attempts := s.attempts ++ [S.attempt s.attempts.length] }) :
        Throwing PollState SwiftError (Except SwiftError Unit)) (S.after readings i) =
      (.ok (S.attempt i), S.tried readings i) := by
    unfold Throwing.act
    dsimp only
    rw [length_after, tried, List.range_succ, List.map_append]
    rfl
  unfold attemptOnce
  rw [Throwing.bind_of_ok hact]
  cases S.attempt i with
  | ok => rfl
  | error error => rfl

/-- The attempt of round `i` has failed, and its sleep is about to begin. -/
def willSleep : PollState := { S.tried readings i with delays := (List.range (i + 1)).map backoff }

theorem onWillSleep_tried :
    onWillSleep (backoff i) (S.tried readings i) = (.ok (), S.willSleep readings i) := by
  simp [onWillSleep, willSleep, tried, after, Throwing.act, List.range_succ]

/-- A sleep goes on record, and what it throws is swallowed. -/
theorem sleep_willSleep :
    (tryCatch (S.sleep (backoff i)) fun _ => pure () : Throwing PollState SwiftError Unit)
      (S.willSleep readings i) = (.ok (), S.after readings (i + 1)) := by
  have hstate : { S.willSleep readings i with
      sleeps := (S.willSleep readings i).sleeps ++
        [((S.willSleep readings i).attempts.length, backoff i)] } = S.after readings (i + 1) := by
    unfold willSleep tried after
    simp [List.range_succ]
  have hsleep : S.sleep (backoff i) (S.willSleep readings i) =
      (if S.cancelAt.any (Moment.beforeWaking (S.willSleep readings i).sleeps.length) then
        throw .cancellation else pure () : Throwing PollState SwiftError Unit)
        (S.after readings (i + 1)) := by
    rw [← hstate]
    rfl
  show Throwing.orElse (S.sleep (backoff i) (S.willSleep readings i)) _ = _
  rw [hsleep]
  split
  · rfl
  · rfl

end Steps

/-! ## 3. A round -/

variable (S) in
/-- The variables of the loop before round `i`. -/
def vars (i : Nat) : Int × Option SwiftError := (backoff i, S.lastError i)

/-- Where it is not too late and the task not cancelled, there is an attempt. -/
theorem round_attempt (hearly : S.clock (i + 1) < deadline) (huncancelled : S.cancelledAt i = false) :
    S.round deadline (S.vars i) (S.after (i + 1) i) =
      (tryCatch (do S.attemptOnce; return .done ()) fun error => do
        onWillSleep (backoff i)
        tryCatch (S.sleep (backoff i)) fun _ => pure ()
        return .again (min (backoff i * 2) (seconds 2), some error) :
          Throwing PollState SwiftError (Round (Int × Option SwiftError) Unit))
        (S.after (i + 2) i) := by
  unfold round
  dsimp only [vars]
  have hchecked : S.checkCancellation (S.after (i + 2) i) = (.ok (), S.after (i + 2) i) := by
    rw [checkCancellation_after, huncancelled]
    rfl
  rw [Throwing.bind_of_ok (now_after S (i + 1) i), if_pos hearly, Throwing.bind_of_ok hchecked]

theorem round_goesOn (h : S.GoesOn deadline i) :
    S.round deadline (S.vars i) (S.after (i + 1) i) =
      (.ok (.again (S.vars (i + 1))), S.after (i + 2) (i + 1)) := by
  obtain ⟨error, herror⟩ := h.failed
  have hfailed : (do S.attemptOnce; return .done () :
      Throwing PollState SwiftError (Round (Int × Option SwiftError) Unit)) (S.after (i + 2) i) =
      (.error error, S.tried (i + 2) i) := by
    refine Throwing.bind_of_error ?_
    rw [attemptOnce_after, herror]
  rw [round_attempt h.early h.uncancelled]
  show Throwing.orElse ((do S.attemptOnce; return .done () :
    Throwing PollState SwiftError (Round (Int × Option SwiftError) Unit)) _) _ = _
  rw [hfailed]
  show (onWillSleep (backoff i) >>= _) (S.tried (i + 2) i) = _
  rw [Throwing.bind_of_ok (onWillSleep_tried S (i + 2) i),
    Throwing.bind_of_ok (sleep_willSleep S (i + 2) i), vars, backoff_succ, lastError, herror]
  rfl

/-- Past the deadline, the error of the last attempt is thrown. -/
theorem round_late (hlate : deadline ≤ S.clock (k + 1)) :
    S.round deadline (S.vars k) (S.after (k + 1) k) =
      (.error ((S.lastError k).getD (.url .timedOut)), S.after (k + 2) k) := by
  unfold round
  dsimp only [vars]
  rw [Throwing.bind_of_ok (now_after S (k + 1) k), if_neg (Int.not_lt.2 hlate)]
  rfl

theorem round_cancelled (hearly : S.clock (k + 1) < deadline) (hcancelled : S.cancelledAt k = true) :
    S.round deadline (S.vars k) (S.after (k + 1) k) =
      (.error .cancellation, S.after (k + 2) k) := by
  have hchecked : S.checkCancellation (S.after (k + 2) k) =
      (.error .cancellation, S.after (k + 2) k) := by
    rw [checkCancellation_after, hcancelled]
    rfl
  unfold round
  dsimp only [vars]
  rw [Throwing.bind_of_ok (now_after S (k + 1) k), if_pos hearly, Throwing.bind_of_error hchecked]

theorem round_succeeds (hearly : S.clock (k + 1) < deadline) (huncancelled : S.cancelledAt k = false)
    (hok : S.attempt k = .ok ()) :
    S.round deadline (S.vars k) (S.after (k + 1) k) = (.ok (.done ()), S.tried (k + 2) k) := by
  have hattempted : S.attemptOnce (S.after (k + 2) k) = (.ok (), S.tried (k + 2) k) := by
    rw [attemptOnce_after, hok]
  rw [round_attempt hearly huncancelled]
  show Throwing.orElse ((do S.attemptOnce; return .done () :
    Throwing PollState SwiftError (Round (Int × Option SwiftError) Unit)) _) _ = _
  rw [Throwing.bind_of_ok hattempted]
  rfl

/-- **Where a round does not go on**, the call ends in one of three ways. -/
theorem round_stopped (h : ¬S.GoesOn deadline k) :
    ∃ r, S.Stopped deadline k r ∧ Ends (S.round deadline (S.vars k) (S.after (k + 1) k)) r := by
  by_cases hearly : S.clock (k + 1) < deadline
  · cases hcancelled : S.cancelledAt k with
    | true =>
      refine ⟨_, .cancelled hearly hcancelled, ?_⟩
      rw [round_cancelled hearly hcancelled]
      exact .threw
    | false =>
      cases hattempt : S.attempt k with
      | ok =>
        refine ⟨_, .succeeded hearly hcancelled hattempt, ?_⟩
        rw [round_succeeds hearly hcancelled hattempt]
        exact .done
      | error error => exact absurd ⟨hearly, hcancelled, error, hattempt⟩ h
  · have hlate := Int.not_lt.1 hearly
    refine ⟨_, .late hlate, ?_⟩
    rw [round_late hlate]
    exact .threw

/-! ## 4. A call -/

/-- **A call, by the round it stops in**: it has used up its fuel, or the first round that does not
    go on is its last. -/
theorem poll_cases (S : Polling) (timeout : Int) (fuel : Nat) :
    ((∀ i < fuel, S.GoesOn (S.deadline timeout) i) ∧
      S.poll timeout fuel .initial = (.ok none, S.after (fuel + 1) fuel)) ∨
    ∃ k < fuel, (∀ i < k, S.GoesOn (S.deadline timeout) i) ∧ ¬S.GoesOn (S.deadline timeout) k ∧
      S.Stopped (S.deadline timeout) k (S.poll timeout fuel .initial) := by
  have hpoll : S.poll timeout fuel .initial =
      whileTrue (S.round (S.deadline timeout)) fuel (S.vars 0) (S.after 1 0) := by
    have hnow : S.now .initial = (.ok (S.clock 0), S.after 1 0) := rfl
    unfold poll
    rw [Throwing.bind_of_ok hnow]
    rfl
  rw [hpoll]
  rcases whileTrue_cases (b := S.vars) (s := fun i => S.after (i + 1) i)
    (fun i h => round_goesOn h) fuel with hall | ⟨k, hk, hbefore, hstop, hlast⟩
  · exact .inl hall
  · obtain ⟨r, hr, hends⟩ := round_stopped hstop
    refine .inr ⟨k, hk, hbefore, hstop, ?_⟩
    rw [hlast r hends]
    exact hr

/-- An attempt has failed. -/
def failed : Except SwiftError Unit → Bool
  | .ok () => false
  | .error _ => true

/-- **What the loop is to do** for a task that is not cancelled. -/
structure Polled (S : Polling) (timeout : Int) (r : Except SwiftError (Option Unit) × PollState) :
    Prop where
  /-- The attempts are made in order. -/
  in_order : r.2.attempts = (List.range r.2.attempts.length).map S.attempt
  /-- It returns normally just if one of them succeeds, -/
  returns_iff : r.1 = .ok (some ()) ↔ .ok () ∈ r.2.attempts
  /-- which is then the last. -/
  at_once : ∀ i, r.2.attempts[i]? = some (.ok ()) → r.2.attempts.length = i + 1
  /-- There is none after a check that saw the clock at or past the deadline. -/
  in_time : ∀ k, S.deadline timeout ≤ S.clock (k + 1) → r.2.attempts.length ≤ k
  /-- Every attempt that failed is followed by one sleep before the next, for a duration that
      doubles up to a bound; -/
  backs_off : r.2.sleeps = (List.range (r.2.attempts.filter failed).length).map fun i =>
    (i + 1, min (milliseconds 250 * 2 ^ i) (seconds 2))
  /-- which is what the hook is told. -/
  announced : r.2.delays = r.2.sleeps.map Prod.snd
  /-- It gives up after such a check only, with the error of the last attempt, if there was one. -/
  gives_up : ∀ e, r.1 = .error e → S.deadline timeout ≤ S.clock (r.2.attempts.length + 1) ∧
    (r.2.attempts = [] ∧ e = .url .timedOut ∨ r.2.attempts.getLast? = some (.error e))

section Failed

variable (hfailed : ∀ i < k, ∃ error, S.attempt i = .error error)

include hfailed

theorem ok_notMem_attempts : .ok () ∉ (List.range k).map S.attempt := by
  intro hmem
  obtain ⟨i, hi, hok⟩ := List.mem_map.1 hmem
  obtain ⟨error, herror⟩ := hfailed i (List.mem_range.1 hi)
  rw [herror] at hok
  cases hok

theorem filter_attempts : ((List.range k).map S.attempt).filter failed =
    (List.range k).map S.attempt := by
  refine List.filter_eq_self.2 fun outcome hmem => ?_
  cases outcome with
  | ok => exact absurd hmem (ok_notMem_attempts hfailed)
  | error => rfl

/-- The error a call gives up with after `k` attempts. -/
theorem last_attempt : (List.range k).map S.attempt = [] ∧
      (S.lastError k).getD (.url .timedOut) = .url .timedOut ∨
    ((List.range k).map S.attempt).getLast? =
      some (.error ((S.lastError k).getD (.url .timedOut))) := by
  cases k with
  | zero => exact .inl ⟨rfl, rfl⟩
  | succ k =>
    obtain ⟨error, herror⟩ := hfailed k (Nat.lt_succ_self k)
    refine .inr ?_
    rw [List.range_succ, List.map_append, List.map_singleton, List.getLast?_concat, lastError, herror]
    rfl

/-- A call all of whose attempts have failed. -/
theorem polled_of_failed {r : Except SwiftError (Option Unit) × PollState} {readings : Nat}
    (hearly : ∀ i < k, S.clock (i + 1) < S.deadline timeout) (hr : r.2 = S.after readings k)
    (hunreturned : r.1 ≠ .ok (some ()))
    (hgives : ∀ e, r.1 = .error e → S.deadline timeout ≤ S.clock (k + 1) ∧
      e = (S.lastError k).getD (.url .timedOut)) : Polled S timeout r := by
  have hlength : r.2.attempts.length = k := by rw [hr, length_after]
  have hattempts : r.2.attempts = (List.range k).map S.attempt := by rw [hr]; rfl
  constructor
  · rw [hlength, hattempts]
  · rw [hattempts]
    exact iff_of_false hunreturned (ok_notMem_attempts hfailed)
  · intro i hi
    rw [hattempts] at hi
    exact absurd (List.mem_of_getElem? hi) (ok_notMem_attempts hfailed)
  · intro j hj
    refine Nat.le_of_not_lt fun hlt => ?_
    rw [hlength] at hlt
    exact absurd (hearly j hlt) (Int.not_lt.2 hj)
  · rw [hattempts, filter_attempts hfailed, List.length_map, List.length_range, hr]
    rfl
  · rw [hr]
    simp [after]
  · intro e he
    obtain ⟨hlate, rfl⟩ := hgives e he
    rw [hlength, hattempts]
    exact ⟨hlate, last_attempt hfailed⟩

end Failed

/-- A call whose last attempt has succeeded. -/
theorem polled_of_succeeded (hbefore : ∀ i < k, S.GoesOn (S.deadline timeout) i)
    (hearly : S.clock (k + 1) < S.deadline timeout) (hok : S.attempt k = .ok ()) :
    Polled S timeout (.ok (some ()), { S.after (k + 2) k with
      attempts := (List.range (k + 1)).map S.attempt }) := by
  have hfailed : ∀ i < k, ∃ error, S.attempt i = .error error := fun i hi => (hbefore i hi).failed
  have hattempts : (List.range (k + 1)).map S.attempt = (List.range k).map S.attempt ++ [.ok ()] := by
    rw [List.range_succ, List.map_append, List.map_singleton, hok]
  constructor
  · simp
  · rw [hattempts]
    simp
  · intro i hi
    dsimp only at hi ⊢
    rw [List.length_map, List.length_range]
    obtain ⟨hlt, hget⟩ := List.getElem?_eq_some_iff.1 hi
    rw [List.length_map, List.length_range] at hlt
    rw [List.getElem_map, List.getElem_range] at hget
    rcases Nat.lt_succ_iff_lt_or_eq.1 hlt with hik | rfl
    · obtain ⟨error, herror⟩ := hfailed i hik
      rw [herror] at hget
      cases hget
    · rfl
  · intro j hj
    dsimp only
    rw [List.length_map, List.length_range]
    refine Nat.lt_of_not_le fun hle => ?_
    rcases Nat.lt_or_eq_of_le hle with hlt | rfl
    · exact absurd (hbefore j hlt).early (Int.not_lt.2 hj)
    · exact absurd hearly (Int.not_lt.2 hj)
  · dsimp only
    rw [hattempts, List.filter_append, filter_attempts hfailed]
    simp [failed, after, backoff]
  · simp [after]
  · intro e he
    cases he

theorem poll_polled (S : Polling) (timeout : Int) (huncancelled : S.cancelAt = none) (fuel : Nat) :
    Polled S timeout (S.poll timeout fuel .initial) := by
  rcases poll_cases S timeout fuel with ⟨hall, hpoll⟩ | ⟨k, hk, hbefore, -, hstopped⟩
  · rw [hpoll]
    exact polled_of_failed (fun i hi => (hall i hi).failed) (fun i hi => (hall i hi).early) rfl
      (fun h => (by cases h)) fun e he => (by cases he)
  · generalize S.poll timeout fuel .initial = r at hstopped ⊢
    cases hstopped with
    | late hlate =>
      refine polled_of_failed (fun i hi => (hbefore i hi).failed) (fun i hi => (hbefore i hi).early)
        rfl (fun h => (by cases h)) fun e he => ?_
      cases he
      exact ⟨hlate, rfl⟩
    | cancelled _ hcancelled =>
      unfold cancelledAt at hcancelled
      rw [huncancelled] at hcancelled
      cases hcancelled
    | succeeded hearly _ hok => exact polled_of_succeeded hbefore hearly hok

/-- A call returns on its last attempt. -/
theorem Polled.returns_last {r : Except SwiftError (Option Unit) × PollState}
    (h : Polled S timeout r) :
    r.1 = .ok (some ()) ↔ ∃ i, r.2.attempts.length = i + 1 ∧ S.attempt i = .ok () := by
  have hget : ∀ i < r.2.attempts.length, r.2.attempts[i]? = some (S.attempt i) := by
    intro i hi
    rw [h.in_order, List.getElem?_map, List.getElem?_range hi]
    rfl
  rw [h.returns_iff]
  constructor
  · intro hmem
    obtain ⟨i, hi⟩ := List.mem_iff_getElem?.1 hmem
    obtain ⟨hlt, -⟩ := List.getElem?_eq_some_iff.1 hi
    refine ⟨i, h.at_once i hi, ?_⟩
    exact Option.some.inj ((hget i hlt).symm.trans hi)
  · intro hlast
    obtain ⟨i, hlength, hok⟩ := hlast
    refine List.mem_of_getElem? (i := i) ?_
    rw [hget i (by omega), hok]

/-- A call that meets the deadline, or an attempt that succeeds, comes to an end. -/
theorem poll_ends (hstop : ∃ k, S.deadline timeout ≤ S.clock (k + 1) ∨ S.attempt k = .ok ()) :
    ∃ n, ∀ fuel, n < fuel → (S.poll timeout fuel .initial).1 ≠ .ok none := by
  obtain ⟨n, hn⟩ := hstop
  have hstop : ¬S.GoesOn (S.deadline timeout) n := by
    intro hgoes
    rcases hn with hlate | hok
    · exact absurd hgoes.early (Int.not_lt.2 hlate)
    · obtain ⟨error, herror⟩ := hgoes.failed
      rw [hok] at herror
      cases herror
  refine ⟨n, fun fuel hfuel => ?_⟩
  rcases poll_cases S timeout fuel with ⟨hall, -⟩ | ⟨k, -, -, -, hstopped⟩
  · exact absurd (hall n hfuel) hstop
  · generalize S.poll timeout fuel .initial = r at hstopped ⊢
    cases hstopped with
    | late => exact fun h => (by cases h)
    | cancelled => exact fun h => (by cases h)
    | succeeded => exact fun h => (by cases h)

/-- Where sleeps take their time, the clock comes to the deadline. -/
theorem clock_reaches (S : Polling) (timeout : Int)
    (hsleeps : ∀ i, S.clock (i + 1) + backoff i ≤ S.clock (i + 2)) :
    ∃ k, S.deadline timeout ≤ S.clock (k + 1) := by
  have hstep : ∀ i : Nat, S.clock 1 + i ≤ S.clock (i + 1) := by
    intro i
    induction i with
    | zero => simp
    | succ i ih =>
      have hpositive : 1 ≤ backoff i := by
        unfold backoff
        have hpow : (1 : Int) ≤ 2 ^ i := by exact_mod_cast Nat.one_le_two_pow
        have hmax : (1 : Int) ≤ seconds 2 := by decide
        have hfirst : milliseconds 250 = 250000000000000000 := rfl
        rw [hfirst]
        omega
      have hnext : S.clock (i + 1) + backoff i ≤ S.clock (i + 1 + 1) := hsleeps i
      omega
  refine ⟨(S.deadline timeout - S.clock 1).toNat, ?_⟩
  have hlast := hstep (S.deadline timeout - S.clock 1).toNat
  omega

theorem poll_ends_of_sleeps (hsleeps : ∀ i, S.clock (i + 1) + backoff i ≤ S.clock (i + 2)) :
    ∃ n, ∀ fuel, n < fuel → (S.poll timeout fuel .initial).1 ≠ .ok none := by
  obtain ⟨k, hlate⟩ := clock_reaches S timeout hsleeps
  exact poll_ends ⟨k, .inl hlate⟩

/-- A task that is cancelled during an attempt that fails, or during the sleep after it. -/
theorem poll_cancelled {e : SwiftError}
    (hcancel : S.cancelAt = some (.attempt i) ∨ S.cancelAt = some (.sleep i))
    (hmade : i < (S.poll timeout fuel .initial).2.attempts.length)
    (herror : S.attempt i = .error e) :
    (S.poll timeout fuel .initial).2.attempts.length = i + 1 ∧
      (i + 1 < fuel → (S.poll timeout fuel .initial).1 =
        .error (if S.clock (i + 2) < S.deadline timeout then .cancellation else e)) := by
  have hseen : S.cancelledAt (i + 1) = true := by
    unfold cancelledAt
    rcases hcancel with h | h
    · rw [h]
      simp [Moment.beforeCheck]
    · rw [h]
      simp [Moment.beforeCheck]
  have hnext : ¬S.GoesOn (S.deadline timeout) (i + 1) := by
    intro hgoes
    rw [hgoes.uncancelled] at hseen
    cases hseen
  rcases poll_cases S timeout fuel with ⟨hall, hpoll⟩ | ⟨k, hk, hbefore, -, hstopped⟩
  · rw [hpoll, length_after] at hmade ⊢
    have hfuel : fuel = i + 1 := by
      refine Nat.le_antisymm (Nat.le_of_not_lt fun hlt => hnext (hall _ hlt)) hmade
    exact ⟨hfuel, fun hlt => absurd hlt (by omega)⟩
  · have hle : k ≤ i + 1 := Nat.le_of_not_lt fun hlt => hnext (hbefore _ hlt)
    generalize S.poll timeout fuel .initial = r at hstopped hmade ⊢
    cases hstopped with
    | late hlate =>
      rw [length_after] at hmade
      obtain rfl : k = i + 1 := by omega
      rw [length_after, if_neg (Int.not_lt.2 hlate), lastError, herror]
      exact ⟨rfl, fun _ => rfl⟩
    | cancelled hearly =>
      rw [length_after] at hmade
      obtain rfl : k = i + 1 := by omega
      rw [length_after, if_pos hearly]
      exact ⟨rfl, fun _ => rfl⟩
    | succeeded _ huncancelled hok =>
      -- the round of the attempt itself would have been the last
      have hki : k ≠ i + 1 := by
        rintro rfl
        rw [hseen] at huncancelled
        cases huncancelled
      rw [List.length_map, List.length_range] at hmade
      obtain rfl : k = i := by omega
      rw [herror] at hok
      cases hok

/-- **`Daemon.poll`.** For a task that is not cancelled, a call does what `Polled` says, and comes
    to an end where the clock comes to the deadline or an attempt succeeds. If the task is
    cancelled during an attempt that fails, or during the sleep after it, there is no further
    attempt, and the next check decides between `CancellationError` and the error of that attempt.
    -/
theorem poll_retries (S : Polling) (timeout : Int) :
    (S.cancelAt = none →
      (∀ fuel, Polled S timeout (S.poll timeout fuel .initial)) ∧
      ((∃ k, S.deadline timeout ≤ S.clock (k + 1) ∨ S.attempt k = .ok ()) →
        ∃ n, ∀ fuel, n < fuel → (S.poll timeout fuel .initial).1 ≠ .ok none)) ∧
    ∀ (i fuel : Nat) (e : SwiftError),
      S.cancelAt = some (.attempt i) ∨ S.cancelAt = some (.sleep i) →
      i < (S.poll timeout fuel .initial).2.attempts.length → S.attempt i = .error e →
      (S.poll timeout fuel .initial).2.attempts.length = i + 1 ∧
        (i + 1 < fuel → (S.poll timeout fuel .initial).1 =
          .error (if S.clock (i + 2) < S.deadline timeout then .cancellation else e)) :=
  ⟨fun huncancelled => ⟨poll_polled S timeout huncancelled, poll_ends⟩,
    fun _ _ _ hcancel hmade herror => poll_cancelled hcancel hmade herror⟩

/-- A server that is up at the third attempt, a second after the other. -/
def thirdTime (cancelAt : Option Moment) : Polling where
  clock i := seconds i
  attempt i := if i < 2 then .error (.url .cannotConnectToHost) else .ok ()
  cancelAt := cancelAt

theorem thirdTime_polled :
    Polled (thirdTime none) (seconds 30) ((thirdTime none).poll (seconds 30) 9 .initial) ∧
      ((thirdTime none).poll (seconds 30) 9 .initial).1 = .ok (some ()) ∧
      ((thirdTime none).poll (seconds 30) 9 .initial).2.sleeps =
        [(1, milliseconds 250), (2, milliseconds 500)] ∧
      ((thirdTime (some (.sleep 0))).poll (seconds 30) 9 .initial).1 = .error .cancellation := by
  refine ⟨((poll_retries (thirdTime none) (seconds 30)).1 rfl).1 9, rfl, rfl, ?_⟩
  exact ((poll_retries (thirdTime (some (.sleep 0))) (seconds 30)).2 0 9 _ (.inr rfl) (by decide)
    rfl).2 (by decide)

end Polling

/-! ## 5. The callers -/

namespace Daemon

/-- The attempt of `bootstrap(url:username:password:timeout:)`: what `client.send("_bridge_init")`
    answers, or throws. -/
def bridgeInit (send : Except SwiftError String) : Except SwiftError Unit := do
  let _ ← send
  return ()

/-- The attempt of `bootstrap(cookieFile:port:timeout:)`: what the file holds, and what
    `client.send("_bridge_init")` answers to the credentials in it. -/
def bridgeInitFromCookie (G : Segmentation Char) (cookieFile : Except SwiftError String)
    (send : String → String → Except SwiftError String) : Except SwiftError Unit := do
  let cookie ← cookieFile
  let (username, password) ← parseCookie G cookie
  bridgeInit (send username password)

/-- `Daemon.bootstrap(url:username:password:timeout:)`. -/
def bootstrap (clock : Nat → Int) (cancelAt : Option Moment) (send : Nat → Except SwiftError String)
    (timeout : Int) (fuel : Nat) : Throwing PollState SwiftError (Option Unit) :=
  Polling.poll ⟨clock, fun i => bridgeInit (send i), cancelAt⟩ timeout fuel

/-- `Daemon.bootstrap(cookieFile:port:timeout:)`. -/
def bootstrapFromCookie (G : Segmentation Char) (clock : Nat → Int) (cancelAt : Option Moment)
    (cookieFile : Nat → Except SwiftError String)
    (send : Nat → String → String → Except SwiftError String) (timeout : Int) (fuel : Nat) :
    Throwing PollState SwiftError (Option Unit) :=
  Polling.poll ⟨clock, fun i => bridgeInitFromCookie G (cookieFile i) (send i), cancelAt⟩
    timeout fuel

theorem bridgeInit_eq_ok {send : Except SwiftError String} :
    bridgeInit send = .ok () ↔ ∃ reply, send = .ok reply := by
  cases send with
  | ok reply => exact iff_of_true rfl ⟨reply, rfl⟩
  | error error =>
    refine iff_of_false (fun h => (by cases h)) fun h => ?_
    obtain ⟨reply, h⟩ := h
    cases h

theorem bridgeInitFromCookie_eq_ok {G : Segmentation Char} {cookieFile : Except SwiftError String}
    {send : String → String → Except SwiftError String} :
    bridgeInitFromCookie G cookieFile send = .ok () ↔
      ∃ cookie username password reply, cookieFile = .ok cookie ∧
        parseCookie G cookie = .ok (username, password) ∧ send username password = .ok reply := by
  constructor
  · intro h
    cases cookieFile with
    | error error => cases h
    | ok cookie =>
      change (parseCookie G cookie >>= _) = _ at h
      cases hparsed : parseCookie G cookie with
      | error error =>
        rw [hparsed] at h
        cases h
      | ok pair =>
        rw [hparsed] at h
        obtain ⟨reply, hreply⟩ := bridgeInit_eq_ok.1 h
        exact ⟨cookie, pair.1, pair.2, reply, rfl, hparsed, hreply⟩
  · intro h
    obtain ⟨cookie, username, password, reply, hfile, hparsed, hreply⟩ := h
    rw [hfile]
    show (parseCookie G cookie >>= _) = _
    rw [hparsed]
    exact bridgeInit_eq_ok.2 ⟨reply, hreply⟩

variable {clock : Nat → Int} {timeout : Int} {fuel : Nat}

theorem bootstrap_returns_iff {send : Nat → Except SwiftError String} :
    (bootstrap clock none send timeout fuel .initial).1 = .ok (some ()) ↔
      ∃ i, (bootstrap clock none send timeout fuel .initial).2.attempts.length = i + 1 ∧
        ∃ reply, send i = .ok reply := by
  unfold bootstrap
  rw [(Polling.poll_polled _ timeout rfl fuel).returns_last]
  exact exists_congr fun i => and_congr_right fun _ => bridgeInit_eq_ok

/-- **The bridge is bootstrapped from a cookie** by the last attempt that is made: one at which the
    file could be read and parsed, and the server answered to the credentials in it. -/
theorem bootstrapFromCookie_returns_iff {G : Segmentation Char}
    {cookieFile : Nat → Except SwiftError String}
    {send : Nat → String → String → Except SwiftError String} :
    (bootstrapFromCookie G clock none cookieFile send timeout fuel .initial).1 = .ok (some ()) ↔
      ∃ i, (bootstrapFromCookie G clock none cookieFile send timeout fuel
          .initial).2.attempts.length = i + 1 ∧
        ∃ cookie username password reply, cookieFile i = .ok cookie ∧
          parseCookie G cookie = .ok (username, password) ∧
            send i username password = .ok reply := by
  unfold bootstrapFromCookie
  rw [(Polling.poll_polled _ timeout rfl fuel).returns_last]
  exact exists_congr fun i => and_congr_right fun _ => bridgeInitFromCookie_eq_ok

end Daemon

end SwiftBitcoinKernel
