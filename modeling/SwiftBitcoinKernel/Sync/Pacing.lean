/-
  File:      SwiftBitcoinKernel/Sync/Pacing.lean
  Subject:   Many calls of `fetchData` through one `RequestPacer`.

  A call reserves a slot on the actor, sleeps until it outside of the actor, makes its request, and
  does the same again for every retry. Calls begin at any time, and their steps interleave.

  * `Fetch`, `Pacing`, `Pacing.Label`, `pacing` -- where each call stands, the pacer and the clock,
    with a record of the reservations in actor order and of the requests that were started; a sleep
    is over at or after its instant, or is cancelled;
  * `Effect` -- what a step needs, and what it does;
  * `Paced` -- the invariant: the record is one of `Logic.Spacing`, and every reservation belongs to
    one call that sleeps, or to one request that was not started before its slot;
  * `reservations_paced` -- every run: which slots are given, and that they are kept;
  * `Follows`, `fetchData_followed` -- the loop of `Sync/Retry.lean`, for a call by itself, is a path
    of the machine.
-/
import Mathlib.Algebra.Order.Ring.Int
import SwiftBitcoinKernel.Logic.Spacing
import SwiftBitcoinKernel.Logic.Transition
import SwiftBitcoinKernel.Sync.Retry

namespace SwiftBitcoinKernel

open Logic

/-! ## 1. The machine -/

/-- Where a call of `fetchData` stands in its round. The ticket of a call that sleeps is the number
    of its reservation. -/
inductive Fetch where
  /-- Before `await pacer.reserveNextSlot()`. -/
  | reserving (attempt : Nat)
  /-- In `Task.sleep(until: slot)`. -/
  | waiting (attempt : Nat) (slot : Int) (ticket : Nat)
  /-- In `httpClient.data(from:)`. -/
  | requesting (attempt : Nat)
  /-- In `Task.sleep(for:)`, before the next round. -/
  | backingOff (attempt : Nat)
  /-- It has returned or thrown. -/
  | finished
  deriving DecidableEq, Repr

/-- The call sleeps until a slot. -/
def Fetch.asleep : Fetch → Bool
  | .waiting _ _ _ => true
  | .reserving _ | .requesting _ | .backingOff _ | .finished => false

/-- A reservation: the clock as the actor read it, and the slot it gave. -/
abbrev Reservation := Int × Int

/-- The reading. -/
abbrev Reservation.now (r : Reservation) : Int := r.1

/-- The slot. -/
abbrev Reservation.slot (r : Reservation) : Int := r.2

/-- A request that was started, by the ticket of its call, and when. -/
structure StartedRequest where
  ticket : Nat
  time : Int
  deriving DecidableEq, Repr

/-- The calls, their pacer, the clock, and the record. -/
structure Pacing where
  clock : Int
  pacer : RequestPacer
  fetches : List Fetch
  reservations : List Reservation
  requests : List StartedRequest
  deriving DecidableEq, Repr

namespace Pacing

/-- The steps. -/
inductive Label where
  /-- The clock goes on. -/
  | tick (now : Int)
  /-- `fetchData` is called. -/
  | call
  /-- The actor runs `reserveNextSlot()` for the call. -/
  | reserve (i : Nat)
  /-- Its sleep is over, and the request starts. -/
  | start (i : Nat)
  /-- The client answers, or throws. -/
  | answer (i : Nat) (answer : Except SwiftError HTTPResponse)
  /-- The sleep before a retry is over. -/
  | retry (i : Nat)
  /-- A sleep throws, because the call's task is cancelled. -/
  | cancel (i : Nat)

/-- The call numbered `i` moves on. -/
def move (s : Pacing) (i : Nat) (fetch : Fetch) : Pacing :=
  { s with fetches := s.fetches.set i fetch }

/-- What a call does with an answer: it backs off where it may try again, and is over elsewhere. -/
def afterAnswer (maximumRetries : Int) (attempt : Nat) (answer : Except SwiftError HTTPResponse) :
    Fetch :=
  if EsploraLoop.retryable answer ∧ attempt < maximumRetries then .backingOff attempt else .finished

/-- `reserveNextSlot()`, now, for the call numbered `i`. -/
def reserveFor (s : Pacing) (i attempt : Nat) : Pacing :=
  let r := s.pacer.reserveNextSlot s.clock
  { s.move i (.waiting attempt r.1 s.reservations.length) with
    pacer := r.2
    reservations := s.reservations ++ [(s.clock, r.1)] }

/-- The request of the call numbered `i` starts now. -/
def startFor (s : Pacing) (i attempt ticket : Nat) : Pacing :=
  { s.move i (.requesting attempt) with requests := s.requests ++ [⟨ticket, s.clock⟩] }

/-- A step. -/
def step (maximumRetries : Int) (s : Pacing) : Label → Option Pacing
  | .tick now => if s.clock ≤ now then some { s with clock := now } else none
  | .call => some { s with fetches := s.fetches ++ [.reserving 0] }
  | .reserve i =>
    match s.fetches[i]? with
    | some (.reserving attempt) => some (s.reserveFor i attempt)
    | _ => none
  | .start i =>
    match s.fetches[i]? with
    | some (.waiting attempt slot ticket) =>
      if slot ≤ s.clock then some (s.startFor i attempt ticket) else none
    | _ => none
  | .answer i answer =>
    match s.fetches[i]? with
    | some (.requesting attempt) => some (s.move i (afterAnswer maximumRetries attempt answer))
    | _ => none
  | .retry i =>
    match s.fetches[i]? with
    | some (.backingOff attempt) => some (s.move i (.reserving (attempt + 1)))
    | _ => none
  | .cancel i =>
    match s.fetches[i]? with
    | some (.waiting _ _ _) | some (.backingOff _) => some (s.move i .finished)
    | _ => none

end Pacing

/-- All interleavings of the calls of a source that was made at `initialStart`. -/
def pacing (maximumRetries minimumDelay initialStart : Int) : Machine Pacing Pacing.Label :=
  ⟨⟨initialStart, ⟨minimumDelay, initialStart⟩, [], [], []⟩, Pacing.step maximumRetries⟩

namespace Pacing

/-! ## 2. What a step does -/

/-- What the steps do, and what they need. An answer, a retry and a cancellation move a call to where
    it holds no ticket. -/
inductive Effect (s : Pacing) : Pacing → Prop where
  | tick {now : Int} (h : s.clock ≤ now) : Effect s { s with clock := now }
  | call : Effect s { s with fetches := s.fetches ++ [.reserving 0] }
  | reserve {i attempt : Nat} (h : s.fetches[i]? = some (.reserving attempt)) :
      Effect s (s.reserveFor i attempt)
  | start {i attempt ticket : Nat} {slot : Int}
      (h : s.fetches[i]? = some (.waiting attempt slot ticket)) (hslot : slot ≤ s.clock) :
      Effect s (s.startFor i attempt ticket)
  | move {i : Nat} {fetch : Fetch} (h : fetch.asleep = false) : Effect s (s.move i fetch)

variable {maximumRetries d initialStart : Int} {s s' : Pacing} {a : Label} {i : Nat}

theorem afterAnswer_awake (maximumRetries : Int) (attempt : Nat)
    (answer : Except SwiftError HTTPResponse) :
    (afterAnswer maximumRetries attempt answer).asleep = false := by
  unfold afterAnswer
  split
  · rfl
  · rfl

theorem effect_of_step (h : s.step maximumRetries a = some s') : Effect s s' := by
  cases a with
  | tick now =>
    dsimp only [step] at h
    split at h
    · rename_i hle
      cases h
      exact .tick hle
    · cases h
  | call =>
    cases h
    exact .call
  | reserve i =>
    dsimp only [step] at h
    split at h
    · rename_i attempt hi
      cases h
      exact .reserve hi
    · cases h
  | start i =>
    dsimp only [step] at h
    split at h
    · rename_i attempt slot ticket hi
      split at h
      · rename_i hslot
        cases h
        exact .start hi hslot
      · cases h
    · cases h
  | answer i answer =>
    dsimp only [step] at h
    split at h
    · rename_i attempt hi
      cases h
      exact .move (afterAnswer_awake maximumRetries attempt answer)
    · cases h
  | retry i =>
    dsimp only [step] at h
    split at h
    · cases h
      exact .move rfl
    · cases h
  | cancel i =>
    dsimp only [step] at h
    split at h
    · cases h
      exact .move rfl
    · cases h
      exact .move rfl
    · cases h

/-! ## 3. Tickets -/

/-- The call numbered `i` sleeps until the slot, with the ticket. -/
def Holds (fetches : List Fetch) (i : Nat) (slot : Int) (ticket : Nat) : Prop :=
  ∃ attempt, fetches[i]? = some (.waiting attempt slot ticket)

/-- Who a reservation belongs to: one call that sleeps until its slot, or one request that was not
    started before. -/
structure Tickets (fetches : List Fetch) (reservations : List Reservation)
    (requests : List StartedRequest) : Prop where
  held : ∀ i slot t, Holds fetches i slot t → ∃ r, reservations[t]? = some r ∧ r.slot = slot
  held_once : ∀ i j slot slot' t, Holds fetches i slot t → Holds fetches j slot' t → i = j
  unstarted : ∀ i slot t, Holds fetches i slot t → ∀ q ∈ requests, q.ticket ≠ t
  started : ∀ q ∈ requests, ∃ r, reservations[q.ticket]? = some r ∧ r.slot ≤ q.time
  started_once : (requests.map (·.ticket)).Nodup

section Tickets

variable {fetches fetches' : List Fetch} {reservations : List Reservation}
  {requests : List StartedRequest} {fetch : Fetch} {j t attempt : Nat} {slot now : Int}

theorem holds_set (h : Holds (fetches.set i fetch) j slot t) :
    (j ≠ i ∧ Holds fetches j slot t) ∨ (j = i ∧ ∃ attempt, fetch = .waiting attempt slot t) := by
  obtain ⟨attempt, hj⟩ := h
  rcases getElem?_of_set hj with ⟨hij, hfetch⟩ | ⟨hij, hold⟩
  · exact .inr ⟨hij, attempt, hfetch.symm⟩
  · exact .inl ⟨hij, attempt, hold⟩

theorem holds_of_set_awake (hawake : fetch.asleep = false) (h : Holds (fetches.set i fetch) j slot t) :
    j ≠ i ∧ Holds fetches j slot t := by
  rcases holds_set h with h | ⟨-, attempt, rfl⟩
  · exact h
  · cases hawake

theorem holds_of_snoc_awake (hawake : fetch.asleep = false)
    (h : Holds (fetches ++ [fetch]) j slot t) : Holds fetches j slot t := by
  obtain ⟨attempt, hj⟩ := h
  rcases getElem?_of_snoc hj with hold | ⟨-, rfl⟩
  · exact ⟨attempt, hold⟩
  · cases hawake

/-- Fewer calls that sleep. -/
theorem Tickets.mono (h : Tickets fetches reservations requests)
    (hsub : ∀ j slot t, Holds fetches' j slot t → Holds fetches j slot t) :
    Tickets fetches' reservations requests where
  held j slot t hj := h.held j slot t (hsub j slot t hj)
  held_once i j slot slot' t hi hj := h.held_once i j slot slot' t (hsub i slot t hi) (hsub j slot' t hj)
  unstarted j slot t hj := h.unstarted j slot t (hsub j slot t hj)
  started := h.started
  started_once := h.started_once

theorem Tickets.lt (h : Tickets fetches reservations requests) (hj : Holds fetches j slot t) :
    t < reservations.length := by
  obtain ⟨r, hr, -⟩ := h.held j slot t hj
  exact (List.getElem?_eq_some_iff.1 hr).1

/-- A new reservation, for the call that made it. -/
theorem Tickets.reserve (h : Tickets fetches reservations requests) :
    Tickets (fetches.set i (.waiting attempt slot reservations.length))
      (reservations ++ [(now, slot)]) requests := by
  have hkept : ∀ {k : Nat} {r : Reservation}, reservations[k]? = some r →
      (reservations ++ [(now, slot)])[k]? = some r := by
    intro k r hr
    exact (List.getElem?_append_left (List.getElem?_eq_some_iff.1 hr).1).trans hr
  constructor
  · intro j slot' t hj
    rcases holds_set hj with ⟨-, hj⟩ | ⟨-, attempt', hwaiting⟩
    · obtain ⟨r, hr, hslot⟩ := h.held j slot' t hj
      exact ⟨r, hkept hr, hslot⟩
    · cases hwaiting
      exact ⟨(now, slot), List.getElem?_concat_length, rfl⟩
  · intro j k slot' slot'' t hj hk
    rcases holds_set hj with ⟨-, hj⟩ | ⟨rfl, attempt', hwaiting⟩
    · rcases holds_set hk with ⟨-, hk⟩ | ⟨-, attempt', hwaiting⟩
      · exact h.held_once j k slot' slot'' t hj hk
      · -- the new ticket is beyond those that are held
        cases hwaiting
        exact absurd (h.lt hj) (Nat.lt_irrefl _)
    · rcases holds_set hk with ⟨-, hk⟩ | ⟨rfl, -⟩
      · cases hwaiting
        exact absurd (h.lt hk) (Nat.lt_irrefl _)
      · rfl
  · intro j slot' t hj q hq
    obtain ⟨r, hr, -⟩ := h.started q hq
    rcases holds_set hj with ⟨-, hj⟩ | ⟨-, attempt', hwaiting⟩
    · exact h.unstarted j slot' t hj q hq
    · cases hwaiting
      exact Nat.ne_of_lt (List.getElem?_eq_some_iff.1 hr).1
  · intro q hq
    obtain ⟨r, hr, hle⟩ := h.started q hq
    exact ⟨r, hkept hr, hle⟩
  · exact h.started_once

/-- A ticket is given up for a request. -/
theorem Tickets.start (h : Tickets fetches reservations requests) (hi : Holds fetches i slot t)
    (hslot : slot ≤ now) (hawake : fetch.asleep = false) :
    Tickets (fetches.set i fetch) reservations (requests ++ [⟨t, now⟩]) := by
  constructor
  · intro j slot' t' hj
    exact h.held j slot' t' (holds_of_set_awake hawake hj).2
  · intro j k slot' slot'' t' hj hk
    exact h.held_once j k slot' slot'' t' (holds_of_set_awake hawake hj).2
      (holds_of_set_awake hawake hk).2
  · intro j slot' t' hj q hq
    obtain ⟨hne, hj⟩ := holds_of_set_awake hawake hj
    rcases List.mem_append.1 hq with hq | hq
    · exact h.unstarted j slot' t' hj q hq
    · -- the one that held the ticket is the call that starts
      rw [List.mem_singleton.1 hq]
      intro heq
      exact hne (h.held_once j i slot' slot t' hj (heq ▸ hi))
  · intro q hq
    rcases List.mem_append.1 hq with hq | hq
    · exact h.started q hq
    · rw [List.mem_singleton.1 hq]
      obtain ⟨r, hr, hrslot⟩ := h.held i slot t hi
      exact ⟨r, hr, hrslot.trans_le hslot⟩
  · rw [List.map_append, List.nodup_append]
    refine ⟨h.started_once, by simp, ?_⟩
    intro k hk k' hk'
    obtain ⟨q, hq, rfl⟩ := List.mem_map.1 hk
    rw [List.map_singleton, List.mem_singleton] at hk'
    rw [hk']
    exact h.unstarted i slot t hi q hq

end Tickets

/-! ## 4. Every run -/

/-- The invariant. -/
structure Paced (d initialStart : Int) (s : Pacing) : Prop where
  delay : s.pacer.minimumDelay = d
  reserved : Reserved d initialStart s.reservations s.pacer.earliestNextStart
  clock : initialStart ≤ s.clock
  readings : ∀ r ∈ s.reservations, initialStart ≤ r.now
  tickets : Tickets s.fetches s.reservations s.requests

theorem reserveNextSlot_eq (p : RequestPacer) (now : Int) :
    p.reserveNextSlot now = (max now p.earliestNextStart,
      { p with earliestNextStart := max now p.earliestNextStart + p.minimumDelay }) := by
  have hmax : (if now > p.earliestNextStart then now else p.earliestNextStart) =
      max now p.earliestNextStart := by
    split
    · rename_i hlater
      exact (max_eq_left hlater.le).symm
    · rename_i hearlier
      exact (max_eq_right (not_lt.1 hearlier)).symm
  unfold RequestPacer.reserveNextSlot
  dsimp only
  rw [hmax]

theorem paced_step (h : Paced d initialStart s) (hstep : s.step maximumRetries a = some s') :
    Paced d initialStart s' := by
  cases effect_of_step hstep with
  | tick hle =>
    exact ⟨h.delay, h.reserved, h.clock.trans hle, h.readings, h.tickets⟩
  | call =>
    exact ⟨h.delay, h.reserved, h.clock, h.readings,
      h.tickets.mono fun j slot t hj => holds_of_snoc_awake rfl hj⟩
  | @reserve i attempt hi =>
    have hslot := reserveNextSlot_eq s.pacer s.clock
    unfold reserveFor move
    dsimp only
    rw [hslot]
    refine ⟨h.delay, ?_, h.clock, ?_, h.tickets.reserve⟩
    · dsimp only
      rw [h.delay]
      exact h.reserved.reserve s.clock
    · intro r hr
      rcases List.mem_append.1 hr with hr | hr
      · exact h.readings r hr
      · rw [List.mem_singleton.1 hr]
        exact h.clock
  | @start i attempt ticket slot hi hslot =>
    exact ⟨h.delay, h.reserved, h.clock, h.readings, h.tickets.start ⟨attempt, hi⟩ hslot rfl⟩
  | move hawake =>
    exact ⟨h.delay, h.reserved, h.clock, h.readings,
      h.tickets.mono fun j slot t hj => (holds_of_set_awake hawake hj).2⟩

theorem paced_start (maximumRetries d initialStart : Int) :
    Paced d initialStart (pacing maximumRetries d initialStart).start := by
  refine ⟨rfl, .start, le_refl _, fun r hr => absurd hr List.not_mem_nil, ?_⟩
  have hnone : ∀ i slot t, ¬Holds [] i slot t := by
    intro i slot t h
    obtain ⟨attempt, h⟩ := h
    cases h
  exact ⟨fun i slot t h => absurd h (hnone i slot t),
    fun i j slot slot' t h => absurd h (hnone i slot t),
    fun i slot t h => absurd h (hnone i slot t), fun q hq => absurd hq List.not_mem_nil,
    List.nodup_nil⟩

theorem paced_of_run {ls : List Label}
    (h : (pacing maximumRetries d initialStart).Run Machine.always ls s) :
    Paced d initialStart s :=
  h.invariant (paced_start maximumRetries d initialStart) fun _ _ _ hs _ hstep => paced_step hs hstep

/-- **Pacing.** In every run, a slot is the latest of the instant the pacer was made at and of the
    readings up to its own, each moved on by the reservations in between. So it is not before its
    reading and far enough from every earlier one, and the first such instant; and every request
    has a reservation of its own, and was not started before its slot. -/
theorem reservations_paced (maximumRetries d initialStart : Int) {ls : List Label} {s : Pacing}
    (h : (pacing maximumRetries d initialStart).Run Machine.always ls s) :
    (∀ (i : Nat) (r : Reservation), s.reservations[i]? = some r →
      IsGreatest {x | x = initialStart + (i : Int) * d ∨
        ∃ j ≤ i, ∃ r' : Reservation, s.reservations[j]? = some r' ∧
          x = r'.now + ((i - j : Nat) : Int) * d} r.slot ∧
      (∀ r' : Reservation, s.reservations[i + 1]? = some r' → r.slot + d ≤ r'.slot) ∧
      r.now ≤ r.slot ∧
      IsLeast {x | r.now ≤ x ∧ ∀ (j : Nat) (r' : Reservation), j < i →
        s.reservations[j]? = some r' → r'.slot + ((i - j : Nat) : Int) * d ≤ x} r.slot) ∧
    (∀ q ∈ s.requests, ∃ r, s.reservations[q.ticket]? = some r ∧ r.slot ≤ q.time) ∧
    (s.requests.map (·.ticket)).Nodup := by
  have hpaced := paced_of_run h
  refine ⟨?_, hpaced.tickets.started, hpaced.tickets.started_once⟩
  intro i r hr
  have hfirst := hpaced.readings r (List.mem_of_getElem? hr)
  have hgreatest := hpaced.reserved.isGreatest_slot hr
  have hleast := hpaced.reserved.isLeast_slot hr hfirst
  simp only [forced, nsmul_eq_mul] at hgreatest hleast
  refine ⟨hgreatest, ?_, hpaced.reserved.le_slot hr, hleast⟩
  intro r' hr'
  have hapart := hpaced.reserved.apart hr' hr (Nat.lt_succ_self i)
  rwa [Nat.add_sub_cancel_left, one_nsmul] at hapart

/-- Two calls at once, of which the first is answered with a 503 and tries again. -/
def burstAndRetry : List Label :=
  [.call, .call, .reserve 0, .reserve 1, .tick 30, .start 0, .answer 0 (.ok (.http 503 none [])),
    .retry 0, .reserve 0, .tick 200, .start 1, .start 0]

theorem retry_behind_burst : ∃ s, (pacing 5 100 0).Run Machine.always burstAndRetry s ∧
    s.reservations = [(0, 0), (0, 100), (30, 200)] ∧
    IsLeast {x : Int | 30 ≤ x ∧ ∀ (j : Nat) (r : Reservation), j < 2 →
      s.reservations[j]? = some r → r.slot + ((2 - j : Nat) : Int) * 100 ≤ x} 200 := by
  obtain ⟨s, hs⟩ : ∃ s, (pacing 5 100 0).exec Machine.always burstAndRetry = some s := ⟨_, rfl⟩
  have hrun := Machine.exec_run hs
  have hreservations : s.reservations = [(0, 0), (0, 100), (30, 200)] := by
    have hall := congrArg (Option.map Pacing.reservations) hs
    exact (Option.some.inj hall).symm
  refine ⟨s, hrun, hreservations, ?_⟩
  have hlast := (reservations_paced 5 100 0 hrun).1 2 (30, 200) (by rw [hreservations]; rfl)
  exact hlast.2.2.2

/-! ## 5. A call by itself -/

/-- The slot of a wait for one. -/
def slotWaitOf : Suspension → Option Int
  | .slotWait slot => some slot
  | .request _ | .statusRetry _ | .networkRetry _ => none

/-- The machine has the pacer of the source, and has made its reservations and requests. -/
structure Follows (s : EsploraState) (m : Pacing) : Prop where
  pacer : m.pacer = s.pacer
  slots : m.reservations.map Reservation.slot = s.suspensions.filterMap slotWaitOf
  requests : m.requests.length = s.requests

section Alone

variable {S : Esplora} {path : String} {m : Pacing} {attempt k : Nat} {now : Int}

/-- The slot that is given next. -/
def nextSlot (S : Esplora) (s : EsploraState) : Int :=
  (s.pacer.reserveNextSlot (S.clock s.readings)).1

/-- The clock reads `now`. -/
def atTime (m : Pacing) (now : Int) : Pacing := { m with clock := now }

/-- The call numbered `i` has reserved at `now`, and its request has started at the slot. -/
def requested (m : Pacing) (now : Int) (i attempt : Nat) : Pacing :=
  (((m.atTime now).reserveFor i attempt).atTime (m.pacer.reserveNextSlot now).1).startFor i attempt
    m.reservations.length

theorem move_get (m : Pacing) (fetch : Fetch) (hi : i < m.fetches.length) :
    (m.move i fetch).fetches[i]? = some fetch :=
  List.getElem?_set_self hi

theorem requested_get (now : Int) (attempt : Nat) (hi : i < m.fetches.length) :
    (m.requested now i attempt).fetches[i]? = some (.requesting attempt) := by
  refine move_get _ _ ?_
  show i < (m.fetches.set i _).length
  rw [List.length_set]
  exact hi

/-- A call that is about to reserve comes to its request. -/
theorem requested_path (maximumRetries d initialStart : Int)
    (hi : m.fetches[i]? = some (.reserving attempt)) (hclock : m.clock ≤ now) :
    (pacing maximumRetries d initialStart).Path Machine.always m
      [.tick now, .reserve i, .tick (m.pacer.reserveNextSlot now).1, .start i]
      (m.requested now i attempt) := by
  obtain ⟨hlt, -⟩ := List.getElem?_eq_some_iff.1 hi
  have hlater : now ≤ (m.pacer.reserveNextSlot now).1 := by
    rw [reserveNextSlot_eq]
    exact le_max_left _ _
  have hread : m.step maximumRetries (.tick now) = some (m.atTime now) := if_pos hclock
  have hreserved : (m.atTime now).step maximumRetries (.reserve i) =
      some ((m.atTime now).reserveFor i attempt) := by
    have hfetch : (m.atTime now).fetches[i]? = some (.reserving attempt) := hi
    dsimp only [step]
    rw [hfetch]
  have hwoken : ((m.atTime now).reserveFor i attempt).step maximumRetries
      (.tick (m.pacer.reserveNextSlot now).1) =
      some (((m.atTime now).reserveFor i attempt).atTime (m.pacer.reserveNextSlot now).1) :=
    if_pos hlater
  have hstarted : (((m.atTime now).reserveFor i attempt).atTime
      (m.pacer.reserveNextSlot now).1).step maximumRetries (.start i) =
      some (m.requested now i attempt) := by
    have hfetch : (((m.atTime now).reserveFor i attempt).atTime
        (m.pacer.reserveNextSlot now).1).fetches[i]? =
        some (.waiting attempt (m.pacer.reserveNextSlot now).1 m.reservations.length) :=
      move_get m _ hlt
    dsimp only [step]
    rw [hfetch]
    exact if_pos (le_refl _)
  exact .head trivial hread (.head trivial hreserved (.head trivial hwoken
    (.head trivial hstarted .refl)))

/-- **A round of the loop**, up to the answer, and the call's next place. -/
theorem round_followed (path : String) (d initialStart : Int) {s : EsploraState} (hfollows : Follows s m)
    (hi : m.fetches[i]? = some (.reserving attempt)) (hclock : m.clock ≤ S.clock s.readings) :
    ∃ ls m', (pacing S.maximumRetries d initialStart).Path Machine.always m ls m' ∧
      Follows (EsploraLoop.asked S path s) m' ∧ m'.clock = nextSlot S s ∧
      m'.fetches[i]? = some (afterAnswer S.maximumRetries attempt (S.http path s.requests)) := by
  obtain ⟨hlt, -⟩ := List.getElem?_eq_some_iff.1 hi
  have hpath := requested_path S.maximumRetries d initialStart hi hclock
  have hrequesting := requested_get (S.clock s.readings) attempt hlt
  have hanswered : (pacing S.maximumRetries d initialStart).step
      (m.requested (S.clock s.readings) i attempt) (.answer i (S.http path s.requests)) =
      some ((m.requested (S.clock s.readings) i attempt).move i
        (afterAnswer S.maximumRetries attempt (S.http path s.requests))) := by
    dsimp only [pacing, step]
    rw [hrequesting]
  have hslot : (m.pacer.reserveNextSlot (S.clock s.readings)).1 = nextSlot S s := by
    rw [hfollows.pacer]
    rfl
  refine ⟨_, _, hpath.step trivial hanswered, ⟨?_, ?_, ?_⟩, hslot, ?_⟩
  · show (m.pacer.reserveNextSlot (S.clock s.readings)).2 = _
    rw [hfollows.pacer]
    rfl
  · show (m.reservations ++ [_]).map Reservation.slot =
      (s.suspensions ++ [Suspension.slotWait (nextSlot S s)] ++
        [Suspension.request path]).filterMap slotWaitOf
    rw [List.filterMap_append, List.filterMap_append, ← hfollows.slots, List.map_append, ← hslot]
    simp [slotWaitOf, atTime]
  · show (m.requests ++ [_]).length = s.requests + 1
    rw [List.length_append, hfollows.requests]
    rfl
  · exact move_get _ _ (List.getElem?_eq_some_iff.1 hrequesting).1

/-- The sleep before a retry is on nobody's record here. -/
theorem Follows.slept {s : EsploraState} (h : Follows s m) (delay : Seconds)
    (answer : Except SwiftError HTTPResponse) :
    Follows (EsploraLoop.slept (EsploraLoop.retryPoint delay answer) s) m := by
  refine ⟨h.pacer, ?_, h.requests⟩
  show _ = (s.suspensions ++ [EsploraLoop.retryPoint delay answer]).filterMap slotWaitOf
  rw [List.filterMap_append, ← h.slots]
  cases answer with
  | ok => exact (List.append_nil _).symm
  | error => exact (List.append_nil _).symm

theorem Follows.move {s : EsploraState} (h : Follows s m) (i : Nat) (fetch : Fetch) :
    Follows s (m.move i fetch) :=
  ⟨h.pacer, h.slots, h.requests⟩

/-- **The rounds that go on**, for a clock by which every sleep has taken its time. -/
theorem rounds_followed (d initialStart : Int) {s : EsploraState} (hfollows : Follows s m)
    (hi : m.fetches[i]? = some (.reserving 0)) (hclock : m.clock ≤ S.clock s.readings)
    (hagain : ∀ j < k, EsploraLoop.retryable (EsploraLoop.answerAt S path s j) = true ∧
      (j : Int) < S.maximumRetries)
    (hsleeps : ∀ j < k,
      nextSlot S (EsploraLoop.after S path s j) ≤ S.clock (s.readings + (j + 1))) :
    ∃ ls m', (pacing S.maximumRetries d initialStart).Path Machine.always m ls m' ∧
      Follows (EsploraLoop.after S path s k) m' ∧ m'.clock ≤ S.clock (s.readings + k) ∧
      m'.fetches[i]? = some (.reserving k) := by
  induction k with
  | zero => exact ⟨[], m, .refl, hfollows, hclock, hi⟩
  | succ k ih =>
    obtain ⟨ls, m₁, hpath, hfollows₁, hclock₁, hi₁⟩ :=
      ih (fun j hj => hagain j (Nat.lt_succ_of_lt hj)) fun j hj => hsleeps j (Nat.lt_succ_of_lt hj)
    have hreadings := (EsploraLoop.waited_after S path s k).slots
    rw [← hreadings] at hclock₁
    obtain ⟨more, m₂, hround, hfollows₂, hclock₂, hi₂⟩ :=
      round_followed path d initialStart hfollows₁ hi₁ hclock₁
    rw [EsploraLoop.http_after, afterAnswer, if_pos (hagain k (Nat.lt_succ_self k))] at hi₂
    have hretry : (pacing S.maximumRetries d initialStart).step m₂ (.retry i) =
        some (m₂.move i (.reserving (k + 1))) := by
      dsimp only [pacing, step]
      rw [hi₂]
    refine ⟨_, _, (hpath.trans hround).step trivial hretry, ?_, ?_,
      move_get _ _ (List.getElem?_eq_some_iff.1 hi₂).1⟩
    · exact (hfollows₂.slept _ _).move i _
    · show m₂.clock ≤ _
      rw [hclock₂]
      exact hsleeps k (Nat.lt_succ_self k)

/-- **A call of `fetchData` by itself is a path of the machine**: from where it begins to where it is
    over, with the pacer, the slots and the requests that the loop leaves. -/
theorem fetchData_followed (d initialStart : Int) {s : EsploraState} {fuel : Nat}
    (huncancelled : S.cancelAt = none) (hint : S.maximumRetries ≤ 9223372036854775807)
    (hclient : ∀ j e, EsploraLoop.answerAt S path s j = .error e → e.isBlockSourceError = false)
    (hfits : ∀ j,
      (EsploraLoop.delayAfter S (EsploraLoop.answerAt S path s j) j).fits = true)
    (hk : IsLeast {k | EsploraLoop.retryable (EsploraLoop.answerAt S path s k) = false ∨
      (k : Int) = max 0 S.maximumRetries} k)
    (hcount : EsploraLoop.serverError (EsploraLoop.answerAt S path s k) = true →
      (k : Int) < 9223372036854775807)
    (hfuel : k < fuel) (hfollows : Follows s m) (hi : m.fetches[i]? = some (.reserving 0))
    (hclock : m.clock ≤ S.clock s.readings)
    (hsleeps : ∀ j < k,
      nextSlot S (EsploraLoop.after S path s j) ≤ S.clock (s.readings + (j + 1))) :
    ∃ ls m', (pacing S.maximumRetries d initialStart).Path Machine.always m ls m' ∧
      Follows (EsploraLoop.fetchData S path fuel s).2 m' ∧ m'.fetches[i]? = some .finished := by
  obtain ⟨r, hloop, -⟩ :=
    EsploraLoop.fetchData_loops huncancelled hint hclient hfits hk hcount hfuel
  obtain ⟨ls, m₁, hpath, hfollows₁, hclock₁, hi₁⟩ := rounds_followed d initialStart hfollows hi hclock
    (fun j hj => EsploraLoop.before_least hk hj) hsleeps
  rw [← (EsploraLoop.waited_after S path s k).slots] at hclock₁
  obtain ⟨more, m₂, hround, hfollows₂, -, hi₂⟩ :=
    round_followed path d initialStart hfollows₁ hi₁ hclock₁
  have hover : ¬(EsploraLoop.retryable (EsploraLoop.answerAt S path s k) = true ∧
      (k : Int) < S.maximumRetries) := by
    intro hagain
    rcases hk.1 with hfinal | hused
    · rw [hagain.1] at hfinal
      cases hfinal
    · omega
  rw [EsploraLoop.http_after, afterAnswer, if_neg hover] at hi₂
  rw [hloop]
  exact ⟨_, m₂, hpath.trans hround, hfollows₂, hi₂⟩

end Alone

end Pacing

end SwiftBitcoinKernel
