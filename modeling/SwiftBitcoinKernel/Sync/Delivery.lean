/-
  File:      SwiftBitcoinKernel/Sync/Delivery.lean
  Subject:   What a consumer of `Updates` receives, at any pace.

  The stream keeps the newest 64 updates. What is dropped is always the oldest: the terminal update
  is safe there, the initial `.preparing` is not.

  * `AsyncStream.inHand`, `AsyncStream.Attends` -- what the consumer has still to receive, and that
    its `next()` waits only for what is not there;
  * `Effect`, `effect_of_step` -- what a step of a session that the consumer does not cancel does;
  * `InOrder` -- in every such session, what was received and what is in hand are a subsequence of
    what was yielded, and end with the same update;
  * `unread_pending` -- before `next()` is called, the newest 64 are pending;
  * `received_head` -- so the consumer first receives the update that was the oldest of those, or the
    first of all, if it was waiting for it;
  * `delivered_iff` -- a consumer that iterates to the end receives what the documentation says just
    if at most 64 updates were yielded before its first call of `next()`; `preparing_dropped` --
    a run of 63 blocks and a consumer that comes late.
-/
import Mathlib.Data.List.DropRight
import SwiftBitcoinKernel.Sync.Stream

namespace SwiftBitcoinKernel

open Logic

/-! ## 1. The buffer -/

section Buffer

variable {limit : Nat} {pending l : List Update} {update : Update}

theorem bufferingNewest_sublist : (bufferingNewest limit pending update).Sublist
    (pending ++ [update]) := by
  unfold bufferingNewest
  split
  · exact List.Sublist.refl _
  · split
    · exact (List.drop_sublist 1 pending).append (List.Sublist.refl _)
    · exact List.sublist_append_left pending _

/-- The newest element is never dropped. -/
theorem bufferingNewest_last (hlimit : 0 < limit) :
    ∃ kept, bufferingNewest limit pending update = kept ++ [update] := by
  unfold bufferingNewest
  split
  · exact ⟨pending, rfl⟩
  · exact ⟨pending.drop 1, rfl⟩

/-- The newest of a longer list. -/
theorem bufferingNewest_rtake (hlimit : 0 < limit) :
    bufferingNewest limit (l.rtake limit) update = (l ++ [update]).rtake limit := by
  unfold bufferingNewest List.rtake
  rw [List.length_drop, List.length_append, List.length_singleton]
  split
  · -- the buffer is not full: nothing has been dropped so far
    rename_i hroom
    have hall : l.length - limit = 0 := by omega
    have hnone : l.length + 1 - limit = 0 := by omega
    rw [hall, hnone, List.drop_zero, List.drop_zero]
  · rename_i hfull
    have hle : l.length + 1 - limit ≤ l.length := by omega
    have hone : l.length - limit + 1 = l.length + 1 - limit := by omega
    rw [List.drop_drop, hone, List.drop_append_of_le_length hle]

end Buffer

/-! ## 2. What a stream has in hand -/

/-- An update that `next()` has been resumed with, and has yet to return. -/
def NextCall.inFlight : NextCall → List Update
  | .resumed answer => answer.toList
  | .idle | .suspended => []

namespace AsyncStream

/-- What the consumer has still to receive: an update in flight, and the pending ones. -/
def inHand (stream : AsyncStream) : List Update := stream.call.inFlight ++ stream.pending

/-- `next()` is suspended only where there is nothing for it, and resumed with `nil` only at the
    end. -/
structure Attends (stream : AsyncStream) : Prop where
  suspended : stream.call = .suspended → stream.pending = [] ∧ stream.terminal = false
  ending : stream.call = .resumed none → stream.pending = [] ∧ stream.terminal = true

/-- What the producer's call `e` does to a stream. -/
def after (e : Event) (stream : AsyncStream) : AsyncStream :=
  match e with
  | .yield update _ => stream.yield update
  | .finish => stream.finish
  | _ => stream

variable {stream : AsyncStream}

theorem resume_inHand : stream.resume.inHand = stream.inHand := by
  unfold resume
  split
  · rename_i h
    cases hpending : stream.pending <;> simp [inHand, NextCall.inFlight, h.1, hpending]
  · rfl

@[simp] theorem resume_terminal (stream : AsyncStream) :
    stream.resume.terminal = stream.terminal := by
  unfold resume
  split <;> rfl

/-- Where no `next()` is suspended, nothing is resumed. -/
theorem resume_eq_self (stream : AsyncStream) (h : stream.call ≠ .suspended) :
    stream.resume = stream :=
  if_neg fun hsuspended => h hsuspended.1

/-- What is in flight stays so until it is returned. -/
theorem inFlight_resume (stream : AsyncStream) :
    stream.call.inFlight <+: stream.resume.call.inFlight := by
  unfold resume
  split
  · rename_i h
    rw [h.1]
    exact List.nil_prefix
  · exact List.prefix_rfl

theorem attends_resume (h : stream.call = .resumed none →
    stream.pending = [] ∧ stream.terminal = true) : stream.resume.Attends := by
  unfold resume
  split
  · rename_i hsome
    refine ⟨nofun, fun hnil => ?_⟩
    have hpending : stream.pending = [] := by simpa using hnil
    rw [hpending] at hsome ⊢
    exact ⟨rfl, hsome.2.resolve_left fun h => h rfl⟩
  · rename_i hnone
    refine ⟨fun hcall => ?_, h⟩
    rw [not_and, not_or, not_not, Bool.not_eq_true] at hnone
    exact hnone hcall

theorem Attends.after (h : stream.Attends) (e : Event) : (stream.after e).Attends := by
  cases e with
  | yield update progress =>
    show (AsyncStream.yield update stream).Attends
    unfold AsyncStream.yield
    split
    · exact attends_resume h.ending
    · rename_i hopen
      refine attends_resume fun hcall => ?_
      exact absurd (h.ending hcall).2 hopen
  | finish => exact attends_resume fun hcall => ⟨(h.ending hcall).1, rfl⟩
  | isCancelled | resolved | repolled | blockHash | block | processBlock => exact h

theorem after_terminal (stream : AsyncStream) (e : Event) :
    (stream.after e).terminal = true ↔ stream.terminal = true ∨ e = .finish := by
  cases e with
  | yield update progress =>
    have hsame : (AsyncStream.yield update stream).terminal = stream.terminal := by
      unfold AsyncStream.yield
      split <;> simp
    show (AsyncStream.yield update stream).terminal = true ↔ _
    simp [hsame]
  | finish =>
    show stream.finish.terminal = true ↔ _
    simp [AsyncStream.finish]
  | isCancelled | resolved | repolled | blockHash | block | processBlock =>
    show stream.terminal = true ↔ _
    simp

theorem yield_open (update : Update) (hopen : stream.terminal = false) :
    stream.yield update =
      { stream with pending := bufferingNewest 64 stream.pending update }.resume := by
  unfold AsyncStream.yield
  rw [hopen]
  rfl

/-- While the stream is open, what is in hand is what the buffer makes of the call. -/
theorem after_inHand (e : Event) (hopen : stream.terminal = false) :
    (stream.after e).inHand =
      stream.call.inFlight ++ (updates [e]).foldl (bufferingNewest 64) stream.pending := by
  cases e with
  | yield update progress =>
    show (AsyncStream.yield update stream).inHand = _
    rw [yield_open update hopen, resume_inHand]
    rfl
  | finish =>
    show stream.finish.inHand = _
    rw [AsyncStream.finish, resume_inHand]
    rfl
  | isCancelled | resolved | repolled | blockHash | block | processBlock => rfl

theorem inFlight_after (e : Event) : stream.call.inFlight <+: (stream.after e).call.inFlight := by
  cases e with
  | yield update progress =>
    show _ <+: (AsyncStream.yield update stream).call.inFlight
    unfold AsyncStream.yield
    split
    · exact inFlight_resume stream
    · exact inFlight_resume { stream with pending := bufferingNewest 64 stream.pending update }
  | finish => exact inFlight_resume { stream with terminal := true }
  | isCancelled | resolved | repolled | blockHash | block | processBlock => exact List.prefix_rfl

/-- A call that is not suspended is left alone by the producer. -/
theorem after_call (e : Event) (h : stream.call ≠ .suspended) :
    (stream.after e).call = stream.call := by
  cases e with
  | yield update progress =>
    show (AsyncStream.yield update stream).call = _
    unfold AsyncStream.yield
    split
    · rw [resume_eq_self stream h]
    · rw [resume_eq_self { stream with pending := bufferingNewest 64 stream.pending update } h]
  | finish =>
    show stream.finish.call = _
    rw [AsyncStream.finish, resume_eq_self { stream with terminal := true } h]
  | isCancelled | resolved | repolled | blockHash | block | processBlock => rfl

end AsyncStream

namespace Session

/-! ## 3. What a step does -/

/-- The step is not a cancellation by the consumer. -/
def Uncancelled (_ : Session) : Label → Prop
  | .cancel => False
  | .produce _ | .next | .returned | .shutdown => True

instance (s : Session) : (l : Label) → Decidable (s.Uncancelled l)
  | .cancel => inferInstanceAs (Decidable False)
  | .produce _ | .next | .returned | .shutdown => inferInstanceAs (Decidable True)

/-- The steps, each with what it does to the stream, its handler apart, and to the records. -/
inductive Effect (s : Session) : Label → Session → Prop where
  | produce {s' : Session} (e : Event) (handler : Bool) (hproduced : s'.produced = s.produced ++ [e])
      (hreceived : s'.received = s.received) (hended : s'.ended = s.ended)
      (hstream : s'.stream = { s.stream.after e with onTermination := handler }) :
      Effect s (.produce e) s'
  | next (hidle : s.stream.call = .idle) :
      Effect s .next { s with stream := { s.stream with call := .suspended }.resume }
  | returned {answer : Option Update} (hresumed : s.stream.call = .resumed answer) :
      Effect s .returned { s with
        stream := { s.stream with call := .idle }
        received := s.received ++ answer.toList
        ended := s.ended || answer.isNone }
  | shutdown {s' : Session} (hproduced : s'.produced = s.produced)
      (hreceived : s'.received = s.received) (hended : s'.ended = s.ended)
      (hstream : s'.stream = s.stream) : Effect s .shutdown s'

variable {s s' : Session} {l : Label} {tokenWrite : Bool}

theorem runHandler_effect (s : Session) (tokenWrite : Bool) :
    ∃ handler, (s.runHandler tokenWrite).received = s.received ∧
    (s.runHandler tokenWrite).ended = s.ended ∧
    (s.runHandler tokenWrite).stream = { s.stream with onTermination := handler } := by
  unfold runHandler
  split
  · exact ⟨false, rfl, rfl, rfl⟩
  · exact ⟨s.stream.onTermination, rfl, rfl, rfl⟩

theorem produce_effect (e : Event) : Effect s (.produce e) (s.produce tokenWrite e) := by
  cases e with
  | finish =>
    obtain ⟨handler, hreceived, hended, hstream⟩ :=
      runHandler_effect { s with stream := s.stream.finish } tokenWrite
    exact .produce _ handler rfl hreceived hended hstream
  | yield update progress => exact .produce _ (s.stream.yield update).onTermination rfl rfl rfl rfl
  | isCancelled | resolved | repolled | blockHash | block | processBlock =>
    exact .produce _ s.stream.onTermination rfl rfl rfl rfl

theorem effect_of_step (hl : s.Uncancelled l) (hstep : s.step tokenWrite l = some s') :
    Effect s l s' := by
  cases l with
  | produce e =>
    cases hstep
    exact produce_effect e
  | next =>
    obtain ⟨stream, hcall, rfl⟩ := Option.map_eq_some_iff.1 hstep
    unfold AsyncStream.beginNext at hcall
    split at hcall
    · rename_i hidle
      cases hcall
      exact .next hidle
    · cases hcall
    · cases hcall
  | returned =>
    have hreturned : s.endNext = some s' := hstep
    unfold Session.endNext at hreturned
    split at hreturned
    · rename_i hresumed
      cases hreturned
      exact .returned hresumed
    · cases hreturned
    · cases hreturned
  | cancel => exact hl.elim
  | shutdown =>
    cases hstep
    exact .shutdown rfl rfl rfl rfl

/-! ## 4. Nothing is reordered, and the newest stays -/

/-- The stream is open until `finish()` is called, a `next()` waits only for what is not there, and
    `nil` is the last answer. -/
structure Regular (s : Session) : Prop where
  finishes : s.stream.terminal = true ↔ .finish ∈ s.produced
  attends : s.stream.Attends
  exhausted : s.ended = true → s.stream.terminal = true ∧ s.stream.inHand = []

theorem regular_start (context : Context) : (start context).Regular :=
  ⟨⟨nofun, nofun⟩, ⟨nofun, nofun⟩, nofun⟩

/-- Nothing comes out of a stream that has ended empty. -/
theorem inHand_after_end {stream : AsyncStream} (e : Event)
    (hterminal : stream.terminal = true) (hempty : stream.inHand = []) :
    (stream.after e).inHand = [] := by
  cases e with
  | yield update progress =>
    show (AsyncStream.yield update stream).inHand = []
    unfold AsyncStream.yield
    rw [if_pos hterminal, AsyncStream.resume_inHand, hempty]
  | finish =>
    show stream.finish.inHand = []
    rw [AsyncStream.finish, AsyncStream.resume_inHand]
    exact hempty
  | isCancelled | resolved | repolled | blockHash | block | processBlock => exact hempty

theorem regular_step (h : s.Regular) (hl : s.Uncancelled l)
    (hstep : s.step tokenWrite l = some s') : s'.Regular := by
  cases effect_of_step hl hstep with
  | produce e handler hproduced hreceived hended hstream =>
    have hterminal := AsyncStream.after_terminal s.stream e
    refine ⟨?_, ?_, ?_⟩
    · rw [hstream, hproduced, List.mem_append, List.mem_singleton, ← h.finishes,
        eq_comm (a := Event.finish)]
      exact hterminal
    · rw [hstream]
      exact ⟨(h.attends.after e).suspended, (h.attends.after e).ending⟩
    · intro hend
      rw [hended] at hend
      obtain ⟨hover, hempty⟩ := h.exhausted hend
      rw [hstream]
      exact ⟨hterminal.2 (.inl hover), inHand_after_end e hover hempty⟩
  | next hidle =>
    refine ⟨?_, AsyncStream.attends_resume nofun, fun hend => ?_⟩
    · rw [AsyncStream.resume_terminal]
      exact h.finishes
    · obtain ⟨hover, hempty⟩ := h.exhausted hend
      refine ⟨(AsyncStream.resume_terminal _).trans hover, ?_⟩
      rw [AsyncStream.resume_inHand]
      unfold AsyncStream.inHand at hempty ⊢
      rw [hidle] at hempty
      exact hempty
  | @returned answer hresumed =>
    refine ⟨h.finishes, ⟨nofun, nofun⟩, fun hend => ?_⟩
    rcases Bool.or_eq_true_iff.1 hend with hend | hend
    · obtain ⟨hover, hempty⟩ := h.exhausted hend
      exact ⟨hover, (List.append_eq_nil_iff.1 hempty).2⟩
    · rw [Option.isNone_iff_eq_none.1 hend] at hresumed
      obtain ⟨hpending, hterminal⟩ := h.attends.ending hresumed
      exact ⟨hterminal, hpending⟩
  | shutdown hproduced hreceived hended hstream =>
    refine ⟨?_, ?_, ?_⟩
    · rw [hproduced, hstream]
      exact h.finishes
    · rw [hstream]
      exact h.attends
    · rw [hended, hstream]
      exact h.exhausted

/-- What was received and what is in hand are a subsequence of what was yielded, with its last
    update; for a producer that calls nothing behind `finish()`. -/
structure InOrder (s : Session) : Prop where
  regular : s.Regular
  sublist : .finish ∉ s.produced.dropLast →
    (s.received ++ s.stream.inHand).Sublist (updates s.produced)
  last : .finish ∉ s.produced.dropLast →
    (s.received ++ s.stream.inHand).getLast? = (updates s.produced).getLast?

/-- What a producer that has not called `finish()` does to a buffer. -/
theorem inOrder_produce {e : Event} {received pending yielded : List Update}
    (hsublist : (received ++ pending).Sublist yielded)
    (hlast : (received ++ pending).getLast? = yielded.getLast?) :
    (received ++ (updates [e]).foldl (bufferingNewest 64) pending).Sublist
        (yielded ++ updates [e]) ∧
      (received ++ (updates [e]).foldl (bufferingNewest 64) pending).getLast? =
        (yielded ++ updates [e]).getLast? := by
  cases e with
  | yield update progress =>
    show (received ++ bufferingNewest 64 pending update).Sublist (yielded ++ [update]) ∧
      (received ++ bufferingNewest 64 pending update).getLast? = (yielded ++ [update]).getLast?
    constructor
    · have hkept : (received ++ bufferingNewest 64 pending update).Sublist
          (received ++ pending ++ [update]) := by
        rw [List.append_assoc]
        exact bufferingNewest_sublist.append_left received
      exact hkept.trans (hsublist.append (List.Sublist.refl _))
    · obtain ⟨kept, hkept⟩ : ∃ kept, bufferingNewest 64 pending update = kept ++ [update] :=
        bufferingNewest_last (Nat.succ_pos 63)
      rw [hkept, ← List.append_assoc, List.getLast?_concat, List.getLast?_concat]
  | finish | isCancelled | resolved | repolled | blockHash | block | processBlock =>
    show (received ++ pending).Sublist (yielded ++ []) ∧
      (received ++ pending).getLast? = (yielded ++ []).getLast?
    rw [List.append_nil]
    exact ⟨hsublist, hlast⟩

/-- The consumer's own steps pass updates on from hand to hand. -/
theorem InOrder.passed (h : s.InOrder) (hregular : s'.Regular) (hproduced : s'.produced = s.produced)
    (hhanded : s'.received ++ s'.stream.inHand = s.received ++ s.stream.inHand) : s'.InOrder := by
  refine ⟨hregular, ?_, ?_⟩
  · rw [hproduced, hhanded]
    exact h.sublist
  · rw [hproduced, hhanded]
    exact h.last

theorem inOrder_step (h : s.InOrder) (hl : s.Uncancelled l)
    (hstep : s.step tokenWrite l = some s') : s'.InOrder := by
  have hregular := regular_step h.regular hl hstep
  cases effect_of_step hl hstep with
  | produce e handler hproduced hreceived hended hstream =>
    have hboth : .finish ∉ s'.produced.dropLast →
        (s'.received ++ s'.stream.inHand).Sublist (updates s'.produced) ∧
          (s'.received ++ s'.stream.inHand).getLast? = (updates s'.produced).getLast? := by
      rw [hproduced, List.dropLast_concat]
      intro hopen
      have hbefore : .finish ∉ s.produced.dropLast := fun hf => hopen (List.mem_of_mem_dropLast hf)
      have hterminal : s.stream.terminal = false :=
        Bool.eq_false_iff.2 fun ht => hopen (h.regular.finishes.1 ht)
      have hinHand : s'.stream.inHand = _ :=
        (congrArg AsyncStream.inHand hstream).trans (AsyncStream.after_inHand e hterminal)
      have hsublist := h.sublist hbefore
      have hlast := h.last hbefore
      rw [AsyncStream.inHand, ← List.append_assoc] at hsublist hlast
      rw [hreceived, hinHand, updates_append, ← List.append_assoc]
      exact inOrder_produce hsublist hlast
    exact ⟨hregular, fun hopen => (hboth hopen).1, fun hopen => (hboth hopen).2⟩
  | next hidle =>
    refine h.passed hregular rfl ?_
    rw [AsyncStream.resume_inHand]
    simp [AsyncStream.inHand, NextCall.inFlight, hidle]
  | returned hresumed =>
    refine h.passed hregular rfl ?_
    simp [AsyncStream.inHand, NextCall.inFlight, hresumed]
  | shutdown hproduced hreceived hended hstream =>
    exact h.passed hregular hproduced (by rw [hreceived, hstream])

/-! ## 5. The first update received -/

/-- The producer's calls among the steps. -/
def events (ls : List Label) : List Event :=
  ls.filterMap fun
    | .produce e => some e
    | .next | .returned | .cancel | .shutdown => none

/-- The steps before the first call of `next()`. -/
def beforeNext : List Label → List Label
  | [] => []
  | .next :: _ => []
  | l :: ls => l :: beforeNext ls

/-- The updates yielded before the first call of `next()`. -/
def unread (ls : List Label) : List Update := updates (events (beforeNext ls))

/-- There is no `next()`, or the first one comes behind those steps. -/
theorem beforeNext_split (ls : List Label) :
    .next ∉ beforeNext ls ∧ (ls = beforeNext ls ∨ ∃ rest, ls = beforeNext ls ++ .next :: rest) := by
  induction ls with
  | nil => exact ⟨List.not_mem_nil, .inl rfl⟩
  | cons l ls ih =>
    obtain ⟨hfree, hsplit⟩ := ih
    cases l with
    | next => exact ⟨List.not_mem_nil, .inr ⟨ls, rfl⟩⟩
    | produce | returned | cancel | shutdown =>
      refine ⟨fun hmem => ?_, ?_⟩
      · rcases List.mem_cons.1 hmem with h | h
        · cases h
        · exact hfree h
      · rcases hsplit with hnone | ⟨rest, hrest⟩
        · exact .inl (congrArg (List.cons _) hnone)
        · exact .inr ⟨rest, congrArg (List.cons _) hrest⟩

variable {context : Context} {ls more : List Label} {s₀ : Session}

/-- The record of the producer's calls is that of its steps. -/
theorem produced_path (h : (session context tokenWrite).Path Uncancelled s₀ more s) :
    s.produced = s₀.produced ++ events more := by
  induction h with
  | refl => exact (List.append_nil _).symm
  | step before hl hstep ih =>
    unfold events at ih ⊢
    rw [List.filterMap_append, ← List.append_assoc, ← ih]
    cases effect_of_step hl hstep with
    | produce e handler hproduced => exact hproduced
    | next | returned => exact (List.append_nil _).symm
    | shutdown hproduced => exact hproduced.trans (List.append_nil _).symm

theorem run_regular (h : (session context tokenWrite).Run Uncancelled ls s) : s.Regular :=
  h.invariant (regular_start context) fun _ _ _ hs hl hstep => regular_step hs hl hstep

/-- Nothing has been asked for: the newest 64 updates are pending. -/
structure Unread (s : Session) : Prop where
  received : s.received = []
  idle : s.stream.call = .idle
  ended : s.ended = false
  pending : s.stream.pending = (updates s.produced).rtake 64

/-- **Before the first `next()`, the newest 64 updates are pending.** -/
theorem unread_pending (h : (session context tokenWrite).Run Uncancelled ls s)
    (hnext : .next ∉ ls) (hopen : .finish ∉ s.produced.dropLast) : s.Unread := by
  induction h with
  | refl => exact ⟨rfl, rfl, rfl, rfl⟩
  | step before hl hstep ih =>
    have hregular := run_regular before
    obtain ⟨hbefore, hlast⟩ := not_or.1 (mt List.mem_append.2 hnext)
    cases effect_of_step hl hstep with
    | produce e handler hproduced hreceived hended hstream =>
      rw [hproduced, List.dropLast_concat] at hopen
      have hunread := ih hbefore fun hf => hopen (List.mem_of_mem_dropLast hf)
      have hterminal := Bool.eq_false_iff.2 fun ht => hopen (hregular.finishes.1 ht)
      have hcall := AsyncStream.after_call e (by rw [hunread.idle]; nofun)
      have hinHand := AsyncStream.after_inHand e hterminal
      rw [AsyncStream.inHand, hcall, hunread.idle, hunread.pending] at hinHand
      refine ⟨hreceived.trans hunread.received, ?_, hended.trans hunread.ended, ?_⟩
      · rw [hstream]
        exact hcall.trans hunread.idle
      · rw [hstream, hproduced, updates_append]
        refine (List.append_cancel_left hinHand).trans ?_
        cases e with
        | yield update progress => exact bufferingNewest_rtake (Nat.succ_pos 63)
        | finish | isCancelled | resolved | repolled | blockHash | block | processBlock =>
          exact congrArg (List.rtake · 64) (List.append_nil _).symm
    | next => exact absurd (List.mem_singleton.2 rfl) hlast
    | returned hresumed =>
      have hunread := ih hbefore hopen
      rw [hunread.idle] at hresumed
      cases hresumed
    | shutdown hproduced hreceived hended hstream =>
      rw [hproduced] at hopen
      have hunread := ih hbefore hopen
      refine ⟨hreceived.trans hunread.received, ?_, hended.trans hunread.ended, ?_⟩
      · rw [hstream]
        exact hunread.idle
      · rw [hstream, hproduced]
        exact hunread.pending

/-- What the consumer has been given so far. -/
def given (s : Session) : List Update := s.received ++ s.stream.call.inFlight

/-- After a call of `next()`: the first update given was the one numbered `k`, or none has been
    yielded yet and the call waits for it. -/
inductive Begun (k : Nat) (s : Session) : Prop where
  | given (u : Update) (hfirst : s.given.head? = some u)
      (hnumber : (updates s.produced)[k]? = some u)
  | waiting (hzero : k = 0) (hgiven : s.given = []) (hpending : s.stream.pending = [])
      (hnone : updates s.produced = [])
      (hcall : s.stream.terminal = false → s.stream.call = .suspended)

/-- What was given first stays so. -/
theorem Begun.grows {k : Nat} {u : Update} (hfirst : s.given.head? = some u)
    (hnumber : (updates s.produced)[k]? = some u) (hgiven : s.given <+: s'.given)
    (hproduced : ∃ more, s'.produced = s.produced ++ more) : s'.Begun k := by
  obtain ⟨later, hlater⟩ := hgiven
  obtain ⟨more, hmore⟩ := hproduced
  refine .given u ?_ ?_
  · rw [← hlater, List.head?_append, hfirst]
    rfl
  · obtain ⟨hlt, -⟩ := List.getElem?_eq_some_iff.1 hnumber
    rw [hmore, updates_append, List.getElem?_append_left hlt, hnumber]

/-- The call that the consumer waits for. -/
theorem begun_waiting_produce {e : Event} {handler : Bool} {k : Nat} (hzero : k = 0)
    (hgiven : s.given = []) (hpending : s.stream.pending = []) (hnone : updates s.produced = [])
    (hcall : s.stream.call = .suspended) (hopen : s.stream.terminal = false)
    (hproduced : s'.produced = s.produced ++ [e]) (hreceived : s'.received = s.received)
    (hstream : s'.stream = { s.stream.after e with onTermination := handler }) : s'.Begun k := by
  have hnew : updates s'.produced = updates [e] := by
    rw [hproduced, updates_append, hnone, List.nil_append]
  have hgiven' : s'.given = (s.stream.after e).call.inFlight := by
    unfold Session.given
    rw [hreceived, hstream, (List.append_eq_nil_iff.1 hgiven).1, List.nil_append]
  cases e with
  | yield update progress =>
    -- it is handed to the continuation, past the buffer
    have hresumed : (s.stream.after (.yield update progress)).call = .resumed (some update) := by
      show (s.stream.yield update).call = _
      rw [AsyncStream.yield_open update hopen]
      simp [AsyncStream.resume, bufferingNewest, hcall, hpending]
    refine .given update ?_ ?_
    · rw [hgiven', hresumed]
      rfl
    · rw [hnew, hzero]
      rfl
  | finish =>
    have hfinish : s.stream.after .finish =
        { s.stream with terminal := true, call := .resumed none, pending := [] } := by
      show s.stream.finish = _
      simp [AsyncStream.finish, AsyncStream.resume, hcall, hpending]
    refine .waiting hzero ?_ ?_ hnew ?_
    · rw [hgiven', hfinish]
      rfl
    · rw [hstream, hfinish]
    · rw [hstream, hfinish]
      intro hstill
      cases hstill
  | isCancelled | resolved | repolled | blockHash | block | processBlock =>
    refine .waiting hzero ?_ ?_ hnew ?_
    · rw [hgiven']
      exact (List.append_eq_nil_iff.1 hgiven).2
    · rw [hstream]
      exact hpending
    · rw [hstream]
      exact fun _ => hcall

/-- What the consumer has been given is not taken back. -/
theorem given_step (hl : s.Uncancelled l) (hstep : s.step tokenWrite l = some s') :
    s.given <+: s'.given := by
  unfold Session.given
  cases effect_of_step hl hstep with
  | produce e handler hproduced hreceived hended hstream =>
    rw [hreceived, hstream]
    exact (List.prefix_append_right_inj _).2 (AsyncStream.inFlight_after e)
  | next hidle =>
    rw [hidle]
    exact (List.prefix_append_right_inj _).2 List.nil_prefix
  | returned hresumed =>
    rw [hresumed]
    exact List.prefix_append _ _
  | shutdown hproduced hreceived hended hstream =>
    rw [hreceived, hstream]

theorem produced_step (hl : s.Uncancelled l) (hstep : s.step tokenWrite l = some s') :
    ∃ more, s'.produced = s.produced ++ more := by
  cases effect_of_step hl hstep with
  | produce e handler hproduced hreceived hended hstream => exact ⟨[e], hproduced⟩
  | next hidle => exact ⟨[], (List.append_nil _).symm⟩
  | returned hresumed => exact ⟨[], (List.append_nil _).symm⟩
  | shutdown hproduced hreceived hended hstream =>
    exact ⟨[], hproduced.trans (List.append_nil _).symm⟩

/-- A call of `next()` where the consumer has been given nothing: the stream has ended, or the last
    call would still wait. -/
theorem begun_waiting_next {k : Nat} (hzero : k = 0) (hgiven : s.given = [])
    (hpending : s.stream.pending = []) (hnone : updates s.produced = [])
    (hcall : s.stream.terminal = false → s.stream.call = .suspended)
    (hidle : s.stream.call = .idle) :
    Begun k { s with stream := { s.stream with call := .suspended }.resume } := by
  have hterminal : s.stream.terminal = true := by
    by_contra hopen
    rw [hcall (Bool.eq_false_iff.2 hopen)] at hidle
    cases hidle
  have hnil : { s.stream with call := .suspended }.resume =
      { s.stream with call := .resumed none, pending := [] } := by
    simp [AsyncStream.resume, hterminal, hpending]
  refine .waiting hzero ?_ ?_ hnone fun hopen => ?_
  · unfold Session.given
    rw [hnil]
    exact List.append_eq_nil_iff.2 ⟨(List.append_eq_nil_iff.1 hgiven).1, rfl⟩
  · rw [hnil]
  · rw [hnil, hterminal] at hopen
    cases hopen

/-- Every step keeps it, up to the producer's `finish()`. -/
theorem begun_step {k : Nat} (hregular : s.Regular) (h : s.Begun k) (hl : s.Uncancelled l)
    (hstep : s.step tokenWrite l = some s') (hopen : .finish ∉ s'.produced.dropLast) :
    s'.Begun k := by
  have hgrows := given_step hl hstep
  have hmore := produced_step hl hstep
  cases h with
  | given u hfirst hnumber => exact .grows hfirst hnumber hgrows hmore
  | waiting hzero hgiven hpending hnone hcall =>
    cases effect_of_step hl hstep with
    | produce e handler hproduced hreceived hended hstream =>
      rw [hproduced, List.dropLast_concat] at hopen
      have hterminal := Bool.eq_false_iff.2 fun ht => hopen (hregular.finishes.1 ht)
      exact begun_waiting_produce hzero hgiven hpending hnone (hcall hterminal) hterminal hproduced
        hreceived hstream
    | next hidle => exact begun_waiting_next hzero hgiven hpending hnone hcall hidle
    | @returned answer hresumed =>
      have hsame : s.given = s.received ++ answer.toList := by
        unfold Session.given
        rw [hresumed]
        rfl
      refine .waiting hzero ?_ hpending hnone fun hopen => ?_
      · rw [hsame] at hgiven
        exact List.append_eq_nil_iff.2 ⟨hgiven, rfl⟩
      · rw [hcall hopen] at hresumed
        cases hresumed
    | shutdown hproduced hreceived hended hstream =>
      have hgiven' : s'.given = s.given := by
        unfold Session.given
        rw [hreceived, hstream]
      refine .waiting hzero (hgiven'.trans hgiven) ?_ (by rw [hproduced]; exact hnone) ?_
      · rw [hstream]
        exact hpending
      · rw [hstream]
        exact hcall

/-- The oldest of the newest. -/
theorem head_rtake {α : Type} (l : List α) (n : Nat) : (l.rtake n).head? = l[l.length - n]? :=
  List.head?_drop

theorem eq_nil_of_rtake {α : Type} {l : List α} {n : Nat} (hn : 0 < n) (h : l.rtake n = []) :
    l = [] := by
  have hle : l.length ≤ l.length - n := List.drop_eq_nil_iff.1 h
  exact List.eq_nil_of_length_eq_zero (by omega)

/-- Nothing is called behind `finish()`, so neither behind the `finish()` of a first part. -/
theorem finish_notMem_of_append {before after : List Event}
    (hopen : .finish ∉ (before ++ after).dropLast) : .finish ∉ before.dropLast := by
  intro hf
  refine hopen ?_
  rcases List.eq_nil_or_concat after with rfl | ⟨init, last, rfl⟩
  · rw [List.append_nil]
    exact hf
  · rw [List.concat_eq_append, ← List.append_assoc, List.dropLast_concat]
    exact List.mem_append_left _ (List.mem_of_mem_dropLast hf)

/-- The first call of `next()` is given the oldest of the newest 64 updates, or there is none yet.
    -/
theorem begun_next (hunread : s.Unread) : Begun ((updates s.produced).length - 64)
    { s with stream := { s.stream with call := .suspended }.resume } := by
  have hpending := hunread.pending
  cases hnewest : s.stream.pending with
  | cons u rest =>
    refine .given u ?_ ?_
    · simp [Session.given, hunread.received, AsyncStream.resume, hnewest, NextCall.inFlight]
    · rw [← head_rtake, ← hpending, hnewest]
      rfl
  | nil =>
    have hnone : updates s.produced = [] :=
      eq_nil_of_rtake (Nat.succ_pos 63) (hpending.symm.trans hnewest)
    have hinHand : { s.stream with call := .suspended }.resume.inHand = [] := by
      rw [AsyncStream.resume_inHand]
      exact hnewest
    have hpast : (updates s.produced).length - 64 = 0 := by
      rw [hnone]
      rfl
    refine .waiting hpast ?_ (List.append_eq_nil_iff.1 hinHand).2 hnone fun hopen => ?_
    · unfold Session.given
      rw [(List.append_eq_nil_iff.1 hinHand).1, hunread.received]
      rfl
    · have hterminal : s.stream.terminal = false := by simpa using hopen
      simp [AsyncStream.resume, hterminal, hnewest]

theorem begun_path {k : Nat} (h : (session context tokenWrite).Path Uncancelled s₀ more s)
    (hregular : s₀.Regular) (hbegun : s₀.Begun k) (hopen : .finish ∉ s.produced.dropLast) :
    s.Begun k := by
  induction h with
  | refl => exact hbegun
  | step before hl hstep ih =>
    have hproduced := produced_path (.step .refl hl hstep)
    have hbefore := ih (finish_notMem_of_append (hproduced ▸ hopen))
    have hregular' := before.invariant hregular fun _ _ _ hs hl hs' => regular_step hs hl hs'
    exact begun_step hregular' hbefore hl hstep hopen

/-- **The update received first** is the oldest of the 64 that were the newest when `next()` was
    called first. -/
theorem received_head (h : (session context tokenWrite).Run Uncancelled ls s)
    (hopen : .finish ∉ s.produced.dropLast) (hended : s.ended = true)
    (hsome : updates s.produced ≠ []) :
    s.received.head? = (updates s.produced)[(unread ls).length - 64]? := by
  obtain ⟨hfree, hall | ⟨rest, hsplit⟩⟩ := beforeNext_split ls
  · -- without a `next()`, none has returned
    rw [← hall] at hfree
    rw [(unread_pending h hfree hopen).ended] at hended
    cases hended
  · have hover := (run_regular h).exhausted hended
    rw [hsplit] at h
    obtain ⟨s₁, hfirst, hmore⟩ := h.split
    obtain ⟨s₂, hl, hstep, hrest⟩ := hmore.uncons
    have hunread : unread ls = updates s₁.produced := congrArg updates (produced_path hfirst).symm
    have hproduced : s.produced = s₁.produced ++ events (.next :: rest) := produced_path hmore
    have hnothing := unread_pending hfirst hfree (finish_notMem_of_append (hproduced ▸ hopen))
    have hnext : s₁.step tokenWrite .next = some s₂ := hstep
    have hregular : s₂.Regular := regular_step (run_regular hfirst) hl hnext
    have hbegun : s₂.Begun ((updates s₁.produced).length - 64) := by
      cases effect_of_step hl hnext
      exact begun_next hnothing
    rw [hunread]
    cases begun_path hrest hregular hbegun hopen with
    | given u hgiven hnumber =>
      have hsame : s.given = s.received := by
        unfold Session.given
        rw [(List.append_eq_nil_iff.1 hover.2).1, List.append_nil]
      rw [hnumber, ← hgiven, hsame]
    | waiting _ _ _ hnone => exact absurd hnone hsome

end Session

/-! ## 6. What the documentation says is delivered -/

/-- The shape of a word of the protocol. -/
theorem protocol_word {w : List UpdateState} (h : w ∈ protocol) :
    ∃ k last, w = .preparing :: List.replicate k .syncing ++ last ∧
      (last = [] ∨ ∃ s : UpdateState, s.isTerminal = true ∧ last = [s]) := by
  obtain ⟨start, hstart, last, hlast, rfl⟩ := Language.mem_mul.1 h
  obtain ⟨first, hfirst, middle, hmiddle, rfl⟩ := Language.mem_mul.1 hstart
  obtain ⟨words, rfl, hwords⟩ := Language.mem_kstar.1 hmiddle
  have hfirst : first = [.preparing] := hfirst
  have hwords : words = List.replicate words.length [.syncing] :=
    List.eq_replicate_of_mem hwords
  refine ⟨words.length, last, ?_, ?_⟩
  · rw [hfirst, hwords, List.length_replicate, List.flatten_replicate_singleton]
    rfl
  · rcases hlast with hone | hterminal
    · exact .inl hone
    · exact .inr hterminal

/-- `.preparing` is only at the start of a word. -/
theorem eq_zero_of_preparing {w : List UpdateState} (h : w ∈ protocol) {i : Nat}
    (hi : w[i]? = some .preparing) : i = 0 := by
  obtain ⟨k, last, rfl, hlast⟩ := protocol_word h
  cases i with
  | zero => rfl
  | succ i =>
    have hmem : .preparing ∈ List.replicate k .syncing ++ last := List.mem_of_getElem? hi
    rcases List.mem_append.1 hmem with hmem | hmem
    · cases List.eq_of_mem_replicate hmem
    · rcases hlast with rfl | ⟨s, hs, rfl⟩
      · cases hmem
      · cases List.mem_singleton.1 hmem
        cases hs

/-- A terminal update of a word is its last. -/
theorem getLast_of_terminal {l : List Update} (h : l.map Update.state ∈ protocol) {u : Update}
    (hu : u ∈ l) (hterminal : u.state.isTerminal = true) : l.getLast? = some u := by
  obtain ⟨k, last, hword, hlast⟩ := protocol_word h
  obtain ⟨l₁, l₂, rfl, hstart, hend⟩ := List.map_eq_append_iff.1 hword
  rcases List.mem_append.1 hu with hu | hu
  · have hmem : u.state ∈ .preparing :: List.replicate k .syncing :=
      hstart ▸ List.mem_map_of_mem hu
    rcases List.mem_cons.1 hmem with hstate | hstate
    · rw [hstate] at hterminal
      cases hterminal
    · rw [List.eq_of_mem_replicate hstate] at hterminal
      cases hterminal
  · rcases hlast with rfl | ⟨s, -, rfl⟩
    · rw [List.map_eq_nil_iff.1 hend] at hu
      cases hu
    · obtain ⟨v, rfl, -⟩ := List.map_eq_singleton_iff.1 hend
      cases List.mem_singleton.1 hu
      exact List.getLast?_concat

/-- **What `Updates` says of its elements**: the initial `.preparing` comes first, a terminal update
    comes last, and nothing is reordered. -/
def Session.Delivered (s : Session) : Prop :=
  (∃ u, u.state = .preparing ∧ (updates s.produced).head? = some u ∧
    s.received.head? = some u) ∧
  (∀ u ∈ updates s.produced, u.state.isTerminal = true → s.received.getLast? = some u) ∧
  s.received.Sublist (updates s.produced)

/-- **A consumer receives what `Updates` says just if it is not late.** For every source and kernel,
    every run, and every pace of a consumer that iterates until `next()` returns `nil`: at most 64
    updates are yielded before `next()` is called first. -/
theorem delivered_iff (E : Environment) (n : Nat) (env : E.State) (progress : Progress)
    (context : Context) (tokenWrite : Bool) (ls : List Session.Label) (s : Session)
    (hsession : (session context tokenWrite).Run Session.Uncancelled ls s)
    (hrun : s.produced = (run E n env progress).2.trace) (hend : s.ended = true) :
    s.Delivered ↔ (Session.unread ls).length ≤ 64 := by
  have horder : s.InOrder := by
    refine hsession.invariant ⟨Session.regular_start context, fun _ => List.Sublist.refl _,
      fun _ => rfl⟩ ?_
    exact fun _ _ _ hs hl hstep => Session.inOrder_step hs hl hstep
  obtain ⟨hterminal, hempty⟩ := horder.regular.exhausted hend
  -- the stream has ended, so the run has
  have hfinish : .finish ∈ (run E n env progress).2.trace :=
    hrun ▸ horder.regular.finishes.1 hterminal
  have hended : Ended s.produced := by
    rw [hrun]
    exact (leaves_returned (run_course n env progress)
      fun _ hcourse => absurd hfinish hcourse.unfinished).2
  obtain ⟨before, htrace, hbefore⟩ := hended.closing
  have hopen : .finish ∉ s.produced.dropLast := by
    rw [htrace, List.dropLast_concat]
    exact hbefore
  have hword : (updates s.produced).map Update.state ∈ protocol := hended.word
  obtain ⟨k, last, hstates, -⟩ := protocol_word hword
  obtain ⟨u, rest, hupdates, hu, -⟩ := List.map_eq_cons_iff.1 hstates
  have hhead := Session.received_head hsession hopen hend (by rw [hupdates]; nofun)
  constructor
  · rintro ⟨⟨v, hv, -, hreceived⟩, -, -⟩
    rw [hreceived] at hhead
    have hzero : (Session.unread ls).length - 64 = 0 := by
      refine eq_zero_of_preparing hword ?_
      rw [List.getElem?_map, ← hhead, Option.map_some, hv]
    omega
  · intro hearly
    have hnone : s.received ++ s.stream.inHand = s.received := by
      rw [hempty, List.append_nil]
    have hsublist := horder.sublist hopen
    have hlast := horder.last hopen
    rw [hnone] at hsublist hlast
    refine ⟨⟨u, hu, by rw [hupdates]; rfl, ?_⟩, fun v hv hterminal => ?_, hsublist⟩
    · rw [hhead, Nat.sub_eq_zero_of_le hearly, hupdates]
      rfl
    · rw [hlast]
      exact getLast_of_terminal hword hv hterminal

/-- The steps of a consumer that comes when the run is over, and calls `next()` `n` times. -/
def lateLabels (trace : List Event) (n : Nat) : List Session.Label :=
  trace.map .produce ++ (List.replicate n [.next, .returned]).flatten

theorem late_produced {context : Context} {tokenWrite : Bool} {trace : List Event} {n : Nat}
    {s : Session}
    (h : (session context tokenWrite).Run Session.Uncancelled (lateLabels trace n) s) :
    s.produced = trace := by
  have hconsumer : Session.events (List.replicate n [.next, .returned]).flatten = [] := by
    refine List.filterMap_eq_nil_iff.2 fun l hl => ?_
    obtain ⟨pair, hpair, hmem⟩ := List.mem_flatten.1 hl
    rw [List.eq_of_mem_replicate hpair] at hmem
    rcases List.mem_pair.1 hmem with rfl | rfl
    · rfl
    · rfl
  have hevents : Session.events (lateLabels trace n) = trace := by
    unfold Session.events at hconsumer
    unfold Session.events lateLabels
    rw [List.filterMap_append, List.filterMap_map, hconsumer, List.append_nil]
    exact List.filterMap_some
  exact (Session.produced_path h).trans ((List.nil_append _).trans hevents)

/-- Such a consumer of the two updates of a chainstate at its source's tip. -/
theorem delivered_idle :
    ∃ s, (session .create true).Run Session.Uncancelled (lateLabels idleTrace 3) s ∧
      s.Delivered := by
  have hexec : (((session .create true).exec Session.Uncancelled (lateLabels idleTrace 3)).map
      Session.ended) = some true := by decide
  obtain ⟨s, hs, hend⟩ := Option.map_eq_some_iff.1 hexec
  have hsession := Machine.exec_run hs
  refine ⟨s, hsession, ?_⟩
  exact (delivered_iff idleEnv 1 () ⟨0, 0⟩ .create true _ s hsession
    (late_produced hsession) hend).2 (by decide)

/-- A chainstate that connects one block after another, up to its source's tip. -/
def climbingEnv (top : Nat) : Environment where
  State := Nat
  bestEntry height := ⟨Hash.repeating 1, height, height⟩
  isCancelled s := (false, s)
  bestTip s := (.ok ⟨Hash.repeating 1, top, none⟩, s)
  blockHash _ s := (.ok (Hash.repeating 1).val, s)
  block _ s := (.ok ⟨⟨Hash.repeating 1, Hash.repeating 1, 0, 0⟩, []⟩, s)
  processBlock _ height := ((true, true), height + 1)
  errorDescription _ := none
  interpolation _ := ""

/-- What the producer does on 63 blocks: `.preparing`, 63 times `.syncing`, `.finished`. -/
def climbingTrace : List Event := (run (climbingEnv 63) 64 (0 : Nat) ⟨0, 0⟩).2.trace

/-- **A consumer that calls `next()` after 65 updates does not receive `.preparing`.** -/
theorem preparing_dropped :
    ∃ s, (session .create true).Run Session.Uncancelled (lateLabels climbingTrace 65) s ∧
      s.produced = (run (climbingEnv 63) 64 (0 : Nat) ⟨0, 0⟩).2.trace ∧ s.ended = true ∧
      s.received.map Update.state = List.replicate 63 .syncing ++ [.finished] ∧
      ¬s.Delivered := by
  have hexec : (((session .create true).exec Session.Uncancelled (lateLabels climbingTrace 65)).map
      fun s => (s.ended, s.received.map Update.state)) =
        some (true, List.replicate 63 .syncing ++ [.finished]) := by decide +kernel
  obtain ⟨s, hs, hend⟩ := Option.map_eq_some_iff.1 hexec
  obtain ⟨hended, hreceived⟩ := Prod.mk.inj hend
  have hsession := Machine.exec_run hs
  refine ⟨s, hsession, late_produced hsession, hended, hreceived, ?_⟩
  rintro ⟨⟨u, hu, -, hhead⟩, -, -⟩
  have hfirst := congrArg List.head? hreceived
  rw [List.head?_map, hhead, Option.map_some, hu] at hfirst
  cases hfirst

end SwiftBitcoinKernel
