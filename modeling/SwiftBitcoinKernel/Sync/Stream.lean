/-
  File:      SwiftBitcoinKernel/Sync/Stream.lean
  Subject:   The stream of a sync run, and the `Context` it leaves behind.

  `AsyncIterator.init` puts an `AsyncStream` between the producer and the consumer, with a
  termination handler that cancels the producer and interrupts the context. The handler runs once,
  whoever ends the stream.

  * `AsyncStream`, `Session`, `Session.step` -- the stream's storage, the producer's calls on it,
    the consumer's `next()`, which may be suspended there, and `shutdown()`;
  * `Undisturbed`, `Settled` -- sessions that nobody cancels, and what holds in them: the handler
    waits for `finish()`, and has run after it;
  * `interrupted_after_run`, `create_after_run`, `importBlocks_after_run` -- what a run that ended
    by itself leaves to the next user of its context;
  * `context_kept_iff` -- after a run that ended by itself the context is what it was just if it had
    been interrupted before;
  * `finished_run_interrupts` -- the second use of a shared context that fails for it.
-/
import SwiftBitcoinKernel.Kernel.Interrupt
import SwiftBitcoinKernel.Logic.Transition
import SwiftBitcoinKernel.Sync.Protocol

namespace SwiftBitcoinKernel

open Logic

/-! ## 1. The stream -/

/-- The consumer's `next()`: not called, suspended, or resumed with an answer it has yet to return.
    -/
inductive NextCall where
  | idle
  | suspended
  | resumed (answer : Option Update)
  deriving DecidableEq, Repr

/-- `AsyncStream<Update>._Storage`; its one consumer has at most one continuation there. -/
structure AsyncStream where
  pending : List Update
  /-- `onTermination` is set. -/
  onTermination : Bool
  terminal : Bool
  call : NextCall
  deriving DecidableEq, Repr

/-- `.bufferingNewest(limit)`: a full buffer drops its oldest element. -/
def bufferingNewest (limit : Nat) (pending : List Update) (update : Update) : List Update :=
  if pending.length < limit then pending ++ [update]
  else if limit > 0 then pending.drop 1 ++ [update]
  else pending

namespace AsyncStream

/-- A suspended `next()` is resumed where there is something for it: the oldest update that is
    pending, or `nil` where nothing is and the stream has ended. -/
def resume (stream : AsyncStream) : AsyncStream :=
  if stream.call = .suspended ∧ (stream.pending ≠ [] ∨ stream.terminal = true) then
    { stream with call := .resumed stream.pending.head?, pending := stream.pending.tail }
  else stream

/-- `yield(_:)`: into the buffer, and on to a `next()` that waits. -/
def yield (update : Update) (stream : AsyncStream) : AsyncStream :=
  if stream.terminal then stream.resume
  else { stream with pending := bufferingNewest 64 stream.pending update }.resume

/-- `finish()`, without its handler. -/
def finish (stream : AsyncStream) : AsyncStream := { stream with terminal := true }.resume

/-- `next()` is called, and suspends unless there is something for it. -/
def beginNext (stream : AsyncStream) : Option AsyncStream :=
  match stream.call with
  | .idle => some { stream with call := .suspended }.resume
  | .suspended | .resumed _ => none

end AsyncStream

/-- One iterator: its stream, its producer's task, the context it was given. `produced` and
    `received` are the calls of the producer so far, and the updates that the consumer's calls of
    `next()` have returned; `ended`, that one of them has returned `nil`. -/
structure Session where
  context : Context
  stream : AsyncStream
  cancelled : Bool
  produced : List Event
  received : List Update
  ended : Bool

/-- `AsyncIterator.init(storage:)`, with the handler in place before the producer's first call: the
    source starts the task first, and sets the handler in the statement after the next. -/
def Session.start (context : Context) : Session :=
  ⟨context, ⟨[], true, false, .idle⟩, false, [], [], false⟩

/-- The handler: `task.cancel(); _ = context.interrupt()`. -/
def Session.terminated (tokenWrite : Bool) (s : Session) : Session :=
  { s with cancelled := true, context := (s.context.interrupt tokenWrite).2 }

/-- The storage hands its handler over once. -/
def Session.runHandler (tokenWrite : Bool) (s : Session) : Session :=
  if s.stream.onTermination then
    { s with stream := { s.stream with onTermination := false } }.terminated tokenWrite
  else s

/-- `continuation.yield(_:)`. -/
def Session.yield (update : Update) (s : Session) : Session :=
  { s with stream := s.stream.yield update }

/-- `continuation.finish()`. -/
def Session.finish (tokenWrite : Bool) (s : Session) : Session :=
  { s with stream := s.stream.finish }.runHandler tokenWrite

/-- `cancel()`: the consumer's task was cancelled, or its iterator is gone. -/
def Session.cancel (tokenWrite : Bool) (s : Session) : Session :=
  (s.runHandler tokenWrite).finish tokenWrite

/-- A call of the producer's. -/
def Session.produce (tokenWrite : Bool) (e : Event) (s : Session) : Session :=
  match e with
  | .yield update _ => { s.yield update with produced := s.produced ++ [e] }
  | .finish => { s.finish tokenWrite with produced := s.produced ++ [e] }
  | _ => { s with produced := s.produced ++ [e] }

/-- `next()` returns its answer. -/
def Session.endNext (s : Session) : Option Session :=
  match s.stream.call with
  | .resumed answer =>
    some { s with
      stream := { s.stream with call := .idle }
      received := s.received ++ answer.toList
      ended := s.ended || answer.isNone }
  | .idle | .suspended => none

/-- What can happen to a session. -/
inductive Session.Label where
  | produce (e : Event)
  /-- `next()` is called. -/
  | next
  /-- `next()` returns. -/
  | returned
  | cancel
  /-- `BlockchainSync.shutdown()`. -/
  | shutdown

/-- One step. -/
def Session.step (tokenWrite : Bool) (s : Session) : Session.Label → Option Session
  | .produce e => some (s.produce tokenWrite e)
  | .next => s.stream.beginNext.map fun stream => { s with stream := stream }
  | .returned => s.endNext
  | .cancel => some (s.cancel tokenWrite)
  | .shutdown => some (s.terminated tokenWrite)

/-- The session of an iterator made with `context`. -/
def session (context : Context) (tokenWrite : Bool) : Machine Session Session.Label where
  start := .start context
  step := Session.step tokenWrite

/-- The step is neither a cancellation nor a shutdown. -/
def Session.Undisturbed (_ : Session) : Session.Label → Prop
  | .produce _ | .next | .returned => True
  | .cancel | .shutdown => False

instance (s : Session) (l : Session.Label) : Decidable (s.Undisturbed l) := by
  cases l <;> (unfold Session.Undisturbed; infer_instance)

/-! ## 2. Sessions that nobody cancels -/

/-- The handler waits as long as the producer has not called `finish()`, and has run since. -/
structure Session.Settled (context : Context) (s : Session) : Prop where
  before : .finish ∉ s.produced → s.context = context ∧ s.stream.onTermination = true
  after : .finish ∈ s.produced → s.context.isInterrupted = true ∧ s.stream.onTermination = false

theorem settled_start (context : Context) : (Session.start context).Settled context :=
  ⟨fun _ => ⟨rfl, rfl⟩, fun h => nomatch h⟩

/-- A step that touches neither the context nor the handler, and calls no `finish()`. -/
theorem Session.Settled.frame {context : Context} {s s' : Session} (h : s.Settled context)
    (hcontext : s'.context = s.context)
    (hhandler : s'.stream.onTermination = s.stream.onTermination)
    (hproduced : .finish ∈ s'.produced ↔ .finish ∈ s.produced) : s'.Settled context := by
  refine ⟨fun hf => ?_, fun hf => ?_⟩
  · rw [hcontext, hhandler]
    exact h.before fun h' => hf (hproduced.2 h')
  · rw [hcontext, hhandler]
    exact h.after (hproduced.1 hf)

namespace AsyncStream

variable (stream : AsyncStream)

@[simp] theorem resume_onTermination : stream.resume.onTermination = stream.onTermination := by
  unfold resume
  split <;> rfl

@[simp] theorem yield_onTermination (update : Update) :
    (stream.yield update).onTermination = stream.onTermination := by
  unfold AsyncStream.yield
  split <;> simp

@[simp] theorem finish_onTermination : stream.finish.onTermination = stream.onTermination := by
  simp [AsyncStream.finish]

theorem beginNext_onTermination {stream stream' : AsyncStream}
    (h : stream.beginNext = some stream') : stream'.onTermination = stream.onTermination := by
  unfold beginNext at h
  split at h
  · cases h
    simp
  · cases h
  · cases h

end AsyncStream

/-- `finish()` runs the handler, the first time. -/
theorem Session.Settled.finish {context : Context} {s : Session} (tokenWrite : Bool)
    (h : s.Settled context) :
    (s.finish tokenWrite).context.isInterrupted = true ∧
      (s.finish tokenWrite).stream.onTermination = false := by
  by_cases hf : .finish ∈ s.produced
  · obtain ⟨hflag, hoff⟩ := h.after hf
    simp [Session.finish, Session.runHandler, hoff, hflag]
  · obtain ⟨-, hon⟩ := h.before hf
    simp [Session.finish, Session.runHandler, Session.terminated, hon]

theorem settled_produce {context : Context} {s : Session} (tokenWrite : Bool) (e : Event)
    (h : s.Settled context) : (s.produce tokenWrite e).Settled context := by
  cases e with
  | finish =>
    refine ⟨fun hf => absurd ?_ hf, fun _ => h.finish tokenWrite⟩
    simp [Session.produce]
  | yield update progress =>
    exact h.frame rfl (s.stream.yield_onTermination update) (by simp [Session.produce])
  | _ => exact h.frame rfl rfl (by simp [Session.produce])

theorem settled_step {context : Context} {tokenWrite : Bool} {s s' : Session} {l : Session.Label}
    (h : s.Settled context) (hl : s.Undisturbed l) (hstep : s.step tokenWrite l = some s') :
    s'.Settled context := by
  cases l with
  | produce e =>
    cases hstep
    exact settled_produce tokenWrite e h
  | next =>
    obtain ⟨stream, hcall, rfl⟩ := Option.map_eq_some_iff.1 hstep
    exact h.frame rfl (AsyncStream.beginNext_onTermination hcall) Iff.rfl
  | returned =>
    have hreturned : s.endNext = some s' := hstep
    unfold Session.endNext at hreturned
    split at hreturned
    · cases hreturned
      exact h.frame rfl rfl Iff.rfl
    · cases hreturned
    · cases hreturned
  | cancel => exact hl.elim
  | shutdown => exact hl.elim

/-- **Every session that nobody cancels is settled.** -/
theorem session_settled {context : Context} {tokenWrite : Bool} {ls : List Session.Label}
    {s : Session} (h : (session context tokenWrite).Run Session.Undisturbed ls s) :
    s.Settled context :=
  h.invariant (settled_start context) fun _ _ _ hs hl hstep => settled_step hs hl hstep

/-! ## 3. The context after a run -/

/-- A run with a terminal update has returned, and called `finish()`. -/
theorem finish_of_terminal {E : Environment} {n : Nat} {env : E.State} {progress : Progress}
    (h : ∃ u ∈ updates (run E n env progress).2.trace, u.state.isTerminal = true) :
    .finish ∈ (run E n env progress).2.trace := by
  obtain ⟨u, hu, hterminal⟩ := h
  have hended := leaves_returned (run_course n env progress) fun _ hcourse => by
    have hnot := hcourse.not_terminal hu
    rw [hterminal] at hnot
    cases hnot
  obtain ⟨before, htrace, -⟩ := hended.2.closing
  rw [htrace]
  exact List.mem_append_right _ (List.mem_singleton.2 rfl)

section AfterRun

variable {E : Environment} {n : Nat} {env : E.State} {progress : Progress} {context : Context}
  {tokenWrite : Bool} {ls : List Session.Label} {s : Session}

/-- A run that ends by itself interrupts its context. -/
theorem interrupted_after_run
    (hsession : (session context tokenWrite).Run Session.Undisturbed ls s)
    (hrun : s.produced = (run E n env progress).2.trace)
    (hself : ∃ u ∈ updates s.produced, u.state.isTerminal = true) :
    s.context.isInterrupted = true := by
  rw [hrun] at hself
  have hfinish : .finish ∈ s.produced := hrun ▸ finish_of_terminal hself
  exact ((session_settled hsession).after hfinish).1

/-- No manager can be created on that context any more. -/
theorem create_after_run (hsession : (session context tokenWrite).Run Session.Undisturbed ls s)
    (hrun : s.produced = (run E n env progress).2.trace)
    (hself : ∃ u ∈ updates s.produced, u.state.isTerminal = true)
    (options : ChainstateLoadOptions) (d : Datadir) :
    ChainstateManager.create s.context options d = .error .chainstateManagerCreationFailed :=
  create_interrupted (interrupted_after_run hsession hrun hself) options d

/-- And an import of a block file does nothing. -/
theorem importBlocks_after_run {σ : Type}
    (hsession : (session context tokenWrite).Run Session.Undisturbed ls s)
    (hrun : s.produced = (run E n env progress).2.trace)
    (hself : ∃ u ∈ updates s.produced, u.state.isTerminal = true) (I : Importer σ)
    (files : List (Option (List (σ → σ)))) (k : σ) (hindexed : I.blockfilesIndexed k = true)
    (hfile : ∃ file, some file ∈ files) : importBlocks s.context I files k = (true, k) := by
  refine importBlocks_interrupted (interrupted_after_run hsession hrun hself) I files k ?_
  rw [if_pos hindexed]
  exact hfile

end AfterRun

/-- **A run that ends by itself keeps the context just if it was interrupted already.** For every
    source and kernel, every pace of the consumer's, and every run that reaches a terminal update
    while neither its consumer nor a `shutdown()` cancels it. The handler is in place from the
    start (`Session.start`): a producer that calls `finish()` before `AsyncIterator.init` has set
    it is not among the sessions. -/
theorem context_kept_iff (E : Environment) (n : Nat) (env : E.State) (progress : Progress)
    (context : Context) (tokenWrite : Bool) (ls : List Session.Label) (s : Session)
    (hsession : (session context tokenWrite).Run Session.Undisturbed ls s)
    (hrun : s.produced = (run E n env progress).2.trace)
    (hself : ∃ u ∈ updates s.produced, u.state.isTerminal = true) :
    s.context = context ↔ context.isInterrupted = true := by
  have hflag := interrupted_after_run hsession hrun hself
  constructor
  · intro heq
    rw [← heq]
    exact hflag
  · intro hbefore
    exact eq_of_isInterrupted hflag hbefore

/-- A chainstate at its source's tip. -/
def idleEnv : Environment where
  State := Unit
  bestEntry _ := ⟨Hash.repeating 1, 0, 0⟩
  isCancelled s := (false, s)
  bestTip s := (.ok ⟨Hash.repeating 1, 0, none⟩, s)
  blockHash _ s := (.error .notFound, s)
  block _ s := (.error .notFound, s)
  processBlock _ s := ((true, true), s)
  errorDescription _ := none
  interpolation _ := ""

/-- What the producer does in its run: `.preparing`, `.finished`, `finish()`. -/
def idleTrace : List Event := (run idleEnv 1 () ⟨0, 0⟩).2.trace

/-- A data directory that opens, unless the flag is set. -/
def soundInitialization : Initialization where
  loadBlockIndex interrupted := !interrupted
  blockIndexEmpty := true
  hasGenesis := false
  havePruned := false
  blockfilesIndexed := true
  loadGenesisBlock := true
  chainstates := []

/-- The same, for the whole creation. -/
def soundDatadir : Datadir where
  opens := true
  snapshotChainstate := false
  deleteChainstate := true
  first := soundInitialization
  maybeValidateSnapshot := .skipped
  validatedSnapshotCleanup := true
  second := soundInitialization
  activateBestChains _ := true

theorem context_kept_interrupted :
    ∃ s, (session ⟨⟨true⟩⟩ true).Run Session.Undisturbed (idleTrace.map .produce) s ∧
      s.context = ⟨⟨true⟩⟩ := by
  have hexec : ((session ⟨⟨true⟩⟩ true).exec Session.Undisturbed (idleTrace.map .produce)).isSome =
      true := by decide
  obtain ⟨s, hs⟩ := Option.isSome_iff_exists.1 hexec
  have hproduced : s.produced = idleTrace := by
    cases hs
    rfl
  refine ⟨s, Machine.exec_run hs, ?_⟩
  refine (context_kept_iff idleEnv 1 () ⟨0, 0⟩ ⟨⟨true⟩⟩ true (idleTrace.map .produce) s
    (Machine.exec_run hs) hproduced ?_).2 rfl
  rw [hproduced]
  decide

/-- **After a run that reached `.finished` by itself, a new context is interrupted**, and a data
    directory that would open on it before does not any more. -/
theorem finished_run_interrupts :
    ∃ s, (session .create true).Run Session.Undisturbed (idleTrace.map .produce) s ∧
      s.produced = (run idleEnv 1 () ⟨0, 0⟩).2.trace ∧
      (updates s.produced).map Update.state = [.preparing, .finished] ∧
      Context.create.isInterrupted = false ∧ s.context.isInterrupted = true ∧
      ChainstateManager.create .create ⟨false, false, false⟩ soundDatadir = .ok () ∧
      ChainstateManager.create s.context ⟨false, false, false⟩ soundDatadir =
        .error .chainstateManagerCreationFailed := by
  have hexec : ((session .create true).exec Session.Undisturbed (idleTrace.map .produce)).isSome =
      true := by decide
  obtain ⟨s, hs⟩ := Option.isSome_iff_exists.1 hexec
  refine ⟨s, Machine.exec_run hs, ?_⟩
  cases hs
  exact ⟨rfl, rfl, rfl, rfl, rfl, rfl⟩

end SwiftBitcoinKernel
