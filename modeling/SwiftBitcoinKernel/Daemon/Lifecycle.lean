/-
  File:      SwiftBitcoinKernel/Daemon/Lifecycle.lean
  Subject:   `Daemon.start`, the daemon's thread and `waitUntilStopped`: one run after another.

  The daemon runs inside the process: `bitcoind_main` is called on a thread of its own, returns
  after a shutdown, and can be called again. `isRunning` keeps two calls apart; the semaphore
  `finished` is signalled behind each.

  * `Lifecycle`, `Lifecycle.Label`, `Lifecycle.step` -- the two globals and every thread, one step
    for each access to a global;
  * `Effect`, `effect_of_step` -- when a step is enabled, and what it does;
  * `Inside` -- a run is inside `bitcoind_main`; `current` is that run;
  * `Exclusive`, `exclusive_step` -- `isRunning` does what it is for: a run whose thread has not
    cleared the flag is the last one started;
  * `Exclusive.current_eq` -- so at most one run is inside;
  * `inside_step` -- a run that is inside stays so until its `bitcoind_main` returns.
-/
import SwiftBitcoinKernel.Logic.Transition

namespace SwiftBitcoinKernel

open Logic

/-! ## 1. The machine -/

/-- Where the thread of a run stands. -/
inductive RunPhase where
  /-- Detached; not yet in `bitcoind_main`. -/
  | launched
  | inMain
  /-- In `bitcoind_main`, and the `stop` RPC has been served. -/
  | stopping
  /-- `bitcoind_main` has returned, and its `NodeContext` is gone. -/
  | returned
  /-- Past `isRunning.withLock { $0 = false }`. -/
  | cleared
  /-- Past `finished.signal()`. -/
  | signalled
  deriving DecidableEq, Repr

/-- Inside `bitcoind_main`. -/
def RunPhase.inside : RunPhase → Bool
  | .inMain | .stopping => true
  | .launched | .returned | .cleared | .signalled => false

/-- The thread has given `isRunning` back. -/
def RunPhase.over : RunPhase → Bool
  | .cleared | .signalled => true
  | .launched | .inMain | .stopping | .returned => false

/-- Where the `start()` call that holds `isRunning` stands. -/
inductive StartPhase where
  /-- In `while finished.wait(timeout: .now()) == .success {}`. -/
  | draining
  /-- Behind it, before `Thread.detachNewThread`. -/
  | drained
  deriving DecidableEq, Repr

/-- A `waitUntilStopped()` call, with the run that was inside `bitcoind_main` when it began. -/
structure Wait where
  watching : Option Nat
  returned : Bool
  deriving DecidableEq, Repr

/-- The globals of `Daemon` and the threads that use them. Runs are numbered as they are started. -/
structure Lifecycle where
  isRunning : Bool
  /-- The value of the semaphore. -/
  finished : Nat
  starting : Option StartPhase
  runs : List RunPhase
  waits : List Wait
  deriving DecidableEq, Repr

/-- The steps. -/
inductive Lifecycle.Label where
  /-- `start()` takes the lock; a second one returns without effect. -/
  | start
  /-- A round of the draining loop. -/
  | drain
  /-- `Thread.detachNewThread`, and `start()` returns. -/
  | detach
  | enterMain (r : Nat)
  /-- The `stop` RPC. -/
  | stop (r : Nat)
  | mainReturn (r : Nat)
  /-- `isRunning.withLock { $0 = false }`. -/
  | clear (r : Nat)
  /-- `finished.signal()`. -/
  | signal (r : Nat)
  /-- `waitUntilStopped()` is called. -/
  | wait
  /-- Its `finished.wait()` returns. -/
  | wake (w : Nat)
  deriving DecidableEq, Repr

namespace Lifecycle

/-- Before the first `start()`. -/
def initial : Lifecycle := ⟨false, 0, none, [], []⟩

/-- The run inside `bitcoind_main`. -/
def current (s : Lifecycle) : Option Nat := s.runs.findIdx? RunPhase.inside

/-- The thread of run `r` moves on, if it stands at `now`. -/
def thread (s : Lifecycle) (r : Nat) (now next : RunPhase) : Option Lifecycle :=
  if s.runs[r]? = some now then some { s with runs := s.runs.set r next } else none

/-- What a step does, where it is enabled. -/
def step (s : Lifecycle) : Label → Option Lifecycle
  | .start =>
    if s.isRunning then some s
    else some { s with isRunning := true, starting := some .draining }
  | .drain =>
    if s.starting = some .draining then
      if s.finished = 0 then some { s with starting := some .drained }
      else some { s with finished := s.finished - 1 }
    else none
  | .detach =>
    if s.starting = some .drained then
      some { s with starting := none, runs := s.runs ++ [.launched] }
    else none
  | .enterMain r => s.thread r .launched .inMain
  | .stop r => s.thread r .inMain .stopping
  | .mainReturn r =>
    -- a failed start-up returns without a `stop`
    (s.thread r .stopping .returned).or (s.thread r .inMain .returned)
  | .clear r => (s.thread r .returned .cleared).map fun s => { s with isRunning := false }
  | .signal r => (s.thread r .cleared .signalled).map fun s => { s with finished := s.finished + 1 }
  | .wait => some { s with waits := s.waits ++ [⟨s.current, false⟩] }
  | .wake w =>
    match s.waits[w]? with
    | some ⟨watching, false⟩ =>
      if s.finished = 0 then none
      else some { s with
        finished := s.finished - 1
        waits := s.waits.set w ⟨watching, true⟩ }
    | _ => none

end Lifecycle

/-- The lifecycle, for any interleaving of its threads. -/
def lifecycle : Machine Lifecycle Lifecycle.Label := ⟨.initial, Lifecycle.step⟩

namespace Lifecycle

/-- Run `r` is inside `bitcoind_main`. -/
def Inside (s : Lifecycle) (r : Nat) : Prop := ∃ phase ∈ s.runs[r]?, phase.inside = true

instance (s : Lifecycle) (r : Nat) : Decidable (s.Inside r) :=
  inferInstanceAs (Decidable (∃ phase ∈ s.runs[r]?, phase.inside = true))

variable {s s' : Lifecycle} {a : Label} {r i : Nat} {now next phase : RunPhase}

/-! ## 2. What a step does -/

theorem thread_some (h : s.thread r now next = some s') :
    s.runs[r]? = some now ∧ s' = { s with runs := s.runs.set r next } := by
  unfold thread at h
  split at h
  · rename_i hr
    cases h
    exact ⟨hr, rfl⟩
  · cases h

/-- What the return of `bitcoind_main` does. -/
theorem step_mainReturn (h : s.step (.mainReturn r) = some s') :
    s.Inside r ∧ s' = { s with runs := s.runs.set r .returned } := by
  rcases Option.or_eq_some_iff.1 h with hstop | ⟨_, hmain⟩
  · obtain ⟨hr, rfl⟩ := thread_some hstop
    exact ⟨⟨_, hr, rfl⟩, rfl⟩
  · obtain ⟨hr, rfl⟩ := thread_some hmain
    exact ⟨⟨_, hr, rfl⟩, rfl⟩

/-- The steps, each with what enables it. -/
inductive Effect (s : Lifecycle) : Label → Lifecycle → Prop where
  | refused (hrunning : s.isRunning = true) : Effect s .start s
  | start (hidle : ¬s.isRunning = true) :
      Effect s .start { s with isRunning := true, starting := some .draining }
  | drained (hstarting : s.starting = some .draining) (hzero : s.finished = 0) :
      Effect s .drain { s with starting := some .drained }
  | drain (hstarting : s.starting = some .draining) (hsignal : s.finished ≠ 0) :
      Effect s .drain { s with finished := s.finished - 1 }
  | detach (hstarting : s.starting = some .drained) :
      Effect s .detach { s with starting := none, runs := s.runs ++ [.launched] }
  | enterMain {r : Nat} (hr : s.runs[r]? = some .launched) :
      Effect s (.enterMain r) { s with runs := s.runs.set r .inMain }
  | stop {r : Nat} (hr : s.runs[r]? = some .inMain) :
      Effect s (.stop r) { s with runs := s.runs.set r .stopping }
  | mainReturn {r : Nat} (hr : s.Inside r) :
      Effect s (.mainReturn r) { s with runs := s.runs.set r .returned }
  | clear {r : Nat} (hr : s.runs[r]? = some .returned) :
      Effect s (.clear r) { s with runs := s.runs.set r .cleared, isRunning := false }
  | signal {r : Nat} (hr : s.runs[r]? = some .cleared) :
      Effect s (.signal r)
        { s with runs := s.runs.set r .signalled, finished := s.finished + 1 }
  | wait : Effect s .wait { s with waits := s.waits ++ [⟨s.current, false⟩] }
  | wake {w : Nat} {watching : Option Nat} (hw : s.waits[w]? = some ⟨watching, false⟩)
      (hsignal : s.finished ≠ 0) :
      Effect s (.wake w)
        { s with finished := s.finished - 1, waits := s.waits.set w ⟨watching, true⟩ }

theorem effect_of_step (hstep : s.step a = some s') : Effect s a s' := by
  cases a with
  | start =>
    unfold step at hstep
    dsimp only at hstep
    split at hstep
    · rename_i hrunning
      cases hstep
      exact .refused hrunning
    · rename_i hidle
      cases hstep
      exact .start hidle
  | drain =>
    unfold step at hstep
    dsimp only at hstep
    split at hstep
    · rename_i hstarting
      split at hstep
      · rename_i hzero
        cases hstep
        exact .drained hstarting hzero
      · rename_i hsignal
        cases hstep
        exact .drain hstarting hsignal
    · cases hstep
  | detach =>
    unfold step at hstep
    dsimp only at hstep
    split at hstep
    · rename_i hstarting
      cases hstep
      exact .detach hstarting
    · cases hstep
  | enterMain r =>
    obtain ⟨hr, rfl⟩ := thread_some hstep
    exact .enterMain hr
  | stop r =>
    obtain ⟨hr, rfl⟩ := thread_some hstep
    exact .stop hr
  | mainReturn r =>
    obtain ⟨hr, rfl⟩ := step_mainReturn hstep
    exact .mainReturn hr
  | clear r =>
    obtain ⟨s₁, hthread, rfl⟩ := Option.map_eq_some_iff.1 hstep
    obtain ⟨hr, rfl⟩ := thread_some hthread
    exact .clear hr
  | signal r =>
    obtain ⟨s₁, hthread, rfl⟩ := Option.map_eq_some_iff.1 hstep
    obtain ⟨hr, rfl⟩ := thread_some hthread
    exact .signal hr
  | wait =>
    cases hstep
    exact .wait
  | wake w =>
    unfold step at hstep
    dsimp only at hstep
    split at hstep
    · rename_i hw
      split at hstep
      · cases hstep
      · rename_i hsignal
        cases hstep
        exact .wake hw hsignal
    · cases hstep

/-! ## 3. One run at a time -/

theorem inside_not_over (h : phase.inside = true) : phase.over = false := by
  cases phase with
  | inMain | stopping => rfl
  | launched | returned | cleared | signalled => cases h

/-- `isRunning` is held by the `start()` under way, or by the last run until its thread clears the
    flag; by then every earlier run is over. -/
structure Exclusive (s : Lifecycle) : Prop where
  running : ∀ r phase, s.runs[r]? = some phase → phase.over = false →
    s.isRunning = true ∧ s.starting = none ∧ r + 1 = s.runs.length
  starting : s.starting ≠ none → s.isRunning = true

theorem exclusive_initial : Exclusive .initial := ⟨nofun, nofun⟩

/-- A thread that moves on without taking `isRunning` back. -/
theorem exclusive_thread (h : s.Exclusive) (hr : s.runs[r]? = some now)
    (hover : next.over = false → now.over = false) :
    Exclusive { s with runs := s.runs.set r next } := by
  refine ⟨fun i phase hi hphase => ?_, h.starting⟩
  rw [List.length_set]
  rcases getElem?_of_set hi with ⟨rfl, rfl⟩ | ⟨_, hold⟩
  · exact h.running i now hr (hover hphase)
  · exact h.running i phase hold hphase

/-- The last run's thread clears `isRunning`. -/
theorem exclusive_clear (h : s.Exclusive) (hr : s.runs[r]? = some .returned) :
    Exclusive { s with runs := s.runs.set r .cleared, isRunning := false } := by
  obtain ⟨_, hstarting, hlast⟩ := h.running r _ hr rfl
  refine ⟨fun i phase hi hphase => ?_, fun hne => absurd hstarting hne⟩
  rcases getElem?_of_set hi with ⟨rfl, rfl⟩ | ⟨hir, hold⟩
  · cases hphase
  · have := (h.running i phase hold hphase).2.2
    omega

/-- The `start()` under way detaches the next run. -/
theorem exclusive_detach (h : s.Exclusive) (hstarting : s.starting = some .drained) :
    Exclusive { s with starting := none, runs := s.runs ++ [.launched] } := by
  refine ⟨fun i phase hi hphase => ?_, nofun⟩
  rcases getElem?_of_snoc hi with hold | ⟨rfl, -⟩
  · have hnone := (h.running i phase hold hphase).2.1
    rw [hstarting] at hnone
    cases hnone
  · refine ⟨h.starting (by rw [hstarting]; nofun), rfl, ?_⟩
    rw [List.length_append, List.length_singleton]

/-- While a `start()` drains, every run is over. -/
theorem Exclusive.over_of_starting (h : s.Exclusive) (hstarting : s.starting ≠ none)
    (hr : s.runs[r]? = some phase) : phase.over = true := by
  by_cases hover : phase.over = true
  · exact hover
  · exact absurd (h.running r phase hr (Bool.eq_false_iff.2 hover)).2.1 hstarting

/-- A round of the draining loop. -/
theorem exclusive_drain (h : s.Exclusive) (hstarting : s.starting ≠ none)
    {finished : Nat} {starting : Option StartPhase} :
    Exclusive { s with finished := finished, starting := starting } := by
  refine ⟨fun r phase hr hphase => ?_, fun _ => h.starting hstarting⟩
  rw [h.over_of_starting hstarting hr] at hphase
  cases hphase

/-- **`isRunning` keeps the runs apart.** -/
theorem exclusive_step (h : s.Exclusive) (hstep : s.step a = some s') : s'.Exclusive := by
  cases effect_of_step hstep with
  | refused => exact h
  | start hidle =>
    exact ⟨fun r phase hr hphase => absurd (h.running r phase hr hphase).1 hidle, fun _ => rfl⟩
  | drained hstarting _ => exact exclusive_drain h (by rw [hstarting]; nofun)
  | drain hstarting _ => exact exclusive_drain h (by rw [hstarting]; nofun)
  | detach hstarting => exact exclusive_detach h hstarting
  | enterMain hr => exact exclusive_thread h hr fun _ => rfl
  | stop hr => exact exclusive_thread h hr fun _ => rfl
  | mainReturn hr =>
    obtain ⟨phase, hr, hinside⟩ := hr
    exact exclusive_thread h hr fun _ => inside_not_over hinside
  | clear hr => exact exclusive_clear h hr
  | signal hr =>
    have hsignalled : Exclusive { s with runs := s.runs.set _ .signalled } :=
      exclusive_thread h hr nofun
    exact ⟨hsignalled.running, hsignalled.starting⟩
  | wait => exact ⟨h.running, h.starting⟩
  | wake => exact ⟨h.running, h.starting⟩

/-- **The run inside `bitcoind_main` is the only one.** -/
theorem Exclusive.current_eq (h : s.Exclusive) (hr : s.Inside r) : s.current = some r := by
  obtain ⟨phase, hr, hinside⟩ := hr
  obtain ⟨hlt, hget⟩ := List.getElem?_eq_some_iff.1 hr
  unfold current
  rw [List.findIdx?_eq_some_iff_getElem]
  refine ⟨hlt, by rw [hget]; exact hinside, fun j hj hinside' => ?_⟩
  have hlast := (h.running j _ (List.getElem?_eq_getElem (by omega))
    (inside_not_over hinside')).2.2
  omega

theorem inside_of_current (h : s.current = some r) : s.Inside r := by
  unfold current at h
  obtain ⟨hlt, hinside, _⟩ := List.findIdx?_eq_some_iff_getElem.1 h
  exact ⟨_, List.getElem?_eq_getElem hlt, hinside⟩

/-! ## 4. From `enterMain` to `mainReturn` -/

/-- A run that is inside is not touched by the threads of others. -/
theorem inside_set {runs : List RunPhase} (h : ∃ phase ∈ runs[i]?, phase.inside = true)
    (hto : i = r → next.inside = true) : ∃ phase ∈ (runs.set r next)[i]?, phase.inside = true := by
  obtain ⟨phase, hi, hinside⟩ := h
  obtain ⟨hlt, _⟩ := List.getElem?_eq_some_iff.1 hi
  by_cases hir : i = r
  · subst hir
    exact ⟨next, List.getElem?_set_self hlt, hto rfl⟩
  · exact ⟨phase, (List.getElem?_set_ne (Ne.symm hir)).trans hi, hinside⟩

/-- A thread that moves on from outside is not the one that is inside. -/
theorem inside_thread (h : s.Inside i) (hr : s.runs[r]? = some now)
    (hmove : now.inside = true → next.inside = true) :
    Inside { s with runs := s.runs.set r next } i := by
  refine inside_set h fun hir => ?_
  obtain ⟨phase, hi, hinside⟩ := h
  rw [hir, hr] at hi
  cases hi
  exact hmove hinside

/-- **A run that is inside stays so until it returns.** -/
theorem inside_step (h : s.Inside i) (hstep : s.step a = some s') :
    s'.Inside i ∨ a = .mainReturn i := by
  cases effect_of_step hstep with
  | refused | start | drained | drain | wait | wake => exact .inl h
  | detach =>
    obtain ⟨phase, hi, hinside⟩ := h
    obtain ⟨hlt, _⟩ := List.getElem?_eq_some_iff.1 hi
    exact .inl ⟨phase, (List.getElem?_append_left hlt).trans hi, hinside⟩
  | enterMain hr => exact .inl (inside_thread h hr nofun)
  | stop hr => exact .inl (inside_thread h hr fun _ => rfl)
  | mainReturn hr =>
    rename_i r
    by_cases hir : i = r
    · exact .inr (by rw [hir])
    · exact .inl (inside_set h fun heq => absurd heq hir)
  | clear hr => exact .inl (inside_thread h hr nofun)
  | signal hr => exact .inl (inside_thread h hr nofun)

end Lifecycle

end SwiftBitcoinKernel
