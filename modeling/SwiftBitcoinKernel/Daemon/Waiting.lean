/-
  File:      SwiftBitcoinKernel/Daemon/Waiting.lean
  Subject:   `waitUntilStopped`: does it wait for the run it was called in?

  A thread clears `isRunning` before it signals `finished`, so the next `start()` can be through
  its draining loop, and the next run inside `bitcoind_main`, when that signal arrives.

  * `Ended` -- the `bitcoind_main` of a run has returned;
  * `Punctual` -- every call that has returned was called in a run that has ended;
  * `Timely` -- the condition on a signal: no `start()` is past its draining loop, and no run has
    yet to end;
  * `Level` -- under it, the semaphore is at zero from there on until the run ends;
  * `waits_punctual` -- so no call returns early; `wait_overtaken` -- without it one can;
  * `untimely_signal` -- and every signal without it can be followed by an early return.
-/
import SwiftBitcoinKernel.Daemon.Lifecycle

namespace SwiftBitcoinKernel

open Logic

/-- `bitcoind_main` has returned. -/
def RunPhase.ended : RunPhase → Bool
  | .returned | .cleared | .signalled => true
  | .launched | .inMain | .stopping => false

namespace Lifecycle

variable {s s' : Lifecycle} {a : Label} {r k : Nat} {now next phase : RunPhase} {w : Wait}

/-! ## 1. The property, and the condition -/

/-- The `bitcoind_main` of run `k` has returned. -/
def Ended (s : Lifecycle) (k : Nat) : Prop := ∃ phase ∈ s.runs[k]?, phase.ended = true

instance (s : Lifecycle) (k : Nat) : Decidable (s.Ended k) :=
  inferInstanceAs (Decidable (∃ phase ∈ s.runs[k]?, phase.ended = true))

/-- Every `waitUntilStopped()` that began inside a run's `bitcoind_main` and has returned, has
    returned behind it. -/
def Punctual (s : Lifecycle) : Prop :=
  ∀ w ∈ s.waits, w.returned = true → ∀ k, w.watching = some k → s.Ended k

/-- A run has been detached, and its `bitcoind_main` has not returned. -/
def Pending (s : Lifecycle) : Prop := ∃ phase ∈ s.runs, phase.ended = false

instance (s : Lifecycle) : Decidable s.Pending :=
  inferInstanceAs (Decidable (∃ phase ∈ s.runs, phase.ended = false))

/-- The condition on `finished.signal()`: it comes before the next `start()` is through its
    draining loop, or after that one's run. -/
def Timely (s : Lifecycle) : Label → Prop
  | .signal _ => s.starting ≠ some .drained ∧ ¬s.Pending
  | .start | .drain | .detach | .enterMain _ | .stop _ | .mainReturn _ | .clear _ | .wait
  | .wake _ => True

instance (s : Lifecycle) : (a : Label) → Decidable (s.Timely a)
  | .signal _ => inferInstanceAs (Decidable (s.starting ≠ some .drained ∧ ¬s.Pending))
  | .start | .drain | .detach | .enterMain _ | .stop _ | .mainReturn _ | .clear _ | .wait
  | .wake _ => inferInstanceAs (Decidable True)

/-! ## 2. The semaphore while a run is pending -/

/-- From the end of the draining loop to the end of the run, nothing is signalled. -/
def Level (s : Lifecycle) : Prop := s.starting = some .drained ∨ s.Pending → s.finished = 0

/-- A pending thread was so before it moved on. -/
theorem pending_of_thread {runs : List RunPhase} (hr : runs[r]? = some now)
    (hmove : next.ended = false → now.ended = false)
    (h : ∃ phase ∈ runs.set r next, phase.ended = false) :
    ∃ phase ∈ runs, phase.ended = false := by
  rcases exists_mem_set h with h | hnext
  · exact h
  · exact ⟨now, List.mem_of_getElem? hr, hmove hnext⟩

theorem inside_not_ended (h : phase.inside = true) : phase.ended = false := by
  cases phase with
  | inMain | stopping => rfl
  | launched | returned | cleared | signalled => cases h

theorem level_step (h : s.Level) (ha : s.Timely a) (hstep : s.step a = some s') : s'.Level := by
  cases effect_of_step hstep with
  | refused => exact h
  | start =>
    rintro (hstarting | hpending)
    · cases hstarting
    · exact h (.inr hpending)
  | drained _ hzero => exact fun _ => hzero
  | drain hstarting hsignal =>
    rintro (hdrained | hpending)
    · rw [hstarting] at hdrained
      cases hdrained
    · exact absurd (h (.inr hpending)) hsignal
  | detach hstarting => exact fun _ => h (.inl hstarting)
  | enterMain hr => exact fun hlate => h (hlate.imp_right (pending_of_thread hr fun _ => rfl))
  | stop hr => exact fun hlate => h (hlate.imp_right (pending_of_thread hr fun _ => rfl))
  | mainReturn hr =>
    obtain ⟨phase, hr, _⟩ := hr
    exact fun hlate => h (hlate.imp_right (pending_of_thread hr (by nofun)))
  | clear hr => exact fun hlate => h (hlate.imp_right (pending_of_thread hr (by nofun)))
  | signal hr =>
    rintro (hdrained | hpending)
    · exact absurd hdrained ha.1
    · exact absurd (pending_of_thread hr (by nofun) hpending) ha.2
  | wait => exact h
  | wake _ hsignal => exact fun hlate => absurd (h hlate) hsignal

/-! ## 3. The calls -/

/-- The call has yet to return, inside the run it was called in, or that run has ended. -/
def Kept (s : Lifecycle) (w : Wait) : Prop :=
  ∀ k, w.watching = some k → s.Ended k ∨ s.Inside k ∧ w.returned = false

/-- A run that has ended stays so. -/
theorem ended_step (h : s.Ended k) (hstep : s.step a = some s') : s'.Ended k := by
  -- no thread moves from an ended phase to one that is not
  have hset : ∀ (r : Nat) (now next : RunPhase), s.runs[r]? = some now →
      (now.ended = true → next.ended = true) →
      ∃ phase ∈ (s.runs.set r next)[k]?, phase.ended = true := by
    intro r now next hr hmove
    obtain ⟨phase, hk, hended⟩ := h
    obtain ⟨hlt, _⟩ := List.getElem?_eq_some_iff.1 hk
    by_cases hkr : k = r
    · subst hkr
      rw [hr] at hk
      cases hk
      exact ⟨next, List.getElem?_set_self hlt, hmove hended⟩
    · exact ⟨phase, (List.getElem?_set_ne (Ne.symm hkr)).trans hk, hended⟩
  cases effect_of_step hstep with
  | refused | start | drained | drain | wait | wake => exact h
  | detach =>
    obtain ⟨phase, hk, hended⟩ := h
    obtain ⟨hlt, _⟩ := List.getElem?_eq_some_iff.1 hk
    exact ⟨phase, (List.getElem?_append_left hlt).trans hk, hended⟩
  | enterMain hr => exact hset _ _ _ hr nofun
  | stop hr => exact hset _ _ _ hr nofun
  | mainReturn hr =>
    obtain ⟨phase, hr, _⟩ := hr
    exact hset _ _ _ hr fun _ => rfl
  | clear hr => exact hset _ _ _ hr fun _ => rfl
  | signal hr => exact hset _ _ _ hr fun _ => rfl

/-- A call is kept by every step of a thread, and by its own start. -/
theorem kept_step (h : s.Kept w) (hstep : s.step a = some s') : s'.Kept w := by
  intro k hk
  rcases h k hk with hended | ⟨hinside, hreturned⟩
  · exact .inl (ended_step hended hstep)
  · rcases inside_step hinside hstep with hinside | rfl
    · exact .inr ⟨hinside, hreturned⟩
    · obtain ⟨⟨phase, hr, _⟩, rfl⟩ := step_mainReturn hstep
      obtain ⟨hlt, _⟩ := List.getElem?_eq_some_iff.1 hr
      exact .inl ⟨.returned, List.getElem?_set_self hlt, rfl⟩

/-- A call returns on a signal, so its run has ended. -/
theorem kept_wake {watching : Option Nat} (hlevel : s.Level) (hsignal : s.finished ≠ 0)
    (h : s.Kept ⟨watching, false⟩) : s.Kept ⟨watching, true⟩ := by
  intro k hk
  rcases h k hk with hended | ⟨⟨phase, hr, hinside⟩, _⟩
  · exact .inl hended
  · have hpending : s.Pending := ⟨phase, List.mem_of_getElem? hr, inside_not_ended hinside⟩
    exact absurd (hlevel (.inr hpending)) hsignal

theorem waits_kept_step (hlevel : s.Level) (h : ∀ w ∈ s.waits, s.Kept w)
    (hstep : s.step a = some s') : ∀ w ∈ s'.waits, s'.Kept w := by
  cases effect_of_step hstep with
  | wait =>
    intro w hw
    rcases List.mem_append.1 hw with hw | hw
    · exact kept_step (h w hw) hstep
    · cases List.mem_singleton.1 hw
      exact fun k hk => .inr ⟨inside_of_current hk, rfl⟩
  | wake hw hsignal =>
    intro w' hw'
    rcases List.mem_or_eq_of_mem_set hw' with hw' | rfl
    · exact kept_step (h w' hw') hstep
    · exact kept_step (kept_wake hlevel hsignal (h _ (List.mem_of_getElem? hw))) hstep
  | refused | start | drained | drain | detach | enterMain | stop | mainReturn | clear | signal =>
    exact fun w hw => kept_step (h w hw) hstep

end Lifecycle

/-- **`waitUntilStopped` waits for the run it is called in**, in every run of the lifecycle in which
    each signal is timely. -/
theorem waits_punctual {ls : List Lifecycle.Label} {s : Lifecycle}
    (h : lifecycle.Run Lifecycle.Timely ls s) : s.Punctual := by
  have hboth : s.Level ∧ ∀ w ∈ s.waits, s.Kept w := by
    refine h.invariant (I := fun s => s.Level ∧ ∀ w ∈ s.waits, s.Kept w) ⟨?_, nofun⟩ ?_
    · rintro (hstarting | ⟨_, hphase, _⟩)
      · cases hstarting
      · cases hphase
    · intro s a s' ⟨hlevel, hkept⟩ ha hstep
      exact ⟨Lifecycle.level_step hlevel ha hstep, Lifecycle.waits_kept_step hlevel hkept hstep⟩
  intro w hw hreturned k hk
  rcases hboth.2 w hw k hk with hended | ⟨_, hwaiting⟩
  · exact hended
  · rw [hreturned] at hwaiting
    cases hwaiting

/-- Two cycles; the second run's `waitUntilStopped` returns behind that run. -/
theorem waits_punctual_restarted :
    ∃ s, lifecycle.Run Lifecycle.Timely [.start, .drain, .detach, .enterMain 0, .stop 0,
        .mainReturn 0, .clear 0, .start, .signal 0, .drain, .drain, .detach, .enterMain 1, .wait,
        .stop 1, .mainReturn 1, .clear 1, .signal 1, .wake 0] s ∧
      s.waits = [⟨some 1, true⟩] ∧ s.Ended 1 := by
  have hrun : lifecycle.Run Lifecycle.Timely [.start, .drain, .detach, .enterMain 0, .stop 0,
      .mainReturn 0, .clear 0, .start, .signal 0, .drain, .drain, .detach, .enterMain 1, .wait,
      .stop 1, .mainReturn 1, .clear 1, .signal 1, .wake 0]
      ⟨false, 0, none, [.signalled, .signalled], [⟨some 1, true⟩]⟩ :=
    Machine.exec_run (by decide)
  exact ⟨_, hrun, rfl, waits_punctual hrun _ (List.mem_singleton.2 rfl) rfl 1 rfl⟩

/-- **It need not otherwise**: run 0 clears `isRunning`, run 1 is started and is inside
    `bitcoind_main`, `waitUntilStopped` is called, and returns on the late signal of run 0. -/
theorem wait_overtaken :
    ∃ s, lifecycle.Run Machine.always [.start, .drain, .detach, .enterMain 0, .stop 0,
        .mainReturn 0, .clear 0, .start, .drain, .detach, .enterMain 1, .wait, .signal 0,
        .wake 0] s ∧
      s.waits = [⟨some 1, true⟩] ∧ s.Inside 1 ∧ ¬s.Ended 1 ∧ ¬s.Punctual := by
  refine ⟨⟨true, 0, none, [.signalled, .inMain], [⟨some 1, true⟩]⟩, ?_, rfl, ?_, ?_, ?_⟩
  · exact Machine.exec_run (by decide)
  · decide
  · decide
  · exact fun h => absurd (h _ (List.mem_singleton.2 rfl) rfl 1 rfl) (by decide)

/-! ## 4. The condition leaves out nothing else -/

namespace Lifecycle

variable {s s' : Lifecycle} {a : Label} {r : Nat}

/-- A `waitUntilStopped()` can still return early. -/
def CanReturnEarly (s : Lifecycle) : Prop :=
  ∃ more s', lifecycle.Path Machine.always s more s' ∧ ¬s'.Punctual

theorem canReturnEarly_step (hstep : s.step a = some s') (h : s'.CanReturnEarly) :
    s.CanReturnEarly := by
  obtain ⟨more, s₁, hpath, hearly⟩ := h
  exact ⟨a :: more, s₁, hpath.head trivial hstep, hearly⟩

/-- Called now, it returns at once. -/
theorem canReturnEarly_inside (hr : s.Inside r) (hsignal : s.finished ≠ 0) :
    s.CanReturnEarly := by
  obtain ⟨phase, hphase, hinside⟩ := hr
  have hsome : s.current ≠ none := by
    unfold current
    rw [Ne, List.findIdx?_eq_none_iff]
    intro hall
    rw [hall phase (List.mem_of_getElem? hphase)] at hinside
    cases hinside
  obtain ⟨k, hk⟩ := Option.ne_none_iff_exists'.1 hsome
  have hcall : s.step .wait = some { s with waits := s.waits ++ [⟨some k, false⟩] } := by
    rw [← hk]
    rfl
  have hget : (s.waits ++ [(⟨some k, false⟩ : Wait)])[s.waits.length]? = some ⟨some k, false⟩ :=
    List.getElem?_concat_length
  have hwake : step { s with waits := s.waits ++ [⟨some k, false⟩] } (.wake s.waits.length) =
      some { s with
        finished := s.finished - 1
        waits := (s.waits ++ [(⟨some k, false⟩ : Wait)]).set s.waits.length ⟨some k, true⟩ } := by
    unfold step
    dsimp only
    rw [hget]
    dsimp only
    rw [if_neg hsignal]
  refine canReturnEarly_step hcall (canReturnEarly_step hwake ⟨[], _, .refl, fun hpunctual => ?_⟩)
  obtain ⟨hlt, _⟩ := List.getElem?_eq_some_iff.1 hget
  obtain ⟨phase', hphase', hended⟩ := hpunctual ⟨some k, true⟩ (List.mem_set hlt _) rfl k rfl
  obtain ⟨phase'', hphase'', hinside''⟩ := inside_of_current hk
  rw [Option.mem_def.1 hphase''] at hphase'
  cases hphase'
  rw [inside_not_ended hinside''] at hended
  cases hended

/-- The run enters `bitcoind_main` first. -/
theorem canReturnEarly_launched (hr : s.runs[r]? = some .launched) (hsignal : s.finished ≠ 0) :
    s.CanReturnEarly := by
  have henter : s.step (.enterMain r) = some { s with runs := s.runs.set r .inMain } := if_pos hr
  obtain ⟨hlt, _⟩ := List.getElem?_eq_some_iff.1 hr
  have hinside : Inside { s with runs := s.runs.set r .inMain } r :=
    ⟨.inMain, List.getElem?_set_self hlt, rfl⟩
  exact canReturnEarly_step henter (canReturnEarly_inside hinside hsignal)

/-- The `start()` detaches it before. -/
theorem canReturnEarly_drained (hstarting : s.starting = some .drained)
    (hsignal : s.finished ≠ 0) : s.CanReturnEarly := by
  have hdetach : s.step .detach =
      some { s with starting := none, runs := s.runs ++ [.launched] } := if_pos hstarting
  exact canReturnEarly_step hdetach
    (canReturnEarly_launched List.getElem?_concat_length hsignal)

/-- **Every untimely signal can be followed by an early return.** -/
theorem untimely_signal (hstep : s.step a = some s') (ha : ¬s.Timely a) : s'.CanReturnEarly := by
  cases effect_of_step hstep with
  | signal hr =>
    have hsignal : s.finished + 1 ≠ 0 := Nat.succ_ne_zero _
    by_cases hdrained : s.starting = some .drained
    · exact canReturnEarly_drained hdrained hsignal
    · have hpending : s.Pending := Decidable.byContradiction fun hnot => ha ⟨hdrained, hnot⟩
      -- the thread that signals is not the one that is pending
      have hstill : ∃ phase ∈ s.runs.set _ .signalled, phase.ended = false :=
        exists_set_of_not hpending hr nofun
      obtain ⟨phase, hphase, hended⟩ := hstill
      obtain ⟨k, hk⟩ := List.mem_iff_getElem?.1 hphase
      cases phase with
      | launched => exact canReturnEarly_launched hk hsignal
      | inMain => exact canReturnEarly_inside ⟨.inMain, hk, rfl⟩ hsignal
      | stopping => exact canReturnEarly_inside ⟨.stopping, hk, rfl⟩ hsignal
      | returned | cleared | signalled => cases hended
  | _ => exact absurd trivial ha

end Lifecycle

end SwiftBitcoinKernel
