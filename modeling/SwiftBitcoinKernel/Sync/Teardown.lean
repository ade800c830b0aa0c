/-
  File:      SwiftBitcoinKernel/Sync/Teardown.lean
  Subject:   `BlockchainSync.shutdown()`: when is it a barrier?

  A producer task holds the `ChainstateManager` until its run ends. `AsyncIterator.init` spawns the
  task and records it in `SyncStorage` after that; `shutdown()` takes the recorded tasks out of the
  storage, cancels them and awaits them one by one. All of these interleave.

  * `Teardown`, `Teardown.Label`, `teardown` -- the storage, its producers and the shutdown calls
    as a machine; one step for each access to the storage and for each task cancelled or awaited;
  * `Barrier` -- no returned call has left a producer running that was spawned before it began;
  * `Recorded` -- in every run, a tracked producer that runs is in the storage, or some shutdown
    call still has to await it;
  * `Undisturbed` -- the condition on a drain: no iterator is between its two steps and no other
    shutdown call is waiting, for a producer that runs and is older than this call;
  * `undisturbed_iff` -- it says that the drain finds every such producer;
  * `shutdown_barrier` -- under it, `shutdown()` is a barrier; `shutdown_not_barrier` -- without it,
    it is not; `disturbed_drain` -- and every drain without it can be the one that breaks it.
-/
import SwiftBitcoinKernel.Logic.Transition

namespace SwiftBitcoinKernel

open Logic

/-! ## 1. The machine -/

/-- Where a `shutdown()` call stands. -/
inductive ShutdownPhase where
  | begun
  /-- In the loop that cancels: what is left to cancel, and all it has drained. -/
  | cancelling (todo drained : List Nat)
  /-- In the loop that awaits: what is left to await. -/
  | awaiting (todo : List Nat)
  | returned
  deriving DecidableEq, Repr

/-- One `shutdown()` call. `spawnedBefore` is the number of producers there were when it began. -/
structure Shutdown where
  spawnedBefore : Nat
  phase : ShutdownPhase
  deriving DecidableEq, Repr

/-- The producers a call still has to await. -/
def Shutdown.pending (c : Shutdown) : List Nat :=
  match c.phase with
  | .begun => []
  | .cancelling _ drained => drained
  | .awaiting todo => todo
  | .returned => []

/-- A `SyncStorage` and what goes on around it. Producers and calls are numbered as they come. -/
structure Teardown where
  /-- How many producer tasks have been spawned. -/
  spawned : Nat
  /-- Those whose `AsyncIterator.init` is past `track(producer:)`. -/
  tracked : List Nat
  cancelled : List Nat
  finished : List Nat
  /-- `SyncStorage.producers`. -/
  producers : List Nat
  /-- The interrupt flag of the context. -/
  interrupted : Bool
  shutdowns : List Shutdown
  deriving DecidableEq, Repr

/-- The steps. -/
inductive Teardown.Label where
  /-- `Task { await runSyncLoop(...) }` in `AsyncIterator.init`. -/
  | spawn
  /-- `storage.track(producer:)`. -/
  | track (p : Nat)
  /-- The producer's run ends, and with it its hold on the manager. -/
  | finish (p : Nat)
  /-- A call of `shutdown()`. -/
  | shutdown
  /-- `storage.drainProducers()`, and the return if there is none. -/
  | drain (c : Nat)
  /-- One round of the loop that cancels, or the interrupt behind it. -/
  | cancel (c : Nat)
  /-- One round of the loop that awaits, or the return behind it. -/
  | await (c : Nat)
  deriving DecidableEq, Repr

namespace Teardown

/-- Before anything. -/
def initial : Teardown := ⟨0, [], [], [], [], false, []⟩

/-- The `c`-th call moves on. -/
def advance (s : Teardown) (c n : Nat) (phase : ShutdownPhase) : Teardown :=
  { s with shutdowns := s.shutdowns.set c ⟨n, phase⟩ }

/-- What a step does, where it is enabled. -/
def step (s : Teardown) : Label → Option Teardown
  | .spawn => some { s with spawned := s.spawned + 1 }
  | .track p =>
    if p < s.spawned ∧ p ∉ s.tracked then
      some { s with tracked := s.tracked ++ [p], producers := s.producers ++ [p] }
    else none
  | .finish p =>
    if p < s.spawned ∧ p ∉ s.finished then some { s with finished := s.finished ++ [p] } else none
  | .shutdown => some { s with shutdowns := s.shutdowns ++ [⟨s.spawned, .begun⟩] }
  | .drain c =>
    match s.shutdowns[c]? with
    | some ⟨n, .begun⟩ =>
      let phase := if s.producers = [] then .returned else .cancelling s.producers s.producers
      some { s.advance c n phase with producers := [] }
    | _ => none
  | .cancel c =>
    match s.shutdowns[c]? with
    | some ⟨n, .cancelling (p :: todo) drained⟩ =>
      some { s.advance c n (.cancelling todo drained) with cancelled := s.cancelled ++ [p] }
    | some ⟨n, .cancelling [] drained⟩ =>
      some { s.advance c n (.awaiting drained) with interrupted := true }
    | _ => none
  | .await c =>
    match s.shutdowns[c]? with
    | some ⟨n, .awaiting (p :: todo)⟩ =>
      if p ∈ s.finished then some (s.advance c n (.awaiting todo)) else none
    | some ⟨n, .awaiting []⟩ => some (s.advance c n .returned)
    | _ => none

/-- The producer has been spawned and has not finished: it holds the manager. -/
def Holds (s : Teardown) (p : Nat) : Prop := p < s.spawned ∧ p ∉ s.finished

/-- **The barrier**: of the producers spawned before a call that has returned began, all have
    finished, and none holds the manager. -/
def Barrier (s : Teardown) : Prop :=
  ∀ c ∈ s.shutdowns, c.phase = .returned → ∀ p < c.spawnedBefore, p ∈ s.finished ∧ ¬s.Holds p

end Teardown

/-- All interleavings of iterators, producers and shutdown calls on one `BlockchainSync`. -/
def teardown : Machine Teardown Teardown.Label := ⟨.initial, Teardown.step⟩

namespace Teardown

variable {s s' : Teardown} {a : Label} {c n p : Nat} {phase : ShutdownPhase} {x y : Shutdown}

/-! ## 2. What every run keeps -/

/-- Some call still has to await `p`. -/
def Awaited (s : Teardown) (p : Nat) : Prop := ∃ x ∈ s.shutdowns, p ∈ x.pending

/-- **The bookkeeping of every run**: a tracked producer that runs is in the storage or with a
    call that has drained it, and never in both places. -/
structure Recorded (s : Teardown) : Prop where
  kept : ∀ p ∈ s.tracked, p ∉ s.finished → p ∈ s.producers ∨ s.Awaited p
  spawned : ∀ p ∈ s.tracked, p < s.spawned
  stored : ∀ p ∈ s.producers, p ∈ s.tracked
  drained : ∀ p, s.Awaited p → p ∈ s.tracked ∧ p ∉ s.producers

theorem recorded_initial : Recorded .initial where
  kept := nofun
  spawned := nofun
  stored := nofun
  drained p h := by
    obtain ⟨x, hx, _⟩ := h
    cases hx

/-- Another call's move leaves a producer awaited, and so does the call's own if it is kept. -/
theorem awaited_set {calls : List Shutdown} (hx : calls[c]? = some x)
    (hkeep : p ∈ x.pending → p ∈ y.pending) (h : ∃ z ∈ calls, p ∈ z.pending) :
    ∃ z ∈ calls.set c y, p ∈ z.pending := by
  obtain ⟨z, hz, hp⟩ := h
  obtain ⟨i, hi⟩ := List.mem_iff_getElem?.1 hz
  obtain ⟨hc, _⟩ := List.getElem?_eq_some_iff.1 hx
  by_cases hic : i = c
  · subst hic
    rw [hx] at hi
    cases hi
    exact ⟨y, List.mem_set hc y, hkeep hp⟩
  · refine ⟨z, ?_, hp⟩
    rw [List.mem_iff_getElem?]
    exact ⟨i, by rw [List.getElem?_set_ne (Ne.symm hic)]; exact hi⟩

/-- What a `drain` does. -/
theorem step_drain (h : s.step (.drain c) = some s') :
    ∃ n phase, s.shutdowns[c]? = some ⟨n, .begun⟩ ∧
      (⟨n, phase⟩ : Shutdown).pending = s.producers ∧ phase ≠ .begun ∧
      s' = { s.advance c n phase with producers := [] } := by
  unfold step at h
  dsimp only at h
  split at h
  · rename_i n hc
    cases h
    by_cases hempty : s.producers = []
    · exact ⟨n, .returned, hc, hempty.symm, nofun, by rw [if_pos hempty]⟩
    · exact ⟨n, .cancelling s.producers s.producers, hc, rfl, nofun, by rw [if_neg hempty]⟩
  · cases h

/-- The `c`-th call goes on, past its drain: it awaits nothing new, and stops awaiting finished
    producers only. -/
structure Proceeds (s s' : Teardown) (c : Nat) (x y : Shutdown) : Prop where
  call : s.shutdowns[c]? = some x
  moved : s'.shutdowns = s.shutdowns.set c y
  begun : x.phase ≠ .begun
  spawnedBefore : y.spawnedBefore = x.spawnedBefore
  kept : ∀ p ∈ x.pending, p ∉ s.finished → p ∈ y.pending
  old : ∀ p ∈ y.pending, p ∈ x.pending
  spawned : s'.spawned = s.spawned
  tracked : s'.tracked = s.tracked
  finished : s'.finished = s.finished
  producers : s'.producers = s.producers

theorem step_cancel (h : s.step (.cancel c) = some s') : ∃ x y, Proceeds s s' c x y := by
  unfold step at h
  dsimp only at h
  split at h
  · rename_i n p todo drained hc
    cases h
    exact ⟨_, ⟨n, .cancelling todo drained⟩, hc, rfl, nofun, rfl, fun _ hp _ => hp, fun _ hp => hp,
      rfl, rfl, rfl, rfl⟩
  · rename_i n drained hc
    cases h
    exact ⟨_, ⟨n, .awaiting drained⟩, hc, rfl, nofun, rfl, fun _ hp _ => hp, fun _ hp => hp,
      rfl, rfl, rfl, rfl⟩
  · cases h

theorem step_await (h : s.step (.await c) = some s') : ∃ x y, Proceeds s s' c x y := by
  unfold step at h
  dsimp only at h
  split at h
  · rename_i n p todo hc
    split at h
    · rename_i hfinished
      cases h
      refine ⟨_, ⟨n, .awaiting todo⟩, hc, rfl, nofun, rfl, fun q hq hrun => ?_,
        fun _ hq => List.mem_cons_of_mem _ hq, rfl, rfl, rfl, rfl⟩
      rcases List.mem_cons.1 hq with rfl | hq
      · exact absurd hfinished hrun
      · exact hq
    · cases h
  · rename_i n hc
    cases h
    exact ⟨_, ⟨n, .returned⟩, hc, rfl, nofun, rfl, fun _ hp _ => hp, fun _ hp => hp,
      rfl, rfl, rfl, rfl⟩
  · cases h

theorem recorded_proceeds (h : s.Recorded) (hstep : Proceeds s s' c x y) : s'.Recorded := by
  have hback : ∀ p, s'.Awaited p → s.Awaited p := by
    intro p ⟨z, hz, hp⟩
    rw [hstep.moved] at hz
    rcases List.mem_or_eq_of_mem_set hz with hz | rfl
    · exact ⟨z, hz, hp⟩
    · exact ⟨x, List.mem_of_getElem? hstep.call, hstep.old p hp⟩
  constructor
  · intro q hq hrun
    rw [hstep.tracked] at hq
    rw [hstep.finished] at hrun
    rw [hstep.producers]
    refine (h.kept q hq hrun).imp id fun hawaited => ?_
    unfold Awaited
    rw [hstep.moved]
    exact awaited_set hstep.call (fun hp => hstep.kept q hp hrun) hawaited
  · rw [hstep.tracked, hstep.spawned]
    exact h.spawned
  · rw [hstep.producers, hstep.tracked]
    exact h.stored
  · intro q hq
    rw [hstep.producers, hstep.tracked]
    exact h.drained q (hback q hq)

/-- **No step loses track of a producer that runs.** -/
theorem recorded_step (h : s.Recorded) (hstep : s.step a = some s') : s'.Recorded := by
  cases a with
  | spawn =>
    cases hstep
    exact ⟨h.kept, fun q hq => Nat.lt_succ_of_lt (h.spawned q hq), h.stored, h.drained⟩
  | track p =>
    unfold step at hstep
    dsimp only at hstep
    split at hstep
    · rename_i hnew
      cases hstep
      refine ⟨fun q hq hrun => ?_, fun q hq => ?_, fun q hq => ?_, fun q hq => ?_⟩
      · rcases List.mem_append.1 hq with hq | hq
        · exact (h.kept q hq hrun).imp (List.mem_append_left _) id
        · exact .inl (List.mem_append_right _ hq)
      · rcases List.mem_append.1 hq with hq | hq
        · exact h.spawned q hq
        · rw [List.mem_singleton.1 hq]
          exact hnew.1
      · rcases List.mem_append.1 hq with hq | hq
        · exact List.mem_append_left _ (h.stored q hq)
        · exact List.mem_append_right _ hq
      · obtain ⟨htracked, hstored⟩ := h.drained q hq
        refine ⟨List.mem_append_left _ htracked, fun hmem => ?_⟩
        rcases List.mem_append.1 hmem with hmem | hmem
        · exact hstored hmem
        · rw [List.mem_singleton.1 hmem] at htracked
          exact hnew.2 htracked
    · cases hstep
  | finish p =>
    unfold step at hstep
    dsimp only at hstep
    split at hstep
    · cases hstep
      refine ⟨fun q hq hrun => ?_, h.spawned, h.stored, h.drained⟩
      exact h.kept q hq fun hfinished => hrun (List.mem_append_left _ hfinished)
    · cases hstep
  | shutdown =>
    cases hstep
    refine ⟨fun q hq hrun => ?_, h.spawned, h.stored, fun q ⟨x, hx, hp⟩ => ?_⟩
    · refine (h.kept q hq hrun).imp id ?_
      intro ⟨x, hx, hp⟩
      exact ⟨x, List.mem_append_left _ hx, hp⟩
    · rcases List.mem_append.1 hx with hx | hx
      · exact h.drained q ⟨x, hx, hp⟩
      · rw [List.mem_singleton.1 hx] at hp
        cases hp
  | drain c =>
    obtain ⟨n, phase, hc, hpending, _, rfl⟩ := step_drain hstep
    obtain ⟨hlt, _⟩ := List.getElem?_eq_some_iff.1 hc
    -- what was in the storage is now pending in this call
    refine ⟨fun q hq hrun => .inr ?_, h.spawned, nofun,
      fun q ⟨x, hx, hp⟩ => ⟨?_, List.not_mem_nil⟩⟩
    · rcases h.kept q hq hrun with hstored | hawaited
      · exact ⟨⟨n, phase⟩, List.mem_set hlt _, by rw [hpending]; exact hstored⟩
      · exact awaited_set hc (fun hp => nomatch hp) hawaited
    · rcases List.mem_or_eq_of_mem_set hx with hx | rfl
      · exact (h.drained q ⟨x, hx, hp⟩).1
      · rw [hpending] at hp
        exact h.stored q hp
  | cancel c =>
    obtain ⟨x, y, hproceeds⟩ := step_cancel hstep
    exact recorded_proceeds h hproceeds
  | await c =>
    obtain ⟨x, y, hproceeds⟩ := step_await hstep
    exact recorded_proceeds h hproceeds

/-! ## 3. The barrier -/

/-- The condition on a drain: of the producers older than the call, none runs untracked, and none
    runs that another call is waiting for. -/
def Undisturbed (s : Teardown) : Label → Prop
  | .drain c => ∀ x ∈ s.shutdowns[c]?,
    (∀ p < x.spawnedBefore, p ∉ s.tracked → p ∈ s.finished) ∧
    ∀ y ∈ s.shutdowns, ∀ p ∈ y.pending, p < x.spawnedBefore → p ∈ s.finished
  | _ => True

instance (s : Teardown) (a : Label) : Decidable (s.Undisturbed a) :=
  match a with
  | .drain c => inferInstanceAs (Decidable (∀ x ∈ s.shutdowns[c]?,
      (∀ p < x.spawnedBefore, p ∉ s.tracked → p ∈ s.finished) ∧
      ∀ y ∈ s.shutdowns, ∀ p ∈ y.pending, p < x.spawnedBefore → p ∈ s.finished))
  | .spawn | .track _ | .finish _ | .shutdown | .cancel _ | .await _ =>
    inferInstanceAs (Decidable True)

/-- **What the condition is for**: an undisturbed drain is one that finds in the storage every
    producer that runs and is older than the call. -/
theorem undisturbed_iff (h : s.Recorded) (hc : s.shutdowns[c]? = some x) :
    s.Undisturbed (.drain c) ↔ ∀ p < x.spawnedBefore, p ∉ s.finished → p ∈ s.producers := by
  constructor
  · intro hundisturbed p hp hrun
    obtain ⟨htracked, hothers⟩ := hundisturbed x hc
    have hrecorded : p ∈ s.tracked :=
      Decidable.byContradiction fun hnot => hrun (htracked p hp hnot)
    rcases h.kept p hrecorded hrun with hstored | ⟨y, hy, hpy⟩
    · exact hstored
    · exact absurd (hothers y hy p hpy hp) hrun
  · intro hfound z hz
    rw [hc] at hz
    cases hz
    refine ⟨fun p hp hnot => ?_, fun y hy p hpy hp => ?_⟩
    · exact Decidable.byContradiction fun hrun => hnot (h.stored p (hfound p hp hrun))
    · refine Decidable.byContradiction fun hrun => ?_
      exact (h.drained p ⟨y, hy, hpy⟩).2 (hfound p hp hrun)

/-- A call past its drain awaits every older producer that runs. -/
def Covered (s : Teardown) : Prop :=
  ∀ x ∈ s.shutdowns, x.phase ≠ .begun → ∀ p < x.spawnedBefore, p ∉ s.finished → p ∈ x.pending

theorem covered_proceeds (h : s.Covered) (hstep : Proceeds s s' c x y) : s'.Covered := by
  intro z hz hphase p hp hrun
  rw [hstep.moved] at hz
  rw [hstep.finished] at hrun
  rcases List.mem_or_eq_of_mem_set hz with hz | rfl
  · exact h z hz hphase p hp hrun
  · rw [hstep.spawnedBefore] at hp
    exact hstep.kept p (h x (List.mem_of_getElem? hstep.call) hstep.begun p hp hrun) hrun

theorem covered_step (hrec : s.Recorded) (h : s.Covered) (hok : s.Undisturbed a)
    (hstep : s.step a = some s') : s'.Covered := by
  cases a with
  | spawn =>
    cases hstep
    exact h
  | track p =>
    unfold step at hstep
    dsimp only at hstep
    split at hstep
    · cases hstep
      exact h
    · cases hstep
  | finish p =>
    unfold step at hstep
    dsimp only at hstep
    split at hstep
    · cases hstep
      intro x hx hphase q hq hrun
      exact h x hx hphase q hq fun hfinished => hrun (List.mem_append_left _ hfinished)
    · cases hstep
  | shutdown =>
    cases hstep
    intro x hx hphase
    rcases List.mem_append.1 hx with hx | hx
    · exact h x hx hphase
    · rw [List.mem_singleton.1 hx] at hphase
      exact absurd rfl hphase
  | drain c =>
    obtain ⟨n, phase, hc, hpending, _, rfl⟩ := step_drain hstep
    have hfound := (undisturbed_iff hrec hc).1 hok
    intro x hx hphase q hq hrun
    rcases List.mem_or_eq_of_mem_set hx with hx | rfl
    · exact h x hx hphase q hq hrun
    · rw [hpending]
      exact hfound q hq hrun
  | cancel c =>
    obtain ⟨x, y, hproceeds⟩ := step_cancel hstep
    exact covered_proceeds h hproceeds
  | await c =>
    obtain ⟨x, y, hproceeds⟩ := step_await hstep
    exact covered_proceeds h hproceeds

theorem Covered.barrier (h : s.Covered) : s.Barrier := by
  intro x hx hreturned p hp
  have hphase : x.phase ≠ .begun := by
    rw [hreturned]
    nofun
  have hfinished : p ∈ s.finished := by
    refine Decidable.byContradiction fun hrun => ?_
    have hpending := h x hx hphase p hp hrun
    unfold Shutdown.pending at hpending
    rw [hreturned] at hpending
    cases hpending
  exact ⟨hfinished, fun hholds => hholds.2 hfinished⟩

end Teardown

/-- **`shutdown()` is a barrier in undisturbed runs**: if every drain finds no iterator between its
    two steps and no other call waiting, as far as producers matter that run and are older than the
    call, then whenever a call has returned, all producers older than it have finished. -/
theorem shutdown_barrier {ls : List Teardown.Label} {s : Teardown}
    (h : teardown.Run Teardown.Undisturbed ls s) : s.Barrier := by
  have hboth : s.Recorded ∧ s.Covered := by
    refine h.invariant (I := fun s => s.Recorded ∧ s.Covered) ?_ ?_
    · exact ⟨Teardown.recorded_initial, nofun⟩
    · intro s a s' ⟨hrec, hcov⟩ hok hstep
      exact ⟨Teardown.recorded_step hrec hstep, Teardown.covered_step hrec hcov hok hstep⟩
  exact hboth.2.barrier

/-- One iterator, one `shutdown()` at rest with it, and one more after that. -/
theorem shutdown_barrier_in_turn :
    teardown.Run Teardown.Undisturbed [.spawn, .track 0, .shutdown, .drain 0, .cancel 0, .cancel 0,
      .finish 0, .await 0, .await 0, .shutdown, .drain 1]
      ⟨1, [0], [0], [0], [], true, [⟨1, .returned⟩, ⟨1, .returned⟩]⟩ ∧
    Teardown.Barrier ⟨1, [0], [0], [0], [], true, [⟨1, .returned⟩, ⟨1, .returned⟩]⟩ :=
  have h := Machine.exec_run (M := teardown) (by decide)
  ⟨h, shutdown_barrier h⟩

/-- **It is not one in all runs**: the second of two overlapping calls finds the storage drained
    and returns while the first is waiting; and a call that drains between an iterator's two steps
    misses its producer. -/
theorem shutdown_not_barrier :
    (∃ s, teardown.Run Machine.always
      [.spawn, .track 0, .shutdown, .shutdown, .drain 0, .drain 1] s ∧ ¬s.Barrier) ∧
    (∃ s, teardown.Run Machine.always [.spawn, .shutdown, .drain 0] s ∧ ¬s.Barrier) := by
  refine ⟨⟨⟨1, [0], [], [], [], false, [⟨1, .cancelling [0] [0]⟩, ⟨1, .returned⟩]⟩,
    Machine.exec_run (by decide), fun h => ?_⟩,
    ⟨⟨1, [], [], [], [], false, [⟨1, .returned⟩]⟩, Machine.exec_run (by decide), fun h => ?_⟩⟩
  · cases (h ⟨1, .returned⟩ (by decide) rfl 0 Nat.zero_lt_one).1
  · cases (h ⟨1, .returned⟩ (by decide) rfl 0 Nat.zero_lt_one).1

/-! ## 4. The condition leaves out nothing else -/

namespace Teardown

variable {ls : List Label} {s s' : Teardown} {a : Label} {c n p : Nat} {x : Shutdown}

theorem recorded_run {ok : Teardown → Label → Prop} (h : teardown.Run ok ls s) : s.Recorded :=
  h.invariant recorded_initial fun _ _ _ hrec _ hstep => recorded_step hrec hstep

/-- A step, and the steps after it. -/
theorem path_cons {more : List Label} {s₁ : Teardown} (hstep : s.step a = some s')
    (h : teardown.Path Machine.always s' more s₁) :
    teardown.Path Machine.always s (a :: more) s₁ := .head trivial hstep h

theorem advance_call (hc : s.shutdowns[c]? = some x) (n : Nat) (phase : ShutdownPhase) :
    (s.advance c n phase).shutdowns[c]? = some ⟨n, phase⟩ := by
  obtain ⟨hlt, _⟩ := List.getElem?_eq_some_iff.1 hc
  exact List.getElem?_set_self hlt

/-- The loop that cancels runs to its end, whatever the others do. -/
theorem cancelling_ends (todo drained : List Nat)
    (hc : s.shutdowns[c]? = some ⟨n, .cancelling todo drained⟩) :
    ∃ more s', teardown.Path Machine.always s more s' ∧
      s'.shutdowns[c]? = some ⟨n, .awaiting drained⟩ ∧ s'.finished = s.finished ∧
      s'.spawned = s.spawned := by
  induction todo generalizing s with
  | nil =>
    have hstep : s.step (.cancel c) =
        some { s.advance c n (.awaiting drained) with interrupted := true } := by
      unfold step
      dsimp only
      rw [hc]
    exact ⟨[.cancel c], _, path_cons hstep .refl, advance_call hc n _, rfl, rfl⟩
  | cons p todo ih =>
    have hstep : s.step (.cancel c) = some { s.advance c n (.cancelling todo drained) with
        cancelled := s.cancelled ++ [p] } := by
      unfold step
      dsimp only
      rw [hc]
    obtain ⟨more, s', hrest, hcall, hfinished, hspawned⟩ :=
      ih (s := { s.advance c n (.cancelling todo drained) with cancelled := s.cancelled ++ [p] })
        (advance_call hc n _)
    exact ⟨_, s', path_cons hstep hrest, hcall, hfinished, hspawned⟩

/-- A producer that runs can finish, and one that has finished has nothing to do. -/
theorem finish_ends (q : Nat) (hq : q < s.spawned) (hne : q ≠ p) (hrun : p ∉ s.finished) :
    ∃ more s', teardown.Path Machine.always s more s' ∧ s'.shutdowns = s.shutdowns ∧
      q ∈ s'.finished ∧ p ∉ s'.finished ∧ s'.spawned = s.spawned := by
  by_cases hfinished : q ∈ s.finished
  · exact ⟨[], s, .refl, rfl, hfinished, hrun, rfl⟩
  · have hstep : s.step (.finish q) = some { s with finished := s.finished ++ [q] } := by
      unfold step
      dsimp only
      rw [if_pos ⟨hq, hfinished⟩]
    refine ⟨[.finish q], _, path_cons hstep .refl, rfl, List.mem_append_right _
      (List.mem_singleton_self _), fun hp => ?_, rfl⟩
    rcases List.mem_append.1 hp with hp | hp
    · exact hrun hp
    · exact hne (List.mem_singleton.1 hp).symm

/-- The loop that awaits can run to its end without a producer it does not wait for. -/
theorem awaiting_ends (todo : List Nat)
    (hc : s.shutdowns[c]? = some ⟨n, .awaiting todo⟩) (hspawned : ∀ q ∈ todo, q < s.spawned)
    (hp : p ∉ todo) (hrun : p ∉ s.finished) :
    ∃ more s', teardown.Path Machine.always s more s' ∧
      s'.shutdowns[c]? = some ⟨n, .returned⟩ ∧ p ∉ s'.finished := by
  induction todo generalizing s with
  | nil =>
    have hstep : s.step (.await c) = some (s.advance c n .returned) := by
      unfold step
      dsimp only
      rw [hc]
    exact ⟨[.await c], _, path_cons hstep .refl, advance_call hc n _, hrun⟩
  | cons q todo ih =>
    obtain ⟨more₁, s₁, hpath₁, hcalls, hfinished, hrun, hsame⟩ :=
      finish_ends q (hspawned q List.mem_cons_self) (fun hq => hp (hq ▸ List.mem_cons_self)) hrun
    rw [← hcalls] at hc
    have hstep : s₁.step (.await c) = some (s₁.advance c n (.awaiting todo)) := by
      unfold step
      dsimp only
      rw [hc]
      dsimp only
      rw [if_pos hfinished]
    obtain ⟨more₂, s₂, hpath₂, hcall, hlast⟩ :=
      ih (advance_call hc n _)
        (fun r hr => hsame ▸ hspawned r (List.mem_cons_of_mem _ hr))
        (fun hp' => hp (List.mem_cons_of_mem _ hp')) hrun
    exact ⟨_, s₂, hpath₁.trans (path_cons hstep hpath₂), hcall, hlast⟩

theorem not_barrier (hc : s.shutdowns[c]? = some ⟨n, .returned⟩) (hp : p < n)
    (hrun : p ∉ s.finished) : ¬s.Barrier := fun h =>
  hrun (h _ (List.mem_of_getElem? hc) rfl p hp).1

/-- **Every disturbed drain can break the barrier**: from any state that a run reaches, the steps
    after it can be such that the call returns while an older producer runs. -/
theorem disturbed_drain (h : teardown.Run Machine.always ls s)
    (hc : s.shutdowns[c]? = some ⟨n, .begun⟩) (hdisturbed : ¬s.Undisturbed (.drain c)) :
    ∃ more s', teardown.Run Machine.always (ls ++ [.drain c] ++ more) s' ∧ ¬s'.Barrier := by
  have hrec := recorded_run h
  rw [undisturbed_iff hrec hc] at hdisturbed
  obtain ⟨p, hmissed⟩ := not_forall.1 hdisturbed
  simp only [Classical.not_imp] at hmissed
  obtain ⟨hp, hrun, hnot⟩ := hmissed
  by_cases hempty : s.producers = []
  · have hstep : s.step (.drain c) = some { s.advance c n .returned with producers := [] } := by
      unfold step
      dsimp only
      rw [hc]
      dsimp only
      rw [if_pos hempty]
    exact ⟨[], _, (h.trans (path_cons hstep .refl)).trans .refl,
      not_barrier (advance_call hc n _) hp hrun⟩
  · have hstep : s.step (.drain c) = some { s.advance c n
        (.cancelling s.producers s.producers) with producers := [] } := by
      unfold step
      dsimp only
      rw [hc]
      dsimp only
      rw [if_neg hempty]
    obtain ⟨more₁, s₁, hpath₁, hcall₁, hfinished, hspawned⟩ :=
      cancelling_ends (s := { s.advance c n (.cancelling s.producers s.producers) with
        producers := [] }) _ _ (advance_call hc n _)
    obtain ⟨more₂, s₂, hpath₂, hcall₂, hlast⟩ :=
      awaiting_ends (p := p) s.producers hcall₁
        (fun q hq => hspawned ▸ hrec.spawned q (hrec.stored q hq)) hnot (hfinished ▸ hrun)
    exact ⟨_, s₂, (h.trans (path_cons hstep .refl)).trans (hpath₁.trans hpath₂),
      not_barrier hcall₂ hp hlast⟩

end Teardown

end SwiftBitcoinKernel
