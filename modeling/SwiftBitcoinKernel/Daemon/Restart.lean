/-
  File:      SwiftBitcoinKernel/Daemon/Restart.lean
  Subject:   In-process restarts: does `bitcoin_rpc` execute in the run that is inside
             `bitcoind_main`?

  The bridge knows nothing of the lifecycle: `_bridge_init` captures a `NodeContext` once, and only
  `bitcoin_rpc_reset` lets it go. `bitcoind_main` destroys the context as it returns.

  * `Daemon`, `Daemon.Label`, `daemon` -- the lifecycle and the bridge side by side, with a record
    of every execution. An HTTP request is served by a run that is inside `bitcoind_main`, and
    `StopHTTPServer` waits for its handler before that run returns;
  * `Current` -- every execution used the context of the run inside `bitcoind_main`;
  * `Unexposed` -- the condition on a return: its context is out of the bridge's reach;
  * `executions_current` -- under it, no run executes with a stale context; `stale_execution` --
    the documented restart, and a call in flight during a reset, do;
  * `exposed_return` -- and every return without the condition can be followed by one.
-/
import SwiftBitcoinKernel.Daemon.Lifecycle
import SwiftBitcoinKernel.Daemon.Bridge

namespace SwiftBitcoinKernel

open Logic

/-! ## 1. The machine -/

/-- One `tableRPC.execute(req)` of `bitcoin_rpc`: the run `req.context` belongs to, and the run
    that was inside `bitcoind_main`. -/
structure Execution where
  context : Nat
  current : Option Nat
  deriving DecidableEq, Repr

/-- The process. -/
structure Daemon where
  lifecycle : Lifecycle
  bridge : Bridge
  executions : List Execution
  deriving DecidableEq, Repr

/-- The steps. -/
inductive Daemon.Label where
  | lifecycle (a : Lifecycle.Label)
  | bridge (a : Bridge.Label)
  deriving DecidableEq, Repr

namespace Daemon

/-- As the process starts. -/
def initial : Daemon := ⟨.initial, .initial, []⟩

/-- `Shutdown` joins the HTTP workers before `bitcoind_main` returns. -/
def Joined (s : Daemon) : Lifecycle.Label → Prop
  | .mainReturn r => ∀ h ∈ s.bridge.handlers, h.overHTTP = true → h.context = r → h.phase = .done
  | .start | .drain | .detach | .enterMain _ | .stop _ | .clear _ | .signal _ | .wait | .wake _ =>
    True

instance (s : Daemon) (a : Lifecycle.Label) : Decidable (s.Joined a) :=
  match a with
  | .mainReturn r => inferInstanceAs (Decidable
      (∀ h ∈ s.bridge.handlers, h.overHTTP = true → h.context = r → h.phase = .done))
  | .start | .drain | .detach | .enterMain _ | .stop _ | .clear _ | .signal _ | .wait | .wake _ =>
    inferInstanceAs (Decidable True)

/-- An HTTP request is served by a run that is inside `bitcoind_main`. -/
def Served (s : Daemon) : Bridge.Label → Prop
  | .serve r => s.lifecycle.Inside r
  | .handler _ | .reset | .clear _ | .rpc _ | .call _ => True

instance (s : Daemon) (a : Bridge.Label) : Decidable (s.Served a) :=
  match a with
  | .serve r => inferInstanceAs (Decidable (s.lifecycle.Inside r))
  | .handler _ | .reset | .clear _ | .rpc _ | .call _ => inferInstanceAs (Decidable True)

/-- The record of an execution, if the step is one. -/
def executed (s : Daemon) (a : Bridge.Label) : List Execution :=
  ((s.bridge.execution a).map fun context => ⟨context, s.lifecycle.current⟩).toList

/-- What a step does, where it is enabled. -/
def step (s : Daemon) : Label → Option Daemon
  | .lifecycle a =>
    if s.Joined a then (s.lifecycle.step a).map fun lifecycle => { s with lifecycle } else none
  | .bridge a =>
    if s.Served a then
      (s.bridge.step a).map fun bridge =>
        { s with bridge, executions := s.executions ++ s.executed a }
    else none

/-- **Every execution used the context of the run inside `bitcoind_main`.** -/
def Current (s : Daemon) : Prop := ∀ e ∈ s.executions, e.current = some e.context

/-- The condition on the return of `bitcoind_main`: its context is out of reach. -/
def Unexposed (s : Daemon) : Label → Prop
  | .lifecycle (.mainReturn r) => ¬s.bridge.Reaches r
  | _ => True

instance (s : Daemon) (a : Label) : Decidable (s.Unexposed a) :=
  match a with
  | .lifecycle (.mainReturn r) => inferInstanceAs (Decidable (¬s.bridge.Reaches r))
  | .lifecycle .start | .lifecycle .drain | .lifecycle .detach | .lifecycle (.enterMain _)
  | .lifecycle (.stop _) | .lifecycle (.clear _) | .lifecycle (.signal _) | .lifecycle .wait
  | .lifecycle (.wake _) | .bridge _ => inferInstanceAs (Decidable True)

end Daemon

/-- All interleavings of `Daemon.start`, the daemon's threads, `waitUntilStopped`, `_bridge_init`,
    `bitcoin_rpc` and `bitcoin_rpc_reset`. -/
def daemon : Machine Daemon Daemon.Label := ⟨.initial, Daemon.step⟩

namespace Daemon

variable {s s' : Daemon} {a : Label} {ls : List Label} {r : Nat}

/-! ## 2. Stale contexts -/

theorem step_lifecycle {a : Lifecycle.Label} (h : s.step (.lifecycle a) = some s') :
    s.Joined a ∧ ∃ l, s.lifecycle.step a = some l ∧ s' = { s with lifecycle := l } := by
  unfold step at h
  dsimp only at h
  split at h
  · rename_i hjoined
    obtain ⟨l, hl, rfl⟩ := Option.map_eq_some_iff.1 h
    exact ⟨hjoined, l, hl, rfl⟩
  · cases h

theorem step_bridge {a : Bridge.Label} (h : s.step (.bridge a) = some s') :
    s.Served a ∧ ∃ b, s.bridge.step a = some b ∧
      s' = { s with bridge := b, executions := s.executions ++ s.executed a } := by
  unfold step at h
  dsimp only at h
  split at h
  · rename_i hserved
    obtain ⟨b, hb, rfl⟩ := Option.map_eq_some_iff.1 h
    exact ⟨hserved, b, hb, rfl⟩
  · cases h

/-- What every unexposed run keeps: no stale context is within reach. -/
structure Sound (s : Daemon) : Prop where
  exclusive : s.lifecycle.Exclusive
  reach : ∀ r, s.bridge.Reaches r → s.lifecycle.Inside r
  current : s.Current

theorem sound_initial : Sound .initial where
  exclusive := Lifecycle.exclusive_initial
  reach r h := by
    rcases h with ⟨_, hx, _⟩ | ⟨_, hx, _⟩ | ⟨hnode, _⟩
    · cases hx
    · cases hx
    · cases hnode
  current := nofun

theorem sound_step (h : s.Sound) (hok : s.Unexposed a) (hstep : s.step a = some s') :
    s'.Sound := by
  cases a with
  | lifecycle a =>
    obtain ⟨_, l, hl, rfl⟩ := step_lifecycle hstep
    refine ⟨Lifecycle.exclusive_step h.exclusive hl, fun r hr => ?_, h.current⟩
    rcases Lifecycle.inside_step (h.reach r hr) hl with hinside | rfl
    · exact hinside
    · exact absurd hr hok
  | bridge a =>
    obtain ⟨hserved, b, hb, rfl⟩ := step_bridge hstep
    refine ⟨h.exclusive, fun r hr => ?_, fun e he => ?_⟩
    · rcases Bridge.reaches_step hb hr with hr | rfl
      · exact h.reach r hr
      · exact hserved
    · rcases List.mem_append.1 he with he | he
      · exact h.current e he
      · -- a context that is executed with was within reach, hence the current one
        unfold executed at he
        rw [Option.mem_toList, Option.map_eq_some_iff] at he
        obtain ⟨context, hexec, rfl⟩ := he
        exact h.exclusive.current_eq (h.reach context (Bridge.reaches_of_execution hexec))

end Daemon

/-- **Unexposed runs execute in the current run only**: if at every return of `bitcoind_main` the
    bridge has no way left to the context that goes with it, then every execution of `bitcoin_rpc`
    used the context of the run that was inside `bitcoind_main`. -/
theorem executions_current {ls : List Daemon.Label} {s : Daemon}
    (h : daemon.Run Daemon.Unexposed ls s) : s.Current :=
  (h.invariant (I := Daemon.Sound) Daemon.sound_initial
    fun _ _ _ hs hok hstep => Daemon.sound_step hs hok hstep).current

/-! ## 3. With a reset and without -/

/-- `startAndConnect` of run `r`, with the handler `h` of its `_bridge_init` request, up to the
    handler's last access; it has three if it finds the gate closed, and one if it does not. -/
def Daemon.connecting (r h accesses : Nat) : List Daemon.Label :=
  [.lifecycle .start, .lifecycle .drain, .lifecycle .detach, .lifecycle (.enterMain r),
    .bridge (.serve r)] ++ List.replicate accesses (.bridge (.handler h))

/-- The `stop` RPC, the end of run `r`, and a `waitUntilStopped()` that returns behind it. -/
def Daemon.stopping (r w : Nat) : List Daemon.Label :=
  [.lifecycle (.stop r), .lifecycle .wait, .lifecycle (.mainReturn r), .lifecycle (.clear r),
    .lifecycle (.signal r), .lifecycle (.wake w)]

/-- The whole of `bitcoin_rpc_reset`. -/
def Daemon.resetting (i : Nat) : List Daemon.Label :=
  [.bridge .reset, .bridge (.clear i), .bridge (.clear i)]

/-- The whole of `bitcoin_rpc`. -/
def Daemon.calling (method : String) (c : Nat) : List Daemon.Label :=
  [.bridge (.rpc method), .bridge (.call c), .bridge (.call c), .bridge (.call c)]

open Daemon in
/-- A restart with `bitcoin_rpc_reset` ahead of `stop`. -/
theorem executions_current_reset :
    ∃ s, daemon.Run Daemon.Unexposed (connecting 0 0 3 ++ calling "getblockchaininfo" 0 ++
      resetting 0 ++ stopping 0 0 ++ connecting 1 1 3 ++ calling "getblockchaininfo" 1) s ∧
      s.executions = [⟨0, some 0⟩, ⟨1, some 1⟩] ∧ s.Current := by
  have hrun : daemon.exec Daemon.Unexposed (connecting 0 0 3 ++ calling "getblockchaininfo" 0 ++
      resetting 0 ++ stopping 0 0 ++ connecting 1 1 3 ++ calling "getblockchaininfo" 1) =
      some ⟨⟨true, 0, none, [.signalled, .inMain], [⟨some 0, true⟩]⟩,
        ⟨true, some 1, [⟨0, true, .done⟩, ⟨1, true, .done⟩], [.done],
          [⟨"getblockchaininfo", .done⟩, ⟨"getblockchaininfo", .done⟩]⟩,
        [⟨0, some 0⟩, ⟨1, some 1⟩]⟩ := by decide
  exact ⟨_, Machine.exec_run hrun, rfl, executions_current (Machine.exec_run hrun)⟩

open Daemon in
/-- **The documented restart executes in the run that has ended**: `_bridge_init` of the second run
    finds the gate open and captures nothing. And so does a call that has loaded the context when
    `bitcoin_rpc_reset` and the end of the run overtake it. -/
theorem stale_execution :
    (∃ s, daemon.Run Machine.always (connecting 0 0 3 ++ stopping 0 0 ++ connecting 1 1 1 ++
      calling "getblockchaininfo" 0) s ∧ s.executions = [⟨0, some 1⟩] ∧ ¬s.Current) ∧
    (∃ s, daemon.Run Machine.always (connecting 0 0 3 ++
      [.bridge (.rpc "getblockchaininfo"), .bridge (.call 0), .bridge (.call 0)] ++ resetting 0 ++
      stopping 0 0 ++ [.bridge (.call 0)]) s ∧ s.executions = [⟨0, none⟩] ∧ ¬s.Current) := by
  have hrestart : daemon.exec Machine.always (connecting 0 0 3 ++ stopping 0 0 ++
      connecting 1 1 1 ++ calling "getblockchaininfo" 0) =
      some ⟨⟨true, 0, none, [.signalled, .inMain], [⟨some 0, true⟩]⟩,
        ⟨true, some 0, [⟨0, true, .done⟩, ⟨1, true, .done⟩], [],
          [⟨"getblockchaininfo", .done⟩]⟩, [⟨0, some 1⟩]⟩ := by decide
  have hoverlap : daemon.exec Machine.always (connecting 0 0 3 ++
      [.bridge (.rpc "getblockchaininfo"), .bridge (.call 0), .bridge (.call 0)] ++ resetting 0 ++
      stopping 0 0 ++ [.bridge (.call 0)]) =
      some ⟨⟨false, 0, none, [.signalled], [⟨some 0, true⟩]⟩,
        ⟨false, none, [⟨0, true, .done⟩], [.done], [⟨"getblockchaininfo", .done⟩]⟩,
        [⟨0, none⟩]⟩ := by decide
  refine ⟨⟨_, Machine.exec_run hrestart, rfl, fun h => ?_⟩,
    ⟨_, Machine.exec_run hoverlap, rfl, fun h => ?_⟩⟩
  · cases h _ (List.mem_singleton_self _)
  · cases h _ (List.mem_singleton_self _)

/-! ## 4. The condition leaves out nothing else -/

namespace Daemon

variable {s s' : Daemon} {ls : List Label} {r c : Nat}

theorem bridge_enabled {a : Bridge.Label} {b : Bridge} (hserved : s.Served a)
    (hb : s.bridge.step a = some b) : s.step (.bridge a) =
      some { s with bridge := b, executions := s.executions ++ s.executed a } := by
  unfold step
  dsimp only
  rw [if_pos hserved, hb]
  rfl

/-- What the bridge can do by itself, the process can. -/
theorem path_bridge {more : List Bridge.Label} {b : Bridge}
    (h : Logic.Machine.Path SwiftBitcoinKernel.bridge Bridge.Detached s.bridge more b) :
    ∃ s', daemon.Path Machine.always s (more.map .bridge) s' ∧ s'.bridge = b ∧
      s'.lifecycle = s.lifecycle := by
  induction h with
  | refl => exact ⟨s, .refl, rfl, rfl⟩
  | step _ hdetached hstep ih =>
    rename_i before b₀ b₁ a _
    obtain ⟨s₁, hpath, rfl, hsame⟩ := ih
    have hserved : s₁.Served a := by
      cases a with
      | serve context => cases hdetached
      | handler _ | reset | clear _ | rpc _ | call _ => trivial
    have hnext : daemon.step s₁ (.bridge a) = some { s₁ with
        bridge := b₁, executions := s₁.executions ++ s₁.executed a } :=
      bridge_enabled hserved hstep
    refine ⟨{ s₁ with bridge := b₁, executions := s₁.executions ++ s₁.executed a }, ?_, rfl, hsame⟩
    rw [List.map_append]
    exact .step hpath trivial hnext

/-- A call that holds a context executes with it. -/
theorem step_execution (h : s.bridge.execution (.call c) = some r) :
    ∃ s', s.step (.bridge (.call c)) = some s' ∧ ⟨r, s.lifecycle.current⟩ ∈ s'.executions := by
  have hrecord : (⟨r, s.lifecycle.current⟩ : Execution) ∈ s.executed (.call c) := by
    unfold executed
    rw [h]
    exact List.mem_singleton_self _
  obtain ⟨b, hb⟩ := Bridge.step_of_execution h
  exact ⟨_, bridge_enabled trivial hb, List.mem_append_right _ hrecord⟩

/-- **Every exposed return can be followed by a stale execution**, whatever came before it. -/
theorem exposed_return (hreturn : s.step (.lifecycle (.mainReturn r)) = some s')
    (hreach : s.bridge.Reaches r) :
    ∃ more s₁, daemon.Path Machine.always s' more s₁ ∧ ¬s₁.Current := by
  obtain ⟨_, l, hl, rfl⟩ := step_lifecycle hreturn
  obtain ⟨⟨phase, hr, _⟩, rfl⟩ := Lifecycle.step_mainReturn hl
  obtain ⟨hlt, _⟩ := List.getElem?_eq_some_iff.1 hr
  obtain ⟨more, b, c, hpath, hexec⟩ := Bridge.reaches_execution hreach
  obtain ⟨s₁, hrun, rfl, hsame⟩ := path_bridge
    (s := { s with lifecycle := { s.lifecycle with
      runs := s.lifecycle.runs.set r .returned } }) hpath
  obtain ⟨s₂, hstep, hmem⟩ := step_execution hexec
  have hlast : daemon.step s₁ (.bridge (.call c)) = some s₂ := hstep
  refine ⟨_, s₂, hrun.step trivial hlast, fun hcurrent => ?_⟩
  -- the run has returned, so it is not the one inside
  obtain ⟨phase', hr', hinside⟩ := Lifecycle.inside_of_current (hcurrent _ hmem)
  rw [hsame] at hr'
  have hreturned : (s.lifecycle.runs.set r .returned)[r]? = some .returned :=
    List.getElem?_set_self hlt
  rw [Option.mem_def, hreturned] at hr'
  cases hr'
  cases hinside

end Daemon

end SwiftBitcoinKernel
