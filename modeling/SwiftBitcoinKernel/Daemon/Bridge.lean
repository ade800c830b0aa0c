/-
  File:      SwiftBitcoinKernel/Daemon/Bridge.lean
  Subject:   The direct RPC bridge: `g_ready`, `g_node_ctx` and the calls that share them.

  The two atomics outlive a run of the daemon. `_bridge_init` sets them, `bitcoin_rpc_reset` clears
  them, and `bitcoin_rpc` reads them, one after the other, before it executes a command.

  * `Bridge`, `Bridge.Label`, `Bridge.step` -- the atomics and every call on them, one step for each
    load, store or execution. A pointer to a `NodeContext` is the number of the run that owns it;
  * `Bridge.execution` -- the context a step executes a command with;
  * `Bridge.Reaches` -- what it takes for a context to be executed with later on;
  * `reaches_step` -- no step makes a context reachable but the dispatch of a `_bridge_init` request
    of its own run;
  * `reaches_execution` -- and a context that is reachable can be executed with.
-/
import SwiftBitcoinKernel.Logic.Transition

namespace SwiftBitcoinKernel

open Logic

/-! ## 1. The machine -/

/-- Where a `_bridge_init` handler stands. -/
inductive HandlerPhase where
  /-- At `g_ready.load()`. -/
  | testing
  /-- At `g_node_ctx.store(...)`. -/
  | storingContext
  /-- At `g_ready.store(true)`. -/
  | storingReady
  | done
  deriving DecidableEq, Repr

/-- A `_bridge_init` handler, with `&EnsureAnyNodeContext(request.context)`. -/
structure Handler where
  context : Nat
  /-- Whether the request came in through the daemon's HTTP server, not through `bitcoin_rpc`. -/
  overHTTP : Bool
  phase : HandlerPhase
  deriving DecidableEq, Repr

/-- Where a `bitcoin_rpc_reset` call stands. -/
inductive ResetPhase where
  /-- At `g_ready.store(false)`. -/
  | storingReady
  /-- At `g_node_ctx.store(nullptr)`. -/
  | storingContext
  | done
  deriving DecidableEq, Repr

/-- Where a `bitcoin_rpc` call stands. -/
inductive CallPhase where
  /-- At `g_ready.load()`. -/
  | entered
  /-- At `g_node_ctx.load()`. -/
  | checked
  /-- At `tableRPC.execute(req)`, with `req.context` loaded. -/
  | holding (context : Nat)
  | done
  deriving DecidableEq, Repr

/-- A `bitcoin_rpc` call. -/
structure Call where
  method : String
  phase : CallPhase
  deriving DecidableEq, Repr

/-- The atomics, and all calls so far. -/
structure Bridge where
  /-- `g_ready`. -/
  ready : Bool
  /-- `g_node_ctx`. -/
  nodeCtx : Option Nat
  handlers : List Handler
  resets : List ResetPhase
  calls : List Call
  deriving DecidableEq, Repr

/-- The steps. -/
inductive Bridge.Label where
  /-- The HTTP server of a run dispatches a `_bridge_init` request. -/
  | serve (context : Nat)
  /-- The next access of a handler. -/
  | handler (h : Nat)
  /-- `bitcoin_rpc_reset` is called. -/
  | reset
  /-- Its next store. -/
  | clear (i : Nat)
  /-- `bitcoin_rpc` is called. -/
  | rpc (method : String)
  /-- Its next load, or the execution. -/
  | call (c : Nat)
  deriving DecidableEq, Repr

namespace Bridge

/-- As the process starts. -/
def initial : Bridge := ⟨false, none, [], [], []⟩

/-- What a step does, where it is enabled. -/
def step (s : Bridge) : Label → Option Bridge
  | .serve context => some { s with handlers := s.handlers ++ [⟨context, true, .testing⟩] }
  | .handler h =>
    match s.handlers[h]? with
    | some ⟨context, overHTTP, .testing⟩ =>
      let phase := if s.ready then .done else .storingContext
      some { s with handlers := s.handlers.set h ⟨context, overHTTP, phase⟩ }
    | some ⟨context, overHTTP, .storingContext⟩ =>
      some { s with
        nodeCtx := some context
        handlers := s.handlers.set h ⟨context, overHTTP, .storingReady⟩ }
    | some ⟨context, overHTTP, .storingReady⟩ =>
      some { s with ready := true, handlers := s.handlers.set h ⟨context, overHTTP, .done⟩ }
    | _ => none
  | .reset => some { s with resets := s.resets ++ [.storingReady] }
  | .clear i =>
    match s.resets[i]? with
    | some .storingReady => some { s with ready := false, resets := s.resets.set i .storingContext }
    | some .storingContext => some { s with nodeCtx := none, resets := s.resets.set i .done }
    | _ => none
  | .rpc method => some { s with calls := s.calls ++ [⟨method, .entered⟩] }
  | .call c =>
    match s.calls[c]? with
    | some ⟨method, .entered⟩ =>
      let phase := if s.ready then .checked else .done
      some { s with calls := s.calls.set c ⟨method, phase⟩ }
    | some ⟨method, .checked⟩ =>
      let phase := s.nodeCtx.elim .done .holding
      some { s with calls := s.calls.set c ⟨method, phase⟩ }
    | some ⟨method, .holding context⟩ =>
      -- `_bridge_init` itself can be called this way, with the context loaded here
      let nested := if method = "_bridge_init" then [⟨context, false, .testing⟩] else []
      some { s with
        handlers := s.handlers ++ nested
        calls := s.calls.set c ⟨method, .done⟩ }
    | _ => none

/-- The context a step hands to `tableRPC.execute`, if it is such a step. -/
def execution (s : Bridge) : Label → Option Nat
  | .call c =>
    match s.calls[c]? with
    | some ⟨_, .holding context⟩ => some context
    | _ => none
  | _ => none

/-- A handler is about to store the context. -/
def Storing (s : Bridge) (context : Nat) : Prop :=
  ∃ h ∈ s.handlers, h.context = context ∧ (h.phase = .testing ∨ h.phase = .storingContext)

/-- A call has loaded the context. -/
def Held (s : Bridge) (context : Nat) : Prop := ∃ c ∈ s.calls, c.phase = .holding context

/-- The gate is open, or a call is past it already, or a handler is about to open it. -/
def Open (s : Bridge) : Prop :=
  s.ready = true ∨ (∃ c ∈ s.calls, c.phase = .checked) ∨ ∃ h ∈ s.handlers, h.phase = .storingReady

/-- **A context is within reach**: a handler is about to store it, a call holds it, or `g_node_ctx`
    has it and the gate does not keep it in. -/
def Reaches (s : Bridge) (context : Nat) : Prop :=
  s.Storing context ∨ s.Held context ∨ (s.nodeCtx = some context ∧ s.Open)

instance (s : Bridge) (context : Nat) : Decidable (s.Reaches context) :=
  inferInstanceAs (Decidable ((∃ h ∈ s.handlers, h.context = context ∧
      (h.phase = .testing ∨ h.phase = .storingContext)) ∨
    (∃ c ∈ s.calls, c.phase = .holding context) ∨
    (s.nodeCtx = some context ∧
      (s.ready = true ∨ (∃ c ∈ s.calls, c.phase = .checked) ∨
        ∃ h ∈ s.handlers, h.phase = .storingReady))))

end Bridge

/-- The bridge by itself. -/
def bridge : Machine Bridge Bridge.Label := ⟨.initial, Bridge.step⟩

namespace Bridge

variable {s s' : Bridge} {a : Label} {r c h context : Nat} {overHTTP : Bool} {method : String}

/-! ## 2. Reach does not grow by itself -/

theorem reaches_of_execution (h : s.execution a = some r) : s.Reaches r := by
  cases a with
  | call c =>
    unfold execution at h
    dsimp only at h
    split at h
    · rename_i method context hc
      cases h
      exact .inr (.inl ⟨_, List.mem_of_getElem? hc, rfl⟩)
    · cases h
  | serve _ | handler _ | reset | clear _ | rpc _ => cases h

/-- A handler past its first store is about to store nothing. -/
theorem storing_of_set_past {x : Handler}
    (hstoring : ∃ z ∈ s.handlers.set h x, z.context = r ∧
      (z.phase = .testing ∨ z.phase = .storingContext))
    (htest : x.phase ≠ .testing) (hstore : x.phase ≠ .storingContext) : s.Storing r := by
  rcases exists_mem_set hstoring with hstoring | ⟨_, hphase⟩
  · exact hstoring
  · exact absurd hphase (not_or.2 ⟨htest, hstore⟩)

theorem reaches_handler (hstep : s.step (.handler h) = some s') (hreach : s'.Reaches r) :
    s.Reaches r := by
  unfold step at hstep
  dsimp only at hstep
  split at hstep
  · -- the test: the handler still has its context, and opens nothing yet
    rename_i context overHTTP hh
    cases hstep
    have hx := List.mem_of_getElem? hh
    rcases hreach with hstoring | hheld | ⟨hnode, hready | hchecked | hopening⟩
    · rcases exists_mem_set hstoring with hstoring | ⟨hcontext, _⟩
      · exact .inl hstoring
      · exact .inl ⟨_, hx, hcontext, .inl rfl⟩
    · exact .inr (.inl hheld)
    · exact .inr (.inr ⟨hnode, .inl hready⟩)
    · exact .inr (.inr ⟨hnode, .inr (.inl hchecked)⟩)
    · rcases exists_mem_set hopening with hopening | hphase
      · exact .inr (.inr ⟨hnode, .inr (.inr hopening)⟩)
      · dsimp only at hphase
        split at hphase <;> cases hphase
  · -- the store: what `g_node_ctx` gets is what the handler had
    rename_i context overHTTP hh
    cases hstep
    have hx := List.mem_of_getElem? hh
    rcases hreach with hstoring | hheld | ⟨hnode, _⟩
    · exact .inl (storing_of_set_past hstoring nofun nofun)
    · exact .inr (.inl hheld)
    · exact .inl ⟨_, hx, Option.some.inj hnode, .inr rfl⟩
  · -- the gate opens, as it was about to
    rename_i context overHTTP hh
    cases hstep
    have hx := List.mem_of_getElem? hh
    rcases hreach with hstoring | hheld | ⟨hnode, _⟩
    · exact .inl (storing_of_set_past hstoring nofun nofun)
    · exact .inr (.inl hheld)
    · exact .inr (.inr ⟨hnode, .inr (.inr ⟨_, hx, rfl⟩)⟩)
  · cases hstep

theorem reaches_clear (hstep : s.step (.clear c) = some s') (hreach : s'.Reaches r) :
    s.Reaches r := by
  unfold step at hstep
  dsimp only at hstep
  split at hstep
  · cases hstep
    rcases hreach with hstoring | hheld | ⟨hnode, hready | hopen⟩
    · exact .inl hstoring
    · exact .inr (.inl hheld)
    · cases hready
    · exact .inr (.inr ⟨hnode, .inr hopen⟩)
  · cases hstep
    rcases hreach with hstoring | hheld | ⟨hnode, _⟩
    · exact .inl hstoring
    · exact .inr (.inl hheld)
    · cases hnode
  · cases hstep

theorem reaches_rpc (hstep : s.step (.rpc method) = some s') (hreach : s'.Reaches r) :
    s.Reaches r := by
  cases hstep
  rcases hreach with hstoring | hheld | ⟨hnode, hready | hchecked | hopening⟩
  · exact .inl hstoring
  · rcases exists_mem_snoc hheld with hheld | hphase
    · exact .inr (.inl hheld)
    · cases hphase
  · exact .inr (.inr ⟨hnode, .inl hready⟩)
  · rcases exists_mem_snoc hchecked with hchecked | hphase
    · exact .inr (.inr ⟨hnode, .inr (.inl hchecked)⟩)
    · cases hphase
  · exact .inr (.inr ⟨hnode, .inr (.inr hopening)⟩)

theorem reaches_call (hstep : s.step (.call c) = some s') (hreach : s'.Reaches r) :
    s.Reaches r := by
  unfold step at hstep
  dsimp only at hstep
  split at hstep
  · -- past the gate only if it is open
    rename_i method hc
    cases hstep
    rcases hreach with hstoring | hheld | ⟨hnode, hready | hchecked | hopening⟩
    · exact .inl hstoring
    · rcases exists_mem_set hheld with hheld | hphase
      · exact .inr (.inl hheld)
      · dsimp only at hphase
        split at hphase <;> cases hphase
    · exact .inr (.inr ⟨hnode, .inl hready⟩)
    · rcases exists_mem_set hchecked with hchecked | hphase
      · exact .inr (.inr ⟨hnode, .inr (.inl hchecked)⟩)
      · dsimp only at hphase
        split at hphase
        · rename_i hready
          exact .inr (.inr ⟨hnode, .inl hready⟩)
        · cases hphase
    · exact .inr (.inr ⟨hnode, .inr (.inr hopening)⟩)
  · -- what it loads is what `g_node_ctx` has
    rename_i method hc
    cases hstep
    have hx := List.mem_of_getElem? hc
    rcases hreach with hstoring | hheld | ⟨hnode, _⟩
    · exact .inl hstoring
    · rcases exists_mem_set hheld with hheld | hphase
      · exact .inr (.inl hheld)
      · cases hnode : s.nodeCtx with
        | none =>
          rw [hnode] at hphase
          cases hphase
        | some context =>
          rw [hnode] at hphase
          cases hphase
          exact .inr (.inr ⟨hnode, .inr (.inl ⟨_, hx, rfl⟩)⟩)
    · exact .inr (.inr ⟨hnode, .inr (.inl ⟨_, hx, rfl⟩)⟩)
  · -- a nested handler has the context the call held
    rename_i method context hc
    cases hstep
    have hx := List.mem_of_getElem? hc
    have hnew : ∀ z, z ∈ s.handlers ++ (if method = "_bridge_init" then
        [(⟨context, false, .testing⟩ : Handler)] else []) →
        z ∈ s.handlers ∨ z = ⟨context, false, .testing⟩ := by
      intro z hz
      rcases List.mem_append.1 hz with hz | hz
      · exact .inl hz
      · split at hz
        · exact .inr (List.mem_singleton.1 hz)
        · cases hz
    rcases hreach with ⟨z, hz, hcontext, hphase⟩ | hheld |
      ⟨hnode, hready | hchecked | ⟨z, hz, hphase⟩⟩
    · rcases hnew z hz with hz | rfl
      · exact .inl ⟨z, hz, hcontext, hphase⟩
      · exact .inr (.inl ⟨_, hx, congrArg CallPhase.holding hcontext⟩)
    · rcases exists_mem_set hheld with hheld | hphase
      · exact .inr (.inl hheld)
      · cases hphase
    · exact .inr (.inr ⟨hnode, .inl hready⟩)
    · rcases exists_mem_set hchecked with hchecked | hphase
      · exact .inr (.inr ⟨hnode, .inr (.inl hchecked)⟩)
      · cases hphase
    · rcases hnew z hz with hz | rfl
      · exact .inr (.inr ⟨hnode, .inr (.inr ⟨z, hz, hphase⟩)⟩)
      · cases hphase
  · cases hstep

/-- **What a step puts within reach**: nothing that was not, but the context of a run whose HTTP
    server dispatches a `_bridge_init` request. -/
theorem reaches_step (hstep : s.step a = some s') (hreach : s'.Reaches r) :
    s.Reaches r ∨ a = .serve r := by
  cases a with
  | serve context =>
    cases hstep
    rcases hreach with hstoring | hheld | ⟨hnode, hready | hchecked | hopening⟩
    · rcases exists_mem_snoc hstoring with hstoring | ⟨hcontext, _⟩
      · exact .inl (.inl hstoring)
      · exact .inr (congrArg Label.serve hcontext)
    · exact .inl (.inr (.inl hheld))
    · exact .inl (.inr (.inr ⟨hnode, .inl hready⟩))
    · exact .inl (.inr (.inr ⟨hnode, .inr (.inl hchecked)⟩))
    · rcases exists_mem_snoc hopening with hopening | hphase
      · exact .inl (.inr (.inr ⟨hnode, .inr (.inr hopening)⟩))
      · cases hphase
  | handler h => exact .inl (reaches_handler hstep hreach)
  | reset =>
    cases hstep
    exact .inl hreach
  | clear i => exact .inl (reaches_clear hstep hreach)
  | rpc method => exact .inl (reaches_rpc hstep hreach)
  | call c => exact .inl (reaches_call hstep hreach)

/-! ## 3. Within reach means executable -/

/-- Steps that need no daemon: all but the dispatch of an HTTP request. -/
def Detached (_ : Bridge) : Label → Prop
  | .serve _ => False
  | .handler _ | .reset | .clear _ | .rpc _ | .call _ => True

/-- Such steps can lead to an execution with the context. -/
def CanExecute (s : Bridge) (context : Nat) : Prop :=
  ∃ more s' c, bridge.Path Detached s more s' ∧ s'.execution (.call c) = some context

theorem canExecute_step (hstep : s.step a = some s') (ha : Detached s a)
    (h : s'.CanExecute r) : s.CanExecute r := by
  obtain ⟨more, s₁, c, hpath, hexec⟩ := h
  exact ⟨a :: more, s₁, c, .head ha hstep hpath, hexec⟩

theorem step_of_execution (h : s.execution (.call c) = some r) :
    ∃ s', s.step (.call c) = some s' := by
  unfold execution at h
  dsimp only at h
  split at h
  · rename_i method context hc
    unfold step
    dsimp only
    rw [hc]
    exact ⟨_, rfl⟩
  · cases h

theorem canExecute_held (h : s.Held r) : s.CanExecute r := by
  obtain ⟨⟨method, phase⟩, hx, rfl⟩ := h
  obtain ⟨c, hc⟩ := List.mem_iff_getElem?.1 hx
  refine ⟨[], s, c, .refl, ?_⟩
  unfold execution
  dsimp only
  rw [hc]

theorem canExecute_checked (hnode : s.nodeCtx = some r) (h : ∃ c ∈ s.calls, c.phase = .checked) :
    s.CanExecute r := by
  obtain ⟨⟨method, phase⟩, hx, rfl⟩ := h
  obtain ⟨c, hc⟩ := List.mem_iff_getElem?.1 hx
  obtain ⟨hlt, _⟩ := List.getElem?_eq_some_iff.1 hc
  have hstep : s.step (.call c) =
      some { s with calls := s.calls.set c ⟨method, .holding r⟩ } := by
    unfold step
    dsimp only
    rw [hc, hnode]
    rfl
  exact canExecute_step hstep trivial (canExecute_held ⟨_, List.mem_set hlt _, rfl⟩)

theorem canExecute_ready (hnode : s.nodeCtx = some r) (hready : s.ready = true) :
    s.CanExecute r := by
  -- a new call passes the gate
  have hcall : (s.calls ++ [⟨"", .entered⟩])[s.calls.length]? = some ⟨"", .entered⟩ :=
    List.getElem?_concat_length
  have hpass : step { s with calls := s.calls ++ [⟨"", .entered⟩] } (.call s.calls.length) =
      some { s with
        calls := (s.calls ++ [(⟨"", .entered⟩ : Call)]).set s.calls.length ⟨"", .checked⟩ } := by
    unfold step
    dsimp only
    rw [hcall]
    dsimp only
    rw [hready]
    rfl
  have hlt : s.calls.length < (s.calls ++ [(⟨"", .entered⟩ : Call)]).length := by simp
  have henter : s.step (.rpc "") = some { s with calls := s.calls ++ [⟨"", .entered⟩] } := rfl
  exact canExecute_step henter trivial (canExecute_step hpass trivial
    (canExecute_checked hnode ⟨_, List.mem_set hlt _, rfl⟩))

theorem canExecute_opening (hnode : s.nodeCtx = some r)
    (h : ∃ x ∈ s.handlers, x.phase = .storingReady) : s.CanExecute r := by
  obtain ⟨⟨context, overHTTP, phase⟩, hx, rfl⟩ := h
  obtain ⟨i, hi⟩ := List.mem_iff_getElem?.1 hx
  have hstep : s.step (.handler i) = some { s with
      ready := true, handlers := s.handlers.set i ⟨context, overHTTP, .done⟩ } := by
    unfold step
    dsimp only
    rw [hi]
  exact canExecute_step hstep trivial (canExecute_ready hnode rfl)

theorem canExecute_storing {i : Nat} (hi : s.handlers[i]? = some ⟨r, overHTTP, .storingContext⟩) :
    s.CanExecute r := by
  obtain ⟨hlt, _⟩ := List.getElem?_eq_some_iff.1 hi
  have hstep : s.step (.handler i) = some { s with
      nodeCtx := some r, handlers := s.handlers.set i ⟨r, overHTTP, .storingReady⟩ } := by
    unfold step
    dsimp only
    rw [hi]
  exact canExecute_step hstep trivial (canExecute_opening rfl ⟨_, List.mem_set hlt _, rfl⟩)

theorem canExecute_closed {i : Nat} (hi : s.handlers[i]? = some ⟨r, overHTTP, .testing⟩)
    (hready : s.ready = false) : s.CanExecute r := by
  obtain ⟨hlt, _⟩ := List.getElem?_eq_some_iff.1 hi
  have hstep : s.step (.handler i) = some { s with
      handlers := s.handlers.set i ⟨r, overHTTP, .storingContext⟩ } := by
    unfold step
    dsimp only
    rw [hi]
    dsimp only
    rw [hready]
    rfl
  exact canExecute_step hstep trivial (canExecute_storing (List.getElem?_set_self hlt))

theorem canExecute_testing {i : Nat} (hi : s.handlers[i]? = some ⟨r, overHTTP, .testing⟩) :
    s.CanExecute r := by
  -- a reset closes the gate, so that the handler's test lets it through
  have hreset : (s.resets ++ [.storingReady])[s.resets.length]? = some .storingReady :=
    List.getElem?_concat_length
  have hclose : step { s with resets := s.resets ++ [.storingReady] } (.clear s.resets.length) =
      some { s with
        ready := false
        resets := (s.resets ++ [ResetPhase.storingReady]).set s.resets.length
          .storingContext } := by
    unfold step
    dsimp only
    rw [hreset]
  have henter : s.step .reset = some { s with resets := s.resets ++ [.storingReady] } := rfl
  exact canExecute_step henter trivial (canExecute_step hclose trivial (canExecute_closed hi rfl))

/-- **What is within reach can be executed with.** -/
theorem reaches_execution (h : s.Reaches r) : s.CanExecute r := by
  rcases h with ⟨⟨context, overHTTP, phase⟩, hx, rfl, hphase⟩ | hheld |
    ⟨hnode, hready | hchecked | hopening⟩
  · obtain ⟨i, hi⟩ := List.mem_iff_getElem?.1 hx
    rcases hphase with rfl | rfl
    · exact canExecute_testing hi
    · exact canExecute_storing hi
  · exact canExecute_held hheld
  · exact canExecute_ready hnode hready
  · exact canExecute_checked hnode hchecked
  · exact canExecute_opening hnode hopening

end Bridge

end SwiftBitcoinKernel
