/-
  File:      SwiftBitcoinKernel/Daemon/Coherence.lean
  Subject:   `g_ready` and `g_node_ctx` when no call is writing them: do they agree?

  `_bridge_init` stores the context and then opens the gate, `bitcoin_rpc_reset` closes the gate and
  then clears the context. Each store is atomic, the pairs are not.

  * `Effect`, `effect_of_step` -- what a step does to the two flags and the calls that write them;
  * `Announced` -- in every run, a stored context is behind an open gate, or the gate is about to be
    opened, or the context is about to be cleared;
  * `InOrder` -- the condition on a reset's second store: the gate is closed, and no `_bridge_init`
    is between its two stores;
  * `Guarded` -- under it, a gate that is open, or about to be, has a context behind it;
  * `flags_agree` -- so the flags agree once all calls are done; `flags_disagree` -- without it they
    need not; `overtaken_stays` -- and a reset that is overtaken leaves the bridge ready without a
    context, until another call stores to one of the flags.
-/
import SwiftBitcoinKernel.Daemon.Bridge

namespace SwiftBitcoinKernel

open Logic

namespace Bridge

/-! ## 1. What a step does to the flags -/

/-- No `_bridge_init` and no `bitcoin_rpc_reset` is in progress. -/
def Quiet (s : Bridge) : Prop := (∀ x ∈ s.handlers, x.phase = .done) ∧ ∀ x ∈ s.resets, x = .done

instance (s : Bridge) : Decidable s.Quiet :=
  inferInstanceAs (Decidable ((∀ x ∈ s.handlers, x.phase = .done) ∧ ∀ x ∈ s.resets, x = .done))

/-- A `_bridge_init` is about to open the gate. -/
def Opening (s : Bridge) : Prop := ∃ x ∈ s.handlers, x.phase = .storingReady

instance (s : Bridge) : Decidable s.Opening :=
  inferInstanceAs (Decidable (∃ x ∈ s.handlers, x.phase = .storingReady))

/-- The effect of a step on the flags and on the calls that write them. -/
inductive Effect (s : Bridge) : Label → Bridge → Prop where
  /-- At most a new `_bridge_init` is there. -/
  | enter {a : Label} {s' : Bridge} (new : List Handler) (hclear : ∀ i, a ≠ .clear i)
      (hready : s'.ready = s.ready)
      (hnode : s'.nodeCtx = s.nodeCtx) (hresets : s'.resets = s.resets)
      (hhandlers : s'.handlers = s.handlers ++ new) (hnew : ∀ x ∈ new, x.phase = .testing) :
      Effect s a s'
  | test {h : Nat} {x : Handler} (hh : s.handlers[h]? = some x) (hphase : x.phase = .testing) :
      Effect s (.handler h) { s with
        handlers := s.handlers.set h { x with
          phase := if s.ready then .done else .storingContext } }
  | storeContext {h : Nat} {x : Handler} (hh : s.handlers[h]? = some x)
      (hphase : x.phase = .storingContext) :
      Effect s (.handler h) { s with
        nodeCtx := some x.context
        handlers := s.handlers.set h { x with phase := .storingReady } }
  | storeReady {h : Nat} {x : Handler} (hh : s.handlers[h]? = some x)
      (hphase : x.phase = .storingReady) :
      Effect s (.handler h) { s with
        ready := true
        handlers := s.handlers.set h { x with phase := .done } }
  | reset : Effect s .reset { s with resets := s.resets ++ [.storingReady] }
  | clearReady {i : Nat} (hi : s.resets[i]? = some .storingReady) :
      Effect s (.clear i) { s with ready := false, resets := s.resets.set i .storingContext }
  | clearContext {i : Nat} (hi : s.resets[i]? = some .storingContext) :
      Effect s (.clear i) { s with nodeCtx := none, resets := s.resets.set i .done }

variable {s s' : Bridge} {a : Label}

theorem effect_of_step (hstep : s.step a = some s') : Effect s a s' := by
  cases a with
  | serve context =>
    cases hstep
    exact .enter [⟨context, true, .testing⟩] nofun rfl rfl rfl rfl (List.forall_mem_singleton.2 rfl)
  | handler h =>
    unfold step at hstep
    dsimp only at hstep
    split at hstep
    · rename_i hh
      cases hstep
      exact .test hh rfl
    · rename_i hh
      cases hstep
      exact .storeContext hh rfl
    · rename_i hh
      cases hstep
      exact .storeReady hh rfl
    · cases hstep
  | reset =>
    cases hstep
    exact .reset
  | clear i =>
    unfold step at hstep
    dsimp only at hstep
    split at hstep
    · rename_i hi
      cases hstep
      exact .clearReady hi
    · rename_i hi
      cases hstep
      exact .clearContext hi
    · cases hstep
  | rpc method =>
    cases hstep
    exact .enter [] nofun rfl rfl rfl (List.append_nil _).symm nofun
  | call c =>
    unfold step at hstep
    dsimp only at hstep
    split at hstep
    · cases hstep
      exact .enter [] nofun rfl rfl rfl (List.append_nil _).symm nofun
    · cases hstep
      exact .enter [] nofun rfl rfl rfl (List.append_nil _).symm nofun
    · cases hstep
      refine .enter _ nofun rfl rfl rfl rfl ?_
      split
      · exact List.forall_mem_singleton.2 rfl
      · nofun
    · cases hstep

/-- A new call is not about to open the gate. -/
theorem opening_enter {new : List Handler} (hhandlers : s'.handlers = s.handlers ++ new)
    (hnew : ∀ x ∈ new, x.phase = .testing) : s'.Opening ↔ s.Opening := by
  unfold Opening
  rw [hhandlers]
  constructor
  · rintro ⟨x, hx, hphase⟩
    rcases List.mem_append.1 hx with hx | hx
    · exact ⟨x, hx, hphase⟩
    · rw [hnew x hx] at hphase
      cases hphase
  · rintro ⟨x, hx, hphase⟩
    exact ⟨x, List.mem_append_left _ hx, hphase⟩

/-! ## 2. A stored context is announced -/

/-- A stored context is behind an open gate, or the gate is about to be opened, or the context is
    about to be cleared. -/
def Announced (s : Bridge) : Prop :=
  s.nodeCtx ≠ none → s.ready = true ∨ s.Opening ∨ .storingContext ∈ s.resets

theorem announced_step (h : s.Announced) (hstep : s.step a = some s') : s'.Announced := by
  cases effect_of_step hstep with
  | enter new _ hready hnode hresets hhandlers hnew =>
    unfold Announced
    rw [hready, hnode, hresets, opening_enter hhandlers hnew]
    exact h
  | test hh hphase =>
    intro hnode
    rcases h hnode with hready | hopening | hclosing
    · exact .inl hready
    · refine .inr (.inl (exists_set_of_not hopening hh ?_))
      rw [hphase]
      nofun
    · exact .inr (.inr hclosing)
  | storeContext hh _ =>
    obtain ⟨hlt, _⟩ := List.getElem?_eq_some_iff.1 hh
    exact fun _ => .inr (.inl ⟨_, List.mem_set hlt _, rfl⟩)
  | storeReady => exact fun _ => .inl rfl
  | reset =>
    intro hnode
    rcases h hnode with hready | hopening | hclosing
    · exact .inl hready
    · exact .inr (.inl hopening)
    · exact .inr (.inr (List.mem_append_left _ hclosing))
  | clearReady hi =>
    obtain ⟨hlt, _⟩ := List.getElem?_eq_some_iff.1 hi
    exact fun _ => .inr (.inr (List.mem_set hlt _))
  | clearContext => exact fun hnode => absurd rfl hnode

/-! ## 3. An open gate has a context -/

/-- The condition on a reset's second store: it has not been overtaken by a `_bridge_init` that has
    opened the gate again, or is about to. -/
def InOrder (s : Bridge) : Label → Prop
  | .clear i => s.resets[i]? = some .storingContext → s.ready = false ∧ ¬s.Opening
  | .serve _ | .handler _ | .reset | .rpc _ | .call _ => True

instance (s : Bridge) : (a : Label) → Decidable (s.InOrder a)
  | .clear i => inferInstanceAs (Decidable
      (s.resets[i]? = some .storingContext → s.ready = false ∧ ¬s.Opening))
  | .serve _ | .handler _ | .reset | .rpc _ | .call _ => inferInstanceAs (Decidable True)

/-- A gate that is open, or about to be, has a context behind it. -/
def Guarded (s : Bridge) : Prop := s.ready = true ∨ s.Opening → s.nodeCtx ≠ none

theorem guarded_step (h : s.Guarded) (ha : s.InOrder a) (hstep : s.step a = some s') :
    s'.Guarded := by
  cases effect_of_step hstep with
  | enter new _ hready hnode hresets hhandlers hnew =>
    unfold Guarded
    rw [hready, hnode, opening_enter hhandlers hnew]
    exact h
  | test hh _ =>
    rintro (hready | hopening)
    · exact h (.inl hready)
    · rcases exists_mem_set hopening with hopening | hphase
      · exact h (.inr hopening)
      · dsimp only at hphase
        split at hphase <;> cases hphase
  | storeContext => exact fun _ => Option.some_ne_none _
  | storeReady hh hphase => exact fun _ => h (.inr ⟨_, List.mem_of_getElem? hh, hphase⟩)
  | reset => exact h
  | clearReady =>
    rintro (hready | hopening)
    · cases hready
    · exact h (.inr hopening)
  | clearContext hi =>
    obtain ⟨hready, hopening⟩ := ha hi
    rintro (hready' | hopening')
    · exact absurd (hready.symm.trans hready') Bool.false_ne_true
    · exact absurd hopening' hopening

theorem Quiet.not_opening (h : s.Quiet) : ¬s.Opening := by
  rintro ⟨x, hx, hphase⟩
  rw [h.1 x hx] at hphase
  cases hphase

/-- A `_bridge_init` by itself arms a bridge that is not ready. -/
theorem rearm (hready : s.ready = false) (context : Nat) :
    ∃ s', bridge.Path Machine.always s [.serve context, .handler s.handlers.length,
        .handler s.handlers.length, .handler s.handlers.length] s' ∧
      s'.ready = true ∧ s'.nodeCtx = some context := by
  -- the new handler is the last one throughout
  have hget : ∀ phase : HandlerPhase,
      (s.handlers ++ [(⟨context, true, phase⟩ : Handler)])[s.handlers.length]? =
        some ⟨context, true, phase⟩ := fun _ => List.getElem?_concat_length
  have hset : ∀ phase phase' : HandlerPhase,
      (s.handlers ++ [(⟨context, true, phase⟩ : Handler)]).set s.handlers.length
        ⟨context, true, phase'⟩ = s.handlers ++ [⟨context, true, phase'⟩] := by
    intro phase phase'
    rw [List.set_append_right _ _ (Nat.le_refl _), Nat.sub_self]
    rfl
  have hserve : s.step (.serve context) =
      some { s with handlers := s.handlers ++ [⟨context, true, .testing⟩] } := rfl
  have htest : step { s with handlers := s.handlers ++ [⟨context, true, .testing⟩] }
      (.handler s.handlers.length) =
      some { s with handlers := s.handlers ++ [⟨context, true, .storingContext⟩] } := by
    unfold step
    dsimp only
    rw [hget]
    dsimp only
    rw [hready, if_neg Bool.false_ne_true, hset]
  have hstore : step { s with handlers := s.handlers ++ [⟨context, true, .storingContext⟩] }
      (.handler s.handlers.length) =
      some { s with
        nodeCtx := some context
        handlers := s.handlers ++ [⟨context, true, .storingReady⟩] } := by
    unfold step
    dsimp only
    rw [hget]
    dsimp only
    rw [hset]
  have hopen : step { s with
        nodeCtx := some context
        handlers := s.handlers ++ [⟨context, true, .storingReady⟩] }
      (.handler s.handlers.length) =
      some { s with
        ready := true
        nodeCtx := some context
        handlers := s.handlers ++ [⟨context, true, .done⟩] } := by
    unfold step
    dsimp only
    rw [hget]
    dsimp only
    rw [hset]
  exact ⟨_, .head trivial hserve (.head trivial htest (.head trivial hstore
    (.head trivial hopen .refl))), rfl, rfl⟩

end Bridge

/-- **The flags agree when no call is in progress**, in every run in which no reset is overtaken:
    the bridge is ready just if it has a context. Then a ready bridge can dispatch, and a
    `_bridge_init` can arm one that is not. -/
theorem flags_agree {ls : List Bridge.Label} {s : Bridge} (h : bridge.Run Bridge.InOrder ls s)
    (hquiet : s.Quiet) :
    (s.ready = true ↔ s.nodeCtx ≠ none) ∧
      (s.ready = true → ∃ context, s.nodeCtx = some context ∧ s.CanExecute context) ∧
      (s.ready = false → ∀ context, ∃ s', bridge.Path Machine.always s
        [.serve context, .handler s.handlers.length, .handler s.handlers.length,
          .handler s.handlers.length] s' ∧ s'.ready = true ∧ s'.nodeCtx = some context) := by
  have hboth : s.Announced ∧ s.Guarded := by
    refine h.invariant (I := fun s => s.Announced ∧ s.Guarded) ⟨?_, ?_⟩ ?_
    · exact fun hnode => absurd rfl hnode
    · rintro (hready | ⟨x, hx, _⟩)
      · cases hready
      · cases hx
    · intro s a s' ⟨hannounced, hguarded⟩ ha hstep
      exact ⟨Bridge.announced_step hannounced hstep, Bridge.guarded_step hguarded ha hstep⟩
  obtain ⟨hannounced, hguarded⟩ := hboth
  refine ⟨⟨fun hready => hguarded (.inl hready), fun hnode => ?_⟩, fun hready => ?_, ?_⟩
  · rcases hannounced hnode with hready | hopening | hclosing
    · exact hready
    · exact absurd hopening hquiet.not_opening
    · cases hquiet.2 _ hclosing
  · obtain ⟨context, hnode⟩ := Option.ne_none_iff_exists'.1 (hguarded (.inl hready))
    exact ⟨context, hnode, Bridge.canExecute_ready hnode hready⟩
  · exact fun hready context => Bridge.rearm hready context

/-- A bridge armed, reset, and armed again by the next run. -/
theorem flags_agree_rearmed :
    ∃ s, bridge.Run Bridge.InOrder [.serve 0, .handler 0, .handler 0, .handler 0, .reset, .clear 0,
        .clear 0, .serve 1, .handler 1, .handler 1, .handler 1] s ∧
      s.ready = true ∧ s.nodeCtx ≠ none := by
  have hrun : bridge.Run Bridge.InOrder [.serve 0, .handler 0, .handler 0, .handler 0, .reset,
      .clear 0, .clear 0, .serve 1, .handler 1, .handler 1, .handler 1]
      ⟨true, some 1, [⟨0, true, .done⟩, ⟨1, true, .done⟩], [.done], []⟩ :=
    Machine.exec_run (by decide)
  exact ⟨_, hrun, rfl, (flags_agree hrun (by decide)).1.1 rfl⟩

/-- **They need not agree otherwise**: a `_bridge_init` whose two stores have a whole reset between
    them, or one that runs between the two stores of a reset, leaves the bridge ready with no
    context. -/
theorem flags_disagree :
    (∃ s, bridge.Run Machine.always [.serve 0, .handler 0, .handler 0, .reset, .clear 0, .clear 0,
        .handler 0] s ∧ s.Quiet ∧ s.ready = true ∧ s.nodeCtx = none) ∧
      ∃ s, bridge.Run Machine.always [.reset, .clear 0, .serve 0, .handler 0, .handler 0,
        .handler 0, .clear 0] s ∧ s.Quiet ∧ s.ready = true ∧ s.nodeCtx = none := by
  refine ⟨⟨⟨true, none, [⟨0, true, .done⟩], [.done], []⟩, ?_, ?_, rfl, rfl⟩,
    ⟨true, none, [⟨0, true, .done⟩], [.done], []⟩, ?_, ?_, rfl, rfl⟩
  · exact Machine.exec_run (by decide)
  · decide
  · exact Machine.exec_run (by decide)
  · decide

/-! ## 4. The condition leaves out nothing else -/

namespace Bridge

variable {s s' s₁ : Bridge} {a : Label}

/-- The step is no store of a context, and no reset's first store. -/
def Untouched (s : Bridge) : Label → Prop
  | .handler h => ∀ x, s.handlers[h]? = some x → x.phase ≠ .storingContext
  | .clear i => s.resets[i]? ≠ some .storingReady
  | .serve _ | .reset | .rpc _ | .call _ => True

/-- The gate is open, or about to be, and nothing is behind it. -/
def Hollow (s : Bridge) : Prop := s.nodeCtx = none ∧ (s.ready = true ∨ s.Opening)

theorem hollow_step (h : s.Hollow) (ha : s.Untouched a) (hstep : s.step a = some s') :
    s'.Hollow := by
  obtain ⟨hnone, hopen⟩ := h
  cases effect_of_step hstep with
  | enter new _ hready hnode hresets hhandlers hnew =>
    unfold Hollow
    rw [hready, hnode, opening_enter hhandlers hnew]
    exact ⟨hnone, hopen⟩
  | test hh hphase =>
    refine ⟨hnone, hopen.imp_right fun hopening => exists_set_of_not hopening hh ?_⟩
    rw [hphase]
    nofun
  | storeContext hh hphase => exact absurd hphase (ha _ hh)
  | storeReady => exact ⟨hnone, .inl rfl⟩
  | reset => exact ⟨hnone, hopen⟩
  | clearReady hi => exact absurd hi ha
  | clearContext => exact ⟨rfl, hopen⟩

/-- **An overtaken reset leaves the bridge ready without a context**, once all calls are done and
    unless another one has stored to a flag since. -/
theorem overtaken_stays {more : List Label} (hstep : s.step a = some s') (ha : ¬s.InOrder a)
    (hpath : bridge.Path Untouched s' more s₁) (hquiet : s₁.Quiet) :
    s₁.ready = true ∧ s₁.nodeCtx = none := by
  have hhollow : s'.Hollow := by
    cases effect_of_step hstep with
    | clearContext hi =>
      obtain ⟨_, hdisturbed⟩ := Classical.not_imp.1 ha
      refine ⟨rfl, ?_⟩
      by_cases hready : s.ready = true
      · exact .inl hready
      · refine .inr (Decidable.byContradiction fun hopening => hdisturbed ?_)
        exact ⟨Bool.eq_false_iff.2 hready, hopening⟩
    | clearReady hi =>
      refine absurd (fun hi' => ?_) ha
      rw [hi] at hi'
      cases hi'
    | enter _ hclear =>
      cases a with
      | clear i => exact absurd rfl (hclear i)
      | _ => exact absurd trivial ha
    | _ => exact absurd trivial ha
  obtain ⟨hnone, hopen⟩ :=
    hpath.invariant hhollow fun _ _ _ hs hok hs' => hollow_step hs hok hs'
  exact ⟨hopen.resolve_right hquiet.not_opening, hnone⟩

end Bridge

end SwiftBitcoinKernel
