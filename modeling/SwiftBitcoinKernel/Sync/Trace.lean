/-
  File:      SwiftBitcoinKernel/Sync/Trace.lean
  Subject:   Reading a run's trace, and carrying an assertion through the body of the loop.

  Most of what is proved about a run concerns one or two places of its body. The way through the
  others is gone once, here:

  * `updates` -- the updates of a trace; `Along` -- a property of every event with those before it;
  * `Walk` -- an assertion for the body, one for each thrown error, and one for the return, with
    what each call and each way out must do for them; `prepare_walk`, `forkPointCheck_walk`,
    `repoll_walk`, `fetchNext_walk`, `connectNext_walk`, `iteration_walk` -- the parts of the body
    then keep them, and `run_walk` -- so does a whole run;
  * `Event.isRoutine`, `Frame` -- an assertion on the run's state that every source call and
    every routine event keeps; the two places that are not routine are the re-poll with its
    `.finished`, and `processBlock` with its `.syncing`;
  * `repoll_triple`, `connectNext_triple`, `iteration_triple`, `run_triple` -- the rules for such
    an assertion, which ask only about those places;
  * `run_trace_mono` -- the trace of a run only grows.
-/
import SwiftBitcoinKernel.Sync.Loop

namespace SwiftBitcoinKernel

open Logic

variable {E : Environment}

/-! ## 1. Reading a trace -/

/-- The update an event hands to the continuation. -/
def Event.update? : Event → Option Update
  | .yield update _ => some update
  | _ => none

/-- The updates of a trace, in order. -/
def updates (trace : List Event) : List Update := trace.filterMap Event.update?

@[simp] theorem updates_append (t u : List Event) : updates (t ++ u) = updates t ++ updates u :=
  List.filterMap_append

@[simp] theorem mem_updates {trace : List Event} {u : Update} :
    u ∈ updates trace ↔ ∃ progress, .yield u progress ∈ trace := by
  unfold updates
  rw [List.mem_filterMap]
  constructor
  · rintro ⟨e, he, hu⟩
    cases e with
    | yield v p =>
      cases hu
      exact ⟨p, he⟩
    | _ => cases hu
  · rintro ⟨p, hp⟩
    exact ⟨.yield u p, hp, rfl⟩

/-- A property of every event of a trace, with the events before it. -/
def Along (P : List Event → Event → Prop) (trace : List Event) : Prop :=
  ∀ before e later, trace = before ++ e :: later → P before e

theorem along_nil (P : List Event → Event → Prop) : Along P [] := by
  intro before e later h
  simp at h

theorem along_cons {P : List Event → Event → Prop} {e : Event} {trace : List Event} :
    Along P (e :: trace) ↔ P [] e ∧ Along (fun before => P (e :: before)) trace := by
  constructor
  · intro h
    refine ⟨h [] e trace rfl, fun before e' later htrace => h (e :: before) e' later ?_⟩
    rw [htrace, List.cons_append]
  · rintro ⟨hfirst, hrest⟩ before e' later htrace
    cases before with
    | nil =>
      obtain ⟨rfl, -⟩ := List.cons.inj htrace
      exact hfirst
    | cons e₀ before =>
      obtain ⟨rfl, hlater⟩ := List.cons.inj htrace
      exact hrest before e' later hlater

theorem along_concat {P : List Event → Event → Prop} {trace : List Event} {e : Event} :
    Along P (trace ++ [e]) ↔ Along P trace ∧ P trace e := by
  induction trace generalizing P with
  | nil => simp [along_cons, along_nil]
  | cons e₀ trace ih => rw [List.cons_append, along_cons, along_cons, ih, and_assoc]

/-- The events any part of the body may cause: of the updates, `.failed` alone. The other updates,
    and the two answers the main loop decides them on, belong to one place each. -/
def Event.isRoutine : Event → Bool
  | .yield update _ => update.state.isFailed
  | .repolled .. | .processBlock .. => false
  | _ => true

theorem routine_yield {u : Update} {p : Progress} (h : (Event.yield u p).isRoutine = true) :
    ∃ reason, u.state = .failed reason := by
  obtain ⟨s, tip, remoteTip⟩ := u
  cases s with
  | failed reason => exact ⟨reason, rfl⟩
  | _ => cases h

/-! ## 2. Walking through the body -/

/-- After a source call: `P` if it returned, `T` of the error if it threw. -/
def Answered {α : Type} (P : World E → Prop) (T : SwiftError → World E → Prop) :
    Except SwiftError α → World E → Prop
  | .ok _ => P
  | .error e => T e

/-- An assertion `P` for the body, `T e` between an error and its catch clauses, and `R` for what
    the run leaves when it returns: what each call and each way out has to do. -/
structure Walk (P : World E → Prop) (T : SwiftError → World E → Prop) (R : World E → Prop) :
    Prop where
  resolveTip : Triple P resolveTip (Answered P T) R
  blockHash : ∀ height, Triple P (blockHash height) (Answered P T) R
  blockFor : ∀ hash, Triple P (blockFor hash) (Answered P T) R
  isCancelled : Triple P isCancelled (fun b => if b then T .cancellation else P) R
  progress : ∀ w p, P w → P { w with progress := p }
  silent : ∀ w, T .cancellation w → R (w.log .finish)
  thrown : ∀ w e reason tip remoteTip, e ≠ .cancellation → T e w →
    R ((w.log (.yield ⟨.failed reason, tip, remoteTip⟩ w.progress)).log .finish)
  failed : ∀ w reason tip remoteTip, P w →
    R ((w.log (.yield ⟨.failed reason, tip, remoteTip⟩ w.progress)).log .finish)

section Walks

variable {P R : World E → Prop} {T : SwiftError → World E → Prop} {α : Type}
  {Q : α → World E → Prop}

theorem failAndReturn_walk (W : Walk P T R) (reason : String) (tip remoteTip : BlockTip) :
    Triple P (failAndReturn reason tip remoteTip : SyncM E α) Q R :=
  fun w hw => W.failed w reason tip remoteTip hw

theorem caught_walk (W : Walk P T R) (error : SwiftError) (context : String)
    (tip remoteTip : BlockTip) :
    Triple (T error) (caught error context tip remoteTip : SyncM E α) Q R := by
  intro w hw
  cases error with
  | cancellation => exact W.silent w hw
  | _ =>
    refine W.thrown w _ _ tip remoteTip ?_ hw
    nofun

theorem setTotal_walk (W : Walk P T R) (tip : BlockTip) : Triple P (setTotal tip) (fun _ => P) R :=
  triple_tell fun w hw => W.progress w _ hw

theorem setCompleted_walk (W : Walk P T R) (tip : BlockTip) :
    Triple P (setCompleted tip) (fun _ => P) R :=
  triple_tell fun w hw => W.progress w _ hw

theorem forkPointCheck_walk (W : Walk P T R) (localTip remoteTip : BlockTip) :
    Triple P (forkPointCheck localTip remoteTip) (fun _ => P) R := by
  refine triple_ite (fun _ => ?_) fun _ => triple_pure _ fun _ hw => hw
  refine triple_ite (fun _ => failAndReturn_walk W _ _ _) fun _ => ?_
  refine triple_bind (W.blockHash _) fun a => ?_
  cases a with
  | error e => exact caught_walk W _ _ _ _
  | ok hash =>
    exact triple_ite (fun _ => failAndReturn_walk W _ _ _) fun _ => triple_pure _ fun _ hw => hw

theorem fetchNext_walk (W : Walk P T R) (localTip remoteTip : BlockTip) :
    Triple P (fetchNext localTip remoteTip) (fun _ => P) R := by
  refine triple_bind (W.blockHash _) fun a => ?_
  cases a with
  | error e => exact caught_walk W _ _ _ _
  | ok hash =>
    refine triple_bind (W.blockFor hash) fun b => ?_
    cases b with
    | error e => exact caught_walk W _ _ _ _
    | ok block => exact triple_pure _ fun _ hw => hw

/-- The re-poll, for an assertion it keeps unless it ends the run. -/
theorem repoll_walk (W : Walk P T R) (localTip remoteTip : BlockTip)
    (hpoll : Triple P (repollTip localTip) (Answered P T) R)
    (hdone : ∀ t w, P w → R ((w.log (.yield ⟨.finished, localTip, t⟩ w.progress)).log .finish)) :
    Triple P (repoll localTip remoteTip) (fun _ => P) R := by
  refine triple_ite (fun _ => ?_) fun _ => triple_pure _ fun _ hw => hw
  refine triple_bind hpoll fun a => ?_
  cases a with
  | error e => exact caught_walk W _ _ _ _
  | ok fresh =>
    refine triple_ite (fun _ w hw => hdone fresh w hw) fun _ => ?_
    exact triple_bind (setTotal_walk W fresh) fun _ => triple_pure _ fun _ hw => hw

/-- Handing a block to the kernel, for an assertion that a `.syncing` update may change. -/
theorem connectNext_walk {Q : World E → Prop} (W : Walk P T R) (localTip remoteTip : BlockTip)
    (block : Block) (hprocess : Triple P (processBlock block) (fun _ => P) R)
    (hsyncing : ∀ tip w, P w → Q (w.log (.yield ⟨.syncing, tip, remoteTip⟩ w.progress))) :
    Triple P (connectNext localTip remoteTip block) (fun _ => Q) R := by
  refine triple_bind hprocess fun success => ?_
  refine triple_ite (fun _ => failAndReturn_walk W _ _ _) fun _ => ?_
  refine triple_bind (Q := fun _ => P) (triple_act fun _ hw => hw) fun tip => ?_
  refine triple_bind (setCompleted_walk W tip) fun _ => ?_
  refine triple_bind (Q := fun _ => Q) (triple_tell fun w hw => hsyncing tip w hw) fun _ => ?_
  exact triple_pure _ fun _ hw => hw

/-- Before the loop, an assertion on the local tip has to be set up once, at `.preparing`. -/
theorem prepare_walk {P : BlockTip → World E → Prop} {T : BlockTip → SwiftError → World E → Prop}
    {P₀ : World E → Prop} (W : ∀ l, Walk (P l) (T l) R)
    (hstart : ∀ w, P₀ w → P (E.bestEntry w.env).asTip
      (w.log (.yield ⟨.preparing, (E.bestEntry w.env).asTip, unknownRemoteTip⟩ w.progress))) :
    Triple P₀ prepare (fun tips => P tips.1) R := by
  refine triple_bind (Q := fun l w => P₀ w ∧ l = (E.bestEntry w.env).asTip)
    (triple_act fun _ hw => ⟨hw, rfl⟩) fun l => ?_
  refine triple_bind (Q := fun _ => P l) (triple_tell ?_) fun _ => ?_
  · intro w hw
    rw [hw.2]
    exact hstart w hw.1
  refine triple_bind (W l).resolveTip fun a => ?_
  cases a with
  | error e => exact caught_walk (W l) _ _ _ _
  | ok remoteTip =>
    refine triple_bind (forkPointCheck_walk (W l) l remoteTip) fun _ => ?_
    refine triple_bind (setTotal_walk (W l) remoteTip) fun _ => ?_
    refine triple_bind (setCompleted_walk (W l) l) fun _ => ?_
    exact triple_pure _ fun _ hw => hw

/-- One round: only the re-poll and the connection are left to show. -/
theorem iteration_walk {Q : BlockTip → World E → Prop} (W : Walk P T R)
    (tips : BlockTip × BlockTip) (hrepoll : ∀ r, Triple P (repoll tips.1 r) (fun _ => P) R)
    (hconnect : ∀ r b, Triple P (connectNext tips.1 r b) Q R) :
    Triple P (iteration tips) (fun tips' => Q tips'.1) R := by
  refine triple_bind W.isCancelled fun b => ?_
  cases b with
  | true => exact fun w hw => W.silent w hw
  | false =>
    refine triple_bind (hrepoll tips.2) fun remoteTip => ?_
    refine triple_bind (fetchNext_walk W tips.1 remoteTip) fun block => ?_
    refine triple_bind (hconnect remoteTip block) fun localTip => ?_
    exact triple_pure _ fun _ hw => hw

/-- **Whole runs**: an assertion that counts the rounds, set up at `.preparing` and kept by every
    round, holds after any number of rounds; where the run has returned, `R` does. -/
theorem run_walk {I : Nat → BlockTip → World E → Prop} {T : BlockTip → SwiftError → World E → Prop}
    (W : ∀ l, Walk (I 0 l) (T l) R)
    (hround : ∀ k tips, Triple (I k tips.1) (iteration tips) (fun tips' => I (k + 1) tips'.1) R)
    (n : Nat) (env : E.State) (progress : Progress)
    (hstart : I 0 (E.bestEntry env).asTip ⟨env,
      [.yield ⟨.preparing, (E.bestEntry env).asTip, unknownRemoteTip⟩ progress], progress⟩) :
    Leaves (run E n env progress) (fun tips => I n tips.1) R := by
  have hprepare : Triple (fun w => w = ⟨env, [], progress⟩) prepare (fun tips => I 0 tips.1) R := by
    refine prepare_walk W fun w hw => ?_
    rw [hw]
    exact hstart
  have hloop := triple_iter (I := fun k (tips : BlockTip × BlockTip) => I k tips.1) hround n 0
  rw [Nat.zero_add] at hloop
  exact triple_bind hprepare hloop _ rfl

end Walks

/-! ## 3. Assertions the routine places keep -/

/-- An assertion on the run's state that the source, the task and the routine events keep. -/
structure Frame (I : World E → Prop) : Prop where
  log : ∀ w e, e.isRoutine = true → I w → I (w.log e)
  progress : ∀ w p, I w → I { w with progress := p }
  isCancelled : ∀ w, I w → I { w with env := (E.isCancelled w.env).2 }
  bestTip : ∀ w, I w → I { w with env := (E.bestTip w.env).2 }
  blockHash : ∀ w h, I w → I { w with env := (E.blockHash h w.env).2 }
  block : ∀ w h, I w → I { w with env := (E.block h w.env).2 }

theorem answered_self {I : World E → Prop} {α : Type} {a : Except SwiftError α} {w : World E}
    (h : I w) : Answered I (fun _ => I) a w := by
  cases a <;> exact h

/-- A framed assertion walks through the body by itself. -/
theorem Frame.walk {I R : World E → Prop} (F : Frame I) (hR : ∀ w, I w → R w) :
    Walk I (fun _ => I) R where
  resolveTip := triple_act fun w hw => answered_self (F.log _ _ rfl (F.bestTip w hw))
  blockHash height := triple_act fun w hw => answered_self (F.log _ _ rfl (F.blockHash w height hw))
  blockFor hash := triple_act fun w hw => answered_self (F.log _ _ rfl (F.block w hash hw))
  isCancelled := triple_act fun w hw => by
    have hkept := F.log _ (.isCancelled (E.isCancelled w.env).1) rfl (F.isCancelled w hw)
    split <;> exact hkept
  progress := F.progress
  silent w hw := hR _ (F.log w _ rfl hw)
  thrown w _ _ _ _ _ hw := hR _ (F.log _ _ rfl (F.log w _ rfl hw))
  failed w _ _ _ hw := hR _ (F.log _ _ rfl (F.log w _ rfl hw))

/-! ## 4. The rules for framed assertions -/

section Rules

variable {I : BlockTip → World E → Prop} {R : World E → Prop}

/-- The re-poll: `M` holds once the source has answered; the answer is an error, a higher tip,
    or the end of the run. -/
theorem repoll_triple {I K : World E → Prop} {M : Except SwiftError BlockTip → World E → Prop}
    (F : Frame K) (hR : ∀ w, K w → R w) (localTip remoteTip : BlockTip)
    (hprogress : ∀ w p, I w → I { w with progress := p })
    (hpoll : ∀ w, I w → M (E.bestTip w.env).1
      ({ w with env := (E.bestTip w.env).2 }.log (.repolled localTip (E.bestTip w.env).1)))
    (herror : ∀ e w, M (.error e) w → K w)
    (hgrown : ∀ t w, localTip.height < t.height → M (.ok t) w → I w)
    (hdone : ∀ t w, t.height ≤ localTip.height → M (.ok t) w →
      R ((w.log (.yield ⟨.finished, localTip, t⟩ w.progress)).log .finish)) :
    Triple I (repoll localTip remoteTip) (fun _ => I) R := by
  refine triple_ite (fun _ => ?_) fun _ => triple_pure _ fun _ hw => hw
  refine triple_bind (triple_act hpoll) fun a => ?_
  cases a with
  | error e =>
    exact triple_mono (caught_walk (F.walk hR) e _ _ _) (herror e) (fun _ _ hw => hw) fun _ hw => hw
  | ok fresh =>
    refine triple_ite (fun hle w hw => hdone fresh w hle hw) fun hgt => ?_
    have hlt : localTip.height < fresh.height := by omega
    refine triple_bind (Q := fun _ => I) (triple_tell fun w hw => ?_) fun _ =>
      triple_pure _ fun _ hw => hw
    exact hprogress w _ (hgrown fresh w hlt hw)

/-- Handing a block to the kernel: rejected, the run fails; accepted, the local tip is read again
    and reported. -/
theorem connectNext_triple {I K : World E → Prop} {Q : BlockTip → World E → Prop} (F : Frame K)
    (hR : ∀ w, K w → R w) (localTip remoteTip : BlockTip) (block : Block)
    (hreject : ∀ w, I w → (E.processBlock block w.env).1.1 = false →
      K ({ w with env := (E.processBlock block w.env).2 }.log (.processBlock block false)))
    (haccept : ∀ w p, I w → (E.processBlock block w.env).1.1 = true →
      let env := (E.processBlock block w.env).2
      let tip := (E.bestEntry env).asTip
      Q tip ⟨env, w.trace ++ [.processBlock block true] ++ [.yield ⟨.syncing, tip, remoteTip⟩ p],
        p⟩) :
    Triple I (connectNext localTip remoteTip block) Q R := by
  intro w hw
  cases hs : (E.processBlock block w.env).1.1 with
  | false =>
    have hK := hreject w hw hs
    have hrun : connectNext localTip remoteTip block w =
        (failAndReturn s!"kernel rejected block at height {localTip.height + 1}" localTip remoteTip
          : SyncM E BlockTip)
          ({ w with env := (E.processBlock block w.env).2 }.log (.processBlock block false)) := by
      simp [connectNext, processBlock, ask, hs]
    rw [hrun]
    exact failAndReturn_walk (F.walk hR) _ _ _ _ hK
  | true =>
    have hQ := haccept w { w.progress with
      completedUnitCount := (E.bestEntry (E.processBlock block w.env).2).asTip.height } hw hs
    simpa [connectNext, processBlock, ask, hs, readLocalTip, setCompleted, yieldUpdate, World.log,
      Leaves] using hQ

/-- One round, for an assertion on the local tip: only the re-poll and the connection count. -/
theorem iteration_triple (F : ∀ l, Frame (I l)) (hR : ∀ l w, I l w → R w)
    (hrepoll : ∀ l r, Triple (I l) (repoll l r) (fun _ => I l) R)
    (hconnect : ∀ l r b, Triple (I l) (connectNext l r b) I R) (tips : BlockTip × BlockTip) :
    Triple (I tips.1) (iteration tips) (fun tips' => I tips'.1) R :=
  iteration_walk ((F tips.1).walk (hR tips.1)) tips (hrepoll tips.1) (hconnect tips.1)

/-- **Whole runs**: what `.preparing` sets up and every round keeps holds after any number of
    rounds, and what it implies holds where the run has returned. -/
theorem run_triple (F : ∀ l, Frame (I l)) (hR : ∀ l w, I l w → R w)
    (hrepoll : ∀ l r, Triple (I l) (repoll l r) (fun _ => I l) R)
    (hconnect : ∀ l r b, Triple (I l) (connectNext l r b) I R) (n : Nat) (env : E.State)
    (progress : Progress)
    (hstart : I (E.bestEntry env).asTip ⟨env,
      [.yield ⟨.preparing, (E.bestEntry env).asTip, unknownRemoteTip⟩ progress], progress⟩) :
    Leaves (run E n env progress) (fun tips => I tips.1) R :=
  run_walk (I := fun _ => I) (fun l => (F l).walk (hR l))
    (fun _ => iteration_triple F hR hrepoll hconnect) n env progress hstart

end Rules

/-! ## 5. The trace grows -/

/-- What was recorded stays recorded. -/
theorem frame_recorded (t : List Event) : Frame fun w : World E => t <+: w.trace where
  log _ _ _ hw := hw.trans (List.prefix_append _ _)
  progress _ _ hw := hw
  isCancelled _ hw := hw
  bestTip _ hw := hw
  blockHash _ _ hw := hw
  block _ _ hw := hw

theorem iteration_recorded (t : List Event) (tips : BlockTip × BlockTip) :
    Triple (fun w : World E => t <+: w.trace) (iteration tips) (fun _ w => t <+: w.trace)
      (fun w => t <+: w.trace) := by
  refine iteration_triple (I := fun _ w => t <+: w.trace) (fun _ => frame_recorded t)
    (fun _ _ hw => hw) (fun l r => ?_) (fun l r b => ?_) tips
  · refine repoll_triple (M := fun _ w => t <+: w.trace) (frame_recorded t) (fun _ hw => hw) l r
      (fun _ _ hw => hw) (fun w hw => ?_) (fun _ _ hw => hw) (fun _ _ _ hw => hw) fun _ w _ hw => ?_
    · exact hw.trans (List.prefix_append _ _)
    · exact (hw.trans (List.prefix_append _ _)).trans (List.prefix_append _ _)
  · refine connectNext_triple (K := fun w => t <+: w.trace) (frame_recorded t) (fun _ hw => hw) l r
      b (fun w hw _ => ?_) fun w p hw _ => ?_
    · exact hw.trans (List.prefix_append _ _)
    · exact (hw.trans (List.prefix_append _ _)).trans (List.prefix_append _ _)

/-- The trace of a run only grows from round to round. -/
theorem run_trace_mono (n : Nat) (env : E.State) (progress : Progress) :
    (run E n env progress).2.trace <+: (run E (n + 1) env progress).2.trace := by
  rw [run_succ]
  cases run E n env progress with
  | mk o w =>
    cases o with
    | none => exact List.prefix_refl _
    | some tips => exact leaves_state (iteration_recorded w.trace tips w (List.prefix_refl _))

end SwiftBitcoinKernel
