/-
  File:      SwiftBitcoinKernel/Sync/ProgressReport.lean
  Subject:   `storage.progress` at the moment an update is yielded.

  `completedUnitCount` is to be the height of the local tip, `totalUnitCount` that of the remote one.
  Both are set before the main loop, the one again with every local tip and the other with every
  remote tip that is higher than the local one. The re-poll that ends the run sets nothing.

  * `Event.coherent` -- what a `.syncing` or `.finished` update is to find;
  * `learn`, `known` -- the height of the remote tip that the run goes by, from the answers it was
    given;
  * `Event.steady`, `steadyFrom` -- a re-poll that ends the run answers that height once more;
  * `Tracked` -- the invariant of the main loop; `iteration_tracked` -- a round keeps it;
  * `run_coherent_iff`, `progress_coherent_iff` -- one run, and any number of them on one `Progress`.
-/
import SwiftBitcoinKernel.Sync.Trace

namespace SwiftBitcoinKernel

open Logic

variable {E : Environment}

/-! ## 1. What is reported, and what the source has said -/

/-- The counts that an update of the main loop finds are the heights it carries. -/
def Event.coherent : Event → Bool
  | .yield ⟨.syncing, tip, remoteTip⟩ p | .yield ⟨.finished, tip, remoteTip⟩ p =>
    p.completedUnitCount = tip.height ∧ p.totalUnitCount = remoteTip.height
  | _ => true

/-- The remote height after an event. -/
def Event.learn (height : Option Int) : Event → Option Int
  | .resolved (.ok t) => some t.height
  | .repolled l (.ok t) => if l.height < t.height then some t.height else height
  | _ => height

/-- A re-poll with no higher tip has the height that is known. -/
def Event.steady (height : Option Int) : Event → Bool
  | .repolled l (.ok t) => l.height < t.height ∨ height = some t.height
  | _ => true

/-- The remote height a run goes by. -/
def known (trace : List Event) : Option Int := trace.foldl Event.learn none

/-- All re-polls, from a known height on. -/
def steadyFrom : Option Int → List Event → Bool
  | _, [] => true
  | height, e :: rest => e.steady height && steadyFrom (e.learn height) rest

/-- All re-polls of a run. -/
def steady (trace : List Event) : Bool := steadyFrom none trace

theorem steadyFrom_append (height : Option Int) (trace : List Event) (e : Event) :
    steadyFrom height (trace ++ [e]) =
      (steadyFrom height trace && e.steady (trace.foldl Event.learn height)) := by
  induction trace generalizing height with
  | nil => simp [steadyFrom]
  | cons first rest ih => simp [steadyFrom, ih, Bool.and_assoc]

/-- The updates are coherent exactly if the re-polls are steady. -/
def Balanced (trace : List Event) : Prop := trace.all Event.coherent = steady trace

theorem known_append (trace : List Event) (e : Event) :
    known (trace ++ [e]) = e.learn (known trace) := by
  simp [known]

theorem steady_append (trace : List Event) (e : Event) :
    steady (trace ++ [e]) = (steady trace && e.steady (known trace)) :=
  steadyFrom_append none trace e

theorem coherent_append (trace : List Event) (e : Event) :
    (trace ++ [e]).all Event.coherent = (trace.all Event.coherent && e.coherent) := by
  simp

/-- The events that report nothing on the progress and say nothing of the remote tip. -/
def Event.isPlain : Event → Bool
  | .yield ⟨.syncing, _, _⟩ _ | .yield ⟨.finished, _, _⟩ _ | .resolved _ | .repolled _ _ => false
  | _ => true

theorem coherent_of_plain {e : Event} (h : e.isPlain = true) : e.coherent = true := by
  cases e with
  | yield u p =>
    obtain ⟨state, tip, remoteTip⟩ := u
    cases state with
    | syncing => cases h
    | finished => cases h
    | _ => rfl
  | _ => rfl

theorem steady_of_plain {e : Event} (h : e.isPlain = true) (height : Option Int) :
    e.steady height = true := by
  cases e with
  | repolled l a => cases h
  | _ => rfl

theorem learn_of_plain {e : Event} (h : e.isPlain = true) (height : Option Int) :
    e.learn height = height := by
  cases e with
  | repolled l a => cases h
  | resolved a => cases h
  | _ => rfl

/-- An event that is coherent and steady changes nothing. -/
theorem balanced_append {trace : List Event} {e : Event} (h : Balanced trace)
    (hcoherent : e.coherent = true) (hsteady : e.steady (known trace) = true) :
    Balanced (trace ++ [e]) := by
  unfold Balanced
  rw [coherent_append, steady_append, hcoherent, hsteady, Bool.and_true, Bool.and_true]
  exact h

/-! ## 2. The places that report nothing -/

/-- An assertion that the calls and the plain events keep. -/
structure Plain (P : World E → Prop) : Prop where
  log : ∀ w e, e.isPlain = true → P w → P (w.log e)
  env : ∀ w env, P w → P { w with env := env }

section Plain

variable {P R : World E → Prop} {α : Type} {Q : α → World E → Prop}

theorem ask_plain {f : E.State → α × E.State} {record : α → Event} (hP : Plain P)
    (hrecord : ∀ a, (record a).isPlain = true) :
    Triple P (ask f record) (fun _ => P) R :=
  triple_act fun w hw => hP.log _ _ (hrecord _) (hP.env w _ hw)

theorem failAndReturn_plain (hP : Plain P) (hR : ∀ w, P w → R w) (reason : String)
    (tip remoteTip : BlockTip) :
    Triple P (failAndReturn reason tip remoteTip : SyncM E α) Q R := by
  intro w hw
  exact hR _ (hP.log _ _ rfl (hP.log w _ rfl hw))

theorem caught_plain (hP : Plain P) (hR : ∀ w, P w → R w) (error : SwiftError) (context : String)
    (tip remoteTip : BlockTip) :
    Triple P (caught error context tip remoteTip : SyncM E α) Q R := by
  cases error with
  | cancellation => exact fun w hw => hR _ (hP.log w _ rfl hw)
  | _ => exact failAndReturn_plain hP hR _ tip remoteTip

theorem forkPointCheck_plain (hP : Plain P) (hR : ∀ w, P w → R w) (localTip remoteTip : BlockTip) :
    Triple P (forkPointCheck localTip remoteTip) (fun _ => P) R := by
  refine triple_ite (fun _ => ?_) fun _ => triple_pure _ fun _ hw => hw
  refine triple_ite (fun _ => failAndReturn_plain hP hR _ _ _) fun _ => ?_
  refine triple_bind (ask_plain hP fun _ => rfl) fun answer => ?_
  cases answer with
  | error e => exact caught_plain hP hR _ _ _ _
  | ok hash =>
    exact triple_ite (fun _ => failAndReturn_plain hP hR _ _ _) fun _ =>
      triple_pure _ fun _ hw => hw

theorem fetchNext_plain (hP : Plain P) (hR : ∀ w, P w → R w) (localTip remoteTip : BlockTip) :
    Triple P (fetchNext localTip remoteTip) (fun _ => P) R := by
  refine triple_bind (ask_plain hP fun _ => rfl) fun answer => ?_
  cases answer with
  | error e => exact caught_plain hP hR _ _ _ _
  | ok hash =>
    refine triple_bind (ask_plain hP fun _ => rfl) fun answer => ?_
    cases answer with
    | error e => exact caught_plain hP hR _ _ _ _
    | ok block => exact triple_pure _ fun _ hw => hw

end Plain

/-! ## 3. The main loop -/

/-- The run goes by the remote tip `r`. -/
structure Learned (r : BlockTip) (w : World E) : Prop where
  knows : known w.trace = some r.height
  balanced : Balanced w.trace

/-- And the counts are the heights of the two tips. -/
structure Tracked (l r : BlockTip) (w : World E) : Prop extends Learned r w where
  completed : w.progress.completedUnitCount = l.height
  total : w.progress.totalUnitCount = r.height

variable {l r : BlockTip} {w : World E}

theorem learned_log {e : Event} (he : e.isPlain = true) (h : Learned r w) : Learned r (w.log e) := by
  refine ⟨?_, balanced_append h.balanced (coherent_of_plain he) (steady_of_plain he _)⟩
  show known (w.trace ++ [e]) = _
  rw [known_append, learn_of_plain he, h.knows]

theorem plain_learned (r : BlockTip) : Plain (Learned (E := E) r) :=
  ⟨fun _ _ he h => learned_log he h, fun _ _ h => ⟨h.knows, h.balanced⟩⟩

theorem plain_tracked (l r : BlockTip) : Plain (Tracked (E := E) l r) :=
  ⟨fun _ _ he h => ⟨learned_log he h.toLearned, h.completed, h.total⟩,
    fun _ _ h => ⟨⟨h.knows, h.balanced⟩, h.completed, h.total⟩⟩

/-- The first answer of the source: what is known from there on. -/
theorem resolved_balanced {trace : List Event} (h : Balanced trace)
    (a : Except SwiftError BlockTip) : Balanced (trace ++ [.resolved a]) :=
  balanced_append h rfl rfl

theorem prepare_tracked :
    Triple (fun w : World E => w.trace = []) prepare (fun tips => Tracked tips.1 tips.2)
      (fun w => Balanced w.trace) := by
  have hplain : Plain fun w : World E => Balanced w.trace :=
    ⟨fun _ _ he h => balanced_append h (coherent_of_plain he) (steady_of_plain he _),
      fun _ _ h => h⟩
  refine triple_bind (Q := fun _ w => w.trace = []) (triple_act fun _ hw => hw) fun l => ?_
  refine triple_bind (Q := fun _ w => Balanced w.trace) (triple_tell fun w hw => ?_) fun _ => ?_
  · refine hplain.log w _ rfl ?_
    rw [hw]
    rfl
  refine triple_bind (Q := fun a w => Balanced w.trace ∧ ∀ t, a = .ok t → known w.trace = some t.height)
    (triple_act fun w hw => ⟨resolved_balanced hw _, fun t ht => ?_⟩) fun a => ?_
  · show known (w.trace ++ [.resolved (E.bestTip w.env).1]) = _
    rw [known_append, ht]
    rfl
  cases a with
  | error e =>
    exact fun w hw => caught_plain hplain (fun _ h => h) e _ _ _ w hw.1
  | ok r =>
    refine triple_mono (P := Learned r) ?_ (fun w hw => ⟨hw.2 r rfl, hw.1⟩) (fun _ _ h => h)
      fun _ h => h
    refine triple_bind (forkPointCheck_plain (plain_learned r) (fun _ h => h.balanced) l r)
      fun _ => ?_
    refine triple_bind (Q := fun _ w => Learned r w ∧ w.progress.totalUnitCount = r.height)
      (triple_tell fun w hw => ⟨⟨hw.knows, hw.balanced⟩, rfl⟩) fun _ => ?_
    refine triple_bind (Q := fun _ => Tracked l r)
      (triple_tell fun w hw => ⟨⟨hw.1.knows, hw.1.balanced⟩, rfl, hw.2⟩) fun _ => ?_
    exact triple_pure _ fun _ hw => hw

/-- The answer of a re-poll, once it is on record. -/
structure Polled (l r t : BlockTip) (w : World E) : Prop where
  trace : ∃ before, Balanced before ∧ known before = some r.height ∧
    w.trace = before ++ [.repolled l (.ok t)]
  completed : w.progress.completedUnitCount = l.height
  total : w.progress.totalUnitCount = r.height

/-- A re-poll that ends the run: steady exactly if its `.finished` is coherent. -/
theorem finished_balanced {t : BlockTip} (h : Polled l r t w) (hle : t.height ≤ l.height) :
    Balanced ((w.log (.yield ⟨.finished, l, t⟩ w.progress)).log .finish).trace := by
  obtain ⟨⟨before, hbefore, hknown, htrace⟩, hcompleted, htotal⟩ := h
  have hsteady : (Event.repolled l (.ok t)).steady (known before) =
      decide (r.height = t.height) := by
    show decide (l.height < t.height ∨ known before = some t.height) = _
    rw [hknown, decide_eq_decide, Option.some.injEq]
    omega
  have hcoherent : (Event.yield ⟨.finished, l, t⟩ w.progress).coherent =
      decide (r.height = t.height) := by
    show decide (w.progress.completedUnitCount = l.height ∧
      w.progress.totalUnitCount = t.height) = _
    rw [hcompleted, htotal, decide_eq_decide]
    omega
  show Balanced (w.trace ++ _ ++ _)
  refine balanced_append ?_ rfl rfl
  unfold Balanced at hbefore ⊢
  rw [htrace, coherent_append, coherent_append, steady_append, steady_append, hsteady, hcoherent,
    hbefore]
  show (_ && true && _) = (_ && _ && true)
  rw [Bool.and_true, Bool.and_true]

/-- A re-poll that goes on: what is known is set. -/
theorem tracked_grown {t : BlockTip} (h : Polled l r t w) (hlt : l.height < t.height) :
    Tracked l t { w with progress := { w.progress with totalUnitCount := t.height } } := by
  obtain ⟨⟨before, hbefore, hknown, htrace⟩, hcompleted, htotal⟩ := h
  refine ⟨⟨?_, ?_⟩, hcompleted, rfl⟩
  · show known w.trace = _
    rw [htrace, known_append]
    exact if_pos hlt
  · show Balanced w.trace
    rw [htrace]
    exact balanced_append hbefore rfl (decide_eq_true (.inl hlt))

theorem repoll_tracked (l r : BlockTip) :
    Triple (Tracked (E := E) l r) (repoll l r) (fun r' => Tracked l r')
      (fun w => Balanced w.trace) := by
  refine triple_ite (fun _ => ?_) fun _ => triple_pure _ fun _ hw => hw
  refine triple_bind
    (Q := fun a w => (∀ e, a = .error e → Tracked l r w) ∧ ∀ t, a = .ok t → Polled l r t w)
    (triple_act fun w hw => ⟨fun e he => ?_, fun t ht => ?_⟩) fun a => ?_
  · rw [he]
    refine ⟨⟨?_, balanced_append hw.balanced rfl rfl⟩, hw.completed, hw.total⟩
    show known (w.trace ++ [.repolled l (.error e)]) = _
    rw [known_append]
    exact hw.knows
  · rw [ht]
    exact ⟨⟨w.trace, hw.balanced, hw.knows, rfl⟩, hw.completed, hw.total⟩
  cases a with
  | error e =>
    exact fun w hw => caught_plain (plain_tracked l r) (fun _ h => h.balanced) e _ _ _ w (hw.1 e rfl)
  | ok t =>
    refine triple_ite (fun hle w hw => finished_balanced (hw.2 t rfl) hle) fun hgt => ?_
    refine triple_bind (Q := fun _ => Tracked l t)
      (triple_tell fun w hw => tracked_grown (hw.2 t rfl) (by omega)) fun _ => ?_
    exact triple_pure _ fun _ hw => hw

theorem connectNext_tracked (l r : BlockTip) (block : Block) :
    Triple (Tracked (E := E) l r) (connectNext l r block) (fun l' => Tracked l' r)
      (fun w => Balanced w.trace) := by
  refine triple_bind (ask_plain (plain_tracked l r) fun _ => rfl) fun success => ?_
  refine triple_ite
    (fun _ => failAndReturn_plain (plain_tracked l r) (fun _ h => h.balanced) _ _ _) fun _ => ?_
  refine triple_bind (Q := fun _ => Tracked l r) (triple_act fun _ hw => hw) fun tip => ?_
  refine triple_bind (Q := fun _ => Tracked tip r)
    (triple_tell fun w hw => ⟨⟨hw.knows, hw.balanced⟩, rfl, hw.total⟩) fun _ => ?_
  refine triple_bind (Q := fun _ => Tracked tip r) (triple_tell fun w hw => ?_) fun _ =>
    triple_pure _ fun _ hw => hw
  have hcoherent : (Event.yield ⟨.syncing, tip, r⟩ w.progress).coherent = true :=
    decide_eq_true ⟨hw.completed, hw.total⟩
  refine ⟨⟨?_, balanced_append hw.balanced hcoherent rfl⟩, hw.completed, hw.total⟩
  show known (w.trace ++ [_]) = _
  rw [known_append]
  exact hw.knows

/-- **A round keeps the counts.** -/
theorem iteration_tracked (tips : BlockTip × BlockTip) :
    Triple (Tracked (E := E) tips.1 tips.2) (iteration tips) (fun tips' => Tracked tips'.1 tips'.2)
      (fun w => Balanced w.trace) := by
  refine triple_bind (ask_plain (plain_tracked tips.1 tips.2) fun _ => rfl) fun cancelled => ?_
  refine triple_ite (fun _ w hw => ?_) fun _ => ?_
  · exact ((plain_tracked tips.1 tips.2).log w .finish rfl hw).balanced
  refine triple_bind (repoll_tracked tips.1 tips.2) fun r => ?_
  refine triple_bind (fetchNext_plain (plain_tracked tips.1 r) (fun _ h => h.balanced) _ _)
    fun block => ?_
  refine triple_bind (connectNext_tracked tips.1 r block) fun l => ?_
  exact triple_pure _ fun _ hw => hw

/-! ## 4. Whole runs -/

/-- In every run, the updates are coherent exactly if the re-polls are steady. -/
theorem run_balanced (E : Environment) (n : Nat) (env : E.State) (progress : Progress) :
    Balanced (run E n env progress).2.trace := by
  have hloop := triple_iter
    (I := fun _ (tips : BlockTip × BlockTip) => Tracked (E := E) tips.1 tips.2)
    (fun _ tips => iteration_tracked tips) n 0
  have hrun := triple_bind prepare_tracked hloop ⟨env, [], progress⟩ rfl
  exact leaves_state (leaves_mono hrun (fun _ _ h => h.balanced) fun _ h => h)

theorem steadyFrom_iff (height : Option Int) (trace : List Event) :
    steadyFrom height trace = true ↔ ∀ before e after, trace = before ++ e :: after →
      e.steady (before.foldl Event.learn height) = true := by
  induction trace generalizing height with
  | nil =>
    refine ⟨fun _ before e after h => ?_, fun _ => rfl⟩
    simp at h
  | cons first rest ih =>
    unfold steadyFrom
    rw [Bool.and_eq_true, ih]
    constructor
    · intro ⟨hfirst, hrest⟩ before e after h
      cases before with
      | nil =>
        cases h
        exact hfirst
      | cons b before =>
        obtain ⟨rfl, hrest'⟩ := List.cons.inj h
        exact hrest before e after hrest'
    · intro hall
      refine ⟨hall [] first rest rfl, fun before e after h => ?_⟩
      exact hall (first :: before) e after (by rw [h]; rfl)

/-- A steady run, by its re-polls. -/
theorem steady_iff (trace : List Event) :
    steady trace = true ↔ ∀ before l t after, trace = before ++ .repolled l (.ok t) :: after →
      t.height ≤ l.height → known before = some t.height := by
  unfold steady
  rw [steadyFrom_iff]
  constructor
  · intro hall before l t after h hle
    rcases of_decide_eq_true (hall before _ after h) with hlt | hknown
    · omega
    · exact hknown
  · intro hall before e after h
    cases e with
    | repolled l a =>
      cases a with
      | error e => rfl
      | ok t =>
        refine decide_eq_true ?_
        by_cases hlt : l.height < t.height
        · exact .inl hlt
        · exact .inr (hall before l t after h (by omega))
    | _ => rfl

/-- The updates of the main loop, by the counts they find. -/
theorem coherent_iff (trace : List Event) :
    trace.all Event.coherent = true ↔ ∀ u p, .yield u p ∈ trace →
      u.state = .syncing ∨ u.state = .finished →
      p.completedUnitCount = u.tip.height ∧ p.totalUnitCount = u.remoteTip.height := by
  rw [List.all_eq_true]
  constructor
  · intro hall u p hu hstate
    have hcoherent := hall _ hu
    obtain ⟨state, tip, remoteTip⟩ := u
    rcases hstate with hstate | hstate
    · cases hstate
      exact of_decide_eq_true hcoherent
    · cases hstate
      exact of_decide_eq_true hcoherent
  · intro hall e he
    cases e with
    | yield u p =>
      obtain ⟨state, tip, remoteTip⟩ := u
      cases state with
      | syncing => exact decide_eq_true (hall _ p he (.inl rfl))
      | finished => exact decide_eq_true (hall _ p he (.inr rfl))
      | _ => rfl
    | _ => rfl

/-- Runs one after the other, each followed for a number of rounds from an environment of its own.
    The `Progress` is that of the `BlockchainSync`, and goes from one to the next. -/
def runs (E : Environment) : List (Nat × E.State) → Progress → List (World E)
  | [], _ => []
  | (n, env) :: rest, progress =>
    let w := (run E n env progress).2
    w :: runs E rest w.progress

theorem runs_balanced (E : Environment) (starts : List (Nat × E.State)) (progress : Progress)
    (w : World E) (hw : w ∈ runs E starts progress) : Balanced w.trace := by
  induction starts generalizing progress with
  | nil => cases hw
  | cons start rest ih =>
    rcases List.mem_cons.1 hw with rfl | hw
    · exact run_balanced E start.1 start.2 progress
    · exact ih _ hw

/-- **Coherent progress.** Over all runs of a `BlockchainSync` that do not overlap: every
    `.syncing` and `.finished` finds the heights it carries in `storage.progress`, if and only if
    every re-poll that answers no higher tip answers the height of the last remote tip that the run
    went by. -/
theorem progress_coherent_iff (E : Environment) (starts : List (Nat × E.State))
    (progress : Progress) :
    (∀ w ∈ runs E starts progress, ∀ u p, .yield u p ∈ w.trace →
        u.state = .syncing ∨ u.state = .finished →
        p.completedUnitCount = u.tip.height ∧ p.totalUnitCount = u.remoteTip.height) ↔
      ∀ w ∈ runs E starts progress, ∀ before l t after,
        w.trace = before ++ .repolled l (.ok t) :: after → t.height ≤ l.height →
        known before = some t.height := by
  constructor
  · intro hcoherent w hw
    rw [← steady_iff, ← runs_balanced E starts progress w hw, coherent_iff]
    exact hcoherent w hw
  · intro hsteady w hw
    rw [← coherent_iff, runs_balanced E starts progress w hw, steady_iff]
    exact hsteady w hw

/-- The kernel is at genesis until it is handed a block, and then at height 1. The source's tip is
    at height 1, and back at 0 by the time of the re-poll. -/
def shrinkingEnv : Environment where
  State := Bool
  bestEntry connected :=
    if connected then ⟨Hash.repeating 1, 1, 1⟩ else ⟨Hash.repeating 0, 0, 0⟩
  isCancelled s := (false, s)
  bestTip connected := (.ok ⟨Hash.repeating 1, if connected then 0 else 1, none⟩, connected)
  blockHash _ s := (.ok (Hash.repeating 1).val, s)
  block _ s := (.ok ⟨⟨Hash.repeating 1, Hash.repeating 0, 1, 0⟩, []⟩, s)
  processBlock _ _ := ((true, true), true)
  errorDescription _ := none
  interpolation _ := ""

/-- The run finishes with a remote tip at height 0 and a total of 1. -/
theorem finished_of_stale_total :
    ∃ w ∈ runs shrinkingEnv [(2, false)] ⟨0, 0⟩, ∃ u p, .yield u p ∈ w.trace ∧
      u.state = .finished ∧ u.remoteTip.height = 0 ∧ p.totalUnitCount = 1 :=
  ⟨(run shrinkingEnv 2 false ⟨0, 0⟩).2, List.mem_singleton.2 rfl,
    ⟨.finished, ⟨Hash.repeating 1, 1, some 1⟩, ⟨Hash.repeating 1, 0, none⟩⟩, ⟨1, 1⟩,
    List.mem_of_getElem? (i := 9) rfl, rfl, rfl, rfl⟩

end SwiftBitcoinKernel
