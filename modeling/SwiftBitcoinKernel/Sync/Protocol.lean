/-
  File:      SwiftBitcoinKernel/Sync/Protocol.lean
  Subject:   What a consumer can rely on: the shape of a run's updates and its single finish.

  Whatever the source answers, whatever the kernel does and whenever the task is cancelled:

  * `protocol` -- the language `preparing · syncing* · (finished | failed)?`;
  * `Course`, `Ended` -- a run that is going on after `k` connected blocks, and one that has
    returned; `course_walk` -- every call and every way out moves between the two;
  * `run_course` -- after `n` rounds a run is on its course with exactly `n` `.syncing` updates,
    or it has ended;
  * `run_protocol` -- the update protocol of every run: the language, one `finish()` after the
    last yield, and silence exactly when a cancellation was observed.
-/
import Mathlib.Computability.Language
import SwiftBitcoinKernel.Sync.Trace

namespace SwiftBitcoinKernel

open Logic Computability

variable {E : Environment}

/-! ## 1. Reading a trace -/

/-- The lifecycle states of a trace's updates. -/
def states (trace : List Event) : List UpdateState := (updates trace).map Update.state

/-- A source call threw `CancellationError`. -/
def threwCancellation {α : Type} : Except SwiftError α → Bool
  | .error .cancellation => true
  | _ => false

/-- The event tells the run that its task was cancelled. -/
def Event.tellsCancelled : Event → Bool
  | .isCancelled answer => answer
  | .resolved answer | .repolled _ answer => threwCancellation answer
  | .blockHash _ answer => threwCancellation answer
  | .block _ answer => threwCancellation answer
  | .yield .. | .finish | .processBlock .. => false

/-- One terminal state: `finished | failed`. -/
def terminal : Language UpdateState := {w | ∃ s : UpdateState, s.isTerminal = true ∧ w = [s]}

/-- The event is the answer to a call. -/
def Event.isAnswer : Event → Bool
  | .yield .. | .finish => false
  | _ => true

/-- **The update protocol**: `preparing · syncing* · (finished | failed)?`. -/
def protocol : Language UpdateState := {[.preparing]} * {[.syncing]}∗ * (1 + terminal)

@[simp] theorem states_append (t u : List Event) : states (t ++ u) = states t ++ states u := by
  unfold states
  rw [updates_append]
  exact List.map_append

/-- The words of the protocol, written out. -/
theorem mem_protocol {w : List UpdateState} (k : Nat) (last : List UpdateState)
    (hlast : last = [] ∨ last ∈ terminal)
    (hw : w = .preparing :: List.replicate k .syncing ++ last) : w ∈ protocol := by
  refine ⟨.preparing :: List.replicate k .syncing, ⟨[.preparing], rfl, _, ?_, rfl⟩, last, ?_, ?_⟩
  · refine Language.mem_kstar.2 ⟨List.replicate k [.syncing], ?_, ?_⟩
    · exact List.flatten_replicate_singleton.symm
    · intro y hy
      exact List.eq_of_mem_replicate hy
  · rcases hlast with rfl | h
    · exact .inl rfl
    · exact .inr h
  · exact hw.symm

/-! ## 2. A run that goes on, and a run that has ended -/

/-- A run in progress after `k` connected blocks; `told` says whether it has been told of a
    cancellation. -/
structure Course (k : Nat) (told : Bool) (trace : List Event) : Prop where
  states : states trace = .preparing :: List.replicate k .syncing
  unfinished : .finish ∉ trace
  told : trace.any Event.tellsCancelled = told

/-- A run that has returned: `finish()` comes last and only there, and the updates before it close
    with a terminal one exactly when no cancellation was observed. -/
structure Ended (trace : List Event) : Prop where
  closing : ∃ before, trace = before ++ [.finish] ∧ .finish ∉ before
  word : states trace ∈ protocol
  silent : (∀ u ∈ updates trace, u.state.isTerminal = false) ↔
    ∃ e ∈ trace, e.tellsCancelled = true

/-- An answer moves a run along: no update, and its cancellation is remembered. -/
theorem course_answer {k : Nat} {trace : List Event} {e : Event} (h : Course k false trace)
    (he : e.isAnswer = true) : Course k e.tellsCancelled (trace ++ [e]) := by
  have hu : e.update? = none := by cases e <;> first | rfl | cases he
  have hf : Event.finish ≠ e := by rintro rfl; cases he
  refine ⟨?_, ?_, ?_⟩
  · rw [states_append, h.states]
    simp [SwiftBitcoinKernel.states, updates, hu]
  · simp only [List.mem_append, List.mem_singleton, not_or]
    exact ⟨h.unfinished, hf⟩
  · rw [List.any_append, h.told]
    simp

/-- A `.syncing` update is one more connected block. -/
theorem course_syncing {k : Nat} {told : Bool} {trace : List Event} (h : Course k told trace)
    (tip remoteTip : BlockTip) (progress : Progress) :
    Course (k + 1) told (trace ++ [.yield ⟨.syncing, tip, remoteTip⟩ progress]) := by
  refine ⟨?_, ?_, ?_⟩
  · rw [states_append, h.states, List.replicate_succ']
    rfl
  · simp [h.unfinished]
  · simp [List.any_append, h.told, Event.tellsCancelled]

/-- Every update of a run in progress is `.preparing` or `.syncing`. -/
theorem Course.not_terminal {k : Nat} {told : Bool} {trace : List Event} (h : Course k told trace)
    {u : Update} (hu : u ∈ updates trace) : u.state.isTerminal = false := by
  have hmem : u.state ∈ SwiftBitcoinKernel.states trace := List.mem_map_of_mem hu
  rw [h.states, List.mem_cons] at hmem
  rcases hmem with hs | hs
  · rw [hs]; rfl
  · rw [List.eq_of_mem_replicate hs]; rfl

theorem any_tellsCancelled {trace : List Event} {b : Bool}
    (h : trace.any Event.tellsCancelled = b) :
    (∃ e ∈ trace, e.tellsCancelled = true) ↔ b = true := by
  rw [← h, List.any_eq_true]

/-- A run that was told of a cancellation ends by `finish()` alone. -/
theorem ended_silent {k : Nat} {trace : List Event} (h : Course k true trace) :
    Ended (trace ++ [.finish]) := by
  refine ⟨⟨trace, rfl, h.unfinished⟩, ?_, ?_⟩
  · refine mem_protocol k [] (.inl rfl) ?_
    rw [states_append, h.states]
    rfl
  · have htold : (trace ++ [Event.finish]).any Event.tellsCancelled = true := by
      rw [List.any_append, h.told]
      rfl
    rw [any_tellsCancelled htold]
    refine iff_of_true ?_ rfl
    intro u hu
    rw [updates_append] at hu
    exact h.not_terminal (by simpa [updates, Event.update?] using hu)

/-- A run that was not ends by a terminal update and `finish()`. -/
theorem ended_terminal {k : Nat} {trace : List Event} (h : Course k false trace) {u : Update}
    (hu : u.state.isTerminal = true) (progress : Progress) :
    Ended (trace ++ [.yield u progress] ++ [.finish]) := by
  refine ⟨⟨trace ++ [.yield u progress], rfl, by simp [h.unfinished]⟩, ?_, ?_⟩
  · refine mem_protocol k [u.state] (.inr ⟨u.state, hu, rfl⟩) ?_
    rw [states_append, states_append, h.states]
    simp [states, updates, Event.update?]
  · have hnot : (trace ++ [Event.yield u progress] ++ [Event.finish]).any Event.tellsCancelled =
        false := by
      rw [List.any_append, List.any_append, h.told]
      rfl
    rw [any_tellsCancelled hnot]
    refine iff_of_false ?_ Bool.false_ne_true
    intro hall
    have hmem : u ∈ updates (trace ++ [.yield u progress] ++ [.finish]) := by
      simp [updates, Event.update?]
    rw [hall u hmem] at hu
    cases hu

/-! ## 3. One triple for each part of the body -/

/-- The run goes on after `k` connected blocks. -/
def OnCourse (E : Environment) (k : Nat) (told : Bool) (w : World E) : Prop :=
  Course k told w.trace

/-- The run has returned. -/
def HasEnded (E : Environment) (w : World E) : Prop := Ended w.trace

theorem ask_course {α : Type} (k : Nat) (f : E.State → α × E.State) {record : α → Event}
    (h : ∀ a, (record a).isAnswer = true) :
    Triple (OnCourse E k false) (ask f record) (fun a => OnCourse E k (record a).tellsCancelled)
      (HasEnded E) :=
  triple_act fun w hw => course_answer hw (h (f w.env).1)

/-- A source call, by what it throws. -/
theorem ask_answered {α : Type} (k : Nat) (f : E.State → Except SwiftError α × E.State)
    {record : Except SwiftError α → Event} (h : ∀ a, (record a).isAnswer = true)
    (htells : ∀ a, (record a).tellsCancelled = threwCancellation a) :
    Triple (OnCourse E k false) (ask f record)
      (Answered (OnCourse E k false) fun e => OnCourse E k (decide (e = .cancellation)))
      (HasEnded E) := by
  refine triple_mono (ask_course k f h) (fun _ hw => hw) (fun a w hw => ?_) fun _ hw => hw
  rw [htells a] at hw
  cases a with
  | ok _ => exact hw
  | error e => cases e <;> exact hw

/-- The course of a run through its body: a thrown error is remembered as a cancellation or not,
    and a way out is silent or `.failed` accordingly. -/
theorem course_walk (k : Nat) :
    Walk (OnCourse E k false) (fun e => OnCourse E k (decide (e = .cancellation)))
      (HasEnded E) where
  resolveTip := ask_answered k _ (fun _ => rfl) fun _ => rfl
  blockHash height := ask_answered k _ (fun _ => rfl) fun _ => rfl
  blockFor hash := ask_answered k _ (fun _ => rfl) fun _ => rfl
  isCancelled := by
    refine triple_mono (ask_course k _ fun _ => rfl) (fun _ hw => hw) (fun b w hw => ?_)
      fun _ hw => hw
    cases b with
    | true => exact hw
    | false => exact hw
  progress _ _ hw := hw
  silent _ hw := ended_silent hw
  thrown w e reason tip remoteTip he hw := by
    have hcourse : Course k false w.trace := by
      have hnot : decide (e = .cancellation) = false := decide_eq_false he
      rw [← hnot]
      exact hw
    exact ended_terminal (u := ⟨.failed reason, tip, remoteTip⟩) hcourse rfl _
  failed _ reason tip remoteTip hw :=
    ended_terminal (u := ⟨.failed reason, tip, remoteTip⟩) hw rfl _

theorem repoll_course (k : Nat) (localTip remoteTip : BlockTip) :
    Triple (OnCourse E k false) (repoll localTip remoteTip) (fun _ => OnCourse E k false)
      (HasEnded E) := by
  refine repoll_walk (course_walk k) localTip remoteTip ?_ fun t w hw => ?_
  · exact ask_answered k _ (fun _ => rfl) fun _ => rfl
  · exact ended_terminal (u := ⟨.finished, localTip, t⟩) hw rfl _

/-- The only way on through the body adds one `.syncing` update. -/
theorem connectNext_course (k : Nat) (localTip remoteTip : BlockTip) (block : Block) :
    Triple (OnCourse E k false) (connectNext localTip remoteTip block)
      (fun _ => OnCourse E (k + 1) false) (HasEnded E) := by
  refine connectNext_walk (course_walk k) localTip remoteTip block ?_ fun tip w hw => ?_
  · exact ask_course k _ fun _ => rfl
  · exact course_syncing hw tip remoteTip _

/-- **One round**: it adds exactly one `.syncing` update, or the run has ended. -/
theorem iteration_course (k : Nat) (tips : BlockTip × BlockTip) :
    Triple (OnCourse E k false) (iteration tips) (fun _ => OnCourse E (k + 1) false)
      (HasEnded E) :=
  iteration_walk (Q := fun _ => OnCourse E (k + 1) false) (course_walk k) tips
    (repoll_course k tips.1) (connectNext_course k tips.1)

/-! ## 4. Whole runs -/

/-- After `n` rounds a run is on its course with exactly `n` `.syncing` updates, or it has
    ended. -/
theorem run_course (n : Nat) (env : E.State) (progress : Progress) :
    Leaves (run E n env progress) (fun _ => OnCourse E n false) (HasEnded E) := by
  refine run_walk (I := fun k _ => OnCourse E k false) (fun _ => course_walk 0) iteration_course n
    env progress ?_
  exact ⟨rfl, by simp, rfl⟩

/-- **The update protocol of every run.** For every source, kernel and cancellation schedule, and
    after every number `n` of rounds: the updates so far are a word of `protocol`, and what is
    yielded later only extends them. A run that goes on has yielded `.preparing` and `n` times
    `.syncing` and has not finished, so one that never ends yields `preparing · syncing^ω`. A run
    that has returned is over: it called `finish()` once and last, and it lacks a terminal
    update exactly when it observed a cancellation. -/
theorem run_protocol (E : Environment) (env : E.State) (progress : Progress) (n : Nat) :
    let r := run E n env progress
    states r.2.trace ∈ protocol ∧
    r.2.trace <+: (run E (n + 1) env progress).2.trace ∧
    (r.1 ≠ none →
      states r.2.trace = .preparing :: List.replicate n .syncing ∧ .finish ∉ r.2.trace) ∧
    (r.1 = none →
      (∀ k, run E (n + k) env progress = r) ∧
      (∃ before, r.2.trace = before ++ [.finish] ∧ .finish ∉ before) ∧
      ((∀ u ∈ updates r.2.trace, u.state.isTerminal = false) ↔
        ∃ e ∈ r.2.trace, e.tellsCancelled = true)) := by
  intro r
  have hcourse : Leaves r (fun _ => OnCourse E n false) (HasEnded E) := run_course n env progress
  have hgrow : r.2.trace <+: (run E (n + 1) env progress).2.trace := run_trace_mono n env progress
  cases hr : r with
  | mk o w =>
    rw [hr] at hcourse hgrow
    cases o with
    | some tips =>
      have hword : states w.trace ∈ protocol :=
        mem_protocol n [] (.inl rfl) (by rw [hcourse.states, List.append_nil])
      exact ⟨hword, hgrow, fun _ => ⟨hcourse.states, hcourse.unfinished⟩, fun h => nomatch h⟩
    | none =>
      refine ⟨hcourse.word, hgrow, fun h => absurd rfl h, fun _ => ⟨?_, hcourse.closing, ?_⟩⟩
      · exact run_returned hr
      · exact hcourse.silent

end SwiftBitcoinKernel
