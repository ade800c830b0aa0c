/-
  File:      SwiftBitcoinKernel/Sync/Cancellation.lean
  Subject:   A run against `EsploraBlockSource` whose task is cancelled: does it end silently?

  The cancellation surfaces as an error of the source, and the engine ends silently only on
  `CancellationError`. `fetchData` sleeps at three places and requests at one; two of the four are
  inside the `do` block whose last catch clause wraps every other error.

  * `Faults`, `run_faults` -- for any environment: if a call answers in a sound state or throws an
    error on which the state breaks, the run breaks on such an error and ends, silently if it is
    `CancellationError` and with `.failed` if it is not;
  * `Suspension.isSilent` -- the suspension points whose cancellation gets through as it is;
  * `attemptOnce_cancelled`, `rounds_cancelled`, `fetchData_cancelled` -- what a cancelled fetch
    throws, for each way through the two catch clauses;
  * `cancelled_run_silent_iff` -- a cancelled run ends silently just from those.
-/
import SwiftBitcoinKernel.Sync.Trace
import SwiftBitcoinKernel.Sync.Esplora

namespace SwiftBitcoinKernel

open Logic

/-! ## 1. Runs that break on a fault -/

section Faults

variable {E : Environment} {G : E.State → Prop} {B : SwiftError → E.State → Prop}

/-- A source call that keeps `G`, or throws an error on which the state is `B`. -/
def Faulty {α : Type} (G : E.State → Prop) (B : SwiftError → E.State → Prop)
    (f : Throwing E.State SwiftError α) : Prop :=
  Throws G f (fun _ => G) fun e s => G s ∨ B e s

/-- Every source call is of that kind, and nothing else breaks `G` or is told of a cancellation. -/
structure Faults (E : Environment) (G : E.State → Prop) (B : SwiftError → E.State → Prop) :
    Prop where
  bestTip : Faulty G B E.bestTip
  blockHash : ∀ height, Faulty G B (E.blockHash height)
  block : ∀ hash, Faulty G B (E.block hash)
  isCancelled : ∀ s, G s → (E.isCancelled s).1 = false ∧ G (E.isCancelled s).2
  processBlock : ∀ b s, G s → G (E.processBlock b s).2

/-- No update so far is terminal. -/
def Unterminated (trace : List Event) : Prop :=
  ∀ u ∈ updates trace, u.state.isTerminal = false

/-- Some update so far is `.failed`. -/
def HasFailed (trace : List Event) : Prop := ∃ u ∈ updates trace, u.state.isFailed = true

/-- The run goes on. -/
structure Going (G : E.State → Prop) (w : World E) : Prop where
  sound : G w.env
  unterminated : Unterminated w.trace

/-- The run goes on, from an error to its catch clauses. -/
structure Caught (G : E.State → Prop) (B : SwiftError → E.State → Prop) (e : SwiftError)
    (w : World E) : Prop where
  fault : G w.env ∨ B e w.env
  unterminated : Unterminated w.trace

/-- The run has returned: with `G`, or on a fault, of which it tells unless it is a cancellation. -/
def Broken (G : E.State → Prop) (B : SwiftError → E.State → Prop) (w : World E) : Prop :=
  G w.env ∨ ∃ e, B e w.env ∧ (e = .cancellation → Unterminated w.trace) ∧
    (e ≠ .cancellation → HasFailed w.trace)

theorem unterminated_append {trace : List Event} {e : Event} (h : Unterminated trace)
    (he : ∀ u, e.update? = some u → u.state.isTerminal = false) : Unterminated (trace ++ [e]) := by
  intro u hu
  rw [updates_append, List.mem_append] at hu
  rcases hu with hu | hu
  · exact h u hu
  · obtain ⟨e', hmem, heq⟩ := List.mem_filterMap.1 hu
    rw [List.mem_singleton] at hmem
    subst hmem
    exact he u heq

theorem HasFailed.not_unterminated {trace : List Event} (h : HasFailed trace) :
    ¬Unterminated trace := by
  obtain ⟨⟨state, tip, remoteTip⟩, hu, hfailed⟩ := h
  intro hall
  cases state with
  | failed reason => exact Bool.false_ne_true (hall _ hu).symm
  | _ => cases hfailed

/-- An answer is no update. -/
theorem unterminated_answer {trace : List Event} {e : Event} (h : Unterminated trace)
    (he : e.update? = none) : Unterminated (trace ++ [e]) :=
  unterminated_append h fun u hu => by rw [he] at hu; cases hu

theorem ask_faulty {α : Type} {f : E.State → Except SwiftError α × E.State}
    {record : Except SwiftError α → Event} (hf : Faulty G B f)
    (hrecord : ∀ a, (record a).update? = none) :
    Triple (Going G) (ask f record) (Answered (Going G) (Caught G B)) (Broken G B) := by
  refine triple_act fun w hw => ?_
  have hout := hf w.env hw.sound
  have htrace := unterminated_answer hw.unterminated (hrecord (f w.env).1)
  cases hr : f w.env with
  | mk a env =>
    rw [hr] at hout htrace
    cases a with
    | ok _ => exact ⟨hout, htrace⟩
    | error e => exact ⟨hout, htrace⟩

/-- **A fault ends the run**, silently or with `.failed`. -/
theorem faults_walk (F : Faults E G B) : Walk (Going G) (Caught G B) (Broken G B) where
  resolveTip := ask_faulty F.bestTip fun _ => rfl
  blockHash height := ask_faulty (F.blockHash height) fun _ => rfl
  blockFor hash := ask_faulty (F.block hash) fun _ => rfl
  isCancelled := triple_act fun w hw => by
    obtain ⟨hfalse, hkept⟩ := F.isCancelled w.env hw.sound
    rw [hfalse]
    exact ⟨hkept, unterminated_answer hw.unterminated rfl⟩
  progress _ _ hw := ⟨hw.sound, hw.unterminated⟩
  silent w hw := by
    rcases hw.fault with hG | hB
    · exact .inl hG
    · exact .inr ⟨_, hB, fun _ => unterminated_answer hw.unterminated rfl, fun h => absurd rfl h⟩
  thrown w e reason tip remoteTip he hw := by
    rcases hw.fault with hG | hB
    · exact .inl hG
    · refine .inr ⟨e, hB, fun h => absurd h he, fun _ => ?_⟩
      refine ⟨⟨.failed reason, tip, remoteTip⟩, ?_, rfl⟩
      simp [World.log, updates, Event.update?]
  failed _ _ _ _ hw := .inl hw.sound

theorem connectNext_faults (F : Faults E G B) (localTip remoteTip : BlockTip) (block : Block) :
    Triple (Going G) (connectNext localTip remoteTip block) (fun _ => Going G) (Broken G B) := by
  refine connectNext_walk (faults_walk F) localTip remoteTip block (triple_act fun w hw => ?_)
    fun tip w hw => ⟨hw.sound, unterminated_append hw.unterminated fun u hu => ?_⟩
  · exact ⟨F.processBlock block w.env hw.sound, unterminated_answer hw.unterminated rfl⟩
  · cases hu
    rfl

theorem iteration_faults (F : Faults E G B) (tips : BlockTip × BlockTip) :
    Triple (Going G) (iteration tips) (fun _ => Going G) (Broken G B) := by
  refine iteration_walk (Q := fun _ => Going G) (faults_walk F) tips (fun r => ?_)
    (connectNext_faults F tips.1)
  exact repoll_walk (faults_walk F) tips.1 r (ask_faulty F.bestTip fun _ => rfl)
    fun _ _ hw => .inl hw.sound

/-- **Whole runs**: sound while it goes on, broken once it has returned. -/
theorem run_faults (F : Faults E G B) (n : Nat) (env : E.State) (progress : Progress)
    (henv : G env) : Leaves (run E n env progress) (fun _ => Going G) (Broken G B) := by
  refine run_walk (I := fun _ _ => Going G) (fun _ => faults_walk F) (fun _ => iteration_faults F) n
    env progress ⟨henv, fun u hu => ?_⟩
  rw [List.mem_singleton.1 hu]
  rfl

end Faults

/-! ## 2. A cancelled fetch -/

/-- The suspension points whose `CancellationError` reaches the caller as it is: those outside the
    `do` block, before it and in its last catch clause. -/
def Suspension.isSilent : Suspension → Bool
  | .slotWait _ | .networkRetry _ => true
  | .request _ | .statusRetry _ => false

/-- The cancellation, due at suspension `j`, has not arrived. -/
def Pending (j : Nat) (s : EsploraState) : Prop := s.suspensions.length ≤ j

/-- It has arrived, at the suspension `point`, and nothing was awaited since. -/
def Delivered (j : Nat) (point : Suspension) (s : EsploraState) : Prop :=
  s.suspensions.length = j + 1 ∧ s.suspensions[j]? = some point

/-- It has arrived inside the `do` block, and its error is one that the last catch clause wraps. -/
def Wrapped (j : Nat) (e : SwiftError) (s : EsploraState) : Prop :=
  ∃ point, Delivered j point s ∧ point.isSilent = false ∧ e.isBlockSourceError = false ∧
    isRetryableNetworkError e = false

/-- It has arrived, and is `CancellationError` to the caller just from a silent point. -/
def Surfaced (j : Nat) (e : SwiftError) (s : EsploraState) : Prop :=
  ∃ point, Delivered j point s ∧ (e = .cancellation ↔ point.isSilent = true)

namespace Esplora

variable {S : Esplora} {j : Nat}

theorem suspend_cancelled (hj : S.cancelAt = some j) (point : Suspension)
    {R : SwiftError → EsploraState → Prop} :
    Throws (Pending j) (S.suspend point)
      (fun b s => if b then Delivered j point s else Pending j s) R := by
  refine throws_act fun s hs => ?_
  unfold Pending at hs
  simp only [cancelledBy, hj]
  by_cases hle : j ≤ s.suspensions.length
  · have hlen : s.suspensions.length = j := by omega
    rw [if_pos (decide_eq_true hle)]
    exact ⟨by simp [hlen], by simp [← hlen]⟩
  · rw [if_neg (by simpa using hle)]
    simp only [Pending, List.length_append, List.length_singleton]
    omega

/-- A cancelled sleep throws `CancellationError`. -/
theorem sleep_cancelled (hj : S.cancelAt = some j) (point : Suspension) :
    Throws (Pending j) (S.sleep point) (fun _ => Pending j)
      fun e s => e = .cancellation ∧ Delivered j point s := by
  refine throws_bind (suspend_cancelled hj point) fun b => ?_
  cases b with
  | true => exact throws_throw _ fun s hs => ⟨rfl, hs⟩
  | false => exact throws_pure _ fun s hs => hs

/-- A cancelled request throws an error that is not the source's own, and not a transient one. -/
theorem httpData_cancelled (hj : S.cancelAt = some j) (path : String) :
    Throws (Pending j) (S.httpData path) (fun _ => Pending j)
      fun e s => Pending j s ∨ Wrapped j e s := by
  refine throws_bind (suspend_cancelled hj (.request path)) fun b => ?_
  cases b with
  | true =>
    refine throws_bind (Q := fun e s => Wrapped j e s) (throws_act fun s hs => ?_)
      fun e => throws_throw e fun _ h => .inr h
    refine ⟨.request path, hs, rfl, ?_⟩
    cases S.cancelledRequest s.requests <;> exact ⟨rfl, rfl⟩
  | false =>
    refine throws_bind (Q := fun _ => Pending j) (throws_act fun s hs => hs) fun a => ?_
    cases a with
    | ok response => exact throws_pure _ fun _ hs => hs
    | error e => exact throws_throw e fun _ hs => .inl hs

/-- The sleep before a retry after a response is inside the `do` block too. -/
theorem retryStatus_cancelled (hj : S.cancelAt = some j) (statusCode : Int)
    (retryAfter : Option String) (attempt left : Nat) :
    Throws (Pending j) (S.retryStatus statusCode retryAfter attempt left) (fun _ => Pending j)
      fun e s => Pending j s ∨ Wrapped j e s := by
  cases left with
  | zero =>
    exact throws_ite (fun _ => throws_throw _ fun _ hs => .inl hs)
      fun _ => throws_throw _ fun _ hs => .inl hs
  | succ left =>
    refine throws_bind (throws_mono (sleep_cancelled hj _) fun e s h => ?_) fun _ =>
      throws_pure _ fun _ hs => hs
    rw [h.1]
    exact .inr ⟨_, h.2, rfl, rfl, rfl⟩

/-- **The `do` block** wraps every cancellation that arrives in it. -/
theorem request_cancelled (hj : S.cancelAt = some j) (path : String) (left attempt : Nat) :
    Throws (Pending j) (S.request path left attempt) (fun _ => Pending j)
      fun e s => Pending j s ∨ Wrapped j e s := by
  refine throws_bind (httpData_cancelled hj path) fun response => ?_
  cases response with
  | nonHTTP body => exact throws_throw _ fun _ hs => .inl hs
  | http statusCode retryAfter body =>
    refine throws_ite (fun _ => throws_pure _ fun _ hs => hs) fun _ => ?_
    refine throws_ite (fun _ => throws_throw _ fun _ hs => .inl hs) fun _ => ?_
    refine throws_ite (fun _ => retryStatus_cancelled hj _ _ _ _) fun _ => ?_
    exact throws_throw _ fun _ hs => .inl hs

/-- The last catch clause, on an error thrown before the cancellation: it may sleep again. -/
theorem retryError_pending (hj : S.cancelAt = some j) (e : SwiftError) (attempt left : Nat) :
    Throws (Pending j) (S.retryError e attempt left) (fun _ => Pending j)
      fun e s => Pending j s ∨ Surfaced j e s := by
  cases left with
  | zero => exact throws_throw _ fun _ hs => .inl hs
  | succ left =>
    refine throws_ite (fun _ => ?_) fun _ => throws_throw _ fun _ hs => .inl hs
    refine throws_bind (throws_mono (sleep_cancelled hj _) fun e s h => ?_) fun _ =>
      throws_pure _ fun _ hs => hs
    exact .inr ⟨_, h.2, iff_of_true h.1 rfl⟩

/-- On the error of the cancellation it throws `.network`. -/
theorem retryError_wrapped (e : SwiftError) (attempt left : Nat) :
    Throws (Wrapped j e) (S.retryError e attempt left) (fun _ => Pending j)
      fun e s => Pending j s ∨ Surfaced j e s := by
  have hnetwork : ∀ s, Wrapped j e s → Pending j s ∨ Surfaced j (.network e) s := by
    intro s hs
    obtain ⟨point, hpoint, hloud, -, -⟩ := hs
    refine .inr ⟨point, hpoint, iff_of_false (fun h => by cases h) ?_⟩
    rw [hloud]
    exact Bool.false_ne_true
  cases left with
  | zero => exact throws_throw _ hnetwork
  | succ left =>
    refine throws_ite (fun hretry s hs => ?_) fun _ => throws_throw _ hnetwork
    obtain ⟨point, -, -, -, hnot⟩ := hs
    rw [hnot] at hretry
    cases hretry

/-- **A round of the loop**: the cancellation surfaces as what it is before the `do` block and in
    its catch clause, and as `.network` from inside. -/
theorem attemptOnce_cancelled (hj : S.cancelAt = some j) (path : String) (left attempt : Nat) :
    Throws (Pending j) (S.attemptOnce path left attempt) (fun _ => Pending j)
      fun e s => Pending j s ∨ Surfaced j e s := by
  refine throws_bind (Q := fun _ => Pending j) (throws_act fun _ hs => hs) fun slot => ?_
  refine throws_bind (throws_mono (sleep_cancelled hj _) fun e s h => ?_) fun _ => ?_
  · exact .inr ⟨_, h.2, iff_of_true h.1 rfl⟩
  refine throws_tryCatch (request_cancelled hj path left attempt) fun e => ?_
  refine throws_ite (fun hown => throws_throw e fun s hs => ?_) fun _ s hs => ?_
  · rcases hs with hs | ⟨_, -, -, hforeign, -⟩
    · exact .inl hs
    · rw [hforeign] at hown
      cases hown
  · rcases hs with hs | hs
    · exact retryError_pending hj e attempt left s hs
    · exact retryError_wrapped e attempt left s hs

theorem rounds_cancelled (hj : S.cancelAt = some j) (path : String) (left attempt : Nat) :
    Throws (Pending j) (S.rounds path left attempt) (fun _ => Pending j)
      fun e s => Pending j s ∨ Surfaced j e s := by
  -- the loop runs at most `left` rounds more
  induction left generalizing attempt with
  | zero =>
    refine throws_bind (attemptOnce_cancelled hj path 0 attempt) fun a => ?_
    cases a with
    | data d => exact throws_pure _ fun _ hs => hs
  | succ left ih =>
    refine throws_bind (attemptOnce_cancelled hj path (left + 1) attempt) fun a => ?_
    cases a with
    | data d => exact throws_pure _ fun _ hs => hs
    | again => exact ih (attempt + 1)

theorem fetchData_cancelled (hj : S.cancelAt = some j) (path : String) :
    Throws (Pending j) (S.fetchData path) (fun _ => Pending j)
      fun e s => Pending j s ∨ Surfaced j e s :=
  rounds_cancelled hj path _ 0

/-! ## 3. The source's calls -/

theorem bestTip_cancelled (hj : S.cancelAt = some j) :
    Throws (Pending j) S.bestTip (fun _ => Pending j) fun e s => Pending j s ∨ Surfaced j e s := by
  refine throws_bind (fetchData_cancelled hj _) fun heightData => ?_
  split
  · exact throws_throw _ fun _ hs => .inl hs
  · refine throws_bind (fetchData_cancelled hj _) fun hashData => ?_
    split
    · exact throws_throw _ fun _ hs => .inl hs
    · exact throws_pure _ fun _ hs => hs

theorem blockHash_cancelled (hj : S.cancelAt = some j) (height : Int) :
    Throws (Pending j) (S.blockHash height) (fun _ => Pending j)
      fun e s => Pending j s ∨ Surfaced j e s := by
  refine throws_bind (fetchData_cancelled hj _) fun d => ?_
  split
  · exact throws_throw _ fun _ hs => .inl hs
  · exact throws_pure _ fun _ hs => hs

theorem block_cancelled (hj : S.cancelAt = some j) (hash : Data) :
    Throws (Pending j) (S.block hash) (fun _ => Pending j)
      fun e s => Pending j s ∨ Surfaced j e s := by
  refine throws_bind (fetchData_cancelled hj _) fun d => ?_
  split
  · exact throws_pure _ fun _ hs => hs
  · exact throws_throw _ fun _ hs => .inl hs

end Esplora

theorem beside_throws {κ α : Type} {x : EsploraM α} {P : EsploraState → Prop}
    {Q : α → EsploraState → Prop} {R : SwiftError → EsploraState → Prop} (h : Throws P x Q R) :
    Throws (fun s : κ × EsploraState => P s.2) (beside x) (fun a s => Q a s.2)
      fun e s => R e s.2 := by
  intro s hs
  have hx := h s.2 hs
  unfold beside
  cases hr : x s.2 with
  | mk o s' =>
    rw [hr] at hx
    cases o with
    | ok a => exact hx
    | error e => exact hx

/-- The source's calls are the ones of section 1, and `Task.isCancelled` is false until then. -/
theorem esplora_faults (K : Manager) {S : Esplora} {j : Nat} (hj : S.cancelAt = some j) :
    Faults (esploraEnv K S) (fun s => Pending j s.2) fun e s => Surfaced j e s.2 where
  bestTip := beside_throws (Esplora.bestTip_cancelled hj)
  blockHash height := beside_throws (Esplora.blockHash_cancelled hj height)
  block hash := beside_throws (Esplora.block_cancelled hj hash)
  isCancelled s hs := by
    refine ⟨?_, hs⟩
    unfold Pending at hs
    simp only [esploraEnv, hj]
    exact decide_eq_false (by omega)
  processBlock _ _ hs := hs

/-! ## 4. Cancelled runs -/

/-- **A cancelled run ends**, silently just from a silent suspension point, and otherwise with a
    `.failed` update: for every manager, every server and every number of rounds. -/
theorem cancelled_run_silent_iff (K : Manager) (S : Esplora) (j n : Nat)
    (env : K.State × EsploraState) (progress : Progress) (point : Suspension)
    (hj : S.cancelAt = some j) (hbefore : env.2.suspensions.length ≤ j)
    (hpoint : (run (esploraEnv K S) n env progress).2.env.2.suspensions[j]? = some point) :
    let r := run (esploraEnv K S) n env progress
    r.1 = none ∧ ((∀ u ∈ updates r.2.trace, u.state.isTerminal = false) ↔ point.isSilent = true) ∧
      ((∃ u ∈ updates r.2.trace, u.state.isFailed = true) ↔ point.isSilent = false) := by
  have hrun := run_faults (esplora_faults K hj) n env progress hbefore
  have hdelivered : ¬Pending j (run (esploraEnv K S) n env progress).2.env.2 := by
    obtain ⟨hlt, -⟩ := List.getElem?_eq_some_iff.1 hpoint
    unfold Pending
    omega
  obtain ⟨hnone, hbroken⟩ := leaves_returned hrun fun _ hgoing => hdelivered hgoing.sound
  intro r
  rcases hbroken with hpending | ⟨e, ⟨p, hp, hiff⟩, hsilent, hloud⟩
  · exact absurd hpending hdelivered
  have heq : p = point := Option.some.inj (hp.2.symm.trans hpoint)
  subst heq
  by_cases he : e = .cancellation
  · have hquiet := hiff.1 he
    refine ⟨hnone, iff_of_true (hsilent he) hquiet, iff_of_false (fun hf => ?_) ?_⟩
    · exact HasFailed.not_unterminated hf (hsilent he)
    · rw [hquiet]
      decide
  · have hnot : p.isSilent = false := Bool.eq_false_iff.2 fun h => he (hiff.2 h)
    refine ⟨hnone, iff_of_false (hloud he).not_unterminated ?_, iff_of_true (hloud he) hnot⟩
    rw [hnot]
    decide

/-- A manager at genesis that accepts every block. -/
def genesisManager : Manager where
  State := Unit
  bestEntry _ := ⟨Hash.repeating 1, 0, 0⟩
  processBlock _ s := ((true, true), s)
  errorDescription _ := none
  interpolation _ := ""

/-- A source whose server answers `503` to every request. -/
def unavailable (cancelAt : Nat) (cancelledRequest : CancelledRequest) : Esplora where
  maximumRetries := 5
  baseRetryDelay := 1
  http _ _ := .ok (.http 503 none [])
  clock _ := 0
  double _ := none
  parseBlock _ := .error ""
  cancelAt := some cancelAt
  cancelledRequest _ := cancelledRequest

/-- Its run, for the rounds before the loop. -/
def unavailableRun (cancelAt : Nat) (cancelledRequest : CancelledRequest) :
    Option (BlockTip × BlockTip) ×
      World (esploraEnv genesisManager (unavailable cancelAt cancelledRequest)) :=
  run _ 0 ((), ⟨⟨0, 0⟩, 0, 0, []⟩) ⟨0, 0⟩

/-- Cancelled while it waits for its first slot, the run ends without a terminal update. -/
theorem cancelled_run_silent_slot :
    (unavailableRun 0 .urlErrorCancelled).1 = none ∧
      ∀ u ∈ updates (unavailableRun 0 .urlErrorCancelled).2.trace, u.state.isTerminal = false := by
  have h := cancelled_run_silent_iff genesisManager (unavailable 0 .urlErrorCancelled) 0 0
    ((), ⟨⟨0, 0⟩, 0, 0, []⟩) ⟨0, 0⟩ (.slotWait 0) rfl (Nat.le_refl 0) rfl
  exact ⟨h.1, h.2.1.2 rfl⟩

/-- **Cancelled inside the request, or asleep after a `503`, the run reports a failure**, whichever
    error the client throws. -/
theorem cancelled_run_fails :
    ((unavailableRun 1 .cancellationError).2.env.2.suspensions[1]? =
        some (.request EsploraAPI.tipHeightURL) ∧
      ∃ u ∈ updates (unavailableRun 1 .cancellationError).2.trace, u.state.isFailed = true) ∧
    ((unavailableRun 1 .urlErrorCancelled).2.env.2.suspensions[1]? =
        some (.request EsploraAPI.tipHeightURL) ∧
      ∃ u ∈ updates (unavailableRun 1 .urlErrorCancelled).2.trace, u.state.isFailed = true) ∧
    (∃ delay, (unavailableRun 2 .cancellationError).2.env.2.suspensions[2]? =
        some (.statusRetry delay)) ∧
      ∃ u ∈ updates (unavailableRun 2 .cancellationError).2.trace, u.state.isFailed = true := by
  exact ⟨by decide, by decide, ⟨_, rfl⟩, by decide⟩

end SwiftBitcoinKernel
