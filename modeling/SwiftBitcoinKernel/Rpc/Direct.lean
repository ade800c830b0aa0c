/-
  File:      SwiftBitcoinKernel/Rpc/Direct.lean
  Subject:   `DirectTransport.send`, from `withCheckedThrowingContinuation` on: the timeout work item,
             the block with the blocking call, and the `OnceFlag` between them.

  Any number of sends are under way. A work item is dequeued when its deadline has passed, which may
  be at any time; `cancel()` reaches it only before. `bitcoin_rpc` returns NULL or the address of a
  buffer, at which no other one is live, but where another one may have been before.

  * `SendCall`, `Sends`, `step` -- one step for each access of a block to the flag, the work item, the
    heap and the continuation;
  * `TimerStage`, `BlockStage`, `Winner` -- what each block has done by its phase, and which of them
    has claimed the flag;
  * `Held` -- the address in a block's hands is that of its own buffer;
  * `Tidy` -- the invariant made of these; `tidy_run` -- it holds in every run;
  * `quiet_reached` -- from there on the two blocks of a call can be run to their end;
  * `sends_settle` -- so a continuation is resumed once, with what is its own, and a buffer is freed
    once, after it was read.
-/
import SwiftBitcoinKernel.Logic.Transition
import SwiftBitcoinKernel.Rpc.Client

namespace SwiftBitcoinKernel

open Logic

/-! ## 1. The machine -/

/-- What a continuation is resumed with: the response, or one of two `URLError`s. -/
inductive Delivery where
  | data (bytes : Data)
  | timedOut
  | cannotConnectToHost
  deriving DecidableEq, Repr

/-- What a block does that others can tell. -/
inductive CallEvent where
  /-- `Data(bytes: ptr, count: strlen(ptr))`. -/
  | copied (data : Data)
  /-- `bitcoin_free`, by the call whose buffer was at the address. -/
  | freed (owner : Nat)
  /-- `continuation.resume`. -/
  | resumed (delivery : Delivery)
  deriving DecidableEq, Repr

/-- The timeout work item. -/
inductive TimerPhase where
  /-- In the queue of `asyncAfter`. -/
  | scheduled
  /-- Cancelled there, and never to be run. -/
  | cancelled
  /-- Dequeued, before `claim()`. -/
  | dequeued
  /-- `claim()` returned true. -/
  | resuming
  | resumed
  /-- `claim()` returned false, and that was all. -/
  | lost
  deriving DecidableEq, Repr

/-- The block with the blocking call. -/
inductive BlockPhase where
  /-- Queued, or inside `bitcoin_rpc`. -/
  | calling
  /-- `bitcoin_rpc` has returned, before `claim()`. -/
  | returned (ptr : Option Nat)
  /-- `claim()` returned false. -/
  | discarding (ptr : Option Nat)
  | discarded
  /-- `claim()` returned true, before `timeoutWork.cancel()`. -/
  | claimed (ptr : Option Nat)
  /-- Before the copy. -/
  | reading (ptr : Option Nat)
  /-- Before `bitcoin_free`. -/
  | freeing (ptr : Nat) (data : Data)
  | resuming (delivery : Delivery)
  | resumed
  deriving DecidableEq, Repr

/-- One send: its flag, its two blocks, what `bitcoin_rpc` returned to it, and what the two did. -/
structure SendCall where
  flag : Bool
  timer : TimerPhase
  block : BlockPhase
  response : Option (Option Data)
  timerLog : List CallEvent
  blockLog : List CallEvent
  deriving DecidableEq, Repr

/-- A buffer on the heap. -/
structure Buffer where
  address : Nat
  owner : Nat
  bytes : Data
  deriving DecidableEq, Repr

/-- All sends, the buffers that are live, and whether one was read or freed that was not. -/
structure Sends where
  calls : List SendCall
  heap : List Buffer
  faulted : Bool
  deriving DecidableEq, Repr

/-- The steps. -/
inductive Sends.Label where
  /-- A send reaches its continuation: both blocks are enqueued. -/
  | send
  /-- The next step of a work item; the first is that it is dequeued. -/
  | timer (i : Nat)
  /-- `bitcoin_rpc` returns: NULL, or an address and what is there. -/
  | bitcoinRpc (i : Nat) (result : Option (Nat × Data))
  /-- The next step of a block after that. -/
  | block (i : Nat)
  deriving DecidableEq, Repr

/-- `DispatchWorkItem.cancel()`. -/
def TimerPhase.cancel : TimerPhase → TimerPhase
  | .scheduled => .cancelled
  | phase => phase

/-- A call, as it starts. -/
def SendCall.initial : SendCall := ⟨false, .scheduled, .calling, none, [], []⟩

namespace Sends

/-- Nothing is sent yet. -/
def initial : Sends := ⟨[], [], false⟩

/-- The buffer at an address. -/
def bufferAt (s : Sends) (address : Nat) : Option Buffer :=
  s.heap.find? fun b => b.address = address

/-- Call `i` moves on. -/
def advance (s : Sends) (i : Nat) (c : SendCall) : Sends := { s with calls := s.calls.set i c }

/-- `bitcoin_free(ptr)`, and the call goes on as `next`. -/
def free (s : Sends) (i : Nat) (c : SendCall) (ptr : Nat) (next : BlockPhase) : Sends :=
  match s.bufferAt ptr with
  | some b =>
    { s.advance i { c with block := next, blockLog := c.blockLog ++ [.freed b.owner] } with
      heap := s.heap.filter fun b => b.address ≠ ptr }
  | none => { s.advance i { c with block := next } with faulted := true }

/-- A step of the work item. -/
def timerStep (s : Sends) (i : Nat) (c : SendCall) : Option Sends :=
  match c.timer with
  | .scheduled => some (s.advance i { c with timer := .dequeued })
  | .dequeued =>
    if c.flag then some (s.advance i { c with timer := .lost })
    else some (s.advance i { c with flag := true, timer := .resuming })
  | .resuming =>
    some (s.advance i
      { c with timer := .resumed, timerLog := c.timerLog ++ [.resumed .timedOut] })
  | .cancelled | .resumed | .lost => none

/-- A step of the block. -/
def blockStep (s : Sends) (i : Nat) (c : SendCall) : Option Sends :=
  match c.block with
  | .returned ptr =>
    if c.flag then some (s.advance i { c with block := .discarding ptr })
    else some (s.advance i { c with flag := true, block := .claimed ptr })
  | .discarding none => some (s.advance i { c with block := .discarded })
  | .discarding (some ptr) => some (s.free i c ptr .discarded)
  | .claimed ptr => some (s.advance i { c with timer := c.timer.cancel, block := .reading ptr })
  | .reading none => some (s.advance i { c with block := .resuming .cannotConnectToHost })
  | .reading (some ptr) =>
    match s.bufferAt ptr with
    | some b =>
      let data := cString b.bytes
      some (s.advance i
        { c with block := .freeing ptr data, blockLog := c.blockLog ++ [.copied data] })
    | none => some { s.advance i { c with block := .freeing ptr [] } with faulted := true }
  | .freeing ptr data => some (s.free i c ptr (.resuming (.data data)))
  | .resuming delivery =>
    some (s.advance i
      { c with block := .resumed, blockLog := c.blockLog ++ [.resumed delivery] })
  | .calling | .discarded | .resumed => none

/-- The return of `bitcoin_rpc`. -/
def rpcStep (s : Sends) (i : Nat) (c : SendCall) : Option (Nat × Data) → Option Sends
  | none => some (s.advance i { c with block := .returned none, response := some none })
  | some (address, bytes) =>
    if s.bufferAt address = none then
      some { s.advance i { c with block := .returned (some address), response := some (some bytes) }
        with heap := ⟨address, i, bytes⟩ :: s.heap }
    else none

/-- What a step does, where it is enabled. -/
def step (s : Sends) : Label → Option Sends
  | .send => some { s with calls := s.calls ++ [SendCall.initial] }
  | .timer i => s.calls[i]?.bind fun c => s.timerStep i c
  | .bitcoinRpc i result =>
    s.calls[i]?.bind fun c => if c.block = .calling then s.rpcStep i c result else none
  | .block i => s.calls[i]?.bind fun c => s.blockStep i c

end Sends

/-- The transport, for any interleaving of its blocks. -/
def sends : Machine Sends Sends.Label := ⟨.initial, Sends.step⟩

/-- Whose step it is. -/
def Sends.Label.call : Sends.Label → Option Nat
  | .send => none
  | .timer i | .bitcoinRpc i _ | .block i => some i

/-- The timeout has fired. -/
def SendCall.fired (c : SendCall) : Bool :=
  c.timer = .dequeued ∨ c.timer = .resuming ∨ c.timer = .resumed ∨ c.timer = .lost

/-- Neither block is under way: the work item is not, and the other one is at its end, or waits for
    `bitcoin_rpc`. -/
def SendCall.quiet (c : SendCall) : Bool :=
  (c.timer ≠ .dequeued ∧ c.timer ≠ .resuming) ∧
    (c.block = .calling ∨ c.block = .discarded ∨ c.block = .resumed)

/-- What a continuation is resumed with by an event. -/
def CallEvent.delivery : CallEvent → Option Delivery
  | .resumed d => some d
  | _ => none

/-- Whose buffer an event frees. -/
def CallEvent.owner : CallEvent → Option Nat
  | .freed owner => some owner
  | _ => none

/-- The resumptions of a continuation. -/
def SendCall.resumptions (c : SendCall) : List Delivery :=
  c.timerLog.filterMap CallEvent.delivery ++ c.blockLog.filterMap CallEvent.delivery

/-- The frees a call has made, by the owners of the buffers. -/
def SendCall.frees (c : SendCall) : List Nat :=
  c.timerLog.filterMap CallEvent.owner ++ c.blockLog.filterMap CallEvent.owner

/-- `bitcoin_rpc` returned a buffer. -/
def SendCall.buffered (c : SendCall) : Bool := c.response.join.isSome

/-- What holds of call `i` at any time. -/
structure SendCall.Safe (i : Nat) (c : SendCall) : Prop where
  once : c.resumptions.length ≤ 1
  own : ∀ d ∈ c.resumptions, d = .timedOut ∨ (d = .cannotConnectToHost ∧ c.response = some none) ∨
    ∃ bytes, c.response = some (some bytes) ∧ d = .data (cString bytes)
  freed : c.frees = [] ∨ c.frees = [i] ∧ c.buffered = true
  order : ∀ data, .data data ∈ c.resumptions →
    c.blockLog = [.copied data, .freed i, .resumed (.data data)]

/-- What holds of it when its blocks have come to their end. -/
structure SendCall.Settled (i : Nat) (c : SendCall) : Prop where
  resumed : c.resumptions.length = 1
  freed : c.frees = if c.buffered then [i] else []

/-! ## 2. What the blocks have done, by their phases -/

/-- The phases of a work item that has claimed the flag. -/
def TimerPhase.claims : TimerPhase → Bool
  | .resuming | .resumed => true
  | _ => false

/-- The phases of a block that has claimed it. -/
def BlockPhase.claims : BlockPhase → Bool
  | .claimed _ | .reading _ | .freeing _ _ | .resuming _ | .resumed => true
  | _ => false

/-- The phases of a block that came second. -/
def BlockPhase.refused : BlockPhase → Bool
  | .discarding _ | .discarded => true
  | _ => false

/-- What `bitcoin_rpc` returned, where the block has done nothing with it yet. -/
def BlockPhase.unread : BlockPhase → Option (Option Nat)
  | .returned ptr | .discarding ptr | .claimed ptr | .reading ptr => some ptr
  | _ => none

/-- The address of a buffer that is still to be freed. -/
def BlockPhase.pointer : BlockPhase → Option Nat
  | .returned ptr | .discarding ptr | .claimed ptr | .reading ptr => ptr
  | .freeing ptr _ => some ptr
  | _ => none

/-- What the work item has done. -/
inductive TimerStage : TimerPhase → List CallEvent → Prop where
  | before {phase : TimerPhase} (h : phase ≠ .resumed) : TimerStage phase []
  | resumed : TimerStage .resumed [.resumed .timedOut]

/-- What the block of call `i` has done with what `bitcoin_rpc` returned. -/
inductive BlockStage (i : Nat) : BlockPhase → Option (Option Data) → List CallEvent → Prop where
  | calling : BlockStage i .calling none []
  | unread {phase : BlockPhase} {ptr : Option Nat} {result : Option Data}
      (hphase : phase.unread = some ptr) (hnull : ptr.isSome = result.isSome) :
      BlockStage i phase (some result) []
  | discardedNull : BlockStage i .discarded (some none) []
  | discarded {bytes : Data} : BlockStage i .discarded (some (some bytes)) [.freed i]
  | freeing {ptr : Nat} {bytes : Data} :
      BlockStage i (.freeing ptr (cString bytes)) (some (some bytes)) [.copied (cString bytes)]
  | resumingNull : BlockStage i (.resuming .cannotConnectToHost) (some none) []
  | resuming {bytes : Data} :
      BlockStage i (.resuming (.data (cString bytes))) (some (some bytes))
        [.copied (cString bytes), .freed i]
  | resumedNull : BlockStage i .resumed (some none) [.resumed .cannotConnectToHost]
  | resumed {bytes : Data} :
      BlockStage i .resumed (some (some bytes))
        [.copied (cString bytes), .freed i, .resumed (.data (cString bytes))]

/-- Who has claimed the flag. -/
structure Winner (c : SendCall) : Prop where
  flag : c.flag = (c.timer.claims || c.block.claims)
  one : c.timer.claims = true → c.block.claims = false
  refused : c.block.refused = true → c.timer.claims = true
  idle : c.timer = .lost ∨ c.timer = .cancelled → c.block.claims = true

/-- What is so of call `i` by itself. -/
structure Fine (i : Nat) (c : SendCall) : Prop where
  timer : TimerStage c.timer c.timerLog
  block : BlockStage i c.block c.response c.blockLog
  winner : Winner c

namespace Sends

variable {s s' : Sends} {a : Label} {i j : Nat} {c c' : SendCall}

/-- The address in the hands of call `i` is that of its own buffer. -/
def Held (s : Sends) (i : Nat) (c : SendCall) : Prop :=
  ∀ ptr, c.block.pointer = some ptr →
    ∃ bytes, c.response = some (some bytes) ∧ s.bufferAt ptr = some ⟨ptr, i, bytes⟩

/-- The invariant. -/
structure Tidy (s : Sends) : Prop where
  fine : ∀ i c, s.calls[i]? = some c → Fine i c
  held : ∀ i c, s.calls[i]? = some c → s.Held i c
  sound : s.faulted = false

/-! ## 3. One step -/

theorem tidy_initial : initial.Tidy := ⟨fun _ _ h => (by cases h), fun _ _ h => (by cases h), rfl⟩

/-- Where call `i` has moved on, the others are as they were. -/
theorem tidy_set (h : s.Tidy) (hset : s'.calls = s.calls.set i c') (hsound : s'.faulted = false)
    (hfine : Fine i c') (hheld : s'.Held i c')
    (hothers : ∀ j c, j ≠ i → s.Held j c → s'.Held j c) : s'.Tidy := by
  refine ⟨fun j c hj => ?_, fun j c hj => ?_, hsound⟩
  · rw [hset] at hj
    rcases getElem?_of_set hj with ⟨rfl, rfl⟩ | ⟨_, hold⟩
    · exact hfine
    · exact h.fine j c hold
  · rw [hset] at hj
    rcases getElem?_of_set hj with ⟨rfl, rfl⟩ | ⟨hne, hold⟩
    · exact hheld
    · exact hothers j c hne (h.held j c hold)

/-- So they are where the heap is as it was. -/
theorem tidy_advance (h : s.Tidy) (hfine : Fine i c') (hheld : s.Held i c') :
    (s.advance i c').Tidy :=
  tidy_set h rfl h.sound hfine hheld fun _ _ _ hj => hj

/-- A work item that has not resumed has done nothing. -/
theorem timerLog_nil (h : Fine i c) (hphase : c.timer ≠ .resumed) : c.timerLog = [] := by
  obtain ⟨flag, timer, block, response, timerLog, blockLog⟩ := c
  cases h.timer with
  | before => rfl
  | resumed => exact absurd rfl hphase

theorem tidy_timer (h : s.Tidy) (hc : s.calls[i]? = some c) (hstep : s.timerStep i c = some s') :
    s'.Tidy := by
  have hfine := h.fine i c hc
  have hheld := h.held i c hc
  obtain ⟨hflag, hone, hrefused, hidle⟩ := hfine.winner
  have hnil : c.timer ≠ .resumed → TimerStage .resumed (c.timerLog ++ [.resumed .timedOut]) := by
    intro hphase
    rw [timerLog_nil hfine hphase]
    exact .resumed
  have hbefore : c.timer ≠ .resumed → ∀ phase, phase ≠ .resumed → TimerStage phase c.timerLog := by
    intro hphase phase hne
    rw [timerLog_nil hfine hphase]
    exact .before hne
  unfold timerStep at hstep
  split at hstep
  · -- the deadline has passed
    rename_i htimer
    cases hstep
    rw [htimer] at hflag hone hrefused hbefore
    refine tidy_advance h ⟨hbefore nofun _ nofun, hfine.block, ⟨hflag, hone, hrefused, ?_⟩⟩ hheld
    rintro (h | h) <;> cases h
  · rename_i htimer
    rw [htimer] at hflag hone hrefused hbefore
    split at hstep
    · -- the block was first
      rename_i hclaimed
      cases hstep
      refine tidy_advance h ⟨hbefore nofun _ nofun, hfine.block, ⟨hflag, hone, hrefused, ?_⟩⟩ hheld
      intro _
      rw [hclaimed] at hflag
      exact hflag.symm
    · rename_i hfree
      cases hstep
      have hblock : c.block.claims = false := by
        cases hb : c.block.claims with
        | false => rfl
        | true =>
          rw [hb] at hflag
          exact absurd hflag hfree
      refine tidy_advance h
        ⟨hbefore nofun _ nofun, hfine.block, ⟨rfl, fun _ => hblock, fun _ => rfl, ?_⟩⟩ hheld
      rintro (h | h) <;> cases h
  · rename_i htimer
    cases hstep
    rw [htimer] at hflag hone hrefused hnil
    refine tidy_advance h ⟨hnil nofun, hfine.block, ⟨hflag, hone, hrefused, ?_⟩⟩ hheld
    rintro (h | h) <;> cases h
  all_goals cases hstep

/-- Where a block has read nothing, it has done nothing, and has what `bitcoin_rpc` returned. -/
theorem unread_stage {phase : BlockPhase} {ptr : Option Nat} {response : Option (Option Data)}
    {log : List CallEvent} (h : BlockStage i phase response log)
    (hphase : phase.unread = some ptr) :
    ∃ result, response = some result ∧ log = [] ∧ ptr.isSome = result.isSome := by
  cases h with
  | unread hphase' hnull =>
    rw [hphase] at hphase'
    cases hphase'
    exact ⟨_, rfl, rfl, hnull⟩
  | _ => cases hphase

/-- So in a call whose block is there. -/
theorem unread_of_fine {phase : BlockPhase} {ptr : Option Nat} (h : Fine i c)
    (hblock : c.block = phase) (hphase : phase.unread = some ptr) :
    ∃ result, c.response = some result ∧ c.blockLog = [] ∧ ptr.isSome = result.isSome := by
  subst hblock
  exact unread_stage h.block hphase

/-- A call whose block goes on without the flag. -/
theorem winner_keep (h : Winner c) (hflag : c'.flag = c.flag) (htimer : c'.timer = c.timer)
    (hclaims : c'.block.claims = c.block.claims)
    (hrefused : c'.block.refused = true → c.block.refused = true) : Winner c' := by
  refine ⟨?_, ?_, ?_, ?_⟩
  · rw [hflag, htimer, hclaims, h.flag]
  · rw [htimer, hclaims]
    exact h.one
  · rw [htimer]
    exact fun hr => h.refused (hrefused hr)
  · rw [htimer, hclaims]
    exact h.idle

/-- A new buffer is at an address that no call has in its hands. -/
theorem held_alloc {address : Nat} {bytes : Data} {calls : List SendCall} {faulted : Bool}
    (hnew : s.bufferAt address = none) (h : s.Held j c) :
    Held ⟨calls, ⟨address, i, bytes⟩ :: s.heap, faulted⟩ j c := by
  intro ptr hptr
  obtain ⟨own, hown, hat⟩ := h ptr hptr
  refine ⟨own, hown, ?_⟩
  have hne : address ≠ ptr := by
    rintro rfl
    rw [hnew] at hat
    cases hat
  unfold bufferAt
  rw [List.find?_cons_of_neg (by simpa using hne)]
  exact hat

/-- What one call frees no other has in its hands. -/
theorem held_free {ptr : Nat} {bytes : Data} {calls : List SendCall} {faulted : Bool}
    (hat : s.bufferAt ptr = some ⟨ptr, i, bytes⟩) (hne : j ≠ i) (h : s.Held j c) :
    Held ⟨calls, s.heap.filter fun b => b.address ≠ ptr, faulted⟩ j c := by
  intro ptr' hptr'
  obtain ⟨own, hown, hat'⟩ := h ptr' hptr'
  refine ⟨own, hown, ?_⟩
  have hptr : ptr' ≠ ptr := by
    rintro rfl
    rw [hat] at hat'
    cases hat'
    exact hne rfl
  have hsame : (fun b : Buffer => decide (decide (b.address ≠ ptr) = true ∧
      decide (b.address = ptr') = true)) = fun b => decide (b.address = ptr') := by
    funext b
    by_cases hb : b.address = ptr'
    · rw [hb]
      simp [hptr]
    · simp [hb]
  unfold bufferAt
  rw [List.find?_filter, hsame]
  exact hat'

theorem tidy_rpc {result : Option (Nat × Data)} (h : s.Tidy) (hc : s.calls[i]? = some c)
    (hcalling : c.block = .calling) (hstep : s.rpcStep i c result = some s') : s'.Tidy := by
  have hfine := h.fine i c hc
  have hlog : c.blockLog = [] := by
    have hstage := hfine.block
    rw [hcalling] at hstage
    generalize c.blockLog = log at hstage ⊢
    generalize c.response = response at hstage
    cases hstage with
    | calling => rfl
    | unread hphase => cases hphase
  have hwinner : ∀ ptr response, Winner { c with block := .returned ptr, response := response } := by
    intro ptr response
    refine winner_keep hfine.winner rfl rfl ?_ nofun
    rw [hcalling]
    rfl
  cases result with
  | none =>
    cases hstep
    refine tidy_advance h ⟨hfine.timer, ?_, hwinner none _⟩ fun ptr hptr => (by cases hptr)
    rw [hlog]
    exact .unread rfl rfl
  | some result =>
    obtain ⟨address, bytes⟩ := result
    unfold rpcStep at hstep
    dsimp only at hstep
    split at hstep
    · rename_i hnew
      cases hstep
      refine tidy_set h rfl h.sound ⟨hfine.timer, ?_, hwinner _ _⟩ ?_ fun j d _ hj =>
        held_alloc hnew hj
      · rw [hlog]
        exact .unread rfl rfl
      · intro ptr hptr
        cases hptr
        refine ⟨bytes, rfl, ?_⟩
        unfold bufferAt
        exact List.find?_cons_of_pos (by simp)
    · cases hstep

/-- `bitcoin_free` on the address in a block's hands. -/
theorem tidy_free {ptr : Nat} {phase next : BlockPhase} (h : s.Tidy) (hc : s.calls[i]? = some c)
    (hblock : c.block = phase) (hptr : phase.pointer = some ptr) (hnext : next.pointer = none)
    (hstage : BlockStage i next c.response (c.blockLog ++ [.freed i]))
    (hwinner : Winner { c with block := next, blockLog := c.blockLog ++ [.freed i] }) :
    (s.free i c ptr next).Tidy := by
  subst hblock
  obtain ⟨bytes, _, hat⟩ := h.held i c hc ptr hptr
  unfold free
  rw [hat]
  refine tidy_set h rfl h.sound ⟨(h.fine i c hc).timer, hstage, hwinner⟩ ?_ fun j d hne hj =>
    held_free hat hne hj
  intro ptr' hptr'
  rw [hnext] at hptr'
  cases hptr'

theorem stage_cancel {phase : TimerPhase} {log : List CallEvent} (h : TimerStage phase log) :
    TimerStage phase.cancel log := by
  cases h with
  | before hne =>
    refine .before ?_
    cases phase with
    | resumed => exact absurd rfl hne
    | _ => nofun
  | resumed => exact .resumed

theorem claims_cancel (phase : TimerPhase) : phase.cancel.claims = phase.claims := by
  cases phase <;> rfl

/-- `claim()` returns true to the block. -/
theorem winner_claim (h : Winner c) (hfree : ¬c.flag = true) (ptr : Option Nat) :
    Winner { c with flag := true, block := .claimed ptr } := by
  have hnone : (c.timer.claims || c.block.claims) = false := by
    rw [← h.flag]
    exact Bool.eq_false_iff.2 hfree
  rw [Bool.or_eq_false_iff] at hnone
  refine ⟨?_, ?_, nofun, fun _ => rfl⟩
  · show true = (c.timer.claims || true)
    rw [Bool.or_true]
  · intro htimer
    rw [hnone.1] at htimer
    cases htimer

theorem tidy_claim {ptr : Option Nat} (h : s.Tidy) (hc : s.calls[i]? = some c)
    (hblock : c.block = .returned ptr) (hstep : s.blockStep i c = some s') : s'.Tidy := by
  have hfine := h.fine i c hc
  have hheld := h.held i c hc
  obtain ⟨result, hresponse, hlog, hnull⟩ := unread_of_fine hfine hblock rfl
  have hstage : ∀ phase : BlockPhase, phase.unread = some ptr →
      BlockStage i phase c.response c.blockLog := by
    intro phase hphase
    rw [hresponse, hlog]
    exact .unread hphase hnull
  have hptr : ∀ phase : BlockPhase, phase.pointer = ptr → ∀ c' : SendCall, c'.block = phase →
      c'.response = c.response → s.Held i c' := by
    rintro phase rfl c' rfl hsame p hp
    rw [hsame]
    refine hheld p ?_
    rw [hblock]
    exact hp
  unfold blockStep at hstep
  rw [hblock] at hstep
  dsimp only at hstep
  split at hstep
  · rename_i hflag
    cases hstep
    refine tidy_advance h ⟨hfine.timer, hstage _ rfl, ⟨?_, ?_, ?_, ?_⟩⟩ (hptr _ rfl _ rfl rfl)
    · rw [hfine.winner.flag, hblock]
      rfl
    · intro _
      rfl
    · intro _
      have hclaims := hfine.winner.flag
      rw [hflag, hblock] at hclaims
      simpa [BlockPhase.claims] using hclaims.symm
    · intro hidle
      have hclaims := hfine.winner.idle hidle
      rw [hblock] at hclaims
      cases hclaims
  · rename_i hflag
    cases hstep
    exact tidy_advance h ⟨hfine.timer, hstage _ rfl, winner_claim hfine.winner hflag ptr⟩
      (hptr _ rfl _ rfl rfl)

/-- A block that came second frees what it was given. -/
theorem tidy_discard {ptr : Option Nat} (h : s.Tidy) (hc : s.calls[i]? = some c)
    (hblock : c.block = .discarding ptr) (hstep : s.blockStep i c = some s') : s'.Tidy := by
  have hfine := h.fine i c hc
  obtain ⟨result, hresponse, hlog, hnull⟩ := unread_of_fine hfine hblock rfl
  have hwinner : ∀ log, Winner { c with block := .discarded, blockLog := log } := by
    intro log
    refine winner_keep hfine.winner rfl rfl ?_ fun _ => ?_
    · rw [hblock]
      rfl
    · rw [hblock]
      rfl
  unfold blockStep at hstep
  rw [hblock] at hstep
  cases ptr with
  | none =>
    cases result with
    | some bytes => cases hnull
    | none =>
      cases hstep
      refine tidy_advance h ⟨hfine.timer, ?_, hwinner _⟩ fun ptr hptr => (by cases hptr)
      rw [hresponse, hlog]
      exact .discardedNull
  | some ptr =>
    cases result with
    | none => cases hnull
    | some bytes =>
      cases hstep
      refine tidy_free h hc hblock rfl rfl ?_ (hwinner _)
      rw [hresponse, hlog]
      exact .discarded

/-- `timeoutWork.cancel()`: nothing is changed by it that the invariant speaks of. -/
theorem tidy_cancel {ptr : Option Nat} (h : s.Tidy) (hc : s.calls[i]? = some c)
    (hblock : c.block = .claimed ptr) (hstep : s.blockStep i c = some s') : s'.Tidy := by
  have hfine := h.fine i c hc
  have hwinner := hfine.winner
  obtain ⟨result, hresponse, hlog, hnull⟩ := unread_of_fine hfine hblock rfl
  unfold blockStep at hstep
  rw [hblock] at hstep
  cases hstep
  refine tidy_advance h ⟨stage_cancel hfine.timer, ?_, ⟨?_, ?_, nofun, fun _ => rfl⟩⟩ ?_
  · rw [hresponse, hlog]
    exact .unread rfl hnull
  · show c.flag = (c.timer.cancel.claims || true)
    rw [hwinner.flag, hblock, claims_cancel]
    rfl
  · intro hclaims
    rw [claims_cancel] at hclaims
    have hnot := hwinner.one hclaims
    rw [hblock] at hnot
    cases hnot
  · intro p hp
    refine h.held i c hc p ?_
    rw [hblock]
    exact hp

/-- A block that came first goes on. -/
theorem winner_deliver {phase next : BlockPhase} (h : Fine i c) (hblock : c.block = phase)
    (hclaims : phase.claims = true) (hnext : next.claims = true ∧ next.refused = false)
    (log : List CallEvent) : Winner { c with block := next, blockLog := log } := by
  subst hblock
  refine winner_keep h.winner rfl rfl ?_ fun hr => ?_
  · rw [hclaims]
    exact hnext.1
  · rw [hnext.2] at hr
    cases hr

theorem tidy_read {ptr : Option Nat} (h : s.Tidy) (hc : s.calls[i]? = some c)
    (hblock : c.block = .reading ptr) (hstep : s.blockStep i c = some s') : s'.Tidy := by
  have hfine := h.fine i c hc
  obtain ⟨result, hresponse, hlog, hnull⟩ := unread_of_fine hfine hblock rfl
  unfold blockStep at hstep
  rw [hblock] at hstep
  cases ptr with
  | none =>
    cases result with
    | some bytes => cases hnull
    | none =>
      cases hstep
      refine tidy_advance h ⟨hfine.timer, ?_, winner_deliver hfine hblock rfl ⟨rfl, rfl⟩ _⟩
        fun ptr hptr => (by cases hptr)
      rw [hresponse, hlog]
      exact .resumingNull
  | some ptr =>
    have hptr : c.block.pointer = some ptr := by
      rw [hblock]
      rfl
    obtain ⟨bytes, hown, hat⟩ := h.held i c hc ptr hptr
    dsimp only at hstep
    rw [hat] at hstep
    cases hstep
    refine tidy_advance h ⟨hfine.timer, ?_, winner_deliver hfine hblock rfl ⟨rfl, rfl⟩ _⟩ ?_
    · rw [hown, hlog]
      exact .freeing
    · intro p hp
      cases hp
      exact ⟨bytes, hown, hat⟩

theorem freeing_stage {ptr : Nat} {data : Data} {response : Option (Option Data)}
    {log : List CallEvent} (h : BlockStage i (.freeing ptr data) response log) :
    ∃ bytes, response = some (some bytes) ∧ data = cString bytes ∧
      log = [.copied (cString bytes)] := by
  cases h with
  | unread hphase => cases hphase
  | freeing => exact ⟨_, rfl, rfl, rfl⟩

theorem tidy_freeing {ptr : Nat} {data : Data} (h : s.Tidy) (hc : s.calls[i]? = some c)
    (hblock : c.block = .freeing ptr data) (hstep : s.blockStep i c = some s') : s'.Tidy := by
  have hfine := h.fine i c hc
  have hstage := hfine.block
  rw [hblock] at hstage
  obtain ⟨bytes, hresponse, rfl, hlog⟩ := freeing_stage hstage
  unfold blockStep at hstep
  rw [hblock] at hstep
  cases hstep
  refine tidy_free h hc hblock rfl rfl ?_ (winner_deliver hfine hblock rfl ⟨rfl, rfl⟩ _)
  rw [hresponse, hlog]
  exact .resuming

theorem resuming_stage {d : Delivery} {response : Option (Option Data)} {log : List CallEvent}
    (h : BlockStage i (.resuming d) response log) :
    BlockStage i .resumed response (log ++ [.resumed d]) := by
  cases h with
  | unread hphase => cases hphase
  | resumingNull => exact .resumedNull
  | resuming => exact .resumed

theorem tidy_block (h : s.Tidy) (hc : s.calls[i]? = some c) (hstep : s.blockStep i c = some s') :
    s'.Tidy := by
  cases hblock : c.block with
  | returned ptr => exact tidy_claim h hc hblock hstep
  | discarding ptr => exact tidy_discard h hc hblock hstep
  | claimed ptr => exact tidy_cancel h hc hblock hstep
  | reading ptr => exact tidy_read h hc hblock hstep
  | freeing ptr data => exact tidy_freeing h hc hblock hstep
  | resuming d =>
    have hfine := h.fine i c hc
    unfold blockStep at hstep
    rw [hblock] at hstep
    cases hstep
    exact tidy_advance h
      ⟨hfine.timer, resuming_stage (hblock ▸ hfine.block),
        winner_deliver hfine hblock rfl ⟨rfl, rfl⟩ _⟩ fun ptr hptr => (by cases hptr)
  | calling | discarded | resumed =>
    unfold blockStep at hstep
    rw [hblock] at hstep
    cases hstep

/-- A new send. -/
theorem tidy_send (h : s.Tidy) : Tidy { s with calls := s.calls ++ [SendCall.initial] } := by
  refine ⟨fun j c hj => ?_, fun j c hj => ?_, h.sound⟩
  · rcases getElem?_of_snoc hj with hold | ⟨-, rfl⟩
    · exact h.fine j c hold
    · exact ⟨.before nofun, .calling, ⟨rfl, nofun, nofun, fun h => (by rcases h with h | h <;> cases h)⟩⟩
  · rcases getElem?_of_snoc hj with hold | ⟨-, rfl⟩
    · exact h.held j c hold
    · exact fun ptr hptr => (by cases hptr)

/-- **A step keeps the invariant.** -/
theorem tidy_step (h : s.Tidy) (hstep : s.step a = some s') : s'.Tidy := by
  cases a with
  | send =>
    cases hstep
    exact tidy_send h
  | timer i =>
    obtain ⟨c, hc, hstep⟩ := Option.bind_eq_some_iff.1 hstep
    exact tidy_timer h hc hstep
  | bitcoinRpc i result =>
    obtain ⟨c, hc, hstep⟩ := Option.bind_eq_some_iff.1 hstep
    split at hstep
    · rename_i hcalling
      exact tidy_rpc h hc hcalling hstep
    · cases hstep
  | block i =>
    obtain ⟨c, hc, hstep⟩ := Option.bind_eq_some_iff.1 hstep
    exact tidy_block h hc hstep

/-! ## 4. The end of a call -/

/-- How many steps a work item has still to take. -/
def ahead : TimerPhase → Nat
  | .scheduled => 3
  | .dequeued => 2
  | .resuming => 1
  | .cancelled | .resumed | .lost => 0

/-- How many steps a block has still to take, its call included. -/
def behind : BlockPhase → Nat
  | .calling => 6
  | .returned _ => 5
  | .claimed _ => 4
  | .reading _ => 3
  | .freeing _ _ => 2
  | .resuming _ | .discarding _ => 1
  | .discarded | .resumed => 0

/-- How many steps a call has still to take. -/
def remaining (c : SendCall) : Nat := ahead c.timer + behind c.block

/-- Call `i` has moved on, with less to do. -/
structure Moved (s : Sends) (i : Nat) (c : SendCall) (s' : Sends) (c' : SendCall) : Prop where
  calls : s'.calls = s.calls.set i c'
  less : remaining c' < remaining c
  fired : c.fired = true → c'.fired = true

theorem moved_timer (hstep : s.timerStep i c = some s') :
    ∃ c', Moved s i c s' c' ∧ c'.response = c.response := by
  unfold timerStep at hstep
  split at hstep
  · rename_i htimer
    cases hstep
    exact ⟨_, ⟨rfl, by simp [remaining, ahead, htimer], by simp [SendCall.fired]⟩, rfl⟩
  · rename_i htimer
    split at hstep
    all_goals
      cases hstep
      exact ⟨_, ⟨rfl, by simp [remaining, ahead, htimer], by simp [SendCall.fired]⟩, rfl⟩
  · rename_i htimer
    cases hstep
    exact ⟨_, ⟨rfl, by simp [remaining, ahead, htimer], by simp [SendCall.fired]⟩, rfl⟩
  all_goals cases hstep

/-- A step of the block, the work item apart. -/
theorem moved_of (hcalls : s'.calls = s.calls.set i c') (htimer : c'.timer = c.timer)
    (hless : behind c'.block < behind c.block) : Moved s i c s' c' := by
  refine ⟨hcalls, ?_, ?_⟩
  · unfold remaining
    rw [htimer]
    omega
  · unfold SendCall.fired
    rw [htimer]
    exact id

theorem moved_free {ptr : Nat} {next : BlockPhase} (hless : behind next < behind c.block) :
    ∃ c', Moved s i c (s.free i c ptr next) c' ∧ c'.response = c.response := by
  unfold free
  split
  · exact ⟨_, moved_of rfl rfl hless, rfl⟩
  · exact ⟨_, moved_of rfl rfl hless, rfl⟩

theorem moved_cancel (ptr : Option Nat) (hblock : c.block = .claimed ptr) :
    Moved s i c (s.advance i { c with timer := c.timer.cancel, block := .reading ptr })
      { c with timer := c.timer.cancel, block := .reading ptr } := by
  refine ⟨rfl, ?_, ?_⟩
  · have hahead : ahead c.timer.cancel ≤ ahead c.timer := by
      cases c.timer <;> simp [TimerPhase.cancel, ahead]
    show ahead c.timer.cancel + behind (.reading ptr) < ahead c.timer + behind c.block
    rw [hblock]
    simp only [behind]
    omega
  · unfold SendCall.fired
    cases c.timer <;> simp [TimerPhase.cancel]

theorem moved_block (hstep : s.blockStep i c = some s') :
    ∃ c', Moved s i c s' c' ∧ c'.response = c.response := by
  unfold blockStep at hstep
  split at hstep
  · rename_i ptr hblock
    split at hstep
    · cases hstep
      exact ⟨_, moved_of rfl rfl (by simp [hblock, behind]), rfl⟩
    · cases hstep
      exact ⟨_, moved_of rfl rfl (by simp [hblock, behind]), rfl⟩
  · rename_i hblock
    cases hstep
    exact ⟨_, moved_of rfl rfl (by simp [hblock, behind]), rfl⟩
  · rename_i ptr hblock
    cases hstep
    exact moved_free (by simp [hblock, behind])
  · rename_i ptr hblock
    cases hstep
    exact ⟨_, moved_cancel ptr hblock, rfl⟩
  · rename_i hblock
    cases hstep
    exact ⟨_, moved_of rfl rfl (by simp [hblock, behind]), rfl⟩
  · rename_i ptr hblock
    dsimp only at hstep
    split at hstep
    · cases hstep
      exact ⟨_, moved_of rfl rfl (by simp [hblock, behind]), rfl⟩
    · cases hstep
      exact ⟨_, moved_of rfl rfl (by simp [hblock, behind]), rfl⟩
  · rename_i ptr data hblock
    cases hstep
    exact moved_free (by simp [hblock, behind])
  · rename_i d hblock
    cases hstep
    exact ⟨_, moved_of rfl rfl (by simp [hblock, behind]), rfl⟩
  all_goals cases hstep

/-- A call whose blocks are under way has a step to take. -/
theorem own_enabled (s : Sends) (i : Nat) (hquiet : c.quiet = false) :
    (c.timer ≠ .scheduled ∧ ∃ s', s.timerStep i c = some s') ∨
      ∃ s', s.blockStep i c = some s' := by
  by_cases htimer : c.timer = .dequeued ∨ c.timer = .resuming
  · left
    rcases htimer with htimer | htimer
    · refine ⟨by rw [htimer]; nofun, ?_⟩
      unfold timerStep
      rw [htimer]
      dsimp only
      split
      · exact ⟨_, rfl⟩
      · exact ⟨_, rfl⟩
    · refine ⟨by rw [htimer]; nofun, ?_⟩
      unfold timerStep
      rw [htimer]
      exact ⟨_, rfl⟩
  · right
    have hblock : ¬(c.block = .calling ∨ c.block = .discarded ∨ c.block = .resumed) := by
      intro hend
      rw [not_or] at htimer
      have : c.quiet = true := by
        unfold SendCall.quiet
        exact decide_eq_true ⟨htimer, hend⟩
      rw [this] at hquiet
      cases hquiet
    unfold blockStep
    split
    · split
      · exact ⟨_, rfl⟩
      · exact ⟨_, rfl⟩
    all_goals first
      | exact ⟨_, rfl⟩
      | skip
    · dsimp only
      split
      · exact ⟨_, rfl⟩
      · exact ⟨_, rfl⟩
    · rename_i hphase
      exact absurd (.inl hphase) hblock
    · rename_i hphase
      exact absurd (.inr (.inl hphase)) hblock
    · rename_i hphase
      exact absurd (.inr (.inr hphase)) hblock

/-- A step of a block of call `i` that is under way: `bitcoin_rpc` and the deadline are not waited
    for. -/
def Own (i : Nat) (s : Sends) (a : Label) : Prop :=
  a = .block i ∨ (a = .timer i ∧ ∀ c, s.calls[i]? = some c → c.timer ≠ .scheduled)

theorem moved_own (hc : s.calls[i]? = some c) (hquiet : c.quiet = false) :
    ∃ a s' c', Own i s a ∧ s.step a = some s' ∧ Moved s i c s' c' ∧ c'.response = c.response := by
  rcases own_enabled s i hquiet with ⟨hscheduled, s', hstep⟩ | ⟨s', hstep⟩
  · obtain ⟨c', hmoved, hresponse⟩ := moved_timer hstep
    refine ⟨.timer i, s', c', .inr ⟨rfl, ?_⟩, ?_, hmoved, hresponse⟩
    · intro d hd
      rw [hc] at hd
      cases hd
      exact hscheduled
    · exact Option.bind_eq_some_iff.2 ⟨c, hc, hstep⟩
  · obtain ⟨c', hmoved, hresponse⟩ := moved_block hstep
    exact ⟨.block i, s', c', .inl rfl, Option.bind_eq_some_iff.2 ⟨c, hc, hstep⟩, hmoved, hresponse⟩

theorem Moved.at_call (h : Moved s i c s' c') (hc : s.calls[i]? = some c) :
    s'.calls[i]? = some c' := by
  rw [h.calls]
  exact List.getElem?_set_self (List.getElem?_eq_some_iff.1 hc).1

/-- **The blocks of a call come to their end**, whatever the others do. -/
theorem quiet_reached (hc : s.calls[i]? = some c) :
    ∃ more s' c', sends.Path (Own i) s more s' ∧ s'.calls[i]? = some c' ∧ c'.quiet = true ∧
      c'.response = c.response ∧ (c.fired = true → c'.fired = true) := by
  -- on the number of steps that are left
  induction hn : remaining c using Nat.strongRecOn generalizing s c with
  | _ n ih =>
    cases hquiet : c.quiet with
    | true => exact ⟨[], s, c, .refl, hc, hquiet, rfl, id⟩
    | false =>
      obtain ⟨a, s₁, c₁, hown, hstep, hmoved, hresponse⟩ := moved_own hc hquiet
      obtain ⟨more, s', c', hpath, hc', hend, hsame, hfired⟩ :=
        ih (remaining c₁) (hn ▸ hmoved.less) (hmoved.at_call hc) rfl
      exact ⟨a :: more, s', c', hpath.head hown hstep, hc', hend, hsame.trans hresponse,
        fun h => hfired (hmoved.fired h)⟩

theorem moved_rpc {result : Option (Nat × Data)} (hcalling : c.block = .calling)
    (hstep : s.rpcStep i c result = some s') : ∃ c', Moved s i c s' c' := by
  unfold rpcStep at hstep
  split at hstep
  · cases hstep
    exact ⟨_, moved_of rfl rfl (by simp [hcalling, behind])⟩
  · split at hstep
    · cases hstep
      exact ⟨_, moved_of rfl rfl (by simp [hcalling, behind])⟩
    · cases hstep

/-- What a step does to the calls: there is a new one, or one has moved on. -/
theorem calls_of_step (hstep : s.step a = some s') :
    (a.call = none ∧ s'.calls = s.calls ++ [SendCall.initial]) ∨
      ∃ i c c', a.call = some i ∧ s.calls[i]? = some c ∧ Moved s i c s' c' := by
  cases a with
  | send =>
    cases hstep
    exact .inl ⟨rfl, rfl⟩
  | timer i =>
    obtain ⟨c, hc, hstep⟩ := Option.bind_eq_some_iff.1 hstep
    obtain ⟨c', hmoved, _⟩ := moved_timer hstep
    exact .inr ⟨i, c, c', rfl, hc, hmoved⟩
  | bitcoinRpc i result =>
    obtain ⟨c, hc, hstep⟩ := Option.bind_eq_some_iff.1 hstep
    split at hstep
    · rename_i hcalling
      obtain ⟨c', hmoved⟩ := moved_rpc hcalling hstep
      exact .inr ⟨i, c, c', rfl, hc, hmoved⟩
    · cases hstep
  | block i =>
    obtain ⟨c, hc, hstep⟩ := Option.bind_eq_some_iff.1 hstep
    obtain ⟨c', hmoved, _⟩ := moved_block hstep
    exact .inr ⟨i, c, c', rfl, hc, hmoved⟩

/-- The steps of call `i` in a run. -/
def stepsOf (i : Nat) (ls : List Label) : Nat := ls.countP fun a => a.call = some i

theorem stepsOf_snoc (i : Nat) (ls : List Label) (a : Label) :
    stepsOf i (ls ++ [a]) = stepsOf i ls + if a.call = some i then 1 else 0 := by
  simp [stepsOf, List.countP_append, List.countP_cons]

/-- A call takes nine steps at most, so that its end is put off only where it is not run at all. -/
theorem steps_bounded {ls : List Label} (h : sends.Run Machine.always ls s) (i : Nat) :
    (s.calls[i]? = none → stepsOf i ls = 0) ∧
      ∀ c, s.calls[i]? = some c → stepsOf i ls + remaining c ≤ 9 := by
  induction h with
  | refl => exact ⟨fun _ => rfl, fun c hc => (by cases hc)⟩
  | @step ls s s' a _ _ hstep ih =>
    rw [stepsOf_snoc]
    rcases calls_of_step hstep with ⟨hcall, hcalls⟩ | ⟨j, c, c', hcall, hc, hmoved⟩
    · rw [hcall, if_neg nofun, hcalls]
      refine ⟨fun hnone => ih.1 ?_, fun d hd => ?_⟩
      · rw [List.getElem?_eq_none_iff] at hnone ⊢
        rw [List.length_append] at hnone
        omega
      · rcases getElem?_of_snoc hd with hold | ⟨hlast, rfl⟩
        · exact ih.2 d hold
        · rw [ih.1 (List.getElem?_eq_none_iff.2 hlast.ge)]
          decide
    · rw [hcall, hmoved.calls]
      by_cases hij : j = i
      · subst hij
        have hbefore := ih.2 c hc
        have hless := hmoved.less
        rw [if_pos rfl]
        refine ⟨fun hnone => ?_, fun d hd => ?_⟩
        · rw [List.getElem?_eq_none_iff, List.length_set] at hnone
          have hlt := (List.getElem?_eq_some_iff.1 hc).1
          omega
        · rw [← hmoved.calls, hmoved.at_call hc] at hd
          cases hd
          omega
      · rw [List.getElem?_set_ne hij, if_neg (fun e => hij (Option.some.inj e))]
        exact ih

/-! ## 5. What the invariant says of a call -/

/-- A block that has not come to its end has not resumed, and one that has resumed came first. -/
theorem block_delivery {phase : BlockPhase} {response : Option (Option Data)}
    {log : List CallEvent} (h : BlockStage i phase response log) :
    log.filterMap CallEvent.delivery = [] ∨ phase.claims = true ∧
      ((response = some none ∧ log = [.resumed .cannotConnectToHost]) ∨
        ∃ bytes, response = some (some bytes) ∧
          log = [.copied (cString bytes), .freed i, .resumed (.data (cString bytes))]) := by
  cases h with
  | resumedNull => exact .inr ⟨rfl, .inl ⟨rfl, rfl⟩⟩
  | resumed => exact .inr ⟨rfl, .inr ⟨_, rfl, rfl⟩⟩
  | _ => exact .inl rfl

theorem block_frees {phase : BlockPhase} {response : Option (Option Data)}
    {log : List CallEvent} (h : BlockStage i phase response log) :
    log.filterMap CallEvent.owner = [] ∨
      log.filterMap CallEvent.owner = [i] ∧ response.join.isSome = true := by
  cases h with
  | discarded | resuming | resumed => exact .inr ⟨rfl, rfl⟩
  | _ => exact .inl rfl

theorem timer_log {phase : TimerPhase} {log : List CallEvent} (h : TimerStage phase log) :
    log = [] ∨ phase = .resumed ∧ log = [.resumed .timedOut] := by
  cases h with
  | before => exact .inl rfl
  | resumed => exact .inr ⟨rfl, rfl⟩

theorem timer_frees (h : Fine i c) : c.timerLog.filterMap CallEvent.owner = [] := by
  rcases timer_log h.timer with hlog | ⟨_, hlog⟩
  · rw [hlog]
    rfl
  · rw [hlog]
    rfl

/-- The timer came first, so the block has not resumed. -/
theorem resumptions_timer (h : Fine i c) (hphase : c.timer = .resumed) :
    c.resumptions = [.timedOut] := by
  have htimer : c.timerLog = [.resumed .timedOut] := by
    have hstage := h.timer
    rw [hphase] at hstage
    generalize c.timerLog = log at hstage ⊢
    cases hstage with
    | before hne => exact absurd rfl hne
    | resumed => rfl
  unfold SendCall.resumptions
  rcases block_delivery h.block with hblock | ⟨hclaims, _⟩
  · rw [htimer, hblock]
    rfl
  · have hnot := h.winner.one (by rw [hphase]; rfl)
    rw [hclaims] at hnot
    cases hnot

/-- A continuation is resumed by one of the blocks, or by none. -/
theorem resumptions_cases (h : Fine i c) :
    c.resumptions = [] ∨ c.resumptions = [.timedOut] ∨
      (c.resumptions = [.cannotConnectToHost] ∧ c.response = some none) ∨
      ∃ bytes, c.resumptions = [.data (cString bytes)] ∧ c.response = some (some bytes) ∧
        c.blockLog = [.copied (cString bytes), .freed i, .resumed (.data (cString bytes))] := by
  rcases timer_log h.timer with htimer | ⟨hphase, _⟩
  · unfold SendCall.resumptions
    rw [htimer]
    rcases block_delivery h.block with hblock | ⟨_, ⟨hnull, hblock⟩ | ⟨bytes, hown, hblock⟩⟩
    · exact .inl hblock
    · refine .inr (.inr (.inl ⟨?_, hnull⟩))
      rw [hblock]
      rfl
    · refine .inr (.inr (.inr ⟨bytes, ?_, hown, hblock⟩))
      rw [hblock]
      rfl
  · exact .inr (.inl (resumptions_timer h hphase))

theorem safe_of_fine (h : Fine i c) : c.Safe i := by
  have hfrees : c.frees = [] ∨ c.frees = [i] ∧ c.buffered = true := by
    unfold SendCall.frees
    rw [timer_frees h]
    exact block_frees h.block
  rcases resumptions_cases h with hnone | hone | ⟨hone, hnull⟩ | ⟨bytes, hone, hown, hlog⟩
  · refine ⟨?_, ?_, hfrees, ?_⟩ <;> rw [hnone]
    · exact Nat.zero_le 1
    · exact fun d hd => (by cases hd)
    · exact fun d hd => (by cases hd)
  · refine ⟨?_, ?_, hfrees, ?_⟩ <;> rw [hone]
    · exact Nat.le_refl 1
    · exact fun d hd => .inl (List.mem_singleton.1 hd)
    · exact fun d hd => (by cases List.mem_singleton.1 hd)
  · refine ⟨?_, ?_, hfrees, ?_⟩ <;> rw [hone]
    · exact Nat.le_refl 1
    · exact fun d hd => .inr (.inl ⟨List.mem_singleton.1 hd, hnull⟩)
    · exact fun d hd => (by cases List.mem_singleton.1 hd)
  · refine ⟨?_, ?_, hfrees, ?_⟩ <;> rw [hone]
    · exact Nat.le_refl 1
    · exact fun d hd => .inr (.inr ⟨bytes, hown, List.mem_singleton.1 hd⟩)
    · intro data hd
      cases List.mem_singleton.1 hd
      exact hlog

/-- A block at its end has freed what it was given. -/
theorem frees_ended {phase : BlockPhase} {response : Option (Option Data)} {log : List CallEvent}
    (h : BlockStage i phase response log)
    (hend : phase = .calling ∨ phase = .discarded ∨ phase = .resumed) :
    log.filterMap CallEvent.owner = if response.join.isSome then [i] else [] := by
  cases h with
  | unread hphase => rcases hend with rfl | rfl | rfl <;> cases hphase
  | freeing | resumingNull | resuming => rcases hend with hend | hend | hend <;> cases hend
  | _ => rfl

theorem resumed_delivery {response : Option (Option Data)} {log : List CallEvent}
    (h : BlockStage i .resumed response log) : (log.filterMap CallEvent.delivery).length = 1 := by
  cases h with
  | unread hphase => cases hphase
  | resumedNull | resumed => rfl

theorem calling_response {response : Option (Option Data)} {log : List CallEvent}
    (h : BlockStage i .calling response log) : response = none := by
  cases h with
  | calling => rfl
  | unread hphase => cases hphase

theorem settled_of_fine (h : Fine i c) (hquiet : c.quiet = true)
    (hdue : c.fired = true ∨ c.response.isSome = true) : c.Settled i := by
  obtain ⟨⟨hdequeued, hresuming⟩, hend⟩ := of_decide_eq_true hquiet
  have hfirst : c.timer = .resumed → c.resumptions.length = 1 := by
    intro hphase
    rw [resumptions_timer h hphase]
    rfl
  refine ⟨?_, ?_⟩
  · rcases hend with hblock | hblock | hblock
    · -- `bitcoin_rpc` has not returned, so the timeout has fired
      have hresponse := calling_response (hblock ▸ h.block)
      rw [hresponse] at hdue
      rcases hdue with hfired | hsome
      · rcases of_decide_eq_true hfired with hp | hp | hp | hp
        · exact absurd hp hdequeued
        · exact absurd hp hresuming
        · exact hfirst hp
        · have hclaims := h.winner.idle (.inl hp)
          rw [hblock] at hclaims
          cases hclaims
      · cases hsome
    · have hclaims := h.winner.refused (by rw [hblock]; rfl)
      cases hp : c.timer with
      | resumed => exact hfirst hp
      | resuming => exact absurd hp hresuming
      | _ =>
        rw [hp] at hclaims
        cases hclaims
    · have hlog : c.timerLog = [] := by
        rcases timer_log h.timer with hlog | ⟨hp, _⟩
        · exact hlog
        · have hnot := h.winner.one (by rw [hp]; rfl)
          rw [hblock] at hnot
          cases hnot
      unfold SendCall.resumptions
      rw [hlog]
      exact resumed_delivery (hblock ▸ h.block)
  · unfold SendCall.frees
    rw [timer_frees h]
    exact frees_ended h.block hend

end Sends

/-! ## 6. Every run -/

theorem tidy_run {s : Sends} {ls : List Sends.Label} (h : sends.Run Machine.always ls s) : s.Tidy :=
  h.invariant Sends.tidy_initial fun _ _ _ htidy _ hstep => Sends.tidy_step htidy hstep

/-- **Every send is settled once.** In every run, at any time: no buffer is read or freed that is
    not live; the continuation of a call is resumed at most once, by a timeout, by an error where
    `bitcoin_rpc` returned NULL, or with the bytes of its own buffer, copied before that was freed;
    and no call frees what is not its own, or twice. Where the timeout has fired or `bitcoin_rpc`
    has returned, the blocks of the call come to an end by steps of their own, of which there are
    nine at most in a run; whenever they are at an end, the continuation has been resumed, and the
    buffer, if there was one, freed. -/
theorem sends_settle {s : Sends} {ls : List Sends.Label} {i : Nat} {c : SendCall}
    (h : sends.Run Machine.always ls s) (hc : s.calls[i]? = some c) :
    s.faulted = false ∧ c.Safe i ∧
      (c.fired = true ∨ c.response.isSome = true →
        (c.quiet = true → c.Settled i) ∧ Sends.stepsOf i ls ≤ 9 ∧
          (c.quiet = false → ∃ a, Sends.Own i s a ∧ (s.step a).isSome = true) ∧
          ∃ more s' c', sends.Path (Sends.Own i) s more s' ∧ s'.calls[i]? = some c' ∧
            c'.quiet = true ∧ c'.Settled i) := by
  have htidy := tidy_run h
  have hfine := htidy.fine i c hc
  refine ⟨htidy.sound, Sends.safe_of_fine hfine, fun hdue => ⟨?_, ?_, ?_, ?_⟩⟩
  · exact fun hquiet => Sends.settled_of_fine hfine hquiet hdue
  · have hbound := (Sends.steps_bounded h i).2 c hc
    omega
  · intro hquiet
    obtain ⟨a, s', _, hown, hstep, _⟩ := Sends.moved_own hc hquiet
    refine ⟨a, hown, ?_⟩
    rw [hstep]
    rfl
  · obtain ⟨more, s', c', hpath, hc', hquiet, hresponse, hfired⟩ := Sends.quiet_reached hc
    have htidy' : s'.Tidy :=
      hpath.invariant htidy fun _ _ _ htidy _ hstep => Sends.tidy_step htidy hstep
    refine ⟨more, s', c', hpath, hc', hquiet,
      Sends.settled_of_fine (htidy'.fine i c' hc') hquiet ?_⟩
    rw [hresponse]
    exact hdue.imp hfired id

/-- Two calls and one address: the work item of the first is dequeued when it is cancelled, and the
    second is given the address that the first has freed, when it has timed out. -/
def race : List Sends.Label :=
  [.send, .send, .timer 0, .bitcoinRpc 0 (some (7, [0x7b, 0x7d, 0])), .block 0, .block 0, .timer 0,
    .block 0, .block 0, .timer 1, .bitcoinRpc 1 (some (7, [0x5b, 0x5d, 0])), .timer 1, .block 1,
    .block 1, .timer 1, .block 0]

/-- Where it ends. -/
def raced : Sends where
  calls := [⟨true, .lost, .resumed, some (some [0x7b, 0x7d, 0]), [],
      [.copied [0x7b, 0x7d], .freed 0, .resumed (.data [0x7b, 0x7d])]⟩,
    ⟨true, .resumed, .discarded, some (some [0x5b, 0x5d, 0]), [.resumed .timedOut], [.freed 1]⟩]
  heap := []
  faulted := false

theorem sends_settle_race : sends.Run Machine.always race raced ∧
    ∀ (i : Nat) (c : SendCall), raced.calls[i]? = some c → c.Safe i ∧ c.Settled i := by
  have hrun : sends.Run Machine.always race raced := Machine.exec_run (by decide)
  refine ⟨hrun, fun i c hc => ?_⟩
  obtain ⟨_, hsafe, hend⟩ := sends_settle hrun hc
  have hquiet : (c.fired = true ∨ c.response.isSome = true) ∧ c.quiet = true := by
    have hall : ∀ c ∈ raced.calls, (c.fired = true ∨ c.response.isSome = true) ∧ c.quiet = true := by
      decide
    exact hall c (List.mem_of_getElem? hc)
  exact ⟨hsafe, (hend hquiet.1).1 hquiet.2⟩

end SwiftBitcoinKernel
