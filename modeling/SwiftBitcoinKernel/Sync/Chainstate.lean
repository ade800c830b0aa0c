/-
  File:      SwiftBitcoinKernel/Sync/Chainstate.lean
  Subject:   Sync runs against the kernel: what `.finished` and `.syncing` say of its chain.

  The kernel of Kernel/Chainman.lean takes the place of the environment's manager; the source, the
  task and what each kernel call finds around it stay arbitrary.

  * `Surroundings`, `kernelEnv` -- the environment of a run against the kernel, which keeps a
    record of the blocks handed to it;
  * `finished_active_tip` -- if every call made on the manager before and during the run was
    orderly, `.finished` names the tip of the active chain;
  * `finished_on_header_only` -- one header call before the run, and it does not;
  * `sharedEnv` -- the environment of a run whose manager others call as well, at any time;
  * `syncing_heights_increase` -- if every accepted block advances what the run reports, the heights
    reported by `.preparing` and `.syncing` increase;
  * `syncing_without_progress` -- a source that serves a block the kernel has, and they do not.
-/
import SwiftBitcoinKernel.Kernel.Settled
import SwiftBitcoinKernel.Sync.Trace

namespace SwiftBitcoinKernel

open Logic

/-! ## 1. The kernel as the manager of a run -/

/-- A run's environment without its manager: the source, the task, and what a kernel call finds. -/
structure Surroundings where
  State : Type
  isCancelled : State → Bool × State
  bestTip : State → Except SwiftError BlockTip × State
  blockHash : Int → State → Except SwiftError Data × State
  block : Data → State → Except SwiftError Block × State
  ambient : State → Ambient × State
  errorDescription : SwiftError → Option String
  interpolation : SwiftError → String

/-- One `processBlock` of a run, and the manager it was called on. -/
structure ProcessedBlock where
  ambient : Ambient
  before : Chainman
  block : Block

/-- The manager, what the run has handed to it so far, and the rest. -/
structure KernelState (S : Surroundings) where
  kernel : Chainman
  calls : List ProcessedBlock
  rest : S.State

/-- The environment of a run against the kernel. Nobody else calls the manager meanwhile. -/
def kernelEnv (C : Consensus) (S : Surroundings) : Environment where
  State := KernelState S
  bestEntry s := s.kernel.bestEntry
  isCancelled s := ((S.isCancelled s.rest).1, { s with rest := (S.isCancelled s.rest).2 })
  bestTip s := ((S.bestTip s.rest).1, { s with rest := (S.bestTip s.rest).2 })
  blockHash h s := ((S.blockHash h s.rest).1, { s with rest := (S.blockHash h s.rest).2 })
  block h s := ((S.block h s.rest).1, { s with rest := (S.block h s.rest).2 })
  processBlock b s :=
    let a := S.ambient s.rest
    let r := processNewBlock C a.1 b s.kernel
    (r.1, ⟨r.2, s.calls ++ [⟨a.1, s.kernel, b⟩], a.2⟩)
  errorDescription := S.errorDescription
  interpolation := S.interpolation

variable {C : Consensus} {S : Surroundings}

/-- An assertion on the manager, the calls and the trace that routine events keep is a frame: only
    `processBlock` touches the first two. -/
theorem frame_kernel {P : Chainman → List ProcessedBlock → List Event → Prop}
    (h : ∀ k calls t e, e.isRoutine = true → P k calls t → P k calls (t ++ [e])) :
    Frame fun w : World (kernelEnv C S) => P w.env.kernel w.env.calls w.trace where
  log _ e he hw := h _ _ _ e he hw
  progress _ _ hw := hw
  isCancelled _ hw := hw
  bestTip _ hw := hw
  blockHash _ _ hw := hw
  block _ _ hw := hw

/-! ## 2. The active chain at `.finished` -/

/-- The managers that orderly calls reach from a fresh chainstate. -/
inductive OrderlyHistory (C : Consensus) : Chainman → Prop where
  | fresh : OrderlyHistory C (.fresh C)
  | call {k : Chainman} (a : Ambient) (c : KernelCall) :
      OrderlyHistory C k → Orderly C a k c → OrderlyHistory C (perform C a c k)

theorem settled_of_history {k : Chainman} (h : OrderlyHistory C k) : Settled C k := by
  induction h with
  | fresh => exact settled_fresh C
  | call a c _ hc ih => exact settled_perform ih c hc

/-- Every block of the run was handed to the kernel by an orderly call. -/
def AllOrderly (C : Consensus) (calls : List ProcessedBlock) : Prop :=
  ∀ c ∈ calls, Orderly C c.ambient c.before (.block c.block)

/-- As long as the calls are orderly the manager is settled; nothing is reported finished yet. -/
def OpenRun (C : Consensus) (k : Chainman) (calls : List ProcessedBlock) (trace : List Event) :
    Prop :=
  AllOrderly C calls → Settled C k ∧ ∀ u ∈ updates trace, u.state ≠ .finished

theorem openRun_append {k : Chainman} {calls : List ProcessedBlock} {trace : List Event}
    {e : Event} (h : OpenRun C k calls trace) (he : ∀ u p, e = .yield u p → u.state ≠ .finished) :
    OpenRun C k calls (trace ++ [e]) := by
  intro hcalls
  obtain ⟨hsettled, hopen⟩ := h hcalls
  refine ⟨hsettled, fun u hu => ?_⟩
  obtain ⟨p, hp⟩ := mem_updates.1 hu
  rcases List.mem_append.1 hp with hp | hp
  · exact hopen u (mem_updates.2 ⟨p, hp⟩)
  · exact he u p (List.mem_singleton.1 hp).symm

theorem not_finished_of_routine {e : Event} (he : e.isRoutine = true) :
    ∀ u p, e = .yield u p → u.state ≠ .finished := by
  rintro u p rfl
  obtain ⟨reason, hs⟩ := routine_yield he
  rw [hs]
  exact nofun

theorem openRun_processBlock {k : Chainman} {calls : List ProcessedBlock} {trace : List Event}
    (h : OpenRun C k calls trace) (a : Ambient) (block : Block) (success : Bool) :
    OpenRun C (processNewBlock C a block k).2 (calls ++ [⟨a, k, block⟩])
      (trace ++ [.processBlock block success]) := by
  refine openRun_append (fun hcalls => ?_) nofun
  obtain ⟨hsettled, hopen⟩ := h fun c hc => hcalls c (List.mem_append_left _ hc)
  have horderly : Orderly C a k (.block block) :=
    hcalls ⟨a, k, block⟩ (List.mem_append_right _ (List.mem_singleton_self _))
  exact ⟨settled_perform hsettled (.block block) horderly, hopen⟩

/-- The assertion of the loop: an open run, with the local tip read from the manager as it is. -/
def OpenAt (C : Consensus) (S : Surroundings) (localTip : BlockTip) (w : World (kernelEnv C S)) :
    Prop :=
  OpenRun C w.env.kernel w.env.calls w.trace ∧ localTip = w.env.kernel.bestEntry.asTip

/-- What every way out leaves: `.finished` names the tip of the active chain, all of it stored. -/
def FinishedActive (C : Consensus) (S : Surroundings) (w : World (kernelEnv C S)) : Prop :=
  AllOrderly C w.env.calls → ∀ u ∈ updates w.trace, u.state = .finished →
    u.tip = w.env.kernel.activeTip.asTip ∧
      ∀ x ∈ w.env.kernel.tip.line, x ∈ w.env.kernel.haveData

theorem frame_openAt (localTip : BlockTip) : Frame (OpenAt C S localTip) :=
  frame_kernel (P := fun k calls t => OpenRun C k calls t ∧ localTip = k.bestEntry.asTip)
    fun _ _ _ _ he hw => ⟨openRun_append hw.1 (not_finished_of_routine he), hw.2⟩

theorem finishedActive_of_open {w : World (kernelEnv C S)}
    (h : OpenRun C w.env.kernel w.env.calls w.trace) : FinishedActive C S w :=
  fun hcalls u hu hs => absurd hs ((h hcalls).2 u hu)

theorem repoll_openAt (localTip remoteTip : BlockTip) :
    Triple (OpenAt C S localTip) (repoll localTip remoteTip) (fun _ => OpenAt C S localTip)
      (FinishedActive C S) := by
  refine repoll_triple (M := fun _ => OpenAt C S localTip) (frame_openAt localTip)
    (fun _ hw => finishedActive_of_open hw.1) localTip remoteTip (fun _ _ hw => hw) ?_ ?_ ?_ ?_
  · exact fun w hw => ⟨openRun_append hw.1 nofun, hw.2⟩
  · exact fun _ _ hw => hw
  · exact fun _ _ _ hw => hw
  · -- the one place that yields `.finished`: the local tip is the best header, so the active tip
    rintro t w _ ⟨hopen, htip⟩ hcalls u hu hs
    obtain ⟨hsettled, hnone⟩ := hopen hcalls
    have hmem : u ∈ updates w.trace ∨ u = ⟨.finished, localTip, t⟩ := by
      obtain ⟨p, hp⟩ := mem_updates.1 hu
      simp only [World.log, List.append_assoc, List.mem_append, List.mem_cons, List.not_mem_nil,
        or_false, reduceCtorEq, Event.yield.injEq] at hp
      rcases hp with hp | ⟨rfl, _⟩
      · exact .inl (mem_updates.2 ⟨p, hp⟩)
      · exact .inr rfl
    rcases hmem with hmem | rfl
    · exact absurd hs (hnone u hmem)
    · refine ⟨?_, fun x hx => hsettled.active_data hx⟩
      show localTip = w.env.kernel.activeTip.asTip
      rw [htip, hsettled.bestEntry_eq]

theorem connectNext_openAt (localTip remoteTip : BlockTip) (block : Block) :
    Triple (OpenAt C S localTip) (connectNext localTip remoteTip block) (OpenAt C S)
      (FinishedActive C S) := by
  refine connectNext_triple
    (K := fun w : World (kernelEnv C S) => OpenRun C w.env.kernel w.env.calls w.trace)
    (frame_kernel fun _ _ _ _ he hw => openRun_append hw (not_finished_of_routine he))
    (fun _ hw => finishedActive_of_open hw) localTip remoteTip block ?_ ?_
  · exact fun w hw _ => openRun_processBlock hw.1 _ block false
  · intro w p hw _
    refine ⟨openRun_append (openRun_processBlock hw.1 _ block true) ?_, rfl⟩
    rintro u p' heq
    cases heq
    exact fun hs => nomatch hs

/-- **The active chain at `.finished`.** If orderly calls alone were made on the manager, before
    the run and by it, then a run that yields `.finished` yields it with the tip of the active
    chain, every block of which is stored. -/
theorem finished_active_tip (C : Consensus) (S : Surroundings) (k : Chainman)
    (hk : OrderlyHistory C k) (rest : S.State) (progress : Progress) (n : Nat)
    (hrun : AllOrderly C (run (kernelEnv C S) n ⟨k, [], rest⟩ progress).2.env.calls) :
    let w := (run (kernelEnv C S) n ⟨k, [], rest⟩ progress).2
    ∀ u ∈ updates w.trace, u.state = .finished →
      u.tip = w.env.kernel.activeTip.asTip ∧
        ∀ x ∈ w.env.kernel.tip.line, x ∈ w.env.kernel.haveData := by
  intro w
  have hstart : OpenAt C S k.bestEntry.asTip ⟨⟨k, [], rest⟩,
      [.yield ⟨.preparing, k.bestEntry.asTip, unknownRemoteTip⟩ progress], progress⟩ := by
    have hopen : OpenRun C k [] [] := fun _ => ⟨settled_of_history hk, nofun⟩
    refine ⟨openRun_append hopen ?_, rfl⟩
    rintro u p heq
    cases heq
    exact fun hs => nomatch hs
  have hleaves := run_triple (R := FinishedActive C S) frame_openAt
    (fun _ _ hw => finishedActive_of_open hw.1) repoll_openAt connectNext_openAt n
    (⟨k, [], rest⟩ : KernelState S) progress hstart
  have hactive : FinishedActive C S w := leaves_state
    (leaves_mono hleaves (fun _ _ hw => finishedActive_of_open hw.1) fun _ hw => hw)
  exact hactive hrun

/-! ## 3. A header that runs ahead -/

/-- Rules that let everything pass, every block weighing the same. -/
def lenient : Consensus where
  genesis := ⟨Hash.repeating 0, Hash.repeating 0, 0, 0⟩
  blockProof _ := 2
  checkBlockHeader _ := true
  contextualCheckBlockHeader _ _ _ := true
  checkBlock _ := true
  contextualCheckBlock _ _ := .valid
  connectBlock _ := true

/-- An uneventful call. -/
def calm : Ambient := ⟨0, fun _ => false⟩

/-- The block at height 1. -/
def firstBlock : Block := ⟨⟨Hash.repeating 1, Hash.repeating 0, 1, 0⟩, []⟩

/-- A source with a fixed tip at height 1 that serves `served`, whatever it is asked for. -/
def steadySource (served : Block) : Surroundings where
  State := Unit
  isCancelled s := (false, s)
  bestTip s := (.ok ⟨firstBlock.hash, 1, none⟩, s)
  blockHash _ s := (.ok served.hash.val, s)
  block _ s := (.ok served, s)
  ambient s := (calm, s)
  errorDescription _ := none
  interpolation _ := ""

/-- The hypotheses hold of a run that fetches and connects a block. -/
theorem finished_active_tip_first_block :
    let w := (run (kernelEnv lenient (steadySource firstBlock)) 2 ⟨.fresh lenient, [], ()⟩
      ⟨0, 0⟩).2
    ∀ u ∈ updates w.trace, u.state = .finished →
      u.tip = w.env.kernel.activeTip.asTip ∧
        ∀ x ∈ w.env.kernel.tip.line, x ∈ w.env.kernel.haveData := by
  refine finished_active_tip lenient (steadySource firstBlock) (.fresh lenient) .fresh () ⟨0, 0⟩ 2
    ?_
  have hcalls : (run (kernelEnv lenient (steadySource firstBlock)) 2 ⟨.fresh lenient, [], ()⟩
      ⟨0, 0⟩).2.env.calls = [⟨calm, .fresh lenient, firstBlock⟩] := rfl
  rw [hcalls]
  intro c hc
  rw [List.mem_singleton.1 hc]
  intro _ _ x hx
  have hentry : x = .child (.root lenient.genesis) firstBlock.header := (Option.some.inj hx).symm
  rw [hentry]
  exact .inr ⟨rfl, .root lenient.genesis, rfl, List.mem_singleton_self _, .inl rfl⟩

/-- The manager after `processBlockHeader` alone. -/
def headerOnly : Chainman := perform lenient calm (.header firstBlock.header) (.fresh lenient)

/-- The run finishes on a block of which the kernel has the header only. -/
theorem finished_on_header_only :
    let w := (run (kernelEnv lenient (steadySource firstBlock)) 1 ⟨headerOnly, [], ()⟩ ⟨0, 0⟩).2
    ∃ u ∈ updates w.trace, u.state = .finished ∧ u.tip ≠ w.env.kernel.activeTip.asTip :=
  ⟨⟨.finished, ⟨Hash.repeating 1, 1, some 1⟩, ⟨Hash.repeating 1, 1, none⟩⟩, by decide⟩

/-! ## 4. A manager that others call as well -/

/-- Surroundings in which others have the manager too: the calls they make until the run's next. -/
structure SharedSurroundings extends Surroundings where
  others : State → List (Ambient × KernelCall) × State

/-- Calls in a row; `cs_main` keeps them apart. -/
def performAll (C : Consensus) (calls : List (Ambient × KernelCall)) (k : Chainman) : Chainman :=
  calls.foldl (fun k c => perform C c.1 c.2 k) k

/-- One `processBlock` of a run: the manager it was called on, and the one the local tip is read
    from afterwards. -/
structure SharedCall where
  ambient : Ambient
  before : Chainman
  block : Block
  read : Chainman

/-- The manager, what the run has handed to it so far, and the rest. -/
structure SharedState (S : SharedSurroundings) where
  kernel : Chainman
  calls : List SharedCall
  rest : S.State

/-- The others' turn. -/
def SharedState.turn (C : Consensus) {S : SharedSurroundings} (s : SharedState S) : SharedState S :=
  ⟨performAll C (S.others s.rest).1 s.kernel, s.calls, (S.others s.rest).2⟩

/-- The environment of a run that shares its manager. It is the others' turn before each call of the
    run, and between a `processBlock` and the reading of the tip. -/
def sharedEnv (C : Consensus) (S : SharedSurroundings) : Environment where
  State := SharedState S
  bestEntry s := s.kernel.bestEntry
  isCancelled s :=
    let s := s.turn C
    ((S.isCancelled s.rest).1, { s with rest := (S.isCancelled s.rest).2 })
  bestTip s :=
    let s := s.turn C
    ((S.bestTip s.rest).1, { s with rest := (S.bestTip s.rest).2 })
  blockHash h s :=
    let s := s.turn C
    ((S.blockHash h s.rest).1, { s with rest := (S.blockHash h s.rest).2 })
  block h s :=
    let s := s.turn C
    ((S.block h s.rest).1, { s with rest := (S.block h s.rest).2 })
  processBlock b s :=
    let s := s.turn C
    let a := S.ambient s.rest
    let r := processNewBlock C a.1 b s.kernel
    let t := SharedState.turn C ⟨r.2, s.calls, a.2⟩
    (r.1, { t with calls := s.calls ++ [⟨a.1, s.kernel, b, t.kernel⟩] })
  errorDescription := S.errorDescription
  interpolation := S.interpolation

section Shared

variable {S : SharedSurroundings}

/-- An assertion on the run's own calls and the trace that routine events keep is a frame, whatever
    the others do. -/
theorem frame_shared {P : List SharedCall → List Event → Prop}
    (h : ∀ calls t e, e.isRoutine = true → P calls t → P calls (t ++ [e])) :
    Frame fun w : World (sharedEnv C S) => P w.env.calls w.trace where
  log _ e he hw := h _ _ e he hw
  progress _ _ hw := hw
  isCancelled _ hw := hw
  bestTip _ hw := hw
  blockHash _ _ hw := hw
  block _ _ hw := hw

/-! ## 5. The heights of `.syncing` -/

/-- The tip heights of the `.preparing` and `.syncing` updates, in order. -/
def tipHeights (trace : List Event) : List Int :=
  ((updates trace).filter fun u => decide (u.state = .preparing ∨ u.state = .syncing)).map
    fun u => u.tip.height

@[simp] theorem tipHeights_append (t u : List Event) :
    tipHeights (t ++ u) = tipHeights t ++ tipHeights u := by
  unfold tipHeights
  rw [updates_append, List.filter_append, List.map_append]

/-- An event that is no `.preparing` and no `.syncing` adds no height. -/
theorem tipHeights_singleton {e : Event}
    (he : ∀ u p, e = .yield u p → u.state ≠ .preparing ∧ u.state ≠ .syncing) :
    tipHeights [e] = [] := by
  cases e with
  | yield u p =>
    obtain ⟨hp, hs⟩ := he u p rfl
    simp [tipHeights, updates, Event.update?, hp, hs]
  | _ => rfl

theorem tipHeights_routine {e : Event} (he : e.isRoutine = true) : tipHeights [e] = [] := by
  refine tipHeights_singleton ?_
  rintro u p rfl
  obtain ⟨reason, hs⟩ := routine_yield he
  rw [hs]
  exact ⟨nofun, nofun⟩

/-- The manager the last report was read from: that of the last call, or the first one. -/
def lastRead (first : Chainman) (calls : List SharedCall) : Chainman :=
  (calls.getLast?.map SharedCall.read).getD first

/-- A block that advances what the run reports, `last` being the best header at the last report. It
    becomes the best header, is higher than `last`, and nobody moves the best header before it is
    read. -/
structure SharedCall.Advances (C : Consensus) (last : BlockIndex) (c : SharedCall) : Prop where
  advancing : ∃ prev, Advancing C c.before c.block prev ∧ last.depth < prev.depth + 1
  unmoved : c.read.bestHeader = (processNewBlock C c.ambient c.block c.before).2.bestHeader

/-- Every block the kernel accepted from the run did so. -/
def AllAdvancing (C : Consensus) (first : Chainman) (calls : List SharedCall) : Prop :=
  ∀ before c later, calls = before ++ c :: later →
    (processNewBlock C c.ambient c.block c.before).1.1 = true →
      c.Advances C (lastRead first before).bestHeader

/-- The calls of a run before its latest one. -/
theorem AllAdvancing.init {first : Chainman} {calls : List SharedCall} {c : SharedCall}
    (h : AllAdvancing C first (calls ++ [c])) : AllAdvancing C first calls := by
  intro before d later hcalls
  refine h before d (later ++ [c]) ?_
  rw [hcalls, List.append_assoc, List.cons_append]

/-- The heights so far increase, and end at `last` or below. -/
structure Climbing (heights : List Int) (last : Int) : Prop where
  sorted : heights.Pairwise (· < ·)
  bounded : ∀ h ∈ heights, h ≤ last

theorem climbing_append {heights : List Int} {last next : Int} (h : Climbing heights last)
    (hnext : last < next) : Climbing (heights ++ [next]) next := by
  refine ⟨?_, ?_⟩
  · rw [List.pairwise_append]
    refine ⟨h.sorted, List.pairwise_singleton _ _, ?_⟩
    intro x hx y hy
    have := h.bounded x hx
    rw [List.mem_singleton.1 hy]
    omega
  · intro x hx
    rcases List.mem_append.1 hx with hx | hx
    · have := h.bounded x hx
      omega
    · exact Int.le_of_eq (List.mem_singleton.1 hx)

/-- As long as the accepted blocks advance, the heights climb to `last`. -/
def ClimbRun (C : Consensus) (first : Chainman) (calls : List SharedCall) (trace : List Event)
    (last : Int) : Prop :=
  AllAdvancing C first calls → Climbing (tipHeights trace) last

theorem climbRun_append {first : Chainman} {calls : List SharedCall} {trace : List Event}
    {last : Int} {e : Event} (h : ClimbRun C first calls trace last) (hadds : tipHeights [e] = []) :
    ClimbRun C first calls (trace ++ [e]) last := by
  intro hcalls
  rw [tipHeights_append, hadds, List.append_nil]
  exact h hcalls

/-- The assertion of the loop: the heights climb to the local tip's, which is the one read last. -/
def ClimbingAt (C : Consensus) (S : SharedSurroundings) (first : Chainman) (localTip : BlockTip)
    (w : World (sharedEnv C S)) : Prop :=
  ClimbRun C first w.env.calls w.trace localTip.height ∧
    localTip = (lastRead first w.env.calls).bestEntry.asTip

/-- What every way out leaves. -/
def Climbed (C : Consensus) (S : SharedSurroundings) (first : Chainman)
    (w : World (sharedEnv C S)) : Prop :=
  ∃ last, ClimbRun C first w.env.calls w.trace last

variable {first : Chainman}

theorem frame_climbingAt (localTip : BlockTip) : Frame (ClimbingAt C S first localTip) :=
  frame_shared (P := fun calls t => ClimbRun C first calls t localTip.height ∧
      localTip = (lastRead first calls).bestEntry.asTip)
    fun _ _ _ he hw => ⟨climbRun_append hw.1 (tipHeights_routine he), hw.2⟩

theorem repoll_climbingAt (localTip remoteTip : BlockTip) :
    Triple (ClimbingAt C S first localTip) (repoll localTip remoteTip)
      (fun _ => ClimbingAt C S first localTip) (Climbed C S first) := by
  refine repoll_triple (M := fun _ => ClimbingAt C S first localTip) (frame_climbingAt localTip)
    (fun _ hw => ⟨_, hw.1⟩) localTip remoteTip (fun _ _ hw => hw) ?_ ?_ ?_ ?_
  · intro w hw
    exact ⟨climbRun_append (e := .repolled localTip _) hw.1 rfl, hw.2⟩
  · exact fun _ _ hw => hw
  · exact fun _ _ _ hw => hw
  · intro t w _ hw
    exact ⟨_, climbRun_append (climbRun_append (e := .yield ⟨.finished, localTip, t⟩ _) hw.1 rfl)
      rfl⟩

/-- An accepted block that advances is read as the best header, and its height is the next in the
    run. -/
theorem climbRun_syncing {calls : List SharedCall} {trace : List Event} {c : SharedCall}
    (h : ClimbRun C first calls trace (lastRead first calls).bestEntry.asTip.height)
    (hok : (processNewBlock C c.ambient c.block c.before).1.1 = true) (remoteTip : BlockTip)
    (p : Progress) :
    let tip := c.read.bestEntry.asTip
    ClimbRun C first (calls ++ [c])
      (trace ++ [.processBlock c.block true] ++ [.yield ⟨.syncing, tip, remoteTip⟩ p])
      tip.height := by
  intro tip hcalls
  have hadvances := hcalls calls c [] rfl hok
  obtain ⟨prev, hadvancing, hhigher⟩ := hadvances.advancing
  have hread : c.read.bestHeader = .child prev c.block.header :=
    hadvances.unmoved.trans (processNewBlock_advances hadvancing hok)
  have hlt : (lastRead first calls).bestEntry.asTip.height < tip.height := by
    show ((lastRead first calls).bestHeader.depth : Int) < (c.read.bestHeader.depth : Int)
    rw [hread, Lineage.depth_child]
    omega
  rw [tipHeights_append]
  exact climbing_append (climbRun_append (e := .processBlock c.block true) h rfl hcalls.init) hlt

theorem connectNext_climbingAt (localTip remoteTip : BlockTip) (block : Block) :
    Triple (ClimbingAt C S first localTip) (connectNext localTip remoteTip block)
      (ClimbingAt C S first) (Climbed C S first) := by
  refine connectNext_triple
    (K := fun w : World (sharedEnv C S) => ClimbRun C first w.env.calls w.trace localTip.height)
    (frame_shared (P := fun calls t => ClimbRun C first calls t localTip.height)
      fun _ _ _ he hw => climbRun_append hw (tipHeights_routine he))
    (fun _ hw => ⟨_, hw⟩) localTip remoteTip block ?_ ?_
  · intro w hw _
    exact climbRun_append (e := .processBlock block false) (fun hcalls => hw.1 hcalls.init) rfl
  · rintro w p ⟨hclimb, rfl⟩ hok
    have hsyncing := climbRun_syncing (c := ⟨(S.ambient (w.env.turn C).rest).1,
      (w.env.turn C).kernel, block, ((sharedEnv C S).processBlock block w.env).2.kernel⟩)
      hclimb hok remoteTip p
    refine ⟨hsyncing, ?_⟩
    simp [lastRead, sharedEnv]

/-- **The heights a run reports**, while others use the manager. Suppose that every block which the
    kernel accepts from the run is new, has more work than the best header at that moment, is higher
    than the tip reported last, lies on a line that connects, and that nobody moves the best header
    between that call and the reading of the tip. Then the tip height of every `.syncing` update is
    greater than that of each `.syncing` before it and of `.preparing`. The manager may be in any
    state, and the others may call it at any time. -/
theorem syncing_heights_increase (C : Consensus) (S : SharedSurroundings) (k : Chainman)
    (rest : S.State) (progress : Progress) (n : Nat)
    (hrun : AllAdvancing C k (run (sharedEnv C S) n ⟨k, [], rest⟩ progress).2.env.calls) :
    (tipHeights (run (sharedEnv C S) n ⟨k, [], rest⟩ progress).2.trace).Pairwise (· < ·) := by
  have hstart : ClimbingAt C S k k.bestEntry.asTip ⟨⟨k, [], rest⟩,
      [.yield ⟨.preparing, k.bestEntry.asTip, unknownRemoteTip⟩ progress], progress⟩ := by
    refine ⟨fun _ => ⟨List.pairwise_singleton _ _, ?_⟩, rfl⟩
    intro h hh
    exact Int.le_of_eq (List.mem_singleton.1 hh)
  have hleaves := run_triple (R := Climbed C S k) frame_climbingAt (fun _ _ hw => ⟨_, hw.1⟩)
    repoll_climbingAt connectNext_climbingAt n (⟨k, [], rest⟩ : SharedState S) progress hstart
  obtain ⟨last, hclimbed⟩ := leaves_state
    (leaves_mono hleaves (fun _ _ hw => (⟨_, hw.1⟩ : Climbed C S k _)) fun _ hw => hw)
  exact (hclimbed hrun).sorted

end Shared

/-- A header at height 1 that is not the first block's. -/
def sideHeader : BlockHeader := ⟨Hash.repeating 2, Hash.repeating 0, 2, 0⟩

/-- The steady source, and somebody who hands the side header to the kernel after every
    `processBlock` of the run. -/
def busySource (served : Block) : SharedSurroundings where
  State := Bool
  isCancelled s := (false, s)
  bestTip s := (.ok ⟨firstBlock.hash, 1, none⟩, s)
  blockHash _ s := (.ok served.hash.val, s)
  block _ s := (.ok served, s)
  ambient _ := (calm, true)
  errorDescription _ := none
  interpolation _ := ""
  others processed := (if processed then [(calm, .header sideHeader)] else [], false)

/-- The hypothesis holds of a run that fetches and connects a block, with the side header of equal
    work indexed before its tip is read. -/
theorem syncing_heights_increase_first_block :
    let w := (run (sharedEnv lenient (busySource firstBlock)) 2 ⟨.fresh lenient, [], false⟩ ⟨0, 0⟩).2
    tipHeights w.trace = [0, 1] ∧ (tipHeights w.trace).Pairwise (· < ·) := by
  refine ⟨rfl, ?_⟩
  refine syncing_heights_increase lenient (busySource firstBlock) (.fresh lenient) false ⟨0, 0⟩ 2 ?_
  have hcalls : (run (sharedEnv lenient (busySource firstBlock)) 2 ⟨.fresh lenient, [], false⟩
      ⟨0, 0⟩).2.env.calls = [⟨calm, .fresh lenient, firstBlock, perform lenient calm
        (.header sideHeader) (processNewBlock lenient calm firstBlock (.fresh lenient)).2⟩] := rfl
  rw [hcalls]
  intro before c later hsplit _
  obtain ⟨rfl, hc⟩ : before = [] ∧ _ := by
    cases before with
    | nil => exact ⟨rfl, List.cons.inj hsplit⟩
    | cons d before => simp at hsplit
  rw [← hc.1]
  refine ⟨⟨.root lenient.genesis, ⟨rfl, rfl, by decide, fun _ _ => rfl⟩, by decide⟩, ?_⟩
  decide

/-- Nobody else calls the manager. -/
def Surroundings.alone (S : Surroundings) : SharedSurroundings :=
  { S with others := fun s => ([], s) }

/-- A source that serves the genesis block for every height: the kernel has it and reports success,
    and every `.syncing` repeats the height of `.preparing`. -/
theorem syncing_without_progress :
    let w := (run (sharedEnv lenient (steadySource ⟨lenient.genesis, []⟩).alone) 3
      ⟨.fresh lenient, [], ()⟩ ⟨0, 0⟩).2
    (updates w.trace).map (fun u => (u.state, u.tip.height)) =
      [(.preparing, 0), (.syncing, 0), (.syncing, 0), (.syncing, 0)] ∧
    ¬ (tipHeights w.trace).Pairwise (· < ·) := by
  decide

end SwiftBitcoinKernel
