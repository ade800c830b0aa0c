/-
  File:      SwiftBitcoinKernel/Sync/Completion.lean
  Subject:   When `.finished` names the source's own best block.

  The re-poll that ends a run compares heights; the hashes of the two tips are compared nowhere
  on this path, and at no time at all for a chainstate still at genesis.

  * `Paired` -- `.finished` is yielded exactly for the re-polls that answer no higher tip, with
    the two tips of that re-poll;
  * `run_paired` -- every run is so paired;
  * `lastNamed` -- the block the source named last; `Follows` -- the kernel connects what the source
    names; `run_polledThere` -- then every re-poll is made at the block named last;
  * `StandsBy`, `finished_agrees_iff` -- so the tips of `.finished` agree just if the source answers
    no re-poll with another block at or below the one it named last;
  * `oneBlockEnv`, `finished_on_stale_block` -- a source that swaps its tip block before the
    re-poll: the run finishes on the block the source has dropped.
-/
import SwiftBitcoinKernel.Sync.Trace

namespace SwiftBitcoinKernel

open Logic

variable {E : Environment}

/-! ## 1. Every `.finished` comes from a re-poll -/

/-- The `.finished` updates of a trace and the re-polls that found no higher tip correspond. -/
structure Paired (trace : List Event) : Prop where
  polled : ∀ l t p, .yield ⟨.finished, l, t⟩ p ∈ trace →
    .repolled l (.ok t) ∈ trace ∧ t.height ≤ l.height
  reported : ∀ l t, .repolled l (.ok t) ∈ trace → t.height ≤ l.height →
    ∃ p, .yield ⟨.finished, l, t⟩ p ∈ trace

/-- A `.finished`, or a re-poll answered with no higher tip. -/
def Event.settles : Event → Bool
  | .yield ⟨.finished, _, _⟩ _ => true
  | .repolled l (.ok t) => decide (t.height ≤ l.height)
  | _ => false

theorem paired_append {trace : List Event} {e : Event} (h : Paired trace)
    (he : e.settles = false) : Paired (trace ++ [e]) := by
  refine ⟨?_, ?_⟩
  · intro l t p hy
    rcases List.mem_append.1 hy with hy | hy
    · obtain ⟨hr, hle⟩ := h.polled l t p hy
      exact ⟨List.mem_append_left _ hr, hle⟩
    · rw [← List.mem_singleton.1 hy] at he
      cases he
  · intro l t hr hle
    rcases List.mem_append.1 hr with hr | hr
    · obtain ⟨p, hp⟩ := h.reported l t hr hle
      exact ⟨p, List.mem_append_left _ hp⟩
    · rw [← List.mem_singleton.1 hr] at he
      have hgt : ¬ t.height ≤ l.height := of_decide_eq_false he
      exact absurd hle hgt

/-- A re-poll within the local height, and the `.finished` it leads to. -/
theorem paired_finished {trace : List Event} {l t : BlockTip} (h : Paired trace)
    (hle : t.height ≤ l.height) (p : Progress) :
    Paired (trace ++ [.repolled l (.ok t)] ++ [.yield ⟨.finished, l, t⟩ p]) := by
  refine ⟨?_, ?_⟩
  · intro l' t' p' hy
    simp only [List.append_assoc, List.mem_append, List.mem_cons, List.not_mem_nil, or_false,
      reduceCtorEq, false_or, Event.yield.injEq, Update.mk.injEq, true_and] at hy
    rcases hy with hy | ⟨⟨rfl, rfl⟩, rfl⟩
    · obtain ⟨hr, hle'⟩ := h.polled l' t' p' hy
      exact ⟨by simp [hr], hle'⟩
    · exact ⟨by simp, hle⟩
  · intro l' t' hr hle'
    simp only [List.append_assoc, List.mem_append, List.mem_cons, List.not_mem_nil, or_false,
      reduceCtorEq, Event.repolled.injEq, Except.ok.injEq] at hr
    rcases hr with hr | ⟨rfl, rfl⟩
    · obtain ⟨p', hp⟩ := h.reported l' t' hr hle'
      exact ⟨p', by simp [hp]⟩
    · exact ⟨p, by simp⟩

theorem frame_paired : Frame fun w : World E => Paired w.trace where
  log w e he hw := by
    refine paired_append hw ?_
    cases e with
    | yield u p =>
      obtain ⟨reason, hs⟩ := routine_yield he
      obtain ⟨s, tip, remoteTip⟩ := u
      cases hs
      rfl
    | repolled => cases he
    | _ => rfl
  progress _ _ hw := hw
  isCancelled _ hw := hw
  bestTip _ hw := hw
  blockHash _ _ hw := hw
  block _ _ hw := hw

theorem repoll_paired (localTip remoteTip : BlockTip) :
    Triple (fun w : World E => Paired w.trace) (repoll localTip remoteTip)
      (fun _ w => Paired w.trace) fun w => Paired w.trace := by
  -- between the answer and the `.finished` the trace is paired but for its last event
  refine repoll_triple (M := fun a w => ∃ before, Paired before ∧
    w.trace = before ++ [.repolled localTip a]) frame_paired (fun _ hw => hw) localTip remoteTip
    (fun _ _ hw => hw) ?_ ?_ ?_ ?_
  · intro w hw
    exact ⟨w.trace, hw, rfl⟩
  · rintro e w ⟨before, hbefore, htrace⟩
    rw [htrace]
    exact paired_append hbefore rfl
  · rintro t w hlt ⟨before, hbefore, htrace⟩
    rw [htrace]
    refine paired_append hbefore (decide_eq_false ?_)
    omega
  · rintro t w hle ⟨before, hbefore, htrace⟩
    show Paired (w.trace ++ _ ++ _)
    rw [htrace]
    exact paired_append (paired_finished hbefore hle w.progress) rfl

theorem connectNext_paired (localTip remoteTip : BlockTip) (block : Block) :
    Triple (fun w : World E => Paired w.trace) (connectNext localTip remoteTip block)
      (fun _ w => Paired w.trace) fun w => Paired w.trace := by
  refine connectNext_triple frame_paired (fun _ hw => hw) localTip remoteTip block ?_ ?_
  · intro w hw _
    exact paired_append hw rfl
  · intro w p hw _
    exact paired_append (paired_append hw rfl) rfl

/-- In every run, `.finished` and the re-polls that found no higher tip correspond. -/
theorem run_paired (n : Nat) (env : E.State) (progress : Progress) :
    Paired (run E n env progress).2.trace := by
  refine leaves_state (run_triple (I := fun _ w => Paired w.trace) (fun _ => frame_paired)
    (fun _ _ hw => hw) repoll_paired connectNext_paired n env progress ?_)
  have hempty : Paired [] := ⟨nofun, nofun⟩
  exact paired_append hempty rfl

/-! ## 2. The block the source named last -/

/-- A block the source names: the height it was asked for, and the hash it answered. -/
def Event.named? : Event → Option (Int × Data)
  | .blockHash height (.ok hash) => some (height, hash)
  | _ => none

/-- A tip, by its height and hash. -/
def BlockTip.named (tip : BlockTip) : Int × Data := (tip.height, tip.hash.val)

/-- The block the source named last; before it has named one, the tip the run began with. -/
def lastNamed (first : BlockTip) (trace : List Event) : Int × Data :=
  (trace.filterMap Event.named?).getLast?.getD first.named

theorem lastNamed_concat (first : BlockTip) (trace : List Event) (e : Event) :
    lastNamed first (trace ++ [e]) = e.named?.getD (lastNamed first trace) := by
  unfold lastNamed
  cases h : e.named? <;> simp [h]

/-- The kernel follows the source: a block that it accepts is the one the source named last, and is
    its best entry from then on, which is what `.syncing` reports. -/
def Follows (first : BlockTip) : List Event → Prop :=
  Along fun before e => ∀ u p, e = .yield u p → u.state = .syncing →
    lastNamed first before = u.tip.named

/-- The source stands by the block it named last: it answers no re-poll with another tip at or below
    that block's height. -/
def StandsBy (first : BlockTip) : List Event → Prop :=
  Along fun before e => ∀ l t, e = .repolled l (.ok t) → t.height ≤ (lastNamed first before).1 →
    t.hash.val = (lastNamed first before).2

/-- Every re-poll is made with the local tip at the block the source named last. -/
def PolledThere (first : BlockTip) : List Event → Prop :=
  Along fun before e => ∀ l a, e = .repolled l a → lastNamed first before = l.named

section Following

variable (E) (first : BlockTip)

/-- The re-polls so far, if the kernel has followed the source. -/
def PolledSoFar (w : World E) : Prop := Follows first w.trace → PolledThere first w.trace

/-- The same between two rounds, where the local tip is the block named last. -/
def AtNamed (localTip : BlockTip) (w : World E) : Prop :=
  Follows first w.trace → PolledThere first w.trace ∧ lastNamed first w.trace = localTip.named

variable {E first}

theorem AtNamed.polled {localTip : BlockTip} {w : World E} (h : AtNamed E first localTip w) :
    PolledSoFar E first w :=
  fun hfollows => (h hfollows).1

/-- What is no re-poll leaves the re-polls as they are. -/
theorem PolledSoFar.log {w : World E} (h : PolledSoFar E first w) {e : Event}
    (he : ∀ l a, e ≠ .repolled l a) : PolledSoFar E first (w.log e) := by
  intro hfollows
  refine along_concat.2 ⟨h (along_concat.1 hfollows).1, fun l a hl => ?_⟩
  exact absurd hl (he l a)

/-- An event that names no block, at the local tip. -/
theorem AtNamed.log {localTip : BlockTip} {w : World E} (h : AtNamed E first localTip w) {e : Event}
    (hnamed : e.named? = none) (he : ∀ l a, e = .repolled l a → l = localTip) :
    AtNamed E first localTip (w.log e) := by
  intro hfollows
  obtain ⟨hpolled, hlast⟩ := h (along_concat.1 hfollows).1
  refine ⟨along_concat.2 ⟨hpolled, fun l a hl => ?_⟩, ?_⟩
  · rw [he l a hl]
    exact hlast
  · show lastNamed first (w.trace ++ [e]) = _
    rw [lastNamed_concat, hnamed]
    exact hlast

theorem frame_polledSoFar : Frame (PolledSoFar E first) where
  log w e he hw := by
    refine hw.log fun l a hl => ?_
    rw [hl] at he
    cases he
  progress _ _ hw := hw
  isCancelled _ hw := hw
  bestTip _ hw := hw
  blockHash _ _ hw := hw
  block _ _ hw := hw

theorem walk_polledSoFar :
    Walk (PolledSoFar E first) (fun _ => PolledSoFar E first) (PolledSoFar E first) :=
  frame_polledSoFar.walk fun _ hw => hw

theorem repoll_atNamed (localTip remoteTip : BlockTip) :
    Triple (AtNamed E first localTip) (repoll localTip remoteTip)
      (fun _ => AtNamed E first localTip) (PolledSoFar E first) := by
  refine repoll_triple (M := fun _ => AtNamed E first localTip) frame_polledSoFar
    (fun _ hw => hw) localTip remoteTip (fun _ _ hw => hw) ?_ ?_ ?_ ?_
  · intro w hw
    refine AtNamed.log (w := { w with env := (E.bestTip w.env).2 }) hw rfl fun l a hl => ?_
    cases hl
    rfl
  · exact fun _ _ hw => hw.polled
  · exact fun _ _ _ hw => hw
  · intro t w _ hw
    exact (hw.polled.log (e := .yield ⟨.finished, localTip, t⟩ w.progress) nofun).log nofun

/-- An accepted block is the one named last, if the kernel follows. -/
theorem connectNext_atNamed (localTip remoteTip : BlockTip) (block : Block) :
    Triple (PolledSoFar E first) (connectNext localTip remoteTip block)
      (fun tip => AtNamed E first tip) (PolledSoFar E first) := by
  refine connectNext_triple frame_polledSoFar (fun _ hw => hw) localTip remoteTip block ?_ ?_
  · intro w hw _
    exact PolledSoFar.log (w := { w with env := (E.processBlock block w.env).2 }) hw nofun
  · intro w p hw _ env tip hfollows
    obtain ⟨hbefore, hsyncing⟩ := along_concat.1 hfollows
    have hpolled := PolledSoFar.log (w := ⟨env, w.trace, p⟩) hw (e := .processBlock block true) nofun
    refine ⟨along_concat.2 ⟨hpolled hbefore, nofun⟩, ?_⟩
    rw [lastNamed_concat]
    exact hsyncing _ p rfl rfl

theorem iteration_atNamed (tips : BlockTip × BlockTip) :
    Triple (AtNamed E first tips.1) (iteration tips) (fun tips' => AtNamed E first tips'.1)
      (PolledSoFar E first) := by
  refine triple_bind (Q := fun _ => AtNamed E first tips.1) (triple_act fun w hw => ?_) fun b => ?_
  · exact AtNamed.log (w := { w with env := (E.isCancelled w.env).2 }) hw rfl nofun
  cases b with
  | true => exact fun w hw => hw.polled.log nofun
  | false =>
    refine triple_bind (repoll_atNamed tips.1 tips.2) fun remoteTip => ?_
    have hwalk : Walk (PolledSoFar E first) (fun _ => PolledSoFar E first) (PolledSoFar E first) :=
      walk_polledSoFar
    have hpolled : ∀ w, AtNamed E first tips.1 w → PolledSoFar E first w := fun _ hw => hw.polled
    have hfetch := triple_mono (fetchNext_walk hwalk tips.1 remoteTip) hpolled
      (fun _ _ hw => hw) fun _ hw => hw
    refine triple_bind hfetch fun block => ?_
    refine triple_bind (connectNext_atNamed tips.1 remoteTip block) fun localTip => ?_
    exact triple_pure _ fun _ hw => hw

/-- The fork-point check ends the run, or the source has named the local tip. -/
theorem forkPointCheck_atNamed (localTip remoteTip : BlockTip) :
    Triple (AtNamed E first localTip) (forkPointCheck localTip remoteTip)
      (fun _ => AtNamed E first localTip) (PolledSoFar E first) := by
  have hfail : ∀ reason, Triple (AtNamed E first localTip)
      (failAndReturn reason localTip remoteTip : SyncM E Unit) (fun _ => AtNamed E first localTip)
      (PolledSoFar E first) := by
    intro reason
    exact triple_mono (failAndReturn_walk walk_polledSoFar reason localTip remoteTip)
      (fun _ hw => hw.polled) (fun _ _ hw => hw) fun _ hw => hw
  refine triple_ite (fun _ => ?_) fun _ => triple_pure _ fun _ hw => hw
  refine triple_ite (fun _ => hfail _) fun _ => ?_
  -- what is kept while the answer is looked at
  refine triple_bind (Q := fun a w => PolledSoFar E first w ∧
    ∀ hash, a = .ok hash → lastNamed first w.trace = (localTip.height, hash))
    (triple_act fun w hw => ⟨?_, ?_⟩) fun a => ?_
  · exact PolledSoFar.log (w := { w with env := (E.blockHash localTip.height w.env).2 })
      hw.polled nofun
  · intro hash hok
    show lastNamed first (w.trace ++ [_]) = _
    rw [lastNamed_concat, hok]
    rfl
  cases a with
  | error e =>
    exact triple_mono (caught_walk walk_polledSoFar e _ _ _) (fun _ hw => hw.1)
      (fun _ _ hw => hw) fun _ hw => hw
  | ok hash =>
    refine triple_ite (fun _ => ?_) fun hsame => ?_
    · exact triple_mono (failAndReturn_walk walk_polledSoFar _ localTip remoteTip)
        (fun _ hw => hw.1) (fun _ _ hw => hw) fun _ hw => hw
    · refine triple_pure _ fun w hw hfollows => ⟨hw.1 hfollows, ?_⟩
      rw [hw.2 hash rfl, not_not.1 hsame]
      rfl

theorem prepare_atNamed (env : E.State) (progress : Progress) :
    Triple (fun w : World E => w = ⟨env, [], progress⟩) prepare
      (fun tips => AtNamed E (E.bestEntry env).asTip tips.1)
      (PolledSoFar E (E.bestEntry env).asTip) := by
  refine triple_bind (Q := fun l w => AtNamed E (E.bestEntry env).asTip l w)
    (triple_act fun w hw _ => ?_) fun l => ?_
  · rw [hw]
    exact ⟨along_nil _, rfl⟩
  refine triple_bind (Q := fun _ => AtNamed E (E.bestEntry env).asTip l)
    (triple_tell fun w hw => hw.log rfl nofun) fun _ => ?_
  refine triple_bind (Q := fun _ => AtNamed E (E.bestEntry env).asTip l)
    (triple_act fun w hw => ?_) fun a => ?_
  · exact AtNamed.log (w := { w with env := (E.bestTip w.env).2 }) hw rfl nofun
  cases a with
  | error e =>
    exact triple_mono (caught_walk walk_polledSoFar e _ _ _) (fun _ hw => hw.polled)
      (fun _ _ hw => hw) fun _ hw => hw
  | ok remoteTip =>
    refine triple_bind (forkPointCheck_atNamed l remoteTip) fun _ => ?_
    refine triple_bind (Q := fun _ => AtNamed E (E.bestEntry env).asTip l)
      (triple_tell fun _ hw => hw) fun _ => ?_
    refine triple_bind (Q := fun _ => AtNamed E (E.bestEntry env).asTip l)
      (triple_tell fun _ hw => hw) fun _ => ?_
    exact triple_pure _ fun _ hw => hw

/-- **In a run whose kernel follows the source**, every re-poll is made at the block named last. -/
theorem run_polledThere (n : Nat) (env : E.State) (progress : Progress)
    (hfollows : Follows (E.bestEntry env).asTip (run E n env progress).2.trace) :
    PolledThere (E.bestEntry env).asTip (run E n env progress).2.trace := by
  have hloop := triple_iter
    (I := fun _ (tips : BlockTip × BlockTip) => AtNamed E (E.bestEntry env).asTip tips.1)
    (fun _ tips => iteration_atNamed tips) n 0
  have hrun : Leaves (run E n env progress) (fun tips => AtNamed E (E.bestEntry env).asTip tips.1)
      (PolledSoFar E (E.bestEntry env).asTip) :=
    triple_bind (prepare_atNamed env progress) hloop _ rfl
  exact leaves_state (leaves_mono hrun (fun _ _ hw => hw.polled) fun _ hw => hw) hfollows

end Following

/-! ## 3. When the two tips agree -/

/-- **`.finished` and the source's tip.** In every run whose kernel follows the source, from any
    chainstate: each `.finished` carries a local tip with the hash of its remote tip if and only if
    the source stands by the block it named last, or by the first tip while it has named none,
    whenever it is asked for its best tip again. -/
theorem finished_agrees_iff (E : Environment) (n : Nat) (env : E.State) (progress : Progress)
    (hfollows : Follows (E.bestEntry env).asTip (run E n env progress).2.trace) :
    (∀ u ∈ updates (run E n env progress).2.trace, u.state = .finished →
      u.tip.hash = u.remoteTip.hash) ↔
    StandsBy (E.bestEntry env).asTip (run E n env progress).2.trace := by
  have hpaired := run_paired n env progress
  have hpolled := run_polledThere n env progress hfollows
  constructor
  · intro hagree before e later htrace l t he hle
    have hlast := hpolled before e later htrace l _ he
    rw [hlast] at hle ⊢
    have hmem : .repolled l (.ok t) ∈ (run E n env progress).2.trace := by
      rw [htrace, he]
      simp
    obtain ⟨p, hp⟩ := hpaired.reported l t hmem hle
    have hsame := hagree ⟨.finished, l, t⟩ (mem_updates.2 ⟨p, hp⟩) rfl
    exact (congrArg Subtype.val hsame).symm
  · rintro hstands ⟨s, l, t⟩ hu rfl
    obtain ⟨p, hp⟩ := mem_updates.1 hu
    obtain ⟨hr, hle⟩ := hpaired.polled l t p hp
    obtain ⟨before, later, htrace⟩ := List.append_of_mem hr
    have hlast := hpolled before _ later htrace l _ rfl
    have hhash := hstands before _ later htrace l t rfl
    rw [hlast] at hhash
    exact Subtype.ext (hhash hle).symm

/-! ## 4. A source that reorganises before the re-poll -/

/-- The kernel is at genesis until it is handed a block, and then at height 1. The source's tip is
    a block at height 1, and at the re-poll the block `fresh`. -/
def oneBlockEnv (fresh : Hash) : Environment where
  State := Bool
  bestEntry connected :=
    if connected then ⟨Hash.repeating 1, 1, 1⟩ else ⟨Hash.repeating 0, 0, 0⟩
  isCancelled s := (false, s)
  bestTip connected := (.ok ⟨if connected then fresh else Hash.repeating 1, 1, none⟩, connected)
  blockHash _ s := (.ok (Hash.repeating 1).val, s)
  block _ s := (.ok ⟨⟨Hash.repeating 1, Hash.repeating 0, 1, 0⟩, []⟩, s)
  processBlock _ _ := ((true, true), true)
  errorDescription _ := none
  interpolation _ := ""

/-- What the run does: it connects the block, asks again and reports. -/
theorem run_oneBlockEnv (fresh : Hash) :
    let first : BlockTip := ⟨Hash.repeating 0, 0, some 0⟩
    let block : Block := ⟨⟨Hash.repeating 1, Hash.repeating 0, 1, 0⟩, []⟩
    let connected : BlockTip := ⟨Hash.repeating 1, 1, some 1⟩
    let remote : BlockTip := ⟨Hash.repeating 1, 1, none⟩
    (run (oneBlockEnv fresh) 2 false ⟨0, 0⟩).2.trace =
      [.yield ⟨.preparing, first, unknownRemoteTip⟩ ⟨0, 0⟩, .resolved (.ok remote),
        .isCancelled false, .blockHash 1 (.ok remote.hash.val), .block remote.hash.val (.ok block),
        .processBlock block true, .yield ⟨.syncing, connected, remote⟩ ⟨1, 1⟩, .isCancelled false,
        .repolled connected (.ok ⟨fresh, 1, none⟩),
        .yield ⟨.finished, connected, ⟨fresh, 1, none⟩⟩ ⟨1, 1⟩, .finish] := rfl

/-- A source that stays with its block. -/
theorem finished_agrees_one_block :
    let trace := (run (oneBlockEnv (Hash.repeating 1)) 2 false ⟨0, 0⟩).2.trace
    (∃ u ∈ updates trace, u.state = .finished) ∧
      ∀ u ∈ updates trace, u.state = .finished → u.tip.hash = u.remoteTip.hash := by
  refine ⟨⟨⟨.finished, ⟨Hash.repeating 1, 1, some 1⟩, ⟨Hash.repeating 1, 1, none⟩⟩, by decide⟩, ?_⟩
  refine (finished_agrees_iff (oneBlockEnv (Hash.repeating 1)) 2 false ⟨0, 0⟩ ?_).2 ?_
  · rw [run_oneBlockEnv]
    simp [Follows, along_cons, along_nil, lastNamed, Event.named?, BlockTip.named]
  · rw [run_oneBlockEnv]
    simp [StandsBy, along_cons, along_nil, lastNamed, Event.named?]

/-- Another block has replaced the source's tip by the time of the re-poll. -/
def reorgEnv : Environment := oneBlockEnv (Hash.repeating 2)

/-- The run reports completion on the block the source has dropped. -/
theorem finished_on_stale_block :
    ∃ u ∈ updates (run reorgEnv 2 false ⟨0, 0⟩).2.trace,
      u.state = .finished ∧ u.tip.hash ≠ u.remoteTip.hash :=
  ⟨⟨.finished, ⟨Hash.repeating 1, 1, some 1⟩, ⟨Hash.repeating 2, 1, none⟩⟩, by decide⟩

end SwiftBitcoinKernel
