/-
  File:      SwiftBitcoinKernel/Kernel/BestHeader.lean
  Subject:   Where the best header goes when a block is processed.

  `bestEntry` is the best header, not the tip of the active chain. It moves forward in
  `addToBlockIndex` alone, and back in `recalculateBestHeader` alone, which runs when a block on
  its own line fails.

  * `acceptBlockHeader_cases` -- everything `AcceptBlockHeader` can do;
  * `ActivationKeeps`, `activateBestChain_keeps` -- the rule for what activation keeps;
  * `activateBestChain_bestHeader` -- activation leaves the best header alone while every block
    on its line connects, whatever the other candidates do;
  * `Advancing`, `processNewBlock_advances` -- a block that is new, has more work than the best
    header and lies on a line that connects becomes the best header.
-/
import SwiftBitcoinKernel.Kernel.Chainman

namespace SwiftBitcoinKernel

open Logic

variable {C : Consensus} {a : Ambient} {k k' : Chainman} {x y : BlockIndex}

/-! ## 1. Headers -/

/-- A new entry `x`, as `addToBlockIndex` records it. -/
def Chainman.withHeader (C : Consensus) (k : Chainman) (x : BlockIndex) : Chainman :=
  { k with
    blockIndex := k.blockIndex ++ [x]
    bestHeader := if C.chainWork k.bestHeader < C.chainWork x then x else k.bestHeader }

theorem find_some {hash : Hash} (h : k.find hash = some x) :
    x ∈ k.blockIndex ∧ x.hash = hash := by
  unfold Chainman.find at h
  have hhash := List.find?_some h
  exact ⟨List.mem_of_find?_eq_some h, of_decide_eq_true hhash⟩

theorem find_none {hash : Hash} (h : k.find hash = none) (hx : x ∈ k.blockIndex) :
    x.hash ≠ hash := by
  have := List.find?_eq_none.1 h x hx
  simpa using this

/-- **Everything `AcceptBlockHeader` can do**: reject, find the header known, or index it. A header
    that is found is not marked as failed unless it is the genesis header, which no check stops. -/
theorem acceptBlockHeader_cases {header : BlockHeader} {o : Option BlockIndex}
    (h : acceptBlockHeader C a header k = (o, k')) :
    (o = none ∧ k' = k) ∨
    (∃ x, o = some x ∧ k' = k ∧ k.find header.hash = some x ∧
      (x ∉ k.failed ∨ header.hash = C.genesis.hash)) ∨
    (∃ x, o = some x ∧ k' = k.withHeader C x ∧ k.find header.hash = none ∧ x.label = header ∧
      ((∃ prev, k.find header.prevHash = some prev ∧ x = .child prev header ∧
        (prev ∉ k.failed ∨ header.hash = C.genesis.hash)) ∨
      (k.find header.prevHash = none ∧ header.hash = C.genesis.hash))) := by
  unfold acceptBlockHeader at h
  by_cases hgen : header.hash = C.genesis.hash
  · simp only [hgen, if_true] at h
    unfold addToBlockIndex at h
    cases hself : k.find header.hash with
    | some x =>
      rw [hself] at h
      cases h
      exact .inr (.inl ⟨x, rfl, rfl, rfl, .inr hgen⟩)
    | none =>
      rw [hself] at h
      cases hprev : k.find header.prevHash with
      | none =>
        rw [hprev] at h
        cases h
        exact .inr (.inr ⟨.root header, rfl, rfl, rfl, rfl, .inr ⟨rfl, hgen⟩⟩)
      | some prev =>
        rw [hprev] at h
        cases h
        exact .inr (.inr ⟨.child prev header, rfl, rfl, rfl, rfl,
          .inl ⟨prev, rfl, rfl, .inr hgen⟩⟩)
  · simp only [hgen, if_false] at h
    cases hself : k.find header.hash with
    | some x =>
      simp only [hself] at h
      split at h
      · cases h
        exact .inl ⟨rfl, rfl⟩
      · rename_i hfailed
        cases h
        exact .inr (.inl ⟨x, rfl, rfl, rfl, .inl hfailed⟩)
    | none =>
      simp only [hself] at h
      split at h
      · cases h
        exact .inl ⟨rfl, rfl⟩
      cases hprev : k.find header.prevHash with
      | none =>
        simp only [hprev] at h
        cases h
        exact .inl ⟨rfl, rfl⟩
      | some prev =>
        simp only [hprev] at h
        split at h
        · cases h
          exact .inl ⟨rfl, rfl⟩
        split at h
        · cases h
          exact .inl ⟨rfl, rfl⟩
        · rename_i hfailed _
          unfold addToBlockIndex at h
          rw [hself, hprev] at h
          cases h
          exact .inr (.inr ⟨.child prev header, rfl, rfl, rfl, rfl,
            .inl ⟨prev, rfl, rfl, .inl hfailed⟩⟩)

/-! ## 2. What storing a block and activating a chain leave alone -/

/-- The parts of the manager that linking stored blocks does not touch. -/
structure SameIndex (k k' : Chainman) : Prop where
  blockIndex : k'.blockIndex = k.blockIndex
  bestHeader : k'.bestHeader = k.bestHeader
  tip : k'.tip = k.tip

theorem tryAddBlockIndexCandidate_same : SameIndex k (tryAddBlockIndexCandidate C x k) := by
  unfold tryAddBlockIndexCandidate
  split
  · exact ⟨rfl, rfl, rfl⟩
  · split <;> exact ⟨rfl, rfl, rfl⟩

theorem linkQueue_same (fuel : Nat) (queue : List BlockIndex) :
    SameIndex k (linkQueue C fuel queue k) := by
  induction fuel generalizing queue k with
  | zero => exact ⟨rfl, rfl, rfl⟩
  | succ fuel ih =>
    cases queue with
    | nil => exact ⟨rfl, rfl, rfl⟩
    | cons x queue =>
      unfold linkQueue
      have hadd := tryAddBlockIndexCandidate_same (C := C) (x := x)
        (k := { k with linked := k.linked ++ [x] })
      have hrest := ih (queue ++ (tryAddBlockIndexCandidate C x
          { k with linked := k.linked ++ [x] }).unlinked.filter
            fun y => decide (y.parent? = some x))
        (k := { tryAddBlockIndexCandidate C x { k with linked := k.linked ++ [x] } with
          unlinked := (tryAddBlockIndexCandidate C x
            { k with linked := k.linked ++ [x] }).unlinked.filter fun y =>
              decide (y.parent? ≠ some x) })
      exact ⟨hrest.blockIndex.trans hadd.blockIndex, hrest.bestHeader.trans hadd.bestHeader,
        hrest.tip.trans hadd.tip⟩

theorem receivedBlockTransactions_same : SameIndex k (receivedBlockTransactions C x k) := by
  have hqueue := linkQueue_same (C := C) (k := { k with haveData := k.haveData ++ [x] })
    (k.unlinked.length + 1) [x]
  unfold receivedBlockTransactions
  cases x.parent? with
  | none => exact ⟨hqueue.blockIndex, hqueue.bestHeader, hqueue.tip⟩
  | some prev =>
    dsimp only
    split
    · exact ⟨hqueue.blockIndex, hqueue.bestHeader, hqueue.tip⟩
    · split <;> exact ⟨rfl, rfl, rfl⟩

/-- **A rule for activation**: an assertion on the manager that dropping candidates, moving the tip
    and failing a block that does not connect all keep. -/
structure ActivationKeeps (C : Consensus) (P : Chainman → Prop) : Prop where
  drop : ∀ k failed unlinked candidates, P k →
    P { k with failed := failed, unlinked := unlinked, candidates := candidates }
  move : ∀ k tip candidates, P k → P { k with tip := tip, candidates := candidates }
  fail : ∀ k x, C.connectBlock x = false → P k → P (invalidBlockFound C x k)

section Activation

variable {P : Chainman → Prop}

theorem findMostWorkChain_keeps (hP : ActivationKeeps C P) (fuel : Nat) (h : P k) :
    P (findMostWorkChain C fuel k).2 := by
  induction fuel generalizing k with
  | zero => exact h
  | succ fuel ih =>
    unfold findMostWorkChain
    split
    · exact h
    · dsimp only
      split
      · exact h
      · exact ih (hP.drop k _ _ _ h)

theorem connectTips_keeps (hP : ActivationKeeps C P) (oldTip : BlockIndex)
    (path : List BlockIndex) (h : P k) : P (connectTips C oldTip path k).1 := by
  induction path generalizing k with
  | nil => exact h
  | cons x path ih =>
    unfold connectTips
    cases hx : C.connectBlock x with
    | true =>
      have hmoved : P (pruneBlockIndexCandidates C { k with tip := x }) := hP.move k x _ h
      rw [if_pos rfl]
      dsimp only
      split
      · exact hmoved
      · exact ih hmoved
    | false =>
      rw [if_neg Bool.false_ne_true]
      exact hP.fail k x hx h

theorem orMostWorkChain_keeps (hP : ActivationKeeps C P) (mostWork : Option BlockIndex) (h : P k) :
    P (orMostWorkChain C mostWork k).2 := by
  cases mostWork with
  | some m => exact h
  | none => exact findMostWorkChain_keeps hP _ h

theorem activate_keeps (hP : ActivationKeeps C P) (fuel : Nat) (start : BlockIndex)
    (mostWork : Option BlockIndex) (h : P k) : P (activate C a fuel start mostWork k) := by
  induction fuel generalizing k start mostWork with
  | zero => exact h
  | succ fuel ih =>
    unfold activate
    have hfound := orMostWorkChain_keeps hP mostWork h
    cases hm : orMostWorkChain C mostWork k with
    | mk found k₁ =>
      rw [hm] at hfound
      cases found with
      | none => exact hfound
      | some m =>
        have hstep : P (activateBestChainStep C m k₁).1 :=
          connectTips_keeps hP _ _ (hP.move k₁ _ k₁.candidates hfound)
        dsimp only
        generalize activateBestChainStep C m k₁ = r at hstep
        generalize (if r.2 = true then none else some m) = next
        split
        · exact hfound
        split
        · exact ih start next hstep
        split
        · exact hstep
        split
        · exact hstep
        · exact ih r.1.tip next hstep

theorem activateBestChain_keeps (hP : ActivationKeeps C P) (h : P k) :
    P (activateBestChain C a k) := activate_keeps hP _ _ _ h

end Activation

/-- A failed block off the best header's line does not move it. -/
theorem invalidBlockFound_bestHeader (h : x ∉ k.bestHeader.line) :
    (invalidBlockFound C x k).bestHeader = k.bestHeader := by
  unfold invalidBlockFound invalidChainFound
  dsimp only
  rw [if_neg h]

theorem invalidBlockFound_blockIndex : (invalidBlockFound C x k).blockIndex = k.blockIndex := by
  unfold invalidBlockFound invalidChainFound
  dsimp only
  split <;> rfl

/-- **Activation and the best header**: while every block on the best header's line connects,
    activation does not move it, whatever the other candidates turn out to be. -/
theorem activateBestChain_bestHeader (h : ∀ y ∈ k.bestHeader.line, C.connectBlock y = true) :
    (activateBestChain C a k).bestHeader = k.bestHeader := by
  have hP : ActivationKeeps C fun k' => k'.bestHeader = k.bestHeader := by
    refine ⟨fun _ _ _ _ hk => hk, fun _ _ _ hk => hk, fun k' x hx hk => ?_⟩
    refine (invalidBlockFound_bestHeader fun hline => ?_).trans hk
    rw [hk] at hline
    rw [h x hline] at hx
    cases hx
  exact activateBestChain_keeps hP rfl

/-- Activation indexes nothing. -/
theorem activateBestChain_blockIndex : (activateBestChain C a k).blockIndex = k.blockIndex := by
  have hP : ActivationKeeps C fun k' => k'.blockIndex = k.blockIndex :=
    ⟨fun _ _ _ _ hk => hk, fun _ _ _ hk => hk,
      fun _ _ _ hk => invalidBlockFound_blockIndex.trans hk⟩
  exact activateBestChain_keeps hP rfl

/-! ## 3. Blocks -/

/-- Everything `AcceptBlock` can do once the header has been looked at. -/
theorem acceptBlock_cases {block : Block} {o : Option BlockIndex}
    (h : acceptBlockHeader C a block.header k = (o, k')) :
    (o = none ∧ acceptBlock C a block k = ((false, false), k')) ∨
    ∃ x, o = some x ∧
      ((x ∈ k'.haveData ∧ acceptBlock C a block k = ((true, false), k')) ∨
      (x ∉ k'.haveData ∧ C.contextualCheckBlock x block = .valid ∧
        acceptBlock C a block k = ((true, true), receivedBlockTransactions C x k')) ∨
      (x ∉ k'.haveData ∧ C.contextualCheckBlock x block = .mutated ∧
        acceptBlock C a block k = ((false, false), k')) ∨
      (x ∉ k'.haveData ∧ C.contextualCheckBlock x block = .invalid ∧
        acceptBlock C a block k = ((false, false), invalidBlockFound C x k'))) := by
  unfold acceptBlock
  rw [h]
  cases o with
  | none => exact .inl ⟨rfl, rfl⟩
  | some x =>
    refine .inr ⟨x, rfl, ?_⟩
    dsimp only
    by_cases hdata : x ∈ k'.haveData
    · rw [if_pos hdata]
      exact .inl ⟨hdata, rfl⟩
    · rw [if_neg hdata]
      cases hbody : C.contextualCheckBlock x block with
      | valid => exact .inr (.inl ⟨hdata, rfl, rfl⟩)
      | mutated => exact .inr (.inr (.inl ⟨hdata, rfl, rfl⟩))
      | invalid => exact .inr (.inr (.inr ⟨hdata, rfl, rfl⟩))

/-- `ProcessNewBlock` is `AcceptBlock`, followed by activation where that succeeds. -/
theorem processNewBlock_cases (C : Consensus) (a : Ambient) (block : Block) (k : Chainman) :
    (C.checkBlock block = false ∧ processNewBlock C a block k = ((false, false), k)) ∨
    (C.checkBlock block = true ∧ (acceptBlock C a block k).1.1 = false ∧
      processNewBlock C a block k = acceptBlock C a block k) ∨
    (C.checkBlock block = true ∧ (acceptBlock C a block k).1.1 = true ∧
      processNewBlock C a block k =
        ((acceptBlock C a block k).1, activateBestChain C a (acceptBlock C a block k).2)) := by
  unfold processNewBlock
  cases C.checkBlock block with
  | false => exact .inl ⟨rfl, rfl⟩
  | true =>
    cases haccept : (acceptBlock C a block k).1.1 with
    | false => exact .inr (.inl ⟨rfl, rfl, by simp [haccept]⟩)
    | true => exact .inr (.inr ⟨rfl, rfl, by simp [haccept]⟩)

/-- The block is new, its chain has more work than the best header's, and no block on its line fails
    to connect. -/
structure Advancing (C : Consensus) (k : Chainman) (block : Block) (prev : BlockIndex) : Prop where
  new : k.find block.hash = none
  parent : k.find block.header.prevHash = some prev
  work : C.chainWork k.bestHeader < C.chainWork (.child prev block.header)
  connects : ∀ y ∈ (Lineage.child prev block.header).line, C.connectBlock y = true

/-- Accepted to disk, such a block is the best header. -/
theorem acceptBlock_advances {block : Block} {prev : BlockIndex} (h : Advancing C k block prev)
    (hok : (acceptBlock C a block k).1.1 = true) :
    (acceptBlock C a block k).2.bestHeader = .child prev block.header := by
  cases hheader : acceptBlockHeader C a block.header k with
  | mk o k₁ =>
    have hnew : k.find block.header.hash = none := h.new
    have hbest : ∀ x, o = some x → k₁.bestHeader = .child prev block.header := by
      rintro x rfl
      rcases acceptBlockHeader_cases hheader with
        ⟨hnone, _⟩ | ⟨_, _, _, hfind, _⟩ | ⟨y, _, rfl, _, _, hy⟩
      · cases hnone
      · rw [hnew] at hfind
        cases hfind
      · have hyeq : y = .child prev block.header := by
          rcases hy with ⟨prev', hprev', rfl, _⟩ | ⟨hnone, _⟩
          · rw [h.parent] at hprev'
            cases hprev'
            rfl
          · rw [h.parent] at hnone
            cases hnone
        unfold Chainman.withHeader
        rw [hyeq, if_pos h.work]
    rcases acceptBlock_cases hheader with
      ⟨_, hr⟩ | ⟨x, hx, ⟨_, hr⟩ | ⟨_, _, hr⟩ | ⟨_, _, hr⟩ | ⟨_, _, hr⟩⟩
    · rw [hr] at hok
      cases hok
    · rw [hr]
      exact hbest x hx
    · rw [hr]
      exact receivedBlockTransactions_same.bestHeader.trans (hbest x hx)
    · rw [hr] at hok
      cases hok
    · rw [hr] at hok
      cases hok

/-- **An accepted block of that kind becomes the best header.** -/
theorem processNewBlock_advances {block : Block} {prev : BlockIndex}
    (h : Advancing C k block prev) (hok : (processNewBlock C a block k).1.1 = true) :
    (processNewBlock C a block k).2.bestHeader = .child prev block.header := by
  rcases processNewBlock_cases C a block k with ⟨_, hr⟩ | ⟨_, hfalse, hr⟩ | ⟨_, htrue, hr⟩
  · rw [hr] at hok
    cases hok
  · rw [hr, hfalse] at hok
    cases hok
  · have haccept := acceptBlock_advances h htrue
    rw [hr]
    dsimp only
    rw [activateBestChain_bestHeader (by rw [haccept]; exact h.connects)]
    exact haccept

end SwiftBitcoinKernel
