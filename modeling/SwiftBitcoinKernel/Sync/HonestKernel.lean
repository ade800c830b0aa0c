/-
  File:      SwiftBitcoinKernel/Sync/HonestKernel.lean
  Subject:   The kernel of `ChainstateManager` is one that follows an honest source.

  What Honest.lean asks of a kernel (`TipKernel`) is proved here of the kernel of Chainman.lean: a
  manager that has indexed nothing but a part of the source's chain takes the next block of that
  chain for its best entry and for its active tip.

  * `OnChain` -- the entries of a growing chain;
  * `Accepts` -- the consensus rules have nothing against its blocks;
  * `Extending` -- the manager is settled, and its index is the active chain, a part of the
    source's;
  * `extending_next` -- processing the next block keeps that, one block further;
  * `chainmanKernel` -- the kernel as a `TipKernel`, and `extending_fresh` its first state.
-/
import SwiftBitcoinKernel.Kernel.Settled
import SwiftBitcoinKernel.Sync.Honest

namespace SwiftBitcoinKernel

open Logic

variable {C : Consensus} {G : GrowingChain} {a : Ambient} {k : Chainman} {x y : BlockIndex}
  {b : Block}

/-! ## 1. Entries of a growing chain -/

/-- Every entry on the line of `x` is the header of the chain's block at its height. -/
def OnChain (G : GrowingChain) (x : BlockIndex) : Prop :=
  ∀ y ∈ x.line, ∃ b, G.At y.depth b ∧ y.label = b.header

theorem onChain_child (hx : OnChain G x) (hb : G.At (x.depth + 1) b) :
    OnChain G (.child x b.header) := by
  intro y hy
  rcases List.mem_cons.1 hy with rfl | hy
  · exact ⟨b, hb, rfl⟩
  · exact hx y hy

/-- A hash determines the height. -/
theorem GrowingChain.at_height_unique {i j : Nat} {c : Block} (hb : G.At i b) (hc : G.At j c)
    (hhash : b.hash = c.hash) : i = j := by
  obtain ⟨m, hm⟩ := hb
  obtain ⟨n, hn⟩ := hc
  have hm' := GrowingChain.getElem?_of_le (Nat.le_max_left m n) hm
  have hn' := GrowingChain.getElem?_of_le (Nat.le_max_right m n) hn
  obtain ⟨hi, _⟩ := List.getElem?_eq_some_iff.1 hm'
  refine (List.getElem?_inj (by simpa using hi) (G.distinct (max m n))).1 ?_
  rw [List.getElem?_map, List.getElem?_map, hm', hn', Option.map_some, Option.map_some, hhash]

theorem OnChain.depth_of_hash (hx : OnChain G x) (hy : y ∈ x.line) {i : Nat} (hb : G.At i b)
    (hhash : y.hash = b.hash) : y.depth = i := by
  obtain ⟨c, hc, hlabel⟩ := hx y hy
  refine GrowingChain.at_height_unique hc hb ?_
  rw [← hhash]
  show c.header.hash = y.label.hash
  rw [hlabel]

/-! ## 2. A chain the consensus rules accept -/

/-- The consensus rules have nothing against a block of the chain, where it stands in it. -/
structure Accepts (C : Consensus) (G : GrowingChain) (a : Ambient) : Prop where
  genesis : ∀ b, G.At 0 b → b.header = C.genesis
  proof : ∀ i b, G.At i b → 0 < C.blockProof b.header
  block : ∀ i b, G.At i b → C.checkBlock b = true
  header : ∀ i b, G.At i b → C.checkBlockHeader b.header = true
  contextualHeader : ∀ x b, OnChain G x → G.At (x.depth + 1) b →
    C.contextualCheckBlockHeader a.now x b.header = true
  contextualBlock : ∀ x b, OnChain G x → G.At (x.depth + 1) b →
    C.contextualCheckBlock (.child x b.header) b = .valid
  connects : ∀ x, OnChain G x → C.connectBlock x = true

/-! ## 3. One block further -/

/-- The manager is settled, and has indexed the active chain alone, which is the source's. -/
structure Extending (C : Consensus) (G : GrowingChain) (k : Chainman) : Prop where
  settled : Settled C k
  indexed : ∀ y ∈ k.blockIndex, y ∈ k.tip.line
  onChain : OnChain G k.tip

theorem extending_fresh (ha : Accepts C G a) : Extending C G (.fresh C) where
  settled := settled_fresh C
  indexed y hy := by
    rw [List.mem_singleton.1 hy]
    exact Lineage.mem_line_self
  onChain y hy := by
    obtain ⟨b, hb⟩ := GrowingChain.exists_at (G := G) (j := 0) (Nat.zero_le _)
    rw [List.mem_singleton.1 hy]
    exact ⟨b, hb, (ha.genesis b hb).symm⟩

theorem Extending.tip_indexed (h : Extending C G k) : k.tip ∈ k.blockIndex :=
  h.settled.data_indexed _ (h.settled.linked_data _ h.settled.tip_linked)

/-- The next block is not indexed yet. -/
theorem Extending.find_next (h : Extending C G k) (hb : G.At (k.tip.depth + 1) b) :
    k.find b.hash = none := by
  cases hfind : k.find b.hash with
  | none => rfl
  | some y =>
    obtain ⟨hy, hhash⟩ := find_some hfind
    have hline := h.indexed y hy
    have hdepth := h.onChain.depth_of_hash hline hb hhash
    have hle := Lineage.depth_le_of_mem_line hline
    omega

/-- Its parent is the tip. -/
theorem Extending.find_parent (h : Extending C G k) (hprev : b.header.prevHash = k.tip.hash) :
    k.find b.header.prevHash = some k.tip := by
  rw [hprev]
  obtain ⟨c, hc, hlabel⟩ := h.onChain k.tip Lineage.mem_line_self
  cases hfind : k.find k.tip.hash with
  | none => exact absurd rfl (find_none hfind h.tip_indexed)
  | some y =>
    obtain ⟨hy, hhash⟩ := find_some hfind
    have htip : k.tip.hash = c.hash := congrArg BlockHeader.hash hlabel
    have hdepth := h.onChain.depth_of_hash (h.indexed y hy) hc (hhash.trans htip)
    rw [Lineage.eq_of_mem_line (h.indexed y hy) hdepth]

/-- The header of the next block is indexed. -/
theorem Extending.acceptBlockHeader_eq (h : Extending C G k) (ha : Accepts C G a)
    (hb : G.At (k.tip.depth + 1) b) (hprev : b.header.prevHash = k.tip.hash) :
    acceptBlockHeader C a b.header k =
      (some (.child k.tip b.header), k.withHeader C (.child k.tip b.header)) := by
  have hself : k.find b.header.hash = none := h.find_next hb
  have hparent := h.find_parent hprev
  have hadd : addToBlockIndex C b.header k =
      (.child k.tip b.header, k.withHeader C (.child k.tip b.header)) := by
    unfold addToBlockIndex
    rw [hself, hparent]
    rfl
  have hgenesis : b.header.hash ≠ C.genesis.hash := by
    obtain ⟨g, hg, hghash⟩ := h.settled.genesis_indexed
    exact fun hgen => find_none hself hg (hghash.trans hgen.symm)
  unfold acceptBlockHeader
  rw [if_neg hgenesis, hself, hparent, hadd]
  simp [ha.header _ b hb, h.settled.tip_valid, ha.contextualHeader _ b h.onChain hb]

/-- **The next block becomes the best entry and the active tip**, and nothing else is indexed. -/
theorem extending_next (h : Extending C G k) (ha : Accepts C G a)
    (hb : G.At (k.tip.depth + 1) b) (hprev : b.header.prevHash = k.tip.hash) :
    (processNewBlock C a b k).1.1 = true ∧
    (processNewBlock C a b k).2.bestHeader = .child k.tip b.header ∧
    Extending C G (processNewBlock C a b k).2 := by
  have hheader := h.acceptBlockHeader_eq ha hb hprev
  have hchain := onChain_child h.onChain hb
  have hvalid := ha.contextualBlock _ b h.onChain hb
  have hdata : .child k.tip b.header ∉ (k.withHeader C (.child k.tip b.header)).haveData :=
    fun hd => Lineage.child_not_mem_line (h.indexed _ (h.settled.data_indexed _ hd))
  have haccept : acceptBlock C a b k = ((true, true), receivedBlockTransactions C
      (.child k.tip b.header) (k.withHeader C (.child k.tip b.header))) := by
    unfold acceptBlock
    rw [hheader]
    dsimp only
    rw [if_neg hdata, hvalid]
  have hrun : processNewBlock C a b k = ((true, true), activateBestChain C a
      (receivedBlockTransactions C (.child k.tip b.header)
        (k.withHeader C (.child k.tip b.header)))) := by
    unfold processNewBlock
    rw [ha.block _ b hb, haccept]
    rfl
  have hwork : C.chainWork k.tip < C.chainWork (.child k.tip b.header) :=
    Nat.lt_add_of_pos_right (ha.proof _ b hb)
  have hadvancing : Advancing C k b k.tip :=
    { new := h.find_next hb
      parent := h.find_parent hprev
      work := by rw [h.settled.header]; exact hwork
      connects := fun y hy => ha.connects y fun z hz => hchain z (Lineage.mem_line_trans hy hz) }
  have hok : (processNewBlock C a b k).1.1 = true := by rw [hrun]
  have hbest := processNewBlock_advances hadvancing hok
  have horderly : Orderly C a k (.block b) := by
    intro _ _ x hx
    rw [hheader] at hx
    cases hx
    exact .inr ⟨hvalid, k.tip, rfl, h.settled.tip_linked, .inl rfl⟩
  have hsettled := settled_processNewBlock h.settled horderly
  have htip : (processNewBlock C a b k).2.tip = .child k.tip b.header :=
    hsettled.header.symm.trans hbest
  have hindex : (processNewBlock C a b k).2.blockIndex =
      k.blockIndex ++ [.child k.tip b.header] := by
    rw [hrun]
    exact activateBestChain_blockIndex.trans receivedBlockTransactions_same.blockIndex
  refine ⟨hok, hbest, hsettled, ?_, by rw [htip]; exact hchain⟩
  intro y hy
  rw [hindex] at hy
  rw [htip]
  rcases List.mem_append.1 hy with hy | hy
  · exact List.mem_cons_of_mem _ (h.indexed y hy)
  · rw [List.mem_singleton.1 hy]
    exact Lineage.mem_line_self

/-- **The kernel follows an honest source**: `Chainman` is a kernel as Honest.lean asks for. The
    `j`-th call finds the surroundings `ambient j`. -/
def chainmanKernel (C : Consensus) (G : GrowingChain) (ambient : Nat → Ambient)
    (ha : ∀ j, Accepts C G (ambient j)) : TipKernel G where
  State := Chainman × Nat
  bestEntry s := s.1.bestEntry
  processBlock b s :=
    ((processNewBlock C (ambient s.2) b s.1).1,
      ((processNewBlock C (ambient s.2) b s.1).2, s.2 + 1))
  Good s := Extending C G s.1
  connects s b hgood hb hprev := by
    have hentry := hgood.settled.bestEntry_eq
    rw [hentry] at hb hprev ⊢
    obtain ⟨hok, hbest, hnext⟩ := extending_next hgood (ha s.2) hb hprev
    refine ⟨hok, ?_, hnext⟩
    unfold Chainman.bestEntry
    rw [hbest]
    rfl

end SwiftBitcoinKernel
