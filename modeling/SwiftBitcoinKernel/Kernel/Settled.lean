/-
  File:      SwiftBitcoinKernel/Kernel/Settled.lean
  Subject:   Calls after which the best header is the tip of the active chain.

  The best header follows headers, the active chain follows bodies. The two coincide along a
  history of calls in which no header runs ahead of its body:

  * `Settled` -- best header and tip coincide, no valid header has more work, and the tip is the
    one candidate; with what the bookkeeping of the index needs to keep it so;
  * `Orderly` -- the calls that cannot part the two: a header call that moves no best header; a
    block that moves it and is then refused for good, or whose branch is complete and connects;
  * `settled_fresh`, `settled_perform` -- a fresh manager is settled, and an orderly call leaves
    it so; `Settled.bestEntry_eq` -- `bestEntry` is then the tip of `activeChain`.
-/
import Mathlib.Data.List.Nodup
import SwiftBitcoinKernel.Kernel.BestHeader

namespace SwiftBitcoinKernel

open Logic

variable {C : Consensus} {a : Ambient} {k k' : Chainman} {x y : BlockIndex}

/-! ## 1. The invariant -/

/-- The bookkeeping of the block index: lines are indexed whole, failure is inherited, and an entry
    is linked only if its whole line is stored. -/
structure WellFormed (C : Consensus) (k : Chainman) : Prop where
  line_indexed : ∀ x ∈ k.blockIndex, ∀ y ∈ x.line, y ∈ k.blockIndex
  failed_indexed : ∀ x ∈ k.failed, x ∈ k.blockIndex
  failed_inherited : ∀ x ∈ k.blockIndex, ∀ y ∈ x.line, y ∈ k.failed → x ∈ k.failed
  data_indexed : ∀ x ∈ k.haveData, x ∈ k.blockIndex
  linked_data : ∀ x ∈ k.linked, x ∈ k.haveData
  linked_line : ∀ x ∈ k.linked, ∀ y ∈ x.line, y ∈ k.linked
  unlinked_data : ∀ x ∈ k.unlinked, x ∈ k.haveData
  unlinked_fresh : ∀ x ∈ k.unlinked, x ∉ k.linked
  unlinked_nodup : k.unlinked.Nodup
  genesis_indexed : ∃ x ∈ k.blockIndex, x.hash = C.genesis.hash
  genesis_data : ∀ x ∈ k.blockIndex, x.hash = C.genesis.hash → x ∈ k.haveData

/-- The best header and the active chain agree, and nothing is left to activate. -/
structure Settled (C : Consensus) (k : Chainman) : Prop extends WellFormed C k where
  header : k.bestHeader = k.tip
  heaviest : ∀ x ∈ k.blockIndex, x ∉ k.failed → C.chainWork x ≤ C.chainWork k.tip
  unlinked_light : ∀ x ∈ k.unlinked, C.chainWork x ≤ C.chainWork k.tip
  tip_linked : k.tip ∈ k.linked
  tip_valid : k.tip ∉ k.failed
  tip_candidate : k.tip ∈ k.candidates
  only_candidate : ∀ x ∈ k.candidates, x = k.tip

theorem settled_fresh (C : Consensus) : Settled C (.fresh C) where
  line_indexed := by simp [Chainman.fresh, Lineage.line]
  failed_indexed := by simp [Chainman.fresh]
  failed_inherited := by simp [Chainman.fresh]
  data_indexed := by simp [Chainman.fresh]
  linked_data := by simp [Chainman.fresh]
  linked_line := by simp [Chainman.fresh, Lineage.line]
  unlinked_data := by simp [Chainman.fresh]
  unlinked_fresh := by simp [Chainman.fresh]
  unlinked_nodup := List.nodup_nil
  genesis_indexed := ⟨.root C.genesis, List.mem_singleton_self _, rfl⟩
  genesis_data := by simp [Chainman.fresh]
  header := rfl
  heaviest := by simp [Chainman.fresh]
  unlinked_light := by simp [Chainman.fresh]
  tip_linked := List.mem_singleton_self _
  tip_valid := List.not_mem_nil
  tip_candidate := List.mem_singleton_self _
  only_candidate := by simp [Chainman.fresh]

/-- `bestEntry` is the tip of `activeChain`. -/
theorem Settled.bestEntry_eq (h : Settled C k) : k.bestEntry = k.activeTip := by
  unfold Chainman.bestEntry Chainman.activeTip
  rw [h.header]

/-- Every block of the active chain is stored. -/
theorem Settled.active_data (h : Settled C k) (hy : y ∈ k.tip.line) : y ∈ k.haveData :=
  h.linked_data y (h.linked_line _ h.tip_linked y hy)

/-- A header that was found and has no body yet is a valid one. -/
theorem WellFormed.not_failed_of_find (h : WellFormed C k) {hash : Hash}
    (hfind : k.find hash = some x) (hok : x ∉ k.failed ∨ hash = C.genesis.hash)
    (hdata : x ∉ k.haveData) : x ∉ k.failed := by
  rcases hok with hok | hgen
  · exact hok
  · obtain ⟨hx, hhash⟩ := find_some hfind
    exact absurd (h.genesis_data x hx (hhash.trans hgen)) hdata

/-! ## 2. The choice of a candidate -/

theorem worse_iff : worse C k x y = true ↔ C.chainWork x < C.chainWork y ∨
    (C.chainWork x = C.chainWork y ∧ k.linked.idxOf y < k.linked.idxOf x) := by
  simp [worse]

theorem worse_irrefl : worse C k x x = false := by
  simp [worse]

theorem worse_asymm (h : worse C k x y = true) : worse C k y x = false := by
  rw [worse_iff] at h
  rw [← Bool.not_eq_true, worse_iff]
  omega

/-- One round of choosing: the best so far and the next candidate give the better of the two. -/
structure Chooses (C : Consensus) (k : Chainman)
    (f : Option BlockIndex → BlockIndex → Option BlockIndex) : Prop where
  first : ∀ z, f none z = some z
  better : ∀ y z, worse C k y z = true → f (some y) z = some z
  kept : ∀ y z, worse C k y z = false → f (some y) z = some y

/-- Along the list the best so far is `x`, or `x` is still to come and beats it. -/
theorem Chooses.foldl {f : Option BlockIndex → BlockIndex → Option BlockIndex}
    (hf : Chooses C k f) (l : List BlockIndex) (acc : Option BlockIndex)
    (hl : ∀ y ∈ l, y = x ∨ worse C k y x = true) (hacc : ∀ y ∈ acc, y = x ∨ worse C k y x = true)
    (hmem : x ∈ l ∨ acc = some x) : l.foldl f acc = some x := by
  induction l generalizing acc with
  | nil =>
    rcases hmem with hmem | rfl
    · cases hmem
    · rfl
  | cons z l ih =>
    have hz := hl z List.mem_cons_self
    have hl' : ∀ y ∈ l, y = x ∨ worse C k y x = true :=
      fun y hy => hl y (List.mem_cons_of_mem _ hy)
    have hmem' : z = x ∨ x ∈ l ∨ acc = some x := by
      rcases hmem with hmem | hmem
      · rcases List.mem_cons.1 hmem with rfl | hmem
        · exact .inl rfl
        · exact .inr (.inl hmem)
      · exact .inr (.inr hmem)
    -- the next best is `z` or what was there
    have htake : ∀ y, (y = x ∨ worse C k y x = true) → (y = x ∨ x ∈ l) →
        l.foldl f (some y) = some x := by
      intro y hy hor
      refine ih (some y) hl' (fun w hw => ?_) ?_
      · cases hw
        exact hy
      · rcases hor with rfl | hor
        · exact .inr rfl
        · exact .inl hor
    rw [List.foldl_cons]
    cases acc with
    | none =>
      rw [hf.first]
      refine htake z hz ?_
      rcases hmem' with h | h | h
      · exact .inl h
      · exact .inr h
      · cases h
    | some w =>
      have hw := hacc w rfl
      cases hworse : worse C k w z with
      | true =>
        rw [hf.better w z hworse]
        refine htake z hz ?_
        rcases hmem' with h | h | h
        · exact .inl h
        · exact .inr h
        · -- `x` itself is never displaced
          cases h
          rcases hz with rfl | hz
          · exact .inl rfl
          · rw [worse_asymm hz] at hworse
            cases hworse
      | false =>
        rw [hf.kept w z hworse]
        refine htake w hw ?_
        rcases hmem' with rfl | h | h
        · rcases hw with rfl | hw
          · exact .inl rfl
          · rw [hw] at hworse
            cases hworse
        · exact .inr h
        · cases h
          exact .inl rfl

/-- The candidate that all others are worse than is the one chosen. -/
theorem bestCandidate_eq (hx : x ∈ k.candidates)
    (hbest : ∀ y ∈ k.candidates, y = x ∨ worse C k y x = true) : bestCandidate C k = some x := by
  refine Chooses.foldl (C := C) (k := k) ⟨fun _ => rfl, fun y z h => ?_, fun y z h => ?_⟩
    k.candidates none hbest (by simp) (.inl hx)
  · exact if_pos h
  · exact if_neg (by rw [h]; exact Bool.false_ne_true)

/-- A candidate that beats all others, with a whole and valid line, is the chain to activate. -/
theorem findMostWorkChain_eq (fuel : Nat) (hx : x ∈ k.candidates)
    (hbest : ∀ y ∈ k.candidates, y = x ∨ worse C k y x = true)
    (hline : ∀ y ∈ x.line, y ∉ k.tip.line → y ∉ k.failed ∧ y ∈ k.haveData) :
    findMostWorkChain C (fuel + 1) k = (some x, k) := by
  unfold findMostWorkChain
  rw [bestCandidate_eq hx hbest]
  have hclean : (x.line.takeWhile fun y => !k.onActiveChain y).find?
      (fun y => decide (y ∈ k.failed ∨ y ∉ k.haveData)) = none := by
    rw [List.find?_eq_none]
    intro y hy
    have hoff : y ∉ k.tip.line := by
      have := List.mem_takeWhile_imp hy
      simpa [Chainman.onActiveChain] using this
    obtain ⟨hvalid, hdata⟩ := hline y ((List.takeWhile_sublist _).subset hy) hoff
    simp [hvalid, hdata]
  dsimp only
  rw [hclean]

/-- Activation has at least two rounds. -/
theorem WellFormed.rounds (h : WellFormed C k) :
    ∃ n, (k.blockIndex.length + 1) * (k.blockIndex.length + 1) = n + 2 := by
  obtain ⟨x, hx, _⟩ := h.genesis_indexed
  have hlen : 2 ≤ k.blockIndex.length + 1 := Nat.succ_le_succ (List.length_pos_of_mem hx)
  have hsq := Nat.mul_le_mul hlen hlen
  exact ⟨(k.blockIndex.length + 1) * (k.blockIndex.length + 1) - 2, by omega⟩

theorem Settled.findMostWorkChain_eq (h : Settled C k) (fuel : Nat) :
    findMostWorkChain C (fuel + 1) k = (some k.tip, k) :=
  SwiftBitcoinKernel.findMostWorkChain_eq fuel h.tip_candidate
    (fun y hy => .inl (h.only_candidate y hy)) (fun _ hy hoff => absurd hy hoff)

/-- A settled manager is at the end of any activation. -/
theorem Settled.activate_eq (h : Settled C k) (fuel : Nat) (start : BlockIndex) :
    activate C a (fuel + 1) start none k = k := by
  unfold activate orMostWorkChain
  rw [h.findMostWorkChain_eq]
  dsimp only
  rw [if_pos rfl]

/-- **A settled manager has nothing to activate.** -/
theorem Settled.activateBestChain_eq (h : Settled C k) : activateBestChain C a k = k := by
  unfold activateBestChain
  obtain ⟨n, hn⟩ := h.rounds
  rw [hn]
  exact h.activate_eq (n + 1) k.tip

/-! ## 3. A new header -/

section NewHeader

variable {prev : BlockIndex} {header : BlockHeader}

/-- What `AcceptBlockHeader` has checked of a header it indexes. -/
structure Fresh (C : Consensus) (k : Chainman) (prev : BlockIndex) (header : BlockHeader) :
    Prop where
  new : k.find header.hash = none
  prev_indexed : prev ∈ k.blockIndex
  prev_valid : prev ∉ k.failed

theorem Fresh.not_indexed (hf : Fresh C k prev header) :
    Lineage.child prev header ∉ k.blockIndex := fun h => find_none hf.new h rfl

/-- The index with one more header, whatever becomes of the best header. -/
theorem wellFormed_withHeader (h : WellFormed C k) (hf : Fresh C k prev header) :
    WellFormed C (k.withHeader C (.child prev header)) := by
  have hnew := hf.not_indexed
  refine { h with line_indexed := ?_, failed_indexed := ?_, failed_inherited := ?_,
                  data_indexed := ?_, genesis_indexed := ?_, genesis_data := ?_ }
  · intro x hx y hy
    rcases List.mem_append.1 hx with hx | hx
    · exact List.mem_append_left _ (h.line_indexed x hx y hy)
    · rw [List.mem_singleton.1 hx] at hy
      rcases List.mem_cons.1 hy with rfl | hy
      · exact List.mem_append_right _ (List.mem_singleton_self _)
      · exact List.mem_append_left _ (h.line_indexed prev hf.prev_indexed y hy)
  · intro x hx
    exact List.mem_append_left _ (h.failed_indexed x hx)
  · intro x hx y hy hfail
    rcases List.mem_append.1 hx with hx | hx
    · exact h.failed_inherited x hx y hy hfail
    · -- the line of the new header is valid: its parent is
      rw [List.mem_singleton.1 hx] at hy
      rcases List.mem_cons.1 hy with rfl | hy
      · exact absurd (h.failed_indexed _ hfail) hnew
      · exact absurd (h.failed_inherited prev hf.prev_indexed y hy hfail) hf.prev_valid
  · intro x hx
    exact List.mem_append_left _ (h.data_indexed x hx)
  · obtain ⟨g, hg, hhash⟩ := h.genesis_indexed
    exact ⟨g, List.mem_append_left _ hg, hhash⟩
  · intro x hx hhash
    rcases List.mem_append.1 hx with hx | hx
    · exact h.genesis_data x hx hhash
    · obtain ⟨g, hg, hghash⟩ := h.genesis_indexed
      rw [List.mem_singleton.1 hx] at hhash
      exact absurd (hghash.trans hhash.symm) (find_none hf.new hg)

/-- A header with no more work than the tip changes nothing else. -/
theorem settled_withHeader (h : Settled C k) (hf : Fresh C k prev header)
    (hlight : C.chainWork (.child prev header) ≤ C.chainWork k.tip) :
    Settled C (k.withHeader C (.child prev header)) := by
  have hbest : (k.withHeader C (.child prev header)).bestHeader = k.tip := by
    unfold Chainman.withHeader
    rw [h.header, if_neg (Nat.not_lt.2 hlight)]
  refine { wellFormed_withHeader h.toWellFormed hf, h with header := hbest, heaviest := ?_ }
  intro x hx hvalid
  rcases List.mem_append.1 hx with hx | hx
  · exact h.heaviest x hx hvalid
  · rw [List.mem_singleton.1 hx]
    exact hlight

end NewHeader

/-! ## 4. A body that does not outweigh the tip -/

/-- A settled manager in the middle of `ReceivedBlockTransactions`, with `queue` still to link. -/
structure Linking (C : Consensus) (queue : List BlockIndex) (k : Chainman) : Prop
    extends Settled C k where
  queue_data : ∀ y ∈ queue, y ∈ k.haveData
  queue_light : ∀ y ∈ queue, C.chainWork y ≤ C.chainWork k.tip
  queue_parent : ∀ y ∈ queue, ∀ p, y.parent? = some p → p ∈ k.linked
  queue_fresh : ∀ y ∈ queue, y ∉ k.linked
  pending_nodup : (queue ++ k.unlinked).Nodup

/-- The manager with `x` linked and its children taken out of `unlinked`. -/
def Chainman.withLinked (k : Chainman) (x : BlockIndex) : Chainman :=
  { k with
    linked := k.linked ++ [x]
    unlinked := k.unlinked.filter fun y => decide (y.parent? ≠ some x) }

theorem line_linked (hp : ∀ p, x.parent? = some p → p ∈ k.linked)
    (hline : ∀ z ∈ k.linked, ∀ y ∈ z.line, y ∈ k.linked) : ∀ y ∈ x.line, y ∈ k.linked ++ [x] := by
  intro y hy
  cases x with
  | root b =>
    rw [List.mem_singleton.1 hy]
    exact List.mem_append_right _ (List.mem_singleton_self _)
  | child p b =>
    rcases List.mem_cons.1 hy with rfl | hy
    · exact List.mem_append_right _ (List.mem_singleton_self _)
    · exact List.mem_append_left _ (hline p (hp p rfl) y hy)

/-- Storing the body of an indexed entry. -/
theorem wellFormed_stored (h : WellFormed C k) (hx : x ∈ k.blockIndex) :
    WellFormed C { k with haveData := k.haveData ++ [x] } :=
  { h with
    data_indexed := List.forall_mem_append.2 ⟨h.data_indexed, List.forall_mem_singleton.2 hx⟩
    linked_data := fun y hy => List.mem_append_left _ (h.linked_data y hy)
    unlinked_data := fun y hy => List.mem_append_left _ (h.unlinked_data y hy)
    genesis_data := fun y hy hhash => List.mem_append_left _ (h.genesis_data y hy hhash) }

/-- Linking a stored entry whose parent is linked. -/
theorem wellFormed_withLinked (h : WellFormed C k) (hdata : x ∈ k.haveData)
    (hparent : ∀ p, x.parent? = some p → p ∈ k.linked) (hfresh : x ∉ k.unlinked) :
    WellFormed C (k.withLinked x) := by
  have hunlinked : ∀ y ∈ (k.withLinked x).unlinked, y ∈ k.unlinked :=
    fun y hy => List.mem_of_mem_filter hy
  refine { h with
    linked_data := ?_, linked_line := ?_, unlinked_data := ?_, unlinked_fresh := ?_,
    unlinked_nodup := ?_ }
  · exact List.forall_mem_append.2 ⟨h.linked_data, List.forall_mem_singleton.2 hdata⟩
  · refine List.forall_mem_append.2 ⟨?_, List.forall_mem_singleton.2 ?_⟩
    · exact fun z hz y hy => List.mem_append_left _ (h.linked_line z hz y hy)
    · exact line_linked hparent h.linked_line
  · exact fun y hy => h.unlinked_data y (hunlinked y hy)
  · intro y hy hmem
    rcases List.mem_append.1 hmem with hmem | hmem
    · exact h.unlinked_fresh y (hunlinked y hy) hmem
    · rw [List.mem_singleton.1 hmem] at hy
      exact hfresh (hunlinked x hy)
  · exact h.unlinked_nodup.filter _

/-- An entry linked after the tip, with no more work, is worse than it. -/
theorem worse_of_linked_later (htip : k.tip ∈ k.linked) (hx : x ∉ k.linked)
    (hlight : C.chainWork x ≤ C.chainWork k.tip) :
    worse C { k with linked := k.linked ++ [x] } x k.tip = true := by
  rw [worse_iff]
  have htipIdx : (k.linked ++ [x]).idxOf k.tip = k.linked.idxOf k.tip :=
    List.idxOf_append_of_mem htip
  have hxIdx : (k.linked ++ [x]).idxOf x = k.linked.length := by
    rw [List.idxOf_append_of_notMem hx, List.idxOf_cons_self, Nat.add_zero]
  have hlt : k.linked.idxOf k.tip < k.linked.length := List.idxOf_lt_length_of_mem htip
  show _ ∨ _ ∧ (k.linked ++ [x]).idxOf k.tip < (k.linked ++ [x]).idxOf x
  rw [htipIdx, hxIdx]
  omega

/-- Linking the first of the queue. -/
theorem linking_step {queue : List BlockIndex} (h : Linking C (x :: queue) k) :
    Linking C (queue ++ k.unlinked.filter fun y => decide (y.parent? = some x))
      (k.withLinked x) := by
  have hxfresh : x ∉ k.linked := h.queue_fresh x List.mem_cons_self
  obtain ⟨hxpending, hpending⟩ := List.nodup_cons.1 h.pending_nodup
  have hwf : WellFormed C (k.withLinked x) :=
    wellFormed_withLinked h.toWellFormed (h.queue_data x List.mem_cons_self)
      (h.queue_parent x List.mem_cons_self) fun hx => hxpending (List.mem_append_right _ hx)
  have hne : ∀ y ∈ queue ++ k.unlinked, y ∉ k.linked → y ∉ k.linked ++ [x] := by
    intro y hy hfresh hmem
    rcases List.mem_append.1 hmem with hmem | hmem
    · exact hfresh hmem
    · rw [List.mem_singleton.1 hmem] at hy
      exact hxpending hy
  refine { hwf, h with
    unlinked_light := ?_, tip_linked := ?_, queue_data := ?_, queue_light := ?_,
    queue_parent := ?_, queue_fresh := ?_, pending_nodup := ?_ }
  · exact fun y hy => h.unlinked_light y (List.mem_of_mem_filter hy)
  · exact List.mem_append_left _ h.tip_linked
  · intro y hy
    rcases List.mem_append.1 hy with hy | hy
    · exact h.queue_data y (List.mem_cons_of_mem _ hy)
    · exact h.unlinked_data y (List.mem_of_mem_filter hy)
  · intro y hy
    rcases List.mem_append.1 hy with hy | hy
    · exact h.queue_light y (List.mem_cons_of_mem _ hy)
    · exact h.unlinked_light y (List.mem_of_mem_filter hy)
  · intro y hy p hp
    rcases List.mem_append.1 hy with hy | hy
    · exact List.mem_append_left _ (h.queue_parent y (List.mem_cons_of_mem _ hy) p hp)
    · have hyx : y.parent? = some x := of_decide_eq_true (List.mem_filter.1 hy).2
      rw [hyx] at hp
      cases hp
      exact List.mem_append_right _ (List.mem_singleton_self _)
  · intro y hy
    rcases List.mem_append.1 hy with hy | hy
    · exact hne y (List.mem_append_left _ hy) (h.queue_fresh y (List.mem_cons_of_mem _ hy))
    · have hy' := List.mem_of_mem_filter hy
      exact hne y (List.mem_append_right _ hy') (h.unlinked_fresh y hy')
  · -- children and the rest are `unlinked` again, in another order
    have hperm : (k.unlinked.filter (fun y => decide (y.parent? = some x)) ++
        k.unlinked.filter fun y => decide (y.parent? ≠ some x)).Perm k.unlinked := by
      simpa using List.filter_append_perm (fun y => decide (y.parent? = some x)) k.unlinked
    rw [List.append_assoc]
    exact (hperm.append_left queue).nodup_iff.2 hpending

theorem settled_linkQueue (fuel : Nat) {queue : List BlockIndex} (h : Linking C queue k) :
    Settled C (linkQueue C fuel queue k) := by
  induction fuel generalizing queue k with
  | zero => exact h.toSettled
  | succ fuel ih =>
    cases queue with
    | nil => exact h.toSettled
    | cons x queue =>
      unfold linkQueue tryAddBlockIndexCandidate
      rw [if_pos (worse_of_linked_later h.tip_linked (h.queue_fresh x List.mem_cons_self)
        (h.queue_light x List.mem_cons_self))]
      exact ih (linking_step h)

/-- The body of a known valid header: it is stored, perhaps linked, and no candidate. -/
theorem settled_received (h : Settled C k) (hx : x ∈ k.blockIndex) (hvalid : x ∉ k.failed)
    (hdata : x ∉ k.haveData) : Settled C (receivedBlockTransactions C x k) := by
  have hfresh : x ∉ k.linked := fun hl => hdata (h.linked_data x hl)
  have hunl : x ∉ k.unlinked := fun hu => hdata (h.unlinked_data x hu)
  have hlight : C.chainWork x ≤ C.chainWork k.tip := h.heaviest x hx hvalid
  have hstored : Settled C { k with haveData := k.haveData ++ [x] } :=
    { wellFormed_stored h.toWellFormed hx, h with }
  have hlinking : (∀ p, x.parent? = some p → p ∈ k.linked) →
      Linking C [x] { k with haveData := k.haveData ++ [x] } := by
    intro hparent
    exact { hstored with
      queue_data := fun y hy => List.mem_append_right _ hy
      queue_light := List.forall_mem_singleton.2 hlight
      queue_parent := List.forall_mem_singleton.2 hparent
      queue_fresh := List.forall_mem_singleton.2 hfresh
      pending_nodup := List.nodup_cons.2 ⟨hunl, h.unlinked_nodup⟩ }
  unfold receivedBlockTransactions
  cases hp : x.parent? with
  | none => exact settled_linkQueue _ (hlinking fun p hp' => by rw [hp] at hp'; cases hp')
  | some prev =>
    dsimp only
    split
    · rename_i hprev
      refine settled_linkQueue _ (hlinking fun p hp' => ?_)
      rw [hp] at hp'
      cases hp'
      exact hprev
    · split
      · exact hstored
      · -- its parent has no body yet: it waits
        refine { hstored with unlinked_data := ?_, unlinked_fresh := ?_, unlinked_nodup := ?_,
                              unlinked_light := ?_ }
        · exact List.forall_mem_append.2
            ⟨hstored.unlinked_data, fun y hy => List.mem_append_right _ hy⟩
        · exact List.forall_mem_append.2 ⟨h.unlinked_fresh, List.forall_mem_singleton.2 hfresh⟩
        · rw [List.nodup_append]
          refine ⟨h.unlinked_nodup, List.nodup_singleton x, ?_⟩
          rintro y hy z hz rfl
          rw [List.mem_singleton.1 hz] at hy
          exact hunl hy
        · exact List.forall_mem_append.2 ⟨h.unlinked_light, List.forall_mem_singleton.2 hlight⟩

/-! ## 5. A block that fails -/

theorem invalidBlockFound_eq : invalidBlockFound C x k =
    if x ∈ k.bestHeader.line then recalculateBestHeader C (k.withFailed x) else k.withFailed x :=
  rfl

theorem mem_withFailed (hx : x ∈ k.blockIndex) :
    y ∈ (k.withFailed x).failed ↔ y ∈ k.failed ∨ (y ∈ k.blockIndex ∧ x ∈ y.line) := by
  unfold Chainman.withFailed
  simp only [List.mem_append, List.mem_singleton, List.mem_filter, decide_eq_true_eq]
  constructor
  · rintro ((hy | rfl) | ⟨hy, _, hline⟩)
    · exact .inl hy
    · exact .inr ⟨hx, Lineage.mem_line_self⟩
    · exact .inr ⟨hy, hline⟩
  · rintro (hy | ⟨hy, hline⟩)
    · exact .inl (.inl hy)
    · by_cases hyx : y = x
      · exact .inl (.inr hyx)
      · exact .inr ⟨hy, hyx, hline⟩

theorem wellFormed_withFailed (h : WellFormed C k) (hx : x ∈ k.blockIndex) :
    WellFormed C (k.withFailed x) := by
  refine { h with failed_indexed := ?_, failed_inherited := ?_ }
  · intro y hy
    rcases (mem_withFailed hx).1 hy with hy | ⟨hy, _⟩
    · exact h.failed_indexed y hy
    · exact hy
  · intro z hz y hy hfail
    refine (mem_withFailed hx).2 ?_
    rcases (mem_withFailed hx).1 hfail with hfail | ⟨_, hline⟩
    · exact .inl (h.failed_inherited z hz y hy hfail)
    · exact .inr ⟨hz, Lineage.mem_line_trans hy hline⟩

/-- The best header falls back to the tip when nothing valid outweighs it. -/
theorem recalculateBestHeader_eq
    (h : ∀ y ∈ k.blockIndex, y ∉ k.failed → C.chainWork y ≤ C.chainWork k.tip) :
    recalculateBestHeader C k = { k with bestHeader := k.tip } := by
  unfold recalculateBestHeader
  have hfold : ∀ l : List BlockIndex,
      (∀ y ∈ l, y ∉ k.failed → C.chainWork y ≤ C.chainWork k.tip) →
      l.foldl (fun best y => if y ∉ k.failed ∧ C.chainWork best < C.chainWork y then y else best)
        k.tip = k.tip := by
    intro l
    induction l with
    | nil => intro _; rfl
    | cons z l ih =>
      intro hl
      have hz : ¬ (z ∉ k.failed ∧ C.chainWork k.tip < C.chainWork z) := by
        rintro ⟨hvalid, hlt⟩
        have := hl z List.mem_cons_self hvalid
        omega
      rw [List.foldl_cons, if_neg hz]
      exact ih fun y hy => hl y (List.mem_cons_of_mem _ hy)
  rw [hfold k.blockIndex h]

/-- A known block without a body that turns out invalid leaves the active chain alone. -/
theorem settled_invalid (h : Settled C k) (hx : x ∈ k.blockIndex) (hdata : x ∉ k.haveData) :
    Settled C (invalidBlockFound C x k) := by
  have hoff : x ∉ k.tip.line := fun hline => hdata (h.active_data hline)
  have htip : k.tip ≠ x := fun htip => hoff (htip ▸ Lineage.mem_line_self)
  rw [invalidBlockFound_eq, h.header, if_neg hoff]
  refine { wellFormed_withFailed h.toWellFormed hx, h with
    heaviest := ?_, tip_valid := ?_, tip_candidate := ?_, only_candidate := ?_ }
  · intro y hy hvalid
    exact h.heaviest y hy fun hfail => hvalid ((mem_withFailed hx).2 (.inl hfail))
  · intro hfail
    rcases (mem_withFailed hx).1 hfail with hfail | ⟨_, hline⟩
    · exact h.tip_valid hfail
    · exact hoff hline
  · exact List.mem_filter.2 ⟨h.tip_candidate, decide_eq_true htip⟩
  · intro y hy
    exact h.only_candidate y (List.mem_filter.1 hy).1

/-! ## 6. A block that outweighs the tip -/

/-- The best header has run ahead to `x`, a new entry with more work than anything else. -/
structure Ahead (C : Consensus) (x : BlockIndex) (k : Chainman) : Prop extends WellFormed C k where
  header : k.bestHeader = x
  indexed : x ∈ k.blockIndex
  valid : x ∉ k.failed
  off : x ∉ k.tip.line
  outworks : C.chainWork k.tip < C.chainWork x
  others : ∀ y ∈ k.blockIndex, y ∉ k.failed → y ≠ x → C.chainWork y ≤ C.chainWork k.tip
  childless : ∀ y ∈ k.unlinked, y.parent? ≠ some x
  unlinked_light : ∀ y ∈ k.unlinked, C.chainWork y ≤ C.chainWork k.tip
  tip_linked : k.tip ∈ k.linked
  tip_valid : k.tip ∉ k.failed
  tip_candidate : k.tip ∈ k.candidates
  candidates : ∀ y ∈ k.candidates, y = k.tip ∨ y = x

theorem ahead_withHeader {prev : BlockIndex} {header : BlockHeader} (h : Settled C k)
    (hf : Fresh C k prev header) (hout : C.chainWork k.tip < C.chainWork (.child prev header)) :
    Ahead C (.child prev header) (k.withHeader C (.child prev header)) := by
  have hnew := hf.not_indexed
  have hbest : (k.withHeader C (.child prev header)).bestHeader = .child prev header := by
    unfold Chainman.withHeader
    rw [h.header, if_pos hout]
  have hindexed : ∀ y ∈ k.tip.line, y ∈ k.blockIndex :=
    fun y hy => h.data_indexed y (h.active_data hy)
  refine { wellFormed_withHeader h.toWellFormed hf, h with
    header := hbest, indexed := ?_, valid := ?_, off := ?_, outworks := hout, others := ?_,
    childless := ?_, candidates := ?_ }
  · exact List.mem_append_right _ (List.mem_singleton_self _)
  · exact fun hfail => hnew (h.failed_indexed _ hfail)
  · exact fun hline => hnew (hindexed _ hline)
  · intro y hy hvalid hne
    rcases List.mem_append.1 hy with hy | hy
    · exact h.heaviest y hy hvalid
    · exact absurd (List.mem_singleton.1 hy) hne
  · intro y hy hparent
    have hyIndexed := h.data_indexed y (h.unlinked_data y hy)
    exact hnew (h.line_indexed y hyIndexed _ (Lineage.parent_mem_line hparent))
  · exact fun y hy => .inl (h.only_candidate y hy)

/-- **The block is refused**: the best header is the tip again, and all is as before. -/
theorem settled_refused (h : Ahead C x k) : Settled C (invalidBlockFound C x k) := by
  have htip : k.tip ≠ x := fun htip => h.off (htip ▸ Lineage.mem_line_self)
  have hx : x ∈ k.bestHeader.line := by
    rw [h.header]
    exact Lineage.mem_line_self
  have hlight : ∀ y ∈ (k.withFailed x).blockIndex, y ∉ (k.withFailed x).failed →
      C.chainWork y ≤ C.chainWork (k.withFailed x).tip := by
    intro y hy hvalid
    have hvalid' := fun hor => hvalid ((mem_withFailed h.indexed).2 hor)
    refine h.others y hy (fun hfail => hvalid' (.inl hfail)) ?_
    rintro rfl
    exact hvalid' (.inr ⟨hy, Lineage.mem_line_self⟩)
  rw [invalidBlockFound_eq, if_pos hx, recalculateBestHeader_eq hlight]
  refine { wellFormed_withFailed h.toWellFormed h.indexed, h with
    header := rfl, heaviest := hlight, tip_valid := ?_, tip_candidate := ?_, only_candidate := ?_ }
  · intro hfail
    rcases (mem_withFailed h.indexed).1 hfail with hfail | ⟨_, hline⟩
    · exact h.tip_valid hfail
    · exact h.off hline
  · exact List.mem_filter.2 ⟨h.tip_candidate, decide_eq_true htip⟩
  · intro y hy
    obtain ⟨hy, hne⟩ := List.mem_filter.1 hy
    rcases h.candidates y hy with rfl | rfl
    · rfl
    · exact absurd rfl (of_decide_eq_true hne)

/-- Its body is stored, its line is whole, and it is a candidate. -/
structure Poised (C : Consensus) (x : BlockIndex) (k : Chainman) : Prop extends Ahead C x k where
  linked : x ∈ k.linked
  candidate : x ∈ k.candidates

/-- Nothing waits for a new entry, so its body is linked in the first round of the queue. -/
theorem received_eq {prev : BlockIndex} (h : Ahead C x k) (hparent : x.parent? = some prev)
    (hprev : prev ∈ k.linked) :
    ∃ cand, receivedBlockTransactions C x k =
        { Chainman.withLinked { k with haveData := k.haveData ++ [x] } x with candidates := cand } ∧
      x ∈ cand ∧ (∀ y ∈ k.candidates, y ∈ cand) ∧ ∀ y ∈ cand, y ∈ k.candidates ∨ y = x := by
  have hchildren : k.unlinked.filter (fun y => decide (y.parent? = some x)) = [] := by
    rw [List.filter_eq_nil_iff]
    intro y hy
    simpa using h.childless y hy
  have hbetter : worse C { k with haveData := k.haveData ++ [x], linked := k.linked ++ [x] } x
      k.tip = false := worse_asymm (worse_iff.2 (.inl h.outworks))
  have hdone : ∀ fuel (k₁ : Chainman), linkQueue C fuel [] k₁ = k₁ := by
    intro fuel k₁
    cases fuel <;> rfl
  unfold receivedBlockTransactions
  rw [hparent]
  dsimp only
  rw [if_pos hprev]
  unfold linkQueue tryAddBlockIndexCandidate
  rw [if_neg (by rw [hbetter]; exact Bool.false_ne_true)]
  split
  · rename_i hmem
    dsimp only
    rw [hchildren, List.append_nil, hdone]
    exact ⟨k.candidates, rfl, hmem, fun y hy => hy, fun y hy => .inl hy⟩
  · dsimp only
    rw [hchildren, List.append_nil, hdone]
    refine ⟨k.candidates ++ [x], rfl, ?_, ?_, ?_⟩
    · exact List.mem_append_right _ (List.mem_singleton_self _)
    · exact fun y hy => List.mem_append_left _ hy
    · exact List.forall_mem_append.2 ⟨fun y hy => .inl hy, List.forall_mem_singleton.2 (.inr rfl)⟩

theorem poised_received {prev : BlockIndex} (h : Ahead C x k) (hparent : x.parent? = some prev)
    (hprev : prev ∈ k.linked) : Poised C x (receivedBlockTransactions C x k) := by
  -- a waiting entry has no more work than the tip, and `x` has
  have hwaiting : x ∉ k.unlinked := fun hx =>
    Nat.not_lt.2 (h.unlinked_light x hx) h.outworks
  have hline : ∀ p, x.parent? = some p → p ∈ k.linked := by
    intro p hp
    rw [hparent] at hp
    cases hp
    exact hprev
  have hwf : WellFormed C (Chainman.withLinked { k with haveData := k.haveData ++ [x] } x) :=
    wellFormed_withLinked (wellFormed_stored h.toWellFormed h.indexed)
      (List.mem_append_right _ (List.mem_singleton_self _)) hline hwaiting
  obtain ⟨cand, heq, hx, hkeep, hcand⟩ := received_eq h hparent hprev
  rw [heq]
  refine { hwf, h with
    childless := ?_, unlinked_light := ?_, tip_linked := ?_, tip_candidate := ?_,
    candidates := ?_, linked := ?_, candidate := hx }
  · exact fun y hy => h.childless y (List.mem_of_mem_filter hy)
  · exact fun y hy => h.unlinked_light y (List.mem_of_mem_filter hy)
  · exact List.mem_append_left _ h.tip_linked
  · exact hkeep _ h.tip_candidate
  · intro y hy
    rcases hcand y hy with hy | rfl
    · exact h.candidates y hy
    · exact .inr rfl
  · exact List.mem_append_right _ (List.mem_singleton_self _)

theorem Poised.findMostWorkChain_eq (h : Poised C x k) (fuel : Nat) :
    findMostWorkChain C (fuel + 1) k = (some x, k) := by
  refine SwiftBitcoinKernel.findMostWorkChain_eq fuel h.candidate ?_ ?_
  · intro y hy
    rcases h.candidates y hy with rfl | rfl
    · exact .inr (worse_iff.2 (.inl h.outworks))
    · exact .inl rfl
  · intro y hy _
    refine ⟨fun hfail => h.valid (h.failed_inherited x h.indexed y hy hfail), ?_⟩
    exact h.linked_data y (h.linked_line x h.linked y hy)

/-- Connecting a path whose last block is the first to outweigh the old tip. -/
theorem connectTips_eq {oldTip : BlockIndex} {before : List BlockIndex}
    (hbefore : ∀ y ∈ before, C.chainWork y ≤ C.chainWork oldTip)
    (hout : C.chainWork oldTip < C.chainWork x)
    (hconnect : ∀ y ∈ before ++ [x], C.connectBlock y = true) (hx : x ∈ k.candidates) :
    ∃ cand, connectTips C oldTip (before ++ [x]) k = ({ k with tip := x, candidates := cand },
      false) ∧ x ∈ cand ∧ ∀ y ∈ cand, y ∈ k.candidates ∧ worse C k y x = false := by
  induction before generalizing k with
  | nil =>
    refine ⟨k.candidates.filter fun y => !worse C { k with tip := x } y x, ?_, ?_, ?_⟩
    · rw [List.nil_append]
      unfold connectTips
      rw [if_pos (hconnect x (List.mem_singleton_self _))]
      dsimp only
      rw [if_pos hout]
      rfl
    · refine List.mem_filter.2 ⟨hx, ?_⟩
      rw [worse_irrefl]
      rfl
    · intro y hy
      obtain ⟨hy, hkeep⟩ := List.mem_filter.1 hy
      have hnot : worse C { k with tip := x } y x = false := by simpa using hkeep
      exact ⟨hy, hnot⟩
  | cons z before ih =>
    have hz := hbefore z List.mem_cons_self
    have hxkept : x ∈ (pruneBlockIndexCandidates C { k with tip := z }).candidates := by
      refine List.mem_filter.2 ⟨hx, ?_⟩
      have hlt : C.chainWork z < C.chainWork x := by omega
      show (!worse C { k with tip := z } x z) = true
      rw [worse_asymm (worse_iff.2 (.inl hlt))]
      rfl
    obtain ⟨cand, heq, hxc, hcand⟩ := ih (fun y hy => hbefore y (List.mem_cons_of_mem _ hy))
      (fun y hy => hconnect y (List.mem_cons_of_mem _ hy)) hxkept
    refine ⟨cand, ?_, hxc, ?_⟩
    · rw [List.cons_append]
      unfold connectTips
      rw [if_pos (hconnect z List.mem_cons_self)]
      dsimp only
      rw [if_neg (Nat.not_lt.2 hz), heq]
      rfl
    · intro y hy
      obtain ⟨hy, hkeep⟩ := hcand y hy
      exact ⟨(List.mem_filter.1 hy).1, hkeep⟩

/-- **The block connects**, and with it everything its branch needs: it is the new tip. -/
theorem settled_connected {prev : BlockIndex} (h : Poised C x k) (hparent : x.parent? = some prev)
    (hconnect : ∀ y ∈ k.tip.branch x, C.connectBlock y = true) :
    Settled C (activateBestChain C a k) := by
  have hchild := Lineage.parent?_eq_some hparent
  have hxtip : x ≠ k.tip := fun hx => h.off (hx ▸ Lineage.mem_line_self)
  obtain ⟨before, hbranch, hbefore⟩ := Lineage.branch_eq_append (x := k.tip) (hchild ▸ h.off)
  rw [← hchild] at hbranch
  have hlight : ∀ y ∈ before, C.chainWork y ≤ C.chainWork k.tip := by
    intro y hy
    have hyline : y ∈ x.line := by
      rw [hchild]
      exact List.mem_cons_of_mem _ (hbefore y hy)
    refine h.others y (h.line_indexed x h.indexed y hyline) ?_ ?_
    · exact fun hfail => h.valid (h.failed_inherited x h.indexed y hyline hfail)
    · intro hyx
      have hxprev : x ∈ prev.line := hyx ▸ hbefore y hy
      rw [hchild] at hxprev
      exact Lineage.child_not_mem_line hxprev
  rw [hbranch] at hconnect
  obtain ⟨cand, hstep, hxc, hcand⟩ := connectTips_eq
    (k := { k with tip := k.tip.fork x }) hlight h.outworks hconnect h.candidate
  have hactivate : activateBestChain C a k = { k with tip := x, candidates := cand } := by
    unfold activateBestChain
    obtain ⟨n, hn⟩ := h.rounds
    rw [hn]
    unfold activate orMostWorkChain
    rw [h.findMostWorkChain_eq]
    dsimp only
    rw [if_neg hxtip]
    unfold activateBestChainStep
    rw [hbranch, hstep]
    dsimp only
    have hbetter : worse C { k with tip := x, candidates := cand } x k.tip = false :=
      worse_asymm (worse_iff.2 (.inl h.outworks))
    rw [if_neg (by rw [hbetter]; exact Bool.false_ne_true)]
    split
    · rfl
    · rw [if_neg Bool.false_ne_true, if_pos rfl]
  rw [hactivate]
  refine { h with
    header := h.header, heaviest := ?_, unlinked_light := ?_, tip_linked := h.linked,
    tip_valid := h.valid, tip_candidate := hxc, only_candidate := ?_ }
  · intro y hy hvalid
    by_cases hyx : y = x
    · rw [hyx]
    · have := h.others y hy hvalid hyx
      have := h.outworks
      show C.chainWork y ≤ C.chainWork x
      omega
  · intro y hy
    have := h.unlinked_light y hy
    have := h.outworks
    show C.chainWork y ≤ C.chainWork x
    omega
  · intro y hy
    obtain ⟨hy, hkeep⟩ := hcand y hy
    rcases h.candidates y hy with rfl | rfl
    · have hnot : worse C k k.tip x = false := hkeep
      rw [worse_iff.2 (.inl h.outworks)] at hnot
      cases hnot
    · rfl

/-- **The block sits on the tip and does not connect**: the active chain stays where it is. -/
theorem settled_tipRefused (h : Poised C x k) (hparent : x.parent? = some k.tip)
    (hfails : C.connectBlock x = false) : Settled C (activateBestChain C a k) := by
  have hxtip : x ≠ k.tip := fun hx => h.off (hx ▸ Lineage.mem_line_self)
  have hsettled := settled_refused h.toAhead
  have hchild := Lineage.parent?_eq_some hparent
  have hstep : activateBestChainStep C x k = (invalidBlockFound C x k, true) := by
    unfold activateBestChainStep
    rw [hchild, Lineage.fork_child, Lineage.branch_child, ← hchild]
    unfold connectTips
    rw [if_neg (by rw [hfails]; exact Bool.false_ne_true)]
  have htip : (invalidBlockFound C x k).tip = k.tip := by
    rw [invalidBlockFound_eq]
    split <;> rfl
  unfold activateBestChain
  obtain ⟨n, hn⟩ := h.rounds
  rw [hn]
  unfold activate orMostWorkChain
  rw [h.findMostWorkChain_eq]
  dsimp only
  rw [if_neg hxtip, hstep]
  dsimp only
  rw [htip, if_neg (by rw [worse_irrefl]; exact Bool.false_ne_true)]
  split
  · exact hsettled
  · rw [if_pos rfl, if_neg (Option.some_ne_none k.tip).symm, hsettled.activate_eq n]
    exact hsettled

/-! ## 7. Orderly calls -/

/-- The body of a block whose header has become the best header, entry `x`: it is refused for good,
    or its parent's line is stored and either the block sits on the tip or its branch connects. -/
def KeepsUp (C : Consensus) (k : Chainman) (x : BlockIndex) (block : Block) : Prop :=
  C.contextualCheckBlock x block = .invalid ∨
  (C.contextualCheckBlock x block = .valid ∧ ∃ prev, x.parent? = some prev ∧ prev ∈ k.linked ∧
    (prev = k.tip ∨ ∀ y ∈ k.tip.branch x, C.connectBlock y = true))

/-- **The calls that do not part the best header from the active chain**: a header call that leaves
    the best header where it is, and a block call that leaves it or whose body keeps up. -/
def Orderly (C : Consensus) (a : Ambient) (k : Chainman) : KernelCall → Prop
  | .header header => (acceptBlockHeader C a header k).2.bestHeader = k.bestHeader
  | .block block => C.checkBlock block = true →
      (acceptBlockHeader C a block.header k).2.bestHeader ≠ k.bestHeader →
      ∀ x, (acceptBlockHeader C a block.header k).1 = some x → KeepsUp C k x block

/-- What `AcceptBlockHeader` leaves of a settled manager: it is settled still and the header known
    to be valid or stored, or the best header has run ahead. -/
theorem settled_acceptBlockHeader {header : BlockHeader} {o : Option BlockIndex} (h : Settled C k)
    (haccept : acceptBlockHeader C a header k = (o, k')) :
    (Settled C k' ∧ k'.bestHeader = k.bestHeader ∧
      ∀ x, o = some x → x ∈ k'.blockIndex ∧ (x ∉ k'.haveData → x ∉ k'.failed)) ∨
    (∃ x, o = some x ∧ Ahead C x k' ∧ x ∉ k'.haveData ∧ k'.bestHeader ≠ k.bestHeader ∧
      k'.linked = k.linked ∧ k'.tip = k.tip) := by
  rcases acceptBlockHeader_cases haccept with
    ⟨rfl, rfl⟩ | ⟨x, rfl, rfl, hfind, hok⟩ | ⟨x, rfl, rfl, hnone, _, hx⟩
  · exact .inl ⟨h, rfl, nofun⟩
  · refine .inl ⟨h, rfl, fun y hy => ?_⟩
    cases hy
    exact ⟨(find_some hfind).1, h.not_failed_of_find hfind hok⟩
  · -- a new header is no genesis header, which is indexed
    obtain ⟨g, hg, hghash⟩ := h.genesis_indexed
    have hnogen : header.hash ≠ C.genesis.hash := fun hgen =>
      find_none hnone hg (hghash.trans hgen.symm)
    rcases hx with ⟨prev, hprev, rfl, hvalid⟩ | ⟨_, hgen⟩
    · have hf : Fresh C k prev header :=
        ⟨hnone, (find_some hprev).1, hvalid.resolve_right hnogen⟩
      have hdata : Lineage.child prev header ∉ k.haveData :=
        fun hd => hf.not_indexed (h.data_indexed _ hd)
      by_cases hlight : C.chainWork (.child prev header) ≤ C.chainWork k.tip
      · have hs := settled_withHeader h hf hlight
        refine .inl ⟨hs, hs.header.trans h.header.symm, fun y hy => ?_⟩
        cases hy
        refine ⟨List.mem_append_right _ (List.mem_singleton_self _), fun _ hfail => ?_⟩
        exact hf.not_indexed (h.failed_indexed _ hfail)
      · have ha := ahead_withHeader h hf (by omega)
        refine .inr ⟨_, rfl, ha, hdata, ?_, rfl, rfl⟩
        rw [ha.header, h.header]
        rintro heq
        exact ha.off (heq ▸ Lineage.mem_line_self)
    · exact absurd hgen hnogen

/-- A block whose header the best header did not follow is stored or refused, and there is nothing
    to activate. -/
theorem settled_acceptBlock {block : Block} {o : Option BlockIndex} (hs : Settled C k')
    (haccept : acceptBlockHeader C a block.header k = (o, k'))
    (hx : ∀ x, o = some x → x ∈ k'.blockIndex ∧ (x ∉ k'.haveData → x ∉ k'.failed)) :
    Settled C (acceptBlock C a block k).2 := by
  rcases acceptBlock_cases haccept with
    ⟨_, hr⟩ | ⟨x, rfl, ⟨_, hr⟩ | ⟨hd, _, hr⟩ | ⟨_, _, hr⟩ | ⟨hd, _, hr⟩⟩
  · rw [hr]; exact hs
  · rw [hr]; exact hs
  · rw [hr]
    obtain ⟨hindexed, hvalid⟩ := hx x rfl
    exact settled_received hs hindexed (hvalid hd) hd
  · rw [hr]; exact hs
  · rw [hr]
    exact settled_invalid hs (hx x rfl).1 hd

/-- A block the best header did follow, and whose body keeps up. -/
theorem settled_keepsUp {block : Block} (hahead : Ahead C x k')
    (haccept : acceptBlockHeader C a block.header k = (some x, k'))
    (hcheck : C.checkBlock block = true) (hdata : x ∉ k'.haveData)
    (hlinked : k'.linked = k.linked) (htip : k'.tip = k.tip)
    (hkeeps : KeepsUp C k x block) : Settled C (processNewBlock C a block k).2 := by
  rcases hkeeps with hinvalid | ⟨hvalid, prev, hparent, hprev, hbranch⟩
  · have hrun : (processNewBlock C a block k).2 = invalidBlockFound C x k' := by
      simp [processNewBlock, acceptBlock, hcheck, haccept, hdata, hinvalid]
    rw [hrun]
    exact settled_refused hahead
  · have hrun : (processNewBlock C a block k).2 =
        activateBestChain C a (receivedBlockTransactions C x k') := by
      simp [processNewBlock, acceptBlock, hcheck, haccept, hdata, hvalid]
    rw [hrun]
    have hpoised := poised_received hahead hparent (hlinked ▸ hprev)
    have hptip : (receivedBlockTransactions C x k').tip = k.tip :=
      receivedBlockTransactions_same.tip.trans htip
    rcases hbranch with rfl | hconnect
    · cases hx : C.connectBlock x with
      | false => exact settled_tipRefused hpoised (by rw [hptip]; exact hparent) hx
      | true =>
        refine settled_connected hpoised hparent ?_
        intro y hy
        rw [hptip, Lineage.parent?_eq_some hparent, Lineage.branch_child] at hy
        rw [List.mem_singleton.1 hy, ← Lineage.parent?_eq_some hparent]
        exact hx
    · exact settled_connected hpoised hparent (by rw [hptip]; exact hconnect)

theorem settled_processNewBlock {block : Block} (h : Settled C k)
    (hc : Orderly C a k (.block block)) : Settled C (processNewBlock C a block k).2 := by
  cases haccept : acceptBlockHeader C a block.header k with
  | mk o k₁ =>
    rcases settled_acceptBlockHeader h haccept with
      ⟨hs, _, hx⟩ | ⟨x, rfl, hahead, hdata, hne, hlinked, htip⟩
    · have hstored := settled_acceptBlock hs haccept hx
      rcases processNewBlock_cases C a block k with ⟨_, hr⟩ | ⟨_, _, hr⟩ | ⟨_, _, hr⟩
      · rw [hr]; exact h
      · rw [hr]; exact hstored
      · rw [hr]
        dsimp only
        rw [hstored.activateBestChain_eq]
        exact hstored
    · cases hcheck : C.checkBlock block with
      | false =>
        have hrun : (processNewBlock C a block k).2 = k := by simp [processNewBlock, hcheck]
        rw [hrun]
        exact h
      | true =>
        refine settled_keepsUp hahead haccept hcheck hdata hlinked htip (hc hcheck ?_ x ?_)
        · rw [haccept]; exact hne
        · rw [haccept]

/-- **One orderly call keeps a manager settled.** -/
theorem settled_perform (h : Settled C k) (c : KernelCall) (hc : Orderly C a k c) :
    Settled C (perform C a c k) := by
  cases c with
  | block block => exact settled_processNewBlock h hc
  | header header =>
    have hbest : (acceptBlockHeader C a header k).2.bestHeader = k.bestHeader := hc
    show Settled C (acceptBlockHeader C a header k).2
    cases haccept : acceptBlockHeader C a header k with
    | mk o k₁ =>
      rw [haccept] at hbest
      rcases settled_acceptBlockHeader h haccept with ⟨hs, _⟩ | ⟨_, _, _, _, hne, _⟩
      · exact hs
      · exact absurd hbest hne

end SwiftBitcoinKernel
