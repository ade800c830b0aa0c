/-
  File:      SwiftBitcoinKernel/Logic/Lineage.lean
  Subject:   Trees given by parent links: a node is its line back to the root.

  A node of a tree in which every node knows its parent, and nothing else is known, is the list
  of the labels from the root to it. Such a node cannot dangle, and its depth and its accumulated
  weight cannot disagree with its parent's. Nothing of any one program is in this file.

  * `Lineage` -- a root, or a child of a lineage;
  * `depth`, `weight` -- the number of steps from the root, and the sum of the labels' weights;
  * `line` -- the node itself, its parent, and so on to the root; being an ancestor is
    membership in it (`mem_line_trans`, `depth_le_of_mem_line`);
  * `fork`, `branch` -- where the line of a node leaves another line, and what lies beyond.
-/
import Mathlib.Data.List.TakeWhile

namespace SwiftBitcoinKernel.Logic

/-- A node of a tree, as its line of labels from the root. -/
inductive Lineage (α : Type) where
  | root (label : α)
  | child (parent : Lineage α) (label : α)
  deriving DecidableEq, Repr

namespace Lineage

variable {α : Type} {x y z p : Lineage α} {a : α}

/-! ## 1. Nodes and their ancestors -/

/-- The label of the node itself. -/
def label : Lineage α → α
  | root a => a
  | child _ a => a

/-- The parent, where there is one. -/
def parent? : Lineage α → Option (Lineage α)
  | root _ => none
  | child p _ => some p

/-- The number of steps from the root. -/
def depth : Lineage α → Nat
  | root _ => 0
  | child p _ => p.depth + 1

/-- The sum of the weights along the line. -/
def weight (f : α → Nat) : Lineage α → Nat
  | root a => f a
  | child p a => p.weight f + f a

/-- The node, its parent, and so on to the root. -/
def line : Lineage α → List (Lineage α)
  | root a => [root a]
  | child p a => child p a :: p.line

@[simp] theorem depth_child : (child p a).depth = p.depth + 1 := rfl

@[simp] theorem line_child : (child p a).line = child p a :: p.line := rfl

@[simp] theorem mem_line_self : x ∈ x.line := by
  cases x with
  | root a => exact List.mem_singleton.2 rfl
  | child p a => exact List.mem_cons_self

/-- An ancestor of an ancestor is an ancestor. -/
theorem mem_line_trans (hy : y ∈ x.line) (hz : z ∈ y.line) : z ∈ x.line := by
  induction x with
  | root a =>
    rw [List.mem_singleton.1 hy] at hz
    exact hz
  | child p a ih =>
    rcases List.mem_cons.1 hy with rfl | hy
    · exact hz
    · exact List.mem_cons_of_mem _ (ih hy)

theorem parent?_eq_some (h : x.parent? = some p) : x = child p x.label := by
  cases x with
  | root b => cases h
  | child q b =>
    cases h
    rfl

theorem parent_mem_line (h : x.parent? = some p) : p ∈ x.line := by
  rw [parent?_eq_some h]
  exact List.mem_cons_of_mem _ mem_line_self

theorem depth_le_of_mem_line (h : y ∈ x.line) : y.depth ≤ x.depth := by
  induction x with
  | root a => exact Nat.le_of_eq (congrArg depth (List.mem_singleton.1 h))
  | child p a ih =>
    rcases List.mem_cons.1 h with rfl | h
    · exact Nat.le_refl _
    · exact Nat.le_succ_of_le (ih h)

/-- A line has one node of each depth. -/
theorem eq_of_mem_line (h : y ∈ x.line) (hdepth : y.depth = x.depth) : y = x := by
  cases x with
  | root a => exact List.mem_singleton.1 h
  | child p a =>
    rcases List.mem_cons.1 h with rfl | h
    · rfl
    · have hle := depth_le_of_mem_line h
      rw [hdepth, depth_child] at hle
      omega

/-- A child is no ancestor of its parent. -/
theorem child_not_mem_line : child p a ∉ p.line := by
  intro h
  have hle := depth_le_of_mem_line h
  rw [depth_child] at hle
  omega

/-! ## 2. Leaving a line -/

variable [DecidableEq α]

/-- The last node of `y`'s line that is on `x`'s line too. Two nodes without a common root have
    none; `x` stands in for it. -/
def fork (x y : Lineage α) : Lineage α := (y.line.find? fun z => decide (z ∈ x.line)).getD x

/-- The nodes of `y`'s line that are not on `x`'s, from the fork on. -/
def branch (x y : Lineage α) : List (Lineage α) :=
  (y.line.takeWhile fun z => decide (z ∉ x.line)).reverse

/-- A child off the line is the last of its own branch; its parent's line has the rest. -/
theorem branch_eq_append (h : child p a ∉ x.line) :
    ∃ before, branch x (child p a) = before ++ [child p a] ∧ ∀ z ∈ before, z ∈ p.line := by
  refine ⟨(p.line.takeWhile fun z => decide (z ∉ x.line)).reverse, ?_, ?_⟩
  · simp [branch, h]
  · intro z hz
    exact (List.takeWhile_sublist _).subset (List.mem_reverse.1 hz)

/-- A child forks off at its parent, and is its whole branch. -/
theorem fork_child : fork p (child p a) = p := by
  unfold fork
  rw [line_child, List.find?_cons_of_neg (by simpa using child_not_mem_line)]
  cases p with
  | root b => simp [line]
  | child q b => simp [line]

theorem branch_child : branch p (child p a) = [child p a] := by
  unfold branch
  rw [line_child, List.takeWhile_cons_of_pos (by simpa using child_not_mem_line)]
  have hnone : p.line.takeWhile (fun z => decide (z ∉ p.line)) = [] := by
    cases p with
    | root b => simp [line]
    | child q b => simp [line]
  rw [hnone]
  rfl

end Lineage

end SwiftBitcoinKernel.Logic
