/-
  File:      SwiftBitcoinKernel/Logic/Ancestry.lean
  Subject:   Ancestors by depth, and the last common ancestor.

  A line has one node of each depth, so an ancestor is found by its depth, in any number of jumps.
  Two lines that meet have a last node in common; from there on they have none. Nothing of any one
  program is in this file.

  * `ancestor x n` -- the node of depth `n` on the line of `x`; `ancestor_ancestor`,
    `ancestor_of_mem_line`;
  * `Meet x y z` -- `z` is the last node that the lines of `x` and `y` have in common; `Meet.unique`,
    and the two steps back, `Meet.of_ancestors` and `Meet.of_parents`;
  * `meet_fork`, `fork_eq_of_meet` -- `fork` is the last node in common;
  * `above x n` -- what lies on the line of `x` beyond depth `n`, by depth; `above_child`.
-/
import SwiftBitcoinKernel.Logic.Lineage

namespace SwiftBitcoinKernel.Logic.Lineage

variable {α : Type} {x y z w p : Lineage α} {a : α} {m n : Nat}

/-! ## 1. Ancestors by depth -/

/-- The node of depth `n` on the line of `x`, or `x` itself where it is not deeper than that. -/
def ancestor : Lineage α → Nat → Lineage α
  | root a, _ => root a
  | child p a, n => if p.depth + 1 ≤ n then child p a else p.ancestor n

theorem ancestor_self : x.ancestor x.depth = x := by
  cases x with
  | root a => rfl
  | child p a => exact if_pos (Nat.le_refl _)

theorem ancestor_child (h : n ≤ p.depth) : (child p a).ancestor n = p.ancestor n :=
  if_neg (Nat.not_le.2 (Nat.lt_succ_of_le h))

theorem depth_ancestor (h : n ≤ x.depth) : (x.ancestor n).depth = n := by
  induction x with
  | root a => exact (Nat.le_zero.1 h).symm
  | child p a ih =>
    by_cases hn : n ≤ p.depth
    · rw [ancestor_child hn]
      exact ih hn
    · have hdepth : n = (child p a).depth := Nat.le_antisymm h (Nat.not_le.1 hn)
      rw [hdepth, ancestor_self]

theorem ancestor_mem_line : x.ancestor n ∈ x.line := by
  induction x with
  | root a => exact mem_line_self
  | child p a ih =>
    unfold ancestor
    split
    · exact mem_line_self
    · exact List.mem_cons_of_mem _ ih

/-- Two nodes of one line with one depth are one node. -/
theorem eq_of_mem_line_of_depth (hy : y ∈ x.line) (hz : z ∈ x.line) (h : y.depth = z.depth) :
    y = z := by
  induction x with
  | root a => rw [List.mem_singleton.1 hy, List.mem_singleton.1 hz]
  | child p a ih =>
    rcases List.mem_cons.1 hy with rfl | hy
    · exact (eq_of_mem_line hz h.symm).symm
    · rcases List.mem_cons.1 hz with rfl | hz
      · exact eq_of_mem_line (List.mem_cons_of_mem _ hy) h
      · exact ih hy hz

theorem ancestor_of_mem_line (h : y ∈ x.line) : x.ancestor y.depth = y :=
  eq_of_mem_line_of_depth ancestor_mem_line h (depth_ancestor (depth_le_of_mem_line h))

/-- **Two jumps are one.** -/
theorem ancestor_ancestor (hmn : m ≤ n) (hn : n ≤ x.depth) :
    (x.ancestor n).ancestor m = x.ancestor m := by
  refine eq_of_mem_line_of_depth (x := x)
    (mem_line_trans ancestor_mem_line ancestor_mem_line) ancestor_mem_line ?_
  rw [depth_ancestor (hmn.trans hn), depth_ancestor (by rwa [depth_ancestor hn])]

/-- Of two ancestors, the one less deep is an ancestor of the other. -/
theorem mem_line_of_depth_le (hy : y ∈ x.line) (hz : z ∈ x.line) (h : z.depth ≤ y.depth) :
    z ∈ y.line := by
  have heq : y.ancestor z.depth = z :=
    eq_of_mem_line_of_depth (mem_line_trans hy ancestor_mem_line) hz (depth_ancestor h)
  rw [← heq]
  exact ancestor_mem_line

/-- The nodes on the line of `x` that are deeper than `n`, the least deep first. -/
def above (x : Lineage α) (n : Nat) : List (Lineage α) :=
  (List.range' (n + 1) (x.depth - n)).map x.ancestor

@[simp] theorem above_depth : x.above x.depth = [] := by
  unfold above
  rw [Nat.sub_self]
  rfl

theorem above_child (h : n ≤ p.depth) : (child p a).above n = p.above n ++ [child p a] := by
  have hlength : (child p a).depth - n = p.depth - n + 1 := by
    rw [depth_child]
    omega
  have hlast : n + 1 + (p.depth - n) = (child p a).depth := by
    rw [depth_child]
    omega
  unfold above
  rw [hlength, List.range'_concat, List.map_append, Nat.one_mul, hlast, List.map_singleton,
    ancestor_self]
  refine congrArg (· ++ _) (List.map_congr_left fun m hm => ancestor_child ?_)
  have hle := (List.mem_range'_1.1 hm).2
  omega

theorem mem_above (h : y ∈ x.above n) : y ∈ x.line ∧ n < y.depth := by
  obtain ⟨m, hm, rfl⟩ := List.mem_map.1 h
  obtain ⟨hlow, hhigh⟩ := List.mem_range'_1.1 hm
  refine ⟨ancestor_mem_line, ?_⟩
  rw [depth_ancestor (by omega)]
  omega

/-- The first node of a line. -/
def origin : Lineage α → Lineage α
  | root a => root a
  | child p _ => p.origin

theorem origin_mem_line : x.origin ∈ x.line := by
  induction x with
  | root a => exact mem_line_self
  | child p a ih => exact List.mem_cons_of_mem _ ih

theorem origin_of_mem_line (h : y ∈ x.line) : y.origin = x.origin := by
  induction x with
  | root a => rw [List.mem_singleton.1 h]
  | child p a ih =>
    rcases List.mem_cons.1 h with rfl | h
    · rfl
    · exact ih h

/-! ## 2. The last common ancestor -/

/-- **The last node in common.** -/
structure Meet (x y z : Lineage α) : Prop where
  left : z ∈ x.line
  right : z ∈ y.line
  last : ∀ w, w ∈ x.line → w ∈ y.line → w ∈ z.line

theorem Meet.symm (h : Meet x y z) : Meet y x z :=
  ⟨h.right, h.left, fun w hy hx => h.last w hx hy⟩

theorem Meet.unique (h : Meet x y z) (h' : Meet x y w) : z = w := by
  refine eq_of_mem_line (h'.last z h.left h.right) ?_
  exact Nat.le_antisymm (depth_le_of_mem_line (h'.last z h.left h.right))
    (depth_le_of_mem_line (h.last w h'.left h'.right))

theorem meet_of_mem_line (h : y ∈ x.line) : Meet x y y :=
  ⟨h, mem_line_self, fun _ _ hw => hw⟩

theorem meet_self : Meet x x x := meet_of_mem_line mem_line_self

/-- Where the ancestors of one depth differ, the lines meet before them. -/
theorem Meet.of_ancestors (hx : n ≤ x.depth) (hy : n ≤ y.depth)
    (hne : x.ancestor n ≠ y.ancestor n) (h : Meet (x.ancestor n) (y.ancestor n) z) :
    Meet x y z := by
  refine ⟨mem_line_trans ancestor_mem_line h.left, mem_line_trans ancestor_mem_line h.right, ?_⟩
  intro w hwx hwy
  -- a node in common that is at least as deep would have both ancestors for its own
  have hlt : w.depth < n := by
    by_contra hle
    have hx' := ancestor_ancestor (Nat.not_lt.1 hle) (depth_le_of_mem_line hwx)
    have hy' := ancestor_ancestor (Nat.not_lt.1 hle) (depth_le_of_mem_line hwy)
    rw [ancestor_of_mem_line hwx] at hx'
    rw [ancestor_of_mem_line hwy] at hy'
    exact hne (hx'.symm.trans hy')
  refine h.last w ?_ ?_
  · exact mem_line_of_depth_le ancestor_mem_line hwx (by rw [depth_ancestor hx]; omega)
  · exact mem_line_of_depth_le ancestor_mem_line hwy (by rw [depth_ancestor hy]; omega)

/-- Different nodes of one depth meet where their parents do. -/
theorem Meet.of_parents {q : Lineage α} {b : α} (hdepth : p.depth = q.depth)
    (hne : child p a ≠ child q b) (h : Meet p q z) : Meet (child p a) (child q b) z := by
  refine ⟨List.mem_cons_of_mem _ h.left, List.mem_cons_of_mem _ h.right, ?_⟩
  intro w hwx hwy
  rcases List.mem_cons.1 hwx with rfl | hwx
  · exact absurd (eq_of_mem_line hwy (congrArg (· + 1) hdepth)) hne
  · rcases List.mem_cons.1 hwy with rfl | hwy
    · have hle := depth_le_of_mem_line hwx
      rw [depth_child] at hle
      omega
    · exact h.last w hwx hwy

/-- An ancestor that is at least as deep as the other node meets it where the node does. -/
theorem Meet.of_ancestor_left (h : Meet (x.ancestor n) y z) (hy : y.depth ≤ n)
    (hx : n ≤ x.depth) : Meet x y z := by
  refine ⟨mem_line_trans ancestor_mem_line h.left, h.right, ?_⟩
  intro w hwx hwy
  refine h.last w (mem_line_of_depth_le ancestor_mem_line hwx ?_) hwy
  rw [depth_ancestor hx]
  exact (depth_le_of_mem_line hwy).trans hy

section Forks

variable [DecidableEq α]

theorem fork_of_mem_line (h : y ∈ x.line) : fork x y = y := by
  unfold fork
  cases y with
  | root b => simp [line, h]
  | child q b => simp [line, h]

theorem fork_child_of_not_mem (h : child p a ∉ x.line) :
    fork x (child p a) = fork x p := by
  unfold fork
  rw [line_child, List.find?_cons_of_neg (by simpa using h)]

/-- **`fork` is the last node in common**, of nodes with one origin. -/
theorem meet_fork (h : x.origin = y.origin) : Meet x y (fork x y) := by
  induction y with
  | root b =>
    have hmem : root b ∈ x.line := by
      have horigin := origin_mem_line (x := x)
      rwa [h] at horigin
    rw [fork_of_mem_line hmem]
    exact meet_of_mem_line hmem
  | child q b ih =>
    by_cases hmem : child q b ∈ x.line
    · rw [fork_of_mem_line hmem]
      exact meet_of_mem_line hmem
    · rw [fork_child_of_not_mem hmem]
      obtain ⟨hleft, hright, hlast⟩ := ih h
      refine ⟨hleft, List.mem_cons_of_mem _ hright, ?_⟩
      intro w hwx hwy
      rcases List.mem_cons.1 hwy with rfl | hwy
      · exact absurd hwx hmem
      · exact hlast w hwx hwy

theorem fork_eq_of_meet (h : Meet x y z) : fork x y = z := by
  have horigin : x.origin = y.origin :=
    (origin_of_mem_line h.left).symm.trans (origin_of_mem_line h.right)
  exact (meet_fork horigin).unique h

end Forks

end SwiftBitcoinKernel.Logic.Lineage
