/-
  File:      SwiftBitcoinKernel/Logic/Spacing.lean
  Subject:   Slots handed out at a minimum distance.

  Whoever asks gets the instant of asking, or the first one that is far enough from the slot before,
  whichever is later. Instants are of any ordered group. Nothing of any one program is in this file.

  * `forced` -- what the readings in a log force on the slot numbered `i`: the first instant and every
    reading, each moved on by the slots in between;
  * `Reserved` -- a log of readings and slots, and the instant from which the next slot is free;
  * `Reserved.take` -- a slot, by what the log was before it;
  * `Reserved.isGreatest_slot` -- it is the greatest instant that is forced on it;
  * `Reserved.le_slot`, `Reserved.apart` -- it is not before its reading, and far enough from every
    one before it; `Reserved.isLeast_slot` -- and the least instant that is both.
-/
import Mathlib.Algebra.Order.Group.Basic
import Mathlib.Order.Bounds.Image
import SwiftBitcoinKernel.Logic.Transition

namespace SwiftBitcoinKernel.Logic

variable {M : Type} [AddCommGroup M] {d first next : M} {log : List (M × M)} {r r' : M × M}
  {i j : Nat}

/-! ## 1. What is forced on a slot -/

/-- The first instant and the readings up to `i`, each moved on by the slots in between. -/
def forced (d first : M) (log : List (M × M)) (i : Nat) : Set M :=
  {x | x = first + i • d ∨ ∃ j ≤ i, ∃ r, log[j]? = some r ∧ x = r.1 + (i - j) • d}

/-- Later readings force nothing. -/
theorem forced_take : forced d first (log.take (i + 1)) i = forced d first log i := by
  have hget : ∀ j ≤ i, (log.take (i + 1))[j]? = log[j]? := by
    intro j hj
    exact List.getElem?_take_of_lt (Nat.lt_succ_of_le hj)
  ext x
  constructor
  · intro hx
    refine hx.imp_right fun hx => ?_
    obtain ⟨j, hj, r, hr, hx⟩ := hx
    exact ⟨j, hj, r, (hget j hj).symm.trans hr, hx⟩
  · intro hx
    refine hx.imp_right fun hx => ?_
    obtain ⟨j, hj, r, hr, hx⟩ := hx
    exact ⟨j, hj, r, (hget j hj).trans hr, hx⟩

/-- A reading is forced on its own slot. -/
theorem forced_last : forced d first (log ++ [r]) log.length =
    insert r.1 (forced d first log log.length) := by
  ext x
  constructor
  · intro hx
    rcases hx with hx | ⟨j, hj, r', hr', hx⟩
    · exact .inr (.inl hx)
    · rcases getElem?_of_snoc hr' with hold | ⟨rfl, rfl⟩
      · exact .inr (.inr ⟨j, hj, r', hold, hx⟩)
      · rw [Nat.sub_self, zero_nsmul, add_zero] at hx
        exact .inl hx
  · intro hx
    rcases hx with rfl | hx | ⟨j, hj, r', hr', hx⟩
    · refine .inr ⟨log.length, Nat.le_refl _, r, List.getElem?_concat_length, ?_⟩
      rw [Nat.sub_self, zero_nsmul, add_zero]
    · exact .inl hx
    · obtain ⟨hlt, -⟩ := List.getElem?_eq_some_iff.1 hr'
      exact .inr ⟨j, hj, r', (List.getElem?_append_left hlt).trans hr', hx⟩

theorem add_succ_nsmul (x : M) (n : Nat) : x + (n + 1) • d = x + n • d + d := by
  rw [succ_nsmul, add_assoc]

/-- What is forced on the slot after the last one is what is forced on that, moved on. -/
theorem forced_next (h : log.length ≤ i + 1) :
    forced d first log (i + 1) = (· + d) '' forced d first log i := by
  ext x
  constructor
  · intro hx
    rcases hx with hx | ⟨j, -, r, hr, hx⟩
    · exact ⟨first + i • d, .inl rfl, by rw [hx, add_succ_nsmul]⟩
    · obtain ⟨hlt, -⟩ := List.getElem?_eq_some_iff.1 hr
      have hj : j ≤ i := by omega
      refine ⟨r.1 + (i - j) • d, .inr ⟨j, hj, r, hr, rfl⟩, ?_⟩
      rw [hx, Nat.succ_sub hj, add_succ_nsmul]
  · intro hx
    obtain ⟨y, hy, rfl⟩ := hx
    rcases hy with hy | ⟨j, hj, r, hr, hy⟩
    · exact .inl (by rw [hy, add_succ_nsmul])
    · refine .inr ⟨j, Nat.le_succ_of_le hj, r, hr, ?_⟩
      rw [hy, Nat.succ_sub hj, add_succ_nsmul]

/-! ## 2. Slots -/

variable [LinearOrder M]

/-- `Reserved d first log next`: the readings and slots in `log`, at a distance of `d` from `first`
    on, leave `next` as the first instant that is free. -/
inductive Reserved (d first : M) : List (M × M) → M → Prop where
  | start : Reserved d first [] first
  | reserve {log : List (M × M)} {next : M} (now : M) (h : Reserved d first log next) :
      Reserved d first (log ++ [(now, max now next)]) (max now next + d)

namespace Reserved

/-- **A slot, by what the log was before it.** -/
theorem take (h : Reserved d first log next) (hr : log[i]? = some r) :
    ∃ next', Reserved d first (log.take i) next' ∧ r.2 = max r.1 next' := by
  induction h with
  | start => cases hr
  | @reserve log next now h ih =>
    rcases getElem?_of_snoc hr with hold | ⟨rfl, rfl⟩
    · obtain ⟨hlt, -⟩ := List.getElem?_eq_some_iff.1 hold
      rw [List.take_append_of_le_length (Nat.le_of_lt hlt)]
      exact ih hold
    · rw [List.take_left]
      exact ⟨next, h, rfl⟩

/-- The instant from which the next slot is free comes from the last slot. -/
theorem next_eq (h : Reserved d first log next) :
    (log = [] ∧ next = first) ∨ ∃ before r, log = before ++ [r] ∧ next = r.2 + d := by
  cases h with
  | start => exact .inl ⟨rfl, rfl⟩
  | @reserve log next now h => exact .inr ⟨log, (now, max now next), rfl, rfl⟩

theorem le_slot (h : Reserved d first log next) (hr : log[i]? = some r) : r.1 ≤ r.2 := by
  obtain ⟨next', -, hslot⟩ := h.take hr
  rw [hslot]
  exact le_max_left _ _

variable [IsOrderedAddMonoid M]

/-- **The next slot is free from the greatest instant forced on it.** -/
theorem isGreatest_next (h : Reserved d first log next) :
    IsGreatest (forced d first log log.length) next := by
  induction h with
  | start =>
    constructor
    · exact .inl (by rw [List.length_nil, zero_nsmul, add_zero])
    · intro x hx
      rcases hx with hx | ⟨j, -, r, hr, -⟩
      · rw [hx, List.length_nil, zero_nsmul, add_zero]
      · cases hr
  | @reserve log next now h ih =>
    rw [List.length_append, List.length_singleton, forced_next (by simp), forced_last]
    have hmono : Monotone fun x : M => x + d := fun a b hab => add_le_add_left hab d
    exact Monotone.map_isGreatest hmono (ih.insert now)

theorem isGreatest_slot (h : Reserved d first log next) (hr : log[i]? = some r) :
    IsGreatest (forced d first log i) r.2 := by
  obtain ⟨next', hbefore, hslot⟩ := h.take hr
  obtain ⟨hlt, hget⟩ := List.getElem?_eq_some_iff.1 hr
  have hlength : (log.take i).length = i := by
    rw [List.length_take]
    omega
  have hlog : log.take (i + 1) = log.take i ++ [r] := by
    rw [List.take_add_one, hr]
    rfl
  have hforced : forced d first log i = insert r.1 (forced d first (log.take i) i) := by
    have hlast : forced d first (log.take i ++ [r]) (log.take i).length =
        insert r.1 (forced d first (log.take i) (log.take i).length) := forced_last
    rw [hlength] at hlast
    rw [← forced_take, hlog, hlast]
  have hnext := hbefore.isGreatest_next
  rw [hlength] at hnext
  rw [hslot, hforced]
  exact hnext.insert r.1

/-- Every slot is far enough from what is free after it. -/
theorem le_next (h : Reserved d first log next) (hr : log[j]? = some r) :
    r.2 + (log.length - j) • d ≤ next := by
  induction h with
  | start => cases hr
  | @reserve log next now h ih =>
    rw [List.length_append, List.length_singleton]
    rcases getElem?_of_snoc hr with hold | ⟨rfl, rfl⟩
    · obtain ⟨hlt, -⟩ := List.getElem?_eq_some_iff.1 hold
      rw [Nat.succ_sub (Nat.le_of_lt hlt), add_succ_nsmul]
      exact add_le_add_left ((ih hold).trans (le_max_right _ _)) d
    · rw [Nat.add_sub_cancel_left, one_nsmul]

/-- **Two slots are apart** by the distance, as often as there are slots from one to the other. -/
theorem apart (h : Reserved d first log next) (hr : log[i]? = some r) (hr' : log[j]? = some r')
    (hij : j < i) : r'.2 + (i - j) • d ≤ r.2 := by
  obtain ⟨next', hbefore, hslot⟩ := h.take hr
  obtain ⟨hlt, -⟩ := List.getElem?_eq_some_iff.1 hr
  have hlength : (log.take i).length = i := by
    rw [List.length_take]
    omega
  have hle := hbefore.le_next ((List.getElem?_take_of_lt hij).trans hr')
  rw [hlength] at hle
  rw [hslot]
  exact hle.trans (le_max_right _ _)

/-- **No slot is later than it has to be**: it is the first instant that is not before its reading
    and far enough from the slots before, where no reading is before the first instant. -/
theorem isLeast_slot (h : Reserved d first log next) (hr : log[i]? = some r) (hfirst : first ≤ r.1) :
    IsLeast {x | r.1 ≤ x ∧ ∀ j r', j < i → log[j]? = some r' → r'.2 + (i - j) • d ≤ x} r.2 := by
  refine ⟨⟨h.le_slot hr, fun j r' hij hr' => h.apart hr hr' hij⟩, ?_⟩
  intro x hx
  obtain ⟨hown, hbefore⟩ := hx
  obtain ⟨next', hreserved, hslot⟩ := h.take hr
  obtain ⟨hlt, -⟩ := List.getElem?_eq_some_iff.1 hr
  rw [hslot]
  refine max_le hown ?_
  rcases hreserved.next_eq with ⟨-, rfl⟩ | ⟨init, r', htake, rfl⟩
  · exact hfirst.trans hown
  · -- the slot before is the last one of what the log was then
    have hlength : i = init.length + 1 := by
      have hlen := congrArg List.length htake
      rw [List.length_take, List.length_append, List.length_singleton] at hlen
      omega
    subst hlength
    have hr' : log[init.length]? = some r' := by
      rw [← List.getElem?_take_of_lt (Nat.lt_succ_self init.length), htake,
        List.getElem?_concat_length]
    have hle := hbefore init.length r' (Nat.lt_succ_self _) hr'
    rwa [Nat.add_sub_cancel_left, one_nsmul] at hle

end Reserved

end SwiftBitcoinKernel.Logic
