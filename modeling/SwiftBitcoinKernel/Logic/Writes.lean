/-
  File:      SwiftBitcoinKernel/Logic/Writes.lean
  Subject:   Maps under lists of writes, and maps that are half way from one to another.

  A write gives a key a value, whatever the key had. After a list of writes, a written key has the
  last value written and every other key what it had. So a map of which each key is as before a list
  of writes, or as after it, is brought by the same list to where it leads: an interrupted update can
  be done again. Nothing of any one program is in this file.

  * `writes ws u`, with `writes_append`;
  * `writes_of_not_mem`, `writes_of_mem` -- the two kinds of keys; `writes_eq`;
  * `Between u u' m` -- each key as in one of two maps; `writes_of_between`, `between_writes`.
-/
import Mathlib.Logic.Function.Basic

namespace SwiftBitcoinKernel.Logic

variable {κ β : Type} {u u' m : κ → β} {k : κ}

/-- **Half way**: each key is as in `u`, or as in `u'`. -/
def Between (u u' m : κ → β) : Prop := ∀ k, m k = u k ∨ m k = u' k

theorem between_left : Between u u' u := fun _ => Or.inl rfl

/-- Half way from a map that is half way. -/
theorem Between.trans {m' : κ → β} (h : Between u u' m) (h' : Between m u' m') :
    Between u u' m' := by
  intro k
  obtain hold | hnew := h' k
  · rw [hold]
    exact h k
  · exact Or.inr hnew

variable [DecidableEq κ]

/-- A list of writes, the first one first. -/
def writes (ws : List (κ × β)) (u : κ → β) : κ → β :=
  ws.foldl (fun u w => Function.update u w.1 w.2) u

section Rules

variable {ws : List (κ × β)}

@[simp] theorem writes_nil : writes ([] : List (κ × β)) u = u := rfl

@[simp] theorem writes_cons {w : κ × β} :
    writes (w :: ws) u = writes ws (Function.update u w.1 w.2) := rfl

@[simp] theorem writes_append {vs : List (κ × β)} :
    writes (ws ++ vs) u = writes vs (writes ws u) := List.foldl_append

/-- A key that is not written keeps its value. -/
theorem writes_of_not_mem (h : k ∉ ws.map Prod.fst) : writes ws u k = u k := by
  induction ws generalizing u with
  | nil => rfl
  | cons w ws ih =>
    simp only [List.map_cons, List.mem_cons, not_or] at h
    rw [writes_cons, ih h.2, Function.update_of_ne h.1]

/-- A key that is written has a value that does not depend on what was there. -/
theorem writes_of_mem (h : k ∈ ws.map Prod.fst) : writes ws u k = writes ws u' k := by
  induction ws generalizing u u' with
  | nil => cases h
  | cons w ws ih =>
    rw [writes_cons, writes_cons]
    by_cases hlater : k ∈ ws.map Prod.fst
    · exact ih hlater
    · obtain rfl : k = w.1 := by
        simp only [List.map_cons, List.mem_cons] at h
        exact h.resolve_right hlater
      rw [writes_of_not_mem hlater, writes_of_not_mem hlater, Function.update_self,
        Function.update_self]

/-- **From half way, the writes lead to the same end.** -/
theorem writes_of_between (hend : writes ws u = u') (h : Between u u' m) : writes ws m = u' := by
  funext k
  by_cases hk : k ∈ ws.map Prod.fst
  · rw [writes_of_mem hk, hend]
  · rw [writes_of_not_mem hk]
    obtain hold | hnew := h k
    · rw [hold, ← hend, writes_of_not_mem hk]
    · exact hnew

/-- Values of the second map, written in any number, stay half way. -/
theorem between_writes (h : Between u u' m) (hws : ∀ w ∈ ws, w.2 = u' w.1) :
    Between u u' (writes ws m) := by
  induction ws generalizing m with
  | nil => exact h
  | cons w ws ih =>
    simp only [List.forall_mem_cons] at hws
    rw [writes_cons]
    refine ih (fun k => ?_) hws.2
    by_cases hk : k = w.1
    · rw [hk, Function.update_self, hws.1]
      exact Or.inr rfl
    · rw [Function.update_of_ne hk]
      exact h k

/-- Values of the second map, for every key in which the first one differs, lead to it. -/
theorem writes_eq (hws : ∀ w ∈ ws, w.2 = u' w.1) (hrest : ∀ k, k ∉ ws.map Prod.fst → u k = u' k) :
    writes ws u = u' := by
  induction ws generalizing u with
  | nil =>
    funext k
    exact hrest k List.not_mem_nil
  | cons w ws ih =>
    simp only [List.forall_mem_cons] at hws
    rw [writes_cons]
    refine ih hws.2 (fun k hk => ?_)
    by_cases hkw : k = w.1
    · rw [hkw, Function.update_self, hws.1]
    · rw [Function.update_of_ne hkw]
      refine hrest k ?_
      simp only [List.map_cons, List.mem_cons, not_or]
      exact ⟨hkw, hk⟩

end Rules

end SwiftBitcoinKernel.Logic
