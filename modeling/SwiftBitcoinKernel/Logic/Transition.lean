/-
  File:      SwiftBitcoinKernel/Logic/Transition.lean
  Subject:   Machines whose steps interleave: runs, runs under a condition, invariants.

  A concurrent program is a machine that takes one labelled step after another, in any order in
  which the labels are enabled. Nothing of any one program is in this file.

  * `Machine` -- a first state, and for every label a partial step;
  * `Machine.Path ok` -- the paths all of whose steps are `ok` in the state before them, and
    `Machine.Run ok` -- those from the start; the runs under `Machine.always` are all runs;
  * `Path.invariant` -- what holds at first and is kept by every such step holds in the end;
    `Path.trans`, `Path.split` -- paths are joined and cut;
  * `Machine.exec` -- runs, computed; `exec_run` says that what is computed is a run;
  * `getElem?_of_set`, `getElem?_of_snoc`, `exists_mem_set`, `exists_set_of_not`,
    `exists_mem_snoc` -- a pool of threads, of which one moves on or a new one comes: what is there
    after, and what still is.
-/
import Mathlib.Logic.Basic

namespace SwiftBitcoinKernel.Logic

/-- A machine: where it starts, and what a label does in a state, where it is enabled. -/
structure Machine (σ ℓ : Type) where
  start : σ
  step : σ → ℓ → Option σ

namespace Machine

variable {σ ℓ : Type} {M : Machine σ ℓ} {ok : σ → ℓ → Prop} {ls : List ℓ} {s₀ s s' s₁ : σ}
  {a : ℓ}

/-- The condition every step meets. -/
def always : σ → ℓ → Prop := fun _ _ => True

instance (s : σ) (a : ℓ) : Decidable (always s a) := inferInstanceAs (Decidable True)

/-- `M.Path ok s₀ ls s`: the steps `ls`, each `ok` in the state before it, lead from `s₀` to `s`. -/
inductive Path (M : Machine σ ℓ) (ok : σ → ℓ → Prop) (s₀ : σ) : List ℓ → σ → Prop where
  | refl : Path M ok s₀ [] s₀
  | step {ls : List ℓ} {s s' : σ} {a : ℓ} (before : Path M ok s₀ ls s) (hok : ok s a)
      (hstep : M.step s a = some s') : Path M ok s₀ (ls ++ [a]) s'

/-- A path from the start. -/
abbrev Run (M : Machine σ ℓ) (ok : σ → ℓ → Prop) : List ℓ → σ → Prop := M.Path ok M.start

/-- **Invariants**: what the first state has and every step keeps, the last one has. -/
theorem Path.invariant {I : σ → Prop} (h : M.Path ok s₀ ls s) (hfirst : I s₀)
    (hkeep : ∀ s a s', I s → ok s a → M.step s a = some s' → I s') : I s := by
  induction h with
  | refl => exact hfirst
  | step _ hok hstep ih => exact hkeep _ _ _ ih hok hstep

/-- A condition that asks for less. -/
theorem Path.mono {ok' : σ → ℓ → Prop} (h : M.Path ok s₀ ls s) (hok : ∀ s a, ok s a → ok' s a) :
    M.Path ok' s₀ ls s := by
  induction h with
  | refl => exact .refl
  | step _ ha hstep ih => exact .step ih (hok _ _ ha) hstep

theorem Path.trans {more : List ℓ} (h : M.Path ok s₀ ls s) (h' : M.Path ok s more s') :
    M.Path ok s₀ (ls ++ more) s' := by
  induction h' with
  | refl =>
    rw [List.append_nil]
    exact h
  | step _ hok hstep ih =>
    rw [← List.append_assoc]
    exact .step ih hok hstep

/-- A first step, and the rest. -/
theorem Path.head {more : List ℓ} (hok : ok s a) (hstep : M.step s a = some s')
    (h : M.Path ok s' more s₁) : M.Path ok s (a :: more) s₁ :=
  (Path.step .refl hok hstep).trans h

/-- A path is cut where its labels are. -/
theorem Path.split {more : List ℓ} (h : M.Path ok s₀ (ls ++ more) s) :
    ∃ s', M.Path ok s₀ ls s' ∧ M.Path ok s' more s := by
  generalize hall : ls ++ more = all at h
  induction h generalizing more with
  | refl =>
    obtain ⟨rfl, rfl⟩ := List.append_eq_nil_iff.1 hall
    exact ⟨s₀, .refl, .refl⟩
  | @step before s s' a hbefore hok hstep ih =>
    rcases List.eq_nil_or_concat more with rfl | ⟨init, last, rfl⟩
    · rw [List.append_nil] at hall
      subst hall
      exact ⟨s', .step hbefore hok hstep, .refl⟩
    · rw [List.concat_eq_append] at hall ⊢
      rw [← List.append_assoc] at hall
      obtain ⟨rfl, hlast⟩ := List.append_inj' hall rfl
      cases hlast
      obtain ⟨s₁, hfirst, hrest⟩ := ih rfl
      exact ⟨s₁, hfirst, .step hrest hok hstep⟩

/-- A path of no steps stays. -/
theorem Path.eq_of_nil (h : M.Path ok s₀ [] s) : s = s₀ := by
  generalize hnil : [] = ls at h
  cases h with
  | refl => rfl
  | step => exact absurd hnil.symm (List.append_ne_nil_of_right_ne_nil _ (List.cons_ne_nil _ _))

/-- The first step, and the rest. -/
theorem Path.uncons {more : List ℓ} (h : M.Path ok s₀ (a :: more) s) :
    ∃ s', ok s₀ a ∧ M.step s₀ a = some s' ∧ M.Path ok s' more s := by
  have hcut : M.Path ok s₀ ([a] ++ more) s := h
  obtain ⟨s', hfirst, hrest⟩ := hcut.split
  generalize hone : [a] = one at hfirst
  cases hfirst with
  | refl => cases hone
  | step before hok hstep =>
    obtain ⟨rfl, hlast⟩ := List.append_inj' ((List.nil_append _).trans hone) rfl
    cases hlast
    cases before.eq_of_nil
    exact ⟨s', hok, hstep, hrest⟩

/-! ## Computing a run -/

variable [∀ s a, Decidable (ok s a)]

/-- The steps `ls` from `s` on, where each is enabled and `ok`. -/
def execFrom (M : Machine σ ℓ) (ok : σ → ℓ → Prop) [∀ s a, Decidable (ok s a)] :
    σ → List ℓ → Option σ
  | s, [] => some s
  | s, a :: ls => if ok s a then (M.step s a).bind fun s' => M.execFrom ok s' ls else none

/-- The steps `ls` from the start. -/
def exec (M : Machine σ ℓ) (ok : σ → ℓ → Prop) [∀ s a, Decidable (ok s a)] (ls : List ℓ) :
    Option σ :=
  M.execFrom ok M.start ls

theorem execFrom_path {more : List ℓ} (h : M.execFrom ok s more = some s') :
    M.Path ok s more s' := by
  induction more generalizing s with
  | nil =>
    cases h
    exact .refl
  | cons a more ih =>
    unfold execFrom at h
    split at h
    · rename_i hok
      obtain ⟨s₁, hstep, hrest⟩ := Option.bind_eq_some_iff.1 h
      exact .head hok hstep (ih hrest)
    · cases h

theorem exec_run (h : M.exec ok ls = some s) : M.Run ok ls s := execFrom_path h

end Machine

/-! ## A pool of threads -/

section Pool

variable {α : Type} {P : α → Prop} {l : List α} {i j : Nat} {x y : α}

/-- Where thread `i` has moved on to `y`, the others are as they were. -/
theorem getElem?_of_set (h : (l.set i y)[j]? = some x) :
    (j = i ∧ x = y) ∨ (j ≠ i ∧ l[j]? = some x) := by
  by_cases hij : i = j
  · subst hij
    obtain ⟨hlt, -⟩ := List.getElem?_eq_some_iff.1 h
    rw [List.length_set] at hlt
    rw [List.getElem?_set_self hlt] at h
    exact .inl ⟨rfl, (Option.some.inj h).symm⟩
  · rw [List.getElem?_set_ne hij] at h
    exact .inr ⟨Ne.symm hij, h⟩

/-- Where `y` has come, the others are as they were. -/
theorem getElem?_of_snoc (h : (l ++ [y])[i]? = some x) :
    l[i]? = some x ∨ (i = l.length ∧ x = y) := by
  by_cases hlt : i < l.length
  · rw [List.getElem?_append_left hlt] at h
    exact .inl h
  · obtain ⟨hle, -⟩ := List.getElem?_eq_some_iff.1 h
    rw [List.length_append, List.length_singleton] at hle
    obtain rfl : i = l.length := by omega
    rw [List.getElem?_concat_length] at h
    exact .inr ⟨rfl, (Option.some.inj h).symm⟩

/-- Where one thread has moved on, a thread with `P` was there before, or is the one that moved. -/
theorem exists_mem_set (h : ∃ z ∈ l.set i y, P z) : (∃ z ∈ l, P z) ∨ P y := by
  obtain ⟨z, hz, hp⟩ := h
  rcases List.mem_or_eq_of_mem_set hz with hz | rfl
  · exact .inl ⟨z, hz, hp⟩
  · exact .inr hp

/-- A thread with `P` is still there when one without it moves on. -/
theorem exists_set_of_not (h : ∃ z ∈ l, P z) (hi : l[i]? = some x) (hx : ¬P x) :
    ∃ z ∈ l.set i y, P z := by
  obtain ⟨z, hz, hp⟩ := h
  obtain ⟨j, hj⟩ := List.mem_iff_getElem?.1 hz
  have hij : i ≠ j := by
    rintro rfl
    rw [hi] at hj
    cases hj
    exact hx hp
  have hget : (l.set i y)[j]? = some z := (List.getElem?_set_ne hij).trans hj
  exact ⟨z, List.mem_of_getElem? hget, hp⟩

/-- Where a thread has come, a thread with `P` was there before, or is the new one. -/
theorem exists_mem_snoc (h : ∃ z ∈ l ++ [y], P z) : (∃ z ∈ l, P z) ∨ P y := by
  obtain ⟨z, hz, hp⟩ := h
  rcases List.mem_append.1 hz with hz | hz
  · exact .inl ⟨z, hz, hp⟩
  · exact .inr (List.mem_singleton.1 hz ▸ hp)

end Pool

end SwiftBitcoinKernel.Logic
