/-
  File:      SwiftBitcoinKernel/Logic/Rules.lean
  Subject:   Options given in sequence, of which the last counts, and rules checked in order.

  * `lastBy`, `lastBy_eq_some`, `lastBy_eq_none`, `lastBy_of_mem`, `lastBy_concat` -- the last of the
    items with a key; `getLast?_filterMap` -- what it assigns is what is assigned last;
  * `verdict` -- the first fatal rule that holds, or else an answer;
  * `Agree`, `verdict_eq_iff` -- two verdicts are the same just if the rules that are reached hold of
    both, or of neither.
-/
import Mathlib.Data.List.Induction
import Mathlib.Data.List.Nodup

namespace SwiftBitcoinKernel.Logic

/-! ## 1. The last one counts -/

section Last

variable {α κ : Type} [DecidableEq κ] (key : α → κ)

/-- The last of the items with a key. -/
def lastBy (k : κ) (xs : List α) : Option α := (xs.filter (key · = k)).getLast?

variable {key}

theorem lastBy_eq_some {k : κ} {xs : List α} {x : α} (h : lastBy key k xs = some x) :
    x ∈ xs ∧ key x = k := by
  have hmem := List.mem_of_getLast? h
  simpa using hmem

theorem lastBy_eq_none {k : κ} {xs : List α} : lastBy key k xs = none ↔ ∀ x ∈ xs, key x ≠ k := by
  unfold lastBy
  rw [List.getLast?_eq_none_iff, List.filter_eq_nil_iff]
  simp

theorem lastBy_concat (k : κ) (xs : List α) (x : α) :
    lastBy key k (xs ++ [x]) = if key x = k then some x else lastBy key k xs := by
  unfold lastBy
  by_cases h : key x = k <;> simp [h]

/-- What the items with a key assign is, at the end, what the last of them assigned. -/
theorem getLast?_filterMap {β : Type} {k : κ} {assigned : α → Option β}
    (h : ∀ x, (assigned x).isSome = true ↔ key x = k) (xs : List α) :
    (xs.filterMap assigned).getLast? = (lastBy key k xs).bind assigned := by
  induction xs using List.reverseRecOn with
  | nil => rfl
  | append_singleton xs x ih =>
    rw [List.filterMap_append, lastBy_concat]
    cases hx : assigned x with
    | none =>
      have hkey : key x ≠ k := fun hkey => by simpa [hx] using (h x).mpr hkey
      simp [hx, hkey, ih]
    | some b =>
      have hkey : key x = k := (h x).mp (by simp [hx])
      simp [hx, hkey]

/-- Of an item there is a last one of its key. -/
theorem lastBy_of_mem {xs : List α} {x : α} (h : x ∈ xs) :
    ∃ y ∈ xs, key y = key x ∧ lastBy key (key x) xs = some y := by
  cases hlast : lastBy key (key x) xs with
  | none => exact absurd rfl (lastBy_eq_none.mp hlast x h)
  | some y =>
    obtain ⟨hy, hkey⟩ := lastBy_eq_some hlast
    exact ⟨y, hy, hkey, rfl⟩

end Last

/-! ## 2. Rules in order -/

section Verdict

variable {ε ω : Type}

/-- The first of the fatal rules that holds, or else the answer. -/
def verdict (holds : ε → Bool) (answer : ω) : List ε → Except ε ω
  | [] => .ok answer
  | e :: es => if holds e then .error e else verdict holds answer es

/-- Two readings agree on every rule that the first one reaches, and on the rest if it reaches
    the end. -/
def Agree (holds holds' : ε → Bool) (rest : Prop) : List ε → Prop
  | [] => rest
  | e :: es => holds e = holds' e ∧ (holds e = false → Agree holds holds' rest es)

theorem mem_of_verdict_error {holds : ε → Bool} {answer : ω} {es : List ε} {e : ε}
    (h : verdict holds answer es = .error e) : e ∈ es ∧ holds e = true := by
  induction es with
  | nil => cases h
  | cons e' es ih =>
    unfold verdict at h
    split at h
    next hholds =>
      cases h
      exact ⟨List.mem_cons_self, hholds⟩
    next =>
      obtain ⟨hmem, hholds⟩ := ih h
      exact ⟨List.mem_cons_of_mem e' hmem, hholds⟩

theorem verdict_ok {holds : ε → Bool} {answer answer' : ω} {es : List ε}
    (h : verdict holds answer es = .ok answer') : answer' = answer ∧ ∀ e ∈ es, holds e = false := by
  induction es with
  | nil =>
    cases h
    exact ⟨rfl, by simp⟩
  | cons e es ih =>
    unfold verdict at h
    split at h
    next => cases h
    next hholds =>
      obtain ⟨hanswer, hes⟩ := ih h
      refine ⟨hanswer, ?_⟩
      intro e' he'
      rcases List.mem_cons.mp he' with rfl | he'
      · simpa using hholds
      · exact hes e' he'

/-- **Two verdicts are the same just if the readings agree on what is reached.** -/
theorem verdict_eq_iff {holds holds' : ε → Bool} {answer answer' : ω} {es : List ε}
    (hes : es.Nodup) :
    verdict holds answer es = verdict holds' answer' es ↔
      Agree holds holds' (answer = answer') es := by
  induction es with
  | nil => exact ⟨fun h => Except.ok.inj h, fun h => congrArg Except.ok h⟩
  | cons e es ih =>
    obtain ⟨he, hes⟩ := List.nodup_cons.mp hes
    -- a rule that holds of one reading only is no later verdict of the other
    have hlater : ∀ (holds : ε → Bool) (answer : ω), verdict holds answer es ≠ .error e := by
      intro holds answer h
      exact he (mem_of_verdict_error h).1
    cases h : holds e <;> cases h' : holds' e
    · simp only [verdict, Agree, h, h', ih hes, Bool.false_eq_true, if_false, true_and, forall_const]
    · simp [verdict, Agree, h, h', hlater]
    · simp [verdict, Agree, h, h', (hlater _ _).symm]
    · simp [verdict, Agree, h, h']

theorem filter_eq_filter_iff {xs : List ω} {p q : ω → Bool} :
    xs.filter p = xs.filter q ↔ ∀ x ∈ xs, p x = q x := by
  refine ⟨?_, List.filter_congr⟩
  intro h x hx
  have hmem : x ∈ xs.filter p ↔ x ∈ xs.filter q := by rw [h]
  simp only [List.mem_filter, hx, true_and] at hmem
  exact Bool.eq_iff_iff.mpr hmem

end Verdict

end SwiftBitcoinKernel.Logic
