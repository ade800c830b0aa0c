/-
  File:      SwiftBitcoinKernel/Logic/Splitting.lean
  Subject:   Texts as sequences of characters, and the split of a sequence at a separator.

  A text is stored as a list of units, and read as a list of characters, each a run of units: where
  one character ends depends on its neighbours, so a separator that is put between two texts need
  not be a character of what comes out. Nothing of any one program is in this file.

  * `Collection.split` -- at most so many splits at a separator, with or without the empty pieces;
  * `Collection.split_once` -- two pieces, without the empty ones: separators in front are dropped,
    those in the second piece are kept; `Collection.exists_split_once` -- when there are two;
  * `Segmentation` -- how texts are cut into characters; `Segmentation.pairwise`, for a rule on
    neighbours, and `Segmentation.units`, where every unit is a character;
  * `Segmentation.split_once` -- the two pieces of a text, as texts.
-/
import Mathlib.Data.List.SplitBy

namespace SwiftBitcoinKernel.Logic

variable {α : Type}

/-! ## 1. The split -/

namespace Collection

/-- A piece among the answers, unless it is empty and such pieces are omitted. -/
def kept (omitting : Bool) (piece : List α) : List (List α) :=
  if omitting && piece.isEmpty then [] else [piece]

theorem kept_eq_singleton {b l : List α} : kept true l = [b] ↔ l = b ∧ b ≠ [] := by
  unfold kept
  cases l with
  | nil => simp
  | cons x l =>
    simp only [List.isEmpty_cons, Bool.and_false, Bool.false_eq_true, if_false, List.cons.injEq,
      and_true, iff_self_and]
    rintro rfl
    exact List.cons_ne_nil x l

variable [DecidableEq α]

/-- The loop of a split: `piece` is what there is since the last separator, and `more` the number of
    splits after the next one. A piece that is left out is no split. -/
def splitLoop (separator : α) (omitting : Bool) : (more : Nat) → (piece rest : List α) →
    List (List α)
  | _, piece, [] => kept omitting piece
  | more, piece, x :: rest =>
    if x = separator then
      if omitting && piece.isEmpty then splitLoop separator omitting more [] rest
      else
        match more with
        | 0 => piece :: kept omitting rest
        | more + 1 => piece :: splitLoop separator omitting more [] rest
    else splitLoop separator omitting more (piece ++ [x]) rest

/-- The pieces of `l`, after at most `maxSplits` splits. -/
def split (separator : α) (maxSplits : Nat) (omitting : Bool) (l : List α) : List (List α) :=
  match maxSplits with
  | 0 => kept omitting l
  | more + 1 => splitLoop separator omitting more [] l

variable {c : α} {a b l : List α}

/-- Once a piece has begun, it ends at the next separator, and the rest is the second one. -/
theorem splitLoop_begun {piece : List α} (hpiece : piece ≠ []) :
    splitLoop c true 0 piece l = [a, b] ↔
      ∃ run, a = piece ++ run ∧ l = run ++ c :: b ∧ c ∉ run ∧ b ≠ [] := by
  induction l generalizing piece with
  | nil => simp [splitLoop, kept, hpiece]
  | cons y l ih =>
    have hkept : (true && piece.isEmpty) = false := by simpa using hpiece
    rw [splitLoop]
    by_cases hy : y = c
    · subst hy
      rw [if_pos rfl, hkept, if_neg Bool.false_ne_true]
      simp only [List.cons.injEq, kept_eq_singleton]
      constructor
      · rintro ⟨rfl, rfl, hb⟩
        exact ⟨[], (List.append_nil _).symm, rfl, List.not_mem_nil, hb⟩
      · rintro ⟨run, rfl, hl, hrun, hb⟩
        cases run with
        | nil =>
          obtain ⟨-, rfl⟩ := List.cons.inj hl
          exact ⟨(List.append_nil _).symm, rfl, hb⟩
        | cons z run =>
          obtain ⟨rfl, -⟩ := List.cons.inj hl
          exact absurd List.mem_cons_self hrun
    · have hnext : piece ++ [y] ≠ [] := List.append_ne_nil_of_right_ne_nil _ (List.cons_ne_nil y [])
      rw [if_neg hy, ih hnext]
      constructor
      · rintro ⟨run, rfl, rfl, hrun, hb⟩
        refine ⟨y :: run, by simp, rfl, ?_, hb⟩
        rw [List.mem_cons, not_or]
        exact ⟨fun h => hy h.symm, hrun⟩
      · rintro ⟨run, rfl, hl, hrun, hb⟩
        cases run with
        | nil => exact absurd (List.cons.inj hl).1 hy
        | cons z run =>
          obtain ⟨rfl, rfl⟩ := List.cons.inj hl
          exact ⟨run, by simp, rfl, fun h => hrun (List.mem_cons_of_mem _ h), hb⟩

/-- **One split without empty pieces**: separators in front go, and the first after them that
    follows something else splits. -/
theorem split_once : split c 1 true l = [a, b] ↔
    ∃ k, l = List.replicate k c ++ (a ++ c :: b) ∧ a ≠ [] ∧ c ∉ a ∧ b ≠ [] := by
  rw [split]
  induction l with
  | nil => simp [splitLoop, kept]
  | cons y l ih =>
    rw [splitLoop]
    by_cases hy : y = c
    · subst hy
      rw [if_pos rfl]
      refine ih.trans ?_
      constructor
      · rintro ⟨k, rfl, ha, hmem, hb⟩
        exact ⟨k + 1, rfl, ha, hmem, hb⟩
      · rintro ⟨k, hl, ha, hmem, hb⟩
        cases k with
        | zero =>
          -- `a` is not empty, so it would begin with the separator
          obtain ⟨z, a, rfl⟩ := List.exists_cons_of_ne_nil ha
          obtain ⟨rfl, -⟩ := List.cons.inj hl
          exact absurd List.mem_cons_self hmem
        | succ k => exact ⟨k, (List.cons.inj hl).2, ha, hmem, hb⟩
    · rw [if_neg hy, List.nil_append, splitLoop_begun (List.cons_ne_nil y [])]
      constructor
      · rintro ⟨run, rfl, rfl, hrun, hb⟩
        refine ⟨0, rfl, List.cons_ne_nil y run, ?_, hb⟩
        rw [List.singleton_append, List.mem_cons, not_or]
        exact ⟨fun h => hy h.symm, hrun⟩
      · rintro ⟨k, hl, ha, hmem, hb⟩
        cases k with
        | zero =>
          obtain ⟨z, a, rfl⟩ := List.exists_cons_of_ne_nil ha
          obtain ⟨rfl, rfl⟩ := List.cons.inj hl
          exact ⟨a, rfl, rfl, fun h => hmem (List.mem_cons_of_mem _ h), hb⟩
        | succ k => exact absurd (List.cons.inj hl).1 hy

/-- **There are two pieces** just if a separator stands between something else and the end. -/
theorem exists_split_once : (∃ a b, split c 1 true l = [a, b]) ↔
    ∃ front back, l = front ++ c :: back ∧ back ≠ [] ∧ ∃ x ∈ front, x ≠ c := by
  simp only [split_once]
  constructor
  · rintro ⟨a, b, k, rfl, ha, hmem, hb⟩
    obtain ⟨x, hx⟩ := List.exists_mem_of_ne_nil a ha
    refine ⟨List.replicate k c ++ a, b, by simp, hb, x, List.mem_append_right _ hx, ?_⟩
    rintro rfl
    exact hmem hx
  · rintro ⟨front, back, rfl, hback, x, hx, hne⟩
    -- by the first member of `front`: a separator is dropped, anything else begins the first piece
    induction front with
    | nil => cases hx
    | cons y front ih =>
      by_cases hy : y = c
      · have hx' : x ∈ front := by
          rcases List.mem_cons.1 hx with rfl | hx
          · exact absurd hy hne
          · exact hx
        obtain ⟨a, b, k, hl, hpieces⟩ := ih hx'
        refine ⟨a, b, k + 1, ?_, hpieces⟩
        rw [List.cons_append, hl, hy]
        rfl
      · by_cases hmem : c ∈ front
        · obtain ⟨run, rest, rfl, hrun⟩ := List.eq_append_cons_of_mem hmem
          exact ⟨y :: run, rest ++ c :: back, 0, by simp, List.cons_ne_nil y run,
            List.not_mem_cons_of_ne_of_not_mem (Ne.symm hy) hrun, by simp⟩
        · exact ⟨y :: front, back, 0, rfl, List.cons_ne_nil y front,
            List.not_mem_cons_of_ne_of_not_mem (Ne.symm hy) hmem, hback⟩

end Collection

/-! ## 2. Characters -/

/-- How texts are cut into characters. A run of the characters of a text, taken as a text of its
    own, has the same characters. -/
structure Segmentation (α : Type) where
  cut : List α → List (List α)
  flatten_cut : ∀ l, (cut l).flatten = l
  nil_notMem_cut : ∀ l, [] ∉ cut l
  cut_run : ∀ {l : List α} {before run after : List (List α)}, cut l = before ++ (run ++ after) →
    cut run.flatten = run

namespace Segmentation

/-- Two neighbours are of one character just if they join. -/
def pairwise (joins : α → α → Bool) : Segmentation α where
  cut := List.splitBy joins
  flatten_cut := List.flatten_splitBy joins
  nil_notMem_cut := List.nil_notMem_splitBy joins
  cut_run {l before run after} h := by
    have hmem : ∀ m ∈ run, m ∈ l.splitBy joins := by
      intro m hm
      rw [h]
      exact List.mem_append_right _ (List.mem_append_left _ hm)
    refine List.splitBy_flatten ?_ (fun m hm => List.isChain_of_mem_splitBy (hmem m hm)) ?_
    · exact fun hnil => List.nil_notMem_splitBy joins l (hmem [] hnil)
    · have hchain := List.isChain_getLast_head_splitBy joins l
      rw [h] at hchain
      exact hchain.right_of_append.left_of_append

/-- Every unit is a character. -/
def units : Segmentation α := pairwise fun _ _ => false

theorem units_cut (l : List α) : units.cut l = l.map fun x => [x] := by
  refine List.splitBy_eq_iff.2 ⟨?_, ?_, ?_, ?_⟩
  · induction l with
    | nil => rfl
    | cons x l ih => exact congrArg (x :: ·) ih
  · simp
  · simp
  · rw [List.isChain_map]
    refine List.isChain_iff_forall_rel_of_append_cons_cons.2 fun x y _ _ _ => ?_
    exact ⟨List.cons_ne_nil x [], List.cons_ne_nil y [], rfl⟩

variable (G : Segmentation α) {x : α} {a b l : List α} {A B : List (List α)}

theorem cut_eq_nil : G.cut l = [] ↔ l = [] := by
  constructor
  · intro h
    have hl := G.flatten_cut l
    rw [h] at hl
    exact hl.symm
  · rintro rfl
    refine List.eq_nil_iff_forall_not_mem.2 fun m hm => ?_
    have hm' : m = [] := List.flatten_eq_nil_iff.1 (G.flatten_cut []) m hm
    exact G.nil_notMem_cut [] (hm' ▸ hm)

/-- A text that has no character `[x]` begins with another one. -/
theorem head?_cut_append_ne (ha : a ≠ []) (hx : [x] ∉ G.cut a) :
    (G.cut a ++ B).head? ≠ some [x] := by
  obtain ⟨first, rest, hfirst⟩ := List.exists_cons_of_ne_nil fun h => ha (G.cut_eq_nil.1 h)
  rw [hfirst, List.mem_cons, not_or] at hx
  rw [hfirst, List.cons_append, List.head?_cons]
  intro h
  exact hx.1 (Option.some.inj h).symm

/-- What stands before and after a character of a text, as texts. -/
theorem cut_around {before A : List (List α)} (h : G.cut l = before ++ (A ++ [x] :: B)) :
    G.cut A.flatten = A ∧ G.cut B.flatten = B := by
  refine ⟨G.cut_run h, ?_⟩
  have hlast : G.cut l = (before ++ (A ++ [[x]])) ++ (B ++ []) := by simp [h]
  exact G.cut_run hlast

/-- **A text split once at the character `x`**: the two pieces, as texts. -/
theorem split_once [DecidableEq α] : Collection.split [x] 1 true (G.cut l) = [A, B] ↔
    ∃ k a b, A = G.cut a ∧ B = G.cut b ∧
      G.cut l = List.replicate k [x] ++ (G.cut a ++ [x] :: G.cut b) ∧
        a ≠ [] ∧ [x] ∉ G.cut a ∧ b ≠ [] := by
  rw [Collection.split_once]
  constructor
  · rintro ⟨k, hl, hA, hmem, hB⟩
    obtain ⟨hcutA, hcutB⟩ := G.cut_around hl
    refine ⟨k, A.flatten, B.flatten, hcutA.symm, hcutB.symm, ?_, ?_, ?_, ?_⟩
    · rw [hcutA, hcutB]
      exact hl
    · rwa [ne_eq, ← G.cut_eq_nil, hcutA]
    · rwa [hcutA]
    · rwa [ne_eq, ← G.cut_eq_nil, hcutB]
  · rintro ⟨k, a, b, rfl, rfl, hl, ha, hmem, hb⟩
    exact ⟨k, hl, fun h => ha (G.cut_eq_nil.1 h), hmem, fun h => hb (G.cut_eq_nil.1 h)⟩

/-- The unit `x` is a character of its own between the two texts. -/
def Apart (a : List α) (x : α) (b : List α) : Prop :=
  G.cut (a ++ x :: b) = G.cut a ++ [x] :: G.cut b

theorem units_apart (a : List α) (x : α) (b : List α) : units.Apart a x b := by
  unfold Apart
  simp only [units_cut, List.map_append, List.map_cons]

end Segmentation

end SwiftBitcoinKernel.Logic
