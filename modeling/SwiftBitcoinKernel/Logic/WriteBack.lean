/-
  File:      SwiftBitcoinKernel/Logic/WriteBack.lean
  Subject:   Write-back caches: what a table of entries over a map stands for.

  A cache over a map holds, for some keys, an entry: a value or a deletion, with two flags. A dirty
  entry is one the map below may not have yet; a fresh one is one of which the map below knows
  nothing, so that its deletion need never be told. The keys of flagged entries are listed, and only
  those are written back. Nothing of any one program is in this file.

  * `Entry`, `Table` -- entries by key, and the list of the flagged keys;
  * `Table.peek` -- the map that a table over a map stands for;
  * `Table.Coherent` -- when the flags are right; `Coherent.set`, `Coherent.erase`,
    `Coherent.below` -- how it is kept;
  * `peek_set`, `peek_erase` -- what a change of one entry does to the map stood for;
  * `write_back` -- if writing one entry into the map below changes this one key as it should, then
    writing the listed entries makes the map below the one stood for.
-/
import Mathlib.Logic.Function.Basic
import Mathlib.Data.List.Nodup

namespace SwiftBitcoinKernel.Logic

variable {K V : Type}

/-! ## 1. Tables -/

/-- A cached value, where `none` is a deletion, and how it stands to the map below. -/
structure Entry (V : Type) where
  value : Option V
  dirty : Bool
  fresh : Bool
  deriving DecidableEq, Repr

/-- Entries by key, and the keys of those that carry a flag, in the order in which they came. -/
structure Table (K V : Type) where
  entries : K → Option (Entry V)
  flagged : List K

namespace Table

/-- No entries. -/
def empty : Table K V := ⟨fun _ => none, []⟩

/-- The map a table over `below` stands for. -/
def peek (t : Table K V) (below : K → Option V) : K → Option V := fun k =>
  match t.entries k with
  | some e => e.value
  | none => below k

variable [DecidableEq K]

/-- An entry is put in place, and listed if it carries a flag. -/
def set (t : Table K V) (k : K) (e : Entry V) : Table K V where
  entries := Function.update t.entries k (some e)
  flagged :=
    if e.dirty || e.fresh then if k ∈ t.flagged then t.flagged else t.flagged ++ [k]
    else t.flagged.erase k

/-- An entry is dropped, and no longer listed. -/
def erase (t : Table K V) (k : K) : Table K V where
  entries := Function.update t.entries k none
  flagged := t.flagged.erase k

end Table

/-- The flags of an entry are right, where the map below has `below` for its key. -/
structure Entry.Ok (e : Entry V) (below : Option V) : Prop where
  fresh : e.fresh = true → below = none ∧ e.dirty = true ∧ e.value ≠ none
  clean : e.dirty = false → e.value = below ∧ below ≠ none

/-- **Coherence** of a table with the map below it. -/
structure Table.Coherent (t : Table K V) (below : K → Option V) : Prop where
  ok : ∀ k e, t.entries k = some e → e.Ok (below k)
  listed : ∀ k, k ∈ t.flagged ↔ ∃ e, t.entries k = some e ∧ e.dirty = true
  nodup : t.flagged.Nodup

variable {t : Table K V} {below below' : K → Option V} {j k : K} {e : Entry V}

/-! ## 2. The map stood for -/

theorem peek_of_entry (h : t.entries k = some e) : t.peek below k = e.value := by
  unfold Table.peek
  rw [h]

theorem peek_of_none (h : t.entries k = none) : t.peek below k = below k := by
  unfold Table.peek
  rw [h]

theorem coherent_empty : (Table.empty : Table K V).Coherent below where
  ok _ _ h := by cases h
  listed _ := ⟨fun h => absurd h List.not_mem_nil, fun h => by obtain ⟨_, h, -⟩ := h; cases h⟩
  nodup := List.nodup_nil

/-- A key that is not listed is as the map below has it. -/
theorem Table.Coherent.peek_of_not_flagged (h : t.Coherent below) (hk : k ∉ t.flagged) :
    t.peek below k = below k := by
  cases hentry : t.entries k with
  | none => exact peek_of_none hentry
  | some e =>
    rw [peek_of_entry hentry]
    cases hdirty : e.dirty with
    | false => exact ((h.ok k e hentry).clean hdirty).1
    | true => exact absurd ((h.listed k).2 ⟨e, hentry, hdirty⟩) hk

variable [DecidableEq K]

@[simp] theorem entries_set_self : (t.set k e).entries k = some e := Function.update_self ..

@[simp] theorem entries_set_of_ne (h : j ≠ k) : (t.set k e).entries j = t.entries j :=
  Function.update_of_ne h ..

@[simp] theorem entries_erase_self : (t.erase k).entries k = none := Function.update_self ..

@[simp] theorem entries_erase_of_ne (h : j ≠ k) : (t.erase k).entries j = t.entries j :=
  Function.update_of_ne h ..

theorem peek_set : (t.set k e).peek below = Function.update (t.peek below) k e.value := by
  funext j
  unfold Table.peek Table.set
  by_cases hj : j = k
  · subst hj
    simp only [Function.update_self]
  · simp only [Function.update_of_ne hj]

theorem peek_erase : (t.erase k).peek below = Function.update (t.peek below) k (below k) := by
  funext j
  unfold Table.peek Table.erase
  by_cases hj : j = k
  · subst hj
    simp only [Function.update_self]
  · simp only [Function.update_of_ne hj]

/-! ## 3. Keeping coherence -/

omit [DecidableEq K] in
theorem Entry.Ok.flag_eq_dirty {b : Option V} (h : e.Ok b) : (e.dirty || e.fresh) = e.dirty := by
  cases hdirty : e.dirty with
  | true => rfl
  | false =>
    cases hfresh : e.fresh with
    | false => rfl
    | true => exact absurd (h.fresh hfresh).2.1 (by rw [hdirty]; decide)

theorem mem_flagged_set (hok : e.Ok (below' k)) (h : t.Coherent below) (j : K) :
    j ∈ (t.set k e).flagged ↔ if j = k then e.dirty = true else j ∈ t.flagged := by
  unfold Table.set
  simp only [hok.flag_eq_dirty]
  cases hdirty : e.dirty with
  | true =>
    by_cases hk : k ∈ t.flagged
    · rw [if_pos rfl, if_pos hk]
      by_cases hj : j = k
      · rw [if_pos hj, hj]
        exact ⟨fun _ => rfl, fun _ => hk⟩
      · rw [if_neg hj]
    · rw [if_pos rfl, if_neg hk, List.mem_append, List.mem_singleton]
      by_cases hj : j = k
      · rw [if_pos hj]
        exact ⟨fun _ => rfl, fun _ => .inr hj⟩
      · rw [if_neg hj]
        exact ⟨fun h => h.resolve_right hj, .inl⟩
  | false =>
    rw [if_neg (by decide), h.nodup.mem_erase_iff]
    by_cases hj : j = k
    · rw [if_pos hj]
      exact ⟨fun h => absurd hj h.1, fun h => (by cases h)⟩
    · rw [if_neg hj]
      exact ⟨And.right, fun h => ⟨hj, h⟩⟩

/-- A right entry is put in place, where the map below may have changed for its key. -/
theorem Table.Coherent.set (h : t.Coherent below) (hsame : ∀ j, j ≠ k → below' j = below j)
    (hok : e.Ok (below' k)) : (t.set k e).Coherent below' where
  ok j e' hj := by
    by_cases hjk : j = k
    · subst hjk
      rw [entries_set_self] at hj
      cases hj
      exact hok
    · rw [entries_set_of_ne hjk] at hj
      rw [hsame j hjk]
      exact h.ok j e' hj
  listed j := by
    rw [mem_flagged_set hok h]
    by_cases hjk : j = k
    · subst hjk
      rw [if_pos rfl, entries_set_self]
      constructor
      · exact fun hdirty => ⟨e, rfl, hdirty⟩
      · intro hj
        obtain ⟨e', hj, hdirty⟩ := hj
        cases hj
        exact hdirty
    · rw [if_neg hjk, h.listed j, entries_set_of_ne hjk]
  nodup := by
    show List.Nodup (if _ then _ else _)
    split
    · split
      · exact h.nodup
      · rename_i hk
        refine List.nodup_append.2 ⟨h.nodup, List.nodup_singleton k, ?_⟩
        rintro j hj _ hk' rfl
        exact hk (List.mem_singleton.1 hk' ▸ hj)
    · exact h.nodup.erase k

/-- An entry is dropped, where the map below may have changed for its key. -/
theorem Table.Coherent.erase (h : t.Coherent below) (hsame : ∀ j, j ≠ k → below' j = below j) :
    (t.erase k).Coherent below' where
  ok j e' hj := by
    by_cases hjk : j = k
    · subst hjk
      rw [entries_erase_self] at hj
      cases hj
    · rw [entries_erase_of_ne hjk] at hj
      rw [hsame j hjk]
      exact h.ok j e' hj
  listed j := by
    show j ∈ t.flagged.erase k ↔ _
    rw [h.nodup.mem_erase_iff]
    by_cases hjk : j = k
    · subst hjk
      rw [entries_erase_self]
      constructor
      · exact fun hj => absurd rfl hj.1
      · intro hj
        obtain ⟨e', hj, -⟩ := hj
        cases hj
    · rw [h.listed j, entries_erase_of_ne hjk]
      exact ⟨And.right, fun hj => ⟨hjk, hj⟩⟩
  nodup := h.nodup.erase k

/-- How many keys are listed after an entry is put in place. -/
theorem length_flagged_set (hok : e.Ok (below k)) :
    (t.set k e).flagged.length + (if k ∈ t.flagged then 1 else 0) =
      t.flagged.length + if e.dirty = true then 1 else 0 := by
  unfold Table.set
  simp only [hok.flag_eq_dirty]
  by_cases hk : k ∈ t.flagged
  · have hpos : 0 < t.flagged.length := List.length_pos_of_mem hk
    cases e.dirty with
    | true => simp only [hk, if_true]
    | false =>
      simp only [hk, if_true, Bool.false_eq_true, if_false, List.length_erase_of_mem hk]
      omega
  · cases e.dirty with
    | true => simp only [hk, if_true, if_false, List.length_append, List.length_singleton]
    | false => simp only [hk, if_false, Bool.false_eq_true, List.erase_of_not_mem hk]

/-! ## 4. Writing back -/

section WriteBack

variable {P ε : Type} (view : P → K → Option V) (good : P → Prop)
  (write : P → K → Entry V → Except ε P)

/-- The entries of the listed keys, written one after another. -/
def Table.writeKeys (t : Table K V) (ks : List K) (p : P) : Except ε P :=
  ks.foldlM (fun p k =>
    match t.entries k with
    | some e => write p k e
    | none => .ok p) p

/-- What the map is where the keys of `ks` have been written. -/
def written (t : Table K V) (below : K → Option V) (ks : List K) : K → Option V := fun k =>
  if k ∈ ks then t.peek below k else below k

theorem written_cons {ks : List K} (hentry : t.entries k = some e) :
    written t (Function.update below k e.value) ks = written t below (k :: ks) := by
  funext j
  unfold written
  by_cases hj : j = k
  · subst hj
    rw [if_pos List.mem_cons_self, peek_of_entry hentry, peek_of_entry hentry, Function.update_self]
    split
    · rfl
    · rfl
  · by_cases hks : j ∈ ks
    · rw [if_pos hks, if_pos (List.mem_cons_of_mem k hks)]
      unfold Table.peek
      cases t.entries j with
      | some e' => rfl
      | none => exact Function.update_of_ne hj ..
    · rw [if_neg hks, if_neg fun hmem => (List.mem_cons.1 hmem).elim hj hks]
      exact Function.update_of_ne hj ..

/-- One entry after another. -/
theorem write_entries (p : P)
    (hwrite : ∀ p k e, good p → e.dirty = true → (e.fresh = true → view p k = none) →
      ∃ p', write p k e = .ok p' ∧ good p' ∧ view p' = Function.update (view p) k e.value)
    (ks : List K) (hnodup : ks.Nodup) (hgood : good p)
    (hks : ∀ k ∈ ks, ∃ e, t.entries k = some e ∧ e.dirty = true ∧
      (e.fresh = true → view p k = none)) :
    ∃ p', t.writeKeys write ks p = .ok p' ∧ good p' ∧ view p' = written t (view p) ks := by
  induction ks generalizing p with
  | nil => exact ⟨p, rfl, hgood, funext fun _ => (if_neg List.not_mem_nil).symm⟩
  | cons k ks ih =>
    obtain ⟨hk, hnodup⟩ := List.nodup_cons.1 hnodup
    obtain ⟨⟨e, hentry, hdirty, hfresh⟩, hks⟩ := List.forall_mem_cons.1 hks
    obtain ⟨p₁, hp₁, hgood₁, hview₁⟩ := hwrite p k e hgood hdirty hfresh
    obtain ⟨p', hp', hgood', hview'⟩ := ih p₁ hnodup hgood₁ fun j hj => by
      obtain ⟨e', hentry', hdirty', hfresh'⟩ := hks j hj
      refine ⟨e', hentry', hdirty', fun hf => ?_⟩
      have hne : j ≠ k := fun h => hk (h ▸ hj)
      rw [hview₁, Function.update_of_ne hne]
      exact hfresh' hf
    refine ⟨p', ?_, hgood', ?_⟩
    · unfold Table.writeKeys
      rw [List.foldlM_cons, hentry]
      show (write p k e >>= _) = _
      rw [hp₁]
      exact hp'
    · rw [hview', hview₁, written_cons hentry]

/-- **Writing back**: the map below becomes the one the table stands for. -/
theorem write_back (p : P)
    (hwrite : ∀ p k e, good p → e.dirty = true → (e.fresh = true → view p k = none) →
      ∃ p', write p k e = .ok p' ∧ good p' ∧ view p' = Function.update (view p) k e.value)
    (hgood : good p) (h : t.Coherent (view p)) :
    ∃ p', t.writeKeys write t.flagged p = .ok p' ∧ good p' ∧ view p' = t.peek (view p) := by
  obtain ⟨p', hp', hgood', hview⟩ := write_entries view good write p hwrite t.flagged h.nodup hgood fun k hk => by
    obtain ⟨e, hentry, hdirty⟩ := (h.listed k).1 hk
    exact ⟨e, hentry, hdirty, fun hfresh => ((h.ok k e hentry).fresh hfresh).1⟩
  refine ⟨p', hp', hgood', hview.trans (funext fun k => ?_)⟩
  unfold written
  split
  · rfl
  · rename_i hk
    exact (h.peek_of_not_flagged hk).symm

end WriteBack

/-! ## 5. Keeping the table after it has been written -/

/-- An entry that has been written: a deletion is dropped, and a value is kept without flags. -/
def Table.settle (t : Table K V) (k : K) : Table K V :=
  match t.entries k with
  | some e => if e.value.isNone then t.erase k else t.set k ⟨e.value, false, false⟩
  | none => t

theorem settle_eq_erase (hentry : t.entries k = some e) (hvalue : e.value = none) :
    t.settle k = t.erase k := by
  unfold Table.settle
  simp only [hentry, hvalue, Option.isNone_none, if_true]

theorem settle_eq_set {v : V} (hentry : t.entries k = some e) (hvalue : e.value = some v) :
    t.settle k = t.set k ⟨some v, false, false⟩ := by
  unfold Table.settle
  simp only [hentry, hvalue, Option.isNone_some, Bool.false_eq_true, if_false]

/-- Settled, it is coherent with the map into which the entry has been written, and stands for the
    same map. -/
theorem Table.Coherent.settle (h : t.Coherent below) (hentry : t.entries k = some e) :
    (t.settle k).Coherent (Function.update below k e.value) ∧
      (t.settle k).peek (Function.update below k e.value) = t.peek below ∧
      (t.settle k).flagged = t.flagged.erase k := by
  have hsame : ∀ j, j ≠ k → Function.update below k e.value j = below j :=
    fun j hj => Function.update_of_ne hj ..
  have hpeek : Function.update (t.peek (Function.update below k e.value)) k e.value =
      t.peek below := by
    funext j
    by_cases hj : j = k
    · rw [hj, Function.update_self, peek_of_entry hentry]
    · rw [Function.update_of_ne hj]
      unfold Table.peek
      rw [hsame j hj]
  cases hvalue : e.value with
  | none =>
    rw [hvalue] at hsame hpeek
    rw [settle_eq_erase hentry hvalue, peek_erase, Function.update_self]
    exact ⟨h.erase hsame, hpeek, rfl⟩
  | some v =>
    rw [hvalue] at hsame hpeek
    rw [settle_eq_set hentry hvalue, peek_set]
    refine ⟨h.set hsame ?_, hpeek, rfl⟩
    rw [Function.update_self]
    exact ⟨fun hf => (by cases hf), fun _ => ⟨rfl, Option.some_ne_none v⟩⟩

/-- **Settling the listed entries** one after another leaves none flagged. -/
theorem settle_flagged (ks : List K) (hks : t.flagged = ks) (h : t.Coherent below) :
    (ks.foldl Table.settle t).Coherent (t.peek below) ∧
      (ks.foldl Table.settle t).flagged = [] ∧
      (ks.foldl Table.settle t).peek (t.peek below) = t.peek below := by
  induction ks generalizing t below with
  | nil =>
    have heq : t.peek below = below := funext fun k =>
      h.peek_of_not_flagged (hks ▸ List.not_mem_nil)
    rw [heq]
    exact ⟨h, hks, heq⟩
  | cons k ks ih =>
    obtain ⟨e, hentry, -⟩ := (h.listed k).1 (hks ▸ List.mem_cons_self)
    obtain ⟨hsettled, hpeek, hflagged⟩ := h.settle hentry
    rw [hks, List.erase_cons_head] at hflagged
    rw [← hpeek]
    exact ih hflagged hsettled

end SwiftBitcoinKernel.Logic
