/-
  File:      SwiftBitcoinKernel/Logic/Paths.lean
  Subject:   Paths of a file system without symbolic links, by their components.

  * `components` -- the components of a path, without the empty ones and those that are one dot;
  * `absolute` -- the components of a path that is taken relative to a directory;
  * `normal` -- the file they name: two dots remove the component before;
  * `normal_append` -- components other than two dots stay as they are;
  * `climb` -- components resolved without a directory: how far they go up, and which names they
    come down; `normal_append_climb`, `normal_eq_climb`, `normal_append_eq_iff` -- the file they name
    from a directory or the root, and when that is a given file in the directory;
  * `components_name`, `absolute_name` -- a name without a slash is one component.
-/
import Mathlib.Data.List.DropRight
import Mathlib.Data.List.Induction

namespace SwiftBitcoinKernel.Logic.Paths

variable {α : Type} [DecidableEq α] (slash dot : α)

/-- The components of a path. -/
def components (path : List α) : List (List α) :=
  (path.splitOn slash).filter fun c => c ≠ [] ∧ c ≠ [dot]

/-- The components of a path from the root, for a path relative to a directory. -/
def absolute (directory : List (List α)) (path : List α) : List (List α) :=
  if path.head? = some slash then components slash dot path
  else directory ++ components slash dot path

/-- One more component of the file that is named. -/
def enter (cs : List (List α)) (c : List α) : List (List α) :=
  if c = [dot, dot] then cs.dropLast else cs ++ [c]

/-- The file that some components name. -/
def normal (cs : List (List α)) : List (List α) := cs.foldl (enter dot) []

variable {slash dot}

theorem normal_concat (cs : List (List α)) (c : List α) :
    normal dot (cs ++ [c]) = enter dot (normal dot cs) c := by
  unfold normal
  rw [List.foldl_append, List.foldl_cons, List.foldl_nil]

/-- **Components other than two dots are kept.** -/
theorem normal_append {cs ds : List (List α)} (h : [dot, dot] ∉ ds) :
    normal dot (cs ++ ds) = normal dot cs ++ ds := by
  induction ds generalizing cs with
  | nil => simp
  | cons d ds ih =>
    have hd : ¬ d = [dot, dot] := fun hd => h (hd ▸ List.mem_cons_self)
    have hds : [dot, dot] ∉ ds := fun hds => h (List.mem_cons_of_mem d hds)
    have hone : normal dot (cs ++ [d]) = normal dot cs ++ [d] := by
      rw [normal_concat, enter, if_neg hd]
    rw [List.append_cons, ih hds, hone, ← List.append_cons]

variable (dot) in
/-- One more component, after some ways up and some names down. -/
def climbStep (path : Nat × List (List α)) (c : List α) : Nat × List (List α) :=
  if c = [dot, dot] then
    if path.2 = [] then (path.1 + 1, []) else (path.1, path.2.dropLast)
  else (path.1, path.2 ++ [c])

variable (dot) in
/-- Components resolved by themselves: how many directories they go up, and the names they then come
    down. -/
def climb (cs : List (List α)) : Nat × List (List α) := cs.foldl (climbStep dot) (0, [])

theorem climb_concat (cs : List (List α)) (c : List α) :
    climb dot (cs ++ [c]) = climbStep dot (climb dot cs) c := by
  unfold climb
  rw [List.foldl_append, List.foldl_cons, List.foldl_nil]

omit [DecidableEq α] in
theorem dropLast_rdrop (cs : List (List α)) (k : Nat) :
    (cs.rdrop k).dropLast = cs.rdrop (k + 1) := by
  unfold List.rdrop
  rw [List.dropLast_eq_take, List.take_take, List.length_take]
  congr 1
  omega

/-- **From a directory**, they name what is left of it after going up, and then the names. -/
theorem normal_append_climb (cs ds : List (List α)) :
    normal dot (cs ++ ds) = (normal dot cs).rdrop (climb dot ds).1 ++ (climb dot ds).2 := by
  induction ds using List.reverseRecOn with
  | nil => simp [climb]
  | append_singleton ds d ih =>
    rw [← List.append_assoc, normal_concat, climb_concat, ih, enter, climbStep]
    by_cases hup : d = [dot, dot]
    · rw [if_pos hup, if_pos hup]
      by_cases hnames : (climb dot ds).2 = []
      · rw [if_pos hnames, hnames, List.append_nil, List.append_nil]
        exact dropLast_rdrop _ _
      · rw [if_neg hnames]
        exact List.dropLast_append_of_ne_nil hnames
    · rw [if_neg hup, if_neg hup, List.append_assoc]

/-- From the root, they name what they come down to. -/
theorem normal_eq_climb (cs : List (List α)) : normal dot cs = (climb dot cs).2 := by
  have hroot : normal dot ([] : List (List α)) = [] := rfl
  have hclimb : normal dot ([] ++ cs) = _ := normal_append_climb [] cs
  rw [hroot, List.rdrop_nil, List.nil_append, List.nil_append] at hclimb
  exact hclimb

/-- **They name a file in that directory** just if they come down again what they went up, and then
    to that file. -/
theorem normal_append_eq_iff {cs ds : List (List α)} {name : List α} :
    normal dot (cs ++ ds) = normal dot cs ++ [name] ↔
      (climb dot ds).2 = (normal dot cs).rtake (climb dot ds).1 ++ [name] := by
  have hsplit : normal dot cs =
      (normal dot cs).rdrop (climb dot ds).1 ++ (normal dot cs).rtake (climb dot ds).1 :=
    (List.take_append_drop _ _).symm
  rw [normal_append_climb]
  nth_rewrite 2 [hsplit]
  rw [List.append_assoc, List.append_cancel_left_eq]

/-- A name without a slash, and more than one dot, is one component. -/
theorem components_name {name : List α} (hslash : slash ∉ name) (hne : name ≠ [])
    (hdot : name ≠ [dot]) : components slash dot name = [name] := by
  unfold components
  rw [List.splitOn_eq_singleton hslash]
  simp [hne, hdot]

theorem absolute_name {directory : List (List α)} {name : List α} (hslash : slash ∉ name)
    (hne : name ≠ []) (hdot : name ≠ [dot]) :
    absolute slash dot directory name = directory ++ [name] := by
  have hhead : name.head? ≠ some slash := by
    intro h
    exact hslash (List.mem_of_mem_head? h)
  rw [absolute, if_neg hhead, components_name hslash hne hdot]

end SwiftBitcoinKernel.Logic.Paths
