import Mathlib.Tactic

/-!
# Lexical normalisation of paths

A path is a text that is cut into components at its separators.  Read from left
to right, an empty component and `.` do nothing, `..` leaves the directory just
entered, or nothing at the root, and any other component is the name of a
directory to enter.  What is then left is the normal form of the path.

Behind a directory a path first climbs and then descends: all that matters of it
is how far it climbs and which names remain.

## Main definitions

* `PathSyntax` — the separator and the two components with a meaning.
* `PathSyntax.norm` — the normal form of an absolute path.
* `PathSyntax.climbs`, `PathSyntax.remains` — how far a path climbs above its
  start, and the names it then enters.

## Main results

* `PathSyntax.walk_eq` — a walk climbs, then descends.
* `PathSyntax.norm_append` — the normal form of a path behind a directory.
* `PathSyntax.prefix_norm_append_iff` — **the paths that stay in their
  directory.**
-/

namespace KernelStudy

/-- How paths are spelled. -/
structure PathSyntax (α : Type*) where
  /-- The separator. -/
  sep : α
  /-- The component for the directory itself. -/
  current : List α
  /-- The component for the directory above. -/
  parent : List α

namespace PathSyntax

variable {α : Type*} [DecidableEq α] (σ : PathSyntax α)

/-- The directory after one more component. -/
def push (dir : List (List α)) (c : List α) : List (List α) :=
  if c = [] ∨ c = σ.current then dir
  else if c = σ.parent then dir.dropLast
  else dir ++ [c]

/-- The directory after a walk along some components. -/
def walk (dir : List (List α)) (cs : List (List α)) : List (List α) := cs.foldl σ.push dir

/-- The normal form of an absolute path. -/
def norm (path : List α) : List (List α) := σ.walk [] (path.splitOn σ.sep)

/-- One more component for a path that has climbed some levels and then entered
some names. -/
def relPush (r : ℕ × List (List α)) (c : List α) : ℕ × List (List α) :=
  if c = [] ∨ c = σ.current then r
  else if c = σ.parent then (if r.2 = [] then (r.1 + 1, []) else (r.1, r.2.dropLast))
  else (r.1, r.2 ++ [c])

/-- The levels that some components climb, and the names that remain. -/
def relative (cs : List (List α)) : ℕ × List (List α) := cs.foldl σ.relPush (0, [])

/-- How far a path climbs above its start. -/
def climbs (path : List α) : ℕ := (σ.relative (path.splitOn σ.sep)).1

/-- The names that a path enters and does not leave. -/
def remains (path : List α) : List (List α) := (σ.relative (path.splitOn σ.sep)).2

/-- One component, in any directory. -/
theorem push_relative (dir : List (List α)) (r : ℕ × List (List α)) (c : List α) :
    σ.push (dir.take (dir.length - r.1) ++ r.2) c =
      dir.take (dir.length - (σ.relPush r c).1) ++ (σ.relPush r c).2 := by
  unfold push relPush
  by_cases hskip : c = [] ∨ c = σ.current
  · rw [if_pos hskip, if_pos hskip]
  · rw [if_neg hskip, if_neg hskip]
    by_cases hup : c = σ.parent
    · rw [if_pos hup, if_pos hup]
      by_cases hnil : r.2 = []
      · -- no name to leave, so one more level of the directory goes
        rw [if_pos hnil, hnil, List.append_nil, List.append_nil, List.dropLast_eq_take,
          List.take_take]
        congr 1
        rw [List.length_take]
        omega
      · rw [if_neg hnil, List.dropLast_append_of_ne_nil hnil]
    · rw [if_neg hup, if_neg hup, List.append_assoc]

/-- **A walk climbs, then descends**: what it does to a directory depends on
nothing else. -/
theorem walk_eq (dir cs : List (List α)) :
    σ.walk dir cs = dir.take (dir.length - (σ.relative cs).1) ++ (σ.relative cs).2 := by
  induction cs using List.reverseRecOn with
  | nil => simp [walk, relative]
  | append_singleton cs c ih =>
    have hwalk : σ.walk dir (cs ++ [c]) = σ.push (σ.walk dir cs) c := List.foldl_concat ..
    have hrel : σ.relative (cs ++ [c]) = σ.relPush (σ.relative cs) c := List.foldl_concat ..
    rw [hwalk, hrel, ih, push_relative]

/-- **The normal form of a path behind a directory.** -/
theorem norm_append (dir : List α) {path : List α} (hpath : [σ.sep] <+: path) :
    σ.norm (dir ++ path) =
      (σ.norm dir).take ((σ.norm dir).length - σ.climbs path) ++ σ.remains path := by
  obtain ⟨path, rfl⟩ := hpath
  have hsplit : (dir ++ σ.sep :: path).splitOn σ.sep =
      dir.splitOn σ.sep ++ path.splitOn σ.sep := List.splitOn_append_cons_self dir path
  have hlead : (σ.sep :: path).splitOn σ.sep = [] :: path.splitOn σ.sep :=
    List.splitOn_append_cons_self [] path
  have hnorm : σ.norm (dir ++ σ.sep :: path) = σ.walk (σ.norm dir) (path.splitOn σ.sep) := by
    unfold norm walk
    rw [hsplit, List.foldl_append]
  have hrel : σ.relative ([] :: path.splitOn σ.sep) = σ.relative (path.splitOn σ.sep) := by
    unfold relative
    rw [List.foldl_cons, relPush, if_pos (Or.inl rfl)]
  rw [List.singleton_append, hnorm, walk_eq]
  unfold climbs remains
  rw [hlead, hrel]

/-- **A path stays in its directory exactly when** the names it enters first are
those of the part of the directory that it has climbed out of. -/
theorem prefix_norm_append_iff (dir : List α) {path : List α} (hpath : [σ.sep] <+: path) :
    σ.norm dir <+: σ.norm (dir ++ path) ↔
      (σ.norm dir).drop ((σ.norm dir).length - σ.climbs path) <+: σ.remains path := by
  rw [norm_append σ dir hpath]
  generalize (σ.norm dir).length - σ.climbs path = k
  have hsplit := List.take_append_drop k (σ.norm dir)
  nth_rewrite 1 [← hsplit]
  rw [List.prefix_append_right_inj]

end PathSyntax
end KernelStudy
