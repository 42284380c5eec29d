import Mathlib.Data.List.Infix

/-!
# Paths

A path is walked from a directory, segment by segment.  A directory is the list of
its names from the root, and the parent of the root is the root.

A path can also be reduced without a directory to walk from.  What is left is a
number of parents, and then names.  Walking it gives what walking the path gives
(`walk_eq_apply`), so whether a path leads back into a directory can be read off the
reduced path (`inside_apply_iff`).
-/

namespace Paths

variable {α : Type*}

inductive Segment (α : Type*) where
  | here
  | parent
  | name (a : α)

def Segment.name? : Segment α → Option α
  | .name a => some a
  | _ => none

/-- One segment from a directory. -/
def step (dir : List α) : Segment α → List α
  | .here => dir
  | .parent => dir.dropLast
  | .name a => dir ++ [a]

def walk (dir : List α) (path : List (Segment α)) : List α := path.foldl step dir

/-! ## Reduced paths -/

/-- Some parents, and then some names. -/
structure Reduced (α : Type*) where
  parents : ℕ
  names : List α
deriving DecidableEq

namespace Reduced

/-- One more segment.  A parent takes back a name, if there is one. -/
def step (r : Reduced α) : Segment α → Reduced α
  | .here => r
  | .parent => if r.names = [] then ⟨r.parents + 1, []⟩ else ⟨r.parents, r.names.dropLast⟩
  | .name a => ⟨r.parents, r.names ++ [a]⟩

/-- Where a reduced path leads. -/
def apply (r : Reduced α) (dir : List α) : List α :=
  dir.take (dir.length - r.parents) ++ r.names

theorem apply_step (r : Reduced α) (dir : List α) (s : Segment α) :
    (r.step s).apply dir = Paths.step (r.apply dir) s := by
  cases s with
  | here => rfl
  | parent =>
      rw [step]
      split
      next hnil =>
        simp only [apply, Paths.step, hnil, List.append_nil]
        rw [List.dropLast_eq_take, List.take_take, List.length_take]
        congr 1
        omega
      next hne =>
        simp only [apply, Paths.step]
        rw [List.dropLast_append_of_ne_nil hne]
  | name a =>
      simp only [apply, Paths.step, step, List.append_assoc]

end Reduced

/-- A path by itself. -/
def reduce (path : List (Segment α)) : Reduced α := path.foldl Reduced.step ⟨0, []⟩

theorem foldl_step_apply (path : List (Segment α)) (r : Reduced α) (dir : List α) :
    (path.foldl Reduced.step r).apply dir = walk (r.apply dir) path := by
  induction path generalizing r with
  | nil => rfl
  | cons s path ih =>
      rw [List.foldl_cons, ih, Reduced.apply_step]
      rfl

theorem walk_eq_apply (dir : List α) (path : List (Segment α)) :
    walk dir path = (reduce path).apply dir := by
  rw [reduce, foldl_step_apply]
  simp [Reduced.apply]

theorem walk_append (dir : List α) (path path' : List (Segment α)) :
    walk dir (path ++ path') = walk (walk dir path) path' := List.foldl_append

/-! ## Inside a directory -/

/-- A path lies strictly inside a directory. -/
def Inside (dir path : List α) : Prop := dir <+: path ∧ path ≠ dir

instance [DecidableEq α] (dir path : List α) : Decidable (Inside dir path) :=
  inferInstanceAs (Decidable (dir <+: path ∧ path ≠ dir))

theorem inside_append_iff (dir below path : List α) :
    Inside (dir ++ below) (dir ++ path) ↔ Inside below path :=
  and_congr (List.prefix_append_right_inj dir) (not_congr (List.append_right_inj dir))

/-- A reduced path leads inside when its names go down again to the directory that
its parents have left, and further. -/
theorem inside_apply_iff (r : Reduced α) (dir : List α) :
    Inside dir (r.apply dir) ↔ Inside (dir.drop (dir.length - r.parents)) r.names := by
  have split := inside_append_iff (dir.take (dir.length - r.parents))
    (dir.drop (dir.length - r.parents)) r.names
  rw [List.take_append_drop] at split
  exact split

theorem foldl_step_of_no_parent {path : List (Segment α)} (h : ∀ s ∈ path, s ≠ .parent)
    (r : Reduced α) :
    path.foldl Reduced.step r = ⟨r.parents, r.names ++ path.filterMap Segment.name?⟩ := by
  induction path generalizing r with
  | nil => simp
  | cons s path ih =>
      obtain ⟨hs, hpath⟩ := List.forall_mem_cons.mp h
      rw [List.foldl_cons, ih hpath]
      cases s with
      | here => rfl
      | parent => exact absurd rfl hs
      | name a => simp [Reduced.step, Segment.name?]

/-- A path without parents leads inside, if it has a name. -/
theorem inside_of_no_parent {path : List (Segment α)} (h : ∀ s ∈ path, s ≠ .parent) {a : α}
    (ha : .name a ∈ path) (dir : List α) :
    Inside (dir.drop (dir.length - (reduce path).parents)) (reduce path).names := by
  have hmem : a ∈ path.filterMap Segment.name? := List.mem_filterMap.mpr ⟨.name a, ha, rfl⟩
  rw [reduce, foldl_step_of_no_parent h, Nat.sub_zero, List.drop_length, List.nil_append]
  exact ⟨List.nil_prefix, List.ne_nil_of_mem hmem⟩

end Paths
