import Mathlib.Algebra.Order.BigOperators.Group.List
import Mathlib.Algebra.Order.Group.Nat
import Mathlib.Algebra.Ring.Nat

/-!
# Frames of a stream

A stream holds frames that end with a separator.  A list is split at the separators
into `frames` and an unfinished `rest`.

Splitting a stream chunk by chunk, without keeping the rests, gives the frames of the
stream exactly when no chunk has a rest (`flatMap_frames_eq_iff`).
-/

namespace Framing

variable {α : Type*} [DecidableEq α] {sep : α}

/-- The finished frames. -/
def frames (sep : α) (l : List α) : List (List α) := (l.splitOn sep).dropLast

/-- What stands after the last separator. -/
def rest (sep : α) (l : List α) : List α := (l.splitOn sep).getLast (List.splitOn_ne_nil sep l)

/-- Frames with their separators. -/
def terminate (sep : α) (lines : List (List α)) : List α := lines.flatMap (· ++ [sep])

/-! ## Splitting -/

/-- A list has no separator, or it starts with a frame. -/
@[elab_as_elim]
theorem induction (sep : α) {motive : List α → Prop} (unfinished : ∀ l, sep ∉ l → motive l)
    (frame : ∀ a l, sep ∉ a → motive l → motive (a ++ sep :: l)) (l : List α) : motive l := by
  induction hn : l.length using Nat.strong_induction_on generalizing l with
  | _ n ih =>
      by_cases h : sep ∈ l
      · obtain ⟨a, l', rfl, ha⟩ := List.eq_append_cons_of_mem h
        rw [List.length_append, List.length_cons] at hn
        exact frame a l' ha (ih l'.length (by omega) l' rfl)
      · exact unfinished l h

theorem frames_of_notMem {l : List α} (h : sep ∉ l) : frames sep l = [] := by
  rw [frames, List.splitOn_eq_singleton h]
  rfl

theorem rest_of_notMem {l : List α} (h : sep ∉ l) : rest sep l = l := by
  simp only [rest, List.splitOn_eq_singleton h, List.getLast_singleton]

theorem frames_append_cons {a : List α} (h : sep ∉ a) (l : List α) :
    frames sep (a ++ sep :: l) = a :: frames sep l := by
  rw [frames, List.splitOn_append_cons_self_of_not_mem h,
    List.dropLast_cons_of_ne_nil (List.splitOn_ne_nil sep l)]
  rfl

theorem rest_append_cons {a : List α} (h : sep ∉ a) (l : List α) :
    rest sep (a ++ sep :: l) = rest sep l := by
  simp only [rest, List.splitOn_append_cons_self_of_not_mem h,
    List.getLast_cons (List.splitOn_ne_nil sep l)]

/-- A list consists of its frames and its rest. -/
theorem terminate_frames_append_rest (sep : α) (l : List α) :
    terminate sep (frames sep l) ++ rest sep l = l := by
  induction l using induction sep with
  | unfinished l h => rw [frames_of_notMem h, rest_of_notMem h]; rfl
  | frame a l h ih =>
      rw [frames_append_cons h, rest_append_cons h, terminate, List.flatMap_cons, ← terminate,
        List.append_assoc, ih, List.append_assoc]
      rfl

/-- A list without a rest is empty or ends with a separator. -/
theorem rest_eq_nil_iff (l : List α) : rest sep l = [] ↔ l = [] ∨ l.getLast? = some sep := by
  induction l using induction sep with
  | unfinished l h =>
      rw [rest_of_notMem h]
      refine ⟨.inl, fun hl => hl.resolve_right fun hlast => ?_⟩
      exact h (List.mem_of_getLast? hlast)
  | frame a l h ih =>
      rw [rest_append_cons h, ih]
      cases l with
      | nil => simp
      | cons b l => simp

theorem frames_append {l : List α} (h : rest sep l = []) (l' : List α) :
    frames sep (l ++ l') = frames sep l ++ frames sep l' := by
  induction l using induction sep with
  | unfinished l hl =>
      rw [rest_of_notMem hl] at h
      rw [h, frames_of_notMem List.not_mem_nil]
      rfl
  | frame a l ha ih =>
      rw [rest_append_cons ha] at h
      rw [List.append_assoc, List.cons_append, frames_append_cons ha, frames_append_cons ha, ih h]
      rfl

/-- A stream of frames has these frames. -/
theorem frames_terminate {lines : List (List α)} (h : ∀ line ∈ lines, sep ∉ line) :
    frames sep (terminate sep lines) = lines := by
  induction lines with
  | nil => exact frames_of_notMem List.not_mem_nil
  | cons line lines ih =>
      obtain ⟨hline, hlines⟩ := List.forall_mem_cons.mp h
      rw [terminate, List.flatMap_cons, ← terminate, List.append_assoc]
      rw [show [sep] ++ terminate sep lines = sep :: terminate sep lines from rfl,
        frames_append_cons hline, ih hlines]

/-! ## Chunks -/

/-- The frames of the chunks leave out exactly the rests. -/
theorem length_terminate_flatMap_frames (sep : α) (chunks : List (List α)) :
    (terminate sep (chunks.flatMap (frames sep))).length +
      (chunks.map fun chunk => (rest sep chunk).length).sum = chunks.flatten.length := by
  induction chunks with
  | nil => rfl
  | cons chunk chunks ih =>
      have hchunk := congrArg List.length (terminate_frames_append_rest sep chunk)
      rw [List.length_append] at hchunk
      rw [List.flatMap_cons, terminate, List.flatMap_append, ← terminate, ← terminate,
        List.length_append, List.map_cons, List.sum_cons, List.flatten_cons, List.length_append]
      omega

/-- Without rests nothing is lost. -/
theorem flatMap_frames_of_rest {chunks : List (List α)}
    (h : ∀ chunk ∈ chunks, rest sep chunk = []) :
    chunks.flatMap (frames sep) = frames sep chunks.flatten := by
  induction chunks with
  | nil => exact (frames_of_notMem List.not_mem_nil).symm
  | cons chunk chunks ih =>
      obtain ⟨hchunk, hchunks⟩ := List.forall_mem_cons.mp h
      rw [List.flatMap_cons, List.flatten_cons, frames_append hchunk, ih hchunks]

/-- The frames of the chunks of a stream are its frames exactly when no chunk has a
rest. -/
theorem flatMap_frames_eq_iff {lines chunks : List (List α)} (h : ∀ line ∈ lines, sep ∉ line)
    (hstream : chunks.flatten = terminate sep lines) :
    chunks.flatMap (frames sep) = lines ↔ ∀ chunk ∈ chunks, rest sep chunk = [] := by
  constructor
  · intro heq chunk hchunk
    -- the frames are as long as the stream, so the rests are empty
    have hlength := length_terminate_flatMap_frames sep chunks
    rw [heq, ← hstream] at hlength
    have hzero : (chunks.map fun chunk => (rest sep chunk).length).sum = 0 := by omega
    have hrest : (rest sep chunk).length = 0 :=
      List.sum_eq_zero_iff.mp hzero _ (List.mem_map.mpr ⟨chunk, hchunk, rfl⟩)
    exact List.length_eq_zero_iff.mp hrest
  · intro hrest
    rw [flatMap_frames_of_rest hrest, hstream, frames_terminate h]

end Framing
