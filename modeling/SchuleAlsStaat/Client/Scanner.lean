import SchuleAlsStaat.Lib.Framing

/-!
# The scanner of the entry check

The entry check reads QR-IDs from the output of a scanner program, one in each line.
The output arrives in pieces.  Each piece is split into lines by itself, and what
stands after its last line break is dropped.
-/

namespace SchuleAlsStaat.Scanner

open Framing (frames rest terminate)

/-- The handler of `data`: the QR-IDs that are passed to `addActionCard`. -/
def onData (qrid_raw : List Char) : List (List Char) := (qrid_raw.splitOn '\n').dropLast

/-- All of them, over the pieces of an output. -/
def passed (chunks : List (List Char)) : List (List Char) := chunks.flatMap onData

/-- The QR-IDs that are passed on are the lines of the output exactly when every piece
is empty or ends with a line break. -/
theorem passed_eq_lines_iff {lines chunks : List (List Char)} (h : ∀ line ∈ lines, '\n' ∉ line)
    (hstream : chunks.flatten = lines.flatMap (· ++ ['\n'])) :
    passed chunks = lines ↔ ∀ chunk ∈ chunks, chunk = [] ∨ chunk.getLast? = some '\n' := by
  simp only [← Framing.rest_eq_nil_iff]
  exact Framing.flatMap_frames_eq_iff h hstream

/-- Two lines in pieces that end with a line break. -/
theorem passed_eq_lines_two :
    (∀ line ∈ ["ab".toList, "c".toList], '\n' ∉ line) ∧
      ["ab\nc\n".toList, []].flatten = ["ab".toList, "c".toList].flatMap (· ++ ['\n']) ∧
      passed ["ab\nc\n".toList, []] = ["ab".toList, "c".toList] := by
  have h : ∀ line ∈ ["ab".toList, "c".toList], '\n' ∉ line := by decide
  exact ⟨h, rfl, (passed_eq_lines_iff h rfl).mpr (by decide)⟩

/-- A line that is cut loses its first part. -/
theorem cut_line_is_lost : ¬ ∀ lines chunks : List (List Char), (∀ line ∈ lines, '\n' ∉ line) →
    chunks.flatten = lines.flatMap (· ++ ['\n']) → passed chunks = lines := by
  intro claim
  have h := claim ["ab".toList] ["a".toList, "b\n".toList] (by decide) rfl
  exact absurd h (by decide)

end SchuleAlsStaat.Scanner
