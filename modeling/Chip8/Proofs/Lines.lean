/-!
Texts in parts. What stands in front of a mark is found by looking for the first one
(`takeWhile_before`). A text that consists of lines with ends gives the lines back when it is split at its
line ends (`textLines_of_lines`).
-/
namespace Chip8

/-- What stands in front of a mark, and the mark with what is behind it, if there is one. -/
theorem takeWhile_before {front : List Char} {mark : Char} (before : mark ∉ front)
    (back : List Char) (starts : ∀ c ∈ back.head?, c = mark) :
    (front ++ back).takeWhile (· ≠ mark) = front ∧ (front ++ back).dropWhile (· ≠ mark) = back := by
  have all : ∀ c ∈ front, decide (c ≠ mark) = true := by
    intro c among
    exact decide_eq_true fun same => before (same ▸ among)
  rw [List.takeWhile_append_of_pos all, List.dropWhile_append_of_pos all]
  cases back with
  | nil => simp
  | cons c rest =>
    obtain rfl : c = mark := starts c rfl
    simp

/-- The lines of a text whose lines all have an end. -/
def textLines (text : String) : List (List Char) := (text.toList.splitOn '\n').dropLast

theorem splitOn_lines {lines : List (List Char)} (whole : ∀ line ∈ lines, '\n' ∉ line) :
    (lines.flatMap (· ++ ['\n'])).splitOn '\n' = lines ++ [[]] := by
  induction lines with
  | nil => exact List.splitOn_nil '\n'
  | cons line rest ih =>
    have first : ∀ c ∈ line, (c == '\n') = false := by
      intro c among
      have other : c ≠ '\n' := fun same => whole line List.mem_cons_self (same ▸ among)
      simpa using other
    have later := ih fun other among => whole other (List.mem_cons_of_mem _ among)
    rw [List.splitOn_eq_splitOnP] at later ⊢
    rw [List.flatMap_cons, List.append_assoc, List.singleton_append,
      List.splitOnP_append_cons_of_forall_mem first '\n' (by decide), later, List.cons_append]

theorem textLines_of_lines {text : String} {lines : List (List Char)}
    (ended : text.toList = lines.flatMap (· ++ ['\n'])) (whole : ∀ line ∈ lines, '\n' ∉ line) :
    textLines text = lines := by
  rw [textLines, ended, splitOn_lines whole, List.dropLast_concat]

end Chip8
