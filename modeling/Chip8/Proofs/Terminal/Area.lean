import Chip8.Proofs.Framebuffer.Rendering
import Chip8.Proofs.Numeral
import Chip8.Terminal.Input

/-!
What a terminal makes of a frame. A character is printed at the cursor, which moves on to the right, and
a control sequence can put the cursor elsewhere; here the area counts that a frame takes up. Each line of
a frame starts with such a sequence and fills its row (`feed_line`), so a frame leaves nothing of what was
there before (`feed_frame`).
-/
namespace Chip8.Terminal
open Numeral (decimal digits)

/-- How the next character is taken: as it is, behind an escape character, or in a control sequence. -/
inductive Mode where
  | printing
  | escape
  | control (parameters : List Char)

/-- The part of a screen that a frame takes up. The cursor may be outside of it. -/
structure Area where
  cells : Fin frameHeight → Fin displayWidth → Char
  row : Nat
  column : Nat
  mode : Mode

namespace Area

def print (a : Area) (c : Char) : Area :=
  { a with
    cells := fun row column =>
      if row.val = a.row ∧ column.val = a.column then c else a.cells row column
    column := a.column + 1 }

/-- The row or the column that a parameter names; the terminal counts from one. -/
def position (parameters : List Char) (place : Nat) : Nat :=
  (number? UInt16.size parameters place).getD 1 - 1

/-- A whole control sequence. Only the one that puts the cursor somewhere has an effect here. -/
def obey (a : Area) (parameters : List Char) (final : Char) : Area :=
  if final = 'H' then
    { a with row := position parameters 0, column := position parameters 1, mode := .printing }
  else { a with mode := .printing }

def take (a : Area) (c : Char) : Area :=
  match a.mode with
  | .printing => if c = '\x1b' then { a with mode := .escape } else a.print c
  | .escape => if c = '[' then { a with mode := .control [] } else { a with mode := .printing }
  | .control parameters =>
    if isFinal c then a.obey parameters c else { a with mode := .control (parameters ++ [c]) }

def feed (a : Area) (text : List Char) : Area := text.foldl take a

def lines (a : Area) : List String :=
  List.ofFn fun row => String.ofList (List.ofFn (a.cells row))

theorem feed_append (a : Area) (first second : List Char) :
    a.feed (first ++ second) = (a.feed first).feed second := List.foldl_append

theorem feed_cons (a : Area) (c : Char) (rest : List Char) :
    a.feed (c :: rest) = (a.take c).feed rest := rfl

/-! ### Printing -/

theorem feed_plain {a : Area} (printing : a.mode = .printing) {text : List Char}
    (plain : '\x1b' ∉ text) :
    a.feed text = { a with
      cells := fun row column =>
        if row.val = a.row ∧ a.column ≤ column.val then
          text[column.val - a.column]?.getD (a.cells row column)
        else a.cells row column
      column := a.column + text.length } := by
  induction text generalizing a with
  | nil => simp [feed]
  | cons c rest ih =>
    rw [List.mem_cons, not_or] at plain
    have printed : a.take c = a.print c := by rw [take, printing, if_neg (Ne.symm plain.1)]
    rw [feed_cons, printed, ih (a := a.print c) printing plain.2]
    simp only [print, List.length_cons, mk.injEq, and_true, true_and]
    refine ⟨?_, by omega⟩
    funext row column
    by_cases here : row.val = a.row
    · rcases Nat.lt_trichotomy a.column column.val with behind | same | before
      · have shifted : column.val - a.column = (column.val - (a.column + 1)) + 1 := by omega
        have other : column.val ≠ a.column := by omega
        simp [here, shifted, other, Nat.succ_le_of_lt behind, Nat.le_of_lt behind]
      · have past : ¬ a.column + 1 ≤ a.column := Nat.not_succ_le_self _
        simp [here, ← same, past]
      · have other : column.val ≠ a.column := by omega
        have left : ¬ a.column + 1 ≤ column.val := by omega
        simp [here, other, left, Nat.not_le.mpr before]
    · simp [here]

/-! ### Moving the cursor -/

theorem feed_parameters {a : Area} {earlier : List Char} (going : a.mode = .control earlier)
    {text : List Char} (open_ : ∀ c ∈ text, isFinal c = false) :
    a.feed text = { a with mode := .control (earlier ++ text) } := by
  induction text generalizing a earlier with
  | nil => simp [feed, ← going]
  | cons c rest ih =>
    have taken : a.take c = { a with mode := .control (earlier ++ [c]) } := by
      rw [take, going]
      simp [open_ c List.mem_cons_self]
    rw [feed_cons, taken, ih rfl fun other among => open_ other (List.mem_cons_of_mem _ among)]
    simp

theorem position_of_numbers {row : Nat} (small : row + 1 < UInt16.size) :
    position (digits 10 (row + 1) ++ [';', '1']) 0 = row ∧
      position (digits 10 (row + 1) ++ [';', '1']) 1 = 0 := by
  have other : ∀ c ∈ Numeral.alphabet, (c == ';') = false := by
    simp [Numeral.alphabet]
  have whole : ∀ c ∈ digits 10 (row + 1), (c == ';') = false :=
    fun c among => other c (Numeral.mem_alphabet_of_digits (by decide) among)
  have fields : (digits 10 (row + 1) ++ [';', '1']).splitOn ';' = [digits 10 (row + 1), ['1']] := by
    rw [List.splitOn_eq_splitOnP, List.splitOnP_append_cons_of_forall_mem whole ';' (by decide)]
    rfl
  have first := Numeral.readBelow?_digits small
  refine ⟨?_, ?_⟩
  · simp [position, number?, field?, fields, first]
  · simp only [position, number?, field?, fields]
    rfl

theorem feed_moveToLine {a : Area} (printing : a.mode = .printing) {row : Nat}
    (small : row + 1 < UInt16.size) :
    a.feed (moveToLine row).toList = { a with row := row, column := 0 } := by
  obtain ⟨rowRead, columnRead⟩ := position_of_numbers small
  have parts : (moveToLine row).toList =
      '\x1b' :: '[' :: ((digits 10 (row + 1) ++ [';', '1']) ++ ['H']) := by
    simp [moveToLine, decimal]
  have opened : (a.take '\x1b').take '[' = { a with mode := .control [] } := by
    simp [take, printing]
  have unfinished : ∀ c ∈ digits 10 (row + 1) ++ [';', '1'], isFinal c = false := by
    intro c among
    have digit : ∀ d < 10, isFinal (Numeral.digit d) = false := by decide
    have rest : ∀ c ∈ [';', '1'], isFinal c = false := by simp [isFinal]
    rcases List.mem_append.mp among with shown | behind
    · obtain ⟨d, below, rfl⟩ := Numeral.exists_digit_of_mem (by decide) shown
      exact digit d below
    · exact rest c behind
  rw [parts, feed_cons, feed_cons, opened, feed_append, feed_parameters rfl unfinished]
  simp [feed, take, obey, isFinal, rowRead, columnRead, ← printing]

/-! ### Frames -/

theorem escape_not_mem_frameLine (fb : Framebuffer) (line : Nat) :
    '\x1b' ∉ (frameLine fb line).toList := by
  intro among
  rw [toList_frameLine] at among
  obtain ⟨column, _, same⟩ := List.mem_map.mp among
  revert same
  rw [block]
  cases fb.pixel column (2 * line) <;> cases fb.pixel column (2 * line + 1) <;> decide

/-- A line of a frame fills its row and touches no other. -/
theorem feed_line {a : Area} (printing : a.mode = .printing) (fb : Framebuffer) {line : Nat}
    (inside : line < frameHeight) :
    a.feed (moveToLine line ++ frameLine fb line).toList = { a with
      cells := fun row column => if row.val = line then block fb line column else a.cells row column
      row := line
      column := displayWidth } := by
  have small : line + 1 < UInt16.size := by
    rw [frameHeight_eq] at inside
    simp only [UInt16.size]
    omega
  have printed := feed_plain (a := { a with row := line, column := 0 }) printing
    (escape_not_mem_frameLine fb line)
  rw [String.toList_append, feed_append, feed_moveToLine printing small, printed, toList_frameLine]
  simp

theorem feed_lines {a : Area} (printing : a.mode = .printing) (fb : Framebuffer) {count : Nat}
    (inside : count ≤ frameHeight) :
    let drawn := a.feed ((List.range count).flatMap fun line =>
      (moveToLine line ++ frameLine fb line).toList)
    drawn.mode = .printing ∧ ∀ row column, drawn.cells row column =
      if row.val < count then block fb row.val column.val else a.cells row column := by
  induction count with
  | zero => exact ⟨printing, fun row column => rfl⟩
  | succ count ih =>
    obtain ⟨still, cells⟩ := ih (Nat.le_of_succ_le inside)
    rw [List.range_succ, List.flatMap_append, feed_append, List.flatMap_singleton,
      feed_line still fb inside]
    refine ⟨still, ?_⟩
    intro row column
    by_cases here : row.val = count
    · simp [here]
    · have same : row.val < count + 1 ↔ row.val < count := by omega
      simp only [here, if_false, same]
      exact cells row column

theorem ofFn_eq_map_range {α : Type} (count : Nat) (f : Nat → α) :
    (List.ofFn fun place : Fin count => f place.val) = (List.range count).map f := by
  apply List.ext_getElem <;> simp

theorem feed_frame {a : Area} (printing : a.mode = .printing) (fb : Framebuffer) :
    (a.feed (frame fb).toList).mode = .printing ∧
      (a.feed (frame fb).toList).lines = frameLines fb := by
  have sent : (frame fb).toList =
      (List.range frameHeight).flatMap fun line => (moveToLine line ++ frameLine fb line).toList := by
    rw [frame, String.toList_join, List.flatMap_map]
  obtain ⟨still, cells⟩ := feed_lines printing fb (Nat.le_refl frameHeight)
  rw [← sent] at still cells
  have filled : (a.feed (frame fb).toList).cells = fun row column => block fb row.val column.val := by
    funext row column
    rw [cells, if_pos row.isLt]
  refine ⟨still, ?_⟩
  calc (a.feed (frame fb).toList).lines
      = List.ofFn fun row : Fin frameHeight => String.ofList
          (List.ofFn fun column : Fin displayWidth => block fb row.val column.val) := by
        rw [lines, filled]
    _ = List.ofFn fun row : Fin frameHeight => frameLine fb row.val := by
        simp only [ofFn_eq_map_range displayWidth (block fb _)]
        rfl
    _ = frameLines fb := ofFn_eq_map_range frameHeight (frameLine fb)

/-! ### Many frames -/

theorem feed_frames {a : Area} (printing : a.mode = .printing) (frames : List Framebuffer) :
    (a.feed (String.join (frames.map frame)).toList).mode = .printing := by
  induction frames generalizing a with
  | nil => exact printing
  | cons first rest ih =>
    rw [List.map_cons, String.join_cons, String.toList_append, feed_append]
    exact ih (feed_frame printing first).1

end Area

/-- Both renderings show every pixel of a display. Plain text is 32 lines of 64 characters, each with its
    end, and a frame is 16 lines of 64 half blocks, two pixels each; either of them looks the same for two
    displays only if they are the same. Sent to a terminal, a frame replaces whatever the area of the
    screen held before, so after any frames in a row the area shows the last one. -/
theorem renderings_show_every_pixel (fb : Framebuffer) :
    fb.text.toList = (textLines fb.text).flatMap (· ++ ['\n']) ∧
    Framebuffer.TextShows (textLines fb.text) fb ∧
    BlocksShow (frameLines fb) fb ∧
    (∀ other : Framebuffer, (frameLines other = frameLines fb ↔ other = fb) ∧
      (other.text = fb.text ↔ other = fb)) ∧
    (∀ a : Area, a.mode = .printing → ∀ earlier : List Framebuffer,
      (a.feed (String.join ((earlier ++ [fb]).map frame)).toList).lines = frameLines fb) := by
  rw [fb.textLines_text]
  refine ⟨fb.toList_text, fb.text_shows, frameLines_show fb, ?_, ?_⟩
  · intro other
    refine ⟨⟨?_, fun same => same ▸ rfl⟩, ⟨?_, fun same => same ▸ rfl⟩⟩
    · intro same
      exact (frameLines_show other).unique (same ▸ frameLines_show fb)
    · intro same
      have rows : other.textRows = fb.textRows := by
        rw [← other.textLines_text, ← fb.textLines_text, same]
      exact other.text_shows.unique (rows ▸ fb.text_shows)
  · intro a printing earlier
    rw [List.map_append, String.join_append, String.toList_append, Area.feed_append]
    have drawn := Area.feed_frame (Area.feed_frames printing earlier) fb
    simpa using drawn.2

end Chip8.Terminal
