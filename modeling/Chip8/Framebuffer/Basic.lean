/-!
The display: 32 rows of 64 pixels, a row held as one word whose highest bit is the leftmost pixel.
A sprite is a list of bytes, one a row, again with the leftmost pixel highest. To draw is to lay the
sprite over the grid by exclusive or; what lies past the right or the lower edge is cut off.

`pixel_draw` is the law of a drawn grid and `collides_iff` that of its collisions, both in terms of
`covers`, the pixels that a sprite lights.
-/
namespace Chip8

abbrev displayWidth : Nat := 64

abbrev displayHeight : Nat := 32

structure Framebuffer where
  rows : Vector (BitVec displayWidth) displayHeight
  deriving DecidableEq

namespace Framebuffer

def blank : Framebuffer := ⟨Vector.replicate displayHeight 0⟩

/-- Whether a pixel is lit; nothing is lit outside of the grid. -/
def pixel (fb : Framebuffer) (x y : Nat) : Bool := (fb.rows[y]?.getD 0).getMsbD x

def isBlank (fb : Framebuffer) : Bool := fb.rows.all (· == 0)

/-- A row of a sprite moved to a column of the grid, cut off at the right edge. -/
def strip (x : Nat) (byte : UInt8) : BitVec displayWidth :=
  if x < displayWidth then (byte.toBitVec ++ 0#56) >>> x else 0

/-- What a sprite at a column and a row lays over one row of the grid. -/
def overlay (x y : Nat) (sprite : List UInt8) (row : Nat) : BitVec displayWidth :=
  if y ≤ row then
    match sprite[row - y]? with
    | some byte => strip x byte
    | none => 0
  else 0

def draw (fb : Framebuffer) (x y : Nat) (sprite : List UInt8) : Framebuffer :=
  ⟨Vector.ofFn fun row => fb.rows[row] ^^^ overlay x y sprite row⟩

/-- Whether drawing a sprite turns a lit pixel off. -/
def collides (fb : Framebuffer) (x y : Nat) (sprite : List UInt8) : Bool :=
  (List.finRange displayHeight).any fun row => fb.rows[row] &&& overlay x y sprite row != 0

/-- The sprite's pixels on an unbounded grid: row `r` of the sprite lights the pixel at column
    `x + c` and row `y + r` if its bit `7 - c` is set. -/
def covers (x y : Nat) (sprite : List UInt8) (column row : Nat) : Bool :=
  decide (x ≤ column) && decide (y ≤ row) &&
    (sprite[row - y]?.getD 0).toBitVec.getMsbD (column - x)

theorem getMsbD_strip (x : Nat) (byte : UInt8) {column : Nat} (inside : column < displayWidth) :
    (strip x byte).getMsbD column =
      (decide (x ≤ column) && byte.toBitVec.getMsbD (column - x)) := by
  have inside : column < 64 := inside
  by_cases left : x < displayWidth
  · have shifted : strip x byte = (byte.toBitVec ++ 0#56 : BitVec 64) >>> x := if_pos left
    rw [shifted, BitVec.getMsbD_ushiftRight, BitVec.getMsbD_append]
    by_cases before : column < x
    · simp [before, Nat.not_le.mpr before]
    · by_cases past : 8 ≤ column - x
      · simp [past, inside, before]
      · simp [past, inside, before, Nat.not_lt.mp before]
  · have gone : strip x byte = 0#64 := if_neg left
    have right : ¬ x ≤ column := by simp only [displayWidth] at left; omega
    simp [gone, right]

theorem getMsbD_overlay (x y : Nat) (sprite : List UInt8) {column : Nat} (row : Nat)
    (inside : column < displayWidth) :
    (overlay x y sprite row).getMsbD column = covers x y sprite column row := by
  unfold overlay covers
  by_cases above : y ≤ row
  · rw [if_pos above]
    cases sprite[row - y]? with
    | none => simp [above]
    | some byte => simp [above, getMsbD_strip x byte inside]
  · simp [above]

theorem pixel_draw (fb : Framebuffer) (x y : Nat) (sprite : List UInt8) {column row : Nat}
    (columnInside : column < displayWidth) (rowInside : row < displayHeight) :
    (fb.draw x y sprite).pixel column row =
      (fb.pixel column row ^^ covers x y sprite column row) := by
  simp [pixel, draw, rowInside, getMsbD_overlay x y sprite row columnInside]

theorem row_ne_zero_iff (row : BitVec displayWidth) :
    row ≠ 0 ↔ ∃ column, column < displayWidth ∧ row.getMsbD column = true := by
  constructor
  · intro lit
    apply Classical.byContradiction
    intro dark
    refine lit (BitVec.eq_of_getMsbD_eq fun column inside => ?_)
    have unlit : row.getMsbD column ≠ true := fun on => dark ⟨column, inside, on⟩
    simpa using unlit
  · rintro ⟨column, _, on⟩ rfl
    simp at on

theorem collides_iff (fb : Framebuffer) (x y : Nat) (sprite : List UInt8) :
    fb.collides x y sprite = true ↔
      ∃ column row, column < displayWidth ∧ row < displayHeight ∧
        fb.pixel column row = true ∧ covers x y sprite column row = true := by
  simp only [collides, List.any_eq_true, List.mem_finRange, true_and, bne_iff_ne, row_ne_zero_iff]
  constructor
  · rintro ⟨row, column, inside, both⟩
    simp only [BitVec.getMsbD_and, getMsbD_overlay x y sprite row inside, Bool.and_eq_true] at both
    exact ⟨column, row, inside, row.isLt, by simpa [pixel] using both.1, both.2⟩
  · rintro ⟨column, row, inside, below, lit, covered⟩
    refine ⟨⟨row, below⟩, column, inside, ?_⟩
    simp only [BitVec.getMsbD_and, getMsbD_overlay x y sprite row inside, Bool.and_eq_true]
    exact ⟨by simpa [pixel, below] using lit, covered⟩

end Framebuffer

end Chip8
