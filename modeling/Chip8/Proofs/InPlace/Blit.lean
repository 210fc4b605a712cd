import Chip8.Proofs.Framebuffer.Cells
import Chip8.Proofs.InPlace.Partial

/-!
A sprite drawn in place: row by row and bit by bit, each set bit flips the cell that it falls on and
a lit one is noted, and the first row or column past an edge ends its loop. For every position of 64
bits this runs through without a sum or an index out of range, and what it makes is the sprite drawn
at once (`blit_eq`). A cell is read after others were flipped already; that this does not matter
is because no cell is met twice.
-/
namespace Chip8.InPlace
open Framebuffer

def cell? (fb : Framebuffer) (column row : Nat) : Option Bool :=
  if column < displayWidth ∧ row < displayHeight then some (fb.pixel column row) else none

/-- The display with a cell of the grid flipped. -/
def flip? (fb : Framebuffer) (column row : Nat) : Option Framebuffer :=
  if below : row < displayHeight then
    if column < displayWidth then
      some ⟨fb.rows.set row (fb.rows[row] ^^^ BitVec.twoPow displayWidth (displayWidth - 1 - column))⟩
    else none
  else none

/-- Lays bits of a sprite byte over a row of the grid, up to the right edge. -/
def blitByte (x row : Nat) (byte : UInt8) :
    List Nat → Framebuffer × Bool → Option (Framebuffer × Bool)
  | [], done => some done
  | bit :: bits, (fb, hit) => do
    let column ← wideSum? x bit
    if displayWidth ≤ column then return (fb, hit)
    let place ← difference? 7 bit
    if byte.toNat.testBit place then
      let lit ← cell? fb column row
      let flipped ← flip? fb column row
      blitByte x row byte bits (flipped, hit || lit)
    else blitByte x row byte bits (fb, hit)

/-- Lays the rows of a sprite over the grid, up to the lower edge; `offset` counts those done. -/
def blitRows (x y : Nat) : (offset : Nat) → List UInt8 → Framebuffer × Bool →
    Option (Framebuffer × Bool)
  | _, [], done => some done
  | offset, byte :: rest, before => do
    let row ← wideSum? y offset
    if displayHeight ≤ row then return before
    let after ← blitByte x row byte (List.range' 0 8) before
    blitRows x y (offset + 1) rest after

/-- Draws a sprite in place, and tells whether a lit cell was met. -/
def blit (fb : Framebuffer) (x y : Nat) (sprite : List UInt8) : Option (Framebuffer × Bool) :=
  blitRows x y 0 sprite (fb, false)

/-! ### One cell -/

theorem pixel_of_flip? {fb flipped : Framebuffer} {column row : Nat}
    (done : flip? fb column row = some flipped) {c r : Nat} (inside : c < displayWidth)
    (below : r < displayHeight) :
    flipped.pixel c r = (fb.pixel c r ^^ (decide (c = column) && decide (r = row))) := by
  unfold flip? at done
  split at done
  · next rowBelow =>
    split at done
    · next columnInside =>
      cases done
      simp only [displayWidth] at inside columnInside
      by_cases sameRow : r = row
      · subst sameRow
        have bit : (BitVec.twoPow 64 (63 - column)).getMsbD c = decide (c = column) := by
          rw [BitVec.getMsbD_twoPow, Bool.eq_iff_iff]
          simp
          omega
        simp [pixel, rowBelow, bit]
      · have other : row ≠ r := fun same => sameRow same.symm
        simp [pixel, below, sameRow, Vector.getElem_set_ne rowBelow below other]
    · cases done
  · cases done

theorem flip_lays (fb : Framebuffer) {column row : Nat} (inside : column < displayWidth)
    (below : row < displayHeight) (hit : Bool) :
    ∃ lit flipped, cell? fb column row = some lit ∧ flip? fb column row = some flipped ∧
      Lays (fun c r => decide (c = column) && decide (r = row)) (fb, hit) (flipped, hit || lit) := by
  have found : cell? fb column row = some (fb.pixel column row) := if_pos ⟨inside, below⟩
  obtain ⟨flipped, done⟩ : ∃ flipped, flip? fb column row = some flipped := by
    simp [flip?, inside, below]
  refine ⟨_, flipped, found, done, ?_, ?_⟩
  · intro c r cInside rBelow
    exact pixel_of_flip? done cInside rBelow
  · rw [Bool.or_eq_true]
    refine or_congr_right ⟨fun lit => ⟨column, row, inside, below, lit, by simp⟩, ?_⟩
    rintro ⟨c, r, _, _, lit, same⟩
    simp only [Bool.and_eq_true, decide_eq_true_eq] at same
    exact same.1 ▸ same.2 ▸ lit

/-! ### One byte -/

theorem testBit_place (byte : UInt8) {bit : Nat} (inside : bit ≤ 7) :
    byte.toNat.testBit (7 - bit) = byte.toBitVec.getMsbD bit := by
  have small : bit < 8 := Nat.lt_succ_of_le inside
  rw [BitVec.getMsbD_eq_getLsbD, decide_eq_true small, Bool.true_and]
  rfl

/-- The cells that the bits of a byte cover, from the first bit on that is asked for. -/
def byteCells (x row first : Nat) (byte : UInt8) (column r : Nat) : Bool :=
  decide (r = row) && (decide (x + first ≤ column) && byte.toBitVec.getMsbD (column - x))

/-- The first bit's cell and those of the bits behind it. -/
theorem byteCells_succ (x row first : Nat) (byte : UInt8) (column r : Nat) :
    byteCells x row first byte column r =
      ((byte.toBitVec.getMsbD first && (decide (column = x + first) && decide (r = row))) ||
        byteCells x row (first + 1) byte column r) := by
  unfold byteCells
  by_cases same : column = x + first
  · subst same
    have behind : ¬ first + 1 ≤ first := Nat.not_succ_le_self first
    simp [behind, Bool.and_comm]
  · by_cases before : column < x + first
    · have notHere : ¬ x + first ≤ column := Nat.not_le.mpr before
      have behind : ¬ x + (first + 1) ≤ column := by omega
      simp [notHere, behind, same]
    · have here : x + first ≤ column := Nat.not_lt.mp before
      have behind : x + (first + 1) ≤ column := by omega
      simp [here, behind, same]

theorem blitByte_lays {x row : Nat} (byte : UInt8) (below : row < displayHeight)
    {first count : Nat} (whole : first + count = 8) (fits : x + first < UInt64.size)
    (before : Framebuffer × Bool) :
    ∃ after, blitByte x row byte (List.range' first count) before = some after ∧
      Lays (byteCells x row first byte) before after := by
  induction count generalizing first before with
  | zero =>
    refine ⟨before, rfl, .none before fun column r _ _ => ?_⟩
    by_cases reached : x + first ≤ column
    · have past : 8 ≤ column - x := by omega
      simp [byteCells, BitVec.getMsbD_of_ge _ _ past]
    · simp [byteCells, reached]
  | succ count ih =>
    obtain ⟨fb, hit⟩ := before
    have place : difference? 7 first = some (7 - first) := difference?_of_le (by omega)
    by_cases edge : displayWidth ≤ x + first
    · refine ⟨(fb, hit), ?_, .none (fb, hit) fun column r inside _ => ?_⟩
      · simp [blitByte, List.range'_succ, wideSum?_of_fits fits, edge]
      · have beyond : ¬ x + first ≤ column := by omega
        simp [byteCells, beyond]
    · have inside : x + first < displayWidth := Nat.not_le.mp edge
      have next : x + (first + 1) < UInt64.size := by simp only [displayWidth, UInt64.size] at *; omega
      have bit : byte.toNat.testBit (7 - first) = byte.toBitVec.getMsbD first :=
        testBit_place byte (by omega)
      cases set : byte.toBitVec.getMsbD first with
      | true =>
        obtain ⟨lit, flipped, found, done, laidHere⟩ := flip_lays fb inside below hit
        obtain ⟨after, ran, laidBehind⟩ := ih (by omega) next (flipped, hit || lit)
        refine ⟨after, ?_, (laidHere.trans laidBehind ?_).congr ?_⟩
        · simp [blitByte, List.range'_succ, wideSum?_of_fits fits, edge, place, bit, set, found, done,
            ran]
        · intro column r _ _ here
          simp only [Bool.and_eq_true, decide_eq_true_eq] at here
          have notBehind : ¬ x + (first + 1) ≤ column := by omega
          simp [byteCells, notBehind]
        · intro column r _ _
          rw [byteCells_succ x row first, set, Bool.true_and]
      | false =>
        obtain ⟨after, ran, laidBehind⟩ := ih (by omega) next (fb, hit)
        refine ⟨after, ?_, laidBehind.congr ?_⟩
        · simp [blitByte, List.range'_succ, wideSum?_of_fits fits, edge, place, bit, set, ran]
        · intro column r _ _
          rw [byteCells_succ x row first, set, Bool.false_and, Bool.false_or]

/-! ### All rows -/

/-- The first row of a sprite and those below it. -/
theorem covers_cons (x y : Nat) (byte : UInt8) (rest : List UInt8) (column row : Nat) :
    covers x y (byte :: rest) column row =
      (byteCells x y 0 byte column row || covers x (y + 1) rest column row) := by
  unfold covers byteCells
  rcases Nat.lt_trichotomy row y with above | same | below
  · have notHere : ¬ y ≤ row := Nat.not_le.mpr above
    have notBelow : ¬ y + 1 ≤ row := by omega
    have other : row ≠ y := Nat.ne_of_lt above
    simp [notHere, notBelow, other]
  · subst same
    have notBelow : ¬ row + 1 ≤ row := Nat.not_succ_le_self row
    simp [notBelow]
  · have here : y ≤ row := Nat.le_of_lt below
    have under : y + 1 ≤ row := below
    have other : row ≠ y := Nat.ne_of_gt below
    have shifted : row - y = row - (y + 1) + 1 := by omega
    simp [here, under, other, shifted]

theorem blitRows_lays {x y : Nat} (xFits : x < UInt64.size) (sprite : List UInt8) {offset : Nat}
    (fits : y + offset < UInt64.size) (before : Framebuffer × Bool) :
    ∃ after, blitRows x y offset sprite before = some after ∧
      Lays (covers x (y + offset) sprite) before after := by
  induction sprite generalizing offset before with
  | nil => exact ⟨before, rfl, .none before (by simp [covers])⟩
  | cons byte rest ih =>
    by_cases edge : displayHeight ≤ y + offset
    · refine ⟨before, ?_, .none before fun column row _ below => ?_⟩
      · simp [blitRows, wideSum?_of_fits fits, edge]
      · have above : ¬ y + offset ≤ row := by omega
        simp [covers, above]
    · have below : y + offset < displayHeight := Nat.not_le.mp edge
      have next : y + (offset + 1) < UInt64.size := by simp only [displayHeight, UInt64.size] at *; omega
      obtain ⟨middle, ranByte, laidHere⟩ :=
        blitByte_lays byte below (show 0 + 8 = 8 from rfl) (show x + 0 < UInt64.size from xFits) before
      obtain ⟨after, ranRest, laidBelow⟩ := ih next middle
      refine ⟨after, ?_, (laidHere.trans laidBelow ?_).congr ?_⟩
      · simp [blitRows, wideSum?_of_fits fits, edge, ranByte, ranRest]
      · intro column row _ _ here
        simp only [byteCells, Bool.and_eq_true, decide_eq_true_eq] at here
        have notBelow : ¬ y + (offset + 1) ≤ row := by omega
        simp [covers, notBelow]
      · intro column row _ _
        rw [covers_cons, Nat.add_assoc]

/-- Drawn in place, a sprite comes out as drawn at once. -/
theorem blit_eq (fb : Framebuffer) {x y : Nat} (xFits : x < UInt64.size) (yFits : y < UInt64.size)
    (sprite : List UInt8) :
    blit fb x y sprite = some (fb.draw x y sprite, fb.collides x y sprite) := by
  obtain ⟨after, ran, laid⟩ := blitRows_lays xFits sprite (show y + 0 < UInt64.size from yFits) (fb, false)
  rw [Nat.add_zero] at laid
  rw [blit, ran, draw_of_lays laid]

end Chip8.InPlace
