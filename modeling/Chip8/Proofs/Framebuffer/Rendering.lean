import Chip8.Framebuffer.Text
import Chip8.Proofs.Framebuffer.Cells
import Chip8.Proofs.Lines
import Chip8.Terminal.Frame

/-!
The two renderings of a display, in plain text and in half blocks, and how the pixels are found in them.
Each shows every pixel (`text_shows`, `frameLines_show`), so displays that look alike are the same.
-/
namespace Chip8

namespace Framebuffer

/-- Lines of plain text show a display: a pixel is lit exactly where the mark stands. -/
structure TextShows (lines : List (List Char)) (fb : Framebuffer) : Prop where
  height : lines.length = 32
  width : ∀ line ∈ lines, line.length = 64 ∧ '\n' ∉ line
  pixel : ∀ x y, x < 64 → y < 32 →
    ((lines[y]?.bind fun row => row[x]?) = some '#' ↔ fb.pixel x y = true)

/-- The lines of the text of a display. -/
def textRows (fb : Framebuffer) : List (List Char) :=
  (List.range displayHeight).map fun y => (fb.rowText y).toList

theorem toList_text (fb : Framebuffer) : fb.text.toList = fb.textRows.flatMap (· ++ ['\n']) := by
  simp [text, textRows, String.toList_join, List.flatMap_map]

theorem toList_rowText (fb : Framebuffer) (y : Nat) :
    (fb.rowText y).toList =
      (List.range displayWidth).map fun x => if fb.pixel x y then '#' else '-' := by
  rw [rowText, String.toList_ofList]

theorem text_shows (fb : Framebuffer) : TextShows fb.textRows fb := by
  refine ⟨by simp [textRows], ?_, ?_⟩
  · intro line among
    obtain ⟨y, _, rfl⟩ := List.mem_map.mp among
    rw [toList_rowText]
    refine ⟨by simp, ?_⟩
    intro inside
    obtain ⟨x, _, mark⟩ := List.mem_map.mp inside
    cases lit : fb.pixel x y with
    | true => simp [lit] at mark
    | false => simp [lit] at mark
  · intro x y inside below
    have found : (fb.textRows[y]?.bind fun row => row[x]?) =
        some (if fb.pixel x y then '#' else '-') := by
      simp [textRows, toList_rowText, inside, below]
    rw [found]
    cases fb.pixel x y with
    | true => simp
    | false => simp

theorem textLines_text (fb : Framebuffer) : textLines fb.text = fb.textRows :=
  textLines_of_lines fb.toList_text fun line among => (fb.text_shows.width line among).2

theorem TextShows.unique {lines : List (List Char)} {fb other : Framebuffer}
    (first : TextShows lines fb) (second : TextShows lines other) : fb = other := by
  apply ext_pixel
  intro x y inside below
  rw [Bool.eq_iff_iff, ← first.pixel x y inside below, ← second.pixel x y inside below]

end Framebuffer

namespace Terminal

def showsUpper (c : Char) : Bool := c = '█' || c = '▀'

def showsLower (c : Char) : Bool := c = '█' || c = '▄'

/-- Lines of half blocks show a display: a character shows two pixels, one above the other. -/
structure BlocksShow (lines : List String) (fb : Framebuffer) : Prop where
  height : lines.length = 16
  width : ∀ line ∈ lines, line.toList.length = 64
  pixel : ∀ x y, x < 64 → y < 32 → ∃ c, (lines[y / 2]?.bind fun line => line.toList[x]?) = some c ∧
    fb.pixel x y = if y % 2 = 0 then showsUpper c else showsLower c

theorem shows_halfBlock (upper lower : Bool) :
    showsUpper (halfBlock upper lower) = upper ∧ showsLower (halfBlock upper lower) = lower := by
  cases upper <;> cases lower <;> decide

def block (fb : Framebuffer) (line column : Nat) : Char :=
  halfBlock (fb.pixel column (2 * line)) (fb.pixel column (2 * line + 1))

theorem toList_frameLine (fb : Framebuffer) (line : Nat) :
    (frameLine fb line).toList = (List.range displayWidth).map (block fb line) := by
  rw [frameLine, String.toList_ofList]
  rfl

theorem frameHeight_eq : frameHeight = 16 := rfl

theorem frameLines_show (fb : Framebuffer) : BlocksShow (frameLines fb) fb := by
  refine ⟨by simp [frameLines, frameHeight_eq], ?_, ?_⟩
  · intro line among
    obtain ⟨place, _, rfl⟩ := List.mem_map.mp among
    rw [toList_frameLine]
    simp
  · intro x y inside below
    have within : y / 2 < 16 := by omega
    have found : ((frameLines fb)[y / 2]?.bind fun line => line.toList[x]?) =
        some (block fb (y / 2) x) := by
      simp [frameLines, frameHeight_eq, toList_frameLine, inside, within]
    refine ⟨_, found, ?_⟩
    obtain ⟨upper, lower⟩ := shows_halfBlock (fb.pixel x (2 * (y / 2))) (fb.pixel x (2 * (y / 2) + 1))
    by_cases even : y % 2 = 0
    · have place : 2 * (y / 2) = y := by omega
      rw [if_pos even, block, upper, place]
    · have place : 2 * (y / 2) + 1 = y := by omega
      rw [if_neg even, block, lower, place]

theorem BlocksShow.unique {lines : List String} {fb other : Framebuffer}
    (first : BlocksShow lines fb) (second : BlocksShow lines other) : fb = other := by
  apply Framebuffer.ext_pixel
  intro x y inside below
  obtain ⟨c, found, lit⟩ := first.pixel x y inside below
  obtain ⟨d, foundToo, litToo⟩ := second.pixel x y inside below
  obtain rfl : c = d := Option.some.inj (found.symm.trans foundToo)
  rw [lit, litToo]

end Terminal

end Chip8
