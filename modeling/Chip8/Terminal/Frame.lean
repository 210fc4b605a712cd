import Chip8.Framebuffer.Basic
import Chip8.Numeral

/-!
The display on a terminal. A line of the terminal shows two rows of pixels, one in the upper and one
in the lower half of its characters. A frame goes to fixed lines of the screen, so it replaces the
frame before it without erasing first.
-/
namespace Chip8.Terminal
open Numeral (decimal)

def frameHeight : Nat := displayHeight / 2

/-- The character with the given halves filled; the upper one comes first. -/
def halfBlock : Bool → Bool → Char
  | true, true => '█'
  | true, false => '▀'
  | false, true => '▄'
  | false, false => ' '

/-- The characters of a line, which shows the rows `2 * line` and `2 * line + 1`. -/
def frameLine (fb : Framebuffer) (line : Nat) : String :=
  String.ofList ((List.range displayWidth).map fun x =>
    halfBlock (fb.pixel x (2 * line)) (fb.pixel x (2 * line + 1)))

def frameLines (fb : Framebuffer) : List String := (List.range frameHeight).map (frameLine fb)

/-- The control sequence that puts the cursor at the start of a line; the terminal counts lines
    from one. -/
def moveToLine (line : Nat) : String := "\x1b[" ++ decimal (line + 1) ++ ";1H"

def frame (fb : Framebuffer) : String :=
  String.join ((List.range frameHeight).map fun line => moveToLine line ++ frameLine fb line)

/-- The control sequences before the first frame: a screen of its own, without a cursor. -/
def enter : String := "\x1b[?1049h\x1b[?25l"

def leave : String := "\x1b[?25h\x1b[?1049l"

end Chip8.Terminal
