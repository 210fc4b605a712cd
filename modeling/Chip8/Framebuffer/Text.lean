import Chip8.Framebuffer.Basic

/-!
The display as plain text, one line a row and one character a pixel.
-/
namespace Chip8.Framebuffer

def rowText (fb : Framebuffer) (y : Nat) : String :=
  String.ofList ((List.range displayWidth).map fun x => if fb.pixel x y then '#' else '-')

def text (fb : Framebuffer) : String :=
  String.join ((List.range displayHeight).map fun y => fb.rowText y ++ "\n")

end Chip8.Framebuffer
