import Chip8.Keys

/-!
The keypad behind a keyboard. Sixteen keys in the left half of the keyboard stand for those of the
keypad, which lie in the same square:

    keyboard   1 2 3 4     keypad   1 2 3 C
               q w e r              4 5 6 D
               a s d f              7 8 9 E
               z x c v              A 0 B F

A keyboard that reports presses only never says when a key goes up, so a press counts as held for a
fixed number of cycles. Every key has a countdown; a press sets it anew and a release ends it.
-/
namespace Chip8

/-- The key that a lower-case character stands for. -/
def keyOfChar? : Char → Option (Fin keyCount)
  | '1' => some 0x1
  | '2' => some 0x2
  | '3' => some 0x3
  | '4' => some 0xC
  | 'q' => some 0x4
  | 'w' => some 0x5
  | 'e' => some 0x6
  | 'r' => some 0xD
  | 'a' => some 0x7
  | 's' => some 0x8
  | 'd' => some 0x9
  | 'f' => some 0xE
  | 'z' => some 0xA
  | 'x' => some 0x0
  | 'c' => some 0xB
  | 'v' => some 0xF
  | _ => none

def holdCycles : Nat := 100

/-- For how many more cycles each key counts as held. -/
structure Keypad where
  remaining : Vector Nat keyCount
  deriving DecidableEq

namespace Keypad

def released : Keypad := ⟨Vector.replicate keyCount 0⟩

def press (pad : Keypad) (key : Fin keyCount) : Keypad :=
  ⟨pad.remaining.set key holdCycles key.isLt⟩

def release (pad : Keypad) (key : Fin keyCount) : Keypad := ⟨pad.remaining.set key 0 key.isLt⟩

def down (pad : Keypad) : Keys := pad.remaining.map (0 < ·)

def age (pad : Keypad) : Keypad := ⟨pad.remaining.map (· - 1)⟩

end Keypad

end Chip8
