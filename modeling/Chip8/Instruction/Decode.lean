import Chip8.Instruction.Basic

/-!
Instruction words. A word is four hexadecimal digits; the first one names a family and the others
carry operands or tell the members of a family apart. Words outside the table are no instruction:
all of the `0nnn` family but two, the shapes `8xy7` to `8xyF`, and every family whose last digits
name no member.
-/
namespace Chip8.Instruction

/-- The hexadecimal digit of a word at a place, counted from the least significant one. -/
@[inline] def nibble (word : UInt16) (place : Nat) : Nat := word.toNat >>> (4 * place) % 16

/-- The word that two bytes make; the high byte lies first in memory. -/
def wordOfBytes (high low : UInt8) : UInt16 := UInt16.ofNat (256 * high.toNat + low.toNat)

def ofWord? (word : UInt16) : Option Instruction :=
  let x := UInt8.ofNat (nibble word 2)
  let y := UInt8.ofNat (nibble word 1)
  let n := UInt8.ofNat (nibble word 0)
  let kk := UInt8.ofNat (word.toNat % 0x100)
  let nnn := UInt16.ofNat (word.toNat % 0x1000)
  match nibble word 3, nibble word 2, nibble word 1, nibble word 0 with
  | 0x0, 0x0, 0xE, 0x0 => some .clearDisplay
  | 0x0, 0x0, 0xE, 0xE => some .ret
  | 0x1, _, _, _ => some (.jump nnn)
  | 0x2, _, _, _ => some (.call nnn)
  | 0x3, _, _, _ => some (.skipIfByte x kk)
  | 0x4, _, _, _ => some (.skipUnlessByte x kk)
  | 0x5, _, _, 0x0 => some (.skipIfSame x y)
  | 0x6, _, _, _ => some (.setByte x kk)
  | 0x7, _, _, _ => some (.addByte x kk)
  | 0x8, _, _, 0x0 => some (.copy x y)
  | 0x8, _, _, 0x1 => some (.or x y)
  | 0x8, _, _, 0x2 => some (.and x y)
  | 0x8, _, _, 0x3 => some (.xor x y)
  | 0x8, _, _, 0x4 => some (.add x y)
  | 0x8, _, _, 0x5 => some (.subtract x y)
  | 0x8, _, _, 0x6 => some (.shiftRight x)
  | 0x9, _, _, 0x0 => some (.skipUnlessSame x y)
  | 0xA, _, _, _ => some (.setIndex nnn)
  | 0xB, _, _, _ => some (.jumpDisplaced nnn)
  | 0xC, _, _, _ => some (.random x kk)
  | 0xD, _, _, _ => some (.draw x y n)
  | 0xE, _, 0x9, 0xE => some (.skipIfKeyDown x)
  | 0xE, _, 0xA, 0x1 => some (.skipIfKeyUp x)
  | 0xF, _, 0x0, 0x7 => some (.readDelay x)
  | 0xF, _, 0x0, 0xA => some (.awaitKey x)
  | 0xF, _, 0x1, 0x5 => some (.setDelay x)
  | 0xF, _, 0x1, 0x8 => some (.setSound x)
  | 0xF, _, 0x1, 0xE => some (.addIndex x)
  | 0xF, _, 0x2, 0x9 => some (.pointGlyph x)
  | 0xF, _, 0x3, 0x3 => some (.storeDigits x)
  | 0xF, _, 0x5, 0x5 => some (.storeRegisters x)
  | 0xF, _, 0x6, 0x5 => some (.loadRegisters x)
  | _, _, _, _ => none

end Chip8.Instruction
