import Chip8.Instruction.Basic
import Chip8.Numeral

/-!
The assembly text of an instruction: a mnemonic, and its operands behind a blank and between
commas. Registers are `V` and their hexadecimal number, bytes and addresses are marked hexadecimal
literals of at least two and three digits, and a row count is decimal.
-/
namespace Chip8.Instruction
open Numeral (decimal hex hexLiteral)

def registerName (register : UInt8) : String := "V" ++ hex 1 register.toNat

def byteText (kk : UInt8) : String := hexLiteral 2 kk.toNat

def addressText (nnn : UInt16) : String := hexLiteral 3 nnn.toNat

def mnemonic : Instruction → String
  | clearDisplay => "CLS"
  | ret => "RET"
  | jump nnn => "JP " ++ addressText nnn
  | call nnn => "CALL " ++ addressText nnn
  | skipIfByte x kk => "SE " ++ registerName x ++ ", " ++ byteText kk
  | skipUnlessByte x kk => "SNE " ++ registerName x ++ ", " ++ byteText kk
  | skipIfSame x y => "SE " ++ registerName x ++ ", " ++ registerName y
  | setByte x kk => "LD " ++ registerName x ++ ", " ++ byteText kk
  | addByte x kk => "ADD " ++ registerName x ++ ", " ++ byteText kk
  | copy x y => "LD " ++ registerName x ++ ", " ++ registerName y
  | or x y => "OR " ++ registerName x ++ ", " ++ registerName y
  | and x y => "AND " ++ registerName x ++ ", " ++ registerName y
  | xor x y => "XOR " ++ registerName x ++ ", " ++ registerName y
  | add x y => "ADD " ++ registerName x ++ ", " ++ registerName y
  | subtract x y => "SUB " ++ registerName x ++ ", " ++ registerName y
  | shiftRight x => "SHR " ++ registerName x
  | skipUnlessSame x y => "SNE " ++ registerName x ++ ", " ++ registerName y
  | setIndex nnn => "LD I, " ++ addressText nnn
  | jumpDisplaced nnn => "JP V0, " ++ addressText nnn
  | random x kk => "RND " ++ registerName x ++ ", " ++ byteText kk
  | draw x y n => "DRW " ++ registerName x ++ ", " ++ registerName y ++ ", " ++ decimal n.toNat
  | skipIfKeyDown x => "SKP " ++ registerName x
  | skipIfKeyUp x => "SKNP " ++ registerName x
  | readDelay x => "LD " ++ registerName x ++ ", DT"
  | awaitKey x => "LD " ++ registerName x ++ ", K"
  | setDelay x => "LD DT, " ++ registerName x
  | setSound x => "LD ST, " ++ registerName x
  | addIndex x => "ADD I, " ++ registerName x
  | pointGlyph x => "LD F, " ++ registerName x
  | storeDigits x => "LD B, " ++ registerName x
  | storeRegisters x => "LD [I], " ++ registerName x
  | loadRegisters x => "LD " ++ registerName x ++ ", [I]"

end Chip8.Instruction
