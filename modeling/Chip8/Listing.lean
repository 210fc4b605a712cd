import Chip8.Instruction.Decode
import Chip8.Instruction.Mnemonic
import Chip8.Layout

/-!
Program listings. Bytes pair up to words from the start of the program on, whether they are code or
data; a last byte without a partner gets a line of its own. Each line carries its address and its
bytes, and a word that is no instruction is marked instead of named.
-/
namespace Chip8
open Numeral (hex hexLiteral)

inductive ListingLine where
  | word (address : Nat) (value : UInt16)
  | byte (address : Nat) (value : UInt8)
  deriving DecidableEq, Repr

namespace ListingLine

def ofBytes (address : Nat) : List UInt8 → List ListingLine
  | [] => []
  | [last] => [.byte address last]
  | high :: low :: rest =>
    .word address (Instruction.wordOfBytes high low) :: ofBytes (address + 2) rest

/-- What the last column shows for a word: its assembly text, or `???` for a word that is no
    instruction. -/
def wordColumn (value : UInt16) : String :=
  match Instruction.ofWord? value with
  | some instruction => instruction.mnemonic
  | none => "???"

def text : ListingLine → String
  | word address value =>
    hexLiteral 3 address ++ ": " ++ hex 4 value.toNat ++ "  " ++ wordColumn value
  | byte address value =>
    hexLiteral 3 address ++ ": " ++ hex 2 value.toNat ++ "    DB " ++ hexLiteral 2 value.toNat

end ListingLine

def listing (code : List UInt8) : String :=
  String.join ((ListingLine.ofBytes programStart code).map fun line => line.text ++ "\n")

end Chip8
