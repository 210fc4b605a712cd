import Chip8.Numeral

/-!
What stops a machine. A fault is final: the instruction that caused it has no effect, and every
later step answers `halted`.
-/
namespace Chip8
open Numeral (hexLiteral)

inductive Fault where
  | unknownOpcode (word pc : UInt16)
  | stackOverflow (pc : UInt16)
  | stackUnderflow (pc : UInt16)
  -- the first address of the access that does not exist
  | outOfBounds (address : Nat)
  | unknownKey (key : UInt8)
  | halted
  deriving DecidableEq, Repr

def Fault.message : Fault → String
  | unknownOpcode word pc =>
    "unimplemented opcode " ++ hexLiteral 4 word.toNat ++ " at " ++ hexLiteral 3 pc.toNat
  | stackOverflow pc => "call stack overflow at " ++ hexLiteral 3 pc.toNat
  | stackUnderflow pc => "return with empty call stack at " ++ hexLiteral 3 pc.toNat
  | outOfBounds address => "memory access out of bounds at " ++ hexLiteral 4 address
  | unknownKey key => "key " ++ hexLiteral 2 key.toNat ++ " is not on the keypad"
  | halted => "machine is halted"

end Chip8
