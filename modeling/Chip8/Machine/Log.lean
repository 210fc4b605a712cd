import Chip8.Fault
import Chip8.Instruction.Mnemonic

/-!
The log of a machine: what it reports about its work, as data. The text of an entry and how much it
matters are functions of it.
-/
namespace Chip8
open Numeral (decimal hex hexLiteral)

inductive LogLevel where
  | trace
  | debug
  | warn
  deriving DecidableEq, Repr

def LogLevel.name : LogLevel → String
  | trace => "TRACE"
  | debug => "DEBUG"
  | warn => "WARN"

inductive LogEntry where
  | loaded (size : Nat)
  | executing (pc word : UInt16) (instruction : Instruction)
  | clearing
  | awaitingKey (register : UInt8)
  | keyTaken (key register : UInt8)
  | halting (cause : Fault)
  deriving DecidableEq, Repr

namespace LogEntry

def level : LogEntry → LogLevel
  | executing _ _ _ => .trace
  | halting _ => .warn
  | _ => .debug

def text : LogEntry → String
  | loaded size => "loaded " ++ decimal size ++ " byte program"
  | executing pc word instruction =>
    hexLiteral 3 pc.toNat ++ "    " ++ hexLiteral 4 word.toNat ++ "    " ++ instruction.mnemonic
  | clearing => "clearing screen"
  | awaitingKey register => "waiting for key press into " ++ Instruction.registerName register
  | keyTaken key register =>
    "key " ++ hex 1 key.toNat ++ " pressed, stored in " ++ Instruction.registerName register
  | halting cause => "halting: " ++ cause.message

end LogEntry

end Chip8
