import Chip8.Block
import Chip8.Fault
import Chip8.Font
import Chip8.Instruction.Decode
import Chip8.Layout
import Chip8.LoadError

/-!
Memory: one block of bytes with the font at its start and a program behind `programStart`. Every
access is checked first. One that starts outside of memory is refused at the address where it
starts, and one that runs out of memory at the first address past the end; a refused write changes
nothing.
-/
namespace Chip8

structure Memory where
  bytes : Vector UInt8 memorySize
  programLength : Nat
  programLength_le : programLength ≤ programLimit
  deriving DecidableEq

namespace Memory

def initial : Memory where
  bytes := Block.write (Vector.replicate memorySize 0) 0 Font.bytes
  programLength := 0
  programLength_le := Nat.zero_le _

/-- The byte at an address; there is nothing but zeros past the end. -/
def byte (m : Memory) (address : Nat) : UInt8 := m.bytes[address]?.getD 0

def check (start length : Nat) : Except Fault Unit :=
  if memorySize ≤ start then .error (.outOfBounds start)
  else if memorySize < start + length then .error (.outOfBounds memorySize)
  else .ok ()

def slice (m : Memory) (start length : Nat) : Except Fault (List UInt8) := do
  check start length
  return Block.read m.bytes start length

def word (m : Memory) (address : Nat) : Except Fault UInt16 := do
  check address 2
  return Instruction.wordOfBytes (m.byte address) (m.byte (address + 1))

def write (m : Memory) (start : Nat) (data : List UInt8) : Except Fault Memory := do
  check start data.length
  return { m with bytes := Block.write m.bytes start data }

/-- Memory with a program in place of the one before. The program is followed by zeros up to the
    end, so nothing is left of earlier contents. -/
def load (m : Memory) (code : List UInt8) : Except LoadError Memory :=
  if fits : code.length ≤ programLimit then
    .ok {
      bytes := Block.write m.bytes programStart
        (code ++ List.replicate (programLimit - code.length) 0)
      programLength := code.length
      programLength_le := fits }
  else .error (.tooLarge code.length programLimit)

/-- The bytes of the loaded program as they are now. -/
def program (m : Memory) : List UInt8 := Block.read m.bytes programStart m.programLength

end Memory

end Chip8
