import Chip8.Block

/-!
The register file: sixteen byte registers V0 to VF, the last of which is the flag of arithmetic and
drawing. An operand names a register by its low hexadecimal digit, which is all of it in a decoded
instruction.
-/
namespace Chip8

abbrev registerCount : Nat := 16

abbrev Registers : Type := Vector UInt8 registerCount

namespace Registers

def zero : Registers := Vector.replicate registerCount 0

def number (operand : UInt8) : Fin registerCount :=
  ⟨operand.toNat % registerCount, Nat.mod_lt _ (by decide)⟩

def flag : UInt8 := 0xF

def value (v : Registers) (operand : UInt8) : UInt8 := v[number operand]

def put (v : Registers) (operand value : UInt8) : Registers :=
  v.set (number operand) value (number operand).isLt

def putFlag (v : Registers) (yes : Bool) : Registers := v.put flag (if yes then 1 else 0)

/-- How many registers there are from V0 up to the one an operand names. -/
def countTo (operand : UInt8) : Nat := operand.toNat + 1

def upTo (v : Registers) (operand : UInt8) : List UInt8 := Block.read v 0 (countTo operand)

def putFirst (v : Registers) (values : List UInt8) : Registers := Block.write v 0 values

theorem get_put (v : Registers) (x byte : UInt8) (register : Fin registerCount) :
    (v.put x byte).get register = if number x = register then byte else v.get register := by
  show (v.set _ byte _)[register.val] = if _ then _ else v[register.val]
  simp only [Vector.getElem_set, Fin.ext_iff]

theorem value_put (v : Registers) (x y byte : UInt8) :
    (v.put x byte).value y = if number x = number y then byte else v.value y := by
  simp [value, put, Vector.getElem_set, Fin.ext_iff]

end Registers

end Chip8
