import Chip8.Registers

/-!
Registers by their numbers. An instruction names a register by an operand, and every register has one
(`operand`), which decoding yields for the register's digit.
-/
namespace Chip8.Registers

/-- The operand that names a register. -/
def operand (x : Fin registerCount) : UInt8 := UInt8.ofNat x.val

@[simp] theorem toNat_operand (x : Fin registerCount) : (operand x).toNat = x.val := by
  have small : x.val < 16 := x.isLt
  simp only [operand, UInt8.toNat_ofNat']
  omega

@[simp] theorem number_operand (x : Fin registerCount) : number (operand x) = x := by
  apply Fin.ext
  show (operand x).toNat % registerCount = x.val
  rw [toNat_operand, Nat.mod_eq_of_lt x.isLt]

@[simp] theorem value_operand (v : Registers) (x : Fin registerCount) :
    v.value (operand x) = v.get x := by
  show v.get (number (operand x)) = v.get x
  rw [number_operand]

/-- A flag and then a result: where both go to one register, the result stays. -/
theorem get_flagged (v : Registers) (flag : Bool) (x : Fin registerCount) (result : UInt8)
    (register : Fin registerCount) :
    ((v.putFlag flag).put (operand x) result).get register =
      if register = x then result
      else if register = 15 then (if flag then 1 else 0) else v.get register := by
  have last : number Registers.flag = 15 := rfl
  rw [get_put, number_operand, putFlag, get_put, last]
  simp only [eq_comm]

end Chip8.Registers
