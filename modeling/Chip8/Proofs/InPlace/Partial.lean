import Chip8.Block
import Chip8.Font

/-!
Arithmetic and indexing with nothing to fall back on: where a number leaves its width or a position
its range, there is no answer (`none`).
-/
namespace Chip8.InPlace

def sum? (a b : UInt16) : Option UInt16 :=
  if a.toNat + b.toNat < 0x10000 then some (a + b) else none

def product? (a b : UInt16) : Option UInt16 :=
  if a.toNat * b.toNat < 0x10000 then some (a * b) else none

/-- A sum of two numbers of 64 bits, the width of positions and lengths. -/
def wideSum? (a b : Nat) : Option Nat := if a + b < UInt64.size then some (a + b) else none

def difference? (a b : Nat) : Option Nat := if b ≤ a then some (a - b) else none

variable {size : Nat}

/-- The bytes from a position up to another one. -/
def read? (store : Vector UInt8 size) (start stop : Nat) : Option (List UInt8) :=
  if start ≤ stop ∧ stop ≤ size then some (Block.read store start (stop - start)) else none

/-- The store with the bytes from a position up to another one replaced, by as many. -/
def copy? (store : Vector UInt8 size) (start stop : Nat) (data : List UInt8) :
    Option (Vector UInt8 size) :=
  if start ≤ stop ∧ stop ≤ size ∧ data.length = stop - start then
    some (Block.write store start data)
  else none

theorem sum?_of_fits {a b : UInt16} (fits : a.toNat + b.toNat < 0x10000) : sum? a b = some (a + b) :=
  if_pos fits

theorem product?_of_fits {a b : UInt16} (fits : a.toNat * b.toNat < 0x10000) :
    product? a b = some (a * b) := if_pos fits

theorem wideSum?_of_fits {a b : Nat} (fits : a + b < UInt64.size) : wideSum? a b = some (a + b) :=
  if_pos fits

theorem difference?_of_le {a b : Nat} (le : b ≤ a) : difference? a b = some (a - b) := if_pos le

theorem read?_of_inside (store : Vector UInt8 size) {start length : Nat}
    (inside : start + length ≤ size) :
    read? store start (start + length) = some (Block.read store start length) := by
  rw [read?, if_pos ⟨Nat.le_add_right _ _, inside⟩, Nat.add_sub_cancel_left]

theorem copy?_of_inside (store : Vector UInt8 size) {start : Nat} {data : List UInt8}
    (inside : start + data.length ≤ size) :
    copy? store start (start + data.length) data = some (Block.write store start data) := by
  rw [copy?, if_pos ⟨Nat.le_add_right _ _, inside, (Nat.add_sub_cancel_left ..).symm⟩]

end Chip8.InPlace
