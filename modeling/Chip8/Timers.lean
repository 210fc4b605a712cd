/-!
The two timers of a machine. They tick together, each down to zero and no further; `toNat_countDown`
puts a tick as a difference of natural numbers.
-/
namespace Chip8

/-- The delay timer, which programs can read, and the sound timer, which they only set. -/
structure Timers where
  delay : UInt8
  sound : UInt8
  deriving DecidableEq, Repr

namespace Timers

def stopped : Timers := ⟨0, 0⟩

def countDown (timer : UInt8) : UInt8 := if timer = 0 then 0 else timer - 1

def tick (t : Timers) : Timers := ⟨countDown t.delay, countDown t.sound⟩

theorem toNat_countDown (timer : UInt8) : (countDown timer).toNat = timer.toNat - 1 := by
  by_cases zero : timer = 0
  · subst zero
    rfl
  · have positive : 1 ≤ timer := by
      have : timer.toNat ≠ 0 := fun none => zero (UInt8.toNat_inj.mp none)
      exact UInt8.le_iff_toNat_le.mpr (by simpa using Nat.one_le_iff_ne_zero.mpr this)
    simp [countDown, zero, UInt8.toNat_sub_of_le _ _ positive]

end Timers

end Chip8
