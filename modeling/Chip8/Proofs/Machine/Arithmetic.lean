import Chip8.Proofs.Machine.Bounds
import Chip8.Proofs.Machine.Program
import Chip8.Proofs.Registers

/-!
Arithmetic with a flag: `8xy4`, `8xy5` and `8xy6`. All three put a flag into VF and then a result into Vx, so
the result stays where the two are one register (`flagged_of_word`). What results and flags are as numbers
is `flag_arithmetic`, and with it that a subtraction takes an addition back.
-/
namespace Chip8.Machine
open Instruction (wordDigits)
open Registers (operand)

/-- The result of `8xy4`, `8xy5` or `8xy6`, told apart by the last digit, and its flag. -/
def resultAndFlag (n : Nat) (vx vy : UInt8) : UInt8 × Bool :=
  if n = 4 then (vx + vy, decide (256 ≤ vx.toNat + vy.toNat))
  else if n = 5 then (vx - vy, decide (vy ≤ vx))
  else (vx / 2, decide (vx % 2 = 1))

/-- How a step goes that puts a flag into VF and then a result into Vx. -/
structure Flagged (m : Machine) (x : Fin registerCount) (result : UInt8) (flag : Bool) : Prop where
  outcome : m.step.result = .ok { displayChanged := false, waiting := false }
  status : m.step.machine.status = .running
  pc : m.step.machine.pc.toNat = m.pc.toNat + 2
  memory : m.step.machine.memory = m.memory
  registers : ∀ register, m.step.machine.registers.get register =
    if register = x then result
    else if register = 15 then (if flag then 1 else 0) else m.registers.get register

/-- How a step with `8xy4`, `8xy5` or `8xy6` goes. -/
abbrev FlaggedBy (m : Machine) (x y : Fin registerCount) (n : Nat) : Prop :=
  Flagged m x (resultAndFlag n (m.registers.get x) (m.registers.get y)).1
    (resultAndFlag n (m.registers.get x) (m.registers.get y)).2

structure Adds (before after : Registers) (x y : Fin registerCount) : Prop where
  sum : (after.get x).toNat = ((before.get x).toNat + (before.get y).toNat) % 256
  carry : x ≠ 15 → (after.get 15 = 0 ∨ after.get 15 = 1) ∧
    (after.get x).toNat + 256 * (after.get 15).toNat = (before.get x).toNat + (before.get y).toNat

structure Subtracts (before after : Registers) (x y : Fin registerCount) : Prop where
  difference : ((after.get x).toNat : Int) =
    ((before.get x).toNat - (before.get y).toNat : Int) % 256
  noBorrow : x ≠ 15 → after.get 15 = if before.get y ≤ before.get x then 1 else 0

-- Nothing here depends on Vy.
structure Halves (before after : Registers) (x : Fin registerCount) : Prop where
  half : (after.get x).toNat = (before.get x).toNat / 2
  odd : x ≠ 15 → (after.get 15 = 0 ∨ after.get 15 = 1) ∧
    (before.get x).toNat = 2 * (after.get x).toNat + (after.get 15).toNat

/-- An addition that the next step takes back. -/
structure TakenBack (m : Machine) (x : Fin registerCount) : Prop where
  result : m.step.machine.step.result = .ok { displayChanged := false, waiting := false }
  restored : m.step.machine.step.machine.registers.get x = m.registers.get x
  -- The flag in the end and the carry of the addition.
  flag : (m.step.machine.step.machine.registers.get 15).toNat =
    1 - (m.step.machine.registers.get 15).toNat

variable {m : Machine} {word : UInt16} {x y : Fin registerCount} {n : Nat}

/-! ### One step -/

theorem flagged_of_execute {instruction : Instruction} {result : UInt8} {flag : Bool}
    (running : m.status = .running) (fetched : m.fetch = .ok (word, instruction))
    (done : m.execute instruction =
      .ok { machine := { m with registers := (m.registers.putFlag flag).put (operand x) result } }) :
    Flagged m x result flag := by
  have next : (m.pc + 2).toNat = m.pc.toNat + 2 := toNat_add_small (pc_of_fetch fetched) (by decide)
  refine ⟨outcome_of_execute running fetched done running, ?_, ?_, ?_, ?_⟩
  all_goals rw [step_of_execute running fetched done]
  · exact running
  · exact next
  · rfl
  · exact Registers.get_flagged m.registers flag x result

theorem flagged_of_word (running : m.status = .running) (read : m.memory.word m.pc.toNat = .ok word)
    (digits : wordDigits word = (0x8, x.val, y.val, n)) (known : n = 4 ∨ n = 5 ∨ n = 6) :
    FlaggedBy m x y n := by
  have vx : m.value (operand x) = m.registers.get x := m.registers.value_operand x
  have vy : m.value (operand y) = m.registers.get y := m.registers.value_operand y
  rw [FlaggedBy, ← vx, ← vy]
  rw [← Registers.toNat_operand x, ← Registers.toNat_operand y] at digits
  rcases known with rfl | rfl | rfl
  · have decoded : Instruction.ofWord? word = some (.add (operand x) (operand y)) :=
      Instruction.ofWord?_eq_some_iff.mpr ⟨0, digits⟩
    exact flagged_of_execute running (fetch_eq_ok_iff.mpr ⟨read, decoded⟩) rfl
  · have decoded : Instruction.ofWord? word = some (.subtract (operand x) (operand y)) :=
      Instruction.ofWord?_eq_some_iff.mpr ⟨0, digits⟩
    exact flagged_of_execute running (fetch_eq_ok_iff.mpr ⟨read, decoded⟩) rfl
  · have decoded : Instruction.ofWord? word = some (.shiftRight (operand x)) :=
      Instruction.ofWord?_eq_some_iff.mpr ⟨(operand y).toNat, digits⟩
    exact flagged_of_execute running (fetch_eq_ok_iff.mpr ⟨read, decoded⟩) rfl

namespace Flagged
variable {result : UInt8} {flag : Bool}

theorem result_eq (flagged : Flagged m x result flag) :
    m.step.machine.registers.get x = result := by
  rw [flagged.registers, if_pos rfl]

theorem flag_eq (flagged : Flagged m x result flag) (free : x ≠ 15) :
    m.step.machine.registers.get 15 = if flag then 1 else 0 := by
  rw [flagged.registers, if_neg free.symm, if_pos rfl]

theorem unmoved (flagged : Flagged m x result flag) {register : Fin registerCount}
    (other : register ≠ x) (free : register ≠ 15) :
    m.step.machine.registers.get register = m.registers.get register := by
  rw [flagged.registers, if_neg other, if_neg free]

end Flagged

/-! ### Numbers -/

theorem zero_or_one (flag : Bool) :
    (if flag then 1 else 0 : UInt8) = 0 ∨ (if flag then 1 else 0 : UInt8) = 1 := by
  cases flag
  · exact .inl rfl
  · exact .inr rfl

theorem adds_of_flagged (flagged : FlaggedBy m x y 4) :
    Adds m.registers m.step.machine.registers x y := by
  have left := (m.registers.get x).toNat_lt
  have right := (m.registers.get y).toNat_lt
  have sum : (m.step.machine.registers.get x).toNat =
      ((m.registers.get x).toNat + (m.registers.get y).toNat) % 256 := by
    rw [flagged.result_eq]
    exact UInt8.toNat_add ..
  refine ⟨sum, ?_⟩
  intro free
  rw [sum, flagged.flag_eq free]
  refine ⟨zero_or_one _, ?_⟩
  by_cases carry : 256 ≤ (m.registers.get x).toNat + (m.registers.get y).toNat
  · simp [resultAndFlag, carry]
    omega
  · simp [resultAndFlag, carry]
    omega

theorem subtracts_of_flagged (flagged : FlaggedBy m x y 5) :
    Subtracts m.registers m.step.machine.registers x y := by
  have left := (m.registers.get x).toNat_lt
  have right := (m.registers.get y).toNat_lt
  refine ⟨?_, ?_⟩
  · rw [flagged.result_eq]
    show ((m.registers.get x - m.registers.get y).toNat : Int) = _
    rw [UInt8.toNat_sub]
    omega
  · intro free
    rw [flagged.flag_eq free]
    simp [resultAndFlag]

theorem halves_of_flagged (flagged : FlaggedBy m x y 6) :
    Halves m.registers m.step.machine.registers x := by
  have half : (m.step.machine.registers.get x).toNat = (m.registers.get x).toNat / 2 := by
    rw [flagged.result_eq]
    exact UInt8.toNat_div ..
  refine ⟨half, ?_⟩
  intro free
  rw [half, flagged.flag_eq free]
  refine ⟨zero_or_one _, ?_⟩
  by_cases odd : m.registers.get x % 2 = 1
  · have rest : (m.registers.get x).toNat % 2 = 1 := congrArg UInt8.toNat odd
    simp [resultAndFlag, odd]
    omega
  · have rest : (m.registers.get x).toNat % 2 ≠ 1 :=
      fun same => odd (UInt8.toNat_inj.mp same)
    simp [resultAndFlag, odd]
    omega

/-! ### Two steps -/

theorem takenBack_of_flagged (added : FlaggedBy m x y 4) (taken : FlaggedBy m.step.machine x y 5)
    (apart : x ≠ y) (xFree : x ≠ 15) (yFree : y ≠ 15) : TakenBack m x := by
  have left := (m.registers.get x).toNat_lt
  have right := (m.registers.get y).toNat_lt
  have kept : m.step.machine.registers.get y = m.registers.get y :=
    added.unmoved apart.symm yFree
  have sum := added.result_eq
  refine ⟨taken.outcome, ?_, ?_⟩
  · rw [taken.result_eq]
    show m.step.machine.registers.get x - m.step.machine.registers.get y = m.registers.get x
    rw [kept, sum]
    exact UInt8.add_sub_cancel ..
  · obtain ⟨zero | one, whole⟩ := (adds_of_flagged added).carry xFree
    all_goals rw [(subtracts_of_flagged taken).noBorrow xFree, kept]
    · -- Without a carry the sum is at least Vy, so nothing is borrowed.
      rw [zero] at whole ⊢
      have enough : m.registers.get y ≤ m.step.machine.registers.get x := by
        rw [UInt8.le_iff_toNat_le]
        have unit : (0 : UInt8).toNat = 0 := rfl
        omega
      rw [if_pos enough]
      rfl
    · -- With one it is less than Vy by as much as Vx is less than 256.
      rw [one] at whole ⊢
      have short : ¬ m.registers.get y ≤ m.step.machine.registers.get x := by
        rw [UInt8.le_iff_toNat_le]
        have unit : (1 : UInt8).toNat = 1 := rfl
        omega
      rw [if_neg short]
      rfl

/-- Arithmetic with a flag, whichever registers the operands are. With x = F what remains in VF is the
    result. Where neither register is VF, a subtraction right behind an addition brings Vx back, and VF then
    tells that there was no carry. -/
theorem flag_arithmetic (running : m.status = .running) (read : m.memory.word m.pc.toNat = .ok word)
    (digits : wordDigits word = (0x8, x.val, y.val, n)) (known : n = 4 ∨ n = 5 ∨ n = 6) :
    let after := m.step.machine.registers
    m.step.result = .ok { displayChanged := false, waiting := false } ∧
    (∀ register, register ≠ x → register ≠ 15 → after.get register = m.registers.get register) ∧
    (n = 4 → Adds m.registers after x y) ∧
    (n = 5 → Subtracts m.registers after x y) ∧
    (n = 6 → Halves m.registers after x) ∧
    (n = 4 → x ≠ y → x ≠ 15 → y ≠ 15 → ∀ next, m.memory.word (m.pc.toNat + 2) = .ok next →
      wordDigits next = (0x8, x.val, y.val, 5) → TakenBack m x) := by
  have flagged := flagged_of_word running read digits known
  refine ⟨flagged.outcome, fun _ => flagged.unmoved, ?_, ?_, ?_, ?_⟩
  · rintro rfl
    exact adds_of_flagged flagged
  · rintro rfl
    exact subtracts_of_flagged flagged
  · rintro rfl
    exact halves_of_flagged flagged
  · rintro rfl apart xFree yFree next readNext digitsNext
    have again : m.step.machine.memory.word m.step.machine.pc.toNat = .ok next := by
      rw [flagged.memory, flagged.pc, readNext]
    have taken := flagged_of_word flagged.status again digitsNext (.inr (.inl rfl))
    exact takenBack_of_flagged flagged taken apart xFree yFree

/-- 200 and 100, of which the sum has a carry. -/
theorem flag_arithmetic_with_carry :
    let loaded := ((ofSeed 0).perform (.load [0x81, 0x24, 0x81, 0x25])).machine
    let m := { loaded with registers := (Registers.zero.put 1 200).put 2 100 }
    let after := m.step.machine.registers
    (m.status = .running ∧ m.memory.word m.pc.toNat = .ok 0x8124 ∧
      wordDigits 0x8124 = (0x8, (1 : Fin registerCount).val, (2 : Fin registerCount).val, 4) ∧
      m.memory.word (m.pc.toNat + 2) = .ok 0x8125 ∧
      wordDigits 0x8125 = (0x8, (1 : Fin registerCount).val, (2 : Fin registerCount).val, 5)) ∧
    Adds m.registers after 1 2 ∧ TakenBack m 1 := by
  intro loaded m after
  have fits : [0x81, 0x24, 0x81, 0x25].length ≤ programLimit := by decide
  have holds : loaded.Holds [0x81, 0x24, 0x81, 0x25] := (ofSeed 0).holds_of_load fits
  have here : m.memory.word m.pc.toNat = .ok 0x8124 := holds.word fits (i := 0) (by decide) (by decide)
  have next : m.memory.word (m.pc.toNat + 2) = .ok 0x8125 :=
    holds.word fits (i := 1) (by decide) (by decide)
  have sum : wordDigits 0x8124 =
    (0x8, (1 : Fin registerCount).val, (2 : Fin registerCount).val, 4) := rfl
  have difference : wordDigits 0x8125 =
    (0x8, (1 : Fin registerCount).val, (2 : Fin registerCount).val, 5) := rfl
  obtain ⟨_, _, adds, _, _, takenBack⟩ := flag_arithmetic (m := m) rfl here sum (.inl rfl)
  exact ⟨⟨rfl, here, sum, next, difference⟩, adds rfl,
    takenBack rfl (by decide) (by decide) (by decide) _ next difference⟩

end Chip8.Machine
