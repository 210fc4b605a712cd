import Chip8.Proofs.Machine.Stepping

/-!
Where an executed instruction leads and what it does to the calls in progress. Five instructions
name the place where execution goes on or make the machine wait, six may skip, and all others pass
on to the next instruction with the calls and the status as they were (`flow_of_execute`).
-/
namespace Chip8

/-- The instructions that may leave out the one that follows. -/
def Instruction.IsSkip : Instruction → Prop
  | skipIfByte _ _ | skipUnlessByte _ _ | skipIfSame _ _ | skipUnlessSame _ _ | skipIfKeyDown _
  | skipIfKeyUp _ => True
  | _ => False

/-- The instructions that only pass on to the next one. -/
def Instruction.IsPlain : Instruction → Prop
  | ret | jump _ | call _ | jumpDisplaced _ | awaitKey _ => False
  | skipIfByte _ _ | skipUnlessByte _ _ | skipIfSame _ _ | skipUnlessSame _ _ | skipIfKeyDown _
  | skipIfKeyUp _ => False
  | _ => True

namespace Machine

/-- What an instruction can do to the course of execution. -/
inductive Flow (m : Machine) : Instruction → Effect → Prop where
  | jump (nnn : UInt16) : Flow m (.jump nnn) { machine := m, advance := .goto nnn }
  | jumpDisplaced (nnn : UInt16) :
      Flow m (.jumpDisplaced nnn) { machine := m, advance := .goto ((m.value 0).toUInt16 + nnn) }
  | call (nnn : UInt16) {pushed : CallStack} (room : m.stack.push? m.pc = some pushed) :
      Flow m (.call nnn) { machine := { m with stack := pushed }, advance := .goto nnn }
  | ret {address : UInt16} {popped : CallStack} (inside : m.stack.pop? = some (address, popped)) :
      Flow m .ret { machine := { m with stack := popped }, advance := .goto (address + 2) }
  | awaitKey (x : UInt8) :
      Flow m (.awaitKey x) { machine := { m with status := .waiting x }, log := [.awaitingKey x] }
  | skip {instruction : Instruction} (isSkip : instruction.IsSkip) (condition : Bool) :
      Flow m instruction { machine := m, advance := .skipIf condition }
  | plain {instruction : Instruction} {effect : Effect} (isPlain : instruction.IsPlain)
      (advance : effect.advance = .next) (stack : effect.machine.stack = m.stack)
      (status : effect.machine.status = m.status) : Flow m instruction effect

theorem flow_of_execute {m : Machine} {instruction : Instruction} {effect : Effect}
    (done : m.execute instruction = .ok effect) : Flow m instruction effect := by
  cases instruction
  case jump nnn | jumpDisplaced nnn =>
    cases done
    constructor
  case call nnn =>
    cases room : m.stack.push? m.pc with
    | some pushed =>
      simp only [execute, room] at done
      cases done
      exact .call nnn room
    | none => simp [execute, room] at done
  case ret =>
    cases inside : m.stack.pop? with
    | some popped =>
      simp only [execute, inside] at done
      cases done
      exact .ret inside
    | none => simp [execute, inside] at done
  case awaitKey x =>
    cases done
    exact .awaitKey x
  case skipIfByte | skipUnlessByte | skipIfSame | skipUnlessSame =>
    cases done
    exact .skip (by exact trivial) _
  case skipIfKeyDown | skipIfKeyUp =>
    obtain ⟨down, _, built⟩ := bind_eq_ok_iff.mp done
    cases built
    exact .skip (by exact trivial) _
  case draw | storeDigits | storeRegisters | loadRegisters =>
    obtain ⟨_, _, built⟩ := bind_eq_ok_iff.mp done
    cases built
    exact .plain (by exact trivial) rfl rfl rfl
  all_goals
    cases done
    exact .plain (by exact trivial) rfl rfl rfl

end Machine

end Chip8
