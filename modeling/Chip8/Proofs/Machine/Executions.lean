import Chip8.Proofs.Machine.History
import Chip8.Proofs.Machine.Stepping

/-!
The instructions that a history executes (`executions`), and what they do to the devices around the
processor: the timers, the random source and the keys. Two instructions set a timer and one takes a
random byte, and none touches the keys (`devices_of_execute`); timers also tick in every step that
succeeds, and that is all that happens to them (`timers_step`), as a random byte is all that is ever
taken from the source (`random_perform`).
-/
namespace Chip8

/-- Whether an instruction takes a random byte. -/
def Instruction.takesByte : Instruction → Bool
  | random _ _ => true
  | _ => false

namespace Machine

/-- The instruction that a command executes. -/
def executes? (m : Machine) : Command → Option Instruction
  | .step => m.executed?
  | _ => none

/-- The instructions that the commands of a history execute, in order. -/
def executions (m : Machine) : List Command → List Instruction
  | [] => []
  | command :: rest => (m.executes? command).toList ++ (m.perform command).machine.executions rest

/-- The timers once an instruction is done, before they tick. -/
def timersAfter (m : Machine) : Instruction → Timers
  | .setDelay x => { m.timers with delay := m.value x }
  | .setSound x => { m.timers with sound := m.value x }
  | _ => m.timers

theorem executes?_of_ne_step (m : Machine) {command : Command} (other : command ≠ .step) :
    m.executes? command = none := by
  cases command with
  | step => exact absurd rfl other
  | load | loadRom | setKey | takeRedraw => rfl

theorem mem_executions_cons {m : Machine} {command : Command} {rest : List Command}
    {instruction : Instruction} :
    instruction ∈ m.executions (command :: rest) ↔
      m.executes? command = some instruction ∨
        instruction ∈ (m.perform command).machine.executions rest := by
  simp [executions]

/-! ### Devices -/

theorem devices_of_execute {m : Machine} {instruction : Instruction} {effect : Effect}
    (done : m.execute instruction = .ok effect) :
    effect.machine.timers = m.timersAfter instruction ∧
      effect.machine.random = (if instruction.takesByte then m.random.drop else m.random) ∧
      effect.machine.keys = m.keys := by
  cases instruction
  case call | ret =>
    simp only [execute] at done
    split at done
    · cases done
      exact ⟨rfl, rfl, rfl⟩
    · cases done
  case draw | skipIfKeyDown | skipIfKeyUp | storeDigits | storeRegisters | loadRegisters =>
    obtain ⟨_, _, built⟩ := bind_eq_ok_iff.mp done
    cases built
    exact ⟨rfl, rfl, rfl⟩
  all_goals
    cases done
    exact ⟨rfl, rfl, rfl⟩

/-- The timers tick once in a step that succeeds, after what the instruction did, and stand still in
    one that fails. -/
theorem timers_step (m : Machine) :
    (∀ outcome, m.step.result = .ok outcome →
      m.step.machine.timers = ((m.executed?.map m.timersAfter).getD m.timers).tick) ∧
    (∀ cause, m.step.result = .error cause → m.step.machine.timers = m.timers) := by
  have ways := m.stepped
  generalize m.step = transition at ways
  cases ways with
  | executed running fetched done =>
    refine ⟨?_, by simp [succeed]⟩
    intro outcome _
    rw [executed?_of_execute running fetched done]
    exact congrArg Timers.tick (devices_of_execute done).1
  | refused | unfetched | stayed => exact ⟨by simp [fail], fun _ _ => rfl⟩
  | taken waiting | waited waiting =>
    refine ⟨?_, by simp [succeed]⟩
    intro outcome _
    rw [executed?_eq_none (.inl (by simp [waiting]))]
    rfl

theorem timers_of_ne_step (m : Machine) {command : Command} (other : command ≠ .step) :
    (m.perform command).machine.timers = m.timers := by
  obtain ⟨memory, keys, redraw, same⟩ := m.perform_of_ne_step other
  rw [same]

theorem random_step (m : Machine) :
    m.step.machine.random =
      if m.executed?.any Instruction.takesByte then m.random.drop else m.random := by
  have ways := m.stepped
  generalize stepped : m.step = transition at ways
  cases ways with
  | executed running fetched done =>
    rw [executed?_of_execute running fetched done]
    exact (devices_of_execute done).2.1
  | refused | unfetched =>
    rw [executed?_eq_none (.inr ⟨_, congrArg Transition.result stepped⟩)]
    rfl
  | taken idle | waited idle | stayed idle =>
    rw [executed?_eq_none (.inl (by simp [idle]))]
    rfl

/-- A random byte is taken exactly where an instruction takes one. -/
theorem random_perform (m : Machine) (command : Command) :
    (m.perform command).machine.random =
      if (m.executes? command).any Instruction.takesByte then m.random.drop else m.random := by
  by_cases step : command = .step
  · subst step
    exact m.random_step
  · obtain ⟨memory, keys, redraw, same⟩ := m.perform_of_ne_step step
    rw [same, m.executes?_of_ne_step step]
    rfl

end Machine

end Chip8
