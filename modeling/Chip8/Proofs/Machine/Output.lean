import Chip8.Proofs.Machine.Stepping

/-!
What an executed instruction leaves outside of the registers: in memory, on the display and in the
log. Two instructions touch the display, two write to memory, one announces that the machine waits,
and all others leave no trace there (`output_of_execute`). So the display changes only in a step that
says so, and such a step makes the next picture due (`picture_of_step`). Whether a picture was due
already has no effect on a step (`step_of_redraw`).
-/
namespace Chip8.Machine

/-- The bytes that an instruction puts into memory at the index. -/
def stored? (m : Machine) : Instruction → Option (List UInt8)
  | .storeDigits x => some (decimalDigits (m.value x))
  | .storeRegisters x => some (m.registers.upTo x)
  | _ => none

/-- What an instruction can leave in memory, on the display and in the log. -/
inductive Output (m : Machine) : Instruction → Effect → Prop where
  | clear :
      Output m .clearDisplay
        { machine := m.clearDisplay, displayChanged := true, log := [.clearing] }
  | draw (x y n : UInt8) (sprite : List UInt8) :
      Output m (.draw x y n) { machine := m.drawSprite x y sprite, displayChanged := true }
  | store {instruction : Instruction} {data : List UInt8} {written : Memory}
      (stores : m.stored? instruction = some data)
      (done : m.memory.write m.index.toNat data = .ok written) :
      Output m instruction { machine := { m with memory := written } }
  | awaitKey (x : UInt8) :
      Output m (.awaitKey x) { machine := { m with status := .waiting x }, log := [.awaitingKey x] }
  | none {instruction : Instruction} {effect : Effect} (stores : m.stored? instruction = none)
      (memory : effect.machine.memory = m.memory) (display : effect.machine.display = m.display)
      (redraw : effect.machine.redraw = m.redraw) (unchanged : effect.displayChanged = false)
      (log : effect.log = []) : Output m instruction effect

theorem output_of_execute {m : Machine} {instruction : Instruction} {effect : Effect}
    (done : m.execute instruction = .ok effect) : Output m instruction effect := by
  cases instruction
  case clearDisplay =>
    cases done
    exact .clear
  case draw x y n =>
    obtain ⟨sprite, _, built⟩ := bind_eq_ok_iff.mp done
    cases built
    exact .draw x y n sprite
  case storeDigits | storeRegisters =>
    obtain ⟨written, write, built⟩ := bind_eq_ok_iff.mp done
    cases built
    exact .store rfl write
  case awaitKey x =>
    cases done
    exact .awaitKey x
  case call | ret =>
    simp only [execute] at done
    split at done
    · cases done
      exact .none rfl rfl rfl rfl rfl rfl
    · cases done
  case skipIfKeyDown | skipIfKeyUp | loadRegisters =>
    obtain ⟨_, _, built⟩ := bind_eq_ok_iff.mp done
    cases built
    exact .none rfl rfl rfl rfl rfl rfl
  all_goals
    cases done
    exact .none rfl rfl rfl rfl rfl rfl

theorem picture_of_step {m : Machine} {outcome : Outcome} (done : m.step.result = .ok outcome) :
    m.step.machine.redraw = (m.redraw || outcome.displayChanged) ∧
      (outcome.displayChanged = false → m.step.machine.display = m.display) := by
  have ways := m.stepped
  generalize m.step = transition at ways done
  cases ways with
  | executed running fetched executed =>
    cases done
    cases output_of_execute executed with
    | clear | draw =>
      refine ⟨(Bool.or_true _).symm, ?_⟩
      intro impossible
      cases impossible
    | store | awaitKey => exact ⟨(Bool.or_false _).symm, fun _ => rfl⟩
    | none _ _ display redraw unchanged =>
      refine ⟨?_, fun _ => display⟩
      rw [unchanged, Bool.or_false]
      exact redraw
  | taken | waited =>
    cases done
    exact ⟨(Bool.or_false _).symm, fun _ => rfl⟩
  | refused | unfetched | stayed => cases done

/-- No instruction asks whether a picture is due. -/
theorem execute_of_redraw (m : Machine) (redraw : Bool) (instruction : Instruction) :
    { m with redraw := redraw }.execute instruction = (m.execute instruction).map fun effect =>
      { effect with machine := { effect.machine with
        redraw := if effect.displayChanged then true else redraw } } := by
  cases instruction
  case call nnn =>
    cases room : m.stack.push? m.pc with
    | some pushed => simp only [execute, room]; rfl
    | none => simp only [execute, room]; rfl
  case ret =>
    cases inside : m.stack.pop? with
    | some popped => simp only [execute, inside]; rfl
    | none => simp only [execute, inside]; rfl
  case draw x y n =>
    simp only [execute]
    cases m.memory.slice m.index.toNat n.toNat <;> rfl
  case skipIfKeyDown x | skipIfKeyUp x =>
    have asked : { m with redraw := redraw }.keyDown x = m.keyDown x := rfl
    simp only [execute, asked]
    cases m.keyDown x <;> rfl
  case storeDigits x =>
    have value : { m with redraw := redraw }.value x = m.value x := rfl
    simp only [execute, value]
    cases m.memory.write m.index.toNat (decimalDigits (m.value x)) <;> rfl
  case storeRegisters x =>
    simp only [execute]
    cases m.memory.write m.index.toNat (m.registers.upTo x) <;> rfl
  case loadRegisters x =>
    simp only [execute]
    cases m.memory.slice m.index.toNat (Registers.countTo x) <;> rfl
  all_goals rfl

/-- A step comes out the same whether or not a picture was due before it. -/
theorem step_of_redraw (m : Machine) (redraw : Bool) : ∃ due, { m with redraw := redraw }.step =
    { m.step with machine := { m.step.machine with redraw := due } } := by
  have ways := m.stepped
  generalize stepped : m.step = transition at ways
  cases ways with
  | @executed word instruction effect running fetched done =>
    have doneToo := execute_of_redraw m redraw instruction
    rw [done] at doneToo
    have other := step_of_execute (m := { m with redraw := redraw }) running fetched doneToo
    exact ⟨_, other⟩
  | @refused word instruction cause running fetched fault =>
    have faultToo := execute_of_redraw m redraw instruction
    rw [fault] at faultToo
    exact ⟨redraw, step_of_refused (m := { m with redraw := redraw }) running fetched faultToo⟩
  | unfetched running fault =>
    exact ⟨redraw, step_of_unfetched (m := { m with redraw := redraw }) running fault⟩
  | taken waiting down =>
    exact ⟨redraw, step_of_taken (m := { m with redraw := redraw }) waiting down⟩
  | waited waiting up =>
    exact ⟨redraw, step_of_idle (m := { m with redraw := redraw }) waiting up⟩
  | stayed halted =>
    exact ⟨redraw, by simp only [step, halted]⟩

end Chip8.Machine
