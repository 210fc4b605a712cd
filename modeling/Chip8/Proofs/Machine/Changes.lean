import Chip8.Proofs.Machine.Drawing
import Chip8.Proofs.Machine.Executions
import Chip8.Proofs.Machine.Flow
import Chip8.Proofs.Machine.Output

/-!
What a step can change, told by the word that it executes (`ChangesOnly`). Most words have one register or
one part of the machine to themselves; VF goes with arithmetic and with collisions, and the timers also
tick. Nothing else of the machine is touched (`steps_change_only_their_own`).
-/
namespace Chip8

/-- The instructions that touch the display. -/
def Instruction.touchesDisplay : Instruction → Bool
  | clearDisplay | draw _ _ _ => true
  | _ => false

namespace Machine
open Instruction (wordDigits)

/-- The words that can write a register. -/
inductive WritesRegister (word : UInt16) (register : Fin registerCount) : Prop where
  -- `6xkk`, `7xkk` and `Cxkk`.
  | byte {family x k l : Nat} (digits : wordDigits word = (family, x, k, l))
      (known : family = 0x6 ∨ family = 0x7 ∨ family = 0xC) (named : register.val = x)
  -- `8xy0` to `8xy6`.
  | arithmetic {x y n : Nat} (digits : wordDigits word = (0x8, x, y, n)) (known : n ≤ 6)
      (named : register.val = x)
  -- `8xy4`, `8xy5` and `8xy6`.
  | flag {x y n : Nat} (digits : wordDigits word = (0x8, x, y, n)) (known : 4 ≤ n ∧ n ≤ 6)
      (flag : register = 15)
  -- `Dxyn`.
  | collision {x y n : Nat} (digits : wordDigits word = (0xD, x, y, n)) (flag : register = 15)
  -- `Fx07`.
  | delay {x : Nat} (digits : wordDigits word = (0xF, x, 0x0, 0x7)) (named : register.val = x)
  -- `Fx65`.
  | loaded {x : Nat} (digits : wordDigits word = (0xF, x, 0x6, 0x5)) (among : register.val ≤ x)

/-- `00E0` and `Dxyn`. -/
def TouchesDisplay (word : UInt16) : Prop :=
  wordDigits word = (0x0, 0x0, 0xE, 0x0) ∨ ∃ x y n, wordDigits word = (0xD, x, y, n)

/-- The index once an instruction is done. -/
def indexAfter (m : Machine) : Instruction → UInt16
  | .setIndex nnn => nnn
  | .addIndex x => m.index + (m.value x).toUInt16
  | .pointGlyph x => (m.value x).toUInt16 * UInt16.ofNat Font.glyphSize
  | _ => m.index

/-- What differs after a step from what was before it, and with which words it can. -/
structure ChangesOnly (m : Machine) (word : UInt16) (outcome : Outcome) (after : Machine) : Prop where
  registers : ∀ register, after.registers.get register ≠ m.registers.get register →
    WritesRegister word register
  -- `Dxyn` writes VF only on a collision.
  collision : ∀ (x y : Fin registerCount) n, wordDigits word = (0xD, x.val, y.val, n) →
    after.registers.get 15 ≠ m.registers.get 15 → after.registers.get 15 = 1 ∧
      ∃ column row, m.Overlays x y n column row ∧ m.display.pixel column row = true
  -- `Annn`, `Fx1E` and `Fx29`.
  index : after.index ≠ m.index → (∃ a b c, wordDigits word = (0xA, a, b, c)) ∨
    ∃ x, wordDigits word = (0xF, x, 0x1, 0xE) ∨ wordDigits word = (0xF, x, 0x2, 0x9)
  -- `2nnn` and `00EE`.
  stack : after.stack ≠ m.stack →
    (∃ a b c, wordDigits word = (0x2, a, b, c)) ∨ wordDigits word = (0x0, 0x0, 0xE, 0xE)
  display : after.display ≠ m.display → TouchesDisplay word
  displayChanged : outcome.displayChanged = true ↔ TouchesDisplay word
  redraw : after.redraw = true ↔ m.redraw = true ∨ TouchesDisplay word
  -- `Fx0A`.
  status : after.status ≠ m.status → ∃ x, wordDigits word = (0xF, x, 0x0, 0xA)
  -- `Cxkk`.
  random : after.random ≠ m.random → ∃ x k l, wordDigits word = (0xC, x, k, l)
  -- `Fx15`, apart from the tick.
  delay : after.timers.delay.toNat ≠ m.timers.delay.toNat - 1 →
    ∃ x, wordDigits word = (0xF, x, 0x1, 0x5)
  -- `Fx18`, apart from the tick.
  sound : after.timers.sound.toNat ≠ m.timers.sound.toNat - 1 →
    ∃ x, wordDigits word = (0xF, x, 0x1, 0x8)
  keys : after.keys = m.keys
  -- `Fx33` and `Fx55`.
  memory : after.memory ≠ m.memory →
    ∃ x, wordDigits word = (0xF, x, 0x3, 0x3) ∨ wordDigits word = (0xF, x, 0x5, 0x5)

/-! ### Registers -/

section
variable {v : Registers} {x byte : UInt8} {register : Fin registerCount}

theorem named_of_put (fits : x.toNat < registerCount)
    (changed : (v.put x byte).get register ≠ v.get register) : register.val = x.toNat := by
  rw [Registers.get_put] at changed
  by_cases named : Registers.number x = register
  · rw [← named]
    exact Nat.mod_eq_of_lt fits
  · rw [if_neg named] at changed
    exact absurd rfl changed

/-- Results of arithmetic go to one register and its flag to VF. -/
theorem named_of_flagged {yes : Bool} (fits : x.toNat < registerCount)
    (changed : ((v.putFlag yes).put x byte).get register ≠ v.get register) :
    register.val = x.toNat ∨ register = 15 := by
  by_cases kept : ((v.putFlag yes).put x byte).get register = (v.putFlag yes).get register
  · rw [kept] at changed
    exact .inr (Fin.ext (named_of_put (by decide) changed))
  · exact .inl (named_of_put fits kept)

theorem lt_of_putFirst {values : List UInt8}
    (changed : (v.putFirst values).get register ≠ v.get register) : register.val < values.length := by
  apply Nat.lt_of_not_le
  intro past
  apply changed
  show (Block.write v 0 values)[register.val] = v[register.val]
  rw [Block.getElem_write, if_pos (Nat.zero_le _), Nat.sub_zero, List.getElem?_eq_none past,
    Option.getD_none]

end

section
variable {m : Machine} {word : UInt16} {instruction : Instruction} {effect : Effect}

theorem writesRegister_of_execute (decoded : Instruction.ofWord? word = some instruction)
    (done : m.execute instruction = .ok effect) {register : Fin registerCount}
    (changed : effect.machine.registers.get register ≠ m.registers.get register) :
    WritesRegister word register := by
  have written := Instruction.wordDigits_of_ofWord? decoded
  have fits := Instruction.fits_of_ofWord? decoded
  cases instruction
  case setByte x kk | addByte x kk | random x kk =>
    cases done
    exact .byte written (by decide) (named_of_put fits changed)
  case copy x y | or x y | and x y | xor x y =>
    cases done
    exact .arithmetic written (by decide) (named_of_put fits.1 changed)
  case add x y | subtract x y =>
    cases done
    rcases named_of_flagged fits.1 changed with named | flag
    · exact .arithmetic written (by decide) named
    · exact .flag written (by decide) flag
  case shiftRight x =>
    cases done
    rcases named_of_flagged fits changed with named | flag
    · exact .arithmetic written (by decide) named
    · exact .flag written (by decide) flag
  case readDelay x =>
    cases done
    exact .delay written (named_of_put fits changed)
  case draw a b c =>
    obtain ⟨_, rfl⟩ := execute_draw_eq_ok_iff.mp done
    refine .collision written ?_
    apply Classical.byContradiction
    intro other
    exact changed ((get_noted ..).trans (if_neg fun noted => other noted.2))
  case loadRegisters x =>
    obtain ⟨values, sliced, built⟩ := bind_eq_ok_iff.mp done
    cases built
    have length : values.length = x.toNat + 1 := by
      rw [(Memory.slice_eq_ok_iff.mp sliced).2, Block.length_read, Registers.countTo]
    have among := lt_of_putFirst changed
    exact .loaded written (by omega)
  case call | ret =>
    simp only [execute] at done
    split at done
    · cases done
      exact absurd rfl changed
    · cases done
  -- From here on the registers are not written at all: some of the instructions can fail, the rest not.
  case skipIfKeyDown | skipIfKeyUp | storeDigits | storeRegisters =>
    obtain ⟨_, _, built⟩ := bind_eq_ok_iff.mp done
    cases built
    exact absurd rfl changed
  all_goals
    cases done
    exact absurd rfl changed

theorem collision_of_execute (decoded : Instruction.ofWord? word = some instruction)
    (done : m.execute instruction = .ok effect) {x y : Fin registerCount} {n : Nat}
    (digits : wordDigits word = (0xD, x.val, y.val, n))
    (changed : effect.machine.registers.get 15 ≠ m.registers.get 15) :
    effect.machine.registers.get 15 = 1 ∧
      ∃ column row, m.Overlays x y n column row ∧ m.display.pixel column row = true := by
  obtain ⟨a, b, c, known, first, second, rfl⟩ := Instruction.ofWord?_of_draw digits
  cases known.symm.trans decoded
  obtain ⟨_, rfl⟩ := execute_draw_eq_ok_iff.mp done
  let hit := m.display.collides (m.value a).toNat (m.value b).toNat (m.spriteAt c.toNat)
  have noted : (m.drawSprite a b (m.spriteAt c.toNat)).registers.get 15 =
    if hit = true ∧ (15 : Fin registerCount) = 15 then 1 else m.registers.get 15 := get_noted ..
  by_cases collides : hit = true
  · rw [if_pos ⟨collides, rfl⟩] at noted
    obtain ⟨column, row, inside, below, lit, covered⟩ := (Framebuffer.collides_iff ..).mp collides
    rw [m.value_eq first, m.value_eq second] at covered
    exact ⟨noted, column, row, ⟨inside, below, Framebuffer.covers_iff.mp covered⟩, lit⟩
  · rw [if_neg fun both => collides both.1] at noted
    exact absurd noted changed

/-! ### Other parts -/

theorem index_and_display_of_execute (done : m.execute instruction = .ok effect) :
    effect.machine.index = m.indexAfter instruction ∧
      effect.displayChanged = instruction.touchesDisplay := by
  cases instruction
  case call | ret =>
    simp only [execute] at done
    split at done
    · cases done
      exact ⟨rfl, rfl⟩
    · cases done
  case draw | skipIfKeyDown | skipIfKeyUp | storeDigits | storeRegisters | loadRegisters =>
    obtain ⟨_, _, built⟩ := bind_eq_ok_iff.mp done
    cases built
    exact ⟨rfl, rfl⟩
  all_goals
    cases done
    exact ⟨rfl, rfl⟩

theorem index_of_execute (decoded : Instruction.ofWord? word = some instruction)
    (done : m.execute instruction = .ok effect) (changed : effect.machine.index ≠ m.index) :
    (∃ a b c, wordDigits word = (0xA, a, b, c)) ∨
      ∃ x, wordDigits word = (0xF, x, 0x1, 0xE) ∨ wordDigits word = (0xF, x, 0x2, 0x9) := by
  have written := Instruction.wordDigits_of_ofWord? decoded
  rw [(index_and_display_of_execute done).1] at changed
  cases instruction
  case setIndex => exact .inl ⟨_, _, _, written⟩
  case addIndex => exact .inr ⟨_, .inl written⟩
  case pointGlyph => exact .inr ⟨_, .inr written⟩
  all_goals exact absurd rfl changed

theorem stack_of_execute (decoded : Instruction.ofWord? word = some instruction)
    (done : m.execute instruction = .ok effect) (changed : effect.machine.stack ≠ m.stack) :
    (∃ a b c, wordDigits word = (0x2, a, b, c)) ∨ wordDigits word = (0x0, 0x0, 0xE, 0xE) := by
  have written := Instruction.wordDigits_of_ofWord? decoded
  cases flow_of_execute done with
  | call => exact .inl ⟨_, _, _, written⟩
  | ret => exact .inr written
  | plain _ _ stack => exact absurd stack changed
  | jump | jumpDisplaced | awaitKey | skip => exact absurd rfl changed

theorem status_of_execute (decoded : Instruction.ofWord? word = some instruction)
    (done : m.execute instruction = .ok effect) (changed : effect.machine.status ≠ m.status) :
    ∃ x, wordDigits word = (0xF, x, 0x0, 0xA) := by
  cases flow_of_execute done with
  | awaitKey => exact ⟨_, Instruction.wordDigits_of_ofWord? decoded⟩
  | plain _ _ _ status => exact absurd status changed
  | jump | jumpDisplaced | call | ret | skip => exact absurd rfl changed

theorem memory_of_execute (decoded : Instruction.ofWord? word = some instruction)
    (done : m.execute instruction = .ok effect) (changed : effect.machine.memory ≠ m.memory) :
    ∃ x, wordDigits word = (0xF, x, 0x3, 0x3) ∨ wordDigits word = (0xF, x, 0x5, 0x5) := by
  have written := Instruction.wordDigits_of_ofWord? decoded
  cases output_of_execute done with
  | store stores =>
    cases instruction
    case storeDigits => exact ⟨_, .inl written⟩
    case storeRegisters => exact ⟨_, .inr written⟩
    all_goals cases stores
  | none _ memory => exact absurd memory changed
  | clear | draw | awaitKey => exact absurd rfl changed

theorem random_of_execute (decoded : Instruction.ofWord? word = some instruction)
    (done : m.execute instruction = .ok effect) (changed : effect.machine.random ≠ m.random) :
    ∃ x k l, wordDigits word = (0xC, x, k, l) := by
  have written := Instruction.wordDigits_of_ofWord? decoded
  rw [(devices_of_execute done).2.1] at changed
  cases instruction
  case random => exact ⟨_, _, _, written⟩
  all_goals exact absurd rfl changed

/-- The timers tick at the end of a step, after what the instruction did to them. -/
theorem timers_of_execute (decoded : Instruction.ofWord? word = some instruction)
    (done : m.execute instruction = .ok effect) :
    (effect.machine.timers.tick.delay.toNat ≠ m.timers.delay.toNat - 1 →
      ∃ x, wordDigits word = (0xF, x, 0x1, 0x5)) ∧
    (effect.machine.timers.tick.sound.toNat ≠ m.timers.sound.toNat - 1 →
      ∃ x, wordDigits word = (0xF, x, 0x1, 0x8)) := by
  have written := Instruction.wordDigits_of_ofWord? decoded
  rw [(devices_of_execute done).1]
  simp only [Timers.tick, Timers.toNat_countDown]
  cases instruction
  case setDelay => exact ⟨fun _ => ⟨_, written⟩, absurd rfl⟩
  case setSound => exact ⟨absurd rfl, fun _ => ⟨_, written⟩⟩
  all_goals exact ⟨absurd rfl, absurd rfl⟩

theorem touchesDisplay_iff (decoded : Instruction.ofWord? word = some instruction) :
    instruction.touchesDisplay = true ↔ TouchesDisplay word := by
  have written := Instruction.wordDigits_of_ofWord? decoded
  constructor
  · intro touches
    cases instruction
    case clearDisplay => exact .inl written
    case draw => exact .inr ⟨_, _, _, written⟩
    all_goals cases touches
  · rintro (digits | ⟨x, y, n, digits⟩)
    all_goals
      rw [written] at digits
      cases instruction
    case inl.clearDisplay | inr.draw => rfl
    all_goals cases digits

/-! ### Steps -/

theorem execute_of_word (running : m.status = .running)
    (read : m.memory.word m.pc.toNat = .ok word) {outcome : Outcome}
    (succeeded : m.step.result = .ok outcome) :
    ∃ instruction effect, Instruction.ofWord? word = some instruction ∧
      m.execute instruction = .ok effect ∧ outcome.displayChanged = effect.displayChanged ∧
      m.step.machine = { effect.machine with
        pc := effect.advance.target m.pc, timers := effect.machine.timers.tick } := by
  have ways := m.stepped
  generalize m.step = transition at ways succeeded
  cases ways with
  | @executed fetchedWord instruction effect _ fetched done =>
    obtain ⟨readToo, decoded⟩ := fetch_eq_ok_iff.mp fetched
    cases read.symm.trans readToo
    cases succeeded
    exact ⟨instruction, effect, decoded, done, rfl, rfl⟩
  | taken waiting | waited waiting =>
    rw [running] at waiting
    cases waiting
  | refused | unfetched | stayed => cases succeeded

theorem changesOnly_of_step (running : m.status = .running)
    (read : m.memory.word m.pc.toNat = .ok word) {outcome : Outcome}
    (succeeded : m.step.result = .ok outcome) : ChangesOnly m word outcome m.step.machine := by
  obtain ⟨redraw, display⟩ := picture_of_step succeeded
  obtain ⟨instruction, effect, decoded, done, told, after⟩ := execute_of_word running read succeeded
  have touches : outcome.displayChanged = true ↔ TouchesDisplay word := by
    rw [told, (index_and_display_of_execute done).2]
    exact touchesDisplay_iff decoded
  rw [after] at redraw display ⊢
  exact {
    registers := fun _ => writesRegister_of_execute decoded done
    collision := fun _ _ _ => collision_of_execute decoded done
    index := index_of_execute decoded done
    stack := stack_of_execute decoded done
    display := by
      intro changed
      apply touches.mp
      rw [← Bool.not_eq_false]
      intro quiet
      exact changed (display quiet)
    displayChanged := touches
    redraw := by rw [redraw, Bool.or_eq_true, touches]
    status := status_of_execute decoded done
    random := random_of_execute decoded done
    delay := (timers_of_execute decoded done).1
    sound := (timers_of_execute decoded done).2
    keys := (devices_of_execute done).2.2
    memory := memory_of_execute decoded done }

theorem redraw_kept (m : Machine) (due : m.redraw = true) : m.step.machine.redraw = true := by
  cases result : m.step.result with
  | ok outcome => rw [(picture_of_step result).1, due, Bool.true_or]
  | error cause =>
    cases halted : m.isHalted with
    | true => rw [(step_of_halted halted).2, due]
    | false =>
      rw [machine_of_step_error result halted]
      exact due

/-- A step that executes a word changes only what the word names: registers, flags and the other parts of
    the machine each with the words of their own, the timers by one tick besides, and the keys never. The
    display is touched, and the next picture due, exactly with `00E0` and `Dxyn`; and a picture that is
    due stays due in every step. -/
theorem steps_change_only_their_own (m : Machine) :
    (∀ word outcome, m.status = .running → m.memory.word m.pc.toNat = .ok word →
      m.step.result = .ok outcome → ChangesOnly m word outcome m.step.machine) ∧
    (m.redraw = true → m.step.machine.redraw = true) :=
  ⟨fun _ _ running read => changesOnly_of_step running read, m.redraw_kept⟩

end

end Machine

end Chip8
