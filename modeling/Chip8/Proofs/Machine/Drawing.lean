import Chip8.Proofs.Framebuffer.Sprites
import Chip8.Proofs.Machine.Bounds
import Chip8.Proofs.Machine.Failure
import Chip8.Proofs.Machine.Program

/-!
Drawing on a machine. An executed `Dxyn` draws the bytes at the index and notes a collision in VF, and
that is all it does (`draws_of_word`). Drawn twice in a row, a sprite is gone
again, and VF tells whether any of it was on the display at all (`drawn_twice`).
-/
namespace Chip8

namespace Instruction

theorem ofWord?_of_draw {word : UInt16} {x y n : Nat} (digits : wordDigits word = (0xD, x, y, n)) :
    ∃ a b c : UInt8, ofWord? word = some (.draw a b c) ∧ a.toNat = x ∧ b.toNat = y ∧ c.toNat = n := by
  simp only [wordDigits, Prod.mk.injEq] at digits
  obtain ⟨family, rfl, rfl, rfl⟩ := digits
  have written : wordDigits word = Instruction.digits 0
      (.draw (UInt8.ofNat (nibble word 2)) (UInt8.ofNat (nibble word 1)) (UInt8.ofNat (nibble word 0))) := by
    simp only [wordDigits, Instruction.digits, toNat_nibble, family]
  exact ⟨_, _, _, ofWord?_of_wordDigits written, toNat_nibble .., toNat_nibble .., toNat_nibble ..⟩

end Instruction

namespace Machine
open Framebuffer (Covered)
open Instruction (wordDigits)

/-- The bytes at the index. -/
def spriteAt (m : Machine) (n : Nat) : List UInt8 :=
  (List.range n).map fun offset => m.memory.byte (m.index.toNat + offset)

/-- A cell of the display that `Dxyn` covers. -/
def Overlays (m : Machine) (x y : Fin registerCount) (n column row : Nat) : Prop :=
  column < 64 ∧ row < 32 ∧
    Covered (m.registers.get x).toNat (m.registers.get y).toNat (m.spriteAt n) column row

/-- Whether `Dxyn` meets a lit cell. -/
def hits (m : Machine) (x y : Fin registerCount) (n : Nat) : Bool :=
  m.display.collides (m.registers.get x).toNat (m.registers.get y).toNat (m.spriteAt n)

/-! ### One drawing -/

theorem execute_draw_eq_ok_iff {m : Machine} {a b c : UInt8} {effect : Effect} :
    m.execute (.draw a b c) = .ok effect ↔
      (m.index.toNat < memorySize ∧ m.index.toNat + c.toNat ≤ memorySize) ∧
        effect = { machine := m.drawSprite a b (m.spriteAt c.toNat), displayChanged := true } := by
  rw [← Memory.check_eq_ok_iff]
  constructor
  · intro done
    obtain ⟨sprite, sliced, built⟩ := bind_eq_ok_iff.mp done
    obtain ⟨passed, rfl⟩ := Memory.slice_eq_ok_iff.mp sliced
    exact ⟨passed, (Except.ok.inj built).symm⟩
  · rintro ⟨passed, rfl⟩
    exact bind_eq_ok_iff.mpr ⟨_, Memory.slice_eq_ok_iff.mpr ⟨passed, rfl⟩, rfl⟩

/-- A register after a collision was noted, if there was one. -/
theorem get_noted (v : Registers) (hit : Bool) (register : Fin registerCount) :
    (if hit then v.putFlag true else v).get register =
      if hit = true ∧ register = 15 then 1 else v.get register := by
  have flag : Registers.number Registers.flag = 15 := rfl
  cases hit with
  | false => simp
  | true => simp [Registers.putFlag, Registers.get_put, flag, eq_comm]

variable {m : Machine} {word : UInt16} {x y : Fin registerCount} {n : Nat}

/-- What a step with `Dxyn` does. -/
structure Draws (m : Machine) (x y : Fin registerCount) (n : Nat) : Prop where
  result : m.step.result = .ok { displayChanged := true, waiting := false }
  status : m.step.machine.status = .running
  pc : m.step.machine.pc.toNat = m.pc.toNat + 2
  index : m.step.machine.index = m.index
  memory : m.step.machine.memory = m.memory
  display : m.step.machine.display =
    m.display.draw (m.registers.get x).toNat (m.registers.get y).toNat (m.spriteAt n)
  registers : ∀ register, m.step.machine.registers.get register =
    if m.hits x y n = true ∧ register = 15 then 1 else m.registers.get register

theorem draws_of_word (running : m.status = .running) (read : m.memory.word m.pc.toNat = .ok word)
    (digits : wordDigits word = (0xD, x.val, y.val, n)) (start : m.index.toNat < memorySize)
    (stop : m.index.toNat + n ≤ memorySize) : Draws m x y n := by
  obtain ⟨a, b, c, decoded, first, second, rfl⟩ := Instruction.ofWord?_of_draw digits
  have fetched := fetch_eq_ok_iff.mpr ⟨read, decoded⟩
  have done : m.execute (.draw a b c) = .ok _ := execute_draw_eq_ok_iff.mpr ⟨⟨start, stop⟩, rfl⟩
  have column : m.value a = m.registers.get x := m.value_eq first
  have row : m.value b = m.registers.get y := m.value_eq second
  have next : (m.pc + 2).toNat = m.pc.toNat + 2 := toNat_add_small (pc_of_fetch fetched) (by decide)
  refine ⟨outcome_of_execute running fetched done running, ?_, ?_, ?_, ?_, ?_, ?_⟩
  all_goals rw [step_of_execute running fetched done]
  · exact running
  · exact next
  · rfl
  · rfl
  · rw [← column, ← row]
    rfl
  · rw [hits, ← column, ← row]
    exact get_noted m.registers _

theorem Draws.unmoved (draws : Draws m x y n) {register : Fin registerCount} (free : register ≠ 15) :
    m.step.machine.registers.get register = m.registers.get register := by
  rw [draws.registers, if_neg fun noted => free noted.2]

theorem Draws.spriteAt_eq (draws : Draws m x y n) : m.step.machine.spriteAt n = m.spriteAt n := by
  rw [spriteAt, draws.memory, draws.index, spriteAt]

/-! ### Two drawings -/

/-- How a machine goes through two steps with the same `Dxyn`. -/
structure DrawnTwice (m : Machine) (x y : Fin registerCount) (n : Nat) (after : Machine) : Prop where
  first : m.step.result = .ok { displayChanged := true, waiting := false }
  second : m.step.machine.step.result = .ok { displayChanged := true, waiting := false }
  display : after.display = m.display
  memory : after.memory = m.memory
  index : after.index = m.index
  registers : ∀ register, register ≠ 15 → after.registers.get register = m.registers.get register
  visible : (∃ column row, m.Overlays x y n column row) → after.registers.get 15 = 1
  invisible : (¬ ∃ column row, m.Overlays x y n column row) →
    after.registers.get 15 = m.registers.get 15

theorem Draws.hits_twice_iff (draws : Draws m x y n) (xFree : x ≠ 15) (yFree : y ≠ 15) :
    m.hits x y n = true ∨ m.step.machine.hits x y n = true ↔
      ∃ column row, m.Overlays x y n column row := by
  -- A collision writes VF, so a place that VF has a part in could be another one the second time.
  have same : m.step.machine.hits x y n = (m.display.draw (m.registers.get x).toNat
      (m.registers.get y).toNat (m.spriteAt n)).collides (m.registers.get x).toNat
        (m.registers.get y).toNat (m.spriteAt n) := by
    rw [hits, draws.unmoved xFree, draws.unmoved yFree, draws.spriteAt_eq, draws.display]
  rw [same]
  exact Framebuffer.collides_twice_iff ..

/-- A running machine with the same `Dxyn` in the next two words, of which neither register is VF: the
    sprite is drawn and taken away again. Both steps succeed and touch neither memory, the index nor a
    register but VF, which is 1 in the end if any cell of the sprite is on the display, whatever was
    lit there, and is as it was if none is. -/
theorem drawn_twice (running : m.status = .running) (here : m.memory.word m.pc.toNat = .ok word)
    (next : m.memory.word (m.pc.toNat + 2) = .ok word)
    (digits : wordDigits word = (0xD, x.val, y.val, n)) (xFree : x ≠ 15) (yFree : y ≠ 15)
    (start : m.index.toNat < 4096) (stop : m.index.toNat + n ≤ 4096) :
    DrawnTwice m x y n m.step.machine.step.machine := by
  have first := draws_of_word running here digits start stop
  have again : m.step.machine.memory.word m.step.machine.pc.toNat = .ok word := by
    rw [first.memory, first.pc, next]
  have second := draws_of_word first.status again digits (first.index ▸ start) (first.index ▸ stop)
  have either := first.hits_twice_iff xFree yFree
  -- No drawing clears VF: what the first one notes is still there after the second.
  have flag : m.step.machine.step.machine.registers.get 15 =
      if m.hits x y n = true ∨ m.step.machine.hits x y n = true then 1 else m.registers.get 15 := by
    rw [second.registers, first.registers]
    cases m.hits x y n <;> cases m.step.machine.hits x y n <;> rfl
  refine ⟨first.result, second.result, ?_, ?_, ?_, ?_, ?_, ?_⟩
  · rw [second.display, first.unmoved xFree, first.unmoved yFree, first.spriteAt_eq, first.display,
      Framebuffer.draw_draw]
  · rw [second.memory, first.memory]
  · rw [second.index, first.index]
  · intro register free
    rw [second.unmoved free, first.unmoved free]
  · intro visible
    rw [flag, if_pos (either.mpr visible)]
  · intro invisible
    rw [flag, if_neg fun noted => invisible (either.mp noted)]

/-- Fifteen rows of the font, in the upper left corner. -/
theorem drawn_twice_in_corner :
    let m := ((ofSeed 0).perform (.load [0xD0, 0x0F, 0xD0, 0x0F])).machine
    (m.status = .running ∧ m.memory.word m.pc.toNat = .ok 0xD00F ∧
      m.memory.word (m.pc.toNat + 2) = .ok 0xD00F ∧
      wordDigits 0xD00F = (0xD, (0 : Fin registerCount).val, (0 : Fin registerCount).val, 15) ∧
      (0 : Fin registerCount) ≠ 15 ∧ m.index.toNat < 4096 ∧ m.index.toNat + 15 ≤ 4096) ∧
    DrawnTwice m 0 0 15 m.step.machine.step.machine := by
  intro m
  have fits : [0xD0, 0x0F, 0xD0, 0x0F].length ≤ programLimit := by decide
  have holds : m.Holds [0xD0, 0x0F, 0xD0, 0x0F] := (ofSeed 0).holds_of_load fits
  have here : m.memory.word m.pc.toNat = .ok 0xD00F := holds.word fits (i := 0) (by decide) (by decide)
  have next : m.memory.word (m.pc.toNat + 2) = .ok 0xD00F :=
    holds.word fits (i := 1) (by decide) (by decide)
  have digits : wordDigits 0xD00F =
    (0xD, (0 : Fin registerCount).val, (0 : Fin registerCount).val, 15) := rfl
  have free : (0 : Fin registerCount) ≠ 15 := by decide
  have index : m.index.toNat = 0 := rfl
  have start : m.index.toNat < 4096 := by omega
  have stop : m.index.toNat + 15 ≤ 4096 := by omega
  exact ⟨⟨rfl, here, next, digits, free, start, stop⟩,
    drawn_twice rfl here next digits free free start stop⟩

end Machine

end Chip8
