import Chip8.Instruction.Basic
import Chip8.Machine.Basic
import Chip8.Machine.Log

/-!
The effect of an instruction. An instruction either faults, and then there is no machine to go on
with, or answers the machine after it, apart from the address of the next instruction, which is
answered as an `Advance`. Flags are written before results, so a result that goes to VF stays there.
-/
namespace Chip8

inductive Advance where
  | next
  | skip
  | goto (address : UInt16)
  deriving DecidableEq, Repr

namespace Advance

def skipIf (condition : Bool) : Advance := if condition then skip else next

def target (pc : UInt16) : Advance → UInt16
  | next => pc + 2
  | skip => pc + 4
  | goto address => address

end Advance

/-- What an instruction does. The machine is the one after it, but for the address of the next instruction. -/
structure Effect where
  machine : Machine
  advance : Advance := .next
  displayChanged : Bool := false
  log : List LogEntry := []

namespace Machine

def keyDown (m : Machine) (operand : UInt8) : Except Fault Bool :=
  match m.keys.isDown? (m.value operand) with
  | some down => .ok down
  | none => .error (.unknownKey (m.value operand))

def decimalDigits (byte : UInt8) : List UInt8 := [byte / 100, byte / 10 % 10, byte % 10]

def addRegisters (m : Machine) (x y : UInt8) : Machine :=
  let carry := decide (256 ≤ (m.value x).toNat + (m.value y).toNat)
  { m with registers := (m.registers.putFlag carry).put x (m.value x + m.value y) }

def subtractRegisters (m : Machine) (x y : UInt8) : Machine :=
  let enough := decide (m.value y ≤ m.value x)
  { m with registers := (m.registers.putFlag enough).put x (m.value x - m.value y) }

def shiftRegister (m : Machine) (x : UInt8) : Machine :=
  let odd := decide (m.value x % 2 = 1)
  { m with registers := (m.registers.putFlag odd).put x (m.value x / 2) }

def clearDisplay (m : Machine) : Machine := { m with display := Framebuffer.blank, redraw := true }

/-- VF is written only on a collision. -/
def drawSprite (m : Machine) (x y : UInt8) (sprite : List UInt8) : Machine :=
  let column := (m.value x).toNat
  let row := (m.value y).toNat
  { m with
    display := m.display.draw column row sprite
    registers :=
      if m.display.collides column row sprite then m.registers.putFlag true else m.registers
    redraw := true }

def execute (m : Machine) : Instruction → Except Fault Effect
  | .clearDisplay => .ok { machine := m.clearDisplay, displayChanged := true, log := [.clearing] }
  | .ret =>
    match m.stack.pop? with
    | some (address, stack) =>
      -- The stack holds the addresses of the calls themselves.
      .ok { machine := { m with stack := stack }, advance := .goto (address + 2) }
    | none => .error (.stackUnderflow m.pc)
  | .jump nnn => .ok { machine := m, advance := .goto nnn }
  | .call nnn =>
    match m.stack.push? m.pc with
    | some stack => .ok { machine := { m with stack := stack }, advance := .goto nnn }
    | none => .error (.stackOverflow m.pc)
  | .skipIfByte x kk => .ok { machine := m, advance := .skipIf (m.value x == kk) }
  | .skipUnlessByte x kk => .ok { machine := m, advance := .skipIf (m.value x != kk) }
  | .skipIfSame x y => .ok { machine := m, advance := .skipIf (m.value x == m.value y) }
  | .setByte x kk => .ok { machine := m.put x kk }
  | .addByte x kk => .ok { machine := m.put x (m.value x + kk) }
  | .copy x y => .ok { machine := m.put x (m.value y) }
  | .or x y => .ok { machine := m.put x (m.value x ||| m.value y) }
  | .and x y => .ok { machine := m.put x (m.value x &&& m.value y) }
  | .xor x y => .ok { machine := m.put x (m.value x ^^^ m.value y) }
  | .add x y => .ok { machine := m.addRegisters x y }
  | .subtract x y => .ok { machine := m.subtractRegisters x y }
  | .shiftRight x => .ok { machine := m.shiftRegister x }
  | .skipUnlessSame x y => .ok { machine := m, advance := .skipIf (m.value x != m.value y) }
  | .setIndex nnn => .ok { machine := { m with index := nnn } }
  | .jumpDisplaced nnn => .ok { machine := m, advance := .goto ((m.value 0).toUInt16 + nnn) }
  | .random x kk =>
    .ok { machine := { m.put x (m.random.next &&& kk) with random := m.random.drop } }
  | .draw x y n => do
    let sprite ← m.memory.slice m.index.toNat n.toNat
    return { machine := m.drawSprite x y sprite, displayChanged := true }
  | .skipIfKeyDown x => do
    let down ← m.keyDown x
    return { machine := m, advance := .skipIf down }
  | .skipIfKeyUp x => do
    let down ← m.keyDown x
    return { machine := m, advance := .skipIf (!down) }
  | .readDelay x => .ok { machine := m.put x m.timers.delay }
  | .awaitKey x => .ok { machine := { m with status := .waiting x }, log := [.awaitingKey x] }
  | .setDelay x => .ok { machine := { m with timers := { m.timers with delay := m.value x } } }
  | .setSound x => .ok { machine := { m with timers := { m.timers with sound := m.value x } } }
  | .addIndex x => .ok { machine := { m with index := m.index + (m.value x).toUInt16 } }
  | .pointGlyph x =>
    .ok { machine := { m with index := (m.value x).toUInt16 * UInt16.ofNat Font.glyphSize } }
  | .storeDigits x => do
    let memory ← m.memory.write m.index.toNat (decimalDigits (m.value x))
    return { machine := { m with memory := memory } }
  | .storeRegisters x => do
    let memory ← m.memory.write m.index.toNat (m.registers.upTo x)
    return { machine := { m with memory := memory } }
  | .loadRegisters x => do
    let values ← m.memory.slice m.index.toNat (Registers.countTo x)
    return { machine := { m with registers := m.registers.putFirst values } }

end Machine

end Chip8
