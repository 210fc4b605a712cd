import Chip8.CallStack
import Chip8.Framebuffer.Basic
import Chip8.Keys
import Chip8.Memory.Basic
import Chip8.Random.Source
import Chip8.Registers
import Chip8.Timers

/-!
The state of a machine. All of it is ordinary data: a step takes a machine and answers another one.
-/
namespace Chip8

inductive Status where
  | running
  | waiting (register : UInt8) -- where the number of the key goes
  | halted (cause : Fault)
  deriving DecidableEq, Repr

/-- A machine. The next instruction is at `pc`, and `redraw` says whether the display was touched since it
    was last asked for. -/
structure Machine where
  status : Status
  pc : UInt16
  index : UInt16
  registers : Registers
  stack : CallStack
  timers : Timers
  memory : Memory
  keys : Keys
  random : RandomSource
  display : Framebuffer
  redraw : Bool
  deriving DecidableEq

namespace Machine

/-- A machine that was just switched on. Its first picture is due without any drawing. -/
def initial (random : RandomSource) : Machine where
  status := .running
  pc := UInt16.ofNat programStart
  index := 0
  registers := Registers.zero
  stack := CallStack.empty
  timers := Timers.stopped
  memory := Memory.initial
  keys := Keys.allUp
  random := random
  display := Framebuffer.blank
  redraw := true

def ofSeed (seed : UInt64) : Machine := initial (RandomSource.ofSeed seed)

def value (m : Machine) (operand : UInt8) : UInt8 := m.registers.value operand

def put (m : Machine) (operand value : UInt8) : Machine :=
  { m with registers := m.registers.put operand value }

def isWaiting (m : Machine) : Bool :=
  match m.status with
  | .waiting _ => true
  | _ => false

def haltCause? (m : Machine) : Option Fault :=
  match m.status with
  | .halted cause => some cause
  | _ => none

def isHalted (m : Machine) : Bool := m.haltCause?.isSome

end Machine

end Chip8
