import Chip8.Instruction.Decode
import Chip8.Machine.Execute

/-!
The step of a machine. A running machine executes one instruction, a waiting one looks for a key,
and a stopped one answers that it has stopped. Both timers tick at the end of every step that
succeeds. A step that fails leaves the machine as it was, except that it has stopped.
-/
namespace Chip8

structure Outcome where
  displayChanged : Bool
  waiting : Bool
  deriving DecidableEq, Repr

/-- A step: its answer, the machine after it, and what was reported on the way. -/
structure Transition where
  result : Except Fault Outcome
  machine : Machine
  log : List LogEntry

namespace Machine

def tick (m : Machine) : Machine := { m with timers := m.timers.tick }

def fetch (m : Machine) : Except Fault (UInt16 × Instruction) := do
  let word ← m.memory.word m.pc.toNat
  match Instruction.ofWord? word with
  | some instruction => return (word, instruction)
  | none => throw (.unknownOpcode word m.pc)

def succeed (m : Machine) (displayChanged : Bool) (log : List LogEntry) : Transition where
  result := .ok { displayChanged, waiting := m.isWaiting }
  machine := m.tick
  log := log

def fail (m : Machine) (cause : Fault) (log : List LogEntry) : Transition where
  result := .error cause
  machine := { m with status := .halted cause }
  log := log ++ [.halting cause]

def stepRunning (m : Machine) : Transition :=
  match m.fetch with
  | .error cause => m.fail cause []
  | .ok (word, instruction) =>
    let fetched : LogEntry := .executing m.pc word instruction
    match m.execute instruction with
    | .error cause => m.fail cause [fetched]
    | .ok effect =>
      { effect.machine with pc := effect.advance.target m.pc }.succeed effect.displayChanged
        (fetched :: effect.log)

/-- The step of a machine that waits for a key. The lowest key that is down ends the wait, and
    execution goes on with the step after this one. -/
def stepWaiting (m : Machine) (register : UInt8) : Transition :=
  match m.keys.lowestDown with
  | some key =>
    { m.put register key with status := .running }.succeed false [.keyTaken key register]
  | none => m.succeed false []

def step (m : Machine) : Transition :=
  match m.status with
  | .running => m.stepRunning
  | .waiting register => m.stepWaiting register
  | .halted _ => { result := .error .halted, machine := m, log := [] }

end Machine

end Chip8
