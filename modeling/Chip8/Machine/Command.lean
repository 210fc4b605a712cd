import Chip8.Machine.Step
import Chip8.Rom

/-!
What a host can do to a machine. A command is answered and leaves a machine behind; a history of
commands is run by `performAll`, which collects the answers. Reading a machine is no command, since
its state is open to view.
-/
namespace Chip8

inductive Command where
  | load (code : List UInt8)
  | loadRom (rom : Rom)
  | setKey (key : UInt8) (down : Bool)
  | step
  | takeRedraw -- asks whether a picture is due, and takes note of it
  deriving DecidableEq

inductive Answer where
  | loaded (result : Except LoadError Unit)
  | keySet (result : Except Fault Unit)
  | stepped (result : Except Fault Outcome)
  | redraw (due : Bool)

structure Performance where
  answer : Answer
  machine : Machine
  log : List LogEntry

namespace Machine

def load (m : Machine) (code : List UInt8) : Except LoadError Machine := do
  let memory ← m.memory.load code
  return { m with memory := memory }

def setKey (m : Machine) (key : UInt8) (down : Bool) : Except Fault Machine :=
  if known : key.toNat < keyCount then .ok { m with keys := m.keys.set key.toNat down known }
  else .error (.unknownKey key)

def clearRedraw (m : Machine) : Machine := { m with redraw := false }

/-- Loading as a command. A refused program leaves the machine alone and reports nothing. -/
def performLoad (m : Machine) (code : List UInt8) : Performance :=
  match m.load code with
  | .ok loaded => ⟨.loaded (.ok ()), loaded, [.loaded code.length]⟩
  | .error error => ⟨.loaded (.error error), m, []⟩

def perform (m : Machine) : Command → Performance
  | .load code => m.performLoad code
  | .loadRom rom => m.performLoad rom.code
  | .setKey key down =>
    match m.setKey key down with
    | .ok next => ⟨.keySet (.ok ()), next, []⟩
    | .error fault => ⟨.keySet (.error fault), m, []⟩
  | .step =>
    let transition := m.step
    ⟨.stepped transition.result, transition.machine, transition.log⟩
  | .takeRedraw => ⟨.redraw m.redraw, m.clearRedraw, []⟩

def performAll (m : Machine) (history : List Command) : Machine :=
  history.foldl (fun machine command => (machine.perform command).machine) m

end Machine

end Chip8
