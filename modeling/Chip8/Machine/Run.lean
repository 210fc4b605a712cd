import Chip8.Machine.Step

/-!
Runs: steps in a row, up to the first one that fails. A run that has ended stays as it is.
-/
namespace Chip8

/-- A machine that was stepped for a while: how many steps succeeded, how many of them touched the display,
    and the fault that ended the run. -/
structure Run where
  machine : Machine
  steps : Nat := 0
  changes : Nat := 0
  fault : Option Fault := none

namespace Run

def extend (r : Run) : Run :=
  match r.fault with
  | some _ => r
  | none =>
    let transition := r.machine.step
    match transition.result with
    | .ok outcome =>
      { machine := transition.machine
        steps := r.steps + 1
        changes := if outcome.displayChanged then r.changes + 1 else r.changes }
    | .error fault => { r with machine := transition.machine, fault := some fault }

def proceed (r : Run) : Nat → Run
  | 0 => r
  | limit + 1 =>
    match r.fault with
    | some _ => r
    | none => r.extend.proceed limit

end Run

/-- A run of at most so many steps. -/
def Machine.run (m : Machine) (limit : Nat) : Run := Run.proceed { machine := m } limit

end Chip8
