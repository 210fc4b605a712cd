import Chip8.Keypad
import Chip8.Machine.Step
import Chip8.Terminal.Input

/-!
The host: it turns keyboard reports into held keys, steps the machine and shows its display. A
session goes on turn by turn. In each turn the reports since the last one are dealt with first, in
order, and one that asks to quit ends the session at once; then the held keys are put down, the
machine makes one step, and a picture is shown if the machine says that one is due. A fault ends the
session too. An answer of the terminal is of no use to a session, but what it reports behind one has
to wait for the next turn; without answers all reports belong to the first turn
(`playReports_keys`).
-/
namespace Chip8
open Terminal (KeyEvent Report)

inductive Reaction where
  | quit
  | press (key : Fin keyCount)
  | release (key : Fin keyCount)
  | ignore
  deriving DecidableEq, Repr

/-- Escape and Ctrl-C quit; upper and lower case are one. -/
def reaction (event : KeyEvent) : Reaction :=
  match event.code with
  | .escape => .quit
  | .other => .ignore
  | .char c =>
    if event.control ∧ c = 'c' then .quit
    else
      match keyOfChar? c.toLower, event.action with
      | none, _ => .ignore
      | some key, .release => .release key
      | some key, _ => .press key

/-- The keypad after reports in order, or `none` if one of them asks to quit. -/
def Keypad.feed? (pad : Keypad) : List KeyEvent → Option Keypad
  | [] => some pad
  | event :: rest =>
    match reaction event with
    | .quit => none
    | .press key => (pad.press key).feed? rest
    | .release key => (pad.release key).feed? rest
    | .ignore => pad.feed? rest

/-- The keyboard events for the next turn out of reports that wait, and the reports that are left
    for later turns. -/
def nextTurn : List Report → List KeyEvent × List Report
  | [] => ([], [])
  | .answer :: rest => ([], rest)
  | .other :: rest => nextTurn rest
  | .key event :: rest =>
    let (events, left) := nextTurn rest
    (event :: events, left)

theorem nextTurn_keys (events : List KeyEvent) :
    nextTurn (events.map .key) = (events, []) := by
  induction events with
  | nil => rfl
  | cons event rest ih => simp [nextTurn, ih]

inductive SessionStatus where
  | playing
  | quit
  | stopped (pc : UInt16) (cause : Fault)
  deriving DecidableEq, Repr

/-- A session. The latest of the pictures in `shown` comes first. -/
structure Session where
  machine : Machine
  keypad : Keypad
  shown : List Framebuffer
  status : SessionStatus
  deriving DecidableEq

namespace Session

def start (machine : Machine) : Session := ⟨machine, Keypad.released, [], .playing⟩

/-- The rest of a turn, when the reports are dealt with. -/
def cycle (s : Session) (keypad : Keypad) : Session :=
  let transition := { s.machine with keys := keypad.down }.step
  let next := transition.machine
  match transition.result with
  | .error cause =>
    { s with machine := next, keypad := keypad.age, status := .stopped next.pc cause }
  | .ok _ =>
    { s with
      -- To ask whether a picture is due is to take note of it.
      machine := { next with redraw := false }
      keypad := keypad.age
      shown := if next.redraw then next.display :: s.shown else s.shown }

def turn (s : Session) (events : List KeyEvent) : Session :=
  match s.status with
  | .playing =>
    match s.keypad.feed? events with
    | none => { s with status := .quit }
    | some keypad => s.cycle keypad
  | _ => s

def play (s : Session) (schedule : List (List KeyEvent)) : Session := schedule.foldl turn s

/-- A session after so many turns when reports of the terminal wait for the first of them. -/
def playReports (s : Session) (waiting : List Report) : Nat → Session
  | 0 => s
  | turns + 1 => (s.turn (nextTurn waiting).1).playReports (nextTurn waiting).2 turns

theorem playReports_nil (s : Session) (turns : Nat) :
    s.playReports [] turns = s.play (List.replicate turns []) := by
  induction turns generalizing s with
  | zero => rfl
  | succ turns ih => exact ih (s.turn [])

theorem playReports_keys (s : Session) (events : List KeyEvent) (turns : Nat) :
    s.playReports (events.map .key) (turns + 1) =
      s.play (events :: List.replicate turns []) := by
  rw [playReports, nextTurn_keys, playReports_nil]
  rfl

def pictures (s : Session) : List Framebuffer := s.shown.reverse

end Session

end Chip8
