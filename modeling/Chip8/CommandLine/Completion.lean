import Chip8.Host
import Chip8.Listing
import Chip8.Rom
import Chip8.Terminal.Frame
import Chip8.Terminal.Typed

/-!
How the commands end: an exit code and what was written to the two output streams. A failure is told
on the error stream, first what was being done and then the causes, the nearest one first; several
causes are numbered.
-/
namespace Chip8.CommandLine
open Numeral (decimal hexLiteral)

structure Completion where
  code : Nat
  output : String
  errors : String
  deriving DecidableEq, Repr

/-- The account of a failure: what was being done, and why it failed. A failure without causes is told
    in its first line alone. -/
def failureText (activity : String) (causes : List String) : String :=
  let lines :=
    match causes with
    | [cause] => [cause]
    | several => several.mapIdx fun place cause => decimal place ++ ": " ++ cause
  let title := if causes = [] then "\n" else "\n\nCaused by:\n"
  "Error: " ++ activity ++ title ++ String.join (lines.map fun line => "    " ++ line ++ "\n")

def loadFailureText (path : String) (error : LoadError) : String :=
  failureText ("loading " ++ path) error.causes

/-- The end of the listing command, given what reading the file answered. It lists a program as it is
    in memory once it is loaded, and loading looks at its size a second time. -/
def listCompletion (path : String) (content : Except FileError (List UInt8)) : Completion :=
  match Rom.ofFile content with
  | .error error => ⟨1, "", loadFailureText path error⟩
  | .ok rom =>
    match Memory.initial.load rom.code with
    | .error error => ⟨1, "", failureText error.message error.causes.tail⟩
    | .ok memory => ⟨0, listing memory.program, ""⟩

def openSession (seed : UInt64) (content : Except FileError (List UInt8)) :
    Except LoadError Session := do
  let rom ← Rom.ofFile content
  let memory ← Memory.initial.load rom.code
  return Session.start { Machine.ofSeed seed with memory := memory }

def sessionCode (s : Session) : Nat :=
  match s.status with
  | .stopped _ _ => 1
  | _ => 0

def sessionErrors (s : Session) : String :=
  match s.status with
  | .stopped pc cause => failureText ("stopped at " ++ hexLiteral 3 pc.toNat) [cause.message]
  | _ => ""

/-- What a session writes to the terminal, from entering its screen to leaving it. -/
def sessionOutput (s : Session) : String :=
  Terminal.enter ++ String.join (s.pictures.map Terminal.frame) ++ Terminal.leave

/-- The end of the playing command when all keys are typed before the first step and the session
    lasts for at most so many turns. -/
def playCompletion (path : String) (seed : UInt64) (content : Except FileError (List UInt8))
    (typed : String) (turns : Nat) : Completion :=
  match openSession seed content with
  | .error error => ⟨1, "", loadFailureText path error⟩
  | .ok start =>
    let s := start.playReports (Terminal.reportsOfTyped typed) turns
    ⟨sessionCode s, sessionOutput s, sessionErrors s⟩

end Chip8.CommandLine
