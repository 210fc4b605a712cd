import Chip8.CommandLine.Arguments
import Chip8.CommandLine.Completion

/-!
The program. `list --rom FILE` prints the listing of a program and `play FILE` runs it on the
terminal; the keyboard is read from standard input while the session goes on.
-/
namespace Chip8

def readFile (path : String) : IO (Except FileError (List UInt8)) := do
  try
    let content ← IO.FS.readBinFile path
    return .ok content.toList
  catch error =>
    match error with
    | .noFileOrDirectory .. => return .error .notFound
    | .inappropriateType _ number _ =>
      return .error (if number = 21 then .isDirectory else .notDirectory)
    | .invalidArgument .. =>
      return .error (if path.contains '\x00' then .zeroCharacter else .tooLong)
    | other => return .error (.refused (toString other))

def finish (completion : CommandLine.Completion) : IO UInt32 := do
  IO.print completion.output
  IO.eprint completion.errors
  return UInt32.ofNat completion.code

partial def collectInput (pending : IO.Ref (List UInt8)) : IO Unit := do
  let input ← IO.getStdin
  let bytes ← input.read 1
  if bytes.isEmpty then return
  pending.modify (· ++ bytes.toList)
  collectInput pending

/-- Plays turns, two milliseconds each, until the session has ended, and shows each new picture. The
    reports in `waiting` came before those that the input still has to complete. -/
partial def playTurns (pending : IO.Ref (List UInt8)) (input : Terminal.Input)
    (waiting : List Terminal.Report) (s : Session) : IO Session := do
  match s.status with
  | .playing =>
    let bytes ← pending.modifyGet fun bytes => (bytes, [])
    let (input, reports) := input.receive bytes
    let (events, waiting) := nextTurn (waiting ++ reports)
    let next := s.turn events
    let output ← IO.getStdout
    for picture in next.pictures do
      output.putStr (Terminal.frame picture)
      output.flush
    IO.sleep 2
    playTurns pending input waiting { next with shown := [] }
  | _ => return s

def list (arguments : List String) : IO UInt32 := do
  match CommandLine.listPath? arguments with
  | none =>
    IO.eprintln "usage: chip8 list --rom FILE"
    return 2
  | some path => finish (CommandLine.listCompletion path (← readFile path))

def play (arguments : List String) : IO UInt32 := do
  match CommandLine.playRequest? arguments with
  | none =>
    IO.eprintln "usage: chip8 play FILE [--seed NUMBER]"
    return 2
  | some request =>
    let seed ←
      match request.seed with
      | some seed => pure seed
      | none => do
        let bytes ← IO.getRandomBytes 8
        pure (UInt64.ofNat (bytes.toList.foldl (fun value byte => value * 256 + byte.toNat) 0))
    match CommandLine.openSession seed (← readFile request.path) with
    | .error error =>
      IO.eprint (CommandLine.loadFailureText request.path error)
      return 1
    | .ok start =>
      let pending ← IO.mkRef []
      let _ ← IO.asTask (collectInput pending) .dedicated
      IO.print Terminal.enter
      let last ← playTurns pending {} [] start
      IO.print Terminal.leave
      IO.eprint (CommandLine.sessionErrors last)
      return UInt32.ofNat (CommandLine.sessionCode last)

end Chip8

def main (arguments : List String) : IO UInt32 := do
  match arguments with
  | "list" :: rest => Chip8.list rest
  | "play" :: rest => Chip8.play rest
  | _ =>
    IO.eprintln "usage: chip8 list|play ..."
    return 2
