import Chip8.Numeral

/-!
Why a program cannot be loaded: its file cannot be read, or its size does not fit the memory that
is left to programs.
-/
namespace Chip8
open Numeral (decimal)

inductive FileError where
  | notFound
  | isDirectory
  | notDirectory
  | tooLong
  | zeroCharacter
  | refused (reason : String) -- in the words of the operating system
  deriving DecidableEq, Repr

/-- The message of the operating system, with its error number. A zero character is found before the
    operating system is asked. -/
def FileError.message : FileError → String
  | notFound => "No such file or directory (os error 2)"
  | isDirectory => "Is a directory (os error 21)"
  | notDirectory => "Not a directory (os error 20)"
  | tooLong => "File name too long (os error 36)"
  | zeroCharacter => "file name contained an unexpected NUL byte"
  | refused reason => reason

inductive LoadError where
  | empty
  | tooLarge (size limit : Nat)
  | unreadable (cause : FileError)
  deriving DecidableEq, Repr

namespace LoadError

def message : LoadError → String
  | empty => "ROM is empty"
  | tooLarge size limit =>
    "ROM size incorrect. Max size is " ++ decimal limit ++ " bytes but " ++ decimal size ++
      " bytes were provided"
  | unreadable cause => "error reading Chip-8 ROM: " ++ cause.message

/-- The messages of an error and of its deeper causes, the error's own first. -/
def causes : LoadError → List String
  | unreadable cause => [message (unreadable cause), cause.message]
  | error => [error.message]

end LoadError

end Chip8
