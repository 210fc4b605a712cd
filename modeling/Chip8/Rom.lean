import Chip8.Layout
import Chip8.LoadError

/-!
Programs that are fit to be loaded: at least one byte, and no more than the memory that is left to
programs.
-/
namespace Chip8

structure Rom where
  code : List UInt8
  code_ne_nil : code ≠ []
  length_le : code.length ≤ programLimit
  deriving DecidableEq

namespace Rom

def ofBytes (code : List UInt8) : Except LoadError Rom :=
  if blank : code = [] then .error .empty
  else if fits : code.length ≤ programLimit then .ok ⟨code, blank, fits⟩
  else .error (.tooLarge code.length programLimit)

def ofFile (content : Except FileError (List UInt8)) : Except LoadError Rom :=
  match content with
  | .error cause => .error (.unreadable cause)
  | .ok code => ofBytes code

end Rom

end Chip8
