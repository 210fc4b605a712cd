import Chip8.Numeral

/-!
The parameters of control sequences: text in fields that semicolons part. A field is a number, or
several numbers that colons part.
-/
namespace Chip8.Terminal
open Numeral (readBelow?)

def field? (text : List Char) (place : Nat) : Option (List Char) := (text.splitOn ';')[place]?

def number? (limit : Nat) (text : List Char) (place : Nat) : Option Nat :=
  (field? text place).bind (readBelow? limit)

/-- The number at a place within a field, if it is one below a limit. -/
def partNumber? (limit : Nat) (text : List Char) (field place : Nat) : Option Nat := do
  let parts ← field? text field
  let part ← (parts.splitOn ':')[place]?
  readBelow? limit part

/-- Whether two fields in a row are a place of the screen. -/
def isPosition (text : List Char) (first : Nat) : Bool :=
  (number? UInt16.size text first).isSome && (number? UInt16.size text (first + 1)).isSome

end Chip8.Terminal
