import Chip8.Numeral

/-!
Command lines. A program takes operands and at most one option, whose value is the next argument or
stands behind an equals sign. Two hyphens end the options; a single hyphen is an operand. What else
starts with a hyphen is refused, and so is an option without a value.
-/
namespace Chip8.CommandLine

/-- A command line taken apart: the values that were given for the option, and the operands. -/
structure Arguments where
  values : List String
  operands : List String
  deriving DecidableEq, Repr

namespace Arguments

def withValue (value : String) (a : Arguments) : Arguments := { a with values := value :: a.values }

def withOperand (operand : String) (a : Arguments) : Arguments :=
  { a with operands := operand :: a.operands }

def hasOptionForm (argument : String) : Bool := argument.startsWith "-" && argument != "-"

/-- The value in an argument that carries the option and its value together. -/
def attached? (option argument : String) : Option String :=
  let mark := (option ++ "=").toList
  if mark.isPrefixOf argument.toList then some (String.ofList (argument.toList.drop mark.length))
  else none

/-- Takes a command line apart; `none` if it is refused. -/
def ofList? (option : String) : List String → Option Arguments
  | [] => some ⟨[], []⟩
  | argument :: rest =>
    if argument = "--" then some ⟨[], rest⟩
    else if argument = option then
      match rest with
      | [] => none
      | value :: rest =>
        if hasOptionForm value then none else (ofList? option rest).map (withValue value)
    else
      match attached? option argument with
      | some value => (ofList? option rest).map (withValue value)
      | none =>
        if hasOptionForm argument then none else (ofList? option rest).map (withOperand argument)

end Arguments

/-- The path of the program that the listing command is asked to list. It is the value of `--rom`,
    which is given once. -/
def listPath? (arguments : List String) : Option String :=
  match Arguments.ofList? "--rom" arguments with
  | some ⟨[path], []⟩ => if path = "" then none else some path
  | _ => none

structure PlayRequest where
  path : String
  seed : Option UInt64
  deriving DecidableEq, Repr

def seed? (text : String) : Option UInt64 :=
  (Numeral.readBelow? UInt64.size text.toList).map UInt64.ofNat

/-- The request on the command line of the playing command: one operand, which is the path of the
    program, and perhaps a value for `--seed`. -/
def playRequest? (arguments : List String) : Option PlayRequest :=
  match Arguments.ofList? "--seed" arguments with
  | some ⟨values, [path]⟩ =>
    if path = "" then none
    else
      match values with
      | [] => some ⟨path, none⟩
      | [value] => (seed? value).map fun seed => ⟨path, some seed⟩
      | _ => none
  | _ => none

end Chip8.CommandLine
