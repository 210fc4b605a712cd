import Chip8.Terminal.KeyEvent
import Chip8.Terminal.Parameters

/-!
Keys by number. Beside plain characters a terminal may send parameters that tell of a key. The first
field names the key and, behind it, the key's character under Shift; the second one says which
modifiers were down and what happened to the key. Only the first number has to be there.
-/
namespace Chip8.Terminal

structure Modifiers where
  shift : Bool
  control : Bool
  deriving DecidableEq, Repr

/-- The modifiers that a number says were down. It is one more than a sum of powers of two, of
    which Shift has the first and Ctrl the third. -/
def Modifiers.ofNumber (number : Nat) : Modifiers :=
  ⟨(number - 1).testBit 0, (number - 1).testBit 2⟩

/-- The modifiers that a key is itself. Shift and Ctrl have a left and a right key each. -/
def Modifiers.ofKey (number : Nat) : Modifiers :=
  ⟨number = 57441 ∨ number = 57447, number = 57442 ∨ number = 57448⟩

def Modifiers.union (a b : Modifiers) : Modifiers := ⟨a.shift || b.shift, a.control || b.control⟩

def KeyAction.ofNumber : Nat → KeyAction
  | 2 => .hold
  | 3 => .release
  | _ => .press

def scalar? (number : Nat) : Option Char :=
  if number.isValidChar then some (Char.ofNat number) else none

def padStart : Nat := 57399

/-- The keys of the numeric pad that count as characters, with the enter key among them, in the
    order of their numbers. -/
def padKeys : List KeyCode :=
  "0123456789./*-+".toList.map .char ++ [.other, .char '=', .char ',']

/-- The key with a number, if there is one. Characters stand for their own keys; the numbers that
    are set apart for private use stand for the keys that have no character, and before them for
    those of the numeric pad. -/
def KeyCode.ofNumber? (number : Nat) : Option KeyCode :=
  if padStart ≤ number ∧ number < padStart + padKeys.length then padKeys[number - padStart]?
  else if 57344 ≤ number ∧ number ≤ 63743 then some .other
  else (scalar? number).map .ofChar

/-- The event that a report tells of; `none` if the report names no key. With Shift down the key is
    the one of the character under Shift, if the report has it. An event whose modifiers cannot be
    read is a press without any. -/
def KeyEvent.ofReport? (text : List Char) : Option KeyEvent := do
  let number ← partNumber? UInt32.size text 0 0
  let code ← KeyCode.ofNumber? number
  let (told, action) :=
    match partNumber? UInt8.size text 1 0 with
    | some held =>
      (Modifiers.ofNumber held, KeyAction.ofNumber ((partNumber? UInt8.size text 1 1).getD 1))
    | none => (⟨false, false⟩, .press)
  let modifiers := told.union (Modifiers.ofKey number)
  let shifted := if modifiers.shift then (partNumber? UInt32.size text 0 1).bind scalar? else none
  return { code := (shifted.map .char).getD code, control := modifiers.control, action := action }

end Chip8.Terminal
