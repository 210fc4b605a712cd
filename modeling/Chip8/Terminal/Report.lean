import Chip8.Terminal.KeyReport

/-!
What the sequences of a terminal report. A sequence is known by how it begins and by its final
character; what stands between has to make sense, or nothing is reported.
-/
namespace Chip8.Terminal

inductive Report where
  | key (event : KeyEvent)
  | answer
  | other -- the mouse, the focus or pasted text
  deriving DecidableEq, Repr

namespace Report

def plainKey : Report := .key { code := .other }

def ofSense (sense : Bool) (report : Report) : Option Report := if sense then some report else none

/-- The report in the escape character, the letter O and another character: a key for moving the
    cursor or a function key. -/
def ofFunction (c : Char) : Option Report := ofSense ("ABCDFHPQRS".toList.contains c) plainKey

/-- The report in a control sequence of a second bracket and another character: a function key. -/
def ofConsole (c : Char) : Option Report := ofSense ("ABCDE".toList.contains c) plainKey

/-- The report in a control sequence of one character: a key for moving the cursor, a function key,
    the tab key with Shift, or a change of focus. -/
def ofLetter (c : Char) : Option Report :=
  if c = 'I' ∨ c = 'O' then some .other else ofSense ("ABCDFHPQSZ".toList.contains c) plainKey

/-! ### The mouse -/

/-- Whether a number says what was done with the mouse. The lowest two bits and the highest two are
    the button or the direction of the wheel; the sixth bit is set while the mouse moves, and then
    there is no wheel to the sides. -/
def isMouseAction (number : Nat) : Bool :=
  let button := number % 4 + number / 64 * 4
  button < if number.testBit 5 then 6 else 8

/-- Whether parameters are an action of the mouse, which counts from `base`, and its place. -/
def isMouse (base : Nat) (text : List Char) : Bool :=
  match number? UInt8.size text 0 with
  | some number => base ≤ number && isMouseAction (number - base) && isPosition text 1
  | none => false

def ofMouseByte (action : UInt8) : Option Report :=
  ofSense (32 ≤ action && isMouseAction (action.toNat - 32)) .other

/-! ### Control sequences with parameters -/

def tildeKeys : List Nat :=
  [1, 2, 3, 4, 5, 6, 7, 8, 11, 12, 13, 14, 15, 17, 18, 19, 20, 21, 23, 24, 25, 26, 28, 29, 31, 32,
    33, 34]

/-- Whether parameters say which modifiers were down: in the second field, or in their last
    character. -/
def hasModifiers (text : List Char) : Bool :=
  (partNumber? UInt8.size text 1 0).isSome || text.getLast?.any Char.isDigit

def ofParameters (text : List Char) (final : Char) : Option Report :=
  match final with
  | '~' => ofSense ((number? UInt8.size text 0).any tildeKeys.contains) plainKey
  | 'u' => (KeyEvent.ofReport? text).map .key
  | 'R' => ofSense (isPosition text 0) .answer
  | 'M' => ofSense (isMouse 32 text) .other
  | _ => ofSense ("ABCDFHPQS".toList.contains final && hasModifiers text) plainKey

end Report

end Chip8.Terminal
