/-!
What a terminal says of its keyboard: which key, whether Ctrl was down, and what happened to the
key. Most keys send their character and nothing else. A control character stands for a key struck
together with Ctrl, except for those that have a key of their own.
-/
namespace Chip8.Terminal

inductive KeyCode where
  | escape
  | char (c : Char)
  | other
  deriving DecidableEq, Repr

inductive KeyAction where
  | press
  | hold -- down for long enough to count again
  | release
  deriving DecidableEq, Repr

structure KeyEvent where
  code : KeyCode
  control : Bool := false
  action : KeyAction := .press
  deriving DecidableEq, Repr

/-- The key that a character names. Escape, tab, carriage return and delete are keys without a
    character. -/
def KeyCode.ofChar (c : Char) : KeyCode :=
  if c = '\x1b' then .escape
  else if c = '\t' ∨ c = '\r' ∨ c = '\x7f' then .other
  else .char c

/-- The press that sends a character. The control characters without a key of their own are Ctrl
    with a letter, with a digit or, for the zero character, with the space bar. -/
def KeyEvent.ofChar (c : Char) : KeyEvent :=
  match KeyCode.ofChar c with
  | .char c =>
    if c.toNat = 0 then { code := .char ' ', control := true }
    else if c.toNat ≤ 0x1A then { code := .char (Char.ofNat (c.toNat + 0x60)), control := true }
    else if c.toNat ≤ 0x1F then { code := .char (Char.ofNat (c.toNat + 0x18)), control := true }
    else { code := .char c }
  | code => { code := code }

end Chip8.Terminal
