import Chip8.Terminal.Report

/-!
What a terminal sends. Characters stand for keys and come in UTF-8. An escape character introduces
a sequence of bytes that says something else. What cannot be understood is dropped as soon as that
is certain. `read` goes through bytes one by one, so it does not matter how they are divided
(`read_append`).

A program takes the bytes in readings of limited size. Two things depend on the readings: an escape
character at the end of one that is not full is the escape key, and the reading after one that
reported something has to wait until more bytes arrive.
-/
namespace Chip8.Terminal

/-- What the bytes since the last report have begun. -/
inductive InputState where
  | idle
  -- After the next byte so many are still missing.
  | character (bytes : List UInt8) (missing : Nat)
  | escape
  | function -- the escape character and the letter O
  | control -- the introducer: the escape character and a bracket
  | console -- the introducer and a second bracket
  | parameters (text : List Char)
  | answer (beyond : Bool) -- whether it went beyond its mark
  | mouse (text : List Char)
  | mouseBytes (bytes : List UInt8)
  | paste (matched : Nat) -- how much of its end mark was there last
  deriving DecidableEq, Repr

/-- The parameter of the control sequence that precedes pasted text. -/
def pasteStart : List Char := "200".toList

def pasteEnd : List Char := "\x1b[201~".toList

def isFinal (c : Char) : Bool := '@' ≤ c && c ≤ '~'

def continues (byte : UInt8) : Bool := 0x80 ≤ byte && byte < 0xC0

/-- The character that starts with bytes, if they are enough for one. -/
def decode? (bytes : List UInt8) : Option Char := bytes.toByteArray.utf8DecodeChar? 0

def keyReport (c : Char) : Report := .key (KeyEvent.ofChar c)

namespace InputState

/-- What a byte does when nothing is begun. A byte above those of ASCII says how many continue the
    character; one that only continues is passed over. -/
def start (byte : UInt8) : InputState × Option Report :=
  if byte = 0x1B then (.escape, none)
  else if byte < 0x80 then (.idle, some (keyReport (Char.ofUInt8 byte)))
  else if byte < 0xC0 then (.idle, none)
  else if byte < 0xE0 then (.character [byte] 0, none)
  else if byte < 0xF0 then (.character [byte] 1, none)
  else if byte < 0xF8 then (.character [byte] 2, none)
  else (.idle, none)

/-- What a byte does in a character. One that cannot continue it is lost with it. -/
def resume (bytes : List UInt8) (missing : Nat) (byte : UInt8) : InputState × Option Report :=
  if continues byte then
    match missing with
    | 0 => (.idle, (decode? (bytes ++ [byte])).map keyReport)
    | missing + 1 => (.character (bytes ++ [byte]) missing, none)
  else (.idle, none)

def introduce (c : Char) : InputState × Option Report :=
  if c.isDigit then (.parameters [c], none)
  else
    match c with
    | '[' => (.console, none)
    | 'M' => (.mouseBytes [], none)
    | '<' => (.mouse [], none)
    | '?' => (.answer false, none)
    | _ => (.idle, Report.ofLetter c)

def parameterize (text : List Char) (c : Char) : InputState × Option Report :=
  if ¬ isFinal c then (.parameters (text ++ [c]), none)
  else if c = '~' ∧ text = pasteStart then (.paste 0, none)
  else (.idle, Report.ofParameters text c)

/-- What a byte does: what is begun after it, and the report that it completes. -/
def step (state : InputState) (byte : UInt8) : InputState × Option Report :=
  let c := Char.ofUInt8 byte
  match state with
  | .idle => start byte
  | .character bytes missing => resume bytes missing byte
  | .escape =>
    match c with
    | '\x1b' => (.idle, some (keyReport c))
    | 'O' => (.function, none)
    | '[' => (.control, none)
    -- The escape character of a key struck together with Alt: the key counts, Alt does not.
    | _ => start byte
  | .function => (.idle, Report.ofFunction c)
  | .control => introduce c
  | .console => (.idle, Report.ofConsole c)
  | .parameters text => parameterize text c
  | .answer beyond =>
    if c = 'c' ∨ c = 'u' ∧ beyond then (.idle, some .answer) else (.answer true, none)
  | .mouse text =>
    if c = 'm' ∨ c = 'M' then (.idle, Report.ofSense (Report.isMouse 0 text) .other)
    else (.mouse (text ++ [c]), none)
  | .mouseBytes bytes =>
    match bytes with
    | [action, _] => (.idle, Report.ofMouseByte action)
    | bytes => (.mouseBytes (bytes ++ [byte]), none)
  | .paste matched =>
    let matched := if pasteEnd[matched]? = some c then matched + 1 else if c = '\x1b' then 1 else 0
    if matched = pasteEnd.length then (.idle, some .other) else (.paste matched, none)

def read (state : InputState) : List UInt8 → InputState × List Report
  | [] => (state, [])
  | byte :: rest =>
    let (next, report) := state.step byte
    let (last, reports) := next.read rest
    (last, report.toList ++ reports)

theorem read_append (state : InputState) (first second : List UInt8) :
    state.read (first ++ second) =
      let (middle, before) := state.read first
      let (last, after) := middle.read second
      (last, before ++ after) := by
  induction first generalizing state with
  | nil => rfl
  | cons byte rest ih => simp [read, ih]

def pause : InputState → InputState × Option Report
  | .escape => (.idle, some (keyReport '\x1b'))
  | state => (state, none)

end InputState

def readingLimit : Nat := 1024

structure Input where
  state : InputState := .idle
  unread : List UInt8 := []
  deriving DecidableEq, Repr

namespace Input

/-- Readings in a row, up to the first one that reports something. A pause follows the last one if
    it is not full. -/
def readOn (state : InputState) (bytes : List UInt8) : Input × List Report :=
  let (next, reports) := state.read (bytes.take readingLimit)
  if bytes.length < readingLimit then
    let (last, report) := next.pause
    (⟨last, []⟩, reports ++ report.toList)
  else if reports = [] ∧ readingLimit < bytes.length then readOn next (bytes.drop readingLimit)
  else (⟨next, bytes.drop readingLimit⟩, reports)
termination_by bytes.length
decreasing_by rw [List.length_drop, readingLimit] at *; omega

def receive (input : Input) (bytes : List UInt8) : Input × List Report :=
  if bytes = [] then (input, []) else readOn input.state (input.unread ++ bytes)

end Input

end Chip8.Terminal
