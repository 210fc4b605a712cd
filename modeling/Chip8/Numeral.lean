/-!
Numbers as text. Digits are upper case and come most significant first; a width is a lower bound
that leading zeros fill up. `digits_of_lt` and `digits_of_le` are the two cases of the recursion,
so nothing else needs to unfold it.
-/
namespace Chip8.Numeral

def alphabet : List Char :=
  ['0', '1', '2', '3', '4', '5', '6', '7', '8', '9', 'A', 'B', 'C', 'D', 'E', 'F']

def digit (value : Nat) : Char := alphabet.getD value '0'

def digit? (c : Char) : Option Nat := alphabet.idxOf? c

/-- The digits of a number without leading zeros; zero has the single digit `0`. -/
def digits (base value : Nat) : List Char :=
  if base < 2 ∨ value < base then [digit value]
  else digits base (value / base) ++ [digit (value % base)]
termination_by value
decreasing_by exact Nat.div_lt_self (by omega) (by omega)

theorem digits_of_lt {base value : Nat} (small : value < base) :
    digits base value = [digit value] := by
  rw [digits, if_pos (Or.inr small)]

theorem digits_of_le {base value : Nat} (proper : 2 ≤ base) (large : base ≤ value) :
    digits base value = digits base (value / base) ++ [digit (value % base)] := by
  rw [digits, if_neg (by omega)]

/-- The number that digits continue, given the number that the digits before them make. -/
def readOn? (base value : Nat) : List Char → Option Nat
  | [] => some value
  | c :: rest =>
    match digit? c with
    | some d => if d < base then readOn? base (value * base + d) rest else none
    | none => none

/-- The number that digits make, if they are digits of the base and there is one at all. -/
def read? (base : Nat) : List Char → Option Nat
  | [] => none
  | c :: rest => readOn? base 0 (c :: rest)

/-- The number below a limit that decimal digits make, perhaps behind a plus sign. -/
def readBelow? (limit : Nat) (text : List Char) : Option Nat :=
  let digits :=
    match text with
    | '+' :: rest => rest
    | whole => whole
  (read? 10 digits).filter (· < limit)

def decimal (value : Nat) : String := String.ofList (digits 10 value)

def hex (width value : Nat) : String := String.ofList ((digits 16 value).leftpad width '0')

def hexLiteral (width value : Nat) : String := "0x" ++ hex width value

end Chip8.Numeral
