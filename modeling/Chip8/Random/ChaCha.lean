/-!
The block function of ChaCha: a state of sixteen words is scrambled by rounds of additions,
exclusive ors and rotations, and then added to itself as it was. Two quarter rounds over columns and
diagonals, four times each, make a double round; twelve rounds are six of these.
-/
namespace Chip8.ChaCha

abbrev Words : Type := Vector UInt32 16

def rotateLeft (word : UInt32) (count : UInt32) : UInt32 :=
  (word <<< count) ||| (word >>> (32 - count))

def quarterRound (s : Words) (a b c d : Fin 16) : Words :=
  let s := s.set a (s[a] + s[b])
  let s := s.set d (rotateLeft (s[d] ^^^ s[a]) 16)
  let s := s.set c (s[c] + s[d])
  let s := s.set b (rotateLeft (s[b] ^^^ s[c]) 12)
  let s := s.set a (s[a] + s[b])
  let s := s.set d (rotateLeft (s[d] ^^^ s[a]) 8)
  let s := s.set c (s[c] + s[d])
  s.set b (rotateLeft (s[b] ^^^ s[c]) 7)

/-- The place of a word in the four by four square of words, whose columns are counted around. -/
def place (row column : Nat) : Fin 16 := ⟨row % 4 * 4 + column % 4, by omega⟩

/-- A round over the columns of the square, each leaning by `slant` columns from row to row. -/
def round (slant : Nat) (s : Words) : Words :=
  (List.range 4).foldl (fun s column =>
    quarterRound s (place 0 column) (place 1 (column + slant)) (place 2 (column + 2 * slant))
      (place 3 (column + 3 * slant))) s

def doubleRound (s : Words) : Words := round 1 (round 0 s)

/-- The characters `expand 32-byte k` as four words. -/
def constants : Vector UInt32 4 := #v[0x61707865, 0x3320646E, 0x79622D32, 0x6B206574]

/-- The state before the rounds: the constants, the key, a counter of 64 bits with its low word
    first, and two words of zero. -/
def initialState (key : Vector UInt32 8) (counter : Nat) : Words :=
  constants ++ key ++
    #v[UInt32.ofNat counter, UInt32.ofNat (counter / UInt32.size), (0 : UInt32), 0]

def block (key : Vector UInt32 8) (counter : Nat) : Words :=
  let start := initialState key counter
  (Nat.repeat doubleRound 6 start).zipWith (· + ·) start

end Chip8.ChaCha
