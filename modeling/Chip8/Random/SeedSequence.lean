/-!
The expansion of a small seed into the words of a key. The seed is the state of a linear
congruential generator, and each word is a permuted part of the state that follows: the high bits
are folded and then rotated by the five highest ones.
-/
namespace Chip8.SeedSequence

def advance (state : UInt64) : UInt64 := state * 6364136223846793005 + 11634580027462260723

def rotateRight (word count : UInt32) : UInt32 := (word >>> count) ||| (word <<< (32 - count))

def output (state : UInt64) : UInt32 :=
  rotateRight (((state >>> 18) ^^^ state) >>> 27).toUInt32 (state >>> 59).toUInt32

def words (state : UInt64) : (count : Nat) → Vector UInt32 count
  | 0 => #v[]
  | count + 1 =>
    (#v[output (advance state)] ++ words (advance state) count).cast (Nat.add_comm 1 count)

end Chip8.SeedSequence
