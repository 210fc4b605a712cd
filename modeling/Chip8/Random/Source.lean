import Chip8.Random.ChaCha
import Chip8.Random.SeedSequence

/-!
The random source: an endless stream of words that the key fixes, and a position in it. The words
are those of the blocks 0, 1, 2 and so on, each in order. A random byte is the low byte of the next
word, so every draw moves the position by one.
-/
namespace Chip8

structure RandomSource where
  key : Vector UInt32 8
  position : Nat
  deriving DecidableEq

namespace RandomSource

def ofSeed (seed : UInt64) : RandomSource := ⟨SeedSequence.words seed 8, 0⟩

def word (key : Vector UInt32 8) (position : Nat) : UInt32 :=
  (ChaCha.block key (position / 16)).get ⟨position % 16, Nat.mod_lt _ (by decide)⟩

def byte (key : Vector UInt32 8) (position : Nat) : UInt8 := (word key position).toUInt8

def next (source : RandomSource) : UInt8 := byte source.key source.position

/-- The source after a byte is drawn. -/
def drop (source : RandomSource) : RandomSource := { source with position := source.position + 1 }

end RandomSource

end Chip8
