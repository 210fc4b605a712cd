import Chip8.Memory.Basic

/-!
Memory under addresses and lengths of 64 bits. The end of a block is computed in 64 bits as well,
and where it does not fit there is no answer at all, neither bytes nor a fault: `none`. Wherever it
fits, the answer is that of the unbounded access, which `slice?_of_fits` and its companions state.
-/
namespace Chip8.Memory

/-- The end of a block, unless 64 bits are too few for it. -/
def blockEnd? (start length : UInt64) : Option UInt64 :=
  if start.toNat + length.toNat < UInt64.size then some (start + length) else none

/-- The check of a block. A start outside of memory is refused before the end is computed. -/
def check? (start length : UInt64) : Option (Except Fault Unit) :=
  if memorySize ≤ start.toNat then some (.error (.outOfBounds start.toNat))
  else (blockEnd? start length).map fun blockEnd =>
    if memorySize < blockEnd.toNat then .error (.outOfBounds memorySize) else .ok ()

def slice? (m : Memory) (start length : UInt64) : Option (Except Fault (List UInt8)) :=
  (check? start length).map fun checked =>
    checked.map fun _ => Block.read m.bytes start.toNat length.toNat

def word? (m : Memory) (address : UInt64) : Option (Except Fault UInt16) :=
  (check? address 2).map fun checked =>
    checked.map fun _ =>
      Instruction.wordOfBytes (m.byte address.toNat) (m.byte (address.toNat + 1))

def write? (m : Memory) (start : UInt64) (data : List UInt8) : Option (Except Fault Memory) :=
  (check? start (UInt64.ofNat data.length)).map fun checked =>
    checked.map fun _ => { m with bytes := Block.write m.bytes start.toNat data }

theorem blockEnd?_of_fits {start length : UInt64}
    (fits : start.toNat + length.toNat < UInt64.size) :
    blockEnd? start length = some (start + length) := if_pos fits

theorem check?_of_fits {start length : UInt64} (fits : start.toNat + length.toNat < UInt64.size) :
    check? start length = some (check start.toNat length.toNat) := by
  have sum : (start + length).toNat = start.toNat + length.toNat := by
    rw [UInt64.toNat_add, Nat.mod_eq_of_lt fits]
  unfold check? check
  rw [blockEnd?_of_fits fits]
  split
  · rfl
  · simp [sum]

theorem slice?_of_fits (m : Memory) {start length : UInt64}
    (fits : start.toNat + length.toNat < UInt64.size) :
    m.slice? start length = some (m.slice start.toNat length.toNat) := by
  rw [slice?, check?_of_fits fits, slice]
  cases check start.toNat length.toNat <;> rfl

theorem word?_of_fits (m : Memory) {address : UInt64} (fits : address.toNat + 2 < UInt64.size) :
    m.word? address = some (m.word address.toNat) := by
  have checked : check? address 2 = some (check address.toNat 2) := check?_of_fits fits
  rw [word?, checked, word]
  cases check address.toNat 2 <;> rfl

theorem write?_of_fits (m : Memory) {start : UInt64} {data : List UInt8}
    (fits : start.toNat + data.length < UInt64.size) :
    m.write? start data = some (m.write start.toNat data) := by
  have length : (UInt64.ofNat data.length).toNat = data.length :=
    UInt64.toNat_ofNat_of_lt' (Nat.lt_of_le_of_lt (Nat.le_add_left _ _) fits)
  rw [write?, check?_of_fits (by rw [length]; exact fits), length, write]
  cases check start.toNat data.length <;> rfl

end Chip8.Memory
