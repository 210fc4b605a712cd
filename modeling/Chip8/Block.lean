/-!
Blocks of bytes in a store of fixed length, such as memory or the register file. A block is read
and written from a position on; what a block has past the end of the store reads as zero and is
not written. `getElem_write` gives every byte after a write.
-/
namespace Chip8.Block

variable {size : Nat}

def read (store : Vector UInt8 size) (start length : Nat) : List UInt8 :=
  (List.range length).map fun offset => store[start + offset]?.getD 0

def write (store : Vector UInt8 size) (start : Nat) : List UInt8 → Vector UInt8 size
  | [] => store
  | byte :: rest => write (store.setIfInBounds start byte) (start + 1) rest

@[simp] theorem length_read (store : Vector UInt8 size) (start length : Nat) :
    (read store start length).length = length := by
  simp [read]

theorem getElem?_read (store : Vector UInt8 size) {start length offset : Nat}
    (inside : offset < length) :
    (read store start length)[offset]? = some (store[start + offset]?.getD 0) := by
  simp [read, inside]

/-- A position that the block covers holds the block's byte, and any other one keeps its own. -/
theorem getElem_write (data : List UInt8) (store : Vector UInt8 size) (start position : Nat)
    (inside : position < size) :
    (write store start data)[position] =
      if start ≤ position then data[position - start]?.getD store[position]
      else store[position] := by
  induction data generalizing store start with
  | nil => simp [write]
  | cons byte rest ih =>
    rw [write, ih]
    rcases Nat.lt_trichotomy start position with before | same | after
    · have shifted : position - start = (position - (start + 1)) + 1 := by omega
      rw [if_pos (by omega), if_pos (by omega), shifted, List.getElem?_cons_succ,
        Vector.getElem_setIfInBounds_ne inside (by omega)]
    · subst same
      rw [if_neg (by omega), if_pos (Nat.le_refl _)]
      simp
    · rw [if_neg (by omega), if_neg (by omega), Vector.getElem_setIfInBounds_ne inside (by omega)]

end Chip8.Block
