import Chip8.Memory.Wide
import Chip8.Proofs.Instruction.Words
import Chip8.Proofs.Memory.Writing

/-!
Accesses to memory under addresses and lengths of 64 bits. What comes of an access is told by its block
alone (`Accessed`): it is answered, it is refused in one of two ways, or its end is no number of 64 bits
and there is no answer. Of stores one after another those are effective that lie inside of memory, and a
block that is read afterwards has what the last of them left (`byte_storeAll?`).
-/
namespace Chip8

namespace Memory

/-- The ways of an access to a block that is answered with a value if it lies inside of memory. -/
inductive Accessed {α : Type} (start length : Nat) (value : α) : Option (Except Fault α) → Prop where
  | inside (known : start < 4096) (fits : start + length ≤ 4096) :
      Accessed start length value (some (.ok value))
  | outside (beyond : 4096 ≤ start) :
      Accessed start length value (some (.error (.outOfBounds start)))
  | spilling (known : start < 4096) (spills : 4096 < start + length)
      (narrow : start + length < UInt64.size) :
      Accessed start length value (some (.error (.outOfBounds 4096)))
  | endless (known : start < 4096) (wide : UInt64.size ≤ start + length) :
      Accessed start length value none

theorem accessed_check? (start length : UInt64) :
    Accessed start.toNat length.toNat () (check? start length) := by
  by_cases beyond : memorySize ≤ start.toNat
  · rw [check?, if_pos beyond]
    exact .outside beyond
  · have known := Nat.not_le.mp beyond
    by_cases narrow : start.toNat + length.toNat < UInt64.size
    · rw [check?_of_fits narrow]
      by_cases fits : start.toNat + length.toNat ≤ memorySize
      · rw [(check_eq_ok_iff ..).mpr ⟨known, fits⟩]
        exact .inside known fits
      · have spills := Nat.not_le.mp fits
        rw [(check_eq_error_iff ..).mpr (.inr ⟨known, spills, rfl⟩)]
        exact .spilling known spills narrow
    · rw [check?, if_neg beyond, blockEnd?, if_neg narrow]
      exact .endless known (Nat.not_lt.mp narrow)

namespace Accessed
variable {α β : Type} {start length : Nat} {value : α} {answer : Option (Except Fault α)}

theorem map (accessed : Accessed start length value answer) (make : α → β) :
    Accessed start length (make value) (answer.map fun answered => answered.map make) := by
  cases accessed with
  | inside known fits => exact .inside known fits
  | outside beyond => exact .outside beyond
  | spilling known spills narrow => exact .spilling known spills narrow
  | endless known wide => exact .endless known wide

theorem eq_ok_iff (accessed : Accessed start length value answer) {other : α} :
    answer = some (.ok other) ↔ other = value ∧ start < 4096 ∧ start + length ≤ 4096 := by
  cases accessed with
  | inside known fits => simp [known, fits, eq_comm]
  | outside beyond => simp [Nat.not_lt.mpr beyond]
  | spilling known spills => simp [Nat.not_le.mpr spills]
  | endless known wide =>
    have spills : ¬ start + length ≤ 4096 := fun fits =>
      absurd (Nat.le_trans wide fits) (by decide)
    simp [spills]

theorem eq_none_iff (accessed : Accessed start length value answer) :
    answer = none ↔ start < 4096 ∧ UInt64.size ≤ start + length := by
  cases accessed with
  | inside known fits =>
    have narrow : ¬ UInt64.size ≤ start + length := fun wide =>
      absurd (Nat.le_trans wide fits) (by decide)
    simp [narrow]
  | outside beyond => simp [Nat.not_lt.mpr beyond]
  | spilling known spills narrow => simp [Nat.not_le.mpr narrow]
  | endless known wide => simp [known, wide]

end Accessed

theorem accessed_slice? (m : Memory) (start length : UInt64) :
    Accessed start.toNat length.toNat
      ((List.range length.toNat).map fun offset => m.byte (start.toNat + offset))
      (m.slice? start length) :=
  (accessed_check? start length).map fun _ => Block.read m.bytes start.toNat length.toNat

theorem accessed_word? (m : Memory) (address : UInt64) :
    Accessed address.toNat 2
      (Instruction.wordOfBytes (m.byte address.toNat) (m.byte (address.toNat + 1)))
      (m.word? address) :=
  (accessed_check? address 2).map fun _ =>
    Instruction.wordOfBytes (m.byte address.toNat) (m.byte (address.toNat + 1))

end Memory

/-! ### Stores -/

/-- A block of bytes that is to be written at an address of 64 bits. -/
structure Store where
  start : UInt64
  bytes : List UInt8
  length_lt : bytes.length < UInt64.size

namespace Store

/-- The store lies inside of memory. -/
def Inside (s : Store) : Prop := s.start.toNat < 4096 ∧ s.start.toNat + s.bytes.length ≤ 4096

instance (s : Store) : Decidable s.Inside := inferInstanceAs (Decidable (_ ∧ _))

/-- The store begins in memory, and 64 bits are too few for its end. -/
def Endless (s : Store) : Prop :=
  s.start.toNat < 4096 ∧ UInt64.size ≤ s.start.toNat + s.bytes.length

def writing (s : Store) : Writing := ⟨s.start.toNat, s.bytes⟩

theorem Inside.not_endless {s : Store} (inside : s.Inside) : ¬ s.Endless := by
  rintro ⟨_, wide⟩
  exact absurd (Nat.le_trans wide inside.2) (by decide)

/-- What stores write that are not refused. -/
def accepted (stores : List Store) : List Writing :=
  (stores.filter fun s => decide s.Inside).map writing

theorem accepted_cons_of_inside {s : Store} (inside : s.Inside) (later : List Store) :
    accepted (s :: later) = s.writing :: accepted later := by
  simp [accepted, inside]

theorem accepted_cons_of_not_inside {s : Store} (refused : ¬ s.Inside) (later : List Store) :
    accepted (s :: later) = accepted later := by
  simp [accepted, refused]

end Store

namespace Memory

/-- Memory after a store, and unchanged if the store was refused. -/
def store? (m : Memory) (s : Store) : Option Memory :=
  (m.write? s.start s.bytes).map fun stored => stored.toOption.getD m

def storeAll? (m : Memory) (stores : List Store) : Option Memory := stores.foldlM store? m

theorem accessed_write? (m : Memory) (s : Store) :
    Accessed s.start.toNat s.bytes.length
      { m with bytes := Block.write m.bytes s.start.toNat s.bytes } (m.write? s.start s.bytes) := by
  have length : (UInt64.ofNat s.bytes.length).toNat = s.bytes.length :=
    UInt64.toNat_ofNat_of_lt' s.length_lt
  have checked := accessed_check? s.start (UInt64.ofNat s.bytes.length)
  rw [length] at checked
  exact checked.map fun _ => { m with bytes := Block.write m.bytes s.start.toNat s.bytes }

/-- The ways of a store. -/
inductive Stored (m : Memory) (s : Store) : Option Memory → Prop where
  | written {after : Memory} (inside : s.Inside) (applied : s.writing.Applied m after) :
      Stored m s (some after)
  | refused (not_inside : ¬ s.Inside) (not_endless : ¬ s.Endless) : Stored m s (some m)
  | endless (endless : s.Endless) : Stored m s none

theorem stored (m : Memory) (s : Store) : Stored m s (m.store? s) := by
  have accessed := m.accessed_write? s
  rw [store?]
  generalize m.write? s.start s.bytes = answer at accessed
  cases accessed with
  | inside known fits => exact .written ⟨known, fits⟩ rfl
  | outside beyond =>
    exact .refused (fun inside => Nat.not_lt.mpr beyond inside.1)
      fun endless => Nat.not_lt.mpr beyond endless.1
  | spilling known spills narrow =>
    exact .refused (fun inside => Nat.not_le.mpr spills inside.2)
      fun endless => Nat.not_le.mpr narrow endless.2
  | endless known wide => exact .endless ⟨known, wide⟩

theorem storeAll?_eq_none_iff (m : Memory) (stores : List Store) :
    m.storeAll? stores = none ↔ ∃ s ∈ stores, s.Endless := by
  induction stores generalizing m with
  | nil => simp [storeAll?]
  | cons s later ih =>
    have ways := m.stored s
    rw [storeAll?, List.foldlM_cons]
    simp only [List.mem_cons, exists_eq_or_imp]
    generalize m.store? s = first at ways
    cases ways with
    | @written after inside => exact (ih after).trans (or_iff_right inside.not_endless).symm
    | refused _ bounded => exact (ih m).trans (or_iff_right bounded).symm
    | endless endless => exact iff_of_true rfl (.inl endless)

/-- After some stores every byte is the one that the last effective store over its address left; where
    there was none it is the one from before. -/
theorem byte_storeAll? {m after : Memory} {stores : List Store} (done : m.storeAll? stores = some after)
    {address : Nat} (inside : address < memorySize) :
    Writing.LastPut (Store.accepted stores) address (after.byte address) ∨
      ((∀ w ∈ Store.accepted stores, ¬ w.Covers address) ∧ after.byte address = m.byte address) := by
  -- Stores are made from the front on, and the last one counts: what the later ones leave goes first.
  induction stores generalizing m with
  | nil =>
    cases done
    exact .inr ⟨by simp [Store.accepted], rfl⟩
  | cons s later ih =>
    have ways := m.stored s
    rw [storeAll?, List.foldlM_cons] at done
    generalize m.store? s = first at ways done
    cases ways with
    | written effective applied =>
      rw [Store.accepted_cons_of_inside effective]
      exact Writing.LastPut.cons_or_before applied inside (ih done)
    | refused not_inside =>
      rw [Store.accepted_cons_of_not_inside not_inside]
      exact ih done
    | endless => cases done

theorem word_iff_slice (m : Memory) (address : UInt64) :
    (∃ word, m.word? address = some (.ok word)) ↔ ∃ bytes, m.slice? address 2 = some (.ok bytes) := by
  constructor
  · rintro ⟨word, read⟩
    obtain ⟨_, inside⟩ := (m.accessed_word? address).eq_ok_iff.mp read
    exact ⟨_, (m.accessed_slice? address 2).eq_ok_iff.mpr ⟨rfl, inside⟩⟩
  · rintro ⟨bytes, read⟩
    obtain ⟨_, inside⟩ := (m.accessed_slice? address 2).eq_ok_iff.mp read
    exact ⟨_, (m.accessed_word? address).eq_ok_iff.mpr ⟨rfl, inside⟩⟩

/-- A block that is read after some stores has, byte by byte, what the last effective store left. -/
theorem slice_after_stores {m after : Memory} {stores : List Store}
    (done : m.storeAll? stores = some after) {start length : UInt64} {bytes : List UInt8}
    (read : after.slice? start length = some (.ok bytes)) :
    bytes.length = length.toNat ∧ ∀ offset byte, bytes[offset]? = some byte →
      Writing.LastPut (Store.accepted stores) (start.toNat + offset) byte ∨
      ((∀ w ∈ Store.accepted stores, ¬ w.Covers (start.toNat + offset)) ∧
        byte = m.byte (start.toNat + offset)) := by
  obtain ⟨rfl, _, fits⟩ := (after.accessed_slice? start length).eq_ok_iff.mp read
  refine ⟨by simp, ?_⟩
  intro offset byte found
  obtain ⟨within, rfl⟩ := List.getElem?_eq_some_iff.mp found
  rw [List.length_map, List.length_range] at within
  rw [List.getElem_map, List.getElem_range]
  exact byte_storeAll? done (Nat.lt_of_lt_of_le (Nat.add_lt_add_left within _) fits)

/-- Whatever block an access names with numbers of 64 bits, it is answered with the block as it is if the
    block lies inside of memory, and refused otherwise: at its start if that is past the end of memory, and
    at the end of memory if only the rest of it is. The one exception is a block that begins in memory and
    whose end is no number of 64 bits: there is no answer to it. Wherever
    the end is a number of 64 bits, the answer is the one that a machine gets. A word is a block of two
    bytes. After stores one after another, of which the refused ones do nothing, a block reads as the last
    of them left it. -/
theorem wide_accesses (m : Memory) :
    (∀ start length, Accessed start.toNat length.toNat () (check? start length)) ∧
    (∀ start length, Accessed start.toNat length.toNat
      ((List.range length.toNat).map fun offset => m.byte (start.toNat + offset))
      (m.slice? start length)) ∧
    (∀ s : Store, ∃ written, s.writing.Applied m written ∧
      written.programLength = m.programLength ∧
      Accessed s.start.toNat s.bytes.length written (m.write? s.start s.bytes)) ∧
    (∀ address, ∃ word : UInt16,
      word.toNat = 256 * (m.byte address.toNat).toNat + (m.byte (address.toNat + 1)).toNat ∧
      Accessed address.toNat 2 word (m.word? address)) ∧
    (∀ start length, start.toNat + length.toNat < UInt64.size →
      m.slice? start length = some (m.slice start.toNat length.toNat)) ∧
    (∀ address, address.toNat + 2 < UInt64.size → m.word? address = some (m.word address.toNat)) ∧
    (∀ s : Store, s.start.toNat + s.bytes.length < UInt64.size →
      m.write? s.start s.bytes = some (m.write s.start.toNat s.bytes)) ∧
    (∀ address, (∃ word, m.word? address = some (.ok word)) ↔
      ∃ bytes, m.slice? address 2 = some (.ok bytes)) ∧
    (∀ stores, m.storeAll? stores = none ↔ ∃ s ∈ stores, s.Endless) ∧
    (∀ stores after start length bytes, m.storeAll? stores = some after →
      after.slice? start length = some (.ok bytes) →
      bytes.length = length.toNat ∧ ∀ offset byte, bytes[offset]? = some byte →
        Writing.LastPut (Store.accepted stores) (start.toNat + offset) byte ∨
        ((∀ w ∈ Store.accepted stores, ¬ w.Covers (start.toNat + offset)) ∧
          byte = m.byte (start.toNat + offset))) := by
  refine ⟨accessed_check?, m.accessed_slice?, ?_, ?_, fun _ _ => m.slice?_of_fits,
    fun _ => m.word?_of_fits, fun _ => m.write?_of_fits, m.word_iff_slice, m.storeAll?_eq_none_iff, ?_⟩
  · intro s
    refine ⟨_, ?_, ?_, m.accessed_write? s⟩
    · rfl
    · rfl
  · intro address
    exact ⟨_, Instruction.toNat_wordOfBytes .., m.accessed_word? address⟩
  · intro stores after start length bytes done read
    exact slice_after_stores done read

/-- A block without an answer: its end would be the first number that 64 bits are too few for. -/
theorem slice_without_answer : Memory.initial.slice? 1 0xFFFFFFFFFFFFFFFF = none :=
  (accessed_slice? ..).eq_none_iff.mpr ⟨by decide, by decide⟩

end Memory

end Chip8
