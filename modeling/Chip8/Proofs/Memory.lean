import Chip8.Memory.Lemmas

/-!
When an access to memory is answered, and when it is refused and at which address. Reading a block,
reading a word and writing a block are refused alike: only the start and the length of the block
count (`check_eq_error_iff`).
-/
namespace Chip8

section
variable {ε α β : Type}

theorem bind_eq_ok_iff {first : Except ε α} {next : α → Except ε β} {answer : β} :
    (first >>= next) = .ok answer ↔ ∃ value, first = .ok value ∧ next value = .ok answer := by
  cases first with
  | error _ => simp [bind, Except.bind]
  | ok _ => simp [bind, Except.bind]

theorem bind_eq_error_iff {first : Except ε α} {next : α → Except ε β} {error : ε} :
    (first >>= next) = .error error ↔
      first = .error error ∨ ∃ value, first = .ok value ∧ next value = .error error := by
  cases first with
  | error _ => simp [bind, Except.bind]
  | ok _ => simp [bind, Except.bind]

/-- A value behind a check is answered as it is, if at all. -/
theorem checked_eq_ok_iff {check : Except ε Unit} {value answer : α} :
    (do check; return value) = Except.ok answer ↔ check = .ok () ∧ answer = value := by
  rw [bind_eq_ok_iff]
  constructor
  · rintro ⟨⟨⟩, passed, answered⟩
    exact ⟨passed, (Except.ok.inj answered).symm⟩
  · rintro ⟨passed, rfl⟩
    exact ⟨(), passed, rfl⟩

/-- What is made of an answer is refused as the answer is. -/
theorem made_eq_error_iff {first : Except ε α} {make : α → β} {error : ε} :
    (do let value ← first; return make value) = Except.error error ↔ first = .error error := by
  rw [bind_eq_error_iff]
  constructor
  · rintro (refused | ⟨_, _, impossible⟩)
    · exact refused
    · cases impossible
  · exact .inl

end

namespace Memory

/-- A block outside of memory is refused at its start, and one that sticks out at the end of
    memory. -/
theorem check_eq_error_iff (start length : Nat) (cause : Fault) :
    check start length = .error cause ↔
      (memorySize ≤ start ∧ cause = .outOfBounds start) ∨
      (start < memorySize ∧ memorySize < start + length ∧ cause = .outOfBounds memorySize) := by
  unfold check
  by_cases outside : memorySize ≤ start
  · have notInside : ¬ start < memorySize := Nat.not_lt.mpr outside
    simp [outside, notInside, eq_comm]
  · by_cases out : memorySize < start + length
    · simp [outside, out, Nat.not_le.mp outside, eq_comm]
    · simp [outside, out]

/-- A block is refused for its place only. -/
theorem outOfBounds_of_check {start length : Nat} {cause : Fault}
    (refused : check start length = .error cause) : ∃ address, cause = .outOfBounds address := by
  rcases (check_eq_error_iff ..).mp refused with ⟨_, rfl⟩ | ⟨_, _, rfl⟩
  · exact ⟨start, rfl⟩
  · exact ⟨memorySize, rfl⟩

theorem slice_eq_ok_iff {m : Memory} {start length : Nat} {bytes : List UInt8} :
    m.slice start length = .ok bytes ↔
      check start length = .ok () ∧ bytes = Block.read m.bytes start length :=
  checked_eq_ok_iff

theorem slice_eq_error_iff {m : Memory} {start length : Nat} {cause : Fault} :
    m.slice start length = .error cause ↔ check start length = .error cause :=
  made_eq_error_iff

theorem word_eq_ok_iff {m : Memory} {address : Nat} {word : UInt16} :
    m.word address = .ok word ↔
      check address 2 = .ok () ∧
        word = Instruction.wordOfBytes (m.byte address) (m.byte (address + 1)) :=
  checked_eq_ok_iff

theorem word_eq_error_iff {m : Memory} {address : Nat} {cause : Fault} :
    m.word address = .error cause ↔ check address 2 = .error cause :=
  made_eq_error_iff

theorem write_eq_ok_iff {m written : Memory} {start : Nat} {data : List UInt8} :
    m.write start data = .ok written ↔
      check start data.length = .ok () ∧
        written = { m with bytes := Block.write m.bytes start data } :=
  checked_eq_ok_iff

theorem write_eq_error_iff {m : Memory} {start : Nat} {data : List UInt8} {cause : Fault} :
    m.write start data = .error cause ↔ check start data.length = .error cause :=
  made_eq_error_iff

end Memory

end Chip8
