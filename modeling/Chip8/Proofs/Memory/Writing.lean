import Chip8.Proofs.Memory

/-!
Memory as the outcome of what was written to it. A writing lays a block of bytes over memory, and a
byte is the one that the last writing over its address put there: of some writings in order,
`LastPut` says which byte that is.
-/
namespace Chip8

/-- A block of bytes that was put into memory. -/
structure Writing where
  start : Nat
  bytes : List UInt8
  deriving DecidableEq

namespace Writing

/-- What is in memory when a machine is switched on: the font, and zeros behind it. -/
def powerOn : Writing := ⟨0, Font.bytes ++ List.replicate (memorySize - Font.bytes.length) 0⟩

/-- A program, and zeros behind it up to the end of memory. -/
def program (code : List UInt8) : Writing :=
  ⟨programStart, code ++ List.replicate (programLimit - code.length) 0⟩

def Covers (w : Writing) (address : Nat) : Prop :=
  w.start ≤ address ∧ address < w.start + w.bytes.length

/-- A writing leaves a byte at an address. -/
def Puts (w : Writing) (address : Nat) (byte : UInt8) : Prop :=
  w.start ≤ address ∧ w.bytes[address - w.start]? = some byte

/-- Of some writings in order, the last one that covers an address leaves a byte there. -/
def LastPut (writings : List Writing) (address : Nat) (byte : UInt8) : Prop :=
  ∃ earlier w later, writings = earlier ++ w :: later ∧ w.Puts address byte ∧
    ∀ other ∈ later, ¬ other.Covers address

/-- The memory after a writing, in terms of the one before. -/
def Applied (w : Writing) (before after : Memory) : Prop :=
  after.bytes = Block.write before.bytes w.start w.bytes

theorem covers_iff {w : Writing} {address : Nat} : w.Covers address ↔ ∃ byte, w.Puts address byte := by
  constructor
  · rintro ⟨above, below⟩
    have inside : address - w.start < w.bytes.length := by omega
    exact ⟨w.bytes[address - w.start], above, List.getElem?_eq_getElem inside⟩
  · rintro ⟨byte, above, found⟩
    obtain ⟨inside, _⟩ := List.getElem?_eq_some_iff.mp found
    exact ⟨above, by omega⟩

theorem byte_of_puts {w : Writing} {before after : Memory} (applied : w.Applied before after)
    {address : Nat} (inside : address < memorySize) {byte : UInt8} (puts : w.Puts address byte) :
    after.byte address = byte := by
  obtain ⟨above, found⟩ := puts
  rw [Memory.byte_of_inside _ inside]
  simp only [show after.bytes = _ from applied, Block.getElem_write, if_pos above, found,
    Option.getD_some]

theorem byte_of_uncovered {w : Writing} {before after : Memory} (applied : w.Applied before after)
    {address : Nat} (inside : address < memorySize) (uncovered : ¬ w.Covers address) :
    after.byte address = before.byte address := by
  rw [Memory.byte_of_inside _ inside, Memory.byte_of_inside _ inside]
  simp only [show after.bytes = _ from applied, Block.getElem_write]
  split
  · next above =>
    have past : w.bytes.length ≤ address - w.start := by
      simp only [Covers, not_and] at uncovered
      have := uncovered above
      omega
    rw [List.getElem?_eq_none past, Option.getD_none]
  · rfl

theorem LastPut.of_later {later : List Writing} {address : Nat} {byte : UInt8}
    (put : LastPut later address byte) (earlier : List Writing) :
    LastPut (earlier ++ later) address byte := by
  obtain ⟨before, w, after, rfl, puts, uncovered⟩ := put
  exact ⟨earlier ++ before, w, after, by simp, puts, uncovered⟩

theorem LastPut.of_uncovered {w : Writing} {later : List Writing} {address : Nat} {byte : UInt8}
    (puts : w.Puts address byte) (uncovered : ∀ other ∈ later, ¬ other.Covers address) :
    LastPut (w :: later) address byte := ⟨[], w, later, rfl, puts, uncovered⟩

/-- A writing in front of others is told of by what they leave, and otherwise by what was before. -/
theorem LastPut.cons_or_before {w : Writing} {before after : Memory} (applied : w.Applied before after)
    {address : Nat} (inside : address < memorySize) {later : List Writing} {byte : UInt8}
    (left : LastPut later address byte ∨
      ((∀ other ∈ later, ¬ other.Covers address) ∧ byte = after.byte address)) :
    LastPut (w :: later) address byte ∨
      ((∀ other ∈ w :: later, ¬ other.Covers address) ∧ byte = before.byte address) := by
  rcases left with put | ⟨uncovered, rfl⟩
  · exact .inl (put.of_later [w])
  · by_cases covered : w.Covers address
    · obtain ⟨byte, puts⟩ := covers_iff.mp covered
      rw [byte_of_puts applied inside puts]
      exact .inl (.of_uncovered puts uncovered)
    · rw [byte_of_uncovered applied inside covered]
      exact .inr ⟨List.forall_mem_cons.mpr ⟨covered, uncovered⟩, rfl⟩

/-! ### Power on -/

theorem length_font : Font.bytes.length = 80 := rfl

theorem byte_initial {address : Nat} (inside : address < memorySize) :
    Memory.initial.byte address = Font.bytes[address]?.getD 0 := by
  rw [Memory.byte_of_inside _ inside]
  simp only [Memory.initial, Block.getElem_write, Nat.zero_le, if_true, Vector.getElem_replicate]
  rfl

theorem font_of_initial {address : Nat} (glyph : address < 80) :
    Font.bytes[address]? = some (Memory.initial.byte address) := by
  have within : address < Font.bytes.length := glyph
  have inside : address < memorySize := Nat.lt_trans glyph (by decide)
  rw [byte_initial inside, List.getElem?_eq_getElem within, Option.getD_some]

theorem byte_initial_of_past {address : Nat} (past : 80 ≤ address) (inside : address < memorySize) :
    Memory.initial.byte address = 0 := by
  have behind : Font.bytes.length ≤ address := past
  rw [byte_initial inside, List.getElem?_eq_none behind, Option.getD_none]

theorem powerOn_puts {address : Nat} (inside : address < memorySize) :
    powerOn.Puts address (Memory.initial.byte address) := by
  refine ⟨Nat.zero_le _, ?_⟩
  show (Font.bytes ++ List.replicate (memorySize - Font.bytes.length) 0)[address]? = _
  rcases Nat.lt_or_ge address 80 with glyph | past
  · rw [List.getElem?_append_left glyph, font_of_initial glyph]
  · have behind : Font.bytes.length ≤ address := past
    have length := length_font
    rw [List.getElem?_append_right behind, List.getElem?_replicate, if_pos (by omega),
      byte_initial_of_past past inside]

end Writing

namespace Memory

/-- A program is loaded exactly if it fits, and all that loading does is to write it. -/
theorem load_eq_ok_iff {m loaded : Memory} {code : List UInt8} :
    m.load code = .ok loaded ↔ code.length ≤ programLimit ∧
      (Writing.program code).Applied m loaded ∧ loaded.programLength = code.length := by
  unfold load
  split
  · next fits =>
    constructor
    · intro done
      cases done
      exact ⟨fits, rfl, rfl⟩
    · rintro ⟨_, applied, length⟩
      cases loaded
      cases length
      exact congrArg _ (by simpa [Writing.Applied, Writing.program] using applied.symm)
  · next large =>
    constructor
    · intro impossible
      cases impossible
    · exact fun fitting => absurd fitting.1 large

end Memory

end Chip8
