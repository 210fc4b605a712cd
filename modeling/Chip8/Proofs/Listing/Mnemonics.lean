import Chip8.Proofs.Instruction.Assembly
import Chip8.Proofs.Listing.Reading
import Mathlib.Data.List.Forall2

/-!
What the assembly texts of a listing tell about the program. An instruction has a text of its own, so the
last column of a listing gives the instructions back (`ofMnemonic?_wordColumn`), and with them the words,
up to the digit of `8xy6` that plays no part (`mnemonics_are_unambiguous`).
-/
namespace Chip8

namespace Instruction

theorem mnemonic_eq_iff {instruction other : Instruction} :
    instruction.mnemonic = other.mnemonic ↔ instruction = other := by
  refine ⟨?_, congrArg mnemonic⟩
  intro same
  have read := ofMnemonic?_mnemonic instruction
  rw [same, ofMnemonic?_mnemonic] at read
  exact (Option.some.inj read).symm

end Instruction

namespace ListingLine
open Instruction (ofWord? ofMnemonic? bytesOfWords SameButSpare)

/-- What the lines of a listing say that their bytes mean. -/
def mnemonicColumn (text : String) : List (List Char) :=
  (textLines text).map fun line => (textColumn line).drop 2

theorem mnemonicColumn_listing (words : List UInt16) :
    mnemonicColumn (listing (bytesOfWords words)) =
      words.map fun word => (wordColumn word).toList := by
  have lines (address : Nat) : ((ofBytes address (bytesOfWords words)).map fun line =>
      (textColumn line.text.toList).drop 2) = words.map fun word => (wordColumn word).toList := by
    induction words generalizing address with
    | nil => rfl
    | cons word rest ih =>
      have split : ofBytes address (bytesOfWords (word :: rest)) =
          .word address word :: ofBytes (address + 2) (bytesOfWords rest) := by
        conv_rhs => rw [← Instruction.wordOfBytes_bytesOfWord word]
        rfl
      rw [split, List.map_cons, List.map_cons, ih, (columns_word address word).2.2]
      rfl
  rw [mnemonicColumn, textLines_listing, List.map_map]
  exact lines programStart

/-- Reading what a listing says about a word is decoding the word. -/
theorem ofMnemonic?_wordColumn (word : UInt16) :
    ofMnemonic? (wordColumn word).toList = ofWord? word := by
  cases decoded : ofWord? word with
  | none =>
    simp only [wordColumn, decoded]
    rfl
  | some instruction =>
    simp only [wordColumn, decoded]
    exact Instruction.ofMnemonic?_mnemonic instruction

theorem wordColumn_eq_iff {word other : UInt16} (known : (ofWord? word).isSome) :
    wordColumn other = wordColumn word ↔ SameButSpare word other := by
  obtain ⟨instruction, decoded⟩ := Option.isSome_iff_exists.mp known
  rw [← Instruction.ofWord?_iff_sameButSpare decoded]
  constructor
  · intro same
    rw [← ofMnemonic?_wordColumn, same, ofMnemonic?_wordColumn, decoded]
  · intro decodedToo
    simp only [wordColumn, decoded, decodedToo]

theorem map_wordColumn_eq_iff {words others : List UInt16}
    (known : ∀ word ∈ words, (ofWord? word).isSome) :
    (others.map fun word => (wordColumn word).toList) =
        (words.map fun word => (wordColumn word).toList) ↔
      List.Forall₂ SameButSpare words others := by
  induction words generalizing others with
  | nil => cases others <;> simp
  | cons word rest ih =>
    cases others with
    | nil => simp
    | cons other others =>
      obtain ⟨now, later⟩ := List.forall_mem_cons.mp known
      rw [List.map_cons, List.map_cons, List.cons.injEq, String.toList_inj, wordColumn_eq_iff now,
        ih later, List.forall₂_cons]

/-- Assembly texts say everything. Instructions with the same text are the same, whatever their operands;
    words that are instructions have the same text exactly if they are the same up to the digit of `8xy6`
    that plays no part; and the last column of a listing gives back the instructions of its words. So if
    all of them are instructions, no other words have the same column, up to those digits. -/
theorem mnemonics_are_unambiguous :
    (∀ instruction other : Instruction,
      instruction.mnemonic = other.mnemonic → instruction = other) ∧
    (∀ word other instruction second, ofWord? word = some instruction → ofWord? other = some second →
      (instruction.mnemonic = second.mnemonic ↔ instruction = second) ∧
      (instruction = second ↔ SameButSpare word other)) ∧
    ∀ words : List UInt16,
      (mnemonicColumn (listing (bytesOfWords words))).mapM ofMnemonic? = words.mapM ofWord? ∧
      ((∀ word ∈ words, (ofWord? word).isSome) → ∀ others : List UInt16,
        (mnemonicColumn (listing (bytesOfWords others)) =
            mnemonicColumn (listing (bytesOfWords words)) ↔
          List.Forall₂ SameButSpare words others)) := by
  refine ⟨fun _ _ => Instruction.mnemonic_eq_iff.mp, ?_, ?_⟩
  · intro word other instruction second decoded decodedToo
    refine ⟨Instruction.mnemonic_eq_iff, ?_⟩
    rw [← Instruction.ofWord?_iff_sameButSpare decoded, decodedToo, Option.some.injEq, eq_comm]
  · intro words
    constructor
    · rw [mnemonicColumn_listing, List.mapM_map]
      congr 1
      exact funext ofMnemonic?_wordColumn
    · intro known others
      rw [mnemonicColumn_listing, mnemonicColumn_listing]
      exact map_wordColumn_eq_iff known

end ListingLine

end Chip8
