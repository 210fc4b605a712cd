import Chip8.Proofs.Instruction.Digits

/-!
Words: the bytes that they are in memory, and which of them stand for the same instruction. No two words
do, except that `8xy6` has a digit that plays no part (`ofWord?_iff_sameButSpare`).
-/
namespace Chip8.Instruction

/-! ### Words as bytes -/

theorem toNat_wordOfBytes (high low : UInt8) :
    (wordOfBytes high low).toNat = 256 * high.toNat + low.toNat := by
  have first := high.toNat_lt
  have second := low.toNat_lt
  rw [wordOfBytes, UInt16.toNat_ofNat']
  omega

/-- The bytes of a word in memory, the high byte first. -/
def bytesOfWord (word : UInt16) : List UInt8 :=
  [UInt8.ofNat (word.toNat / 0x100), UInt8.ofNat (word.toNat % 0x100)]

/-- The bytes of words one after another. -/
def bytesOfWords (words : List UInt16) : List UInt8 := words.flatMap bytesOfWord

theorem wordOfBytes_bytesOfWord (word : UInt16) :
    wordOfBytes (UInt8.ofNat (word.toNat / 0x100)) (UInt8.ofNat (word.toNat % 0x100)) = word := by
  have small := word.toNat_lt
  apply UInt16.toNat_inj.mp
  simp only [toNat_wordOfBytes, UInt8.toNat_ofNat']
  omega

theorem length_bytesOfWords (words : List UInt16) :
    (bytesOfWords words).length = 2 * words.length := by
  induction words with
  | nil => rfl
  | cons word rest ih =>
    have split : bytesOfWords (word :: rest) = bytesOfWord word ++ bytesOfWords rest := rfl
    rw [split, List.length_append, ih, List.length_cons]
    simp only [bytesOfWord, List.length_cons, List.length_nil]
    omega

theorem wordOfBytes_getElem {words : List UInt16} {i : Nat} (inside : i < words.length)
    (first : 2 * i < (bytesOfWords words).length)
    (second : 2 * i + 1 < (bytesOfWords words).length) :
    wordOfBytes (bytesOfWords words)[2 * i] (bytesOfWords words)[2 * i + 1] = words[i] := by
  induction words generalizing i with
  | nil => cases inside
  | cons word rest ih =>
    cases i with
    | zero => exact wordOfBytes_bytesOfWord word
    | succ i =>
      have within : i < rest.length := Nat.lt_of_succ_lt_succ inside
      have length := length_bytesOfWords rest
      exact ih within (by omega) (by omega)

/-! ### Words for the same instruction -/

/-- The words are the same, or both have the form `8xy6` with the same register. -/
def SameButSpare (word other : UInt16) : Prop :=
  word = other ∨ ∃ x < 16, ∃ y < 16, ∃ z < 16,
    word.toNat = 0x8006 + 0x100 * x + 0x10 * y ∧ other.toNat = 0x8006 + 0x100 * x + 0x10 * z

theorem eq_of_wordDigits {word other : UInt16} (same : wordDigits word = wordDigits other) :
    word = other := by
  simp only [wordDigits, nibble, Prod.mk.injEq] at same
  have small := word.toNat_lt
  have smallToo := other.toNat_lt
  apply UInt16.toNat_inj.mp
  omega

theorem digits_eq_of_ne_shiftRight {instruction : Instruction}
    (other : ∀ x, instruction ≠ .shiftRight x) (spare unused : Nat) :
    instruction.digits spare = instruction.digits unused := by
  cases instruction with
  | shiftRight x => exact absurd rfl (other x)
  | _ => rfl

theorem toNat_of_shiftRight {word : UInt16} {x : UInt8}
    (decoded : ofWord? word = some (.shiftRight x)) :
    word.toNat = 0x8006 + 0x100 * x.toNat + 0x10 * nibble word 1 := by
  have written := wordDigits_of_ofWord? decoded
  simp only [wordDigits, digits, nibble, Prod.mk.injEq] at written ⊢
  have small := word.toNat_lt
  omega

theorem ofWord?_of_toNat {word : UInt16} {x y : Nat} (register : x < 16) (spare : y < 16)
    (written : word.toNat = 0x8006 + 0x100 * x + 0x10 * y) :
    ofWord? word = some (.shiftRight (UInt8.ofNat x)) := by
  have digits : wordDigits word = (shiftRight (UInt8.ofNat x)).digits y := by
    simp only [wordDigits, digits, nibble, written, UInt8.toNat_ofNat', Prod.mk.injEq]
    omega
  exact ofWord?_of_wordDigits digits

/-- An instruction has no other words than one and those that differ from it in the open digit. -/
theorem ofWord?_iff_sameButSpare {word other : UInt16} {instruction : Instruction}
    (decoded : ofWord? word = some instruction) :
    ofWord? other = some instruction ↔ SameButSpare word other := by
  constructor
  · intro decodedToo
    by_cases halves : ∃ x, instruction = .shiftRight x
    · obtain ⟨x, rfl⟩ := halves
      exact .inr ⟨x.toNat, fits_of_ofWord? decoded, nibble word 1, nibble_lt word 1, nibble other 1,
        nibble_lt other 1, toNat_of_shiftRight decoded, toNat_of_shiftRight decodedToo⟩
    · have fixed := digits_eq_of_ne_shiftRight fun x same => halves ⟨x, same⟩
      left
      apply eq_of_wordDigits
      rw [wordDigits_of_ofWord? decoded, wordDigits_of_ofWord? decodedToo, fixed]
  · rintro (rfl | ⟨x, register, y, spare, z, unused, written, writtenToo⟩)
    · exact decoded
    · rw [← decoded, ofWord?_of_toNat register spare written,
        ofWord?_of_toNat register unused writtenToo]

example : ofWord? 0x8126 = ofWord? 0x81F6 := by decide

end Chip8.Instruction
