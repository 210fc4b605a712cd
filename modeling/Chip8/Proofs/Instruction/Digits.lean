import Chip8.Instruction.Decode

/-!
The instruction table read in both directions. `digits` writes an instruction as the four
hexadecimal digits of its word, and decoding is reading them back: a word stands for an instruction
exactly when its digits are those of the instruction (`ofWord?_eq_some_iff`). Only `8xy6` has a
digit of its own choice. What decoding yields has operands that fit their digits
(`fits_of_ofWord?`), which is all that keeps a register number below sixteen.
-/
namespace Chip8.Instruction

/-- The digits of a word, the most significant one first. -/
def wordDigits (word : UInt16) : Nat × Nat × Nat × Nat :=
  (nibble word 3, nibble word 2, nibble word 1, nibble word 0)

/-- The digits of a word with a register and a byte. -/
def byteDigits (family : Nat) (x kk : UInt8) : Nat × Nat × Nat × Nat :=
  (family, x.toNat, kk.toNat / 16, kk.toNat % 16)

/-- The digits of a word with an address. -/
def addressDigits (family : Nat) (nnn : UInt16) : Nat × Nat × Nat × Nat :=
  (family, nnn.toNat / 0x100, nnn.toNat / 0x10 % 16, nnn.toNat % 16)

/-- The digits that an instruction is written with; `spare` is the one that `8xy6` leaves open. -/
def digits (spare : Nat) : Instruction → Nat × Nat × Nat × Nat
  | clearDisplay => (0x0, 0x0, 0xE, 0x0)
  | ret => (0x0, 0x0, 0xE, 0xE)
  | jump nnn => addressDigits 0x1 nnn
  | call nnn => addressDigits 0x2 nnn
  | skipIfByte x kk => byteDigits 0x3 x kk
  | skipUnlessByte x kk => byteDigits 0x4 x kk
  | skipIfSame x y => (0x5, x.toNat, y.toNat, 0x0)
  | setByte x kk => byteDigits 0x6 x kk
  | addByte x kk => byteDigits 0x7 x kk
  | copy x y => (0x8, x.toNat, y.toNat, 0x0)
  | or x y => (0x8, x.toNat, y.toNat, 0x1)
  | and x y => (0x8, x.toNat, y.toNat, 0x2)
  | xor x y => (0x8, x.toNat, y.toNat, 0x3)
  | add x y => (0x8, x.toNat, y.toNat, 0x4)
  | subtract x y => (0x8, x.toNat, y.toNat, 0x5)
  | shiftRight x => (0x8, x.toNat, spare, 0x6)
  | skipUnlessSame x y => (0x9, x.toNat, y.toNat, 0x0)
  | setIndex nnn => addressDigits 0xA nnn
  | jumpDisplaced nnn => addressDigits 0xB nnn
  | random x kk => byteDigits 0xC x kk
  | draw x y n => (0xD, x.toNat, y.toNat, n.toNat)
  | skipIfKeyDown x => (0xE, x.toNat, 0x9, 0xE)
  | skipIfKeyUp x => (0xE, x.toNat, 0xA, 0x1)
  | readDelay x => (0xF, x.toNat, 0x0, 0x7)
  | awaitKey x => (0xF, x.toNat, 0x0, 0xA)
  | setDelay x => (0xF, x.toNat, 0x1, 0x5)
  | setSound x => (0xF, x.toNat, 0x1, 0x8)
  | addIndex x => (0xF, x.toNat, 0x1, 0xE)
  | pointGlyph x => (0xF, x.toNat, 0x2, 0x9)
  | storeDigits x => (0xF, x.toNat, 0x3, 0x3)
  | storeRegisters x => (0xF, x.toNat, 0x5, 0x5)
  | loadRegisters x => (0xF, x.toNat, 0x6, 0x5)

/-- Registers and row counts are one digit, addresses three. -/
def Fits : Instruction → Prop
  | clearDisplay | ret => True
  | jump nnn | call nnn | setIndex nnn | jumpDisplaced nnn => nnn.toNat < 0x1000
  | skipIfByte x _ | skipUnlessByte x _ | setByte x _ | addByte x _ | random x _ => x.toNat < 16
  | skipIfSame x y | skipUnlessSame x y | copy x y | or x y | and x y | xor x y | add x y
  | subtract x y => x.toNat < 16 ∧ y.toNat < 16
  | draw x y n => x.toNat < 16 ∧ y.toNat < 16 ∧ n.toNat < 16
  | shiftRight x | skipIfKeyDown x | skipIfKeyUp x | readDelay x | awaitKey x | setDelay x
  | setSound x | addIndex x | pointGlyph x | storeDigits x | storeRegisters x
  | loadRegisters x => x.toNat < 16

theorem nibble_lt (word : UInt16) (place : Nat) : nibble word place < 16 := Nat.mod_lt _ (by decide)

/-! ### Operands -/

theorem toNat_nibble (word : UInt16) (place : Nat) :
    (UInt8.ofNat (nibble word place)).toNat = nibble word place := by
  have small := nibble_lt word place
  simp only [UInt8.toNat_ofNat']
  omega

theorem toNat_address (word : UInt16) :
    (UInt16.ofNat (word.toNat % 0x1000)).toNat = word.toNat % 0x1000 := by
  simp only [UInt16.toNat_ofNat']
  omega

theorem byteDigits_ofNat (word : UInt16) (family : Nat) (x : UInt8) :
    byteDigits family x (UInt8.ofNat (word.toNat % 0x100)) =
      (family, x.toNat, nibble word 1, nibble word 0) := by
  simp only [byteDigits, nibble, UInt8.toNat_ofNat', Prod.mk.injEq, true_and]
  omega

theorem addressDigits_ofNat (word : UInt16) (family : Nat) :
    addressDigits family (UInt16.ofNat (word.toNat % 0x1000)) =
      (family, nibble word 2, nibble word 1, nibble word 0) := by
  simp only [addressDigits, nibble, UInt16.toNat_ofNat', Prod.mk.injEq, true_and]
  omega

theorem ofNat_of_byteDigits {word : UInt16} {kk : UInt8} (high : nibble word 1 = kk.toNat / 16)
    (low : nibble word 0 = kk.toNat % 16) : UInt8.ofNat (word.toNat % 0x100) = kk := by
  apply UInt8.toNat_inj.mp
  simp only [nibble, UInt8.toNat_ofNat'] at *
  omega

theorem ofNat_of_addressDigits {word nnn : UInt16} (high : nibble word 2 = nnn.toNat / 0x100)
    (middle : nibble word 1 = nnn.toNat / 0x10 % 16) (low : nibble word 0 = nnn.toNat % 16) :
    UInt16.ofNat (word.toNat % 0x1000) = nnn := by
  apply UInt16.toNat_inj.mp
  simp only [nibble, UInt16.toNat_ofNat'] at *
  omega

/-! ### Decoding -/

theorem fits_of_ofWord? {word : UInt16} {instruction : Instruction}
    (decoded : ofWord? word = some instruction) : instruction.Fits := by
  unfold ofWord? at decoded
  split at decoded
  all_goals cases decoded
  all_goals simp only [Fits, toNat_nibble, toNat_address, nibble_lt, and_self]
  all_goals omega

theorem wordDigits_of_ofWord? {word : UInt16} {instruction : Instruction}
    (decoded : ofWord? word = some instruction) :
    wordDigits word = instruction.digits (nibble word 1) := by
  unfold ofWord? at decoded
  split at decoded
  all_goals cases decoded
  all_goals simp_all only [digits, wordDigits, toNat_nibble, byteDigits_ofNat, addressDigits_ofNat]

theorem ofWord?_of_wordDigits {word : UInt16} {instruction : Instruction} {spare : Nat}
    (written : wordDigits word = instruction.digits spare) : ofWord? word = some instruction := by
  cases instruction
  all_goals
    simp only [wordDigits, digits, byteDigits, addressDigits, Prod.mk.injEq] at written
    obtain ⟨third, second, first, zeroth⟩ := written
  -- The operands of more than one digit are put together again; all others are digits as they stand.
  case jump nnn | call nnn | setIndex nnn | jumpDisplaced nnn =>
    simp [ofWord?, third, ofNat_of_addressDigits second first zeroth]
  case skipIfByte x kk | skipUnlessByte x kk | setByte x kk | addByte x kk | random x kk =>
    simp [ofWord?, third, second, ofNat_of_byteDigits first zeroth]
  all_goals simp [ofWord?, third, second, first, zeroth]

/-- A word stands for an instruction exactly when it has the digits of the instruction. -/
theorem ofWord?_eq_some_iff {word : UInt16} {instruction : Instruction} :
    ofWord? word = some instruction ↔ ∃ spare, wordDigits word = instruction.digits spare :=
  ⟨fun decoded => ⟨_, wordDigits_of_ofWord? decoded⟩,
    fun ⟨_, written⟩ => ofWord?_of_wordDigits written⟩

end Chip8.Instruction
