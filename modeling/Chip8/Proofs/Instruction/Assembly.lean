import Chip8.Instruction.Mnemonic
import Chip8.Proofs.Lines
import Chip8.Proofs.Numeral

/-!
Assembly text read back. The text of an instruction is a name and, behind a blank each, operands with
commas between them (`toList_mnemonic`). No operand has a comma in it and its text tells what it is, so
the name and the operands can be read off the text, and they belong to one instruction only. Reading
therefore inverts writing, whatever the operands (`ofMnemonic?_mnemonic`).
-/
namespace Chip8.Instruction
open Numeral (decimal hex hexLiteral read?)

/-- The names that stand first in assembly text. -/
inductive Name where
  | cls | ret | jp | call | se | sne | ld | add | or | and | xor | sub | shr | rnd | drw | skp | sknp
  deriving DecidableEq

namespace Name

def text : Name → String
  | cls => "CLS"
  | ret => "RET"
  | jp => "JP"
  | call => "CALL"
  | se => "SE"
  | sne => "SNE"
  | ld => "LD"
  | add => "ADD"
  | or => "OR"
  | and => "AND"
  | xor => "XOR"
  | sub => "SUB"
  | shr => "SHR"
  | rnd => "RND"
  | drw => "DRW"
  | skp => "SKP"
  | sknp => "SKNP"

def ofText? (text : List Char) : Option Name :=
  [cls, ret, jp, call, se, sne, ld, add, or, and, xor, sub, shr, rnd, drw, skp, sknp].find?
    fun name => name.text.toList = text

theorem ofText?_text (name : Name) : ofText? name.text.toList = some name := by
  cases name <;> decide

theorem blank_not_mem_text (name : Name) : ' ' ∉ name.text.toList := by
  cases name <;> decide

end Name

/-- What stands for an operand in assembly text: a register, a number, or a word for a part of the
    machine. -/
inductive Operand where
  | register (x : UInt8)
  | byte (kk : UInt8)
  | address (nnn : UInt16)
  | count (n : UInt8)
  | index | block | delay | sound | key | glyph | digits
  deriving DecidableEq

namespace Operand

def text : Operand → String
  | register x => registerName x
  | byte kk => byteText kk
  | address nnn => addressText nnn
  | count n => decimal n.toNat
  | index => "I"
  | block => "[I]"
  | delay => "DT"
  | sound => "ST"
  | key => "K"
  | glyph => "F"
  | digits => "B"

/-- The operand that a text stands for. A hexadecimal literal of two digits is a byte, and a longer one is
    an address. -/
def ofText? (text : List Char) : Option Operand :=
  match read? 10 text, text with
  | some n, _ => some (count (UInt8.ofNat n))
  | none, 'V' :: number => (read? 16 number).map fun x => register (UInt8.ofNat x)
  | none, '0' :: 'x' :: number =>
    (read? 16 number).map fun value =>
      if number.length ≤ 2 then byte (UInt8.ofNat value) else address (UInt16.ofNat value)
  | none, _ =>
    [index, block, delay, sound, key, glyph, digits].find? fun word => word.text.toList = text

theorem ofText?_text (operand : Operand) : ofText? operand.text.toList = some operand := by
  cases operand with
  | register x =>
    have spelled : (register x).text.toList = 'V' :: (hex 1 x.toNat).toList := by
      simp [text, registerName]
    have wordless : read? 10 ('V' :: (hex 1 x.toNat).toList) = none := rfl
    rw [spelled]
    simp only [ofText?, wordless, Numeral.read?_hex, Option.map_some, UInt8.ofNat_toNat]
  | byte kk =>
    have spelled : (byte kk).text.toList = '0' :: 'x' :: (hex 2 kk.toNat).toList := by
      simp [text, byteText, hexLiteral]
    have marked : read? 10 ('0' :: 'x' :: (hex 2 kk.toNat).toList) = none := rfl
    have short : (hex 2 kk.toNat).toList.length = 2 := Numeral.length_hex kk.toNat_lt
    rw [spelled]
    simp only [ofText?, marked, Numeral.read?_hex, Option.map_some, if_pos (Nat.le_of_eq short),
      UInt8.ofNat_toNat]
  | address nnn =>
    have spelled : (address nnn).text.toList = '0' :: 'x' :: (hex 3 nnn.toNat).toList := by
      simp [text, addressText, hexLiteral]
    have marked : read? 10 ('0' :: 'x' :: (hex 3 nnn.toNat).toList) = none := rfl
    have long : ¬ (hex 3 nnn.toNat).toList.length ≤ 2 :=
      Nat.not_le.mpr (Numeral.le_length_hex 3 nnn.toNat)
    rw [spelled]
    simp only [ofText?, marked, Numeral.read?_hex, Option.map_some, if_neg long,
      UInt16.ofNat_toNat]
  | count n =>
    have spelled : (count n).text.toList = Numeral.digits 10 n.toNat := String.toList_ofList
    have counted : read? 10 (Numeral.digits 10 n.toNat) = some n.toNat :=
      Numeral.read?_digits (by decide) (by decide) n.toNat
    rw [spelled]
    simp only [ofText?, counted, UInt8.ofNat_toNat]
  | index | block | delay | sound | key | glyph | digits => rfl

theorem comma_not_mem_text (operand : Operand) : ',' ∉ operand.text.toList := by
  have alphabet : ',' ∉ Numeral.alphabet := by decide
  have number := Numeral.not_mem_hex alphabet
  cases operand with
  | register x => simp [text, registerName, number]
  | byte kk => simp [text, byteText, hexLiteral, number]
  | address nnn => simp [text, addressText, hexLiteral, number]
  | count n => exact Numeral.not_mem_decimal alphabet n.toNat
  | index | block | delay | sound | key | glyph | digits => decide

end Operand

/-! ### The parts of a text -/

def parts : Instruction → Name × List Operand
  | clearDisplay => (.cls, [])
  | ret => (.ret, [])
  | jump nnn => (.jp, [.address nnn])
  | call nnn => (.call, [.address nnn])
  | skipIfByte x kk => (.se, [.register x, .byte kk])
  | skipUnlessByte x kk => (.sne, [.register x, .byte kk])
  | skipIfSame x y => (.se, [.register x, .register y])
  | setByte x kk => (.ld, [.register x, .byte kk])
  | addByte x kk => (.add, [.register x, .byte kk])
  | copy x y => (.ld, [.register x, .register y])
  | or x y => (.or, [.register x, .register y])
  | and x y => (.and, [.register x, .register y])
  | xor x y => (.xor, [.register x, .register y])
  | add x y => (.add, [.register x, .register y])
  | subtract x y => (.sub, [.register x, .register y])
  | shiftRight x => (.shr, [.register x])
  | skipUnlessSame x y => (.sne, [.register x, .register y])
  | setIndex nnn => (.ld, [.index, .address nnn])
  | jumpDisplaced nnn => (.jp, [.register 0, .address nnn])
  | random x kk => (.rnd, [.register x, .byte kk])
  | draw x y n => (.drw, [.register x, .register y, .count n])
  | skipIfKeyDown x => (.skp, [.register x])
  | skipIfKeyUp x => (.sknp, [.register x])
  | readDelay x => (.ld, [.register x, .delay])
  | awaitKey x => (.ld, [.register x, .key])
  | setDelay x => (.ld, [.delay, .register x])
  | setSound x => (.ld, [.sound, .register x])
  | addIndex x => (.add, [.index, .register x])
  | pointGlyph x => (.ld, [.glyph, .register x])
  | storeDigits x => (.ld, [.digits, .register x])
  | storeRegisters x => (.ld, [.block, .register x])
  | loadRegisters x => (.ld, [.register x, .block])

def ofParts? : Name → List Operand → Option Instruction
  | .cls, [] => some .clearDisplay
  | .ret, [] => some .ret
  | .jp, [.address nnn] => some (.jump nnn)
  | .jp, [.register x, .address nnn] => if x = 0 then some (.jumpDisplaced nnn) else none
  | .call, [.address nnn] => some (.call nnn)
  | .se, [.register x, .byte kk] => some (.skipIfByte x kk)
  | .se, [.register x, .register y] => some (.skipIfSame x y)
  | .sne, [.register x, .byte kk] => some (.skipUnlessByte x kk)
  | .sne, [.register x, .register y] => some (.skipUnlessSame x y)
  | .ld, [.register x, .byte kk] => some (.setByte x kk)
  | .ld, [.register x, .register y] => some (.copy x y)
  | .ld, [.register x, .delay] => some (.readDelay x)
  | .ld, [.register x, .key] => some (.awaitKey x)
  | .ld, [.register x, .block] => some (.loadRegisters x)
  | .ld, [.index, .address nnn] => some (.setIndex nnn)
  | .ld, [.delay, .register x] => some (.setDelay x)
  | .ld, [.sound, .register x] => some (.setSound x)
  | .ld, [.glyph, .register x] => some (.pointGlyph x)
  | .ld, [.digits, .register x] => some (.storeDigits x)
  | .ld, [.block, .register x] => some (.storeRegisters x)
  | .add, [.register x, .byte kk] => some (.addByte x kk)
  | .add, [.register x, .register y] => some (.add x y)
  | .add, [.index, .register x] => some (.addIndex x)
  | .or, [.register x, .register y] => some (.or x y)
  | .and, [.register x, .register y] => some (.and x y)
  | .xor, [.register x, .register y] => some (.xor x y)
  | .sub, [.register x, .register y] => some (.subtract x y)
  | .shr, [.register x] => some (.shiftRight x)
  | .rnd, [.register x, .byte kk] => some (.random x kk)
  | .drw, [.register x, .register y, .count n] => some (.draw x y n)
  | .skp, [.register x] => some (.skipIfKeyDown x)
  | .sknp, [.register x] => some (.skipIfKeyUp x)
  | _, _ => none

theorem ofParts?_parts (instruction : Instruction) :
    ofParts? instruction.parts.1 instruction.parts.2 = some instruction := by
  cases instruction <;> rfl

/-- Operands in a row, a blank before each and a comma between them. -/
def operandsText (operands : List Operand) : List Char :=
  [','].intercalate (operands.map fun operand => ' ' :: operand.text.toList)

/-- The register that `Bnnn` names in its text, though not in its word. -/
theorem toList_registerName_zero : (registerName 0).toList = ['V', '0'] := by
  have zero : Numeral.digits 16 0 = ['0'] := Numeral.digits_of_lt (by decide)
  simp [registerName, hex, zero]

theorem toList_mnemonic (instruction : Instruction) :
    instruction.mnemonic.toList =
      instruction.parts.1.text.toList ++ operandsText instruction.parts.2 := by
  cases instruction <;>
    simp [mnemonic, parts, operandsText, List.intercalate, Name.text, Operand.text,
      toList_registerName_zero]

/-! ### Reading -/

def readOperand? : List Char → Option Operand
  | ' ' :: text => Operand.ofText? text
  | _ => none

def readOperands? : List Char → Option (List Operand)
  | [] => some []
  | text => (text.splitOn ',').mapM readOperand?

/-- The instruction that an assembly text stands for. -/
def ofMnemonic? (text : List Char) : Option Instruction := do
  let name ← Name.ofText? (text.takeWhile (· ≠ ' '))
  let operands ← readOperands? (text.dropWhile (· ≠ ' '))
  ofParts? name operands

theorem exists_operandsText_cons (first : Operand) (rest : List Operand) :
    ∃ later, operandsText (first :: rest) = ' ' :: later := by
  cases rest with
  | nil => exact ⟨_, rfl⟩
  | cons second others => exact ⟨_, rfl⟩

theorem readOperands?_operandsText (operands : List Operand) :
    readOperands? (operandsText operands) = some operands := by
  cases operands with
  | nil => rfl
  | cons first rest =>
    have parts : (operandsText (first :: rest)).splitOn ',' =
        (first :: rest).map fun operand => ' ' :: operand.text.toList := by
      apply List.splitOn_intercalate
      · intro part among
        obtain ⟨operand, _, rfl⟩ := List.mem_map.mp among
        simpa using operand.comma_not_mem_text
      · simp
    have inverse : (readOperand? ∘ fun operand : Operand => ' ' :: operand.text.toList) =
        fun operand => pure (id operand) := funext Operand.ofText?_text
    obtain ⟨later, starts⟩ := exists_operandsText_cons first rest
    rw [starts] at parts ⊢
    simp only [readOperands?, parts]
    rw [List.mapM_map, inverse, List.mapM_pure, List.map_id]
    rfl

theorem ofMnemonic?_mnemonic (instruction : Instruction) :
    ofMnemonic? instruction.mnemonic.toList = some instruction := by
  have starts : ∀ c ∈ (operandsText instruction.parts.2).head?, c = ' ' := by
    cases instruction.parts.2 with
    | nil => simp [operandsText]
    | cons first rest =>
      obtain ⟨later, starts⟩ := exists_operandsText_cons first rest
      simp [starts]
  obtain ⟨front, behind⟩ := takeWhile_before instruction.parts.1.blank_not_mem_text _ starts
  rw [toList_mnemonic, ofMnemonic?, front, behind, Name.ofText?_text, readOperands?_operandsText]
  exact ofParts?_parts instruction

example : ofMnemonic? "LD V3, [I]".toList = some (.loadRegisters 3) := by decide

end Chip8.Instruction
