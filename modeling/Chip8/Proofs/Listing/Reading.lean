import Chip8.Proofs.Instruction.Words
import Chip8.Proofs.Listing

/-!
Reading a listing. A line has an address in front of a colon, then the digits of its bytes, and behind
them what the bytes mean (`addressColumn`, `bytesColumn`, `textColumn`). Reading the digits of all lines
gives the program (`readLines?_ofBytes`), so nothing of it is lost in its listing.
-/
namespace Chip8.ListingLine
open Numeral (hex hexLiteral read?)

def addressColumn (line : List Char) : List Char := line.takeWhile (· ≠ ':')

def bytesColumn (line : List Char) : List Char :=
  ((line.dropWhile (· ≠ ':')).drop 2).takeWhile (· ≠ ' ')

def textColumn (line : List Char) : List Char :=
  ((line.dropWhile (· ≠ ':')).drop 2).dropWhile (· ≠ ' ')

/-- The address of a line, a hexadecimal number behind its mark. -/
def readAddress? (line : List Char) : Option Nat :=
  match addressColumn line with
  | '0' :: 'x' :: digits => read? 16 digits
  | _ => none

/-- The bytes of a line: two hexadecimal digits are one byte, and four are two. -/
def readBytes? (line : List Char) : Option (List UInt8) :=
  match (bytesColumn line).length, read? 16 (bytesColumn line) with
  | 2, some value => some [UInt8.ofNat value]
  | 4, some value => some [UInt8.ofNat (value / 0x100), UInt8.ofNat (value % 0x100)]
  | _, _ => none

theorem readBytes?_of_two {line : List Char} {value : Nat} (small : value < 0x100)
    (column : bytesColumn line = (hex 2 value).toList) :
    readBytes? line = some [UInt8.ofNat value] := by
  have length : (hex 2 value).toList.length = 2 := Numeral.length_hex small
  simp [readBytes?, column, length, Numeral.read?_hex]

theorem readBytes?_of_four {line : List Char} {value : Nat} (small : value < 0x10000)
    (column : bytesColumn line = (hex 4 value).toList) :
    readBytes? line = some [UInt8.ofNat (value / 0x100), UInt8.ofNat (value % 0x100)] := by
  have length : (hex 4 value).toList.length = 4 := Numeral.length_hex small
  simp [readBytes?, column, length, Numeral.read?_hex]

/-- The bytes of lines, one line after another. -/
def readLines? : List (List Char) → Option (List UInt8)
  | [] => some []
  | line :: rest => do
    let bytes ← readBytes? line
    let others ← readLines? rest
    return bytes ++ others

/-- A line shows two bytes as a word at an address. -/
structure ShowsWord (line : List Char) (address : Nat) (high low : UInt8) : Prop where
  address : readAddress? line = some address
  digits : (bytesColumn line).length = 4
  bytes : readBytes? line = some [high, low]
  unknown : textColumn line = "  ???".toList ↔
    Instruction.ofWord? (Instruction.wordOfBytes high low) = none

/-- A line shows a single byte at an address. -/
structure ShowsByte (line : List Char) (address : Nat) (byte : UInt8) : Prop where
  address : readAddress? line = some address
  digits : (bytesColumn line).length = 2
  bytes : readBytes? line = some [byte]
  marked : "    DB ".toList <+: textColumn line

/-! ### The columns of a line -/

theorem columns_of_parts {front digits rest : List Char} (colon : ':' ∉ front) (blank : ' ' ∉ digits) :
    let line := front ++ ':' :: ' ' :: (digits ++ ' ' :: rest)
    addressColumn line = front ∧ bytesColumn line = digits ∧ textColumn line = ' ' :: rest := by
  intro line
  obtain ⟨before, behind⟩ :=
    takeWhile_before colon (':' :: ' ' :: (digits ++ ' ' :: rest)) (by simp)
  obtain ⟨shown, left⟩ := takeWhile_before blank (' ' :: rest) (by simp)
  refine ⟨before, ?_, ?_⟩
  · rw [bytesColumn, behind]
    exact shown
  · rw [textColumn, behind]
    exact left

theorem colon_not_mem_hexLiteral (width value : Nat) : ':' ∉ (hexLiteral width value).toList := by
  intro among
  rw [hexLiteral, String.toList_append, List.mem_append] at among
  rcases among with marked | among
  · exact absurd marked (by decide)
  · exact Numeral.not_mem_hex (by decide) width value among

theorem readAddress?_of_column {line : List Char} {width address : Nat}
    (shown : addressColumn line = (hexLiteral width address).toList) :
    readAddress? line = some address := by
  rw [hexLiteral, String.toList_append] at shown
  simp only [readAddress?, shown]
  exact Numeral.read?_hex width address

theorem columns_word (address : Nat) (value : UInt16) :
    let line := (word address value).text.toList
    addressColumn line = (hexLiteral 3 address).toList ∧
      bytesColumn line = (hex 4 value.toNat).toList ∧
      textColumn line = ' ' :: ' ' :: (wordColumn value).toList := by
  have parts : (word address value).text.toList = (hexLiteral 3 address).toList ++
      ':' :: ' ' :: ((hex 4 value.toNat).toList ++ ' ' :: ' ' :: (wordColumn value).toList) := by
    simp [text]
  rw [parts]
  exact columns_of_parts (colon_not_mem_hexLiteral 3 address)
    (Numeral.not_mem_hex (by decide) 4 value.toNat)

theorem columns_byte (address : Nat) (value : UInt8) :
    let line := (byte address value).text.toList
    addressColumn line = (hexLiteral 3 address).toList ∧
      bytesColumn line = (hex 2 value.toNat).toList ∧
      textColumn line = "    DB ".toList ++ (hexLiteral 2 value.toNat).toList := by
  have parts : (byte address value).text.toList = (hexLiteral 3 address).toList ++
      ':' :: ' ' :: ((hex 2 value.toNat).toList ++
        ' ' :: ("   DB ".toList ++ (hexLiteral 2 value.toNat).toList)) := by
    simp [text]
  rw [parts]
  exact columns_of_parts (colon_not_mem_hexLiteral 3 address)
    (Numeral.not_mem_hex (by decide) 2 value.toNat)

theorem shows_word (address : Nat) (high low : UInt8) :
    ShowsWord (word address (Instruction.wordOfBytes high low)).text.toList address high low := by
  obtain ⟨front, digits, behind⟩ := columns_word address (Instruction.wordOfBytes high low)
  have small := (Instruction.wordOfBytes high low).toNat_lt
  have value := Instruction.toNat_wordOfBytes high low
  refine ⟨readAddress?_of_column front, by rw [digits, Numeral.length_hex small], ?_, ?_⟩
  · have lowSmall := low.toNat_lt
    have first : (256 * high.toNat + low.toNat) / 0x100 = high.toNat := by omega
    have second : (256 * high.toNat + low.toNat) % 0x100 = low.toNat := by omega
    rw [readBytes?_of_four small digits, value, first, second, UInt8.ofNat_toNat, UInt8.ofNat_toNat]
  · rw [behind]
    cases decoded : Instruction.ofWord? (Instruction.wordOfBytes high low) with
    | none => simp [wordColumn, decoded]
    | some instruction =>
      have named := instruction.mnemonic_ne_unknown
      simp only [← String.toList_inj, ne_eq] at named
      simpa [wordColumn, decoded] using named

theorem shows_byte (address : Nat) (value : UInt8) :
    ShowsByte (byte address value).text.toList address value := by
  obtain ⟨front, digits, behind⟩ := columns_byte address value
  have small := value.toNat_lt
  refine ⟨readAddress?_of_column front, by rw [digits, Numeral.length_hex small], ?_, ?_⟩
  · rw [readBytes?_of_two small digits, UInt8.ofNat_toNat]
  · rw [behind]
    exact List.prefix_append ..

/-! ### The lines of a listing -/

theorem length_ofBytes (address : Nat) (code : List UInt8) :
    (ofBytes address code).length = (code.length + 1) / 2 := by
  induction address, code using ofBytes.induct with
  | case1 => rfl
  | case2 => simp [ofBytes]
  | case3 address high low rest ih =>
    rw [ofBytes, List.length_cons, ih, List.length_cons, List.length_cons]
    omega

theorem getElem?_ofBytes_last {code : List UInt8} {i : Nat} (last : 2 * i + 1 = code.length)
    (address : Nat) : (ofBytes address code)[i]? = some (.byte (address + 2 * i) code[2 * i]) := by
  induction i generalizing address code with
  | zero =>
    match code with
    | [single] => rfl
  | succ i ih =>
    match code with
    | high :: low :: rest =>
      have shifted : address + 2 + 2 * i = address + 2 * (i + 1) := by omega
      have further : 2 * i + 1 = rest.length := by
        simp only [List.length_cons] at last
        omega
      rw [ofBytes, List.getElem?_cons_succ, ih further, shifted]
      rfl

theorem readLines?_ofBytes (address : Nat) (code : List UInt8) :
    readLines? ((ofBytes address code).map fun line => line.text.toList) = some code := by
  induction address, code using ofBytes.induct with
  | case1 => rfl
  | case2 address single =>
    have read := (shows_byte address single).bytes
    simp [ofBytes, readLines?, read]
  | case3 address high low rest ih =>
    have read := (shows_word address high low).bytes
    simp [ofBytes, readLines?, read, ih]

theorem textLines_listing (code : List UInt8) :
    textLines (listing code) = (ofBytes programStart code).map fun line => line.text.toList := by
  apply textLines_of_lines (toList_listing code)
  intro line among
  obtain ⟨drawn, _, rfl⟩ := List.mem_map.mp among
  exact drawn.lineEnd_not_mem_text

/-- Nothing is lost in the listing of a byte string, however long. It has one line with an end for every
    two bytes; the address in each line reads back, and so do its digits, four for a word and two for a
    last byte without a partner, which together give the bytes. So listings differ where programs do.
    A word is marked as unknown exactly if it is no instruction. -/
theorem listing_is_lossless (code : List UInt8) :
    let lines := textLines (listing code)
    (listing code).toList = lines.flatMap (· ++ ['\n']) ∧ (∀ line ∈ lines, '\n' ∉ line) ∧
    lines.length = (code.length + 1) / 2 ∧
    (∀ i high low, code[2 * i]? = some high → code[2 * i + 1]? = some low →
      ∃ line, lines[i]? = some line ∧ ShowsWord line (0x200 + 2 * i) high low) ∧
    (∀ i last, code[2 * i]? = some last → code.length = 2 * i + 1 →
      ∃ line, lines[i]? = some line ∧ ShowsByte line (0x200 + 2 * i) last) ∧
    readLines? lines = some code ∧
    ∀ other, listing other = listing code → other = code := by
  intro lines
  have shown : lines = (ofBytes programStart code).map fun line => line.text.toList :=
    textLines_listing code
  have read : readLines? lines = some code := by rw [shown, readLines?_ofBytes]
  have line {i : Nat} {drawn : ListingLine} (found : (ofBytes programStart code)[i]? = some drawn) :
      lines[i]? = some drawn.text.toList := by
    rw [shown, List.getElem?_map, found, Option.map_some]
  refine ⟨by rw [shown, toList_listing], ?_, ?_, ?_, ?_, read, ?_⟩
  · intro line among
    rw [shown] at among
    obtain ⟨drawn, _, rfl⟩ := List.mem_map.mp among
    exact drawn.lineEnd_not_mem_text
  · rw [shown, List.length_map, length_ofBytes]
  · intro i high low first second
    obtain ⟨inside, rfl⟩ := List.getElem?_eq_some_iff.mp second
    obtain ⟨_, rfl⟩ := List.getElem?_eq_some_iff.mp first
    exact ⟨_, line (getElem?_ofBytes inside programStart), shows_word _ _ _⟩
  · intro i last single length
    obtain ⟨_, rfl⟩ := List.getElem?_eq_some_iff.mp single
    exact ⟨_, line (getElem?_ofBytes_last length.symm programStart), shows_byte _ _⟩
  · intro other same
    have readOther := readLines?_ofBytes programStart other
    rw [← textLines_listing, same] at readOther
    exact Option.some.inj (readOther.symm.trans read)

end Chip8.ListingLine
