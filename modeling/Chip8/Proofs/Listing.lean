import Chip8.Listing
import Chip8.Proofs.Lines
import Chip8.Proofs.Numeral

/-!
The lines of a listing. Line `i` shows the word of the bytes `2 * i` and `2 * i + 1` at its address
(`getElem?_ofBytes`). No line has a line end inside of it, so splitting a listing at its line ends
gives the lines back (`splitOn_listing`).
-/
namespace Chip8

/-! ### Characters of a line -/

namespace Numeral

@[simp] theorem lineEnd_not_mem_decimal (value : Nat) : '\n' ∉ (decimal value).toList :=
  not_mem_decimal (by decide) value

@[simp] theorem lineEnd_not_mem_hex (width value : Nat) : '\n' ∉ (hex width value).toList :=
  not_mem_hex (by decide) width value

end Numeral

@[simp] theorem Instruction.lineEnd_not_mem_mnemonic (instruction : Instruction) :
    '\n' ∉ instruction.mnemonic.toList := by
  cases instruction <;>
    simp [mnemonic, registerName, byteText, addressText, Numeral.hexLiteral]

theorem Instruction.mnemonic_ne_unknown (instruction : Instruction) :
    instruction.mnemonic ≠ "???" := by
  intro same
  have characters := congrArg String.toList same
  cases instruction <;> simp [mnemonic] at characters

namespace ListingLine

theorem lineEnd_not_mem_text (line : ListingLine) : '\n' ∉ line.text.toList := by
  cases line with
  | word address value =>
    cases decoded : Instruction.ofWord? value with
    | some instruction => simp [text, wordColumn, decoded, Numeral.hexLiteral]
    | none => simp [text, wordColumn, decoded, Numeral.hexLiteral]
  | byte address value => simp [text, Numeral.hexLiteral]

/-! ### Lines -/

theorem getElem?_ofBytes {code : List UInt8} {i : Nat} (inside : 2 * i + 1 < code.length)
    (address : Nat) :
    (ofBytes address code)[i]? =
      some (.word (address + 2 * i) (Instruction.wordOfBytes code[2 * i] code[2 * i + 1])) := by
  induction i generalizing address code with
  | zero =>
    match code with
    | high :: low :: rest => rfl
  | succ i ih =>
    match code with
    | high :: low :: rest =>
      have further : 2 * i + 1 < rest.length := by
        simp only [List.length_cons] at inside
        omega
      have shifted : address + 2 + 2 * i = address + 2 * (i + 1) := by omega
      rw [ofBytes, List.getElem?_cons_succ, ih further, shifted]
      rfl

theorem toList_listing (code : List UInt8) :
    (listing code).toList =
      ((ofBytes programStart code).map fun line => line.text.toList).flatMap (· ++ ['\n']) := by
  simp [listing, String.toList_join, List.flatMap_map]

theorem splitOn_listing (code : List UInt8) :
    (listing code).toList.splitOn '\n' =
      (ofBytes programStart code).map (fun line => line.text.toList) ++ [[]] := by
  rw [toList_listing, splitOn_lines]
  intro line among
  obtain ⟨shown, _, rfl⟩ := List.mem_map.mp among
  exact shown.lineEnd_not_mem_text

theorem getElem?_splitOn_listing {code : List UInt8} {i : Nat} (inside : 2 * i + 1 < code.length) :
    ((listing code).toList.splitOn '\n')[i]? =
      some (word (programStart + 2 * i)
        (Instruction.wordOfBytes code[2 * i] code[2 * i + 1])).text.toList := by
  have shown := getElem?_ofBytes inside programStart
  have among := (List.getElem?_eq_some_iff.mp shown).1
  rw [splitOn_listing, List.getElem?_append_left (by simpa using among), List.getElem?_map, shown,
    Option.map_some]

end ListingLine

end Chip8
