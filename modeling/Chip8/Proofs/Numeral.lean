import Chip8.Numeral
import Mathlib.Algebra.Group.Nat.Defs

/-!
Numbers read back from their text. Reading the digits of a number gives the number, leading zeros
change nothing, and a width that a number fits is the width of its text (`read?_hex`, `length_hex`).
-/
namespace Chip8.Numeral

/-! ### Characters -/

theorem digit_mem (value : Nat) : digit value ∈ alphabet := by
  rw [digit, List.getD_eq_getElem?_getD]
  cases found : alphabet[value]? with
  | some c => exact List.mem_of_getElem? found
  | none => decide

theorem digit?_digit {value : Nat} (small : value < 16) : digit? (digit value) = some value := by
  revert value
  decide

/-- The characters of a number are digits of its base. -/
theorem exists_digit_of_mem {base value : Nat} (proper : 2 ≤ base) {c : Char}
    (among : c ∈ digits base value) : ∃ d < base, c = digit d := by
  induction value using Nat.strongRecOn with
  | ind value ih =>
    rcases Nat.lt_or_ge value base with small | large
    · rw [digits_of_lt small] at among
      exact ⟨value, small, List.mem_singleton.mp among⟩
    · rw [digits_of_le proper large] at among
      rcases List.mem_append.mp among with before | last
      · exact ih _ (Nat.div_lt_self (by omega) proper) before
      · exact ⟨value % base, Nat.mod_lt _ (by omega), List.mem_singleton.mp last⟩

theorem mem_alphabet_of_digits {base value : Nat} (proper : 2 ≤ base) {c : Char}
    (among : c ∈ digits base value) : c ∈ alphabet := by
  obtain ⟨d, _, rfl⟩ := exists_digit_of_mem proper among
  exact digit_mem d

theorem mem_alphabet_of_hex {width value : Nat} {c : Char} (among : c ∈ (hex width value).toList) :
    c ∈ alphabet := by
  simp only [hex, String.toList_ofList, List.leftpad, List.mem_append, List.mem_replicate] at among
  rcases among with ⟨_, rfl⟩ | among
  · decide
  · exact mem_alphabet_of_digits (by decide) among

/-! A character that is no digit stands in no number. -/

theorem not_mem_hex {c : Char} (other : c ∉ alphabet) (width value : Nat) :
    c ∉ (hex width value).toList :=
  fun among => other (mem_alphabet_of_hex among)

theorem not_mem_decimal {c : Char} (other : c ∉ alphabet) (value : Nat) :
    c ∉ (decimal value).toList := by
  rw [decimal, String.toList_ofList]
  exact fun among => other (mem_alphabet_of_digits (by decide) among)

/-! ### Reading -/

theorem readOn?_append (base value : Nat) (front back : List Char) :
    readOn? base value (front ++ back) =
      (readOn? base value front).bind fun read => readOn? base read back := by
  induction front generalizing value with
  | nil => rfl
  | cons c rest ih =>
    rw [List.cons_append, readOn?, readOn?]
    cases digit? c with
    | none => rfl
    | some d =>
      dsimp only
      split
      · exact ih (value * base + d)
      · rfl

theorem readOn?_digit {base d : Nat} (value : Nat) (known : base ≤ 16) (small : d < base) :
    readOn? base value [digit d] = some (value * base + d) := by
  simp only [readOn?, digit?_digit (Nat.lt_of_lt_of_le small known), if_pos small]

theorem readOn?_digits {base : Nat} (proper : 2 ≤ base) (known : base ≤ 16) (value : Nat) :
    readOn? base 0 (digits base value) = some value := by
  induction value using Nat.strongRecOn with
  | ind value ih =>
    rcases Nat.lt_or_ge value base with small | large
    · rw [digits_of_lt small, readOn?_digit 0 known small, Nat.zero_mul, Nat.zero_add]
    · have front := ih (value / base) (Nat.div_lt_self (by omega) proper)
      rw [digits_of_le proper large, readOn?_append, front, Option.bind_some,
        readOn?_digit _ known (Nat.mod_lt _ (by omega)), Nat.div_add_mod']

theorem readOn?_zeros {base : Nat} (proper : 2 ≤ base) (count : Nat) (text : List Char) :
    readOn? base 0 (List.replicate count '0' ++ text) = readOn? base 0 text := by
  induction count with
  | zero => rfl
  | succ count ih =>
    have zero : digit? '0' = some 0 := rfl
    rw [List.replicate_succ, List.cons_append, readOn?, zero]
    dsimp only
    rw [if_pos (by omega), Nat.zero_mul, ih]

theorem digits_ne_nil (base value : Nat) : digits base value ≠ [] := by
  unfold digits
  split <;> simp

theorem read?_eq_readOn? {base : Nat} {text : List Char} (some : text ≠ []) :
    read? base text = readOn? base 0 text := by
  cases text with
  | nil => exact absurd rfl some
  | cons c rest => rfl

theorem read?_digits {base : Nat} (proper : 2 ≤ base) (known : base ≤ 16) (value : Nat) :
    read? base (digits base value) = some value := by
  rw [read?_eq_readOn? (digits_ne_nil base value), readOn?_digits proper known]

theorem readBelow?_digits {limit value : Nat} (small : value < limit) :
    readBelow? limit (digits 10 value) = some value := by
  unfold readBelow?
  dsimp only
  split
  · next rest signed =>
    have plus : '+' ∈ digits 10 value := by simp [signed]
    exact absurd (mem_alphabet_of_digits (by decide) plus) (by decide)
  · rw [read?_digits (by decide) (by decide), Option.filter_some, if_pos (decide_eq_true small)]

/-- Hexadecimal text reads back, whatever its width. -/
theorem read?_hex (width value : Nat) : read? 16 (hex width value).toList = some value := by
  have padded : (hex width value).toList =
      List.replicate (width - (digits 16 value).length) '0' ++ digits 16 value := by
    rw [hex, String.toList_ofList, List.leftpad]
  rw [padded, read?_eq_readOn? (by simp [digits_ne_nil]), readOn?_zeros (by decide),
    readOn?_digits (by decide) (by decide)]

/-! ### Widths -/

theorem length_digits_le {base width value : Nat} (proper : 2 ≤ base)
    (small : value < base ^ (width + 1)) : (digits base value).length ≤ width + 1 := by
  induction width generalizing value with
  | zero =>
    rw [digits_of_lt (by simpa using small)]
    exact Nat.le_refl 1
  | succ width ih =>
    rcases Nat.lt_or_ge value base with single | large
    · rw [digits_of_lt single]
      exact Nat.le_add_left 1 _
    · have front : value / base < base ^ (width + 1) := by
        rw [Nat.div_lt_iff_lt_mul (by omega), ← Nat.pow_succ]
        exact small
      rw [digits_of_le proper large, List.length_append]
      exact Nat.add_le_add_right (ih front) 1

theorem length_hex {width value : Nat} (small : value < 16 ^ (width + 1)) :
    (hex (width + 1) value).toList.length = width + 1 := by
  have bound := length_digits_le (by decide) small
  simp only [hex, String.toList_ofList, List.leftpad, List.length_append, List.length_replicate]
  omega

theorem le_length_hex (width value : Nat) : width ≤ (hex width value).toList.length := by
  simp only [hex, String.toList_ofList, List.leftpad, List.length_append, List.length_replicate]
  omega

end Chip8.Numeral
