import Chip8.Terminal.Input

/-!
Typed text. A terminal sends the characters of a text in UTF-8. A text that fits one reading and has
no escape character in it gives one report for each character, the press of its key
(`reportsOfTyped_of_fits`).
-/
namespace Chip8.Terminal

def bytesOfTyped (text : String) : List UInt8 := text.toList.flatMap String.utf8EncodeChar

/-- The reports of a terminal at which a text is typed and nothing after it. -/
def reportsOfTyped (text : String) : List Report :=
  (Input.receive {} (bytesOfTyped text)).2

theorem decode?_utf8EncodeChar (c : Char) : decode? (String.utf8EncodeChar c) = some c := by
  simpa [decode?] using ByteArray.utf8DecodeChar?_utf8EncodeChar_append (b := .empty) (c := c)

namespace InputState

theorem read_character {bytes tail : List UInt8} {missing : Nat}
    (enough : tail.length = missing + 1) (all : ∀ byte ∈ tail, continues byte) :
    (character bytes missing).read tail =
      (idle, ((decode? (bytes ++ tail)).map keyReport).toList) := by
  induction missing generalizing bytes tail with
  | zero =>
    obtain ⟨byte, rfl⟩ := List.length_eq_one_iff.1 enough
    simp [InputState.read, step, resume, all byte (by simp)]
  | succ missing ih =>
    obtain ⟨byte, rest, rfl⟩ := List.exists_cons_of_length_eq_add_one enough
    have more : (character (bytes ++ [byte]) missing).read rest = _ :=
      ih (by simpa using enough) fun byte inside => all byte (List.mem_cons_of_mem _ inside)
    simp [InputState.read, step, resume, all byte (by simp), more]

theorem start_ofNat {n : Nat} (large : 0xC0 ≤ n) (small : n < 0xF8) :
    start (UInt8.ofNat n) =
      (character [UInt8.ofNat n] (if n < 0xE0 then 0 else if n < 0xF0 then 1 else 2), none) := by
  have whole : (UInt8.ofNat n).toNat = n := UInt8.toNat_ofNat_of_lt' (Nat.lt_trans small (by decide))
  have below (limit : UInt8) : UInt8.ofNat n < limit ↔ n < limit.toNat := by
    rw [UInt8.lt_iff_toNat_lt, whole]
  have other : UInt8.ofNat n ≠ 0x1B := by
    intro same
    have number : n = 0x1B := whole.symm.trans (congrArg UInt8.toNat same)
    omega
  have single : ¬ UInt8.ofNat n < 0x80 := fun low =>
    absurd (Nat.le_trans large (Nat.le_of_lt ((below 0x80).mp low))) (by decide)
  have continued : ¬ UInt8.ofNat n < 0xC0 := fun low => Nat.not_lt.mpr large ((below 0xC0).mp low)
  have known : UInt8.ofNat n < 0xF8 := (below 0xF8).mpr small
  have two : UInt8.ofNat n < 0xE0 ↔ n < 0xE0 := below 0xE0
  have three : UInt8.ofNat n < 0xF0 ↔ n < 0xF0 := below 0xF0
  simp only [start, if_neg other, if_neg single, if_neg continued, if_pos known, two, three]
  split
  · rfl
  · split <;> rfl

theorem continues_ofNat {n : Nat} (small : n < 0x40) : continues (UInt8.ofNat (n + 0x80)) := by
  have bounded : n + 0x80 < 0xC0 := Nat.add_lt_add_right small 0x80
  have whole : (UInt8.ofNat (n + 0x80)).toNat = n + 0x80 :=
    UInt8.toNat_ofNat_of_lt' (Nat.lt_trans bounded (by decide))
  simp only [continues, Bool.and_eq_true, decide_eq_true_iff, UInt8.lt_iff_toNat_lt,
    UInt8.le_iff_toNat_le, whole]
  exact ⟨Nat.le_add_left 0x80 n, bounded⟩

theorem read_lead {n : Nat} {tail : List UInt8} {c : Char} (large : 0xC0 ≤ n) (small : n < 0xF8)
    (enough : tail.length = (if n < 0xE0 then 0 else if n < 0xF0 then 1 else 2) + 1)
    (all : ∀ byte ∈ tail, continues byte) (whole : decode? (UInt8.ofNat n :: tail) = some c) :
    idle.read (UInt8.ofNat n :: tail) = (idle, [keyReport c]) := by
  simp [InputState.read, step, start_ofNat large small, read_character enough all, whole]

theorem read_ascii {c : Char} (low : c.val.toNat < 0x80) (plain : c ≠ '\x1b') :
    idle.read [UInt8.ofNat c.val.toNat] = (idle, [keyReport c]) := by
  have whole : (UInt8.ofNat c.val.toNat).toNat = c.val.toNat :=
    UInt8.toNat_ofNat_of_lt' (Nat.lt_trans low (by decide))
  have same : Char.ofUInt8 (UInt8.ofNat c.val.toNat) = c := by
    apply Char.ext
    rw [← UInt32.toNat_inj]
    exact (UInt8.toNat_toUInt32 _).trans whole
  have other : UInt8.ofNat c.val.toNat ≠ 0x1B := by
    intro equal
    rw [equal] at same
    exact plain same.symm
  have below : UInt8.ofNat c.val.toNat < 0x80 := by
    rw [UInt8.lt_iff_toNat_lt, whole]
    exact low
  simp only [InputState.read, step, start, if_neg other, if_pos below, same]
  rfl

theorem read_utf8EncodeChar {c : Char} (plain : c ≠ '\x1b') :
    idle.read (String.utf8EncodeChar c) = (idle, [keyReport c]) := by
  have back := decode?_utf8EncodeChar c
  have limit : c.val.toNat < 0x110000 := by
    have valid := c.valid
    simp only [UInt32.isValidChar, Nat.isValidChar] at valid
    omega
  have tail (k : Nat) : continues (UInt8.ofNat (k % 0x40 + 0x80)) :=
    continues_ofNat (Nat.mod_lt _ (by decide))
  unfold String.utf8EncodeChar at back ⊢
  dsimp only at back ⊢
  by_cases one : c.val.toNat ≤ 0x7F
  · rw [if_pos one]
    exact read_ascii (by omega) plain
  by_cases two : c.val.toNat ≤ 0x7FF
  · rw [if_neg one, if_pos two] at back ⊢
    refine read_lead (by omega) (by omega) ?_ ?_ back
    · rw [if_pos (by omega)]
      rfl
    · simp only [List.forall_mem_singleton]
      exact tail _
  by_cases three : c.val.toNat ≤ 0xFFFF
  · rw [if_neg one, if_neg two, if_pos three] at back ⊢
    refine read_lead (by omega) (by omega) ?_ ?_ back
    · rw [if_neg (by omega), if_pos (by omega)]
      rfl
    · simp only [List.forall_mem_cons]
      exact ⟨tail _, tail _, by simp⟩
  · rw [if_neg one, if_neg two, if_neg three] at back ⊢
    refine read_lead (by omega) (by omega) ?_ ?_ back
    · rw [if_neg (by omega), if_neg (by omega)]
      rfl
    · simp only [List.forall_mem_cons]
      exact ⟨tail _, tail _, tail _, by simp⟩

theorem read_typed {typed : List Char} (plain : '\x1b' ∉ typed) :
    idle.read (typed.flatMap String.utf8EncodeChar) =
      (idle, typed.map keyReport) := by
  induction typed with
  | nil => rfl
  | cons c rest ih =>
    rw [List.mem_cons, not_or] at plain
    simp [List.flatMap_cons, read_append, read_utf8EncodeChar (Ne.symm plain.1), ih plain.2]

end InputState

theorem reportsOfTyped_of_fits {text : String} (fits : (bytesOfTyped text).length ≤ readingLimit)
    (plain : '\x1b' ∉ text.toList) : reportsOfTyped text = text.toList.map keyReport := by
  have all : (bytesOfTyped text).take readingLimit = bytesOfTyped text :=
    List.take_of_length_le fits
  have whole : InputState.idle.read (bytesOfTyped text) = (.idle, text.toList.map keyReport) :=
    InputState.read_typed plain
  by_cases none : bytesOfTyped text = []
  · rw [none] at whole
    simpa [reportsOfTyped, none, Input.receive, InputState.read] using whole
  · rw [reportsOfTyped, Input.receive, if_neg none, List.nil_append, Input.readOn, all, whole]
    by_cases short : (bytesOfTyped text).length < readingLimit
    · simp [short, InputState.pause]
    · simp [short, show ¬ readingLimit < (bytesOfTyped text).length by omega]

end Chip8.Terminal
