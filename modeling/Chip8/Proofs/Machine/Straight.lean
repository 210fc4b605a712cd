import Chip8.Proofs.Instruction.Words
import Chip8.Proofs.Machine.Bounds
import Chip8.Proofs.Machine.Failure
import Chip8.Proofs.Machine.Program

/-!
Straight-line programs: words that only compute, draw nothing and lead nowhere but to the next word. A
machine goes through such a program word by word (`Stands.step`) and stops behind the last one, where
memory holds nothing but zeros or ends (`straight_line_runs_through`).
-/
namespace Chip8

namespace Instruction

/-- The words of straight-line programs: `00E0`, `6xkk`, `7xkk`, `Cxkk`, `8xy0` to `8xy6`, `Annn`,
    `Fx07`, `Fx15`, `Fx18`, `Fx1E` and `Fx29`. -/
inductive StraightWord (word : UInt16) : Prop where
  | clearDisplay (digits : wordDigits word = (0x0, 0x0, 0xE, 0x0))
  | byte {family x k l : Nat} (digits : wordDigits word = (family, x, k, l))
      (known : family = 0x6 ∨ family = 0x7 ∨ family = 0xC)
  | arithmetic {x y n : Nat} (digits : wordDigits word = (0x8, x, y, n)) (known : n ≤ 6)
  | address {a b c : Nat} (digits : wordDigits word = (0xA, a, b, c))
  | device {x a b : Nat} (digits : wordDigits word = (0xF, x, a, b))
      (known : (a, b) ∈ [(0x0, 0x7), (0x1, 0x5), (0x1, 0x8), (0x1, 0xE), (0x2, 0x9)])

/-- The instructions of straight-line programs. -/
def IsStraight : Instruction → Prop
  | clearDisplay | setByte _ _ | addByte _ _ | random _ _ | copy _ _ | or _ _ | and _ _ | xor _ _
  | add _ _ | subtract _ _ | shiftRight _ | setIndex _ | readDelay _ | setDelay _ | setSound _
  | addIndex _ | pointGlyph _ => True
  | _ => False

theorem ofWord?_of_straight {word : UInt16} (straight : StraightWord word) :
    ∃ instruction, ofWord? word = some instruction ∧ instruction.IsStraight := by
  cases straight with
  | clearDisplay digits | address digits =>
    simp only [wordDigits, Prod.mk.injEq] at digits
    simp only [ofWord?, digits, Option.some.injEq, exists_eq_left', IsStraight]
  | byte digits known =>
    simp only [wordDigits, Prod.mk.injEq] at digits
    rcases known with rfl | rfl | rfl
    all_goals simp only [ofWord?, digits, Option.some.injEq, exists_eq_left', IsStraight]
  | @arithmetic x y n digits known =>
    simp only [wordDigits, Prod.mk.injEq] at digits
    obtain rfl | rfl | rfl | rfl | rfl | rfl | rfl :
        n = 0 ∨ n = 1 ∨ n = 2 ∨ n = 3 ∨ n = 4 ∨ n = 5 ∨ n = 6 := by omega
    all_goals simp only [ofWord?, digits, Option.some.injEq, exists_eq_left', IsStraight]
  | device digits known =>
    simp only [wordDigits, Prod.mk.injEq] at digits
    simp only [List.mem_cons, List.not_mem_nil, or_false, Prod.mk.injEq] at known
    rcases known with ⟨rfl, rfl⟩ | ⟨rfl, rfl⟩ | ⟨rfl, rfl⟩ | ⟨rfl, rfl⟩ | ⟨rfl, rfl⟩
    all_goals simp only [ofWord?, digits, Option.some.injEq, exists_eq_left', IsStraight]

theorem eq_of_clearDisplay {word : UInt16} (decoded : ofWord? word = some .clearDisplay) :
    word = 0x00E0 := by
  have digits := wordDigits_of_ofWord? decoded
  simp only [Instruction.digits, wordDigits, nibble, Prod.mk.injEq] at digits
  have small := word.toNat_lt
  apply UInt16.toNat_inj.mp
  show word.toNat = 0xE0
  omega

end Instruction

namespace Machine
open Instruction (StraightWord bytesOfWords)

/-! ### One word -/

/-- What a straight instruction leaves as it was, and where it leads. -/
structure Computes (m : Machine) (instruction : Instruction) (effect : Effect) : Prop where
  done : m.execute instruction = .ok effect
  advance : effect.advance = .next
  status : effect.machine.status = m.status
  memory : effect.machine.memory = m.memory
  stack : effect.machine.stack = m.stack
  displayChanged : effect.displayChanged = true ↔ instruction = .clearDisplay

theorem computes_of_straight (m : Machine) {instruction : Instruction}
    (straight : instruction.IsStraight) : ∃ effect, Computes m instruction effect := by
  cases instruction
  case clearDisplay | setByte | addByte | random | copy | or | and | xor | add | subtract | shiftRight | setIndex
      | readDelay | setDelay | setSound | addIndex | pointGlyph =>
    exact ⟨_, rfl, rfl, rfl, rfl, rfl, by simp⟩
  all_goals cases straight

/-- A machine that has done with so many words of the program it was loaded with. -/
structure Stands (loaded m : Machine) (i : Nat) : Prop where
  running : m.status = .running
  pc : m.pc.toNat = programStart + 2 * i
  memory : m.memory = loaded.memory
  stack : m.stack = loaded.stack

/-- A step on a word of a straight-line program. -/
structure Passes (m : Machine) (word : UInt16) : Prop where
  executed : ∃ instruction, m.fetch = .ok (word, instruction) ∧ m.executed? = some instruction
  result : m.step.result = .ok { displayChanged := decide (word = 0x00E0), waiting := false }

variable {loaded m : Machine} {words : List UInt16}

theorem Stands.fetch {i : Nat} (stands : Stands loaded m i) (holds : loaded.Holds (bytesOfWords words))
    (fits : words.length ≤ 1792) (inside : i < words.length) {instruction : Instruction}
    (decoded : Instruction.ofWord? words[i] = some instruction) :
    m.fetch = .ok (words[i], instruction) := by
  have length := Instruction.length_bytesOfWords words
  have held : m.Holds (bytesOfWords words) := by
    intro offset covered
    rw [stands.memory]
    exact holds offset covered
  have same := Instruction.wordOfBytes_getElem inside (by omega) (by omega)
  rw [← same] at decoded ⊢
  exact held.fetch (by simp only [programLimit, memorySize, programStart]; omega) _ _ stands.pc decoded

theorem Stands.step {i : Nat} (stands : Stands loaded m i) (holds : loaded.Holds (bytesOfWords words))
    (fits : words.length ≤ 1792) (inside : i < words.length)
    (straight : StraightWord words[i]) : Passes m words[i] ∧ Stands loaded m.step.machine (i + 1) := by
  obtain ⟨instruction, decoded, isStraight⟩ := Instruction.ofWord?_of_straight straight
  obtain ⟨effect, computes⟩ := m.computes_of_straight isStraight
  have fetched := stands.fetch holds fits inside decoded
  have stepped := step_of_execute stands.running fetched computes.done
  refine ⟨⟨⟨instruction, fetched, executed?_of_execute stands.running fetched computes.done⟩, ?_⟩, ?_⟩
  · have goesOn := computes.status.trans stands.running
    have cleared : effect.displayChanged = decide (words[i] = 0x00E0) := by
      rw [Bool.eq_iff_iff, computes.displayChanged, decide_eq_true_iff]
      constructor
      · rintro rfl
        exact Instruction.eq_of_clearDisplay decoded
      · intro same
        rw [same] at decoded
        exact (Option.some.inj decoded).symm
    rw [← cleared]
    exact outcome_of_execute stands.running fetched computes.done goesOn
  · have small := pc_of_fetch fetched
    rw [stepped]
    refine ⟨computes.status.trans stands.running, ?_, computes.memory.trans stands.memory,
      computes.stack.trans stands.stack⟩
    show (effect.advance.target m.pc).toNat = _
    rw [computes.advance]
    show (m.pc + 2).toNat = _
    rw [toNat_add_small small (by decide), stands.pc]
    rfl

/-! ### Whole programs -/

theorem Stands.run {i : Nat} (start : Stands loaded loaded 0)
    (holds : loaded.Holds (bytesOfWords words)) (fits : words.length ≤ 1792)
    (straight : ∀ word ∈ words, StraightWord word) (within : i ≤ words.length) :
    Stands loaded (loaded.performAll (List.replicate i .step)) i := by
  induction i with
  | zero => exact start
  | succ i ih =>
    have next := (ih (Nat.le_of_succ_le within)).step holds fits within
      (straight _ (List.getElem_mem within))
    rw [List.replicate_succ', performAll_step]
    exact next.2

theorem byte_behind_load (m : Machine) {code : List UInt8} (fits : code.length ≤ programLimit)
    {address : Nat} (behind : programStart + code.length ≤ address) :
    (m.perform (.load code)).machine.memory.byte address = 0 := by
  obtain ⟨loaded, done, performed⟩ := m.performLoad_of_fits fits
  have past : code.length ≤ address - programStart := Nat.le_sub_of_add_le' behind
  have start : programStart ≤ address := Nat.le_of_add_right_le behind
  rw [perform, performed]
  show loaded.byte address = 0
  rw [Memory.byte_of_load done, if_pos start, List.getElem?_eq_none past]
  rfl

/-- Behind its last word the machine stops: at a zero word, or at the end of memory. -/
theorem Stands.stop (stands : Stands loaded m words.length)
    (blank : ∀ address, programStart + 2 * words.length ≤ address → loaded.memory.byte address = 0) :
    (words.length < 1792 → m.step.result =
      .error (.unknownOpcode 0x0000 (UInt16.ofNat (programStart + 2 * words.length)))) ∧
    (words.length = 1792 → m.step.result = .error (.outOfBounds memorySize)) := by
  have place := stands.pc
  refine ⟨?_, ?_⟩
  · intro short
    have zero : m.due = 0 := by
      rw [due, stands.memory, blank _ (by omega), blank _ (by omega)]
      rfl
    have here : m.pc = UInt16.ofNat (programStart + 2 * words.length) := by
      rw [← place, UInt16.ofNat_toNat]
    have unfit : Unfit m m.due (.unknownOpcode m.due m.pc) :=
      .unknown (by rw [zero]; decide)
    have inside : m.pc.toNat + 1 < memorySize := by
      simp only [place, programStart, memorySize]
      omega
    rw [← here, ← zero]
    exact fails_iff.mpr (.word stands.running inside unfit)
  · intro full
    have atEnd : m.pc.toNat = memorySize := by rw [place, full]
    rw [← atEnd]
    exact fails_iff.mpr (.past stands.running (Nat.le_of_eq atEnd.symm))

/-- A straight-line program of at most 1792 words, on a fresh machine with any seed: step by step all its
    words are executed once, each at its address, and none of them fails, waits or changes memory or the
    calls in progress; the display is touched exactly by `00E0`. The step behind the last word fails, on
    a zero word or at the end of memory if the program reaches it. -/
theorem straight_line_runs_through (seed : UInt64) {words : List UInt16}
    (fits : words.length ≤ 1792) (straight : ∀ word ∈ words, StraightWord word) :
    let loading := (ofSeed seed).perform (.load (bytesOfWords words))
    let before := fun i => loading.machine.performAll (List.replicate i .step)
    loading.answer = .loaded (.ok ()) ∧
    (∀ i (inside : i < words.length), Passes (before i) words[i]) ∧
    (∀ i ≤ words.length, Stands loading.machine (before i) i) ∧
    (words.length < 1792 → (before words.length).step.result =
      .error (.unknownOpcode 0x0000 (UInt16.ofNat (0x200 + 2 * words.length)))) ∧
    (words.length = 1792 → (before words.length).step.result = .error (.outOfBounds 4096)) := by
  intro loading before
  have length := Instruction.length_bytesOfWords words
  have small : (bytesOfWords words).length ≤ programLimit := by
    simp only [programLimit, memorySize, programStart]
    omega
  obtain ⟨memory, _, loaded⟩ := (ofSeed seed).performLoad_of_fits small
  have loadingIs : loading = ⟨.loaded (.ok ()), { ofSeed seed with memory := memory }, _⟩ := loaded
  have start : Stands loading.machine loading.machine 0 := by
    refine ⟨?_, ?_, rfl, rfl⟩
    · rw [loadingIs]
      rfl
    · rw [loadingIs]
      rfl
  have holds : loading.machine.Holds (bytesOfWords words) := (ofSeed seed).holds_of_load small
  have stands : ∀ i ≤ words.length, Stands loading.machine (before i) i :=
    fun i within => start.run holds fits straight within
  refine ⟨by rw [loadingIs], ?_, stands, ?_⟩
  · intro i inside
    exact ((stands i (Nat.le_of_lt inside)).step holds fits inside
      (straight _ (List.getElem_mem inside))).1
  · exact (stands words.length (Nat.le_refl _)).stop fun address behind =>
      (ofSeed seed).byte_behind_load small (length ▸ behind)

/-- Three words, the last of them with its result in VF. -/
theorem straight_line_of_three :
    let words : List UInt16 := [0x00E0, 0xC3FF, 0x8F34]
    let loading := (ofSeed 7).perform (.load (bytesOfWords words))
    let before := fun i => loading.machine.performAll (List.replicate i .step)
    (words.length ≤ 1792 ∧ ∀ word ∈ words, StraightWord word) ∧
    loading.answer = .loaded (.ok ()) ∧
    (∀ i (inside : i < words.length), Passes (before i) words[i]) ∧
    (∀ i ≤ words.length, Stands loading.machine (before i) i) ∧
    (words.length < 1792 → (before words.length).step.result =
      .error (.unknownOpcode 0x0000 (UInt16.ofNat (0x200 + 2 * words.length)))) ∧
    (words.length = 1792 → (before words.length).step.result = .error (.outOfBounds 4096)) := by
  intro words
  have fits : words.length ≤ 1792 := by decide
  have straight : ∀ word ∈ words, StraightWord word := by
    intro word among
    simp only [words, List.mem_cons, List.not_mem_nil, or_false] at among
    have random : Instruction.wordDigits 0xC3FF = (0xC, 0x3, 0xF, 0xF) := rfl
    have sum : Instruction.wordDigits 0x8F34 = (0x8, 0xF, 0x3, 0x4) := rfl
    rcases among with rfl | rfl | rfl
    · exact .clearDisplay rfl
    · exact .byte random (by decide)
    · exact .arithmetic sum (by decide)
  exact ⟨⟨fits, straight⟩, straight_line_runs_through 7 fits straight⟩

end Machine

end Chip8
