import Chip8.Proofs.Listing
import Chip8.Proofs.Machine.Writes

/-!
A loaded program as it is executed. As long as nothing is written over it, a program lies in memory as
it was loaded (`Holds.performAll`), so what a step fetches at the place of a word is that word
(`Holds.word`), and the listing of the program tells beforehand what the log says of the step
(`listing_agrees_with_execution`).
-/
namespace Chip8

namespace Machine
open Numeral (hex hexLiteral)

/-- A program lies in memory as it was loaded. -/
def Holds (m : Machine) (code : List UInt8) : Prop :=
  ∀ offset (inside : offset < code.length), m.memory.byte (programStart + offset) = code[offset]

theorem holds_of_load (m : Machine) {code : List UInt8} (fits : code.length ≤ programLimit) :
    (m.perform (.load code)).machine.Holds code := by
  obtain ⟨loaded, done, performed⟩ := m.performLoad_of_fits fits
  intro offset inside
  rw [perform, performed]
  show loaded.byte (programStart + offset) = code[offset]
  rw [Memory.byte_of_load done, if_pos (Nat.le_add_right ..), Nat.add_sub_cancel_left]
  simp [inside]

theorem Holds.performAll {m : Machine} {code : List UInt8} (holds : m.Holds code)
    (fits : code.length ≤ programLimit) {history : List Command}
    (untouched : ∀ w ∈ m.writings history, ∀ offset < code.length,
      ¬ w.Covers (programStart + offset)) : (m.performAll history).Holds code := by
  intro offset inside
  have known : programStart + offset < memorySize := by
    simp only [programLimit, programStart, memorySize] at *
    omega
  rw [← holds offset inside]
  exact m.byte_of_untouched known fun w among => untouched w among offset inside

theorem Holds.word {m : Machine} {code : List UInt8} (holds : m.Holds code)
    (fits : code.length ≤ programLimit) {i : Nat} (first : 2 * i < code.length)
    (second : 2 * i + 1 < code.length) :
    m.memory.word (programStart + 2 * i) =
      .ok (Instruction.wordOfBytes code[2 * i] code[2 * i + 1]) := by
  have passed : Memory.check (programStart + 2 * i) 2 = .ok () := by
    rw [Memory.check_eq_ok_iff]
    simp only [programLimit, programStart, memorySize] at *
    omega
  refine Memory.word_eq_ok_iff.mpr ⟨passed, ?_⟩
  rw [holds (2 * i) first, Nat.add_assoc, holds (2 * i + 1) second]

theorem Holds.fetch {m : Machine} {code : List UInt8} (holds : m.Holds code)
    (fits : code.length ≤ programLimit) {i : Nat} (first : 2 * i < code.length)
    (second : 2 * i + 1 < code.length) (place : m.pc.toNat = programStart + 2 * i)
    {instruction : Instruction}
    (decoded : Instruction.ofWord? (Instruction.wordOfBytes code[2 * i] code[2 * i + 1]) =
      some instruction) :
    m.fetch = .ok (Instruction.wordOfBytes code[2 * i] code[2 * i + 1], instruction) := by
  have read := holds.word fits first second
  rw [← place] at read
  exact fetch_eq_ok_iff.mpr ⟨read, decoded⟩

/-! ### What a step logs -/

/-- What a step logs that fetches a word, told by what a listing shows for the word. -/
inductive Traces (m : Machine) (word : UInt16) (column : String) : Prop where
  | unknown (marked : column = "???") (failed : m.step.result = .error (.unknownOpcode word m.pc))
      (halted : m.step.machine.status = .halted (.unknownOpcode word m.pc))
      (untraced : ∀ entry ∈ m.step.log, entry.level ≠ .trace) : Traces m word column
  | known {entry : LogEntry} {rest : List LogEntry} (named : column ≠ "???")
      (log : m.step.log = entry :: rest) (traced : entry.level = .trace)
      (text : entry.text =
        hexLiteral 3 m.pc.toNat ++ "    " ++ hexLiteral 4 word.toNat ++ "    " ++ column)
      (once : ∀ other ∈ rest, other.level ≠ .trace) : Traces m word column

theorem untraced_of_execute {m : Machine} {instruction : Instruction} {effect : Effect}
    (done : m.execute instruction = .ok effect) : ∀ entry ∈ effect.log, entry.level ≠ .trace := by
  cases output_of_execute done with
  | clear | draw | store | awaitKey => simp [LogEntry.level]
  | none _ _ _ _ _ log => simp [log]

theorem log_of_fetch {m : Machine} {word : UInt16} {instruction : Instruction}
    (running : m.status = .running) (fetched : m.fetch = .ok (word, instruction)) :
    ∃ rest, m.step.log = .executing m.pc word instruction :: rest ∧
      ∀ entry ∈ rest, entry.level ≠ .trace := by
  cases executed : m.execute instruction with
  | ok effect =>
    rw [step_of_execute running fetched executed]
    exact ⟨effect.log, rfl, untraced_of_execute executed⟩
  | error cause =>
    rw [step_of_refused running fetched executed]
    exact ⟨[.halting cause], rfl, by simp [LogEntry.level]⟩

theorem step_of_unknown {m : Machine} {word : UInt16} (running : m.status = .running)
    (read : m.memory.word m.pc.toNat = .ok word) (none : Instruction.ofWord? word = none) :
    m.step = m.fail (.unknownOpcode word m.pc) [] :=
  step_of_unfetched running (fetch_eq_error_iff.mpr (.inr ⟨word, read, none, rfl⟩))

theorem traces_of_word {m : Machine} {word : UInt16} (running : m.status = .running)
    (read : m.memory.word m.pc.toNat = .ok word) :
    Traces m word (ListingLine.wordColumn word) := by
  cases decoded : Instruction.ofWord? word with
  | none =>
    have stepped := step_of_unknown running read decoded
    rw [ListingLine.wordColumn, decoded]
    exact .unknown rfl (by rw [stepped]; rfl) (by rw [stepped]; rfl)
      (by simp [stepped, fail, LogEntry.level])
  | some instruction =>
    obtain ⟨rest, log, once⟩ := log_of_fetch running (fetch_eq_ok_iff.mpr ⟨read, decoded⟩)
    rw [ListingLine.wordColumn, decoded]
    exact .known instruction.mnemonic_ne_unknown log rfl rfl once

/-! ### Listings -/

/-- Whatever is done to a machine with a program, as long as nothing was written over the program: a
    step that fetches one of its words finds the word that the listing shows in the line of the
    address. Either the line marks the word as unknown, and the step stops the machine for it and
    traces nothing, or the step traces the address, the word and the assembly text of the line, first
    of all and once. -/
theorem listing_agrees_with_execution (random : RandomSource) (code : List UInt8)
    (history : List Command) :
    let loaded := ((initial random).perform (.load code)).machine
    let m := loaded.performAll history
    code.length ≤ programLimit →
    (∀ w ∈ loaded.writings history, ∀ offset < code.length, ¬ w.Covers (programStart + offset)) →
    ∀ i, 2 * i + 1 < code.length → m.status = .running → m.pc.toNat = programStart + 2 * i →
    ∃ word column, m.memory.word m.pc.toNat = .ok word ∧
      ((listing code).toList.splitOn '\n')[i]? =
        some (hexLiteral 3 m.pc.toNat ++ ": " ++ hex 4 word.toNat ++ "  " ++ column).toList ∧
      Traces m word column := by
  intro loaded m fits untouched i inside running place
  have holds : m.Holds code := ((initial random).holds_of_load fits).performAll fits untouched
  have read := holds.word fits (Nat.lt_of_succ_lt inside) inside
  have line := ListingLine.getElem?_splitOn_listing inside
  rw [← place] at read line
  exact ⟨_, _, read, line, traces_of_word running read⟩

/-- Behind a jump to the next word, which is none, and with a key down. -/
theorem listing_agrees_behind_jump :
    let code : List UInt8 := [0x12, 0x02, 0x00, 0x00]
    let history : List Command := [.step, .setKey 3 true]
    let loaded := ((initial (.ofSeed 0)).perform (.load code)).machine
    let m := loaded.performAll history
    (code.length ≤ programLimit ∧
      (∀ w ∈ loaded.writings history, ∀ offset < code.length,
        ¬ w.Covers (programStart + offset)) ∧
      2 * 1 + 1 < code.length ∧ m.status = .running ∧ m.pc.toNat = programStart + 2 * 1) ∧
    ∃ word column, m.memory.word m.pc.toNat = .ok word ∧
      ((listing code).toList.splitOn '\n')[1]? =
        some (hexLiteral 3 m.pc.toNat ++ ": " ++ hex 4 word.toNat ++ "  " ++ column).toList ∧
      Traces m word column := by
  intro code history loaded m
  have fits : code.length ≤ programLimit := by decide
  have holds : loaded.Holds code := (initial (.ofSeed 0)).holds_of_load fits
  have fetched : loaded.fetch = .ok (_, .jump 0x202) :=
    holds.fetch fits (i := 0) (by decide) (by decide) rfl (by decide)
  have stepped := step_of_execute (m := loaded) rfl fetched rfl
  have quiet : loaded.writings history = [] := by
    rw [writings, writing?_of_executed (executed?_of_execute rfl fetched rfl)]
    rfl
  have untouched : ∀ w ∈ loaded.writings history, ∀ offset < code.length,
      ¬ w.Covers (programStart + offset) := by simp [quiet]
  have two (n : Machine) :
      n.performAll history = (n.step.machine.perform (.setKey 3 true)).machine := rfl
  have now : m = _ := two loaded
  have running : m.status = .running := by rw [now, stepped]; rfl
  have place : m.pc.toNat = programStart + 2 * 1 := by rw [now, stepped]; rfl
  have inside : 2 * 1 + 1 < code.length := by decide
  exact ⟨⟨fits, untouched, inside, running, place⟩,
    listing_agrees_with_execution (.ofSeed 0) code history fits untouched 1 inside running place⟩

end Machine

end Chip8
