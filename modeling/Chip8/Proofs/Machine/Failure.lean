import Chip8.Proofs.Instruction.Digits
import Chip8.Proofs.Machine.Stepping

/-!
When a step fails, and with which fault. `Fails` tells it from the bytes of memory, the digits of
the word that is due, the index, the registers and the calls in progress, without executing
anything; a step fails exactly then (`fails_iff`), and all that a failure changes is the status
(`machine_of_step_error`).
-/
namespace Chip8

/-- How many bytes an instruction uses at the index. -/
def Instruction.blockLength? : Instruction → Option Nat
  | draw _ _ n => some n.toNat
  | storeDigits _ => some 3
  | storeRegisters x | loadRegisters x => some (x.toNat + 1)
  | _ => none

namespace Machine
open Instruction (wordDigits)

/-! ### Instructions -/

/-- Why an instruction is refused. -/
inductive Refusal (m : Machine) : Instruction → Fault → Prop where
  | overflow (nnn : UInt16) (full : m.stack.depth = callLimit) :
      Refusal m (.call nnn) (.stackOverflow m.pc)
  | underflow (outside : m.stack.depth = 0) : Refusal m .ret (.stackUnderflow m.pc)
  | keyDown (x : UInt8) (beyond : keyCount ≤ (m.value x).toNat) :
      Refusal m (.skipIfKeyDown x) (.unknownKey (m.value x))
  | keyUp (x : UInt8) (beyond : keyCount ≤ (m.value x).toNat) :
      Refusal m (.skipIfKeyUp x) (.unknownKey (m.value x))
  | block {instruction : Instruction} {length : Nat} {cause : Fault}
      (uses : instruction.blockLength? = some length)
      (refused : Memory.check m.index.toNat length = .error cause) : Refusal m instruction cause

theorem keyDown_eq_error_iff {m : Machine} {x : UInt8} {cause : Fault} :
    m.keyDown x = .error cause ↔ keyCount ≤ (m.value x).toNat ∧ cause = .unknownKey (m.value x) := by
  unfold keyDown Keys.isDown?
  by_cases known : (m.value x).toNat < keyCount
  · simp [known, Nat.not_le.mpr known]
  · simp [known, Nat.not_lt.mp known, eq_comm]

theorem refusal_of_execute {m : Machine} {instruction : Instruction} {cause : Fault}
    (fault : m.execute instruction = .error cause) : Refusal m instruction cause := by
  cases instruction
  case call nnn =>
    simp only [execute] at fault
    split at fault
    · cases fault
    · next refused =>
      cases fault
      exact .overflow nnn (by rw [← CallStack.length_live]; exact CallStack.push?_eq_none_iff.mp refused)
  case ret =>
    simp only [execute] at fault
    split at fault
    · cases fault
    · next refused =>
      cases fault
      exact .underflow (by rw [← CallStack.length_live, CallStack.pop?_eq_none_iff.mp refused]; rfl)
  case skipIfKeyDown x =>
    obtain ⟨beyond, rfl⟩ := keyDown_eq_error_iff.mp (made_eq_error_iff.mp fault)
    exact .keyDown x beyond
  case skipIfKeyUp x =>
    obtain ⟨beyond, rfl⟩ := keyDown_eq_error_iff.mp (made_eq_error_iff.mp fault)
    exact .keyUp x beyond
  case draw x y n => exact .block rfl (Memory.slice_eq_error_iff.mp (made_eq_error_iff.mp fault))
  case storeDigits x => exact .block rfl (Memory.write_eq_error_iff.mp (made_eq_error_iff.mp fault))
  case storeRegisters x =>
    have length : (m.registers.upTo x).length = x.toNat + 1 := Block.length_read ..
    exact .block rfl (length ▸ Memory.write_eq_error_iff.mp (made_eq_error_iff.mp fault))
  case loadRegisters x =>
    exact .block rfl (Memory.slice_eq_error_iff.mp (made_eq_error_iff.mp fault))
  all_goals cases fault

theorem execute_of_refusal {m : Machine} {instruction : Instruction} {cause : Fault}
    (refusal : Refusal m instruction cause) : m.execute instruction = .error cause := by
  cases refusal with
  | overflow nnn full =>
    have refused : m.stack.push? m.pc = none :=
      CallStack.push?_eq_none_iff.mpr (m.stack.length_live.trans full)
    simp only [execute, refused]
  | underflow outside =>
    have refused : m.stack.pop? = none :=
      CallStack.pop?_eq_none_iff.mpr (List.eq_nil_of_length_eq_zero (m.stack.length_live.trans outside))
    simp only [execute, refused]
  | keyDown x beyond => exact made_eq_error_iff.mpr (keyDown_eq_error_iff.mpr ⟨beyond, rfl⟩)
  | keyUp x beyond => exact made_eq_error_iff.mpr (keyDown_eq_error_iff.mpr ⟨beyond, rfl⟩)
  | block uses refused =>
    cases instruction
    case draw x y n =>
      cases uses
      exact made_eq_error_iff.mpr (Memory.slice_eq_error_iff.mpr refused)
    case storeDigits x =>
      cases uses
      exact made_eq_error_iff.mpr (Memory.write_eq_error_iff.mpr refused)
    case storeRegisters x =>
      cases uses
      have length : (m.registers.upTo x).length = x.toNat + 1 := Block.length_read ..
      exact made_eq_error_iff.mpr (Memory.write_eq_error_iff.mpr (length ▸ refused))
    case loadRegisters x =>
      cases uses
      exact made_eq_error_iff.mpr (Memory.slice_eq_error_iff.mpr refused)
    all_goals cases uses

/-! ### Steps -/

theorem step_eq_error_iff {m : Machine} {cause : Fault} :
    m.step.result = .error cause ↔
      (m.isHalted = true ∧ cause = .halted) ∨
      (m.status = .running ∧ (m.fetch = .error cause ∨
        ∃ word instruction, m.fetch = .ok (word, instruction) ∧ Refusal m instruction cause)) := by
  have ways := m.stepped
  generalize m.step = transition at ways
  cases ways with
  | executed running fetched done =>
    constructor
    · intro impossible
      cases impossible
    · rintro (⟨halted, _⟩ | ⟨_, unfetched | ⟨_, _, same, refusal⟩⟩)
      · simp [isHalted, haltCause?, running] at halted
      · rw [fetched] at unfetched
        cases unfetched
      · rw [fetched] at same
        cases same
        rw [execute_of_refusal refusal] at done
        cases done
  | refused running fetched fault =>
    constructor
    · intro same
      cases same
      exact .inr ⟨running, .inr ⟨_, _, fetched, refusal_of_execute fault⟩⟩
    · rintro (⟨halted, _⟩ | ⟨_, unfetched | ⟨_, _, same, refusal⟩⟩)
      · simp [isHalted, haltCause?, running] at halted
      · rw [fetched] at unfetched
        cases unfetched
      · rw [fetched] at same
        cases same
        rw [execute_of_refusal refusal] at fault
        cases fault
        rfl
  | unfetched running fault => simp [fail, running, fault, isHalted, haltCause?]
  | taken waiting down => simp [succeed, waiting, isHalted, haltCause?]
  | waited waiting up => simp [succeed, waiting, isHalted, haltCause?]
  | stayed halted => simp [halted, isHalted, haltCause?, eq_comm]

/-! ### Words -/

/-- The word at the address of the next instruction, the high byte first. -/
def due (m : Machine) : UInt16 :=
  Instruction.wordOfBytes (m.memory.byte m.pc.toNat) (m.memory.byte (m.pc.toNat + 1))

/-- How many bytes the instruction of a word uses at the index: `Dxyn`, `Fx33`, `Fx55`, `Fx65`. -/
inductive Uses (word : UInt16) : Nat → Prop where
  | draw {x y n : Nat} (digits : wordDigits word = (0xD, x, y, n)) : Uses word n
  | storeDigits {x : Nat} (digits : wordDigits word = (0xF, x, 0x3, 0x3)) : Uses word 3
  | storeRegisters {x : Nat} (digits : wordDigits word = (0xF, x, 0x5, 0x5)) : Uses word (x + 1)
  | loadRegisters {x : Nat} (digits : wordDigits word = (0xF, x, 0x6, 0x5)) : Uses word (x + 1)

/-- Why a word cannot be executed. -/
inductive Unfit (m : Machine) (word : UInt16) : Fault → Prop where
  | unknown (none : Instruction.ofWord? word = none) : Unfit m word (.unknownOpcode word m.pc)
  | overflow {a b c : Nat} (call : wordDigits word = (0x2, a, b, c))
      (full : m.stack.depth = callLimit) : Unfit m word (.stackOverflow m.pc)
  | underflow (ret : wordDigits word = (0x0, 0x0, 0xE, 0xE)) (outside : m.stack.depth = 0) :
      Unfit m word (.stackUnderflow m.pc)
  | key {x : Fin registerCount}
      (test : wordDigits word = (0xE, x.val, 0x9, 0xE) ∨ wordDigits word = (0xE, x.val, 0xA, 0x1))
      (beyond : 15 < m.registers[x].toNat) : Unfit m word (.unknownKey m.registers[x])
  | outside {length : Nat} (uses : Uses word length) (past : memorySize ≤ m.index.toNat) :
      Unfit m word (.outOfBounds m.index.toNat)
  | across {length : Nat} (uses : Uses word length) (start : m.index.toNat < memorySize)
      (stop : memorySize < m.index.toNat + length) : Unfit m word (.outOfBounds memorySize)

/-- Why a step fails. -/
inductive Fails (m : Machine) : Fault → Prop where
  | stopped (halted : m.isHalted = true) : Fails m .halted
  | past (running : m.status = .running) (past : memorySize ≤ m.pc.toNat) :
      Fails m (.outOfBounds m.pc.toNat)
  | last (running : m.status = .running) (last : m.pc.toNat + 1 = memorySize) :
      Fails m (.outOfBounds memorySize)
  | word {cause : Fault} (running : m.status = .running) (inside : m.pc.toNat + 1 < memorySize)
      (unfit : Unfit m m.due cause) : Fails m cause

theorem uses_iff {word : UInt16} {instruction : Instruction} {length : Nat}
    (decoded : Instruction.ofWord? word = some instruction) :
    Uses word length ↔ instruction.blockLength? = some length := by
  have written := Instruction.wordDigits_of_ofWord? decoded
  constructor
  · intro uses
    cases uses with
    | draw digits | storeDigits digits | storeRegisters digits | loadRegisters digits =>
      rw [written] at digits
      cases instruction
      case draw | storeDigits | storeRegisters | loadRegisters => cases digits <;> rfl
      all_goals cases digits
  · intro uses
    cases instruction
    case draw => cases uses; exact .draw written
    case storeDigits => cases uses; exact .storeDigits written
    case storeRegisters => cases uses; exact .storeRegisters written
    case loadRegisters => cases uses; exact .loadRegisters written
    all_goals cases uses

theorem ofWord?_of_uses {word : UInt16} {length : Nat} (uses : Uses word length) :
    Instruction.ofWord? word ≠ none := by
  cases uses with
  | draw digits | storeDigits digits | storeRegisters digits | loadRegisters digits =>
    simp only [wordDigits, Prod.mk.injEq] at digits
    simp [Instruction.ofWord?, digits]

theorem value_eq (m : Machine) {operand : UInt8} {x : Fin registerCount}
    (named : operand.toNat = x.val) : m.value operand = m.registers[x] := by
  obtain rfl : Registers.number operand = x := by
    apply Fin.ext
    show operand.toNat % registerCount = x.val
    rw [named]
    exact Nat.mod_eq_of_lt x.isLt
  rfl

theorem unfit_iff {m : Machine} {word : UInt16} {instruction : Instruction} {cause : Fault}
    (decoded : Instruction.ofWord? word = some instruction) :
    Unfit m word cause ↔ Refusal m instruction cause := by
  have written := Instruction.wordDigits_of_ofWord? decoded
  have fits := Instruction.fits_of_ofWord? decoded
  constructor
  · intro unfit
    cases unfit with
    | unknown none =>
      rw [none] at decoded
      cases decoded
    | overflow call full =>
      rw [written] at call
      cases instruction
      case call nnn => exact .overflow nnn full
      all_goals cases call
    | underflow ret outside =>
      rw [written] at ret
      cases instruction
      case ret => exact .underflow outside
      all_goals cases ret
    | @key x test beyond =>
      rw [written] at test
      cases instruction
      case skipIfKeyDown operand =>
        have named : operand.toNat = x.val := by simpa [Instruction.digits] using test
        rw [← m.value_eq named] at beyond ⊢
        exact .keyDown operand beyond
      case skipIfKeyUp operand =>
        have named : operand.toNat = x.val := by simpa [Instruction.digits] using test
        rw [← m.value_eq named] at beyond ⊢
        exact .keyUp operand beyond
      all_goals rcases test with test | test <;> cases test
    | outside uses past =>
      exact .block ((uses_iff decoded).mp uses) ((Memory.check_eq_error_iff ..).mpr (.inl ⟨past, rfl⟩))
    | across uses start stop =>
      exact .block ((uses_iff decoded).mp uses) ((Memory.check_eq_error_iff ..).mpr (.inr ⟨start, stop, rfl⟩))
  · intro refusal
    cases refusal with
    | overflow nnn full => exact .overflow written full
    | underflow outside => exact .underflow written outside
    | keyDown operand beyond =>
      have held := m.value_eq (x := ⟨operand.toNat, fits⟩) rfl
      rw [held] at beyond ⊢
      exact .key (.inl written) beyond
    | keyUp operand beyond =>
      have held := m.value_eq (x := ⟨operand.toNat, fits⟩) rfl
      rw [held] at beyond ⊢
      exact .key (.inr written) beyond
    | block uses refused =>
      have known := (uses_iff decoded).mpr uses
      rcases (Memory.check_eq_error_iff ..).mp refused with ⟨past, rfl⟩ | ⟨start, stop, rfl⟩
      · exact .outside known past
      · exact .across known start stop

theorem unfit_of_none {m : Machine} {word : UInt16} {cause : Fault}
    (none : Instruction.ofWord? word = none) (unfit : Unfit m word cause) :
    cause = .unknownOpcode word m.pc := by
  cases unfit with
  | unknown => rfl
  | overflow digits | underflow digits =>
    simp only [wordDigits, Prod.mk.injEq] at digits
    simp [Instruction.ofWord?, digits] at none
  | key test =>
    rcases test with digits | digits
    · simp only [wordDigits, Prod.mk.injEq] at digits
      simp [Instruction.ofWord?, digits] at none
    · simp only [wordDigits, Prod.mk.injEq] at digits
      simp [Instruction.ofWord?, digits] at none
  | outside uses | across uses => exact absurd none (ofWord?_of_uses uses)

/-- A step fails exactly for the reasons of `Fails`, with the fault that goes with the reason. -/
theorem fails_iff {m : Machine} {cause : Fault} :
    m.step.result = .error cause ↔ Fails m cause := by
  rw [step_eq_error_iff]
  constructor
  · rintro (⟨halted, rfl⟩ | ⟨running, unfetched | ⟨word, instruction, fetched, refusal⟩⟩)
    · exact .stopped halted
    · rcases fetch_eq_error_iff.mp unfetched with refused | ⟨word, read, none, rfl⟩
      · rcases (Memory.check_eq_error_iff ..).mp (Memory.word_eq_error_iff.mp refused) with
          ⟨past, rfl⟩ | ⟨start, stop, rfl⟩
        · exact .past running past
        · exact .last running (by omega)
      · obtain ⟨passed, rfl⟩ := Memory.word_eq_ok_iff.mp read
        have inside := ((Memory.check_eq_ok_iff ..).mp passed).2
        exact .word running inside (.unknown none)
    · obtain ⟨read, decoded⟩ := fetch_eq_ok_iff.mp fetched
      obtain ⟨passed, rfl⟩ := Memory.word_eq_ok_iff.mp read
      have inside := ((Memory.check_eq_ok_iff ..).mp passed).2
      exact .word running inside ((unfit_iff decoded).mpr refusal)
  · intro fails
    cases fails with
    | stopped halted => exact .inl ⟨halted, rfl⟩
    | past running past =>
      have refused := (Memory.check_eq_error_iff m.pc.toNat 2 _).mpr (.inl ⟨past, rfl⟩)
      exact .inr ⟨running, .inl (fetch_eq_error_iff.mpr (.inl (Memory.word_eq_error_iff.mpr refused)))⟩
    | last running last =>
      have refused := (Memory.check_eq_error_iff m.pc.toNat 2 _).mpr
        (.inr ⟨by omega, by omega, rfl⟩)
      exact .inr ⟨running, .inl (fetch_eq_error_iff.mpr (.inl (Memory.word_eq_error_iff.mpr refused)))⟩
    | word running inside unfit =>
      have passed := (Memory.check_eq_ok_iff m.pc.toNat 2).mpr ⟨by omega, inside⟩
      have read : m.memory.word m.pc.toNat = .ok m.due := Memory.word_eq_ok_iff.mpr ⟨passed, rfl⟩
      cases decoded : Instruction.ofWord? m.due with
      | none =>
        have same := unfit_of_none decoded unfit
        exact .inr ⟨running, .inl (fetch_eq_error_iff.mpr (.inr ⟨m.due, read, decoded, same⟩))⟩
      | some instruction =>
        have fetched := fetch_eq_ok_iff.mpr ⟨read, decoded⟩
        exact .inr ⟨running, .inr ⟨m.due, instruction, fetched, (unfit_iff decoded).mp unfit⟩⟩

/-! ### After a step -/

theorem machine_of_step_error {m : Machine} {cause : Fault} (failed : m.step.result = .error cause)
    (going : m.isHalted = false) : m.step.machine = { m with status := .halted cause } := by
  have ways := m.stepped
  generalize m.step = transition at ways failed
  cases ways with
  | executed | taken | waited => cases failed
  | refused | unfetched =>
    cases failed
    rfl
  | stayed halted => simp [isHalted, haltCause?, halted] at going

theorem step_of_halted {m : Machine} (halted : m.isHalted = true) :
    m.step.result = .error .halted ∧ m.step.machine = m := by
  have ways := m.stepped
  generalize m.step = transition at ways
  cases ways with
  | stayed => exact ⟨rfl, rfl⟩
  | executed status | refused status | unfetched status | taken status | waited status =>
    simp [isHalted, haltCause?, status] at halted

theorem step_of_waiting {m : Machine} (waiting : m.isWaiting = true) :
    ∃ outcome, m.step.result = .ok outcome := by
  have ways := m.stepped
  generalize m.step = transition at ways
  cases ways with
  | taken | waited => exact ⟨_, rfl⟩
  | executed status | refused status | unfetched status | stayed status =>
    simp [isWaiting, status] at waiting

/-- What fails and what does not: a step that has no reason to fail succeeds, and so does every step
    of a machine that waits for a key. -/
theorem step_fails_exactly (m : Machine) :
    (∀ cause, m.step.result = .error cause ↔ Fails m cause) ∧
    ((∃ outcome, m.step.result = .ok outcome) ↔ ∀ cause, ¬ Fails m cause) ∧
    (m.isWaiting = true → ∃ outcome, m.step.result = .ok outcome) := by
  refine ⟨fun cause => fails_iff, ⟨?_, ?_⟩, step_of_waiting⟩
  · rintro ⟨outcome, succeeded⟩ cause fails
    rw [fails_iff.mpr fails] at succeeded
    cases succeeded
  · intro none
    cases result : m.step.result with
    | ok outcome => exact ⟨outcome, rfl⟩
    | error cause => exact absurd (fails_iff.mp result) (none cause)

end Machine

end Chip8
