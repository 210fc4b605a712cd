import Chip8.Proofs.InPlace.Execution
import Chip8.Proofs.Machine.Failure

/-!
What a host does to a machine that is worked on in place. On a machine within its bounds no sum
leaves its width and no position its range, and what comes out of a command is what the machine
answers to it (`perform_eq`). The bounds hold whatever was done to a fresh machine before.
-/
namespace Chip8.InPlace

def target? (pc : UInt16) : Advance → Option UInt16
  | .next => sum? pc 2
  | .skip => sum? pc 4
  | .goto address => some address

/-- Fetches and executes the instruction that is due, and moves on. -/
def executeNext : Work Unit := do
  let pc ← look (·.pc)
  let place ← block pc.toNat 2
  let bytes ← readBlock place
  let high ← demand bytes[0]?
  let low ← demand bytes[1]?
  let word := Instruction.wordOfBytes high low
  match Instruction.ofWord? word with
  | none => fault (.unknownOpcode word pc)
  | some instruction =>
    report (.executing pc word instruction)
    let advance ← execute instruction
    let target ← demand (target? pc advance)
    change fun m => { m with pc := target }

/-- Looks for a key that ends a wait. -/
def takeKey (operand : UInt8) : Work Unit := do
  let keys ← look (·.keys)
  match keys.lowestDown with
  | none => return
  | some key =>
    report (.keyTaken key operand)
    setRegister operand key
    change fun m => { m with status := .running }

/-- The end of a step. A fault stops the machine, which is as the work left it. -/
def settle : Except Fault Unit × Progress → Transition
  | (.ok (), p) => p.machine.succeed p.displayChanged p.log
  | (.error cause, p) => p.machine.fail cause p.log

def step (m : Machine) : Option Transition :=
  match m.status with
  | .running => (executeNext ⟨m, false, []⟩).map settle
  | .waiting operand => (takeKey operand ⟨m, false, []⟩).map settle
  | .halted _ => some { result := .error .halted, machine := m, log := [] }

/-- Puts a program into memory that was filled with zeros. -/
def performLoad (m : Machine) (code : List UInt8) : Option Performance :=
  if fits : code.length ≤ programLimit then do
    let zeros := List.replicate programLimit 0
    let cleared ← copy? m.memory.bytes programStart memorySize zeros
    let stop ← wideSum? programStart code.length
    let bytes ← copy? cleared programStart stop code
    let memory : Memory := ⟨bytes, code.length, fits⟩
    some ⟨.loaded (.ok ()), { m with memory := memory }, [.loaded code.length]⟩
  else some ⟨.loaded (.error (.tooLarge code.length programLimit)), m, []⟩

def perform (m : Machine) : Command → Option Performance
  | .load code => performLoad m code
  | .loadRom rom => performLoad m rom.code
  | .step => (step m).map fun transition =>
    ⟨.stepped transition.result, transition.machine, transition.log⟩
  | .setKey key down => some (m.perform (.setKey key down))
  | .takeRedraw => some (m.perform .takeRedraw)

def program? (memory : Memory) : Option (List UInt8) := do
  let stop ← wideSum? programStart memory.programLength
  read? memory.bytes programStart stop

/-! ### Steps -/

theorem target?_eq {m : Machine} (narrow : m.Narrow) (advance : Advance) :
    target? m.pc advance = some (advance.target m.pc) := by
  cases advance with
  | next => exact sum?_of_fits narrow.next_lt
  | skip => exact sum?_of_fits narrow.skip_lt
  | goto address => rfl

theorem executeNext_eq {m : Machine} (bounded : m.Bounded) :
    (executeNext ⟨m, false, []⟩).map settle = some m.stepRunning := by
  have place := block_apply (end_fits m.pc (show 2 ≤ 0x100 by decide))
  cases passed : Memory.check m.pc.toNat 2 with
  | error cause =>
    have unfetched : m.fetch = .error cause :=
      Machine.fetch_eq_error_iff.mpr (.inl (Memory.word_eq_error_iff.mpr passed))
    simp [executeNext, place, passed, Machine.stepRunning, unfetched, settle]
  | ok _ =>
    obtain ⟨start, inside⟩ := (Memory.check_eq_ok_iff _ _).mp passed
    let word := Instruction.wordOfBytes (m.memory.byte m.pc.toNat) (m.memory.byte (m.pc.toNat + 1))
    have read : m.memory.word m.pc.toNat = .ok word := Memory.word_eq_ok_iff.mpr ⟨passed, rfl⟩
    have bytes : readBlock (m.pc.toNat, m.pc.toNat + 2) ⟨m, false, []⟩ =
        some (.ok [m.memory.byte m.pc.toNat, m.memory.byte (m.pc.toNat + 1)], ⟨m, false, []⟩) :=
      readBlock_apply inside _
    cases decoded : Instruction.ofWord? word with
    | none =>
      have unfetched : m.fetch = .error (.unknownOpcode word m.pc) :=
        Machine.fetch_eq_error_iff.mpr (.inr ⟨word, read, decoded, rfl⟩)
      simp [executeNext, place, passed, bytes, word, decoded, Machine.stepRunning, unfetched, settle]
    | some instruction =>
      have fetched := Machine.fetch_eq_ok_iff.mpr ⟨read, decoded⟩
      have executed := execute_eq bounded (Instruction.fits_of_ofWord? decoded)
        [.executing m.pc word instruction]
      cases result : m.execute instruction with
      | error cause =>
        rw [result, outcome_error] at executed
        simp [executeNext, place, passed, bytes, word, decoded, executed, Machine.stepRunning, fetched,
          result, settle]
      | ok effect =>
        have target := target?_eq bounded.narrow effect.advance
        rw [result, outcome_ok] at executed
        simp [executeNext, place, passed, bytes, word, decoded, executed, target, Machine.stepRunning,
          fetched, result, settle]

theorem step_eq {m : Machine} (bounded : m.Bounded) : step m = some m.step := by
  unfold step Machine.step
  cases status : m.status with
  | running => exact executeNext_eq bounded
  | waiting register =>
    have inside : register.toNat < 16 := Nat.lt_succ_of_le (bounded.register_le register status)
    cases down : m.keys.lowestDown with
    | none => simp [takeKey, Machine.stepWaiting, down, settle]
    | some key => simp [takeKey, Machine.stepWaiting, down, settle, inside]
  | halted cause => rfl

/-! ### Loading -/

/-- A program over zeros is a program that zeros follow. -/
theorem write_write {size : Nat} (store : Vector UInt8 size) {start : Nat} {code : List UInt8}
    {length : Nat} (fits : code.length ≤ length) :
    Block.write (Block.write store start (List.replicate length 0)) start code =
      Block.write store start (code ++ List.replicate (length - code.length) 0) := by
  apply Vector.ext
  intro position inside
  simp only [Block.getElem_write]
  by_cases before : start ≤ position
  · simp only [if_pos before]
    by_cases covered : position - start < code.length
    · rw [List.getElem?_append_left covered, List.getElem?_eq_getElem covered, Option.getD_some,
        Option.getD_some]
    · have past := Nat.not_lt.mp covered
      have same : position - start < length ↔ position - start - code.length < length - code.length := by
        omega
      rw [List.getElem?_eq_none past, List.getElem?_append_right past, List.getElem?_replicate,
        List.getElem?_replicate, Option.getD_none]
      simp only [same]
  · simp only [if_neg before]

theorem performLoad_eq (m : Machine) (code : List UInt8) :
    performLoad m code = some (m.performLoad code) := by
  by_cases fits : code.length ≤ programLimit
  · let zeros : List UInt8 := List.replicate programLimit 0
    have whole : programStart + programLimit = memorySize := rfl
    have cleared : copy? m.memory.bytes programStart memorySize zeros =
        some (Block.write m.memory.bytes programStart zeros) :=
      if_pos ⟨by decide, Nat.le_refl _, List.length_replicate⟩
    have stop : wideSum? programStart code.length = some (programStart + code.length) :=
      wideSum?_of_fits (Nat.lt_of_le_of_lt (Nat.add_le_add_left fits programStart) (by decide))
    have laid : copy? (Block.write m.memory.bytes programStart zeros) programStart
          (programStart + code.length) code =
        some (Block.write (Block.write m.memory.bytes programStart zeros) programStart code) :=
      copy?_of_inside _ (whole ▸ Nat.add_le_add_left fits programStart)
    rw [write_write m.memory.bytes fits] at laid
    have loaded : m.memory.load code = .ok ⟨_, code.length, fits⟩ := dif_pos fits
    simp [performLoad, Machine.performLoad, Machine.load, loaded, fits, cleared, stop, laid, zeros,
      bind, Except.bind, pure, Except.pure]
  · simp [performLoad, Machine.performLoad, Machine.load, Memory.load, fits, bind, Except.bind]

theorem perform_eq {m : Machine} (bounded : m.Bounded) (command : Command) :
    perform m command = some (m.perform command) := by
  cases command with
  | load code => exact performLoad_eq m code
  | loadRom rom => exact performLoad_eq m rom.code
  | setKey key down => rfl
  | step => rw [perform, step_eq bounded]; rfl
  | takeRedraw => rfl

theorem program?_eq (memory : Memory) : program? memory = some memory.program := by
  have fits := memory.programLength_le
  have inside : programStart + memory.programLength ≤ memorySize := by
    simp only [programLimit, programStart, memorySize] at *
    omega
  have stop : wideSum? programStart memory.programLength =
      some (programStart + memory.programLength) :=
    wideSum?_of_fits (Nat.lt_of_le_of_lt inside (by decide))
  simp only [program?, stop, Option.bind_eq_bind, Option.bind_some]
  exact read?_of_inside memory.bytes inside

/-- Whatever a host did to a fresh machine, the bounds hold, all addresses that the next instruction
    can work out fit 16 bits, and any further command and the view of the program go through access
    by access. -/
theorem perform_in_range (random : RandomSource) (history : List Command) :
    let m := (Machine.initial random).performAll history
    m.Bounded ∧ m.Narrow ∧ (∀ command, perform m command = some (m.perform command)) ∧
      program? m.memory = some m.memory.program := by
  intro m
  have bounded : m.Bounded := Machine.bounded_performAll random history
  exact ⟨bounded, bounded.narrow, perform_eq bounded, program?_eq m.memory⟩

/-- A step that fails stops the machine and touches nothing else of it, wherever in the work on an
    instruction the fault comes up. Nothing at all changes once the machine has stopped, and a machine
    that waits for a key does not fail. -/
theorem failing_step_untouched (random : RandomSource) (history : List Command) (memory : Memory) :
    let m := { (Machine.initial random).performAll history with memory := memory }
    step m = some m.step ∧
    (∀ cause, m.step.result = .error cause → m.isHalted = false →
      m.step.machine = { m with status := .halted cause }) ∧
    (m.isHalted = true → m.step.result = .error .halted ∧ m.step.machine = m) ∧
    (m.isWaiting = true → ∃ outcome, m.step.result = .ok outcome) := by
  intro m
  have before := Machine.bounded_performAll random history
  have bounded : m.Bounded :=
    .of_control before.pc_le before.frames_le before.register_le
  exact ⟨step_eq bounded, fun _ failed going => Machine.machine_of_step_error failed going,
    Machine.step_of_halted, Machine.step_of_waiting⟩

end Chip8.InPlace
