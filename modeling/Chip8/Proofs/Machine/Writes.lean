import Chip8.Proofs.Machine.History
import Chip8.Proofs.Machine.Output
import Chip8.Proofs.Instruction.Digits
import Chip8.Proofs.Memory.Writing

/-!
What a history writes to memory. Programs that are loaded, and two of the instructions, write one
block each (`Writes`), and nothing else does. So every byte is the one that the last of these
writings put there (`byte_performAll`), and registers that were stored come back when they are loaded
from where they were stored, as long as nothing was written over them (`load_after_store`).
-/
namespace Chip8

/-- The program that was last put into memory. -/
def Command.lastProgram (history : List Command) : List UInt8 :=
  history.foldl (fun code command => command.program?.getD code) []

namespace Machine

/-- What a command writes to memory. -/
def writing? (m : Machine) : Command → Option Writing
  | .step => m.executed?.bind fun instruction => (m.stored? instruction).map (⟨m.index.toNat, ·⟩)
  | command => command.program?.map .program

/-- What a history writes to memory, in order. -/
def writings (m : Machine) : List Command → List Writing
  | [] => []
  | command :: rest => (m.writing? command).toList ++ (m.perform command).machine.writings rest

/-- The only ways to write to memory. -/
inductive Writes (m : Machine) : Command → Writing → Prop where
  | program {command : Command} {code : List UInt8} (loads : command.program? = some code) :
      Writes m command (.program code)
  | digits {x hundreds tens ones : UInt8} (executed : m.executed? = some (.storeDigits x))
      (small : hundreds.toNat ≤ 9 ∧ tens.toNat ≤ 9 ∧ ones.toNat ≤ 9)
      (sum : 100 * hundreds.toNat + 10 * tens.toNat + ones.toNat = (m.value x).toNat) :
      Writes m .step ⟨m.index.toNat, [hundreds, tens, ones]⟩
  | registers {x : UInt8} (executed : m.executed? = some (.storeRegisters x)) :
      Writes m .step ⟨m.index.toNat, m.registers.toList.take (x.toNat + 1)⟩

/-! ### What is written -/

theorem decimalDigits_eq_iff {byte hundreds tens ones : UInt8} :
    decimalDigits byte = [hundreds, tens, ones] ↔
      (hundreds.toNat ≤ 9 ∧ tens.toNat ≤ 9 ∧ ones.toNat ≤ 9) ∧
        100 * hundreds.toNat + 10 * tens.toNat + ones.toNat = byte.toNat := by
  have bound := byte.toNat_lt
  simp only [decimalDigits, List.cons.injEq, and_true, ← UInt8.toNat_inj, UInt8.toNat_div,
    UInt8.toNat_mod, UInt8.toNat_ofNat, Nat.reducePow, Nat.reduceMod]
  omega

theorem upTo_eq_take (v : Registers) {x : UInt8} (inside : x.toNat < registerCount) :
    v.upTo x = v.toList.take (x.toNat + 1) := by
  apply List.ext_getElem
  · simp only [Registers.upTo, Registers.countTo, Block.length_read, List.length_take,
      Vector.length_toList]
    omega
  · intro place before _
    have below : place < x.toNat + 1 := by simpa [Registers.upTo, Registers.countTo] using before
    have known : place < registerCount := by omega
    simp [Registers.upTo, Block.read, known]

theorem fits_of_executed {m : Machine} {instruction : Instruction}
    (executed : m.executed? = some instruction) : instruction.Fits := by
  obtain ⟨_, _, _, fetched, _⟩ := executed?_eq_some_iff.mp executed
  exact Instruction.fits_of_ofWord? (fetch_eq_ok_iff.mp fetched).2

theorem writing?_of_ne_step (m : Machine) {command : Command} (other : command ≠ .step) :
    m.writing? command = command.program?.map .program := by
  cases command with
  | step => exact absurd rfl other
  | load | loadRom | setKey | takeRedraw => rfl

theorem writing?_of_executed {m : Machine} {instruction : Instruction}
    (executed : m.executed? = some instruction) :
    m.writing? .step = (m.stored? instruction).map (⟨m.index.toNat, ·⟩) := by
  rw [writing?, executed, Option.bind_some]

theorem writing?_eq_some_iff {m : Machine} {command : Command} {w : Writing} :
    m.writing? command = some w ↔ Writes m command w := by
  constructor
  · intro written
    by_cases step : command = .step
    · subst step
      obtain ⟨instruction, executed, stored⟩ := Option.bind_eq_some_iff.mp written
      obtain ⟨data, stores, rfl⟩ := Option.map_eq_some_iff.mp stored
      have fits := fits_of_executed executed
      cases instruction
      case storeDigits x =>
        cases stores
        obtain ⟨small, sum⟩ := decimalDigits_eq_iff.mp (show decimalDigits (m.value x) = _ from rfl)
        exact .digits executed small sum
      case storeRegisters x =>
        cases stores
        rw [upTo_eq_take m.registers fits]
        exact .registers executed
      all_goals cases stores
    · rw [m.writing?_of_ne_step step] at written
      obtain ⟨code, loads, rfl⟩ := Option.map_eq_some_iff.mp written
      exact .program loads
  · intro writes
    cases writes with
    | program loads =>
      have other : command ≠ .step := by
        rintro rfl
        cases loads
      rw [m.writing?_of_ne_step other, loads, Option.map_some]
    | digits executed small sum =>
      rw [writing?_of_executed executed, stored?, decimalDigits_eq_iff.mpr ⟨small, sum⟩]
      rfl
    | @registers x executed =>
      have fits : x.toNat < registerCount := fits_of_executed executed
      rw [writing?_of_executed executed, stored?, upTo_eq_take m.registers fits]
      rfl

/-! ### One command -/

/-- A command that loads a program writes it, and is answered accordingly. -/
theorem perform_of_program {m : Machine} {command : Command} {code : List UInt8}
    (loads : command.program? = some code) :
    (Writing.program code).Applied m.memory (m.perform command).machine.memory ∧
      (m.perform command).machine.memory.programLength = code.length ∧
      (m.perform command).answer = .loaded (.ok ()) := by
  have other : command ≠ .step := by
    rintro rfl
    cases loads
  have ways := m.handled other
  generalize m.perform command = performance at ways
  cases ways with
  | loaded again done =>
    cases loads.symm.trans again
    obtain ⟨_, applied, length⟩ := Memory.load_eq_ok_iff.mp done
    exact ⟨applied, length, rfl⟩
  | unloaded none =>
    rw [loads] at none
    cases none
  | keySet | redrawTaken => cases loads

/-- A command other than a step that loads no program leaves memory alone. -/
theorem perform_of_no_program {m : Machine} {command : Command} (other : command ≠ .step)
    (loads : command.program? = none) :
    (m.perform command).machine.memory = m.memory ∧
      (m.perform command).answer ≠ .loaded (.ok ()) := by
  have ways := m.handled other
  generalize m.perform command = performance at ways
  cases ways with
  | loaded again =>
    rw [loads] at again
    cases again
  | unloaded | keySet | redrawTaken => exact ⟨rfl, by simp⟩

/-- An instruction that stores something writes it at the index, and any other step leaves memory
    alone. -/
theorem memory_step (m : Machine) :
    (∃ w, m.writing? .step = some w ∧
      m.memory.write w.start w.bytes = .ok m.step.machine.memory) ∨
    (m.writing? .step = none ∧ m.step.machine.memory = m.memory) := by
  have ways := m.stepped
  generalize stepped : m.step = transition at ways
  cases ways with
  | executed running fetched done =>
    have written := writing?_of_executed (executed?_of_execute running fetched done)
    cases output_of_execute done with
    | clear | draw | awaitKey => exact .inr ⟨written, rfl⟩
    | store stores write =>
      rw [stores] at written
      exact .inl ⟨_, written, write⟩
    | none stores memory =>
      rw [stores] at written
      exact .inr ⟨written, memory⟩
  | refused | unfetched =>
    have quiet := executed?_eq_none (.inr ⟨_, congrArg Transition.result stepped⟩)
    exact .inr ⟨by rw [writing?, quiet, Option.bind_none], rfl⟩
  | taken idle | waited idle | stayed idle =>
    have quiet := executed?_eq_none (m := m) (.inl (by rw [idle]; exact Status.noConfusion))
    exact .inr ⟨by rw [writing?, quiet, Option.bind_none], rfl⟩

/-- What a command does to memory is what it writes. -/
theorem memory_perform (m : Machine) (command : Command) :
    (∃ w, m.writing? command = some w ∧ w.Applied m.memory (m.perform command).machine.memory) ∨
    (m.writing? command = none ∧ (m.perform command).machine.memory = m.memory) := by
  by_cases step : command = .step
  · subst step
    rcases m.memory_step with ⟨w, written, write⟩ | quiet
    · refine .inl ⟨w, written, ?_⟩
      have after := (Memory.write_eq_ok_iff.mp write).2
      exact congrArg Memory.bytes after
    · exact .inr quiet
  · have written := m.writing?_of_ne_step step
    cases loads : command.program? with
    | some code =>
      rw [loads] at written
      exact .inl ⟨_, written, (perform_of_program loads).1⟩
    | none =>
      rw [loads] at written
      exact .inr ⟨written, (perform_of_no_program step loads).1⟩

theorem programLength_perform (m : Machine) (command : Command) :
    (m.perform command).machine.memory.programLength =
      (command.program?.map List.length).getD m.memory.programLength := by
  by_cases step : command = .step
  · subst step
    rcases m.memory_step with ⟨w, _, write⟩ | ⟨_, same⟩
    · have after := (Memory.write_eq_ok_iff.mp write).2
      show m.step.machine.memory.programLength = m.memory.programLength
      rw [after]
    · exact congrArg Memory.programLength same
  · cases loads : command.program? with
    | some code => exact (perform_of_program loads).2.1
    | none => exact congrArg Memory.programLength (perform_of_no_program step loads).1

theorem loads_iff (m : Machine) (command : Command) :
    (∃ code, command.program? = some code) ↔ (m.perform command).answer = .loaded (.ok ()) := by
  constructor
  · rintro ⟨code, loads⟩
    exact (perform_of_program loads).2.2
  · intro answered
    by_cases step : command = .step
    · subst step
      cases answered
    · cases loads : command.program? with
      | some code => exact ⟨code, rfl⟩
      | none => exact absurd answered (perform_of_no_program step loads).2

/-! ### Whole histories -/

/-- After a history every byte is the one that the last writing over its address put there; where
    there was none it is the one from before. -/
theorem byte_performAll (m : Machine) (history : List Command) {address : Nat}
    (inside : address < memorySize) :
    Writing.LastPut (m.writings history) address ((m.performAll history).memory.byte address) ∨
    ((∀ w ∈ m.writings history, ¬ w.Covers address) ∧
      (m.performAll history).memory.byte address = m.memory.byte address) := by
  induction history generalizing m with
  | nil => exact .inr ⟨by simp [writings], rfl⟩
  | cons command rest ih =>
    have left := ih (m.perform command).machine
    rw [performAll_cons, writings]
    rcases m.memory_perform command with ⟨w, written, applied⟩ | ⟨quiet, unchanged⟩
    · rw [written, Option.toList_some, List.singleton_append]
      exact Writing.LastPut.cons_or_before applied inside left
    · rw [quiet, Option.toList_none, List.nil_append, ← unchanged]
      exact left

theorem byte_of_untouched (m : Machine) {history : List Command} {address : Nat}
    (inside : address < memorySize) (untouched : ∀ w ∈ m.writings history, ¬ w.Covers address) :
    (m.performAll history).memory.byte address = m.memory.byte address := by
  rcases m.byte_performAll history inside with ⟨_, w, _, split, puts, _⟩ | ⟨_, same⟩
  · have covered : w.Covers address := Writing.covers_iff.mpr ⟨_, puts⟩
    exact absurd covered (untouched w (by rw [split]; simp))
  · exact same

theorem programLength_performAll {m : Machine} {code : List UInt8}
    (length : m.memory.programLength = code.length) (history : List Command) :
    (m.performAll history).memory.programLength =
      (history.foldl (fun code command => command.program?.getD code) code).length := by
  induction history generalizing m code with
  | nil => exact length
  | cons command rest ih =>
    refine ih ?_
    rw [programLength_perform, length]
    cases loads : command.program? with
    | none => simp only [loads, Option.map_none, Option.getD_none]
    | some code => simp only [loads, Option.map_some, Option.getD_some]

/-! ### Storing and loading registers -/

theorem puts_of_stored {m : Machine} {x : UInt8} (stored : m.executed? = some (.storeRegisters x))
    {register : Fin registerCount} (among : register.val ≤ x.toNat) :
    ∃ w, m.writing? .step = some w ∧
      w.Puts (m.index.toNat + register.val) (m.registers.get register) := by
  have inside : x.toNat < registerCount := fits_of_executed stored
  refine ⟨_, writing?_eq_some_iff.mpr (.registers stored), Nat.le_add_right _ _, ?_⟩
  have below : register.val < x.toNat + 1 := Nat.lt_succ_of_le among
  simp [Vector.get, below]

/-- Stored registers lie inside of memory as a whole. -/
theorem block_of_stored {m : Machine} {x : UInt8}
    (stored : m.executed? = some (.storeRegisters x)) :
    m.index.toNat + (x.toNat + 1) ≤ memorySize := by
  obtain ⟨_, _, effect, _, done, _⟩ := executed?_eq_some_iff.mp stored
  obtain ⟨written, write, _⟩ := bind_eq_ok_iff.mp done
  have passed := (Memory.check_eq_ok_iff ..).mp (Memory.write_eq_ok_iff.mp write).1
  simpa [Registers.upTo, Registers.countTo] using passed.2

theorem step_of_loadRegisters {m : Machine} {word : UInt16} {y : UInt8}
    (running : m.status = .running) (fetched : m.fetch = .ok (word, .loadRegisters y))
    (inside : m.index.toNat + (y.toNat + 1) ≤ memorySize) :
    m.executed? = some (.loadRegisters y) ∧ m.step.machine.index = m.index ∧
      ∀ register : Fin registerCount, m.step.machine.registers.get register =
        if register.val ≤ y.toNat then m.memory.byte (m.index.toNat + register.val)
        else m.registers.get register := by
  have passed : Memory.check m.index.toNat (Registers.countTo y) = .ok () :=
    (Memory.check_eq_ok_iff ..).mpr ⟨by omega, inside⟩
  have sliced : m.memory.slice m.index.toNat (Registers.countTo y) = .ok _ :=
    Memory.slice_eq_ok_iff.mpr ⟨passed, rfl⟩
  have done : m.execute (.loadRegisters y) = .ok _ := bind_eq_ok_iff.mpr ⟨_, sliced, rfl⟩
  refine ⟨executed?_of_execute running fetched done, ?_⟩
  rw [step_of_execute running fetched done]
  refine ⟨rfl, ?_⟩
  intro register
  show (Block.write m.registers 0
      (Block.read m.memory.bytes m.index.toNat (y.toNat + 1)))[register.val] =
    if _ then _ else m.registers[register.val]
  rw [Block.getElem_write, if_pos (Nat.zero_le _), Nat.sub_zero]
  by_cases among : register.val ≤ y.toNat
  · rw [if_pos among, Block.getElem?_read _ (Nat.lt_succ_of_le among)]
    rfl
  · have past : (Block.read m.memory.bytes m.index.toNat (y.toNat + 1)).length ≤ register.val := by
      rw [Block.length_read]
      omega
    rw [if_neg among, List.getElem?_eq_none past]
    rfl

/-- Registers that were stored come back when they are loaded from the same place, if nothing was
    written over them in between. -/
theorem load_after_store {m : Machine} {x y : UInt8} {word : UInt16} {between : List Command}
    (stored : m.executed? = some (.storeRegisters x)) (le : y.toNat ≤ x.toNat)
    (running : (m.step.machine.performAll between).status = .running)
    (fetched : (m.step.machine.performAll between).fetch = .ok (word, .loadRegisters y))
    (index : (m.step.machine.performAll between).index = m.index)
    (untouched : ∀ w ∈ m.step.machine.writings between, ∀ offset ≤ y.toNat,
      ¬ w.Covers (m.index.toNat + offset)) :
    let later := m.step.machine.performAll between
    later.executed? = some (.loadRegisters y) ∧ later.step.machine.index = later.index ∧
      ∀ register : Fin registerCount, later.step.machine.registers.get register =
        if register.val ≤ y.toNat then m.registers.get register else later.registers.get register := by
  intro later
  have block := block_of_stored stored
  have inside : later.index.toNat + (y.toNat + 1) ≤ memorySize := by
    rw [show later.index = _ from index]
    omega
  obtain ⟨executed, kept, registers⟩ := step_of_loadRegisters running fetched inside
  refine ⟨executed, kept, ?_⟩
  intro register
  rw [registers register]
  by_cases among : register.val ≤ y.toNat
  · rw [if_pos among, if_pos among, show later.index = _ from index]
    have known : m.index.toNat + register.val < memorySize := by omega
    obtain ⟨w, written, puts⟩ := puts_of_stored stored (Nat.le_trans among le)
    have applied : w.Applied m.memory m.step.machine.memory := by
      rcases m.memory_perform .step with ⟨other, same, applied⟩ | ⟨quiet, _⟩
      · obtain rfl : other = w := Option.some.inj (same.symm.trans written)
        exact applied
      · rw [written] at quiet
        cases quiet
    have before := Writing.byte_of_puts applied known puts
    have same := m.step.machine.byte_of_untouched known
      fun w later => untouched w later register.val among
    exact same.trans before
  · rw [if_neg among, if_neg among]

/-- Whatever was done to a fresh machine, every byte of memory is the one that was put there last:
    with power on, by a program that was loaded, or by one of the two instructions that write to
    memory. With power on the eighty bytes of the font come first, and then zeros. All other commands
    leave memory alone, and so stored registers are there to be loaded until something is written over
    them. -/
theorem memory_last_write_wins (random : RandomSource) (history : List Command) :
    let fresh := initial random
    let m := fresh.performAll history
    (∀ address < memorySize,
      Writing.LastPut (.powerOn :: fresh.writings history) address (m.memory.byte address)) ∧
    Font.bytes.length = 80 ∧
    (∀ address < 80, Font.bytes[address]? = some (fresh.memory.byte address)) ∧
    (∀ address, 80 ≤ address → address < memorySize → fresh.memory.byte address = 0) ∧
    (∀ command w, m.writing? command = some w ↔ Writes m command w) ∧
    (∀ command, m.writing? command = none → (m.perform command).machine.memory = m.memory) ∧
    (∀ command, (∃ code, command.program? = some code) ↔
      (m.perform command).answer = .loaded (.ok ())) ∧
    m.memory.programLength = (Command.lastProgram history).length ∧
    m.memory.program = (List.range m.memory.programLength).map
      (fun offset => m.memory.byte (programStart + offset)) ∧
    (∀ before between x y word, history = before ++ .step :: between →
      let stored := fresh.performAll before
      stored.executed? = some (.storeRegisters x) → y.toNat ≤ x.toNat → m.status = .running →
      m.fetch = .ok (word, .loadRegisters y) → m.index = stored.index →
      (∀ w ∈ stored.step.machine.writings between, ∀ offset ≤ y.toNat,
        ¬ w.Covers (m.index.toNat + offset)) →
      m.executed? = some (.loadRegisters y) ∧ m.step.machine.index = m.index ∧
      ∀ register : Fin registerCount, m.step.machine.registers.get register =
        if register.val ≤ y.toNat then stored.registers.get register else m.registers.get register) := by
  intro fresh m
  refine ⟨?_, Writing.length_font, fun _ => Writing.font_of_initial,
    fun _ => Writing.byte_initial_of_past, fun _ _ => writing?_eq_some_iff, ?_, m.loads_iff,
    programLength_performAll rfl history, rfl, ?_⟩
  · intro address inside
    rcases fresh.byte_performAll history inside with put | ⟨uncovered, same⟩
    · exact put.of_later [.powerOn]
    · rw [show m.memory.byte address = _ from same]
      exact .of_uncovered (Writing.powerOn_puts inside) uncovered
  · intro command quiet
    rcases m.memory_perform command with ⟨w, written, _⟩ | ⟨_, same⟩
    · rw [written] at quiet
      cases quiet
    · exact same
  · rintro before between x y word rfl stored executed le running fetched index untouched
    have now : m = stored.step.machine.performAll between := performAll_append ..
    rw [now] at running fetched index untouched ⊢
    rw [index] at untouched
    exact load_after_store executed le running fetched index untouched

end Machine

end Chip8
