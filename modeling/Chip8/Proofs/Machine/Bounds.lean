import Chip8.Proofs.Instruction.Digits
import Chip8.Proofs.Machine.Flow
import Chip8.Proofs.Machine.History

/-!
How far the numbers of a machine can go. The bounds hang on each other: an address is put on the
call stack only after the word at it was fetched, which keeps the way back within memory, and only
a displaced jump leads further out, by at most one byte's worth (`bounded_performAll`).
-/
namespace Chip8.Machine

/-- The bounds that a machine keeps whatever a host does to it. -/
structure Bounded (m : Machine) : Prop where
  -- A displaced jump reaches furthest.
  pc_le : m.pc.toNat ≤ 0xFFF + 0xFF
  -- Every call was fetched as a whole word.
  frames_le : ∀ address ∈ m.stack.live, address.toNat ≤ 4094
  depth_le : m.stack.depth ≤ callLimit
  -- The loaded program ends within memory.
  program_le : programStart + m.memory.programLength ≤ memorySize
  -- A machine waits for one of the sixteen registers.
  register_le : ∀ register, m.status = .waiting register → register.toNat ≤ 15

/-- The two parts of the bounds that the types of memory and of the stack keep by themselves. -/
theorem Bounded.of_control {m : Machine} (pc_le : m.pc.toNat ≤ 0xFFF + 0xFF)
    (frames_le : ∀ address ∈ m.stack.live, address.toNat ≤ 4094)
    (register_le : ∀ register, m.status = .waiting register → register.toNat ≤ 15) : Bounded m where
  pc_le := pc_le
  frames_le := frames_le
  depth_le := m.stack.depth_le
  program_le := by
    have fits := m.memory.programLength_le
    simp only [programLimit, programStart, memorySize] at *
    omega
  register_le := register_le

theorem bounded_initial (random : RandomSource) : Bounded (initial random) := by
  refine .of_control ?_ ?_ ?_
  · show (UInt16.ofNat programStart).toNat ≤ _
    decide
  · intro address live
    simp [initial] at live
  · intro register waiting
    cases waiting

/-- The sum of a fetched address and a small number is exact. -/
theorem toNat_add_small {pc : UInt16} (fetched : pc.toNat ≤ 4094) {n : UInt16}
    (small : n.toNat ≤ 0x1000) : (pc + n).toNat = pc.toNat + n.toNat := by
  rw [UInt16.toNat_add]
  omega

theorem toNat_displaced {nnn : UInt16} (fits : nnn.toNat < 0x1000) (byte : UInt8) :
    (byte.toUInt16 + nnn).toNat = byte.toNat + nnn.toNat := by
  have small := byte.toNat_lt
  rw [UInt16.toNat_add, UInt8.toNat_toUInt16]
  omega

/-- An executed instruction leads to an address within the bounds. -/
theorem target_le {m : Machine} (bounded : Bounded m) {instruction : Instruction} {effect : Effect}
    (fetched : m.pc.toNat ≤ 4094) (fits : instruction.Fits) (flow : Flow m instruction effect) :
    (effect.advance.target m.pc).toNat ≤ 0xFFF + 0xFF := by
  have next : (m.pc + 2).toNat = m.pc.toNat + 2 := toNat_add_small fetched (by decide)
  have skip : (m.pc + 4).toNat = m.pc.toNat + 4 := toNat_add_small fetched (by decide)
  cases flow with
  | jump nnn | call nnn room =>
    have small : nnn.toNat < 0x1000 := fits
    simp only [Advance.target]
    omega
  | jumpDisplaced nnn =>
    have sum := toNat_displaced fits (m.value 0)
    have small : nnn.toNat < 0x1000 := fits
    have byte := (m.value 0).toNat_lt
    simp only [Advance.target]
    omega
  | ret inside =>
    rename_i address popped
    have called : address.toNat ≤ 4094 := by
      apply bounded.frames_le
      rw [CallStack.live_of_pop? inside]
      exact List.mem_cons_self
    have back : (address + 2).toNat = address.toNat + 2 := toNat_add_small called (by decide)
    simp only [Advance.target]
    omega
  | awaitKey x =>
    simp only [Advance.target]
    omega
  | skip isSkip condition =>
    cases condition
    · simp only [Advance.skipIf, Advance.target, Bool.false_eq_true, if_false]
      omega
    · simp only [Advance.skipIf, Advance.target, if_true]
      omega
  | plain isPlain advance stack status =>
    simp only [advance, Advance.target]
    omega

theorem frames_le_of_flow {m : Machine} (bounded : Bounded m) {instruction : Instruction}
    {effect : Effect} (fetched : m.pc.toNat ≤ 4094) (flow : Flow m instruction effect) :
    ∀ address ∈ effect.machine.stack.live, address.toNat ≤ 4094 := by
  intro address live
  cases flow with
  | call nnn room =>
    rw [CallStack.live_of_push? room] at live
    rcases List.mem_cons.mp live with same | earlier
    · exact same ▸ fetched
    · exact bounded.frames_le address earlier
  | ret inside =>
    apply bounded.frames_le
    rw [CallStack.live_of_pop? inside]
    exact List.mem_cons_of_mem _ live
  | plain isPlain advance stack status => exact bounded.frames_le address (stack ▸ live)
  | jump | jumpDisplaced | awaitKey | skip => exact bounded.frames_le address live

theorem register_le_of_flow {m : Machine} (running : m.status = .running)
    {instruction : Instruction} {effect : Effect} (fits : instruction.Fits)
    (flow : Flow m instruction effect) (register : UInt8)
    (waiting : effect.machine.status = .waiting register) : register.toNat ≤ 15 := by
  cases flow with
  | awaitKey x =>
    cases waiting
    exact Nat.le_of_lt_succ fits
  | plain isPlain advance stack status =>
    rw [status, running] at waiting
    cases waiting
  | jump | jumpDisplaced | call | ret | skip =>
    rw [running] at waiting
    cases waiting

theorem bounded_step {m : Machine} (bounded : Bounded m) : Bounded m.step.machine := by
  have ways := m.stepped
  generalize m.step = transition at ways
  cases ways with
  | executed running fetched done =>
    have flow := flow_of_execute done
    have fits := Instruction.fits_of_ofWord? (fetch_eq_ok_iff.mp fetched).2
    have inside := pc_of_fetch fetched
    exact .of_control (target_le bounded inside fits flow) (frames_le_of_flow bounded inside flow)
      (register_le_of_flow running fits flow)
  | refused running fetched fault | unfetched running fault =>
    exact .of_control bounded.pc_le bounded.frames_le (by intro register waiting; cases waiting)
  | taken waiting down =>
    exact .of_control bounded.pc_le bounded.frames_le (by intro register waiting; cases waiting)
  | waited waiting up => exact .of_control bounded.pc_le bounded.frames_le bounded.register_le
  | stayed halted => exact bounded

theorem bounded_perform (m : Machine) (command : Command) (bounded : Bounded m) :
    Bounded (m.perform command).machine := by
  by_cases step : command = .step
  · subst step
    exact bounded_step bounded
  · obtain ⟨memory, keys, redraw, same⟩ := m.perform_of_ne_step step
    rw [same]
    exact .of_control bounded.pc_le bounded.frames_le bounded.register_le

/-- Whatever a host does to a fresh machine, the bounds are kept. -/
theorem bounded_performAll (random : RandomSource) (history : List Command) :
    Bounded ((initial random).performAll history) :=
  performAll_induction bounded_perform (bounded_initial random) history

/-! ### Arithmetic -/

/-- No address that an instruction works out of the numbers of a machine needs more than 16 bits. -/
structure Narrow (m : Machine) : Prop where
  next_lt : m.pc.toNat + 2 < 0x10000
  skip_lt : m.pc.toNat + 4 < 0x10000
  back_lt : ∀ address ∈ m.stack.live, address.toNat + 2 < 0x10000
  displaced_lt : ∀ nnn : UInt16, nnn.toNat < 0x1000 → (m.value 0).toNat + nnn.toNat < 0x10000
  glyph_lt : ∀ x, (m.value x).toNat * Font.glyphSize < 0x10000

theorem Bounded.narrow {m : Machine} (bounded : Bounded m) : Narrow m := by
  have reach := bounded.pc_le
  refine ⟨by omega, by omega, ?_, ?_, ?_⟩
  · intro address live
    have called := bounded.frames_le address live
    omega
  · intro nnn fits
    have byte := (m.value 0).toNat_lt
    omega
  · intro x
    have byte := (m.value x).toNat_lt
    simp only [Font.glyphSize]
    omega

end Chip8.Machine
