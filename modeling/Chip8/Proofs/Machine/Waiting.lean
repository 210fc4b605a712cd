import Chip8.Proofs.Machine.Bounds
import Chip8.Proofs.Machine.Failure

/-!
How a machine waits for a key. The instruction that starts the wait succeeds in any case; the steps
after it only let the timers tick, up to the first one that finds a key down, which takes the lowest
such key and nothing more (`Waits`). Execution goes on with the step after that one, at the address
behind the instruction. A history is `Unpressed` as long as none of its steps finds a key down.
-/
namespace Chip8

/-- Both timers go down by one, to zero at the lowest. -/
def Timers.Ticks (before after : Timers) : Prop :=
  after.delay.toNat = before.delay.toNat - 1 ∧ after.sound.toNat = before.sound.toNat - 1

theorem Timers.ticks_tick (timers : Timers) : Ticks timers timers.tick :=
  ⟨toNat_countDown timers.delay, toNat_countDown timers.sound⟩

namespace Machine

/-- No key is down before any step of a history. -/
def Unpressed (m : Machine) (history : List Command) : Prop :=
  ∀ earlier rest, history = earlier ++ .step :: rest →
    ∀ key : Fin keyCount, (m.performAll earlier).keys.get key = false

/-- The next step works on the word at an address: it fails if there is no whole word, or no
    instruction, and otherwise reports the instruction before it does anything. -/
structure WorksAt (m : Machine) (address : Nat) : Prop where
  unread : ∀ cause, m.memory.word address = .error cause → m.step.result = .error cause
  unknown : ∀ word, m.memory.word address = .ok word → Instruction.ofWord? word = none →
    m.step.result = .error (.unknownOpcode word (UInt16.ofNat address))
  known : ∀ word instruction, m.memory.word address = .ok word →
    Instruction.ofWord? word = some instruction →
    m.step.log.head? = some (.executing (UInt16.ofNat address) word instruction)

/-- What the next step does while a machine waits for a key that goes to a register. -/
structure Waits (m : Machine) (x : UInt8) : Prop where
  status : m.status = .waiting x
  -- Memory plays no part, so nothing is fetched.
  unfetched : ∀ memory, { m with memory := memory }.step =
    { m.step with machine := { m.step.machine with memory := memory } }
  idle : (∀ key : Fin keyCount, m.keys.get key = false) →
    m.step.result = .ok { displayChanged := false, waiting := true } ∧
    m.step.machine = { m with timers := m.step.machine.timers } ∧
    m.timers.Ticks m.step.machine.timers ∧ m.step.log = []
  taken : ∀ key : Fin keyCount, m.keys.get key = true →
    (∀ lower : Fin keyCount, lower < key → m.keys.get lower = false) →
    m.step.result = .ok { displayChanged := false, waiting := false } ∧
    m.step.machine = { m with
      status := .running, registers := m.step.machine.registers, timers := m.step.machine.timers } ∧
    (∀ register : Fin registerCount, m.step.machine.registers.get register =
      if register.val = x.toNat then UInt8.ofNat key.val else m.registers.get register) ∧
    m.timers.Ticks m.step.machine.timers ∧ m.step.log = [.keyTaken (UInt8.ofNat key.val) x]

/-! ### One step -/

theorem worksAt_of_running {m : Machine} (running : m.status = .running) :
    WorksAt m m.pc.toNat where
  unread := by
    intro cause refused
    have fault := fetch_eq_error_iff.mpr (.inl refused)
    exact step_eq_error_iff.mpr (.inr ⟨running, .inl fault⟩)
  unknown := by
    intro word read none
    have same : UInt16.ofNat m.pc.toNat = m.pc := UInt16.ofNat_toNat
    have fault := fetch_eq_error_iff.mpr (.inr ⟨word, read, none, rfl⟩)
    rw [same]
    exact step_eq_error_iff.mpr (.inr ⟨running, .inl fault⟩)
  known := by
    intro word instruction read decoded
    have same : UInt16.ofNat m.pc.toNat = m.pc := UInt16.ofNat_toNat
    have fetched := fetch_eq_ok_iff.mpr ⟨read, decoded⟩
    rw [same]
    cases executed : m.execute instruction with
    | ok effect =>
      rw [step_of_execute running fetched executed]
      rfl
    | error cause =>
      rw [step_of_refused running fetched executed]
      rfl

theorem waits_of_status {m : Machine} {x : UInt8} (waiting : m.status = .waiting x)
    (inside : x.toNat < registerCount) : Waits m x where
  status := waiting
  unfetched := by
    intro memory
    cases down : m.keys.lowestDown with
    | none =>
      rw [step_of_idle waiting down]
      exact step_of_idle (m := { m with memory := memory }) waiting down
    | some number =>
      rw [step_of_taken waiting down]
      exact step_of_taken (m := { m with memory := memory }) waiting down
  idle := by
    intro up
    rw [step_of_idle waiting (Keys.lowestDown_eq_none_iff.mpr up)]
    have paused : m.isWaiting = true := by rw [isWaiting, waiting]
    exact ⟨by rw [succeed, paused], rfl, m.timers.ticks_tick, rfl⟩
  taken := by
    intro key down before
    rw [step_of_taken waiting (Keys.lowestDown_eq_some_iff.mpr ⟨key, rfl, down, before⟩)]
    refine ⟨rfl, rfl, ?_, m.timers.ticks_tick, rfl⟩
    intro register
    have number : (Registers.number x).val = x.toNat := Nat.mod_eq_of_lt inside
    show (m.registers.put x _)[register.val] = if _ then _ else m.registers[register.val]
    simp only [Registers.put, Vector.getElem_set, number, eq_comm]

/-- The instruction that starts a wait does nothing else, whatever keys are down. -/
theorem step_of_awaitKey {m : Machine} {word : UInt16} {x : UInt8} (running : m.status = .running)
    (fetched : m.fetch = .ok (word, .awaitKey x)) :
    m.step = { m with status := .waiting x, pc := m.pc + 2 }.succeed false
      [.executing m.pc word (.awaitKey x), .awaitingKey x] :=
  step_of_execute running fetched rfl

/-- A step says that the machine waits exactly if it does. -/
theorem waiting_iff_of_step {m : Machine} {outcome : Outcome} (done : m.step.result = .ok outcome) :
    outcome.waiting = true ↔ ∃ x, m.step.machine.status = .waiting x := by
  have told : outcome.waiting = m.step.machine.isWaiting := by
    have ways := m.stepped
    generalize m.step = transition at ways done
    cases ways with
    | executed | taken | waited => cases done; rfl
    | refused | unfetched | stayed => cases done
  rw [told, isWaiting]
  split
  · next x waiting => simp [waiting]
  · next other => simpa using other

/-- Only one instruction makes a machine wait. -/
theorem executed_of_waiting {m : Machine} {x : UInt8} (before : m.status ≠ .waiting x)
    (after : m.step.machine.status = .waiting x) : m.executed? = some (.awaitKey x) := by
  have ways := m.stepped
  generalize m.step = transition at ways after
  cases ways with
  | executed running fetched done =>
    cases flow_of_execute done with
    | awaitKey =>
      cases after
      exact executed?_of_execute running fetched done
    | plain _ _ _ status => exact absurd (status.symm.trans after) before
    | jump | jumpDisplaced | call | ret | skip => exact absurd after before
  | refused | unfetched | taken => cases after
  | waited | stayed => exact absurd after before

theorem waiting_of_perform {m : Machine} {command : Command} {x : UInt8}
    (before : m.status ≠ .waiting x) (after : (m.perform command).machine.status = .waiting x) :
    command = .step ∧ m.executed? = some (.awaitKey x) := by
  by_cases step : command = .step
  · subst step
    exact ⟨rfl, executed_of_waiting before after⟩
  · obtain ⟨memory, keys, redraw, same⟩ := m.perform_of_ne_step step
    rw [same] at after
    exact absurd after before

/-! ### Waiting for a while -/

theorem Unpressed.tail {m : Machine} {command : Command} {rest : List Command}
    (unpressed : Unpressed m (command :: rest)) : Unpressed (m.perform command).machine rest := by
  rintro earlier later rfl
  exact unpressed (command :: earlier) later rfl

/-- As long as no step finds a key down, a waiting machine only lets its timers tick. -/
theorem performAll_of_unpressed {m : Machine} {x : UInt8} (waiting : m.status = .waiting x)
    {history : List Command} (unpressed : Unpressed m history) :
    ∃ memory keys redraw timers, m.performAll history =
      { m with memory := memory, keys := keys, redraw := redraw, timers := timers } := by
  induction history generalizing m with
  | nil => exact ⟨m.memory, m.keys, m.redraw, m.timers, rfl⟩
  | cons command rest ih =>
    obtain ⟨memory, keys, redraw, timers, same⟩ : ∃ memory keys redraw timers,
        (m.perform command).machine =
          { m with memory := memory, keys := keys, redraw := redraw, timers := timers } := by
      by_cases step : command = .step
      · subst step
        have up := Keys.lowestDown_eq_none_iff.mpr (unpressed [] rest rfl)
        have ticked : (m.perform .step).machine = m.tick :=
          congrArg Transition.machine (step_of_idle waiting up)
        exact ⟨m.memory, m.keys, m.redraw, m.timers.tick, ticked⟩
      · obtain ⟨memory, keys, redraw, same⟩ := m.perform_of_ne_step step
        exact ⟨memory, keys, redraw, m.timers, same⟩
    have still : (m.perform command).machine.status = .waiting x := by rw [same, waiting]
    obtain ⟨memoryLater, keysLater, redrawLater, timersLater, later⟩ := ih still unpressed.tail
    refine ⟨memoryLater, keysLater, redrawLater, timersLater, ?_⟩
    rw [performAll_cons, later, same]

/-- Without a step nothing but memory, the keys and the note of the picture can change. -/
theorem performAll_of_no_step (m : Machine) {history : List Command} (quiet : .step ∉ history) :
    ∃ memory keys redraw, m.performAll history =
      { m with memory := memory, keys := keys, redraw := redraw } := by
  refine performAll_induction_of_mem (P := fun now => ∃ memory keys redraw,
    now = { m with memory := memory, keys := keys, redraw := redraw }) ?_
    ⟨m.memory, m.keys, m.redraw, rfl⟩
  rintro now command among ⟨_, _, _, same⟩
  have other : command ≠ .step := fun step => quiet (step ▸ among)
  obtain ⟨memory, keys, redraw, next⟩ := now.perform_of_ne_step other
  exact ⟨memory, keys, redraw, by rw [next, same]⟩

/-- How a machine goes through the wait that its next step starts. -/
structure AwaitsKey (m : Machine) (x : UInt8) : Prop where
  register_lt : x.toNat < registerCount
  -- Nothing is asked of the keys.
  entered : m.step.result = .ok { displayChanged := false, waiting := true } ∧
    m.step.machine.pc.toNat = m.pc.toNat + 2 ∧ m.timers.Ticks m.step.machine.timers ∧
    m.step.machine = { m with
      status := .waiting x, pc := m.step.machine.pc, timers := m.step.machine.timers }
  waits : ∀ later, Unpressed m.step.machine later →
    let now := m.step.machine.performAll later
    Waits now x ∧ now = { m.step.machine with
      memory := now.memory, keys := now.keys, redraw := now.redraw, timers := now.timers }
  resumes : ∀ later between, Unpressed m.step.machine later →
    (∃ key : Fin keyCount, (m.step.machine.performAll later).keys.get key = true) →
    .step ∉ between →
    let next := m.step.machine.performAll (later ++ .step :: between)
    next.status = .running ∧ next.pc = m.step.machine.pc ∧ WorksAt next (m.pc.toNat + 2)

theorem awaitsKey_of_fetch {m : Machine} {word : UInt16} {x : UInt8}
    (running : m.status = .running) (fetched : m.fetch = .ok (word, .awaitKey x)) :
    AwaitsKey m x := by
  have inside : x.toNat < registerCount :=
    Instruction.fits_of_ofWord? (fetch_eq_ok_iff.mp fetched).2
  have stepped := step_of_awaitKey running fetched
  have waiting : m.step.machine.status = .waiting x := by rw [stepped]; rfl
  have behind : m.step.machine.pc.toNat = m.pc.toNat + 2 := by
    rw [stepped]
    exact toNat_add_small (pc_of_fetch fetched) (by decide)
  refine ⟨inside, ?_, ?_, ?_⟩
  · refine ⟨by rw [stepped]; rfl, behind, ?_, by rw [stepped]; rfl⟩
    rw [stepped]
    exact m.timers.ticks_tick
  · intro later unpressed now
    obtain ⟨memory, keys, redraw, timers, same⟩ := performAll_of_unpressed waiting unpressed
    have still : now.status = .waiting x := by rw [show now = _ from same, waiting]
    exact ⟨waits_of_status still inside, by rw [show now = _ from same]⟩
  · rintro later between unpressed ⟨key, down⟩ quiet next
    obtain ⟨memory, keys, redraw, timers, same⟩ := performAll_of_unpressed waiting unpressed
    have still : (m.step.machine.performAll later).status = .waiting x := by rw [same, waiting]
    have position : (m.step.machine.performAll later).pc = m.step.machine.pc := by rw [same]
    obtain ⟨number, lowest⟩ :
        ∃ number, (m.step.machine.performAll later).keys.lowestDown = some number := by
      cases lowest : (m.step.machine.performAll later).keys.lowestDown with
      | some number => exact ⟨number, rfl⟩
      | none =>
        rw [Keys.lowestDown_eq_none_iff.mp lowest key] at down
        cases down
    have taken := step_of_taken still lowest
    obtain ⟨memory, keys, redraw, after⟩ :=
      performAll_of_no_step (m.step.machine.performAll later).step.machine quiet
    have nextIs : next = _ := (performAll_append m.step.machine later (.step :: between)).trans after
    have running : next.status = .running := by rw [nextIs, taken]; rfl
    have resumed : next.pc = m.step.machine.pc := by
      rw [nextIs, taken, ← position]
      rfl
    exact ⟨running, resumed, behind ▸ resumed ▸ worksAt_of_running running⟩

/-- Whatever was done to a fresh machine, a wait for a key goes as `AwaitsKey` says, a step says that
    the machine waits exactly if it does, and only the one instruction makes it wait. -/
theorem key_wait_protocol (random : RandomSource) (history : List Command) :
    let m := (initial random).performAll history
    (∀ word x, m.status = .running → m.fetch = .ok (word, .awaitKey x) → AwaitsKey m x) ∧
    (∀ outcome, m.step.result = .ok outcome →
      (outcome.waiting = true ↔ ∃ x, m.step.machine.status = .waiting x)) ∧
    (∀ command x, m.status ≠ .waiting x → (m.perform command).machine.status = .waiting x →
      command = .step ∧ m.executed? = some (.awaitKey x)) := by
  intro m
  exact ⟨fun _ _ => awaitsKey_of_fetch, fun _ => waiting_iff_of_step, fun _ _ => waiting_of_perform⟩

end Machine

end Chip8
