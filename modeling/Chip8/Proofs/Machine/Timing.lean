import Chip8.Proofs.Machine.Executions
import Chip8.Proofs.Machine.Halting

/-!
The timers as a function of what happened. A timer counts the steps that succeed, executed and waited
ones alike, down from the value it was set to last, and stays at zero (`reading_performAll`). The step
that sets a timer counts already, since timers tick at the end of a step; one that reads a timer does
not, since it reads it before (`timers_count_from_last_set`).
-/
namespace Chip8

inductive Timer where
  | delay
  | sound
  deriving DecidableEq

namespace Timer

def reading : Timer → Timers → UInt8
  | delay, timers => timers.delay
  | sound, timers => timers.sound

/-- The instruction that sets a timer to the contents of a register. -/
def set : Timer → UInt8 → Instruction
  | delay, x => .setDelay x
  | sound, x => .setSound x

theorem toNat_reading_tick (timer : Timer) (timers : Timers) :
    (timer.reading timers.tick).toNat = (timer.reading timers).toNat - 1 := by
  cases timer with
  | delay => exact Timers.toNat_countDown timers.delay
  | sound => exact Timers.toNat_countDown timers.sound

theorem reading_set (timer : Timer) (m : Machine) (x : UInt8) :
    timer.reading (m.timersAfter (timer.set x)) = m.value x := by
  cases timer with
  | delay | sound => rfl

theorem reading_other (timer : Timer) (m : Machine) {instruction : Instruction}
    (other : ∀ x, instruction ≠ timer.set x) :
    timer.reading (m.timersAfter instruction) = timer.reading m.timers := by
  cases instruction
  case setDelay x =>
    cases timer with
    | delay => exact absurd rfl (other x)
    | sound => rfl
  case setSound x =>
    cases timer with
    | delay => rfl
    | sound => exact absurd rfl (other x)
  all_goals rfl

end Timer

namespace Machine

/-- The number of steps of a history that succeed. -/
def successes (m : Machine) (history : List Command) : Nat :=
  (m.stepResults history).countP Except.isOk

/-- A history sets a timer for the last time to a value, and so many steps succeed from the step that
    does so on. -/
def SetLast (timer : Timer) (m : Machine) (history : List Command) (value : UInt8) (age : Nat) :
    Prop :=
  ∃ before x since, history = before ++ .step :: since ∧
    (m.performAll before).executed? = some (timer.set x) ∧
    (∀ y, timer.set y ∉ (m.performAll before).step.machine.executions since) ∧
    value = (m.performAll before).value x ∧ age = (m.performAll before).successes (.step :: since)

/-! ### Counting steps -/

theorem successes_of_ok {m : Machine} {outcome : Outcome} (done : m.step.result = .ok outcome)
    (rest : List Command) :
    m.successes (.step :: rest) = m.step.machine.successes rest + 1 := by
  rw [successes, stepResults_step, done]
  exact List.countP_cons_of_pos rfl

theorem successes_of_error {m : Machine} {cause : Fault} (failed : m.step.result = .error cause)
    (rest : List Command) : m.successes (.step :: rest) = m.step.machine.successes rest := by
  rw [successes, stepResults_step, failed]
  exact List.countP_cons_of_neg (by simp [Except.isOk, Except.toBool])

theorem successes_of_ne_step (m : Machine) {command : Command} (other : command ≠ .step)
    (rest : List Command) :
    m.successes (command :: rest) = (m.perform command).machine.successes rest := by
  rw [successes, m.stepResults_of_ne_step other]
  rfl

/-! ### Setting a timer -/

theorem step_of_set {timer : Timer} {m : Machine} {x : UInt8}
    (sets : m.executed? = some (timer.set x)) :
    (∃ outcome, m.step.result = .ok outcome) ∧
      (timer.reading m.step.machine.timers).toNat = (m.value x).toNat - 1 := by
  obtain ⟨_, _, _, _, _, stepped⟩ := executed?_eq_some_iff.mp sets
  have result : ∃ outcome, m.step.result = .ok outcome := by
    rw [stepped]
    exact ⟨_, rfl⟩
  obtain ⟨outcome, done⟩ := result
  refine ⟨⟨outcome, done⟩, ?_⟩
  rw [m.timers_step.1 outcome done, sets, Timer.toNat_reading_tick, Option.map_some,
    Option.getD_some, Timer.reading_set]

theorem reading_step {timer : Timer} {m : Machine} {outcome : Outcome}
    (unset : ∀ x, m.executed? ≠ some (timer.set x)) (done : m.step.result = .ok outcome) :
    (timer.reading m.step.machine.timers).toNat = (timer.reading m.timers).toNat - 1 := by
  rw [m.timers_step.1 outcome done, Timer.toNat_reading_tick]
  cases executed : m.executed? with
  | none => rfl
  | some instruction =>
    have other : ∀ x, instruction ≠ timer.set x := by
      rintro x rfl
      exact unset x executed
    rw [Option.map_some, Option.getD_some, timer.reading_other m other]

/-! ### Whole histories -/

/-- As long as nothing sets it, a timer counts the steps that succeed. -/
theorem reading_performAll {timer : Timer} {m : Machine} {history : List Command}
    (unset : ∀ x, timer.set x ∉ m.executions history) :
    (timer.reading (m.performAll history).timers).toNat =
      (timer.reading m.timers).toNat - m.successes history := by
  induction history generalizing m with
  | nil => rfl
  | cons command rest ih =>
    have later : ∀ x, timer.set x ∉ (m.perform command).machine.executions rest :=
      fun x among => unset x (mem_executions_cons.mpr (.inr among))
    rw [performAll_cons, ih later]
    by_cases step : command = .step
    · subst step
      cases result : m.step.result with
      | ok outcome =>
        have now : ∀ x, m.executed? ≠ some (timer.set x) :=
          fun x sets => unset x (mem_executions_cons.mpr (.inl sets))
        have ticked : (timer.reading (m.perform .step).machine.timers).toNat = _ :=
          reading_step now result
        rw [ticked, successes_of_ok result, Nat.sub_sub, Nat.add_comm]
        rfl
      | error cause =>
        have still : (m.perform .step).machine.timers = _ := m.timers_step.2 cause result
        rw [still, successes_of_error result]
        rfl
    · rw [m.timers_of_ne_step step, m.successes_of_ne_step step]

/-- A timer was set at some time, or never. -/
theorem setLast_or_unset (timer : Timer) (m : Machine) (history : List Command) :
    (∃ value age, SetLast timer m history value age) ∨
      ∀ x, timer.set x ∉ m.executions history := by
  induction history generalizing m with
  | nil => exact .inr (by simp [executions])
  | cons command rest ih =>
    rcases ih (m.perform command).machine with ⟨value, age, before, x, since, rfl, last⟩ | later
    · exact .inl ⟨value, age, command :: before, x, since, rfl, last⟩
    · by_cases now : ∃ x, m.executes? command = some (timer.set x)
      · obtain ⟨x, sets⟩ := now
        cases command with
        | step => exact .inl ⟨_, _, [], x, rest, rfl, sets, later, rfl, rfl⟩
        | load | loadRom | setKey | takeRedraw => cases sets
      · refine .inr fun x among => ?_
        rcases mem_executions_cons.mp among with sets | among
        · exact now ⟨x, sets⟩
        · exact later x among

theorem reading_of_setLast {timer : Timer} {m : Machine} {history : List Command} {value : UInt8}
    {age : Nat} (last : SetLast timer m history value age) :
    (timer.reading (m.performAll history).timers).toNat = value.toNat - age := by
  obtain ⟨before, x, since, rfl, sets, unset, rfl, rfl⟩ := last
  obtain ⟨⟨outcome, done⟩, reading⟩ := step_of_set sets
  have after : m.performAll (before ++ .step :: since) =
      (m.performAll before).step.machine.performAll since := performAll_append ..
  rw [after, reading_performAll unset, reading, successes_of_ok done]
  omega

theorem step_of_readDelay {m : Machine} {word : UInt16} {x : UInt8} (running : m.status = .running)
    (fetched : m.fetch = .ok (word, .readDelay x)) :
    m.executed? = some (.readDelay x) ∧ m.step.machine.value x = m.timers.delay := by
  have done : m.execute (.readDelay x) = .ok { machine := m.put x m.timers.delay } := rfl
  refine ⟨executed?_of_execute running fetched done, ?_⟩
  rw [step_of_execute running fetched done]
  exact (Registers.value_put m.registers x x _).trans (if_pos rfl)

/-- Whatever was done to a fresh machine, each timer stands at the value that it was set to last, less
    the steps that have succeeded since, and at zero if it never was set. A step that fails and a
    command that is no step leave it alone, and an instruction that reads the delay timer finds it
    as it stands before its own step. -/
theorem timers_count_from_last_set (random : RandomSource) (history : List Command) :
    let fresh := initial random
    let m := fresh.performAll history
    (∀ timer : Timer,
      ((∃ value age, SetLast timer fresh history value age) ∨
        ∀ x, timer.set x ∉ fresh.executions history) ∧
      (∀ value age, SetLast timer fresh history value age →
        (timer.reading m.timers).toNat = value.toNat - age) ∧
      ((∀ x, timer.set x ∉ fresh.executions history) → timer.reading m.timers = 0)) ∧
    (∀ command, (command = .step → ∃ cause, m.step.result = .error cause) →
      (m.perform command).machine.timers = m.timers) ∧
    (∀ word x, m.status = .running → m.fetch = .ok (word, .readDelay x) →
      m.executed? = some (.readDelay x) ∧
      (∀ value age, SetLast .delay fresh history value age →
        (m.step.machine.value x).toNat = value.toNat - age) ∧
      ((∀ y, .setDelay y ∉ fresh.executions history) → m.step.machine.value x = 0)) := by
  intro fresh m
  have unset : ∀ timer : Timer, (∀ x, timer.set x ∉ fresh.executions history) →
      timer.reading m.timers = 0 := by
    intro timer never
    have counted := reading_performAll never
    have stopped : timer.reading fresh.timers = 0 := by cases timer with | delay | sound => rfl
    rw [stopped] at counted
    exact UInt8.toNat_inj.mp (counted.trans (Nat.zero_sub _))
  refine ⟨fun timer => ⟨setLast_or_unset timer fresh history, fun _ _ => reading_of_setLast,
    unset timer⟩, ?_, ?_⟩
  · intro command idle
    by_cases step : command = .step
    · obtain ⟨cause, failed⟩ := idle step
      subst step
      exact m.timers_step.2 cause failed
    · exact m.timers_of_ne_step step
  · intro word x running fetched
    obtain ⟨executed, stored⟩ := step_of_readDelay running fetched
    refine ⟨executed, ?_, ?_⟩
    · intro value age last
      rw [stored]
      exact reading_of_setLast last
    · intro never
      rw [stored]
      exact unset .delay never

end Machine

end Chip8
