import Chip8.Proofs.Machine.Failure
import Chip8.Proofs.Machine.Flow
import Chip8.Proofs.Machine.History
import Chip8.Proofs.Machine.Output

/-!
A machine stops once and for good. The steps of a history succeed up to the first one that fails,
which stops the machine with a cause of its own, and every later one is refused. No command sets a
stopped machine going again, a new program included: the host can still change memory, the keys and
the note of the picture, but nothing else (`performAll_of_halted`).
-/
namespace Chip8

/-- The result of a step, where the command was one. -/
def Performance.stepResult? (p : Performance) : Option (Except Fault Outcome) :=
  match p.answer with
  | .stepped result => some result
  | _ => none

namespace Machine

/-- The results of the steps of a history, in order. -/
def stepResults (m : Machine) (history : List Command) : List (Except Fault Outcome) :=
  (m.performances history).filterMap Performance.stepResult?

def logged (m : Machine) (history : List Command) : List LogEntry :=
  (m.performances history).flatMap Performance.log

def warnings (log : List LogEntry) : List LogEntry := log.filter fun entry => entry.level = .warn

theorem stepResults_append (m : Machine) (earlier later : List Command) :
    m.stepResults (earlier ++ later) =
      m.stepResults earlier ++ (m.performAll earlier).stepResults later := by
  rw [stepResults, performances_append, List.filterMap_append]
  rfl

theorem logged_append (m : Machine) (earlier later : List Command) :
    m.logged (earlier ++ later) = m.logged earlier ++ (m.performAll earlier).logged later := by
  rw [logged, performances_append, List.flatMap_append]
  rfl

theorem stepResults_step (m : Machine) (rest : List Command) :
    m.stepResults (.step :: rest) = m.step.result :: m.step.machine.stepResults rest := rfl

theorem stepResults_of_ne_step (m : Machine) {command : Command} (other : command ≠ .step)
    (rest : List Command) :
    m.stepResults (command :: rest) = (m.perform command).machine.stepResults rest := by
  have unstepped : (m.perform command).stepResult? = none := by
    have ways := m.handled other
    generalize m.perform command = performance at ways
    cases ways <;> rfl
  exact List.filterMap_cons_none unstepped

theorem logged_cons (m : Machine) (command : Command) (rest : List Command) :
    m.logged (command :: rest) =
      (m.perform command).log ++ (m.perform command).machine.logged rest :=
  List.flatMap_cons

theorem warnings_append (earlier later : List LogEntry) :
    warnings (earlier ++ later) = warnings earlier ++ warnings later :=
  List.filter_append earlier later

/-! ### One command -/

/-- Only the end of a machine is worth a warning. -/
theorem warnings_of_execute {m : Machine} {instruction : Instruction} {effect : Effect}
    (done : m.execute instruction = .ok effect) : warnings effect.log = [] := by
  cases output_of_execute done with
  | clear | draw | store | awaitKey => rfl
  | none _ _ _ _ _ log => rw [log]; rfl

theorem warnings_of_ne_step (m : Machine) {command : Command} (other : command ≠ .step) :
    warnings (m.perform command).log = [] := by
  have ways := m.handled other
  generalize m.perform command = performance at ways
  cases ways <;> rfl

/-- A fault that a going machine meets is one of its own. -/
theorem ne_halted_of_step_error {m : Machine} {cause : Fault} (going : m.isHalted = false)
    (failed : m.step.result = .error cause) : cause ≠ .halted := by
  rintro rfl
  rcases step_eq_error_iff.mp failed with ⟨halted, _⟩ | ⟨_, unfetched | ⟨_, _, _, refusal⟩⟩
  · rw [going] at halted
    cases halted
  · rcases fetch_eq_error_iff.mp unfetched with refused | ⟨_, _, _, impossible⟩
    · obtain ⟨_, impossible⟩ := Memory.outOfBounds_of_check (Memory.word_eq_error_iff.mp refused)
      cases impossible
    · cases impossible
  · cases refusal with
    | block uses refused =>
      obtain ⟨_, impossible⟩ := Memory.outOfBounds_of_check refused
      cases impossible

/-- What a step of a going machine comes to: it succeeds, goes on and warns of nothing, or it fails,
    stops and warns of that. -/
theorem step_of_going {m : Machine} (going : m.isHalted = false) :
    (∃ outcome, m.step.result = .ok outcome ∧ m.step.machine.isHalted = false ∧
      warnings m.step.log = []) ∨
    (∃ cause, m.step.result = .error cause ∧ cause ≠ .halted ∧
      m.step.machine = { m with status := .halted cause } ∧
      warnings m.step.log = [.halting cause]) := by
  cases result : m.step.result with
  | ok outcome =>
    refine .inl ⟨outcome, rfl, ?_⟩
    have ways := m.stepped
    generalize m.step = transition at ways result
    cases ways with
    | executed running fetched done =>
      refine ⟨?_, warnings_of_execute done⟩
      cases flow_of_execute done with
      | jump | jumpDisplaced | call | ret | skip => simp [succeed, tick, isHalted, haltCause?, running]
      | awaitKey => rfl
      | plain _ _ _ status => simp [succeed, tick, isHalted, haltCause?, status, running]
    | taken => exact ⟨rfl, rfl⟩
    | waited waiting up => exact ⟨going, rfl⟩
    | refused | unfetched | stayed => cases result
  | error cause =>
    refine .inr ⟨cause, rfl, ne_halted_of_step_error going result,
      machine_of_step_error result going, ?_⟩
    have ways := m.stepped
    generalize m.step = transition at ways result
    cases ways with
    | refused | unfetched => cases result; rfl
    | stayed halted => simp [isHalted, haltCause?, halted] at going
    | executed | taken | waited => cases result

/-! ### A stopped machine -/

theorem step_of_stopped {m : Machine} {cause : Fault} (halted : m.status = .halted cause) :
    m.step = { result := .error .halted, machine := m, log := [] } := by
  rw [step, halted]

/-- Whatever a host does to a stopped machine, nothing changes but memory, the keys and the note of
    the picture. -/
theorem performAll_of_halted {m : Machine} {cause : Fault} (halted : m.status = .halted cause)
    (history : List Command) :
    ∃ memory keys redraw, m.performAll history =
      { m with memory := memory, keys := keys, redraw := redraw } := by
  refine performAll_induction (P := fun now => ∃ memory keys redraw,
    now = { m with memory := memory, keys := keys, redraw := redraw }) ?_
    ⟨m.memory, m.keys, m.redraw, rfl⟩ history
  rintro now command ⟨memory, keys, redraw, same⟩
  by_cases step : command = .step
  · have still : now.status = .halted cause := by rw [same, halted]
    have unmoved : (now.perform .step).machine = now :=
      congrArg Transition.machine (step_of_stopped still)
    rw [step, unmoved]
    exact ⟨memory, keys, redraw, same⟩
  · obtain ⟨memory, keys, redraw, next⟩ := now.perform_of_ne_step step
    exact ⟨memory, keys, redraw, by rw [next, same]⟩

/-- Every step of a stopped machine is refused, and none reports anything. -/
theorem refused_of_halted {m : Machine} {cause : Fault} (halted : m.status = .halted cause)
    (history : List Command) :
    m.stepResults history = List.replicate (history.count .step) (.error .halted) ∧
      warnings (m.logged history) = [] := by
  induction history generalizing m with
  | nil => exact ⟨rfl, rfl⟩
  | cons command rest ih =>
    rw [logged_cons, warnings_append]
    by_cases step : command = .step
    · subst step
      have refused := step_of_stopped halted
      obtain ⟨results, unwarned⟩ := ih halted
      have report : (m.perform .step).log = [] := congrArg Transition.log refused
      have same : (m.perform .step).machine = m := congrArg Transition.machine refused
      rw [stepResults_step, refused, report, same, List.count_cons_self, List.replicate_succ, results,
        unwarned]
      exact ⟨rfl, rfl⟩
    · obtain ⟨memory, keys, redraw, kept⟩ := m.perform_of_ne_step step
      have still : (m.perform command).machine.status = .halted cause := by rw [kept, halted]
      obtain ⟨results, unwarned⟩ := ih still
      rw [m.stepResults_of_ne_step step, m.warnings_of_ne_step step, results, unwarned,
        List.count_cons_of_ne step]
      exact ⟨rfl, rfl⟩

/-! ### Whole runs -/

/-- A history in which no step fails. -/
structure Smooth (m : Machine) (history : List Command) : Prop where
  succeeded : ∃ outcomes : List Outcome, m.stepResults history = outcomes.map .ok
  unwarned : warnings (m.logged history) = []
  going : (m.performAll history).isHalted = false

/-- How a machine stands that a fault stopped when it was in the state `last`. -/
structure Stopped (last : Machine) (cause : Fault) (now : Machine) : Prop where
  isHalted : now.isHalted = true
  isWaiting : now.isWaiting = false
  haltCause : now.haltCause? = some cause
  -- Only memory, the keys and the note of the picture are still open to the host.
  kept : now = { last with
    status := .halted cause, memory := now.memory, keys := now.keys, redraw := now.redraw }
  silent : now.step.log = []

theorem Smooth.cons {m : Machine} {command : Command} {rest : List Command}
    (succeeded : command = .step → ∃ outcome, m.step.result = .ok outcome)
    (unwarned : warnings (m.perform command).log = [])
    (smooth : Smooth (m.perform command).machine rest) : Smooth m (command :: rest) where
  succeeded := by
    obtain ⟨outcomes, results⟩ := smooth.succeeded
    by_cases step : command = .step
    · obtain ⟨outcome, result⟩ := succeeded step
      subst step
      refine ⟨outcome :: outcomes, ?_⟩
      rw [stepResults_step, result, List.map_cons, ← results]
      rfl
    · exact ⟨outcomes, (m.stepResults_of_ne_step step rest).trans results⟩
  unwarned := by
    rw [logged_cons, warnings_append, unwarned, smooth.unwarned]
    rfl
  going := smooth.going

/-- The steps of a history all succeed, or there is a first one that fails. -/
theorem smooth_or_fails {m : Machine} (going : m.isHalted = false) (history : List Command) :
    Smooth m history ∨ ∃ before after cause, history = before ++ .step :: after ∧
      Smooth m before ∧ (m.performAll before).step.result = .error cause := by
  induction history generalizing m with
  | nil => exact .inl ⟨⟨[], rfl⟩, rfl, going⟩
  | cons command rest ih =>
    by_cases failing : command = .step ∧ ∃ cause, m.step.result = .error cause
    · obtain ⟨rfl, cause, failed⟩ := failing
      exact .inr ⟨[], rest, cause, rfl, ⟨⟨[], rfl⟩, rfl, going⟩, failed⟩
    · obtain ⟨succeeded, unwarned, still⟩ :
          (command = .step → ∃ outcome, m.step.result = .ok outcome) ∧
          warnings (m.perform command).log = [] ∧ (m.perform command).machine.isHalted = false := by
        by_cases step : command = .step
        · subst step
          rcases step_of_going going with ⟨outcome, result, still, unwarned⟩ | ⟨cause, result, _⟩
          · exact ⟨fun _ => ⟨outcome, result⟩, unwarned, still⟩
          · exact absurd ⟨rfl, cause, result⟩ failing
        · obtain ⟨memory, keys, redraw, kept⟩ := m.perform_of_ne_step step
          refine ⟨fun same => absurd same step, m.warnings_of_ne_step step, ?_⟩
          rw [kept]
          exact going
      rcases ih still with smooth | ⟨before, after, cause, rfl, smooth, failed⟩
      · exact .inl (smooth.cons succeeded unwarned)
      · exact .inr ⟨command :: before, after, cause, rfl, smooth.cons succeeded unwarned, failed⟩

/-- Whatever a host does to a fresh machine, its steps succeed until one fails for a cause of its own,
    and are refused from then on. The failing step is the only one that is warned of, and the machine
    stays stopped for that cause, with a new program or without. -/
theorem halts_once_for_good (random : RandomSource) (history : List Command) :
    let m := initial random
    Smooth m history ∨
    ∃ before cause after, history = before ++ .step :: after ∧ Smooth m before ∧ cause ≠ .halted ∧
      (m.performAll before).step.result = .error cause ∧
      warnings (m.performAll before).step.log = [.halting cause] ∧
      (∃ outcomes : List Outcome, m.stepResults history =
        outcomes.map .ok ++ .error cause :: List.replicate (after.count .step) (.error .halted)) ∧
      warnings (m.logged history) = [.halting cause] ∧
      ∀ later, Stopped (m.performAll before) cause (m.performAll (before ++ .step :: later)) := by
  intro m
  rcases smooth_or_fails (m := m) rfl history with smooth | ⟨before, after, cause, rfl, smooth, failed⟩
  · exact .inl smooth
  · right
    rcases step_of_going smooth.going with ⟨_, succeeded, _⟩ | ⟨_, result, genuine, stopped, warned⟩
    · rw [failed] at succeeded
      cases succeeded
    · obtain rfl : _ = cause := Except.error.inj (result.symm.trans failed)
      have halted : (m.performAll before).step.machine.status = .halted _ := congrArg status stopped
      obtain ⟨refused, unwarned⟩ := refused_of_halted halted after
      refine ⟨before, _, after, rfl, smooth, genuine, result, warned, ?_, ?_, ?_⟩
      · obtain ⟨outcomes, results⟩ := smooth.succeeded
        refine ⟨outcomes, ?_⟩
        rw [stepResults_append, results, stepResults_step, result, refused]
      · have step : warnings ((m.performAll before).perform .step).log = [.halting _] := warned
        rw [logged_append, logged_cons, warnings_append, warnings_append, smooth.unwarned, step]
        exact congrArg (_ :: ·) unwarned
      · intro later
        obtain ⟨memory, keys, redraw, after⟩ := performAll_of_halted halted later
        have now : m.performAll (before ++ .step :: later) =
            (m.performAll before).step.machine.performAll later := performAll_append ..
        rw [now, after, stopped]
        exact ⟨rfl, rfl, rfl, rfl, by rw [step_of_stopped rfl]⟩

end Machine

end Chip8
