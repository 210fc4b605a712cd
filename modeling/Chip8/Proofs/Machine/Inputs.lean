import Chip8.Proofs.Machine.Executions
import Chip8.Proofs.Machine.Halting
import Chip8.Proofs.Machine.Program

/-!
Keys and random bytes act only through the instructions that ask for them. Two machines that differ in
these inputs at most make the same steps, in lockstep, as long as the first one executes no such
instruction (`step_alike`), however different the keys are that are set in between
(`inputs_act_through_instructions`). A step that fails need not be left out: what it fails for never
hangs on an input (`Refusal.of_inputs`).
-/
namespace Chip8

/-- The instructions that ask for a key or make use of a random byte. -/
def Instruction.AsksInput : Instruction → Prop
  | skipIfKeyDown _ | skipIfKeyUp _ | awaitKey _ => True
  | random _ kk => kk ≠ 0
  | _ => False

/-- The host makes a step or sets a key. -/
def Command.Drives : Command → Prop
  | .step | .setKey _ _ => True
  | _ => False

namespace Machine

/-- The machines differ in their keys and in their random sources at most. -/
def Alike (m n : Machine) : Prop := ∃ keys random, n = { m with keys := keys, random := random }

theorem Alike.symm {m n : Machine} (alike : Alike m n) : Alike n m := by
  obtain ⟨keys, random, rfl⟩ := alike
  exact ⟨m.keys, m.random, rfl⟩

theorem Alike.trans {m n o : Machine} (first : Alike m n) (second : Alike n o) : Alike m o := by
  obtain ⟨_, _, rfl⟩ := first
  obtain ⟨keys, random, rfl⟩ := second
  exact ⟨keys, random, rfl⟩

/-! ### One step -/

theorem Refusal.of_inputs {m : Machine} {instruction : Instruction} {cause : Fault}
    (refusal : Refusal m instruction cause) (keys : Keys) (random : RandomSource) :
    Refusal { m with keys := keys, random := random } instruction cause := by
  cases refusal with
  | overflow nnn full => exact .overflow nnn full
  | underflow outside => exact .underflow outside
  | keyDown x beyond => exact .keyDown x beyond
  | keyUp x beyond => exact .keyUp x beyond
  | block uses refused => exact .block uses refused

theorem execute_of_inputs {m : Machine} {instruction : Instruction} {effect : Effect}
    (blind : ¬ instruction.AsksInput) (done : m.execute instruction = .ok effect) (keys : Keys)
    (random : RandomSource) :
    ∃ left, { m with keys := keys, random := random }.execute instruction =
      .ok { effect with machine := { effect.machine with keys := keys, random := left } } := by
  cases instruction
  case skipIfKeyDown | skipIfKeyUp | awaitKey => exact absurd trivial blind
  case random x kk =>
    -- Under an empty mask both machines put zero into the register, and only the sources differ.
    obtain rfl : kk = 0 := Classical.not_not.mp blind
    cases done
    exact ⟨random.drop, by simp only [execute, UInt8.and_zero]; rfl⟩
  case call nnn =>
    cases room : m.stack.push? m.pc with
    | some pushed =>
      simp only [execute, room] at done ⊢
      cases done
      exact ⟨random, rfl⟩
    | none => simp [execute, room] at done
  case ret =>
    cases inside : m.stack.pop? with
    | some popped =>
      simp only [execute, inside] at done ⊢
      cases done
      exact ⟨random, rfl⟩
    | none => simp [execute, inside] at done
  case draw | storeDigits | storeRegisters | loadRegisters =>
    obtain ⟨answer, given, built⟩ := bind_eq_ok_iff.mp done
    cases built
    exact ⟨random, bind_eq_ok_iff.mpr ⟨answer, given, rfl⟩⟩
  all_goals
    cases done
    exact ⟨random, rfl⟩

theorem step_error_alike {m n : Machine} {cause : Fault} (alike : Alike m n)
    (failed : m.step.result = .error cause) :
    n.step.result = .error cause ∧ Alike m.step.machine n.step.machine := by
  obtain ⟨keys, random, rfl⟩ := alike
  have failedToo : { m with keys := keys, random := random }.step.result = .error cause := by
    apply step_eq_error_iff.mpr
    rcases step_eq_error_iff.mp failed with stopped | ⟨running, unfetched | refused⟩
    · exact .inl stopped
    · exact .inr ⟨running, .inl unfetched⟩
    · obtain ⟨word, instruction, fetched, refusal⟩ := refused
      exact .inr ⟨running, .inr ⟨word, instruction, fetched, refusal.of_inputs keys random⟩⟩
  refine ⟨failedToo, ?_⟩
  cases going : m.isHalted with
  | true =>
    rw [(step_of_halted going).2, (step_of_halted (m := { m with keys, random }) going).2]
    exact ⟨keys, random, rfl⟩
  | false =>
    rw [machine_of_step_error failed going, machine_of_step_error failedToo going]
    exact ⟨keys, random, rfl⟩

/-- The next step asks for no input: no instruction that does is executed, and no wait is going on. -/
structure Blind (m : Machine) : Prop where
  awake : m.isWaiting = false
  blind : ∀ instruction, m.executed? = some instruction → ¬ instruction.AsksInput

theorem awake_of_execute {m : Machine} {instruction : Instruction} {effect : Effect}
    (running : m.status = .running) (blind : ¬ instruction.AsksInput)
    (done : m.execute instruction = .ok effect) : effect.machine.status = .running := by
  cases flow_of_execute done with
  | awaitKey => exact absurd trivial blind
  | plain _ _ _ status => exact status.trans running
  | jump | jumpDisplaced | call | ret | skip => exact running

/-- A step that asks for no input comes out the same in both machines, and no wait begins. -/
theorem step_alike {m n : Machine} (alike : Alike m n) (blind : Blind m) :
    m.step.result = n.step.result ∧ Alike m.step.machine n.step.machine ∧
      m.step.machine.isWaiting = false := by
  cases result : m.step.result with
  | error cause =>
    obtain ⟨failed, after⟩ := step_error_alike alike result
    refine ⟨failed.symm, after, ?_⟩
    cases going : m.isHalted with
    | true => rw [(step_of_halted going).2]; exact blind.awake
    | false => rw [machine_of_step_error result going]; rfl
  | ok outcome =>
    obtain ⟨keys, random, rfl⟩ := alike
    have ways := m.stepped
    generalize stepped : m.step = transition at ways result
    cases ways with
    | executed running fetched done =>
      have silent := blind.blind _ (executed?_of_execute running fetched done)
      obtain ⟨left, doneToo⟩ := execute_of_inputs silent done keys random
      have other := step_of_execute (m := { m with keys := keys, random := random })
        running fetched doneToo
      rw [other, ← result]
      refine ⟨rfl, ⟨keys, left, rfl⟩, ?_⟩
      have status := awake_of_execute running silent done
      simp [succeed, tick, isWaiting, status]
    | taken waiting | waited waiting =>
      have impossible := blind.awake
      simp [isWaiting, waiting] at impossible
    | refused | unfetched | stayed => cases result

/-! ### Whole runs -/

theorem alike_of_setKey (m : Machine) {command : Command} (drives : command.Drives)
    (other : command ≠ .step) : Alike m (m.perform command).machine := by
  have ways := m.handled other
  generalize m.perform command = performance at ways
  cases ways with
  | keySet key down result keys => exact ⟨keys, m.random, rfl⟩
  | redrawTaken => cases drives
  | unloaded => exact ⟨m.keys, m.random, rfl⟩
  | loaded loads =>
    cases command with
    | step | setKey | takeRedraw => cases loads
    | load | loadRom => cases drives

theorem alike_of_load {m n : Machine} (alike : Alike m n) (code : List UInt8) :
    Alike (m.perform (.load code)).machine (n.perform (.load code)).machine := by
  obtain ⟨keys, random, rfl⟩ := alike
  refine ⟨keys, random, ?_⟩
  rcases Nat.lt_or_ge programLimit code.length with large | fits
  · rw [perform, perform, performLoad_of_large _ large, performLoad_of_large _ large]
  · obtain ⟨loaded, done, performed⟩ := m.performLoad_of_fits fits
    obtain ⟨_, same, other⟩ := performLoad_of_fits { m with keys, random } fits
    cases done.symm.trans same
    rw [perform, perform, performed, other]

/-- Setting keys gives no result of a step. -/
theorem alike_of_no_step (m : Machine) {history : List Command}
    (driven : ∀ command ∈ history, command.Drives) (quiet : .step ∉ history) :
    m.stepResults history = [] ∧ Alike m (m.performAll history) := by
  induction history generalizing m with
  | nil => exact ⟨rfl, m.keys, m.random, rfl⟩
  | cons command rest ih =>
    have other : command ≠ .step := fun step => quiet (step ▸ List.mem_cons_self)
    obtain ⟨results, alike⟩ := ih (m.perform command).machine
      (fun later among => driven later (List.mem_cons_of_mem _ among))
      (fun among => quiet (List.mem_cons_of_mem _ among))
    rw [m.stepResults_of_ne_step other]
    exact ⟨results, (m.alike_of_setKey (driven command List.mem_cons_self) other).trans alike⟩

theorem run_alike {m n : Machine} (alike : Alike m n) (awake : m.isWaiting = false)
    {first second : List Command} (firstDriven : ∀ command ∈ first, command.Drives)
    (secondDriven : ∀ command ∈ second, command.Drives)
    (steps : first.count .step = second.count .step)
    (blind : ∀ instruction ∈ m.executions first, ¬ instruction.AsksInput) :
    m.stepResults first = n.stepResults second ∧
      Alike (m.performAll first) (n.performAll second) := by
  induction first generalizing m n second with
  | nil =>
    have quiet : .step ∉ second := List.count_eq_zero.mp steps.symm
    obtain ⟨results, after⟩ := n.alike_of_no_step secondDriven quiet
    exact ⟨results.symm, alike.trans after⟩
  | cons command rest ih =>
    have restDriven : ∀ later ∈ rest, later.Drives :=
      fun later among => firstDriven later (List.mem_cons_of_mem _ among)
    have restBlind : ∀ instruction ∈ (m.perform command).machine.executions rest,
        ¬ instruction.AsksInput :=
      fun instruction among => blind instruction (mem_executions_cons.mpr (.inr among))
    by_cases step : command = .step
    · subst step
      -- The second machine makes this step behind those of its keys that are set before it.
      have among : .step ∈ second := List.count_pos_iff.mp (by rw [← steps]; simp)
      obtain ⟨before, after, rfl, quiet⟩ := List.eq_append_cons_of_mem among
      obtain ⟨results, set⟩ := n.alike_of_no_step
        (fun earlier among => secondDriven earlier (List.mem_append_left _ among)) quiet
      have silent : Blind m := ⟨awake, fun instruction executed =>
        blind instruction (mem_executions_cons.mpr (.inl executed))⟩
      obtain ⟨result, next, still⟩ := step_alike (alike.trans set) silent
      obtain ⟨later, last⟩ := ih next still restDriven
        (fun later among => secondDriven later
          (List.mem_append_right _ (List.mem_cons_of_mem _ among)))
        (by simpa [List.count_append, List.count_eq_zero.mpr quiet] using steps) restBlind
      rw [stepResults_step, stepResults_append, results, stepResults_step, result, later,
        performAll_append]
      exact ⟨rfl, last⟩
    · have set := m.alike_of_setKey (firstDriven command List.mem_cons_self) step
      have still : (m.perform command).machine.isWaiting = false := by
        obtain ⟨_, _, same⟩ := set
        rw [same]
        exact awake
      rw [List.count_cons_of_ne step] at steps
      rw [m.stepResults_of_ne_step step, performAll_cons]
      exact ih (set.symm.trans alike) still restDriven secondDriven steps restBlind

/-- Two machines are running and differ in their keys and random sources at most, and a host drives each
    of them by as many steps as the other, with any keys set in between. If the first one executes no
    instruction that asks for an input, then step by step both are answered the same, with the same
    fault if one fails, and the machines still differ in nothing else. -/
theorem inputs_act_through_instructions {m n : Machine} {first second : List Command}
    (running : m.status = .running) (alike : Alike m n)
    (firstDriven : ∀ command ∈ first, command.Drives)
    (secondDriven : ∀ command ∈ second, command.Drives)
    (steps : first.count .step = second.count .step)
    (blind : ∀ instruction ∈ m.executions first, ¬ instruction.AsksInput) :
    m.stepResults first = n.stepResults second ∧
      Alike (m.performAll first) (n.performAll second) := by
  have awake : m.isWaiting = false := by rw [isWaiting, running]
  exact run_alike alike awake firstDriven secondDriven steps blind

/-- A random byte under an empty mask, with other seeds and other keys. -/
theorem empty_mask_hides_random_byte :
    let code : List UInt8 := [0xC1, 0x00]
    let m := ((initial (.ofSeed 1)).perform (.load code)).machine
    let n := (((initial (.ofSeed 2)).perform (.load code)).machine.perform (.setKey 3 true)).machine
    let first : List Command := [.step, .setKey 5 true]
    let second : List Command := [.setKey 0 true, .step]
    (m.status = .running ∧ Alike m n ∧ (∀ command ∈ first, command.Drives) ∧
      (∀ command ∈ second, command.Drives) ∧ first.count .step = second.count .step ∧
      ∀ instruction ∈ m.executions first, ¬ instruction.AsksInput) ∧
    m.stepResults first = n.stepResults second ∧
      Alike (m.performAll first) (n.performAll second) := by
  intro code m n first second
  have fits : code.length ≤ programLimit := by decide
  have running : m.status = .running := rfl
  have seeds : Alike (initial (.ofSeed 1)) (initial (.ofSeed 2)) := ⟨_, _, rfl⟩
  have alike : Alike m n := (alike_of_load seeds code).trans (alike_of_setKey _ trivial nofun)
  have firstDriven : ∀ command ∈ first, command.Drives := by simp [first, Command.Drives]
  have secondDriven : ∀ command ∈ second, command.Drives := by simp [second, Command.Drives]
  have steps : first.count .step = second.count .step := by decide
  have holds : m.Holds code := (initial (.ofSeed 1)).holds_of_load fits
  have fetched : m.fetch = .ok (_, .random 1 0) :=
    holds.fetch fits (i := 0) (by decide) (by decide) rfl (by decide)
  have executed : m.executed? = some (.random 1 0) := executed?_of_execute running fetched rfl
  have blind : ∀ instruction ∈ m.executions first, ¬ instruction.AsksInput := by
    simp [first, executions, executes?, executed, Instruction.AsksInput]
  exact ⟨⟨running, alike, firstDriven, secondDriven, steps, blind⟩,
    inputs_act_through_instructions running alike firstDriven secondDriven steps blind⟩

end Machine

end Chip8
