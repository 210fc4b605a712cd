import Chip8.Machine.Command
import Chip8.Proofs.CallStack
import Chip8.Proofs.Memory

/-!
What a command can be. `stepped` lists the six ways of a step, each with all that led to it: an
instruction is executed, refused or not even fetched; a waiting machine takes a key or goes on
waiting; a stopped one stays. `handled` does the same for the other commands. Statements about
commands are proved by cases on them, so that no other proof opens the definition of a step.
`executed?` names the instruction that a step executes, if it executes one.
-/
namespace Chip8

/-- The program that a command puts into memory. -/
def Command.program? : Command → Option (List UInt8)
  | .load code => if code.length ≤ programLimit then some code else none
  | .loadRom rom => some rom.code
  | _ => none

namespace Machine

/-- The instruction that the next step executes. A step that fails executes none, and neither does
    one of a machine that waits or has stopped. -/
def executed? (m : Machine) : Option Instruction :=
  match m.status, m.fetch, m.step.result with
  | .running, .ok (_, instruction), .ok _ => some instruction
  | _, _, _ => none

/-- The ways of a step. -/
inductive Stepped (m : Machine) : Transition → Prop where
  | executed {word : UInt16} {instruction : Instruction} {effect : Effect}
      (running : m.status = .running) (fetched : m.fetch = .ok (word, instruction))
      (done : m.execute instruction = .ok effect) :
      Stepped m ({ effect.machine with pc := effect.advance.target m.pc }.succeed
        effect.displayChanged (.executing m.pc word instruction :: effect.log))
  | refused {word : UInt16} {instruction : Instruction} {cause : Fault}
      (running : m.status = .running) (fetched : m.fetch = .ok (word, instruction))
      (fault : m.execute instruction = .error cause) :
      Stepped m (m.fail cause [.executing m.pc word instruction])
  | unfetched {cause : Fault} (running : m.status = .running) (fault : m.fetch = .error cause) :
      Stepped m (m.fail cause [])
  | taken {register key : UInt8} (waiting : m.status = .waiting register)
      (down : m.keys.lowestDown = some key) :
      Stepped m ({ m.put register key with status := .running }.succeed false
        [.keyTaken key register])
  | waited {register : UInt8} (waiting : m.status = .waiting register)
      (up : m.keys.lowestDown = none) : Stepped m (m.succeed false [])
  | stayed {cause : Fault} (halted : m.status = .halted cause) :
      Stepped m { result := .error .halted, machine := m, log := [] }

theorem stepped (m : Machine) : Stepped m m.step := by
  unfold step
  split
  · next running =>
    unfold stepRunning
    split
    · next cause fault => exact .unfetched running fault
    · next word instruction fetched =>
      dsimp only
      split
      · next cause fault => exact .refused running fetched fault
      · next effect done => exact .executed running fetched done
  · next register waiting =>
    unfold stepWaiting
    split
    · next key down => exact .taken waiting down
    · next up => exact .waited waiting up
  · next cause halted => exact .stayed halted

/-! ### Fetching -/

theorem fetch_eq_ok_iff {m : Machine} {word : UInt16} {instruction : Instruction} :
    m.fetch = .ok (word, instruction) ↔
      m.memory.word m.pc.toNat = .ok word ∧ Instruction.ofWord? word = some instruction := by
  unfold fetch
  rw [bind_eq_ok_iff]
  constructor
  · rintro ⟨read, answered, decoded⟩
    split at decoded
    · next found =>
      cases decoded
      exact ⟨answered, found⟩
    · cases decoded
  · rintro ⟨answered, found⟩
    exact ⟨word, answered, by rw [found]; rfl⟩

theorem fetch_eq_error_iff {m : Machine} {cause : Fault} :
    m.fetch = .error cause ↔
      m.memory.word m.pc.toNat = .error cause ∨
      ∃ word, m.memory.word m.pc.toNat = .ok word ∧ Instruction.ofWord? word = none ∧
        cause = .unknownOpcode word m.pc := by
  unfold fetch
  rw [bind_eq_error_iff]
  refine or_congr_right (exists_congr fun word => and_congr_right fun _ => ?_)
  cases found : Instruction.ofWord? word with
  | some instruction => simp [pure, Except.pure]
  | none => simp [throw, throwThe, MonadExceptOf.throw, eq_comm]

/-- An instruction is fetched only where all of its word is inside of memory. -/
theorem pc_of_fetch {m : Machine} {word : UInt16} {instruction : Instruction}
    (fetched : m.fetch = .ok (word, instruction)) : m.pc.toNat ≤ 4094 := by
  have passed := (Memory.word_eq_ok_iff.mp (fetch_eq_ok_iff.mp fetched).1).1
  have inside := ((Memory.check_eq_ok_iff _ _).mp passed).2
  simp only [memorySize] at inside
  omega

/-! ### The executed instruction -/

/-- A step executes an instruction exactly if it fetches it and the instruction is not refused. -/
theorem executed?_eq_some_iff {m : Machine} {instruction : Instruction} :
    m.executed? = some instruction ↔
      m.status = .running ∧ ∃ word effect, m.fetch = .ok (word, instruction) ∧
        m.execute instruction = .ok effect ∧
        m.step = { effect.machine with pc := effect.advance.target m.pc }.succeed
          effect.displayChanged (.executing m.pc word instruction :: effect.log) := by
  have ways := m.stepped
  unfold executed?
  generalize m.step = transition at ways
  cases ways with
  | executed running fetched done =>
    simp only [running, fetched, succeed]
    constructor
    · intro same
      cases same
      exact ⟨trivial, _, _, rfl, done, rfl⟩
    · rintro ⟨_, _, _, same, _, _⟩
      cases same
      rfl
  | refused running fetched fault =>
    simp only [running, fetched, fail]
    constructor
    · intro none
      cases none
    · rintro ⟨_, _, _, same, done, _⟩
      cases same
      rw [fault] at done
      cases done
  | unfetched running fault => simp [running, fault]
  | taken waiting down => simp [waiting]
  | waited waiting up => simp [waiting]
  | stayed halted => simp [halted]

theorem step_of_execute {m : Machine} {word : UInt16} {instruction : Instruction}
    {effect : Effect} (running : m.status = .running) (fetched : m.fetch = .ok (word, instruction))
    (done : m.execute instruction = .ok effect) :
    m.step = { effect.machine with pc := effect.advance.target m.pc }.succeed
      effect.displayChanged (.executing m.pc word instruction :: effect.log) := by
  simp only [step, running, stepRunning, fetched, done]

/-- An instruction that leaves the machine running is answered with what it did to the display. -/
theorem outcome_of_execute {m : Machine} {word : UInt16} {instruction : Instruction}
    {effect : Effect} (running : m.status = .running) (fetched : m.fetch = .ok (word, instruction))
    (done : m.execute instruction = .ok effect) (goesOn : effect.machine.status = .running) :
    m.step.result = .ok { displayChanged := effect.displayChanged, waiting := false } := by
  have awake : effect.machine.isWaiting = false := by rw [isWaiting, goesOn]
  rw [step_of_execute running fetched done]
  exact congrArg (fun waiting => Except.ok (Outcome.mk effect.displayChanged waiting)) awake

theorem step_of_refused {m : Machine} {word : UInt16} {instruction : Instruction} {cause : Fault}
    (running : m.status = .running) (fetched : m.fetch = .ok (word, instruction))
    (fault : m.execute instruction = .error cause) :
    m.step = m.fail cause [.executing m.pc word instruction] := by
  simp only [step, running, stepRunning, fetched, fault]

theorem step_of_unfetched {m : Machine} {cause : Fault} (running : m.status = .running)
    (fault : m.fetch = .error cause) : m.step = m.fail cause [] := by
  simp only [step, running, stepRunning, fault]

theorem step_of_idle {m : Machine} {x : UInt8} (waiting : m.status = .waiting x)
    (up : m.keys.lowestDown = none) : m.step = m.succeed false [] := by
  simp only [step, waiting, stepWaiting, up]

theorem step_of_taken {m : Machine} {x number : UInt8} (waiting : m.status = .waiting x)
    (down : m.keys.lowestDown = some number) :
    m.step = { m.put x number with status := .running }.succeed false [.keyTaken number x] := by
  simp only [step, waiting, stepWaiting, down]

theorem executed?_of_execute {m : Machine} {word : UInt16} {instruction : Instruction}
    {effect : Effect} (running : m.status = .running) (fetched : m.fetch = .ok (word, instruction))
    (done : m.execute instruction = .ok effect) : m.executed? = some instruction :=
  executed?_eq_some_iff.mpr
    ⟨running, word, effect, fetched, done, step_of_execute running fetched done⟩

theorem executed?_eq_none {m : Machine}
    (quiet : m.status ≠ .running ∨ ∃ cause, m.step.result = .error cause) : m.executed? = none := by
  cases executed : m.executed? with
  | none => rfl
  | some instruction =>
    obtain ⟨running, _, _, _, _, stepped⟩ := executed?_eq_some_iff.mp executed
    rcases quiet with idle | ⟨cause, failed⟩
    · exact absurd running idle
    · rw [stepped] at failed
      cases failed

/-! ### Commands -/

theorem performLoad_of_fits (m : Machine) {code : List UInt8} (fits : code.length ≤ programLimit) :
    ∃ loaded, m.memory.load code = .ok loaded ∧
      m.performLoad code = ⟨.loaded (.ok ()), { m with memory := loaded }, [.loaded code.length]⟩ := by
  have done : m.memory.load code = .ok _ := dif_pos fits
  exact ⟨_, done, by simp only [performLoad, load, done]; rfl⟩

theorem performLoad_of_large (m : Machine) {code : List UInt8} (large : programLimit < code.length) :
    m.performLoad code = ⟨.loaded (.error (.tooLarge code.length programLimit)), m, []⟩ := by
  have refused : m.memory.load code = .error _ := dif_neg (Nat.not_le.mpr large)
  simp only [performLoad, load, refused]
  rfl

/-- The ways of a command that is no step. -/
inductive Handled (m : Machine) : Command → Performance → Prop where
  | loaded {command : Command} {code : List UInt8} {memory : Memory}
      (loads : command.program? = some code) (done : m.memory.load code = .ok memory) :
      Handled m command
        ⟨.loaded (.ok ()), { m with memory := memory }, [.loaded code.length]⟩
  | unloaded {command : Command} (loads : command.program? = none) (error : LoadError) :
      Handled m command ⟨.loaded (.error error), m, []⟩
  | keySet (key : UInt8) (down : Bool) (result : Except Fault Unit) (keys : Keys) :
      Handled m (.setKey key down) ⟨.keySet result, { m with keys := keys }, []⟩
  | redrawTaken : Handled m .takeRedraw ⟨.redraw m.redraw, m.clearRedraw, []⟩

theorem handled (m : Machine) {command : Command} (other : command ≠ .step) :
    Handled m command (m.perform command) := by
  cases command with
  | load code =>
    by_cases fits : code.length ≤ programLimit
    · obtain ⟨loaded, done, performed⟩ := m.performLoad_of_fits fits
      rw [perform, performed]
      exact .loaded (if_pos fits) done
    · have loads : (Command.load code).program? = none := if_neg fits
      rw [perform, m.performLoad_of_large (Nat.not_le.mp fits)]
      exact .unloaded loads _
  | loadRom rom =>
    obtain ⟨loaded, done, performed⟩ := m.performLoad_of_fits rom.length_le
    rw [perform, performed]
    exact .loaded rfl done
  | setKey key down =>
    by_cases known : key.toNat < keyCount
    · simp only [perform, setKey, dif_pos known]
      exact .keySet key down _ _
    · simp only [perform, setKey, dif_neg known]
      exact .keySet key down _ m.keys
  | step => exact absurd rfl other
  | takeRedraw => exact .redrawTaken

/-- A command that is no step leaves all alone but memory, the keys and the note of the picture. -/
theorem perform_of_ne_step (m : Machine) {command : Command} (other : command ≠ .step) :
    ∃ memory keys redraw, (m.perform command).machine =
      { m with memory := memory, keys := keys, redraw := redraw } := by
  have ways := m.handled other
  generalize m.perform command = performance at ways
  cases ways with
  | @loaded _ _ memory => exact ⟨memory, m.keys, m.redraw, rfl⟩
  | unloaded => exact ⟨m.memory, m.keys, m.redraw, rfl⟩
  | keySet _ _ _ keys => exact ⟨m.memory, keys, m.redraw, rfl⟩
  | redrawTaken => exact ⟨m.memory, m.keys, false, rfl⟩

end Machine

end Chip8
