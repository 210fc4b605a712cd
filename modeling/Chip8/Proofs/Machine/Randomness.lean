import Chip8.Proofs.Machine.Executions

/-!
Random bytes as a stream. The source moves on by one word for every instruction that takes a random
byte, whatever its mask, and for nothing else, so its position is the number of such instructions so
far (`random_performAll`), and each of them finds the word of that number (`random_bytes_in_order`).
-/
namespace Chip8.Machine

theorem random_performAll (m : Machine) (history : List Command) :
    (m.performAll history).random = { m.random with
      position := m.random.position + (m.executions history).countP Instruction.takesByte } := by
  induction history generalizing m with
  | nil => rfl
  | cons command rest ih =>
    rw [performAll_cons, ih, random_perform, executions, List.countP_append]
    cases executed : m.executes? command with
    | none => simp
    | some instruction =>
      cases takes : instruction.takesByte with
      | true => simp [takes, RandomSource.drop, Nat.add_assoc]
      | false => simp [takes]

theorem step_of_random {m : Machine} {word : UInt16} {x kk : UInt8} (running : m.status = .running)
    (fetched : m.fetch = .ok (word, .random x kk)) :
    m.executed? = some (.random x kk) ∧ m.step.machine.value x = m.random.next &&& kk := by
  have done : m.execute (.random x kk) =
    .ok { machine := { m.put x (m.random.next &&& kk) with random := m.random.drop } } := rfl
  refine ⟨executed?_of_execute running fetched done, ?_⟩
  rw [step_of_execute running fetched done]
  exact (Registers.value_put m.registers x x _).trans (if_pos rfl)

/-- Whatever was done to a machine with a seed, an instruction that takes a random byte gets the low
    byte of the next word of the seed's stream, under its mask: the first such instruction that is
    executed gets word 0, the next one word 1, and so on from block to block. Nothing else takes a
    word, whatever is executed, waited for, refused, loaded or asked in between. -/
theorem random_bytes_in_order (seed : UInt64) (history : List Command) :
    let key := SeedSequence.words seed 8
    let m := (ofSeed seed).performAll history
    let drawn := ((ofSeed seed).executions history).countP Instruction.takesByte
    m.random = ⟨key, drawn⟩ ∧
    (∀ word x kk, m.status = .running → m.fetch = .ok (word, .random x kk) →
      m.executed? = some (.random x kk) ∧
      m.step.machine.value x =
        ((ChaCha.block key (drawn / 16)).get (Fin.ofNat 16 drawn)).toUInt8 &&& kk) ∧
    (∀ command, (∃ x kk, m.executes? command = some (.random x kk)) →
      (m.perform command).machine.random = ⟨key, drawn + 1⟩) ∧
    (∀ command, (∀ x kk, m.executes? command ≠ some (.random x kk)) →
      (m.perform command).machine.random = m.random) := by
  intro key m drawn
  have position : m.random = ⟨key, drawn⟩ := by
    have counted := (ofSeed seed).random_performAll history
    rw [show (ofSeed seed).random = ⟨key, 0⟩ from rfl] at counted
    simpa using counted
  refine ⟨position, ?_, ?_, ?_⟩
  · intro word x kk running fetched
    obtain ⟨executed, stored⟩ := step_of_random running fetched
    rw [stored, position]
    exact ⟨executed, rfl⟩
  · rintro command ⟨x, kk, executed⟩
    rw [random_perform, executed, position]
    rfl
  · intro command other
    rw [random_perform]
    cases executed : m.executes? command with
    | none => rfl
    | some instruction =>
      cases instruction
      case random x kk => exact absurd executed (other x kk)
      all_goals rfl

end Chip8.Machine
