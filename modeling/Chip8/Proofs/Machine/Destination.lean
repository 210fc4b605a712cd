import Chip8.Proofs.Machine.Changes
import Chip8.Proofs.Registers

/-!
Where a step leads, told by the word that it executes: to the address in the word, displaced or not, behind
the call that a return ends, behind the next word or to it (`LeadsTo`). Skips come in pairs that ask the same
question and skip on opposite answers; taken from one state they part there and differ in nothing else
(`Opposed`). Both are put together in `control_flow`.
-/
namespace Chip8

namespace Instruction

/-- The instructions that lead to an address of their own. -/
def IsJump : Instruction → Prop
  | ret | jump _ | call _ | jumpDisplaced _ => True
  | _ => False

theorem IsPlain.not_isJump {instruction : Instruction} (plain : instruction.IsPlain) :
    ¬ instruction.IsJump := by
  intro jumps
  cases instruction
  case ret | jump | call | jumpDisplaced => cases plain
  all_goals cases jumps

theorem IsPlain.not_isSkip {instruction : Instruction} (plain : instruction.IsPlain) :
    ¬ instruction.IsSkip := by
  intro skips
  cases instruction
  case skipIfByte | skipUnlessByte | skipIfSame | skipUnlessSame | skipIfKeyDown | skipIfKeyUp =>
    cases plain
  all_goals cases skips

theorem exists_byte {word : UInt16} {family x k l : Nat}
    (digits : wordDigits word = (family, x, k, l)) :
    ∃ kk : UInt8, kk.toNat = 0x10 * k + l ∧ kk.toNat / 16 = k ∧ kk.toNat % 16 = l := by
  simp only [wordDigits, Prod.mk.injEq] at digits
  obtain ⟨_, _, rfl, rfl⟩ := digits
  have high := nibble_lt word 1
  have low := nibble_lt word 0
  have byte : (UInt8.ofNat (0x10 * nibble word 1 + nibble word 0)).toNat =
      0x10 * nibble word 1 + nibble word 0 := by
    rw [UInt8.toNat_ofNat']
    omega
  exact ⟨_, byte, by omega, by omega⟩

/-- An address is its digits put together. -/
theorem toNat_eq_digits (nnn : UInt16) :
    nnn.toNat = 0x100 * (nnn.toNat / 0x100) + 0x10 * (nnn.toNat / 0x10 % 16) + nnn.toNat % 16 := by
  omega

end Instruction

namespace Machine
open Instruction (wordDigits)
open Registers (operand)

/-- `1nnn`, `2nnn`, `Bnnn` and `00EE`. -/
inductive JumpWord (word : UInt16) : Prop where
  | address {family a b c : Nat} (digits : wordDigits word = (family, a, b, c))
      (known : family = 0x1 ∨ family = 0x2 ∨ family = 0xB)
  | back (digits : wordDigits word = (0x0, 0x0, 0xE, 0xE))

/-- `3xkk`, `4xkk`, `5xy0`, `9xy0`, `Ex9E` and `ExA1`. -/
inductive SkipWord (word : UInt16) : Prop where
  | byte {family x k l : Nat} (digits : wordDigits word = (family, x, k, l))
      (known : family = 0x3 ∨ family = 0x4)
  | registers {family x y : Nat} (digits : wordDigits word = (family, x, y, 0x0))
      (known : family = 0x5 ∨ family = 0x9)
  | key {x : Nat}
      (digits : wordDigits word = (0xE, x, 0x9, 0xE) ∨ wordDigits word = (0xE, x, 0xA, 0x1))

/-- Where a step leads that executes a word. -/
inductive LeadsTo (m : Machine) (word : UInt16) : Nat → Prop where
  -- `1nnn` and `2nnn`.
  | jump {family a b c : Nat} (digits : wordDigits word = (family, a, b, c))
      (known : family = 0x1 ∨ family = 0x2) : LeadsTo m word (0x100 * a + 0x10 * b + c)
  -- `Bnnn`.
  | displaced {a b c : Nat} (digits : wordDigits word = (0xB, a, b, c)) :
      LeadsTo m word ((m.registers.get 0).toNat + (0x100 * a + 0x10 * b + c))
  -- `00EE`.
  | back {address : UInt16} {outer : List UInt16} (digits : wordDigits word = (0x0, 0x0, 0xE, 0xE))
      (innermost : m.stack.live = address :: outer) : LeadsTo m word (address.toNat + 2)
  | skip (skips : SkipWord word) (yes : Bool) :
      LeadsTo m word (m.pc.toNat + if yes then 4 else 2)
  | next (stays : ¬ JumpWord word) (plain : ¬ SkipWord word) : LeadsTo m word (m.pc.toNat + 2)

/-- Two words that ask the same of a machine, on the same operands, and skip on opposite answers. -/
inductive Opposites (m : Machine) (word other : UInt16) : Except Fault Bool → Prop where
  -- `3xkk` and `4xkk`.
  | byte {x : Fin registerCount} {k l : Nat} (first : wordDigits word = (0x3, x.val, k, l))
      (second : wordDigits other = (0x4, x.val, k, l)) :
      Opposites m word other (.ok (decide ((m.registers.get x).toNat = 0x10 * k + l)))
  -- `5xy0` and `9xy0`.
  | registers {x y : Fin registerCount} (first : wordDigits word = (0x5, x.val, y.val, 0x0))
      (second : wordDigits other = (0x9, x.val, y.val, 0x0)) :
      Opposites m word other (.ok (decide (m.registers.get x = m.registers.get y)))
  -- `Ex9E` and `ExA1`, for a key of the keypad and for any other number.
  | key {x : Fin registerCount} {key : Fin keyCount} (first : wordDigits word = (0xE, x.val, 0x9, 0xE))
      (second : wordDigits other = (0xE, x.val, 0xA, 0x1))
      (named : (m.registers.get x).toNat = key.val) : Opposites m word other (.ok (m.keys.get key))
  | noKey {x : Fin registerCount} (first : wordDigits word = (0xE, x.val, 0x9, 0xE))
      (second : wordDigits other = (0xE, x.val, 0xA, 0x1)) (beyond : 15 < (m.registers.get x).toNat) :
      Opposites m word other (.error (.unknownKey (m.registers.get x)))

/-- The next step goes so far on, and nothing else comes of it but that the timers tick. -/
structure GoesOn (m : Machine) (distance : Nat) : Prop where
  result : m.step.result = .ok { displayChanged := false, waiting := false }
  pc : m.step.machine.pc.toNat = m.pc.toNat + distance
  rest : { m.step.machine with pc := m.pc } = m.tick

/-- Two machines that part with their next steps. -/
structure Parted (one other : Machine) (yes : Bool) : Prop where
  first : GoesOn one (if yes then 4 else 2)
  second : GoesOn other (if yes then 2 else 4)
  -- In memory they differ from the start, since that is where their words are.
  rest : { other.step.machine with
    pc := one.step.machine.pc, memory := one.step.machine.memory } = one.step.machine

/-- What comes of a question that is asked with opposite intents. -/
def Opposed (one other : Machine) : Except Fault Bool → Prop
  | .ok yes => Parted one other yes
  | .error cause => one.step.result = .error cause ∧ other.step.result = .error cause

/-! ### One step -/

section
variable {m : Machine} {word : UInt16} {instruction : Instruction} {effect : Effect}

theorem jumpWord_iff (decoded : Instruction.ofWord? word = some instruction) :
    JumpWord word ↔ instruction.IsJump := by
  constructor
  · intro jumps
    cases jumps with
    | address digits known =>
      simp only [wordDigits, Prod.mk.injEq] at digits
      rcases known with rfl | rfl | rfl
      all_goals
        simp only [Instruction.ofWord?, digits, Option.some.injEq] at decoded
        subst decoded
        trivial
    | back digits =>
      simp only [wordDigits, Prod.mk.injEq] at digits
      simp only [Instruction.ofWord?, digits, Option.some.injEq] at decoded
      subst decoded
      trivial
  · have written := Instruction.wordDigits_of_ofWord? decoded
    intro jumps
    cases instruction
    case jump => exact .address written (.inl rfl)
    case call => exact .address written (.inr (.inl rfl))
    case jumpDisplaced => exact .address written (.inr (.inr rfl))
    case ret => exact .back written
    all_goals cases jumps

theorem skipWord_iff (decoded : Instruction.ofWord? word = some instruction) :
    SkipWord word ↔ instruction.IsSkip := by
  constructor
  · intro skips
    cases skips with
    | byte digits known | registers digits known =>
      simp only [wordDigits, Prod.mk.injEq] at digits
      rcases known with rfl | rfl
      all_goals
        simp only [Instruction.ofWord?, digits, Option.some.injEq] at decoded
        subst decoded
        trivial
    | key digits =>
      simp only [wordDigits, Prod.mk.injEq] at digits
      rcases digits with digits | digits
      all_goals
        simp only [Instruction.ofWord?, digits, Option.some.injEq] at decoded
        subst decoded
        trivial
  · have written := Instruction.wordDigits_of_ofWord? decoded
    intro skips
    cases instruction
    case skipIfByte => exact .byte written (.inl rfl)
    case skipUnlessByte => exact .byte written (.inr rfl)
    case skipIfSame => exact .registers written (.inl rfl)
    case skipUnlessSame => exact .registers written (.inr rfl)
    case skipIfKeyDown => exact .key (.inl written)
    case skipIfKeyUp => exact .key (.inr written)
    all_goals cases skips

theorem leadsTo_of_flow (bounded : m.Bounded) (inside : m.pc.toNat ≤ 4094)
    (decoded : Instruction.ofWord? word = some instruction) (flow : Flow m instruction effect) :
    LeadsTo m word (effect.advance.target m.pc).toNat := by
  have written := Instruction.wordDigits_of_ofWord? decoded
  have next : (m.pc + 2).toNat = m.pc.toNat + 2 := toNat_add_small inside (by decide)
  have skipped : (m.pc + 4).toNat = m.pc.toNat + 4 := toNat_add_small inside (by decide)
  cases flow with
  | jump nnn =>
    show LeadsTo m word nnn.toNat
    rw [Instruction.toNat_eq_digits nnn]
    exact .jump written (.inl rfl)
  | call nnn room =>
    show LeadsTo m word nnn.toNat
    rw [Instruction.toNat_eq_digits nnn]
    exact .jump written (.inr rfl)
  | jumpDisplaced nnn =>
    have sum := toNat_displaced (Instruction.fits_of_ofWord? decoded) (m.value 0)
    rw [Instruction.toNat_eq_digits nnn] at sum
    show LeadsTo m word ((m.value 0).toUInt16 + nnn).toNat
    rw [sum]
    exact .displaced written
  | @ret address popped taken =>
    have innermost := CallStack.live_of_pop? taken
    have called : address.toNat ≤ 4094 := by
      apply bounded.frames_le
      rw [innermost]
      exact List.mem_cons_self
    have back : (address + 2).toNat = address.toNat + 2 := toNat_add_small called (by decide)
    show LeadsTo m word (address + 2).toNat
    rw [back]
    exact .back written innermost
  | awaitKey x =>
    rw [show (Advance.next.target m.pc).toNat = _ from next]
    exact .next (jumpWord_iff decoded).mp (skipWord_iff decoded).mp
  | skip isSkip condition =>
    have target : ((Advance.skipIf condition).target m.pc).toNat =
        m.pc.toNat + if condition then 4 else 2 := by
      cases condition
      · exact next
      · exact skipped
    rw [target]
    exact .skip ((skipWord_iff decoded).mpr isSkip) condition
  | plain isPlain advance =>
    rw [advance, show (Advance.next.target m.pc).toNat = _ from next]
    exact .next (fun jumps => isPlain.not_isJump ((jumpWord_iff decoded).mp jumps))
      fun skips => isPlain.not_isSkip ((skipWord_iff decoded).mp skips)

theorem leadsTo_of_step (bounded : m.Bounded) (running : m.status = .running)
    (read : m.memory.word m.pc.toNat = .ok word) {outcome : Outcome}
    (succeeded : m.step.result = .ok outcome) : LeadsTo m word m.step.machine.pc.toNat := by
  obtain ⟨instruction, effect, decoded, done, _, after⟩ := execute_of_word running read succeeded
  have inside := pc_of_fetch (fetch_eq_ok_iff.mpr ⟨read, decoded⟩)
  rw [after]
  exact leadsTo_of_flow bounded inside decoded (flow_of_execute done)

theorem goesOn_of_execute (running : m.status = .running)
    (fetched : m.fetch = .ok (word, instruction)) {yes : Bool}
    (done : m.execute instruction = .ok { machine := m, advance := .skipIf yes }) :
    GoesOn m (if yes then 4 else 2) := by
  have inside := pc_of_fetch fetched
  refine ⟨outcome_of_execute running fetched done running, ?_, ?_⟩
  all_goals rw [step_of_execute running fetched done]
  · cases yes
    · exact toNat_add_small inside (by decide)
    · exact toNat_add_small inside (by decide)
  · rfl

end

/-! ### Two steps from one state -/

section
variable {m : Machine} {word other : UInt16}

theorem keyDown_eq_ok {x : Fin registerCount} {key : Fin keyCount}
    (named : (m.registers.get x).toNat = key.val) :
    m.keyDown (operand x) = .ok (m.keys.get key) := by
  have held : m.value (operand x) = m.registers.get x := m.registers.value_operand x
  have found : m.keys.isDown? (m.value (operand x)) = some (m.keys.get key) := by
    rw [Keys.isDown?, held, named]
    exact Vector.getElem?_eq_getElem key.isLt
  rw [keyDown, found]

/-- The instructions of two opposite words, and what comes of their question in whatever memory they are. -/
theorem execute_of_opposites {answer : Except Fault Bool} (opposites : Opposites m word other answer) :
    ∃ instruction converse, Instruction.ofWord? word = some instruction ∧
      Instruction.ofWord? other = some converse ∧ ∀ memory, let now := { m with memory := memory }
        now.execute instruction = answer.map (fun yes => { machine := now, advance := .skipIf yes }) ∧
        now.execute converse = answer.map (fun yes => { machine := now, advance := .skipIf !yes }) := by
  have held (x : Fin registerCount) : m.value (operand x) = m.registers.get x :=
    m.registers.value_operand x
  cases opposites with
  | @byte x k l first second =>
    obtain ⟨kk, byte, rfl, rfl⟩ := Instruction.exists_byte first
    rw [← Registers.toNat_operand x] at first second
    refine ⟨.skipIfByte (operand x) kk, .skipUnlessByte (operand x) kk,
      Instruction.ofWord?_eq_some_iff.mpr ⟨0, first⟩,
      Instruction.ofWord?_eq_some_iff.mpr ⟨0, second⟩, ?_⟩
    have asked : decide ((m.registers.get x).toNat = 0x10 * (kk.toNat / 16) + kk.toNat % 16) =
        (m.value (operand x) == kk) := by
      rw [← byte, held, Bool.eq_iff_iff, decide_eq_true_iff, UInt8.toNat_inj, beq_iff_eq]
    rw [asked]
    exact fun _ => ⟨rfl, rfl⟩
  | @registers x y first second =>
    rw [← Registers.toNat_operand x, ← Registers.toNat_operand y] at first second
    refine ⟨.skipIfSame (operand x) (operand y), .skipUnlessSame (operand x) (operand y),
      Instruction.ofWord?_eq_some_iff.mpr ⟨0, first⟩,
      Instruction.ofWord?_eq_some_iff.mpr ⟨0, second⟩, ?_⟩
    rw [← held x, ← held y]
    exact fun _ => ⟨rfl, rfl⟩
  | @key x key first second named =>
    rw [← Registers.toNat_operand x] at first second
    refine ⟨.skipIfKeyDown (operand x), .skipIfKeyUp (operand x),
      Instruction.ofWord?_eq_some_iff.mpr ⟨0, first⟩,
      Instruction.ofWord?_eq_some_iff.mpr ⟨0, second⟩, ?_⟩
    intro memory now
    have down : now.keyDown (operand x) = .ok (m.keys.get key) := keyDown_eq_ok (m := now) named
    refine ⟨?_, ?_⟩
    all_goals
      simp only [execute, down]
      rfl
  | @noKey x first second beyond =>
    rw [← Registers.toNat_operand x] at first second
    refine ⟨.skipIfKeyDown (operand x), .skipIfKeyUp (operand x),
      Instruction.ofWord?_eq_some_iff.mpr ⟨0, first⟩,
      Instruction.ofWord?_eq_some_iff.mpr ⟨0, second⟩, ?_⟩
    intro memory now
    rw [← held] at beyond ⊢
    have unknown : now.keyDown (operand x) = .error (.unknownKey (m.value (operand x))) :=
      keyDown_eq_error_iff.mpr ⟨beyond, rfl⟩
    exact ⟨made_eq_error_iff.mpr unknown, made_eq_error_iff.mpr unknown⟩

theorem opposed_of_opposites {first second : Memory} {answer : Except Fault Bool}
    (running : m.status = .running) (here : first.word m.pc.toNat = .ok word)
    (there : second.word m.pc.toNat = .ok other) (opposites : Opposites m word other answer) :
    Opposed { m with memory := first } { m with memory := second } answer := by
  obtain ⟨instruction, converse, decoded, decodedToo, executes⟩ := execute_of_opposites opposites
  obtain ⟨done, _⟩ := executes first
  obtain ⟨_, doneToo⟩ := executes second
  have fetched : { m with memory := first }.fetch = .ok (word, instruction) :=
    fetch_eq_ok_iff.mpr ⟨here, decoded⟩
  have fetchedToo : { m with memory := second }.fetch = .ok (other, converse) :=
    fetch_eq_ok_iff.mpr ⟨there, decodedToo⟩
  cases answer with
  | error cause =>
    refine ⟨?_, ?_⟩
    · rw [step_of_refused (m := { m with memory := first }) running fetched done]
      rfl
    · rw [step_of_refused (m := { m with memory := second }) running fetchedToo doneToo]
      rfl
  | ok yes =>
    have one := goesOn_of_execute (m := { m with memory := first }) running fetched done
    have converse := goesOn_of_execute (m := { m with memory := second }) running fetchedToo doneToo
    refine ⟨one, ?_, ?_⟩
    · cases yes
      · exact converse
      · exact converse
    · rw [step_of_execute (m := { m with memory := first }) running fetched done,
        step_of_execute (m := { m with memory := second }) running fetchedToo doneToo]
      rfl

/-- Whatever was done to a fresh machine, a step that executes a word leads where the word says. Two
    machines in one state but for their memory, with the words of a pair of opposite skips in front of them,
    part there: exactly one leaves out the word behind, and in all but their places they stay alike. Only
    the two that ask for a key can fail, and then both do, where Vx names no key. -/
theorem control_flow (random : RandomSource) (history : List Command) :
    let m := (initial random).performAll history
    (∀ word outcome, m.status = .running → m.memory.word m.pc.toNat = .ok word →
      m.step.result = .ok outcome → LeadsTo m word m.step.machine.pc.toNat) ∧
    (∀ first second word other answer, m.status = .running →
      first.word m.pc.toNat = .ok word → second.word m.pc.toNat = .ok other →
      Opposites m word other answer →
      Opposed { m with memory := first } { m with memory := second } answer) := by
  intro m
  have bounded : m.Bounded := bounded_performAll random history
  refine ⟨?_, ?_⟩
  · intro word outcome running read succeeded
    exact leadsTo_of_step bounded running read succeeded
  · intro first second word other answer running here there opposites
    exact opposed_of_opposites running here there opposites

/-- With key 0 down, `E09E` leaves out the word behind and `E0A1` does not. -/
theorem control_flow_with_key_down :
    let m := (initial (.ofSeed 0)).performAll [.setKey 0 true]
    let loaded := fun low => ((ofSeed 0).perform (.load [0xE0, low])).machine.memory
    (m.status = .running ∧ (loaded 0x9E).word m.pc.toNat = .ok 0xE09E ∧
      (loaded 0xA1).word m.pc.toNat = .ok 0xE0A1 ∧ Opposites m 0xE09E 0xE0A1 (.ok true)) ∧
    Opposed { m with memory := loaded 0x9E } { m with memory := loaded 0xA1 } (.ok true) := by
  intro m loaded
  have fits (low : UInt8) : [0xE0, low].length ≤ programLimit := (by decide : 2 ≤ programLimit)
  have word (low : UInt8) : (loaded low).word m.pc.toNat = .ok (Instruction.wordOfBytes 0xE0 low) :=
    ((ofSeed 0).holds_of_load (fits low)).word (fits low) (i := 0) Nat.zero_lt_two Nat.one_lt_two
  have here : (loaded 0x9E).word m.pc.toNat = .ok 0xE09E := word 0x9E
  have there : (loaded 0xA1).word m.pc.toNat = .ok 0xE0A1 := word 0xA1
  have first : wordDigits 0xE09E = (0xE, (0 : Fin registerCount).val, 0x9, 0xE) := rfl
  have converse : wordDigits 0xE0A1 = (0xE, (0 : Fin registerCount).val, 0xA, 0x1) := rfl
  have named : (m.registers.get 0).toNat = (0 : Fin keyCount).val := rfl
  have opposites : Opposites m 0xE09E 0xE0A1 (.ok true) := .key first converse named
  obtain ⟨_, parts⟩ := control_flow (.ofSeed 0) [.setKey 0 true]
  exact ⟨⟨rfl, here, there, opposites⟩, parts _ _ _ _ _ rfl here there opposites⟩

end

end Machine

end Chip8
