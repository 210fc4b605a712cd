import Chip8.Proofs.InPlace.Work
import Chip8.Proofs.Machine.Bounds
import Chip8.Proofs.Machine.Failure

/-!
Instructions executed in place, access by access, with every sum and every index checked for its
range. A fault leaves whatever was done before it. On a machine within its bounds none of that shows
(`execute_eq`): nothing is ever out of range, and what comes out is the effect of the instruction or
a machine that is as it was. So each instruction makes all of its checks before it changes anything.
-/
namespace Chip8.InPlace

def keyDown (key : UInt8) : Work Bool := do
  let keys ← look (·.keys)
  match keys.isDown? key with
  | some down => return down
  | none => fault (.unknownKey key)

/-- Puts the value that two registers make into the first one. -/
def combine (x y : UInt8) (result : UInt8 → UInt8 → UInt8) : Work Advance := do
  let vx ← register x
  let vy ← register y
  setRegister x (result vx vy)
  return .next

def execute : Instruction → Work Advance
  | .clearDisplay => do
    report .clearing
    change fun m => { m with display := Framebuffer.blank }
    change fun m => { m with redraw := true }
    markDisplay
    return .next
  | .ret => do
    match ← pop with
    | some address =>
      let behind ← demand (sum? address 2)
      return .goto behind
    | none =>
      let pc ← look (·.pc)
      fault (.stackUnderflow pc)
  | .jump nnn => return .goto nnn
  | .call nnn => do
    let pc ← look (·.pc)
    let room ← push pc
    if room then return .goto nnn else fault (.stackOverflow pc)
  | .skipIfByte x kk => do
    let vx ← register x
    return .skipIf (vx == kk)
  | .skipUnlessByte x kk => do
    let vx ← register x
    return .skipIf (vx != kk)
  | .skipIfSame x y => do
    let vx ← register x
    let vy ← register y
    return .skipIf (vx == vy)
  | .setByte x kk => do
    setRegister x kk
    return .next
  | .addByte x kk => do
    let vx ← register x
    setRegister x (vx + kk)
    return .next
  | .copy x y => do
    let vy ← register y
    setRegister x vy
    return .next
  | .or x y => combine x y (· ||| ·)
  | .and x y => combine x y (· &&& ·)
  | .xor x y => combine x y (· ^^^ ·)
  | .add x y => do
    let vx ← register x
    let vy ← register y
    setFlag (decide (256 ≤ vx.toNat + vy.toNat))
    setRegister x (vx + vy)
    return .next
  | .subtract x y => do
    let vx ← register x
    let vy ← register y
    setFlag (!decide (vx < vy))
    setRegister x (vx - vy)
    return .next
  | .shiftRight x => do
    let vx ← register x
    setRegister Registers.flag (vx &&& 1)
    setRegister x (vx >>> 1)
    return .next
  | .skipUnlessSame x y => do
    let vx ← register x
    let vy ← register y
    return .skipIf (vx != vy)
  | .setIndex nnn => do
    change fun m => { m with index := nnn }
    return .next
  | .jumpDisplaced nnn => do
    let v0 ← register 0
    let target ← demand (sum? v0.toUInt16 nnn)
    return .goto target
  | .random x kk => do
    let byte ← look (·.random.next)
    change fun m => { m with random := m.random.drop }
    setRegister x (byte &&& kk)
    return .next
  | .draw x y n => do
    let index ← look (·.index)
    let place ← block index.toNat n.toNat
    let sprite ← readBlock place
    let vx ← register x
    let vy ← register y
    let display ← look (·.display)
    let drawn ← demand (blit display vx.toNat vy.toNat sprite)
    change fun m => { m with display := drawn.1 }
    if drawn.2 then setFlag true
    change fun m => { m with redraw := true }
    markDisplay
    return .next
  | .skipIfKeyDown x => do
    let key ← register x
    let down ← keyDown key
    return .skipIf down
  | .skipIfKeyUp x => do
    let key ← register x
    let down ← keyDown key
    return .skipIf (!down)
  | .readDelay x => do
    let delay ← look (·.timers.delay)
    setRegister x delay
    return .next
  | .awaitKey x => do
    report (.awaitingKey x)
    change fun m => { m with status := .waiting x }
    return .next
  | .setDelay x => do
    let vx ← register x
    change fun m => { m with timers := { m.timers with delay := vx } }
    return .next
  | .setSound x => do
    let vx ← register x
    change fun m => { m with timers := { m.timers with sound := vx } }
    return .next
  | .addIndex x => do
    let vx ← register x
    change fun m => { m with index := m.index + vx.toUInt16 }
    return .next
  | .pointGlyph x => do
    let vx ← register x
    let address ← demand (product? vx.toUInt16 (UInt16.ofNat Font.glyphSize))
    change fun m => { m with index := address }
    return .next
  | .storeDigits x => do
    let vx ← register x
    let index ← look (·.index)
    let place ← block index.toNat 3
    writeBlock place [vx / 100, vx / 10 % 10, vx % 10]
    return .next
  | .storeRegisters x => do
    let count ← demand (wideSum? x.toNat 1)
    let index ← look (·.index)
    let place ← block index.toNat count
    let registers ← look (·.registers)
    let values ← demand (read? registers 0 count)
    writeBlock place values
    return .next
  | .loadRegisters x => do
    let count ← demand (wideSum? x.toNat 1)
    let index ← look (·.index)
    let place ← block index.toNat count
    let values ← readBlock place
    let registers ← look (·.registers)
    let loaded ← demand (copy? registers 0 count values)
    change fun m => { m with registers := loaded }
    return .next

/-- How far the work on an instruction gets: through with its effect, or to a fault with nothing
    done. -/
def outcome (m : Machine) (log : List LogEntry) :
    Except Fault Effect → Except Fault Advance × Progress
  | .ok effect => (.ok effect.advance, ⟨effect.machine, effect.displayChanged, log ++ effect.log⟩)
  | .error cause => (.error cause, ⟨m, false, log⟩)

@[simp] theorem outcome_ok (m : Machine) (log : List LogEntry) (effect : Effect) :
    outcome m log (.ok effect) =
      (.ok effect.advance, ⟨effect.machine, effect.displayChanged, log ++ effect.log⟩) := rfl

@[simp] theorem outcome_error (m : Machine) (log : List LogEntry) (cause : Fault) :
    outcome m log (.error cause) = (.error cause, ⟨m, false, log⟩) := rfl

@[simp] theorem keyDown_apply (key : UInt8) (p : Progress) :
    keyDown key p =
      match p.machine.keys.isDown? key with
      | some down => some (.ok down, p)
      | none => some (.error (.unknownKey key), p) := by
  cases known : p.machine.keys.isDown? key with
  | some down => simp [keyDown, known]
  | none => simp [keyDown, known]

@[simp] theorem combine_apply {x y : UInt8} (first : x.toNat < registerCount)
    (second : y.toNat < registerCount) (result : UInt8 → UInt8 → UInt8) (p : Progress) :
    combine x y result p = some (.ok .next, { p with
      machine := p.machine.put x (result (p.machine.value x) (p.machine.value y)) }) := by
  simp [combine, first, second]

/-! ### Flags -/

theorem noBorrow_eq (a b : UInt8) : (!decide (a < b)) = decide (b ≤ a) := by
  simp [← UInt8.not_lt]

theorem lowBit_eq (byte : UInt8) : byte &&& 1 = if byte % 2 = 1 then 1 else 0 := by
  have low : byte &&& 1 = byte % 2 := by
    apply UInt8.toNat_inj.mp
    rw [UInt8.toNat_and, UInt8.toNat_mod]
    exact Nat.and_one_is_mod byte.toNat
  rw [low]
  by_cases odd : byte % 2 = 1
  · rw [if_pos odd, odd]
  · have even : byte % 2 = 0 := by
      apply UInt8.toNat_inj.mp
      have notOne : (byte % 2).toNat ≠ 1 := fun one => odd (UInt8.toNat_inj.mp one)
      have two : (2 : UInt8).toNat = 2 := rfl
      rw [UInt8.toNat_mod, two] at notOne ⊢
      have zero : (0 : UInt8).toNat = 0 := rfl
      omega
    rw [if_neg odd, even]

theorem shiftRight_one (byte : UInt8) : byte >>> 1 = byte / 2 := by
  apply UInt8.toNat_inj.mp
  rw [UInt8.toNat_shiftRight, UInt8.toNat_div]
  exact Nat.shiftRight_eq_div_pow byte.toNat 1

/-! ### Blocks -/

section
variable (m : Machine) (log : List LogEntry)

/-- A block within memory has an end that is a number of 64 bits. -/
theorem end_fits (index : UInt16) {length : Nat} (small : length ≤ 0x100) :
    index.toNat + length < UInt64.size := by
  have start := index.toNat_lt
  simp only [UInt64.size]
  omega

theorem coordinate_fits (byte : UInt8) : byte.toNat < UInt64.size := by
  have small := byte.toNat_lt
  simp only [UInt64.size]
  omega

theorem execute_draw_eq {x y : UInt8} (n : UInt8) (first : x.toNat < 16) (second : y.toNat < 16) :
    execute (.draw x y n) ⟨m, false, log⟩ = some (outcome m log (m.execute (.draw x y n))) := by
  have place := block_apply (end_fits m.index (Nat.le_of_lt n.toNat_lt))
  cases passed : Memory.check m.index.toNat n.toNat with
  | error cause =>
    have refused : m.execute (.draw x y n) = .error cause :=
      Machine.execute_of_refusal (.block rfl passed)
    simp [execute, place, passed, refused]
  | ok _ =>
    have inside := ((Memory.check_eq_ok_iff _ _).mp passed).2
    let sprite := Block.read m.memory.bytes m.index.toNat n.toNat
    have drawn : m.execute (.draw x y n) =
        .ok { machine := m.drawSprite x y sprite, displayChanged := true } := by
      rw [Machine.execute, Memory.slice_eq_ok_iff.mpr ⟨passed, rfl⟩]
      rfl
    have blitted := blit_eq m.display (coordinate_fits (m.value x)) (coordinate_fits (m.value y)) sprite
    cases hit : m.display.collides (m.value x).toNat (m.value y).toNat sprite with
    | true =>
      simp [execute, place, passed, drawn, readBlock_apply inside, first, second, sprite, blitted, hit,
        Machine.drawSprite]
    | false =>
      simp [execute, place, passed, drawn, readBlock_apply inside, first, second, sprite, blitted, hit,
        Machine.drawSprite]

theorem execute_storeDigits_eq {x : UInt8} (register : x.toNat < 16) :
    execute (.storeDigits x) ⟨m, false, log⟩ =
      some (outcome m log (m.execute (.storeDigits x))) := by
  have place := block_apply (end_fits m.index (show 3 ≤ 0x100 by decide))
  cases passed : Memory.check m.index.toNat 3 with
  | error cause =>
    have refused : m.execute (.storeDigits x) = .error cause :=
      Machine.execute_of_refusal (.block rfl passed)
    simp [execute, place, passed, refused, register]
  | ok _ =>
    have inside := ((Memory.check_eq_ok_iff _ _).mp passed).2
    have written := writeBlock_apply (Machine.decimalDigits (m.value x)) inside
    have stored : m.execute (.storeDigits x) =
        .ok { machine := overwritten m m.index.toNat (Machine.decimalDigits (m.value x)) } := by
      rw [Machine.execute, Memory.write_eq_ok_iff.mpr ⟨passed, rfl⟩]
      rfl
    simp only [Machine.decimalDigits, List.length_cons, List.length_nil] at written
    simp [execute, place, passed, stored, register, written, Machine.decimalDigits]

theorem execute_storeRegisters_eq {x : UInt8} (register : x.toNat < 16) :
    execute (.storeRegisters x) ⟨m, false, log⟩ =
      some (outcome m log (m.execute (.storeRegisters x))) := by
  have length : (m.registers.upTo x).length = x.toNat + 1 := Block.length_read ..
  have count : wideSum? x.toNat 1 = some (x.toNat + 1) :=
    wideSum?_of_fits (by simp only [UInt64.size]; omega)
  have values : read? m.registers 0 (x.toNat + 1) = some (m.registers.upTo x) := by
    have inside : 0 + (x.toNat + 1) ≤ 16 := by omega
    rw [← Nat.zero_add (x.toNat + 1)]
    exact read?_of_inside m.registers inside
  have place := block_apply (end_fits m.index (show x.toNat + 1 ≤ 0x100 by omega))
  cases passed : Memory.check m.index.toNat (x.toNat + 1) with
  | error cause =>
    have refused : m.execute (.storeRegisters x) = .error cause :=
      Machine.execute_of_refusal (.block rfl passed)
    simp [execute, count, place, passed, refused]
  | ok _ =>
    have inside := ((Memory.check_eq_ok_iff _ _).mp passed).2
    have written := writeBlock_apply (m.registers.upTo x) (length ▸ inside)
    have stored : m.execute (.storeRegisters x) =
        .ok { machine := overwritten m m.index.toNat (m.registers.upTo x) } := by
      rw [Machine.execute, Memory.write_eq_ok_iff.mpr ⟨length ▸ passed, rfl⟩]
      rfl
    rw [length] at written
    simp [execute, count, place, passed, values, stored, written]

theorem execute_loadRegisters_eq {x : UInt8} (register : x.toNat < 16) :
    execute (.loadRegisters x) ⟨m, false, log⟩ =
      some (outcome m log (m.execute (.loadRegisters x))) := by
  have count : wideSum? x.toNat 1 = some (x.toNat + 1) :=
    wideSum?_of_fits (by simp only [UInt64.size]; omega)
  have place := block_apply (end_fits m.index (show x.toNat + 1 ≤ 0x100 by omega))
  cases passed : Memory.check m.index.toNat (x.toNat + 1) with
  | error cause =>
    have refused : m.execute (.loadRegisters x) = .error cause :=
      Machine.execute_of_refusal (.block rfl passed)
    simp [execute, count, place, passed, refused]
  | ok _ =>
    have inside := ((Memory.check_eq_ok_iff _ _).mp passed).2
    let values := Block.read m.memory.bytes m.index.toNat (x.toNat + 1)
    have length : values.length = x.toNat + 1 := Block.length_read ..
    have loaded : m.execute (.loadRegisters x) =
        .ok { machine := { m with registers := m.registers.putFirst values } } := by
      rw [Machine.execute, Registers.countTo, Memory.slice_eq_ok_iff.mpr ⟨passed, rfl⟩]
      rfl
    have copied : copy? m.registers 0 (x.toNat + 1) values =
        some (m.registers.putFirst values) := by
      have room : 0 + values.length ≤ 16 := by omega
      rw [← length, ← Nat.zero_add values.length]
      exact copy?_of_inside m.registers room
    simp [execute, count, place, passed, readBlock_apply inside, loaded, copied, values]

end

/-- Executed in place, an instruction has the effect it has at once, or the fault and no effect. -/
theorem execute_eq {m : Machine} (bounded : m.Bounded) {instruction : Instruction}
    (fits : instruction.Fits) (log : List LogEntry) :
    execute instruction ⟨m, false, log⟩ = some (outcome m log (m.execute instruction)) := by
  cases instruction
  all_goals simp only [Instruction.Fits] at fits
  case clearDisplay => simp [execute, Machine.execute, Machine.clearDisplay]
  case ret =>
    cases inside : m.stack.pop? with
    | some popped =>
      have live : popped.1 ∈ m.stack.live := CallStack.live_of_pop? inside ▸ List.mem_cons_self
      have back : sum? popped.1 2 = some (popped.1 + 2) :=
        sum?_of_fits (bounded.narrow.back_lt popped.1 live)
      simp [execute, Machine.execute, pop_apply, inside, back]
    | none => simp [execute, Machine.execute, pop_apply, inside]
  case call nnn =>
    cases room : m.stack.push? m.pc with
    | some pushed => simp [execute, Machine.execute, push_apply, room]
    | none => simp [execute, Machine.execute, push_apply, room]
  case jumpDisplaced nnn =>
    have target : sum? (m.value 0).toUInt16 nnn = some ((m.value 0).toUInt16 + nnn) :=
      sum?_of_fits (by simpa using bounded.narrow.displaced_lt nnn fits)
    simp [execute, Machine.execute, target]
  case pointGlyph x =>
    have size : (UInt16.ofNat Font.glyphSize).toNat = Font.glyphSize := rfl
    have address : product? (m.value x).toUInt16 (UInt16.ofNat Font.glyphSize) =
        some ((m.value x).toUInt16 * UInt16.ofNat Font.glyphSize) := by
      apply product?_of_fits
      rw [UInt8.toNat_toUInt16, size]
      exact bounded.narrow.glyph_lt x
    simp [execute, Machine.execute, fits, address]
  case add x y => simp [execute, Machine.execute, fits, Machine.addRegisters, Machine.put]
  case subtract x y =>
    simp [execute, Machine.execute, fits, Machine.subtractRegisters, Machine.put, noBorrow_eq]
  case shiftRight x =>
    have flag : Registers.flag.toNat < 16 := by decide
    simp [execute, Machine.execute, fits, flag, Machine.shiftRegister, Machine.put, Registers.putFlag,
      shiftRight_one, lowBit_eq]
  case draw x y n => exact execute_draw_eq m log n fits.1 fits.2.1
  case skipIfKeyDown x | skipIfKeyUp x =>
    cases known : m.keys.isDown? (m.value x) with
    | some down =>
      simp [execute, Machine.execute, fits, Machine.keyDown, known, bind, Except.bind, pure,
        Except.pure]
    | none => simp [execute, Machine.execute, fits, Machine.keyDown, known, bind, Except.bind]
  case storeDigits x => exact execute_storeDigits_eq m log fits
  case storeRegisters x => exact execute_storeRegisters_eq m log fits
  case loadRegisters x => exact execute_loadRegisters_eq m log fits
  case random => simp [execute, Machine.execute, fits, Machine.put]
  all_goals simp [execute, Machine.execute, fits]

end Chip8.InPlace
