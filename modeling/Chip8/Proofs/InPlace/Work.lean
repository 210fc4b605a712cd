import Chip8.Machine.Step
import Chip8.Memory.Lemmas
import Chip8.Proofs.InPlace.Blit

/-!
Work on a machine in place: one access after another, each seen by those that follow. Work breaks
down where a sum or an index is out of range; short of that it answers or faults, and in either case
the machine is left as the work made it so far. Nothing here takes anything back, so a machine that
is untouched after a fault is one that the work had not touched.
-/
namespace Chip8.InPlace

/-- A machine that is worked on, and what there is to report so far. -/
structure Progress where
  machine : Machine
  displayChanged : Bool
  log : List LogEntry

/-- A piece of work, which breaks down at `none`. -/
def Work (α : Type) : Type := Progress → Option (Except Fault α × Progress)

instance : Monad Work where
  pure value := fun p => some (.ok value, p)
  bind work next := fun p =>
    match work p with
    | some (.ok value, q) => next value q
    | some (.error cause, q) => some (.error cause, q)
    | none => none

variable {α β : Type}

def fault (cause : Fault) : Work α := fun p => some (.error cause, p)

/-- Goes on only with a value that is there. -/
def demand (value : Option α) : Work α := fun p => value.map fun found => (.ok found, p)

def look (view : Machine → α) : Work α := fun p => some (.ok (view p.machine), p)

def change (update : Machine → Machine) : Work Unit :=
  fun p => some (.ok (), { p with machine := update p.machine })

def report (entry : LogEntry) : Work Unit :=
  fun p => some (.ok (), { p with log := p.log ++ [entry] })

/-- Notes that the display was cleared or drawn to. -/
def markDisplay : Work Unit := fun p => some (.ok (), { p with displayChanged := true })

@[simp] theorem pure_apply (value : α) (p : Progress) :
    (pure value : Work α) p = some (.ok value, p) := rfl

@[simp] theorem bind_apply (work : Work α) (next : α → Work β) (p : Progress) :
    (work >>= next) p =
      match work p with
      | some (.ok value, q) => next value q
      | some (.error cause, q) => some (.error cause, q)
      | none => none := rfl

@[simp] theorem fault_apply (cause : Fault) (p : Progress) :
    (fault cause : Work α) p = some (.error cause, p) := rfl

@[simp] theorem demand_some (value : α) (p : Progress) :
    demand (some value) p = some (.ok value, p) := rfl

@[simp] theorem look_apply (view : Machine → α) (p : Progress) :
    look view p = some (.ok (view p.machine), p) := rfl

@[simp] theorem change_apply (update : Machine → Machine) (p : Progress) :
    change update p = some (.ok (), { p with machine := update p.machine }) := rfl

@[simp] theorem report_apply (entry : LogEntry) (p : Progress) :
    report entry p = some (.ok (), { p with log := p.log ++ [entry] }) := rfl

@[simp] theorem markDisplay_apply (p : Progress) :
    markDisplay p = some (.ok (), { p with displayChanged := true }) := rfl

/-! ### Registers -/

def register (operand : UInt8) : Work UInt8 := do
  let registers ← look (·.registers)
  demand registers[operand.toNat]?

def setRegister (operand value : UInt8) : Work Unit := do
  let registers ← look (·.registers)
  let written ← demand (if inside : operand.toNat < registerCount then
    some (registers.set operand.toNat value) else none)
  change fun m => { m with registers := written }

def setFlag (yes : Bool) : Work Unit := setRegister Registers.flag (if yes then 1 else 0)

theorem number_of_lt {operand : UInt8} (inside : operand.toNat < registerCount) :
    Registers.number operand = ⟨operand.toNat, inside⟩ :=
  Fin.ext (Nat.mod_eq_of_lt inside)

@[simp] theorem register_apply {operand : UInt8} (inside : operand.toNat < registerCount)
    (p : Progress) : register operand p = some (.ok (p.machine.value operand), p) := by
  have found : p.machine.registers[operand.toNat]? = some (p.machine.value operand) := by
    simp [Machine.value, Registers.value, number_of_lt inside, inside]
  simp [register, found]

@[simp] theorem setRegister_apply {operand : UInt8} (inside : operand.toNat < registerCount)
    (value : UInt8) (p : Progress) :
    setRegister operand value p =
      some (.ok (), { p with machine := p.machine.put operand value }) := by
  simp [setRegister, inside, Machine.put, Registers.put, number_of_lt inside]

@[simp] theorem setFlag_apply (yes : Bool) (p : Progress) :
    setFlag yes p = some (.ok (), { p with machine :=
      { p.machine with registers := p.machine.registers.putFlag yes } }) :=
  setRegister_apply (by decide) _ p

/-! ### Memory -/

/-- Where a block of memory starts and ends, if it is inside of memory. -/
def block (start length : Nat) : Work (Nat × Nat) := do
  if memorySize ≤ start then
    fault (.outOfBounds start)
  else
    let stop ← demand (wideSum? start length)
    if memorySize < stop then fault (.outOfBounds memorySize) else return (start, stop)

def readBlock (place : Nat × Nat) : Work (List UInt8) := do
  let bytes ← look (·.memory.bytes)
  demand (read? bytes place.1 place.2)

/-- The machine with a block laid over its memory. -/
def overwritten (m : Machine) (start : Nat) (data : List UInt8) : Machine :=
  { m with memory := { m.memory with bytes := Block.write m.memory.bytes start data } }

/-- Writes a block, every byte of it. -/
def writeBlock (place : Nat × Nat) (data : List UInt8) : Work Unit := do
  let bytes ← look (·.memory.bytes)
  let written ← demand (copy? bytes place.1 place.2 data)
  change fun m => { m with memory := { m.memory with bytes := written } }

theorem block_apply {start length : Nat} (fits : start + length < UInt64.size) (p : Progress) :
    block start length p =
      match Memory.check start length with
      | .ok _ => some (.ok (start, start + length), p)
      | .error cause => some (.error cause, p) := by
  unfold block Memory.check
  by_cases outside : memorySize ≤ start
  · simp [outside]
  · by_cases out : memorySize < start + length
    · simp [outside, out, wideSum?_of_fits fits]
    · simp [outside, out, wideSum?_of_fits fits]

theorem readBlock_apply {start length : Nat} (inside : start + length ≤ memorySize)
    (p : Progress) :
    readBlock (start, start + length) p =
      some (.ok (Block.read p.machine.memory.bytes start length), p) := by
  simp [readBlock, read?_of_inside _ inside]

theorem writeBlock_apply {start : Nat} (data : List UInt8)
    (inside : start + data.length ≤ memorySize) (p : Progress) :
    writeBlock (start, start + data.length) data p =
      some (.ok (), { p with machine := overwritten p.machine start data }) := by
  simp [writeBlock, copy?_of_inside _ inside, overwritten]

/-! ### Calls -/

def push (address : UInt16) : Work Bool := do
  let stack ← look (·.stack)
  if stack.isFull then return false
  let pushed ← demand (if room : stack.depth < callLimit then
    some ⟨stack.frames.set stack.depth address, stack.depth + 1, room⟩ else none)
  change fun m => { m with stack := pushed }
  return true

def pop : Work (Option UInt16) := do
  let stack ← look (·.stack)
  if stack.isEmpty then return none
  let top ← demand (difference? stack.depth 1)
  let address ← demand stack.frames[top]?
  let popped ← demand (if room : top ≤ callLimit then some ⟨stack.frames, top, room⟩ else none)
  change fun m => { m with stack := popped }
  return some address

theorem push_apply (address : UInt16) (p : Progress) :
    push address p =
      match p.machine.stack.push? address with
      | some pushed => some (.ok true, { p with machine := { p.machine with stack := pushed } })
      | none => some (.ok false, p) := by
  have bound := p.machine.stack.depth_le
  by_cases room : p.machine.stack.depth < callLimit
  · have notFull : p.machine.stack.isFull = false := by simp [CallStack.isFull]; omega
    simp [push, CallStack.push?, notFull, room]
  · have full : p.machine.stack.isFull = true := by simp [CallStack.isFull]; omega
    simp [push, CallStack.push?, full, room]

theorem pop_apply (p : Progress) :
    pop p =
      match p.machine.stack.pop? with
      | some (address, popped) =>
        some (.ok (some address), { p with machine := { p.machine with stack := popped } })
      | none => some (.ok none, p) := by
  cases held : p.machine.stack with
  | mk frames depth depth_le =>
    cases depth with
    | zero => simp [pop, held, CallStack.isEmpty, CallStack.pop?]
    | succ top =>
      have inside : top < callLimit := depth_le
      have room : top ≤ callLimit := Nat.le_of_lt inside
      have below : difference? (top + 1) 1 = some top := difference?_of_le (Nat.le_add_left 1 top)
      simp [pop, held, CallStack.isEmpty, CallStack.pop?, below, room, inside, Vector.get]

end Chip8.InPlace
