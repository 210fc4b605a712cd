import Chip8.Host

/-!
What typing does to the keypad. Unless one of them asks to quit, the events of a turn strike their
keys one after the other (`feed?_eq`). Of presses only the set of their keys matters, not their order
or number (`get_strikeAll`). A key that was pressed is down for a hundred cycles, of which the one
that it was pressed in is the first (`down_typed`).
-/
namespace Chip8
open Terminal (KeyEvent)

namespace Terminal.KeyEvent

/-- An event asks to quit: it is escape, or the letter C together with Ctrl. -/
def Quits (event : KeyEvent) : Prop :=
  event.code = .escape ∨ (event.code = .char 'c' ∧ event.control = true)

instance : DecidablePred Quits := fun _ => inferInstanceAs (Decidable (_ ∨ _))

/-- The key of the keypad that an event is about. Upper and lower case are one, and Ctrl plays no
    part. -/
def key? (event : KeyEvent) : Option (Fin keyCount) :=
  match event.code with
  | .char c => keyOfChar? c.toLower
  | _ => none

end Terminal.KeyEvent

theorem reaction_of_quits {event : KeyEvent} (quits : event.Quits) : reaction event = .quit := by
  rcases quits with escape | ⟨letter, control⟩
  · simp [reaction, escape]
  · simp [reaction, letter, control]

theorem reaction_of_not_quits {event : KeyEvent} (kept : ¬ event.Quits) :
    reaction event =
      match event.key? with
      | none => .ignore
      | some key => if event.action = .release then .release key else .press key := by
  cases code : event.code with
  | escape => exact absurd (.inl code) kept
  | other => simp [reaction, KeyEvent.key?, code]
  | char c =>
    have stays : ¬ (event.control = true ∧ c = 'c') := by
      rintro ⟨control, rfl⟩
      exact kept (.inr ⟨code, control⟩)
    simp only [reaction, KeyEvent.key?, code, if_neg stays]
    cases keyOfChar? c.toLower with
    | none => rfl
    | some key => cases event.action <;> rfl

namespace Keys

/-- The keys that events are about. -/
def named (events : List KeyEvent) : Keys :=
  Vector.ofFn fun key => events.any fun event => event.key? = some key

theorem get_named (events : List KeyEvent) (key : Fin keyCount) :
    (named events).get key = events.any fun event => event.key? = some key :=
  Vector.getElem_ofFn key.isLt

theorem named_congr {events others : List KeyEvent}
    (same : ∀ key, (∃ event ∈ events, event.key? = some key) ↔
      ∃ event ∈ others, event.key? = some key) : named events = named others := by
  apply Vector.ext
  intro key inside
  simp only [named, Vector.getElem_ofFn]
  rw [Bool.eq_iff_iff]
  simpa using same ⟨key, inside⟩

example : named ("qW!q".toList.map .ofChar) = named ("wQ".toList.map .ofChar) := by decide

/-- The keys are down before each of the first hundred steps, and none is before a later one. -/
def heldAtFirst (keys : Keys) (step : Nat) : Keys := if step ≤ 100 then keys else allUp

end Keys

namespace Keypad

theorem ext_get {pad other : Keypad}
    (same : ∀ key, pad.remaining.get key = other.remaining.get key) : pad = other := by
  obtain ⟨remaining⟩ := pad
  obtain ⟨others⟩ := other
  congr 1
  exact Vector.ext fun key inside => same ⟨key, inside⟩

theorem get_set (pad : Keypad) (struck key : Fin keyCount) (cycles : Nat) :
    (pad.remaining.set struck.val cycles struck.isLt).get key =
      if struck = key then cycles else pad.remaining.get key := by
  show (pad.remaining.set struck.val cycles struck.isLt)[key.val] =
    if struck = key then cycles else pad.remaining[key.val]
  simp only [Vector.getElem_set, Fin.ext_iff]

theorem get_age (pad : Keypad) (key : Fin keyCount) :
    pad.age.remaining.get key = pad.remaining.get key - 1 :=
  Vector.getElem_map _ key.isLt

theorem get_down (pad : Keypad) (key : Fin keyCount) :
    pad.down.get key = decide (0 < pad.remaining.get key) :=
  Vector.getElem_map _ key.isLt

/-! ### Striking keys -/

/-- The keypad after an event that does not ask to quit. -/
def strike (pad : Keypad) (event : KeyEvent) : Keypad :=
  match event.key? with
  | none => pad
  | some key => if event.action = .release then pad.release key else pad.press key

theorem get_strike (pad : Keypad) (event : KeyEvent) (key : Fin keyCount) :
    (pad.strike event).remaining.get key =
      if event.key? = some key then if event.action = .release then 0 else holdCycles
      else pad.remaining.get key := by
  unfold strike
  cases event.key? with
  | none => simp
  | some struck =>
    simp only [Option.some.injEq]
    split
    · exact pad.get_set struck key 0
    · exact pad.get_set struck key holdCycles

theorem feed?_eq (pad : Keypad) (events : List KeyEvent) :
    pad.feed? events =
      if ∃ event ∈ events, event.Quits then none else some (events.foldl strike pad) := by
  induction events generalizing pad with
  | nil => simp [feed?]
  | cons event rest ih =>
    by_cases quits : event.Quits
    · simp [feed?, reaction_of_quits quits, quits]
    · have next : pad.feed? (event :: rest) = (pad.strike event).feed? rest := by
        rw [feed?, reaction_of_not_quits quits, strike]
        cases event.key? with
        | none => rfl
        | some key => by_cases up : event.action = .release <;> simp [up]
      simp [next, ih, quits]

theorem get_strikeAll {events : List KeyEvent} (pressed : ∀ event ∈ events, event.action ≠ .release)
    (pad : Keypad) (key : Fin keyCount) :
    (events.foldl strike pad).remaining.get key =
      if (Keys.named events).get key then holdCycles else pad.remaining.get key := by
  simp only [Keys.get_named]
  induction events generalizing pad with
  | nil => simp
  | cons event rest ih =>
    have down : event.action ≠ .release := pressed event List.mem_cons_self
    rw [List.foldl_cons, ih (fun other among => pressed other (.tail _ among)), get_strike,
      if_neg down]
    by_cases struck : event.key? = some key <;> simp [struck]

/-! ### Keys that were pressed together -/

/-- The keypad a number of cycles after keys were pressed, when none was held before. -/
def typed (keys : Keys) (cycles : Nat) : Keypad :=
  ⟨Vector.ofFn fun key => if keys.get key then holdCycles - cycles else 0⟩

theorem get_typed (keys : Keys) (cycles : Nat) (key : Fin keyCount) :
    (typed keys cycles).remaining.get key = if keys.get key then holdCycles - cycles else 0 :=
  Vector.getElem_ofFn key.isLt

theorem feed?_of_presses {events : List KeyEvent} (kept : ∀ event ∈ events, ¬ event.Quits)
    (pressed : ∀ event ∈ events, event.action ≠ .release) :
    released.feed? events = some (typed (Keys.named events) 0) := by
  have none : ¬ ∃ event ∈ events, event.Quits :=
    fun ⟨event, among, quits⟩ => kept event among quits
  rw [feed?_eq, if_neg none]
  congr 1
  apply ext_get
  intro key
  have up : released.remaining.get key = 0 := Vector.getElem_replicate key.isLt
  rw [get_strikeAll pressed, get_typed, up, Nat.sub_zero]

theorem age_typed (keys : Keys) (cycles : Nat) :
    (typed keys cycles).age = typed keys (cycles + 1) := by
  apply ext_get
  intro key
  rw [get_age, get_typed, get_typed]
  split
  · rw [Nat.sub_sub]
  · rfl

theorem down_typed (keys : Keys) (cycles : Nat) :
    (typed keys cycles).down = keys.heldAtFirst (cycles + 1) := by
  apply Vector.ext
  intro key inside
  have held := (typed keys cycles).get_down ⟨key, inside⟩
  have counted : keys.heldAtFirst (cycles + 1) = if cycles < holdCycles then keys else Keys.allUp :=
    rfl
  rw [get_typed] at held
  refine held.trans ?_
  rw [counted]
  by_cases counts : cycles < holdCycles
  · have left : 0 < holdCycles - cycles := Nat.sub_pos_of_lt counts
    rw [if_pos counts]
    show _ = keys.get ⟨key, inside⟩
    cases keys.get ⟨key, inside⟩ <;> simp [left]
  · have spent : holdCycles - cycles = 0 := Nat.sub_eq_zero_of_le (Nat.not_lt.mp counts)
    simp [counts, spent, Keys.allUp]

end Keypad

end Chip8
