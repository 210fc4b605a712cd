import Chip8.Proofs.Keypad
import Chip8.Proofs.Machine.Output
import Chip8.Proofs.Session

/-!
Keys that are typed before a session begins, all of which are read in its first turn. If one of them
asks to quit, there is no step. Otherwise the session goes turn by turn like a machine on which the
typed keys are held for a hundred steps (`InStep`), so it depends on nothing but the set of those
keys. All of this holds of keys as the terminal sends them, since a text gives the events of its
characters (`playReports_typed`).

The invariant of a session (`Follows`) is that its machine is that machine but for the note of the
picture, which no step asks for, and that its keypad counts down the typed keys.
-/
namespace Chip8
open Terminal (KeyEvent)

namespace Machine

/-- A step with these keys down and no others, as it goes when they have been set (`setKeys_eq`). -/
def stepWith (m : Machine) (keys : Keys) : Transition := { m with keys := keys }.step

/-- The machine after a number of steps, given which keys are down before each. The first step has
    the number one. -/
def stepsWith (m : Machine) (keys : Nat → Keys) : Nat → Machine
  | 0 => m
  | steps + 1 => ((m.stepsWith keys steps).stepWith (keys (steps + 1))).machine

end Machine

namespace Session

/-- A session after a number of turns when events wait for the first of them. -/
def typed (s : Session) (events : List KeyEvent) (turns : Nat) : Session :=
  s.playReports (events.map .key) turns

/-- A turn does what a step of a machine does. The machine of the session is that machine except
    that it may differ in whether a picture is due. -/
structure InStep (s : Session) (events : List KeyEvent) (first : Bool) (next : Session)
    (m : Machine) (transition : Transition) : Prop where
  before : ∃ redraw, s.machine = { m with redraw := redraw }
  made : ∃ redraw, s.step? events =
    some { transition with machine := { transition.machine with redraw := redraw } }
  after : ∃ redraw, next.machine = { transition.machine with redraw := redraw }
  goes : ∀ outcome, transition.result = .ok outcome →
    next.status = .playing ∧
    next.pictures = s.pictures ++
      (if first = true ∨ outcome.displayChanged = true then [transition.machine.display] else [])
  stops : ∀ cause, transition.result = .error cause →
    next.status = .stopped m.pc cause ∧ next.pictures = s.pictures ∧ ∀ later, next.play later = next

/-- A session stands before a turn as a machine does before a step. -/
structure Follows (s : Session) (events : List KeyEvent) (first : Bool) (m : Machine)
    (keypad : Keypad) : Prop where
  playing : s.status = .playing
  current : Current first s
  machine : ∃ redraw, s.machine = { m with redraw := redraw }
  fed : s.keypad.feed? events = some keypad

/-! ### One turn -/

theorem keypad_of_turn {s : Session} {events : List KeyEvent} {keypad : Keypad}
    (playing : s.status = .playing) (fed : s.keypad.feed? events = some keypad) :
    (s.turn events).keypad = keypad.age := by
  simp only [turn, playing, fed, cycle]
  split <;> rfl

theorem Follows.inStep {s : Session} {events : List KeyEvent} {first : Bool} {m : Machine}
    {keypad : Keypad} (follows : Follows s events first m keypad) :
    InStep s events first (s.turn events) m (m.stepWith keypad.down) := by
  obtain ⟨redraw, same⟩ := follows.machine
  have made : s.step? events = some { s.machine with keys := keypad.down }.step := by
    rw [step?, follows.fed, Option.map_some]
  obtain ⟨due, stepped⟩ := { m with keys := keypad.down }.step_of_redraw redraw
  rw [same, stepped] at made
  have shows := shows_of_current follows.current follows.playing events
  refine ⟨⟨redraw, same⟩, ⟨due, made⟩, ?_, ?_, ?_⟩
  · have ways := s.turned events
    generalize s.turn events = next at ways
    cases ways with
    | ended ended => exact absurd follows.playing ended
    | quit _ asked =>
      rw [made] at asked
      cases asked
    | stopped _ again =>
      cases made.symm.trans again
      exact ⟨due, rfl⟩
    | made _ again =>
      cases made.symm.trans again
      exact ⟨false, rfl⟩
  · intro outcome done
    obtain ⟨playing, machine, pictures, _⟩ := shows.made _ outcome made done
    rw [machine] at pictures
    exact ⟨playing, pictures⟩
  · intro cause failed
    obtain ⟨pictures, status, _, _, ended⟩ := shows.stopped _ cause made failed
    rw [same] at status
    exact ⟨status, pictures, ended⟩

/-! ### A session from its start -/

/-- A text without an escape character that fits one reading is typed as the keys of its characters. -/
theorem playReports_typed {text : String}
    (fits : (Terminal.bytesOfTyped text).length ≤ Terminal.readingLimit)
    (plain : '\x1b' ∉ text.toList) (s : Session) (turns : Nat) :
    s.playReports (Terminal.reportsOfTyped text) turns =
      s.typed (text.toList.map KeyEvent.ofChar) turns := by
  have reports : Terminal.reportsOfTyped text = (text.toList.map KeyEvent.ofChar).map .key := by
    rw [Terminal.reportsOfTyped_of_fits fits plain, List.map_map]
    rfl
  rw [reports]
  rfl

theorem typed_succ (s : Session) (events : List KeyEvent) (turns : Nat) :
    s.typed events (turns + 1) = (s.typed events turns).turn (if turns = 0 then events else []) := by
  rw [typed, playReports_keys]
  cases turns with
  | zero => rfl
  | succ turns =>
    rw [typed, playReports_keys, List.replicate_succ', ← List.cons_append, play, List.foldl_append]
    rfl

theorem typed_of_quits {m : Machine} {events : List KeyEvent}
    (asked : ∃ event ∈ events, event.Quits) (turns : Nat) :
    (start m).typed events (turns + 1) = { start m with status := .quit } := by
  have fed : (start m).keypad.feed? events = none := by rw [Keypad.feed?_eq, if_pos asked]
  have first : (start m).turn events = { start m with status := .quit } := by
    simp only [turn, fed]
    rfl
  rw [typed, playReports_keys]
  show ((start m).turn events).play _ = _
  rw [first]
  exact play_of_ended (by simp) _

theorem typed_congr {m : Machine} {events others : List KeyEvent}
    (same : (start m).keypad.feed? events = (start m).keypad.feed? others) (turns : Nat) :
    (start m).typed events turns = (start m).typed others turns := by
  cases turns with
  | zero => rfl
  | succ turns =>
    have first : (start m).turn events = (start m).turn others := by simp only [turn, same]
    rw [typed, playReports_keys, typed, playReports_keys]
    exact congrArg (play · (List.replicate turns [])) first

/-- As long as no step of the machine fails, the session goes on with it. -/
theorem follows_typed {m : Machine} {events : List KeyEvent} (fresh : Current true (start m))
    (kept : ∀ event ∈ events, ¬ event.Quits) (pressed : ∀ event ∈ events, event.action ≠ .release)
    {turns : Nat} :
    let keys := (Keys.named events).heldAtFirst
    (∀ earlier < turns, ∃ outcome,
      ((m.stepsWith keys earlier).stepWith (keys (earlier + 1))).result = .ok outcome) →
    Follows ((start m).typed events turns) (if turns = 0 then events else []) (turns = 0)
      (m.stepsWith keys turns) (.typed (Keys.named events) turns) := by
  intro keys
  induction turns with
  | zero =>
    intro _
    exact ⟨rfl, fresh, ⟨m.redraw, rfl⟩, Keypad.feed?_of_presses kept pressed⟩
  | succ turns ih =>
    intro going
    have follows := ih fun earlier below => going earlier (Nat.lt_succ_of_lt below)
    have inStep := follows.inStep
    have keypad := keypad_of_turn follows.playing follows.fed
    obtain ⟨outcome, done⟩ := going turns (Nat.lt_succ_self turns)
    rw [Keypad.down_typed] at inStep
    rw [Keypad.age_typed] at keypad
    obtain ⟨playing, _⟩ := inStep.goes outcome done
    rw [typed_succ]
    exact ⟨playing, current_turn (fun _ => follows.current) _ playing, inStep.after,
      congrArg some keypad⟩

/-- Let all events be read before the first step of a session. If one of them asks to quit, then the
    session ends in good order with no step and no picture. Otherwise, if none is a release, each
    turn does what a step does of the machine on which the keys of the events are held for the first
    hundred steps and none after them; and other events about the same keys make the same session,
    whatever their order and number, and whatever else was typed. The events may come as text: what a
    terminal sends for a text that fits one reading, without an escape character, is played as the keys
    of its characters, Ctrl among them. -/
theorem typed_keys_held (random : RandomSource) (rom : Rom) (events : List KeyEvent) :
    let loaded := ((Machine.initial random).perform (.loadRom rom)).machine
    let keys := (Keys.named events).heldAtFirst
    let session := (start loaded).typed events
    ((∃ event ∈ events, event.Quits) → ∀ turns,
      session (turns + 1) = { start loaded with status := .quit } ∧
      (session (turns + 1)).pictures = [] ∧
      CommandLine.sessionCode (session (turns + 1)) = 0 ∧
      CommandLine.sessionErrors (session (turns + 1)) = "") ∧
    ((∀ event ∈ events, ¬ event.Quits ∧ event.action ≠ .release) →
      (∀ turns, (∀ earlier < turns, ∃ outcome,
          ((loaded.stepsWith keys earlier).stepWith (keys (earlier + 1))).result = .ok outcome) →
        InStep (session turns) (if turns = 0 then events else []) (turns = 0) (session (turns + 1))
          (loaded.stepsWith keys turns)
          ((loaded.stepsWith keys turns).stepWith (keys (turns + 1)))) ∧
      ∀ others : List KeyEvent, (∀ event ∈ others, ¬ event.Quits ∧ event.action ≠ .release) →
        (∀ key, (∃ event ∈ others, event.key? = some key) ↔ ∃ event ∈ events, event.key? = some key) →
        ∀ turns, (start loaded).typed others turns = session turns) ∧
    ∀ text : String, (Terminal.bytesOfTyped text).length ≤ Terminal.readingLimit →
      '\x1b' ∉ text.toList → text.toList.map KeyEvent.ofChar = events →
      ∀ turns, (start loaded).playReports (Terminal.reportsOfTyped text) turns = session turns := by
  intro loaded keys session
  have fresh : Current true (start loaded) := by
    obtain ⟨memory, _, performed⟩ := (Machine.initial random).performLoad_of_fits rom.length_le
    have same : loaded = _ := congrArg Performance.machine performed
    rw [same]
    exact ⟨rfl, rfl, by simp⟩
  refine ⟨?_, ?_, ?_⟩
  · intro asked turns
    have quit : session (turns + 1) = _ := typed_of_quits asked turns
    rw [quit]
    exact ⟨rfl, rfl, rfl, rfl⟩
  · intro presses
    have kept := fun event among => (presses event among).1
    have pressed := fun event among => (presses event among).2
    refine ⟨?_, ?_⟩
    · intro turns going
      have inStep := (follows_typed fresh kept pressed going).inStep
      rw [Keypad.down_typed, ← typed_succ] at inStep
      exact inStep
    · intro others presses same
      refine typed_congr ?_
      show Keypad.released.feed? others = Keypad.released.feed? events
      rw [Keypad.feed?_of_presses kept pressed,
        Keypad.feed?_of_presses (fun event among => (presses event among).1)
          (fun event among => (presses event among).2), Keys.named_congr same]
  · rintro text fits plain rfl turns
    exact playReports_typed fits plain (start loaded) turns

end Session

end Chip8
