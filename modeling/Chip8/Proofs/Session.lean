import Chip8.CommandLine.Completion
import Chip8.Proofs.Machine.Halting

/-!
What is on the screen during a session. A turn ends the session before any step, or it makes one step
(`step?`) and shows a picture if one is due (`turned`). Between turns no picture is due and the one
that was shown last is that of the display (`Current`), so the screen is never out of date; only the
first turn finds a picture due that no step asked for.
-/
namespace Chip8

/-- The address of the instruction, in a fault that names it. -/
def Fault.pc? : Fault → Option UInt16
  | unknownOpcode _ pc | stackOverflow pc | stackUnderflow pc => some pc
  | _ => none

theorem Machine.pc_of_step_error {m : Machine} {cause : Fault} {pc : UInt16}
    (failed : m.step.result = .error cause) (named : cause.pc? = some pc) : pc = m.pc := by
  cases fails_iff.mp failed with
  | stopped | past | last => cases named
  | word running inside unfit =>
    cases unfit with
    | unknown | overflow | underflow => exact (Option.some.inj named).symm
    | key | outside | across => cases named

/-! ### Setting the keys -/

namespace Machine

/-- The machine after each key was set in turn. -/
def setKeys (m : Machine) (keys : Keys) : Except Fault Machine :=
  (List.finRange keyCount).foldlM
    (fun machine key => machine.setKey (UInt8.ofNat key.val) (keys.get key)) m

theorem setKey_eq (m : Machine) (key : Fin keyCount) (down : Bool) :
    m.setKey (UInt8.ofNat key.val) down =
      .ok { m with keys := m.keys.set key.val down key.isLt } := by
  have number : (UInt8.ofNat key.val).toNat = key.val := by
    have below : key.val < 16 := key.isLt
    simp only [UInt8.toNat_ofNat']
    omega
  simp only [setKey, number, dif_pos key.isLt]

theorem setSome_eq (keys : Keys) (chosen : List (Fin keyCount)) (m : Machine) :
    ∃ set : Keys, chosen.foldlM
        (fun machine key => machine.setKey (UInt8.ofNat key.val) (keys.get key)) m =
          (.ok { m with keys := set } : Except Fault Machine) ∧
      ∀ key : Fin keyCount, (key ∈ chosen → set.get key = keys.get key) ∧
        (key ∉ chosen → set.get key = m.keys.get key) := by
  induction chosen generalizing m with
  | nil => exact ⟨m.keys, rfl, by simp⟩
  | cons first rest ih =>
    obtain ⟨set, done, contents⟩ :=
      ih { m with keys := m.keys.set first.val (keys.get first) first.isLt }
    refine ⟨set, ?_, ?_⟩
    · rw [List.foldlM_cons, setKey_eq]
      exact done
    · intro key
      obtain ⟨later, never⟩ := contents key
      rw [Keys.get_set] at never
      by_cases among : key ∈ rest
      · exact ⟨fun _ => later among, fun outside => absurd (List.mem_cons_of_mem _ among) outside⟩
      · constructor
        · intro either
          obtain rfl : key = first := (List.mem_cons.mp either).resolve_right among
          rw [never among, if_pos rfl]
        · intro outside
          have apart : first ≠ key := fun same => outside (same ▸ List.mem_cons_self)
          rw [never among, if_neg apart]

/-- All keys are known, so setting them cannot fail. -/
theorem setKeys_eq (m : Machine) (keys : Keys) : m.setKeys keys = .ok { m with keys := keys } := by
  obtain ⟨set, done, contents⟩ := setSome_eq keys (List.finRange keyCount) m
  have same : set = keys := by
    apply Vector.ext
    intro key inside
    exact (contents ⟨key, inside⟩).1 (List.mem_finRange _)
  rw [setKeys, done, same]

end Machine

namespace Terminal

/-- A frame is the lines of half blocks, each at its place on the screen. -/
theorem frame_eq (fb : Framebuffer) :
    frame fb = String.join ((frameLines fb).mapIdx fun line text => moveToLine line ++ text) := by
  have same : (List.range frameHeight).map (fun line => moveToLine line ++ frameLine fb line) =
      (frameLines fb).mapIdx fun line text => moveToLine line ++ text := by
    apply List.ext_getElem
    · simp [frameLines]
    · intro line before after
      simp [frameLines]
  rw [frame, same]

end Terminal

namespace Session
open Terminal (KeyEvent)

/-- The step that a turn makes, unless one of its reports asks to quit. -/
def step? (s : Session) (events : List KeyEvent) : Option Transition :=
  (s.keypad.feed? events).map fun keypad => { s.machine with keys := keypad.down }.step

/-- The ways of a turn. -/
inductive Turned (s : Session) (events : List KeyEvent) : Session → Prop where
  | ended (ended : s.status ≠ .playing) : Turned s events s
  | quit (playing : s.status = .playing) (asked : s.step? events = none) :
      Turned s events { s with status := .quit }
  | stopped {transition : Transition} {cause : Fault} (playing : s.status = .playing)
      (made : s.step? events = some transition) (failed : transition.result = .error cause)
      (keypad : Keypad) :
      Turned s events { s with
        machine := transition.machine
        keypad := keypad
        status := .stopped transition.machine.pc cause }
  | made {transition : Transition} {outcome : Outcome} (playing : s.status = .playing)
      (made : s.step? events = some transition) (done : transition.result = .ok outcome)
      (keypad : Keypad) :
      Turned s events { s with
        machine := { transition.machine with redraw := false }
        keypad := keypad
        shown := if transition.machine.redraw then transition.machine.display :: s.shown
          else s.shown }

theorem turned (s : Session) (events : List KeyEvent) : Turned s events (s.turn events) := by
  unfold turn
  split
  · next playing =>
    split
    · next asked => exact .quit playing (by rw [step?, asked, Option.map_none])
    · next keypad fed =>
      have made : s.step? events = some { s.machine with keys := keypad.down }.step := by
        rw [step?, fed, Option.map_some]
      unfold cycle
      dsimp only
      split
      · next cause failed => exact .stopped playing made failed keypad.age
      · next outcome done => exact .made playing made done keypad.age
  · next ended => exact .ended ended

theorem turn_of_ended {s : Session} (ended : s.status ≠ .playing) (events : List KeyEvent) :
    s.turn events = s := by
  have ways := s.turned events
  generalize s.turn events = next at ways
  cases ways with
  | ended => rfl
  | quit playing | stopped playing | made playing => exact absurd playing ended

theorem play_of_ended {s : Session} (ended : s.status ≠ .playing) (schedule : List (List KeyEvent)) :
    s.play schedule = s := by
  induction schedule with
  | nil => rfl
  | cons events rest ih => exact (congrArg (play · rest) (turn_of_ended ended events)).trans ih

/-! ### The last picture -/

/-- How a session stands between turns. Before the first one a picture is due; after it none is, and
    the last one shown is that of the display. -/
structure Current (first : Bool) (s : Session) : Prop where
  going : s.machine.isHalted = false
  due : s.machine.redraw = first
  shown : first = false → s.shown.head? = some s.machine.display

/-- A step that succeeds in a turn makes a picture due in the first turn and wherever it touches the
    display, and otherwise the display is as it was shown last. -/
theorem Current.of_step {first : Bool} {s : Session} (current : Current first s)
    {events : List KeyEvent} {transition : Transition} {outcome : Outcome}
    (made : s.step? events = some transition) (done : transition.result = .ok outcome) :
    transition.machine.isHalted = false ∧
      transition.machine.redraw = (first || outcome.displayChanged) ∧
      (transition.machine.redraw = false →
        s.shown.head? = some transition.machine.display) := by
  obtain ⟨keypad, _, rfl⟩ := Option.map_eq_some_iff.mp made
  obtain ⟨redraw, display⟩ := Machine.picture_of_step done
  refine ⟨?_, ?_, ?_⟩
  · rcases Machine.step_of_going (m := { s.machine with keys := keypad.down }) current.going with
      ⟨_, _, going, _⟩ | ⟨_, failed, _⟩
    · exact going
    · rw [done] at failed
      cases failed
  · rw [redraw]
    exact congrArg (· || outcome.displayChanged) current.due
  · intro quiet
    rw [quiet] at redraw
    obtain ⟨seen, unchanged⟩ := Bool.or_eq_false_iff.mp redraw.symm
    rw [display unchanged]
    exact current.shown (current.due.symm.trans seen)

theorem current_turn {first : Bool} {s : Session} (current : s.status = .playing → Current first s)
    (events : List KeyEvent) (still : (s.turn events).status = .playing) :
    Current false (s.turn events) := by
  have ways := s.turned events
  generalize s.turn events = next at ways still
  cases ways with
  | ended ended => exact absurd still ended
  | quit | stopped => cases still
  | made playing made done =>
    obtain ⟨going, _, display⟩ := (current playing).of_step made done
    refine ⟨going, rfl, fun _ => ?_⟩
    dsimp only
    split
    · rfl
    · next quiet => exact display (Bool.not_eq_true _ ▸ quiet)

theorem current_play {first : Bool} {s : Session} (current : s.status = .playing → Current first s)
    (schedule : List (List KeyEvent)) (still : (s.play schedule).status = .playing) :
    Current (first && schedule.isEmpty) (s.play schedule) := by
  induction schedule generalizing first s with
  | nil =>
    rw [List.isEmpty_nil, Bool.and_true]
    exact current still
  | cons events rest ih =>
    have later := ih (current_turn current events) still
    rw [Bool.false_and] at later
    rw [List.isEmpty_cons, Bool.and_false]
    exact later

/-! ### Whole sessions -/

/-- What a turn of a session that is still played makes of it and of its screen. -/
structure Shows (s : Session) (first : Bool) (events : List KeyEvent) (next : Session) : Prop where
  quit : s.step? events = none → next = { s with status := .quit }
  made : ∀ transition outcome, s.step? events = some transition →
    transition.result = .ok outcome →
    next.status = .playing ∧ next.machine = { transition.machine with redraw := false } ∧
    next.pictures = s.pictures ++
      (if first = true ∨ outcome.displayChanged = true then [next.machine.display] else []) ∧
    next.pictures.getLast? = some next.machine.display
  stopped : ∀ transition cause, s.step? events = some transition →
    transition.result = .error cause →
    next.pictures = s.pictures ∧ next.status = .stopped s.machine.pc cause ∧
    CommandLine.sessionErrors next = CommandLine.failureText
      ("stopped at " ++ Numeral.hexLiteral 3 s.machine.pc.toNat) [cause.message] ∧
    (∀ pc, cause.pc? = some pc → pc = s.machine.pc) ∧ ∀ later, next.play later = next

theorem shows_of_current {first : Bool} {s : Session} (current : Current first s)
    (playing : s.status = .playing) (events : List KeyEvent) :
    Shows s first events (s.turn events) := by
  have ways := s.turned events
  generalize s.turn events = next at ways
  cases ways with
  | ended ended => exact absurd playing ended
  | quit _ asked => exact ⟨fun _ => rfl, by simp [asked], by simp [asked]⟩
  | @stopped transition cause _ made failed keypad =>
    refine ⟨by simp [made], ?_, ?_⟩
    · intro transition outcome again done
      cases made.symm.trans again
      rw [failed] at done
      cases done
    · intro transition cause again told
      cases made.symm.trans again
      cases failed.symm.trans told
      obtain ⟨held, _, rfl⟩ := Option.map_eq_some_iff.mp made
      have place : { s.machine with keys := held.down }.step.machine.pc = s.machine.pc := by
        rw [Machine.machine_of_step_error failed current.going]
      refine ⟨rfl, by rw [place], by simp only [CommandLine.sessionErrors, place], ?_, ?_⟩
      · intro pc named
        exact Machine.pc_of_step_error (m := { s.machine with keys := held.down }) failed named
      · exact play_of_ended (by simp)
  | @made transition outcome _ made done keypad =>
    obtain ⟨_, redraw, display⟩ := current.of_step made done
    refine ⟨by simp [made], ?_, ?_⟩
    · intro transition outcome again told
      cases made.symm.trans again
      cases done.symm.trans told
      have due : (first = true ∨ outcome.displayChanged = true) ↔
          transition.machine.redraw = true := by rw [redraw, Bool.or_eq_true]
      refine ⟨playing, rfl, ?_, ?_⟩
      · simp only [due, pictures]
        split <;> simp
      · simp only [pictures, List.getLast?_reverse]
        split
        · rfl
        · next quiet => exact display (Bool.not_eq_true _ ▸ quiet)
    · intro transition cause again failed
      cases made.symm.trans again
      rw [done] at failed
      cases failed

/-- Whatever program is played and whatever is typed, the screen shows the display. A picture goes to
    it, in lines of half blocks, in the first turn and whenever a step touched the display, so after
    every step that succeeds the last one is up to date. A turn that quits and one whose step fails show
    nothing; the failure ends the session and is reported with the address of the instruction. -/
theorem screen_never_stale (random : RandomSource) (rom : Rom) (schedule : List (List KeyEvent))
    (events : List KeyEvent) :
    let s := (start ((Machine.initial random).perform (.loadRom rom)).machine).play schedule
    let next := s.turn events
    (s.status = .playing → Shows s schedule.isEmpty events next) ∧
    (s.status ≠ .playing → next = s) ∧
    (∀ keys, s.machine.setKeys keys = .ok { s.machine with keys := keys }) ∧
    CommandLine.sessionOutput next = Terminal.enter ++ String.join (next.pictures.map fun picture =>
      String.join ((Terminal.frameLines picture).mapIdx fun line text =>
        Terminal.moveToLine line ++ text)) ++ Terminal.leave := by
  intro s next
  refine ⟨?_, fun ended => turn_of_ended ended events, s.machine.setKeys_eq, ?_⟩
  · intro playing
    have fresh : Current true (start ((Machine.initial random).perform (.loadRom rom)).machine) := by
      obtain ⟨memory, _, loaded⟩ := (Machine.initial random).performLoad_of_fits rom.length_le
      rw [Machine.perform, loaded]
      exact ⟨rfl, rfl, by simp⟩
    have current := current_play (fun _ => fresh) schedule playing
    rw [Bool.true_and] at current
    exact shows_of_current current playing events
  · simp only [← Terminal.frame_eq]
    rfl

end Session

end Chip8
