import Chip8.Proofs.Latest
import Chip8.Proofs.Machine.Halting

/-!
When a picture is due. Between two times that a host asks for it, the note of the picture is set exactly by
the steps that say that they changed the display, and the display changes in no other way
(`picture_performAll`). So the host misses no change of the picture, whatever it does to the machine and
whether or not steps fail (`due_since_last_taken`).
-/
namespace Chip8.Machine

/-- A step of a history succeeds and says that it changed the display. -/
def ChangesDisplay (m : Machine) (history : List Command) : Prop :=
  ∃ outcome : Outcome, .ok outcome ∈ m.stepResults history ∧ outcome.displayChanged = true

theorem changesDisplay_append (m : Machine) (earlier later : List Command) :
    m.ChangesDisplay (earlier ++ later) ↔
      m.ChangesDisplay earlier ∨ (m.performAll earlier).ChangesDisplay later := by
  simp only [ChangesDisplay, stepResults_append, List.mem_append, or_and_right, exists_or]

theorem changesDisplay_step {m : Machine} :
    m.ChangesDisplay [.step] ↔
      ∃ outcome, m.step.result = .ok outcome ∧ outcome.displayChanged = true := by
  have single : m.stepResults [.step] = [m.step.result] := rfl
  simp only [ChangesDisplay, single, List.mem_singleton, eq_comm]

theorem not_changesDisplay_of_ne_step (m : Machine) {command : Command} (other : command ≠ .step) :
    ¬ m.ChangesDisplay [command] := by
  rintro ⟨outcome, among, _⟩
  rw [m.stepResults_of_ne_step other] at among
  cases among

/-- A step that fails leaves the display and the note of the picture alone. -/
theorem picture_of_step_error {m : Machine} {cause : Fault} (failed : m.step.result = .error cause) :
    m.step.machine.redraw = m.redraw ∧ m.step.machine.display = m.display := by
  cases halted : m.isHalted with
  | true =>
    rw [(step_of_halted halted).2]
    exact ⟨rfl, rfl⟩
  | false =>
    rw [machine_of_step_error failed halted]
    exact ⟨rfl, rfl⟩

theorem picture_perform {m : Machine} {command : Command} (untaken : command ≠ .takeRedraw) :
    ((m.perform command).machine.redraw = true ↔ m.redraw = true ∨ m.ChangesDisplay [command]) ∧
      (¬ m.ChangesDisplay [command] → (m.perform command).machine.display = m.display) := by
  by_cases step : command = .step
  · subst step
    rw [changesDisplay_step]
    show (m.step.machine.redraw = true ↔ _) ∧ (_ → m.step.machine.display = m.display)
    cases result : m.step.result with
    | ok outcome =>
      obtain ⟨redraw, display⟩ := picture_of_step result
      simpa only [Except.ok.injEq, exists_eq_left', redraw, Bool.or_eq_true, Bool.not_eq_true,
        true_and] using display
    | error cause =>
      obtain ⟨redraw, display⟩ := picture_of_step_error result
      simp [redraw, display]
  · have quiet := m.not_changesDisplay_of_ne_step step
    have ways := m.handled step
    generalize m.perform command = performance at ways
    cases ways with
    | loaded | unloaded | keySet => exact ⟨(or_iff_left quiet).symm, fun _ => rfl⟩
    | redrawTaken => exact absurd rfl untaken

/-- As long as nobody asks for the picture, it is due if it was before or a step changed the display, and
    no display changes without that. -/
theorem picture_performAll {m : Machine} {history : List Command}
    (untaken : .takeRedraw ∉ history) :
    ((m.performAll history).redraw = true ↔ m.redraw = true ∨ m.ChangesDisplay history) ∧
      (¬ m.ChangesDisplay history → (m.performAll history).display = m.display) := by
  induction history generalizing m with
  | nil =>
    have unchanged : ¬ m.ChangesDisplay [] := by
      rintro ⟨_, among, _⟩
      cases among
    exact ⟨(or_iff_left unchanged).symm, fun _ => rfl⟩
  | cons command rest ih =>
    obtain ⟨now, later⟩ := List.ne_and_not_mem_of_not_mem_cons untaken
    obtain ⟨redrawNow, displayNow⟩ := picture_perform (m := m) (Ne.symm now)
    obtain ⟨redrawLater, displayLater⟩ := ih (m := (m.perform command).machine) later
    have split : m.ChangesDisplay (command :: rest) ↔
        m.ChangesDisplay [command] ∨ (m.perform command).machine.ChangesDisplay rest :=
      m.changesDisplay_append [command] rest
    rw [performAll_cons, split]
    constructor
    · rw [redrawLater, redrawNow, or_assoc]
    · intro unchanged
      obtain ⟨first, second⟩ := not_or.mp unchanged
      rw [displayLater second, displayNow first]

/-! ### Behind the latest time it was asked for -/

theorem performAll_asked (m : Machine) (before : List Command) :
    m.performAll (before ++ [.takeRedraw]) = (m.performAll before).clearRedraw :=
  performAll_concat ..

theorem performAll_since_asked (m : Machine) (before since : List Command) :
    m.performAll (before ++ .takeRedraw :: since) =
      (m.performAll before).clearRedraw.performAll since := by
  rw [← performAll_asked, ← performAll_append, List.append_assoc, List.singleton_append]

theorem redraw_since_asked (m : Machine) (before : List Command) {since : List Command}
    (untaken : .takeRedraw ∉ since) :
    (m.performAll (before ++ .takeRedraw :: since)).redraw = true ↔
      (m.performAll (before ++ [.takeRedraw])).ChangesDisplay since := by
  have unset : (m.performAll before).clearRedraw.redraw = false := rfl
  rw [performAll_since_asked, performAll_asked, (picture_performAll untaken).1, unset]
  exact or_iff_right Bool.false_ne_true

theorem display_since_asked (m : Machine) (before : List Command) {since : List Command}
    (untaken : .takeRedraw ∉ since)
    (unchanged : ¬ (m.performAll (before ++ [.takeRedraw])).ChangesDisplay since) :
    (m.performAll (before ++ .takeRedraw :: since)).display = (m.performAll before).display := by
  rw [performAll_asked] at unchanged
  rw [performAll_since_asked, (picture_performAll untaken).2 unchanged]
  rfl

/-- What a host is told that asks for the picture of a machine that was fresh once. The picture is due the
    first time, and later exactly if a step since the last time said that it changed the display. And
    whenever the display was at any moment since then another than at that time, the picture is due. -/
theorem due_since_last_taken (random : RandomSource) (history : List Command) :
    let fresh := initial random
    ∃ due, ((fresh.performAll history).perform .takeRedraw).answer = .redraw due ∧
      (due = true ↔ .takeRedraw ∉ history ∨
        ∃ before since, history = before ++ .takeRedraw :: since ∧ .takeRedraw ∉ since ∧
          (fresh.performAll (before ++ [.takeRedraw])).ChangesDisplay since) ∧
      ∀ before since later, history = before ++ .takeRedraw :: (since ++ later) →
        .takeRedraw ∉ since ++ later →
        (fresh.performAll (before ++ .takeRedraw :: since)).display ≠
          (fresh.performAll before).display → due = true := by
  intro fresh
  refine ⟨_, rfl, ⟨?_, ?_⟩, ?_⟩
  · intro due
    rcases none_or_latest (· = Command.takeRedraw) history with
      never | ⟨before, _, since, rfl, rfl, untaken⟩
    · exact .inl fun among => never _ among rfl
    · have untaken : .takeRedraw ∉ since := fun among => untaken _ among rfl
      exact .inr ⟨before, since, rfl, untaken, (fresh.redraw_since_asked before untaken).mp due⟩
  · rintro (never | ⟨before, since, rfl, untaken, changes⟩)
    · exact (picture_performAll never).1.mpr (.inl rfl)
    · exact (fresh.redraw_since_asked before untaken).mpr changes
  · rintro before since later rfl untaken differs
    have earlier : .takeRedraw ∉ since := fun among => untaken (List.mem_append_left _ among)
    by_cases changes : (fresh.performAll (before ++ [.takeRedraw])).ChangesDisplay since
    · exact (fresh.redraw_since_asked before untaken).mpr
        ((changesDisplay_append ..).mpr (.inl changes))
    · exact absurd (fresh.display_since_asked before earlier changes) differs

end Chip8.Machine
