import Chip8.Machine.Command

/-!
Histories of commands. What holds of fresh machines and is kept by every command holds of every
machine that a history makes (`performAll_induction`), and a history in two parts is one part after
the other (`performAll_append`). What the commands of a history answer and report along the way is
`performances`, which splits in the same way.
-/
namespace Chip8.Machine

theorem performAll_cons (m : Machine) (command : Command) (history : List Command) :
    m.performAll (command :: history) = (m.perform command).machine.performAll history := rfl

theorem performAll_append (m : Machine) (earlier later : List Command) :
    m.performAll (earlier ++ later) = (m.performAll earlier).performAll later :=
  List.foldl_append

theorem performAll_concat (m : Machine) (history : List Command) (command : Command) :
    m.performAll (history ++ [command]) = ((m.performAll history).perform command).machine :=
  performAll_append m history [command]

theorem performAll_step (m : Machine) (history : List Command) :
    m.performAll (history ++ [.step]) = (m.performAll history).step.machine :=
  performAll_concat m history .step

theorem performAll_induction_of_mem {P : Machine → Prop} {m : Machine} {history : List Command}
    (kept : ∀ now : Machine, ∀ command ∈ history, P now → P (now.perform command).machine)
    (start : P m) : P (m.performAll history) := by
  induction history generalizing m with
  | nil => exact start
  | cons command rest ih =>
    have next : P (m.perform command).machine := kept m command List.mem_cons_self start
    exact ih (fun now later among => kept now later (List.mem_cons_of_mem _ among)) next

theorem performAll_induction {P : Machine → Prop}
    (kept : ∀ (m : Machine) (command : Command), P m → P (m.perform command).machine) {m : Machine}
    (start : P m) (history : List Command) : P (m.performAll history) :=
  performAll_induction_of_mem (fun now command _ => kept now command) start

/-- The commands of a history with what each one answered, made and reported, in order. -/
def performances (m : Machine) : List Command → List Performance
  | [] => []
  | command :: rest => m.perform command :: (m.perform command).machine.performances rest

theorem performances_append (m : Machine) (earlier later : List Command) :
    m.performances (earlier ++ later) =
      m.performances earlier ++ (m.performAll earlier).performances later := by
  induction earlier generalizing m with
  | nil => rfl
  | cons command rest ih =>
    rw [List.cons_append, performances, ih]
    rfl

end Chip8.Machine
