import Chip8.Proofs.Keypad
import Chip8.Proofs.Latest

/-!
For how long a key is down. Every key has a countdown that presses and releases of the key set and ticks
run down, and other requests leave it alone (`get_afterRequests`, `countdown_filter`). Behind the latest
strike of a key only ticks count (`countdown_of_unstruck`), so the key is down in the hundred ticks that
follow a press, unless it is struck again before (`held_for_hundred_ticks`).
-/
namespace Chip8

inductive KeypadRequest where
  | press (key : Fin keyCount)
  | release (key : Fin keyCount)
  | tick
  deriving DecidableEq

namespace KeypadRequest

/-- The request presses or releases the key. -/
def Strikes (request : KeypadRequest) (key : Fin keyCount) : Prop :=
  request = .press key ∨ request = .release key

instance (request : KeypadRequest) (key : Fin keyCount) : Decidable (request.Strikes key) :=
  inferInstanceAs (Decidable (_ ∨ _))

/-- What a request makes of the countdown of a key. -/
def countdown (key : Fin keyCount) (left : Nat) : KeypadRequest → Nat
  | .press struck => if struck = key then holdCycles else left
  | .release struck => if struck = key then 0 else left
  | .tick => left - 1

/-- The request strikes the key or is a tick. -/
def Concerns (request : KeypadRequest) (key : Fin keyCount) : Prop :=
  request.Strikes key ∨ request = .tick

instance (request : KeypadRequest) (key : Fin keyCount) : Decidable (request.Concerns key) :=
  inferInstanceAs (Decidable (_ ∨ _))

theorem countdown_of_elsewhere {request : KeypadRequest} {key : Fin keyCount}
    (elsewhere : ¬ request.Concerns key) (left : Nat) : request.countdown key left = left := by
  cases request with
  | press struck => exact if_neg fun same => elsewhere (.inl (.inl (congrArg press same)))
  | release struck => exact if_neg fun same => elsewhere (.inl (.inr (congrArg release same)))
  | tick => exact absurd (.inr rfl) elsewhere

theorem countdown_filter (key : Fin keyCount) (left : Nat) (history : List KeypadRequest) :
    (history.filter (·.Concerns key)).foldl (countdown key) left =
      history.foldl (countdown key) left := by
  rw [List.foldl_filter]
  congr 1
  funext now request
  by_cases concerns : request.Concerns key
  · simp [concerns]
  · simp [concerns, countdown_of_elsewhere concerns]

/-- Only ticks change the countdown of a key that is not struck. -/
theorem countdown_of_unstruck {since : List KeypadRequest} {key : Fin keyCount}
    (unstruck : ∀ request ∈ since, ¬ request.Strikes key) (left : Nat) :
    since.foldl (countdown key) left = left - since.count .tick := by
  induction since generalizing left with
  | nil => rfl
  | cons request rest ih =>
    obtain ⟨now, later⟩ := List.forall_mem_cons.mp unstruck
    rw [List.foldl_cons, ih later]
    by_cases ticks : request = .tick
    · subst ticks
      rw [countdown, List.count_cons_self, Nat.sub_sub, Nat.add_comm]
    · have elsewhere : ¬ request.Concerns key := not_or.mpr ⟨now, ticks⟩
      rw [countdown_of_elsewhere elsewhere, List.count_cons_of_ne ticks]

end KeypadRequest

namespace Keypad
open KeypadRequest (countdown)

def afterRequest (pad : Keypad) : KeypadRequest → Keypad
  | .press key => pad.press key
  | .release key => pad.release key
  | .tick => pad.age

def afterRequests (pad : Keypad) (history : List KeypadRequest) : Keypad :=
  history.foldl afterRequest pad

/-- The keys that the ticks of a history report as down, in order. -/
def reported (pad : Keypad) : List KeypadRequest → List Keys
  | [] => []
  | .tick :: rest => pad.down :: pad.age.reported rest
  | request :: rest => (pad.afterRequest request).reported rest

/-- The latest strike of a key is a press, and fewer than a hundred ticks lie behind it. -/
def HeldAfter (history : List KeypadRequest) (key : Fin keyCount) : Prop :=
  ∃ before since, history = before ++ .press key :: since ∧
    (∀ request ∈ since, ¬ request.Strikes key) ∧ since.count .tick < 100

theorem get_afterRequest (pad : Keypad) (request : KeypadRequest) (key : Fin keyCount) :
    (pad.afterRequest request).remaining.get key =
      request.countdown key (pad.remaining.get key) := by
  cases request with
  | press struck => exact pad.get_set struck key holdCycles
  | release struck => exact pad.get_set struck key 0
  | tick => exact pad.get_age key

theorem get_afterRequests (pad : Keypad) (history : List KeypadRequest) (key : Fin keyCount) :
    (pad.afterRequests history).remaining.get key =
      history.foldl (countdown key) (pad.remaining.get key) := by
  induction history generalizing pad with
  | nil => rfl
  | cons request rest ih =>
    rw [List.foldl_cons, ← get_afterRequest]
    exact ih (pad.afterRequest request)

/-- The report of a tick is that of the keypad as the requests before it leave it. -/
theorem reported_append (pad : Keypad) (before after : List KeypadRequest) :
    pad.reported (before ++ after) =
      pad.reported before ++ (pad.afterRequests before).reported after := by
  induction before generalizing pad with
  | nil => rfl
  | cons request rest ih =>
    cases request with
    | tick => exact congrArg (pad.down :: ·) (ih pad.age)
    | press key => exact ih (pad.press key)
    | release key => exact ih (pad.release key)

theorem length_reported (pad : Keypad) (history : List KeypadRequest) :
    (pad.reported history).length = history.count .tick := by
  induction history generalizing pad with
  | nil => rfl
  | cons request rest ih =>
    cases request with
    | tick => rw [reported, List.length_cons, ih, List.count_cons_self]
    | press key => exact (ih (pad.press key)).trans (List.count_cons_of_ne (by simp)).symm
    | release key => exact (ih (pad.release key)).trans (List.count_cons_of_ne (by simp)).symm

/-! ### The latest strike -/

theorem left_of_released {before since : List KeypadRequest} {key : Fin keyCount}
    (unstruck : ∀ request ∈ since, ¬ request.Strikes key) (pad : Keypad) :
    (pad.afterRequests (before ++ .release key :: since)).remaining.get key = 0 := by
  rw [get_afterRequests, List.foldl_append, List.foldl_cons, KeypadRequest.countdown_of_unstruck unstruck,
    countdown, if_pos rfl, Nat.zero_sub]

theorem left_of_pressed {before since : List KeypadRequest} {key : Fin keyCount}
    (unstruck : ∀ request ∈ since, ¬ request.Strikes key) (pad : Keypad) :
    (pad.afterRequests (before ++ .press key :: since)).remaining.get key =
      100 - since.count .tick := by
  rw [get_afterRequests, List.foldl_append, List.foldl_cons, KeypadRequest.countdown_of_unstruck unstruck,
    countdown, if_pos rfl]
  rfl

theorem get_down_of_pressed {before since : List KeypadRequest} {key : Fin keyCount}
    (unstruck : ∀ request ∈ since, ¬ request.Strikes key) (pad : Keypad) :
    (pad.afterRequests (before ++ .press key :: since)).down.get key = true ↔
      since.count .tick < 100 := by
  rw [get_down, left_of_pressed unstruck, decide_eq_true_iff]
  exact Nat.sub_pos_iff_lt

theorem get_down_iff (history : List KeypadRequest) (key : Fin keyCount) :
    (released.afterRequests history).down.get key = true ↔ HeldAfter history key := by
  constructor
  · intro down
    rcases none_or_latest (fun request => KeypadRequest.Strikes request key) history with
      never | ⟨before, latest, since, rfl, strikes, unstruck⟩
    · have start : released.remaining.get key = 0 := Vector.getElem_replicate key.isLt
      rw [get_down, get_afterRequests, KeypadRequest.countdown_of_unstruck never, start,
        Nat.zero_sub] at down
      cases down
    · rcases strikes with rfl | rfl
      · exact ⟨before, since, rfl, unstruck, (get_down_of_pressed unstruck released).mp down⟩
      · rw [get_down, left_of_released unstruck] at down
        cases down
  · rintro ⟨before, since, rfl, unstruck, few⟩
    exact (get_down_of_pressed unstruck released).mpr few

/-- Whatever is pressed and released on a new keypad, a tick reports a key as down exactly if the latest
    strike of the key was a press and fewer than a hundred ticks lie between. A press counts in full,
    whatever was left of an earlier one, and nothing that is done to the other keys plays a part. -/
theorem held_for_hundred_ticks (before after : List KeypadRequest) (key : Fin keyCount) :
    ∃ down : Keys,
      (released.reported (before ++ .tick :: after))[before.count .tick]? = some down ∧
      (down.get key = true ↔ HeldAfter before key) ∧
      (∀ earlier since, before = earlier ++ .press key :: since →
        (∀ request ∈ since, ¬ request.Strikes key) →
        (down.get key = true ↔ since.count .tick < 100)) ∧
      ∀ others : List KeypadRequest,
        others.filter (·.Concerns key) = before.filter (·.Concerns key) →
        (down.get key = true ↔ HeldAfter others key) := by
  have report : (released.reported (before ++ .tick :: after))[before.count .tick]? =
      some (released.afterRequests before).down := by
    have earlier := released.length_reported before
    rw [reported_append, List.getElem?_append_right (Nat.le_of_eq earlier), earlier, Nat.sub_self]
    rfl
  refine ⟨_, report, get_down_iff before key, ?_, ?_⟩
  · rintro earlier since rfl unstruck
    exact get_down_of_pressed unstruck released
  · intro others same
    have left : (released.afterRequests before).remaining.get key =
        (released.afterRequests others).remaining.get key := by
      rw [get_afterRequests, get_afterRequests, ← KeypadRequest.countdown_filter, ← same,
        KeypadRequest.countdown_filter]
    rw [← get_down_iff, get_down, get_down, left]

end Keypad

end Chip8
