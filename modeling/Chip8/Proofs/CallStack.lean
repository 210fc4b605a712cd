import Chip8.CallStack

/-!
The call stack through its view: what is put on it, what is taken off it, and when either is
refused.
-/
namespace Chip8.CallStack

theorem live_of_push? {s pushed : CallStack} {address : UInt16}
    (done : s.push? address = some pushed) : pushed.live = address :: s.live := by
  have view := live_push? s address
  rw [done, Option.map_some] at view
  split at view
  · exact Option.some.inj view
  · cases view

theorem push?_eq_none_iff {s : CallStack} {address : UInt16} :
    s.push? address = none ↔ s.live.length = callLimit := by
  rw [length_live]
  have bound := s.depth_le
  unfold push?
  split
  · simp
    omega
  · simp
    omega

theorem live_of_pop? {s popped : CallStack} {address : UInt16}
    (done : s.pop? = some (address, popped)) : s.live = address :: popped.live := by
  have view := live_pop? s
  rw [done, Option.map_some] at view
  cases contents : s.live with
  | nil => simp [contents] at view
  | cons first rest =>
    simp only [contents, List.head?_cons, List.tail_cons, Option.map_some, Option.some.injEq,
      Prod.mk.injEq] at view
    rw [← view.1, view.2]

theorem pop?_eq_none_iff {s : CallStack} : s.pop? = none ↔ s.live = [] := by
  have view := live_pop? s
  constructor
  · intro refused
    rw [refused] at view
    cases contents : s.live with
    | nil => rfl
    | cons first rest => simp [contents] at view
  · intro empty
    rw [empty] at view
    simpa using view

end Chip8.CallStack
