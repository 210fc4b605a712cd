/-!
The stack of calls in progress: a fixed number of frames, of which the lowest `depth` are in use.
`live` is its view as a list, the innermost call first; frames above the depth keep what they held
and never show. `live_push?` and `live_pop?` say what the operations do to that view.
-/
namespace Chip8

abbrev callLimit : Nat := 16

structure CallStack where
  frames : Vector UInt16 callLimit
  depth : Nat
  depth_le : depth ≤ callLimit
  deriving DecidableEq

namespace CallStack

def empty : CallStack := ⟨Vector.replicate callLimit 0, 0, Nat.zero_le _⟩

def isEmpty (s : CallStack) : Bool := s.depth == 0

def isFull (s : CallStack) : Bool := s.depth == callLimit

/-- The frames in use, the innermost one first. -/
def live (s : CallStack) : List UInt16 := (s.frames.toList.take s.depth).reverse

def push? (s : CallStack) (address : UInt16) : Option CallStack :=
  if room : s.depth < callLimit then
    some ⟨s.frames.set s.depth address, s.depth + 1, room⟩
  else none

def pop? : CallStack → Option (UInt16 × CallStack)
  | ⟨_, 0, _⟩ => none
  | ⟨frames, depth + 1, depth_le⟩ =>
    some (frames.get ⟨depth, depth_le⟩, ⟨frames, depth, Nat.le_of_succ_le depth_le⟩)

@[simp] theorem length_live (s : CallStack) : s.live.length = s.depth := by
  have := s.depth_le
  simp only [live, List.length_reverse, List.length_take, Vector.length_toList]
  omega

@[simp] theorem live_empty : empty.live = [] := rfl

/-- A push puts the address in front, and is refused exactly by a full stack. -/
theorem live_push? (s : CallStack) (address : UInt16) :
    (s.push? address).map live =
      if s.live.length < callLimit then some (address :: s.live) else none := by
  rw [length_live, push?]
  split
  · next room =>
    simp [live, List.take_add_one, List.take_set_of_le, Vector.toList_set, room]
  · rfl

/-- A pop takes the first address, and is refused exactly by an empty stack. -/
theorem live_pop? (s : CallStack) :
    (s.pop?).map (fun popped => (popped.1, popped.2.live)) =
      s.live.head?.map (·, s.live.tail) := by
  match s with
  | ⟨_, 0, _⟩ => rfl
  | ⟨frames, depth + 1, depth_le⟩ =>
    have room : depth < callLimit := depth_le
    simp [pop?, live, List.take_add_one, room, Vector.get]

end CallStack

end Chip8
