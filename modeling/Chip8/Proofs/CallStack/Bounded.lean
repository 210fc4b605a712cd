import Chip8.Proofs.CallStack

/-!
The call stack as a bounded list. Requests to a stack are answered, and its size is reported, as with a
plain list of at most sixteen entries, of which the first is the innermost frame (`Entries.handle_live`).
Frames above the depth keep what they held, but they are not part of the list and so have no influence on
any later report (`answers_as_bounded_list`).
-/
namespace Chip8

inductive StackRequest where
  | push (address : UInt16)
  | pop
  deriving DecidableEq

inductive StackAnswer where
  | pushed (done : Bool)
  | popped (address : Option UInt16)
  deriving DecidableEq

/-- What is seen of a request: its answer, and the size of the stack after it. -/
structure StackReport where
  answer : StackAnswer
  depth : Nat
  isEmpty : Bool
  isFull : Bool
  deriving DecidableEq

namespace StackRequest
variable {σ τ : Type}

/-- The reports on requests in a row, for some way to keep a stack. -/
def reports (handle : σ → StackRequest → StackReport × σ) (s : σ) :
    List StackRequest → List StackReport
  | [] => []
  | request :: rest => (handle s request).1 :: reports handle (handle s request).2 rest

def afterAll (handle : σ → StackRequest → StackReport × σ) (s : σ)
    (history : List StackRequest) : σ :=
  history.foldl (fun now request => (handle now request).2) s

/-- A view that every request respects is respected by all of a history. -/
theorem reports_of_view {handle : σ → StackRequest → StackReport × σ}
    {handleView : τ → StackRequest → StackReport × τ} {view : σ → τ}
    (respected : ∀ s request, handleView (view s) request =
      ((handle s request).1, view (handle s request).2)) (s : σ) (history : List StackRequest) :
    reports handleView (view s) history = reports handle s history ∧
      afterAll handleView (view s) history = view (afterAll handle s history) := by
  induction history generalizing s with
  | nil => exact ⟨rfl, rfl⟩
  | cons request rest ih =>
    obtain ⟨same, left⟩ := ih (handle s request).2
    constructor
    · rw [reports, reports, respected, same]
    · simp only [afterAll, List.foldl_cons, respected] at left ⊢
      exact left

end StackRequest

namespace CallStack

def reporting (s : CallStack) (answer : StackAnswer) : StackReport × CallStack :=
  (⟨answer, s.depth, s.isEmpty, s.isFull⟩, s)

/-- What comes of a request. One that is refused leaves the stack as it is. -/
def handle (s : CallStack) : StackRequest → StackReport × CallStack
  | .push address =>
    match s.push? address with
    | some pushed => pushed.reporting (.pushed true)
    | none => s.reporting (.pushed false)
  | .pop =>
    match s.pop? with
    | some (address, popped) => popped.reporting (.popped (some address))
    | none => s.reporting (.popped none)

end CallStack

/-! ### The list -/

namespace Entries

def reporting (entries : List UInt16) (answer : StackAnswer) : StackReport × List UInt16 :=
  (⟨answer, entries.length, entries.isEmpty, entries.length == 16⟩, entries)

/-- What comes of a request to a list of at most sixteen entries. A push puts its address in front if there
    is room, and a pop takes the first entry if there is one. -/
def handle (entries : List UInt16) : StackRequest → StackReport × List UInt16
  | .push address =>
    if entries.length < 16 then reporting (address :: entries) (.pushed true)
    else reporting entries (.pushed false)
  | .pop => reporting entries.tail (.popped entries.head?)

theorem reporting_live (s : CallStack) (answer : StackAnswer) :
    reporting s.live answer = ((s.reporting answer).1, (s.reporting answer).2.live) := by
  have none : s.live.isEmpty = s.isEmpty := by
    rw [Bool.eq_iff_iff, List.isEmpty_iff, ← List.length_eq_zero_iff, s.length_live]
    simp [CallStack.isEmpty]
  simp only [reporting, CallStack.reporting, none, s.length_live]
  rfl

theorem handle_live (s : CallStack) (request : StackRequest) :
    handle s.live request = ((s.handle request).1, (s.handle request).2.live) := by
  cases request with
  | push address =>
    simp only [handle, CallStack.handle]
    cases pushed : s.push? address with
    | none =>
      have full : s.live.length = 16 := CallStack.push?_eq_none_iff.mp pushed
      rw [if_neg (by omega)]
      exact reporting_live s _
    | some next =>
      have room : s.live.length < 16 := by
        have view := s.live_push? address
        rw [pushed, Option.map_some] at view
        split at view
        · next room => exact room
        · cases view
      rw [if_pos room, ← CallStack.live_of_push? pushed]
      exact reporting_live next _
  | pop =>
    simp only [handle, CallStack.handle]
    cases popped : s.pop? with
    | none =>
      rw [CallStack.pop?_eq_none_iff.mp popped]
      have none := reporting_live s (.popped none)
      rwa [CallStack.pop?_eq_none_iff.mp popped] at none
    | some taken =>
      obtain ⟨address, next⟩ := taken
      rw [CallStack.live_of_pop? popped]
      exact reporting_live next _

end Entries

namespace CallStack
open StackRequest (reports afterAll)

/-- Whatever is pushed to and popped from an empty stack, all that is seen of it is what a plain list of at
    most sixteen entries would show: a push is refused exactly if there are sixteen, and then leaves the
    stack as it is; a pop answers the latest entry that was not popped yet, if there is one. Stacks with the
    same frames in use cannot be told apart by anything that is done to them later, whatever their other
    frames hold. -/
theorem answers_as_bounded_list (history : List StackRequest) :
    let s := afterAll handle empty history
    reports handle empty history = reports Entries.handle [] history ∧
    s.live = afterAll Entries.handle [] history ∧ s.live.length ≤ 16 ∧
    (∀ address, s.live.length = 16 → s.handle (.push address) = s.reporting (.pushed false)) ∧
    ∀ other : CallStack, other.live = s.live →
      ∀ later, reports handle other later = reports handle s later := by
  intro s
  have viewed := StackRequest.reports_of_view Entries.handle_live
  obtain ⟨same, left⟩ := viewed empty history
  rw [live_empty] at same left
  refine ⟨same.symm, left.symm, ?_, ?_, ?_⟩
  · rw [length_live]
    exact s.depth_le
  · intro address full
    simp only [handle, push?_eq_none_iff.mpr full]
  · intro other same later
    rw [← (viewed other later).1, ← (viewed s later).1, same]

end CallStack

end Chip8
