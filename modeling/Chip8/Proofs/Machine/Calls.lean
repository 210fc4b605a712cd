import Chip8.Proofs.Machine.Bounds
import Chip8.Proofs.Machine.Failure

/-!
Calls and returns as brackets. A history is read as a sequence of events, of which only the calls
and returns that were executed count, and the calls that are open after it are those that no return
has matched. The call stack holds exactly these (`live_performAll`), so a return goes back behind
the call it matches, whatever happened in between (`pc_of_matching`), and every return that is executed
matches one (`exists_matching`).
-/
namespace Chip8

/-- What a command does to the calls in progress. -/
inductive CallEvent where
  | call (pc : UInt16)
  | ret
  | other
  deriving DecidableEq

namespace CallEvent

/-- What an instruction at an address does to the calls in progress. -/
def ofInstruction (pc : UInt16) : Instruction → CallEvent
  | .call _ => call pc
  | .ret => ret
  | _ => other

/-- The open calls after an event, the innermost one first. -/
def apply (opened : List UInt16) : CallEvent → List UInt16
  | call pc => pc :: opened
  | ret => opened.tail
  | other => opened

/-- The calls that no return matches, the innermost one first. -/
def openCalls (opened : List UInt16) (events : List CallEvent) : List UInt16 :=
  events.foldl apply opened

/-- Every call is followed by its return, and every return follows its call. -/
inductive Balanced : List CallEvent → Prop where
  | nil : Balanced []
  | other {events : List CallEvent} (rest : Balanced events) : Balanced (.other :: events)
  | pair (pc : UInt16) {inner events : List CallEvent} (inside : Balanced inner)
      (rest : Balanced events) : Balanced (.call pc :: (inner ++ .ret :: events))

theorem openCalls_append (opened : List UInt16) (earlier later : List CallEvent) :
    openCalls opened (earlier ++ later) = openCalls (openCalls opened earlier) later :=
  List.foldl_append

theorem Balanced.append {earlier later : List CallEvent} (first : Balanced earlier)
    (second : Balanced later) : Balanced (earlier ++ later) := by
  induction first with
  | nil => exact second
  | other rest ih => exact .other ih
  | pair pc inside rest _ ih =>
    rw [List.cons_append, List.append_assoc, List.cons_append]
    exact .pair pc inside ih

/-- Balanced events leave the open calls as they were. -/
theorem openCalls_of_balanced {events : List CallEvent} (balanced : Balanced events)
    (opened : List UInt16) : openCalls opened events = opened := by
  induction balanced generalizing opened with
  | nil => rfl
  | other rest ih => exact ih opened
  | pair pc inside rest ihInside ihRest =>
    calc openCalls opened (.call pc :: (_ ++ .ret :: _))
        = openCalls (openCalls (pc :: opened) _) (.ret :: _) := openCalls_append ..
      _ = openCalls (pc :: opened) (.ret :: _) := by rw [ihInside]
      _ = openCalls opened _ := rfl
      _ = opened := ihRest opened

/-- An open call was made by a call event, and what came after it is balanced. -/
theorem exists_call_of_openCalls {events : List CallEvent} {pc : UInt16} {outer : List UInt16}
    (opened : openCalls [] events = pc :: outer) :
    ∃ earlier later, events = earlier ++ .call pc :: later ∧ Balanced later ∧
      openCalls [] earlier = outer := by
  induction length : events.length using Nat.strongRecOn generalizing events pc outer with
  | ind n ih =>
    rcases List.eq_nil_or_concat events with rfl | ⟨front, event, rfl⟩
    · cases opened
    · rw [List.concat_eq_append] at opened length ⊢
      rw [List.length_append, List.length_singleton] at length
      have shorter : front.length < n := by omega
      rw [openCalls_append] at opened
      cases event with
      | call other =>
        obtain ⟨rfl, rfl⟩ := List.cons.inj opened
        exact ⟨front, [], rfl, .nil, rfl⟩
      | other =>
        obtain ⟨earlier, later, rfl, balanced, outside⟩ := ih _ shorter opened rfl
        exact ⟨earlier, later ++ [.other], by simp, balanced.append (.other .nil), outside⟩
      | ret =>
        -- The return matches a call inside; the call in question is open before that one.
        have closed : (openCalls [] front).tail = pc :: outer := opened
        obtain ⟨inner, before⟩ : ∃ inner, openCalls [] front = inner :: pc :: outer := by
          cases calls : openCalls [] front with
          | nil => simp [calls] at closed
          | cons inner rest =>
            rw [calls] at closed
            exact ⟨inner, congrArg (inner :: ·) closed⟩
        obtain ⟨upTo, inside, rfl, insideBalanced, still⟩ := ih _ shorter before rfl
        have shorterStill : upTo.length < n := by
          rw [List.length_append, List.length_cons] at shorter
          omega
        obtain ⟨earlier, later, rfl, balanced, outside⟩ := ih _ shorterStill still rfl
        refine ⟨earlier, later ++ .call inner :: (inside ++ [.ret]), by simp, ?_, outside⟩
        exact balanced.append (.pair inner insideBalanced .nil)

end CallEvent

namespace Machine
open CallEvent (openCalls Balanced)

/-- What the next step does to the calls in progress. -/
def stepEvent (m : Machine) : CallEvent :=
  match m.executed? with
  | some instruction => .ofInstruction m.pc instruction
  | none => .other

/-- What a command does to the calls in progress. -/
def callEvent (m : Machine) (command : Command) : CallEvent :=
  if command = .step then m.stepEvent else .other

/-- The events of a history, in order. -/
def callEvents (m : Machine) : List Command → List CallEvent
  | [] => []
  | command :: rest => m.callEvent command :: (m.perform command).machine.callEvents rest

/-! ### One step -/

theorem stepEvent_of_executed {m : Machine} {instruction : Instruction}
    (executed : m.executed? = some instruction) :
    m.stepEvent = .ofInstruction m.pc instruction := by
  rw [stepEvent, executed]

theorem stepEvent_of_quiet {m : Machine} (quiet : m.executed? = none) : m.stepEvent = .other := by
  rw [stepEvent, quiet]

theorem live_of_flow {m : Machine} {instruction : Instruction} {effect : Effect}
    (executed : m.executed? = some instruction) (flow : Flow m instruction effect) :
    effect.machine.stack.live = m.stepEvent.apply m.stack.live := by
  rw [stepEvent_of_executed executed]
  cases flow with
  | jump | jumpDisplaced | awaitKey => rfl
  | call nnn room => exact CallStack.live_of_push? room
  | ret inside =>
    rw [CallStack.live_of_pop? inside]
    rfl
  | skip isSkip condition =>
    cases instruction
    case call | ret => cases isSkip
    all_goals rfl
  | plain isPlain advance stack status =>
    rw [stack]
    cases instruction
    case call | ret => cases isPlain
    all_goals rfl

theorem live_step (m : Machine) : m.step.machine.stack.live = m.stepEvent.apply m.stack.live := by
  have ways := m.stepped
  generalize stepped : m.step = transition at ways
  cases ways with
  | executed running fetched done =>
    have executed := executed?_eq_some_iff.mpr ⟨running, _, _, fetched, done, stepped⟩
    exact live_of_flow executed (flow_of_execute done)
  | refused running fetched fault | unfetched running fault =>
    rw [stepEvent_of_quiet (executed?_eq_none (.inr ⟨_, congrArg Transition.result stepped⟩))]
    rfl
  | taken idle | waited idle | stayed idle =>
    rw [stepEvent_of_quiet (executed?_eq_none (.inl (by rw [idle]; exact Status.noConfusion)))]
    rfl

/-- A command does to the call stack what its event says. -/
theorem live_perform (m : Machine) (command : Command) :
    (m.perform command).machine.stack.live = (m.callEvent command).apply m.stack.live := by
  by_cases step : command = .step
  · subst step
    exact m.live_step
  · obtain ⟨memory, keys, redraw, same⟩ := m.perform_of_ne_step step
    rw [same, callEvent, if_neg step]
    rfl

/-- The call stack holds the open calls. -/
theorem live_performAll (m : Machine) (history : List Command) :
    (m.performAll history).stack.live = openCalls m.stack.live (m.callEvents history) := by
  induction history generalizing m with
  | nil => rfl
  | cons command rest ih =>
    rw [performAll_cons, ih, live_perform]
    rfl

/-! ### Calls and returns -/

theorem step_of_call {m : Machine} {nnn : UInt16} (called : m.executed? = some (.call nnn)) :
    m.step.machine.pc = nnn ∧ m.step.machine.stack.live = m.pc :: m.stack.live ∧
      m.step.machine.memory = m.memory ∧ m.step.machine.status = .running := by
  obtain ⟨running, _, effect, _, done, stepped⟩ := executed?_eq_some_iff.mp called
  have flow := flow_of_execute done
  rw [stepped]
  cases flow with
  | call _ room => exact ⟨rfl, CallStack.live_of_push? room, rfl, running⟩
  | skip isSkip => cases isSkip
  | plain isPlain => cases isPlain

theorem step_of_ret {m : Machine} (returned : m.executed? = some .ret) :
    ∃ caller outer, m.stack.live = caller :: outer ∧ m.step.machine.pc = caller + 2 ∧
      m.step.machine.stack.live = outer := by
  obtain ⟨_, _, effect, _, done, stepped⟩ := executed?_eq_some_iff.mp returned
  have flow := flow_of_execute done
  rw [stepped]
  cases flow with
  | ret inside => exact ⟨_, _, CallStack.live_of_pop? inside, rfl, rfl⟩
  | skip isSkip => cases isSkip
  | plain isPlain => cases isPlain

/-- A return inside of a call is executed. -/
theorem executed?_of_fetched_ret {m : Machine} {word : UInt16} (running : m.status = .running)
    (fetched : m.fetch = .ok (word, .ret)) (inside : m.stack.live ≠ []) :
    m.executed? = some .ret := by
  cases popped : m.stack.pop? with
  | none => exact absurd (CallStack.pop?_eq_none_iff.mp popped) inside
  | some top =>
    have done : m.execute .ret =
        .ok { machine := { m with stack := top.2 }, advance := .goto (top.1 + 2) } := by
      simp only [execute, popped]
    exact executed?_of_execute running fetched done

/-- The call made by the step after `before` and the return made by the step after `between`
    belong together. -/
structure Matching (m : Machine) (before between : List Command) : Prop where
  called : ∃ nnn, (m.performAll before).executed? = some (.call nnn)
  balanced : Balanced ((m.performAll (before ++ [.step])).callEvents between)
  returned : (m.performAll (before ++ .step :: between)).executed? = some .ret

theorem pc_of_matching {m : Machine} {before between : List Command}
    (matching : Matching m before between) :
    (m.performAll (before ++ .step :: between)).step.machine.pc.toNat =
      (m.performAll before).pc.toNat + 2 := by
  obtain ⟨⟨nnn, called⟩, balanced, returned⟩ := matching
  have live : (m.performAll (before ++ [.step])).stack.live =
      (m.performAll before).pc :: (m.performAll before).stack.live := by
    rw [performAll_step]
    exact (step_of_call called).2.1
  obtain ⟨caller, outer, contents, back, _⟩ := step_of_ret returned
  have split : before ++ .step :: between = (before ++ [.step]) ++ between := by simp
  rw [split, performAll_append, live_performAll, CallEvent.openCalls_of_balanced balanced, live]
    at contents
  obtain ⟨rfl, rfl⟩ := List.cons.inj contents
  obtain ⟨_, _, _, fetched, _⟩ := executed?_eq_some_iff.mp called
  rw [back]
  exact toNat_add_small (pc_of_fetch fetched) (by decide)

theorem called_of_callEvent {m : Machine} {command : Command} {pc : UInt16}
    (event : m.callEvent command = .call pc) :
    command = .step ∧ ∃ nnn, m.executed? = some (.call nnn) := by
  unfold callEvent at event
  split at event
  · next step =>
    cases executed : m.executed? with
    | none =>
      rw [stepEvent_of_quiet executed] at event
      cases event
    | some instruction =>
      rw [stepEvent_of_executed executed] at event
      cases instruction
      case call nnn => exact ⟨step, nnn, rfl⟩
      all_goals cases event
  · cases event

theorem history_of_callEvents {m : Machine} {history : List Command}
    {earlier later : List CallEvent} {pc : UInt16}
    (events : m.callEvents history = earlier ++ .call pc :: later) :
    ∃ before between, history = before ++ .step :: between ∧
      (∃ nnn, (m.performAll before).executed? = some (.call nnn)) ∧
      (m.performAll (before ++ [.step])).callEvents between = later := by
  induction earlier generalizing m history with
  | nil =>
    cases history with
    | nil => cases events
    | cons command between =>
      obtain ⟨event, rest⟩ := List.cons.inj events
      obtain ⟨rfl, called⟩ := called_of_callEvent event
      exact ⟨[], between, rfl, called, rest⟩
  | cons first earlier ih =>
    cases history with
    | nil => cases events
    | cons command rest =>
      obtain ⟨before, between, rfl, called, inside⟩ := ih (List.cons.inj events).2
      exact ⟨command :: before, between, rfl, called, inside⟩

/-- Every return that is executed belongs to a call. -/
theorem exists_matching {random : RandomSource} {history : List Command}
    (returned : ((initial random).performAll history).executed? = some .ret) :
    ∃ before between, history = before ++ .step :: between ∧
      Matching (initial random) before between := by
  obtain ⟨caller, outer, contents, _, _⟩ := step_of_ret returned
  rw [live_performAll] at contents
  obtain ⟨earlier, later, events, balanced, _⟩ := CallEvent.exists_call_of_openCalls contents
  obtain ⟨before, between, rfl, called, rfl⟩ := history_of_callEvents events
  exact ⟨before, between, rfl, called, balanced, returned⟩

/-! ### Overflow and underflow -/

/-- A step that fails for the calls in progress has fetched the call or the return. -/
theorem refusal_of_callFault {m : Machine} {cause : Fault} (failed : m.step.result = .error cause)
    (calls : ∃ pc, cause = .stackOverflow pc ∨ cause = .stackUnderflow pc) :
    m.status = .running ∧ ∃ word instruction, m.fetch = .ok (word, instruction) ∧
      Refusal m instruction cause := by
  rcases step_eq_error_iff.mp failed with ⟨_, rfl⟩ | ⟨running, unfetched | refused⟩
  · obtain ⟨pc, impossible | impossible⟩ := calls <;> cases impossible
  · rcases fetch_eq_error_iff.mp unfetched with refused | ⟨word, _, _, rfl⟩
    · obtain ⟨address, rfl⟩ := Memory.outOfBounds_of_check (Memory.word_eq_error_iff.mp refused)
      obtain ⟨pc, impossible | impossible⟩ := calls <;> cases impossible
    · obtain ⟨pc, impossible | impossible⟩ := calls <;> cases impossible
  · exact ⟨running, refused⟩

theorem step_overflow_iff {m : Machine} {pc : UInt16} :
    m.step.result = .error (.stackOverflow pc) ↔
      pc = m.pc ∧ m.status = .running ∧ (∃ word nnn, m.fetch = .ok (word, .call nnn)) ∧
        m.stack.depth = callLimit := by
  constructor
  · intro failed
    obtain ⟨running, word, instruction, fetched, refusal⟩ :=
      refusal_of_callFault failed ⟨pc, .inl rfl⟩
    cases refusal with
    | overflow nnn full => exact ⟨rfl, running, ⟨word, nnn, fetched⟩, full⟩
    | block uses refused =>
      obtain ⟨address, impossible⟩ := Memory.outOfBounds_of_check refused
      cases impossible
  · rintro ⟨rfl, running, ⟨word, nnn, fetched⟩, full⟩
    exact step_eq_error_iff.mpr (.inr ⟨running, .inr ⟨word, _, fetched, .overflow nnn full⟩⟩)

theorem step_underflow_iff {m : Machine} {pc : UInt16} :
    m.step.result = .error (.stackUnderflow pc) ↔
      pc = m.pc ∧ m.status = .running ∧ (∃ word, m.fetch = .ok (word, .ret)) ∧
        m.stack.depth = 0 := by
  constructor
  · intro failed
    obtain ⟨running, word, instruction, fetched, refusal⟩ :=
      refusal_of_callFault failed ⟨pc, .inr rfl⟩
    cases refusal with
    | underflow outside => exact ⟨rfl, running, ⟨word, fetched⟩, outside⟩
    | block uses refused =>
      obtain ⟨address, impossible⟩ := Memory.outOfBounds_of_check refused
      cases impossible
  · rintro ⟨rfl, running, ⟨word, fetched⟩, outside⟩
    exact step_eq_error_iff.mpr (.inr ⟨running, .inr ⟨word, _, fetched, .underflow outside⟩⟩)

/-! ### Whole runs -/

/-- Calls and returns of a fresh machine match like brackets, whatever the host does to it: the stack
    is the open calls, a return inside of a call is executed and goes back behind the innermost one,
    every return that is executed belongs to a call and goes back behind it, and only a call with all
    frames in use overflows and only a return outside of any call underflows. -/
theorem calls_match_returns (random : RandomSource) (history : List Command) :
    let m := (initial random).performAll history
    let opened := openCalls [] ((initial random).callEvents history)
    (m.stack.depth = opened.length ∧ opened.length ≤ callLimit ∧ m.stack.live = opened) ∧
    (∀ word caller outer, m.status = .running → m.fetch = .ok (word, .ret) →
      opened = caller :: outer →
      m.executed? = some .ret ∧ m.step.machine.pc.toNat = caller.toNat + 2 ∧
        openCalls [] ((initial random).callEvents (history ++ [.step])) = outer) ∧
    (m.executed? = some .ret → ∃ before between, history = before ++ .step :: between ∧
      Matching (initial random) before between) ∧
    (∀ before between, history = before ++ .step :: between →
      Matching (initial random) before between →
      m.step.machine.pc.toNat = ((initial random).performAll before).pc.toNat + 2) ∧
    (∀ pc, m.step.result = .error (.stackOverflow pc) ↔
      pc = m.pc ∧ m.status = .running ∧ (∃ word nnn, m.fetch = .ok (word, .call nnn)) ∧
        opened.length = callLimit) ∧
    (∀ pc, m.step.result = .error (.stackUnderflow pc) ↔
      pc = m.pc ∧ m.status = .running ∧ (∃ word, m.fetch = .ok (word, .ret)) ∧
        opened.length = 0) := by
  intro m opened
  have live : m.stack.live = opened := live_performAll (initial random) history
  have depth : m.stack.depth = opened.length := by rw [← live, CallStack.length_live]
  have bounded : m.Bounded := bounded_performAll random history
  refine ⟨⟨depth, depth ▸ m.stack.depth_le, live⟩, ?_, exists_matching, ?_, ?_, ?_⟩
  · intro word caller outer running fetched inside
    have notEmpty : m.stack.live ≠ [] := by
      rw [live, inside]
      exact List.cons_ne_nil _ _
    have returned := executed?_of_fetched_ret running fetched notEmpty
    obtain ⟨top, rest, contents, back, left⟩ := step_of_ret returned
    obtain ⟨rfl, rfl⟩ := List.cons.inj (contents.symm.trans (live.trans inside))
    have called : top.toNat ≤ 4094 := bounded.frames_le top (contents ▸ List.mem_cons_self)
    refine ⟨returned, ?_, ?_⟩
    · rw [back]
      exact toNat_add_small called (by decide)
    · have after := live_performAll (initial random) (history ++ [.step])
      rw [performAll_step] at after
      exact after.symm.trans left
  · intro before between whole matching
    subst whole
    exact pc_of_matching matching
  · intro pc
    rw [step_overflow_iff, depth]
  · intro pc
    rw [step_underflow_iff, depth]

end Machine

end Chip8
