import Chip8.CommandLine.Completion
import Chip8.Proofs.Machine.Stepping
import Chip8.Proofs.Memory.Writing

/-!
Loading. What a loaded memory is depends on the program and on the bytes in front of it alone
(`Memory.load_congr`), so a program that is loaded leaves nothing of those before it. The size of a
program is looked at twice, when a `Rom` is made of it and when it is loaded; what passes the first time
passes the second time as well.
-/
namespace Chip8

/-! ### Programs that are fit to be loaded -/

theorem Rom.length_pos (rom : Rom) : 1 ≤ rom.code.length :=
  List.length_pos_iff.mpr rom.code_ne_nil

theorem Rom.ofBytes_eq_ok_iff {code : List UInt8} {rom : Rom} :
    Rom.ofBytes code = .ok rom ↔ rom.code = code := by
  unfold Rom.ofBytes
  constructor
  · intro made
    split at made
    · cases made
    · split at made
      · cases made
        rfl
      · cases made
  · rintro rfl
    rw [dif_neg rom.code_ne_nil, dif_pos rom.length_le]

theorem Rom.exists_ofBytes_iff {code : List UInt8} :
    (∃ rom, Rom.ofBytes code = .ok rom) ↔ 1 ≤ code.length ∧ code.length ≤ programLimit := by
  constructor
  · rintro ⟨rom, made⟩
    obtain rfl := Rom.ofBytes_eq_ok_iff.mp made
    exact ⟨rom.length_pos, rom.length_le⟩
  · rintro ⟨some, fits⟩
    exact ⟨⟨code, List.length_pos_iff.mp some, fits⟩, Rom.ofBytes_eq_ok_iff.mpr rfl⟩

/-! ### Memory -/

namespace Memory

theorem eq_of_byte {m n : Memory} (same : ∀ address < memorySize, m.byte address = n.byte address)
    (length : m.programLength = n.programLength) : m = n := by
  have bytes : m.bytes = n.bytes := by
    apply Vector.ext
    intro address inside
    rw [← byte_of_inside m inside, ← byte_of_inside n inside]
    exact same address inside
  cases m
  cases bytes
  cases length
  rfl

/-- A loaded memory depends on the program, and on what lies in front of it. -/
theorem load_congr {m n : Memory} (same : ∀ address < programStart, m.byte address = n.byte address)
    (code : List UInt8) : m.load code = n.load code := by
  by_cases fits : code.length ≤ programLimit
  · have first : m.load code = .ok _ := dif_pos fits
    have second : n.load code = .ok _ := dif_pos fits
    rw [first, second]
    refine congrArg Except.ok (eq_of_byte ?_ rfl)
    intro address _
    rw [byte_of_load first, byte_of_load second]
    by_cases behind : programStart ≤ address
    · rw [if_pos behind, if_pos behind]
    · rw [if_neg behind, if_neg behind]
      exact same address (Nat.not_le.mp behind)
  · have first : m.load code = .error _ := dif_neg fits
    have second : n.load code = .error _ := dif_neg fits
    rw [first, second]

theorem byte_below_load {m loaded : Memory} {code : List UInt8} (done : m.load code = .ok loaded)
    {address : Nat} (below : address < programStart) : loaded.byte address = m.byte address := by
  rw [byte_of_load done, if_neg (Nat.not_le.mpr below)]

/-- The memory that is left to programs holds the loaded one and zeros. -/
theorem area_of_load {m loaded : Memory} {code : List UInt8} (done : m.load code = .ok loaded) :
    (List.range programLimit).map (fun offset => loaded.byte (programStart + offset)) =
      code ++ List.replicate (programLimit - code.length) 0 := by
  have fits := (load_eq_ok_iff.mp done).1
  apply List.ext_getElem
  · simp only [List.length_map, List.length_range, List.length_append, List.length_replicate]
    omega
  · intro offset _ _
    rw [List.getElem_map, List.getElem_range, byte_of_load done, if_pos (Nat.le_add_right ..),
      Nat.add_sub_cancel_left]
    by_cases inside : offset < code.length
    · rw [List.getElem_append_left inside, List.getElem?_eq_getElem inside, Option.getD_some]
    · have past := Nat.not_lt.mp inside
      rw [List.getElem_append_right past, List.getElem?_eq_none past, List.getElem_replicate,
        Option.getD_none]

end Memory

/-! ### Machines -/

namespace Machine

/-- A machine with a program in place of the one before. -/
structure Replaced (m : Machine) (code : List UInt8) (after : Machine) : Prop where
  area : (List.range 3584).map (fun offset => after.memory.byte (0x200 + offset)) =
    code ++ List.replicate (3584 - code.length) 0
  below : ∀ address < 0x200, after.memory.byte address = m.memory.byte address
  length : after.memory.programLength = code.length
  program : after.memory.program = code
  rest : { after with memory := m.memory } = m

theorem replaced_of_load {m : Machine} {loaded : Memory} {code : List UInt8}
    (done : m.memory.load code = .ok loaded) : Replaced m code { m with memory := loaded } where
  area := Memory.area_of_load done
  below _ below := Memory.byte_below_load done below
  length := (Memory.load_eq_ok_iff.mp done).2.2
  program := Memory.program_of_load done
  rest := rfl

/-- A program that fits is loaded, and any other one is refused for its size. -/
theorem performLoad_cases (m : Machine) (code : List UInt8) :
    (code.length ≤ programLimit ∧ (m.performLoad code).answer = .loaded (.ok ()) ∧
      Replaced m code (m.performLoad code).machine) ∨
    (programLimit < code.length ∧ m.performLoad code =
      ⟨.loaded (.error (.tooLarge code.length programLimit)), m, []⟩) := by
  rcases Nat.lt_or_ge programLimit code.length with large | fits
  · exact .inr ⟨large, m.performLoad_of_large large⟩
  · obtain ⟨loaded, done, performed⟩ := m.performLoad_of_fits fits
    rw [performed]
    exact .inl ⟨fits, rfl, replaced_of_load done⟩

theorem performLoad_performLoad (m : Machine) (first : List UInt8) {second : List UInt8}
    (fits : second.length ≤ programLimit) :
    ((m.performLoad first).machine.performLoad second).machine = (m.performLoad second).machine := by
  rcases m.performLoad_cases first with ⟨_, _, replaced⟩ | ⟨_, refused⟩
  · -- Of the machine between the two only matters that the first program is in program memory alone.
    generalize (m.performLoad first).machine = between at replaced
    obtain ⟨after, done, performed⟩ := between.performLoad_of_fits fits
    obtain ⟨alone, doneAlone, performedAlone⟩ := m.performLoad_of_fits fits
    have same : after = alone :=
      Except.ok.inj (done.symm.trans ((Memory.load_congr replaced.below second).trans doneAlone))
    rw [performed, performedAlone, ← same]
    exact congrArg (fun machine : Machine => { machine with memory := after }) replaced.rest
  · rw [refused]

end Machine

/-! ### The listing command -/

namespace CommandLine

/-- The file was read, and its bytes are fit to be loaded. -/
def Loadable (content : Except FileError (List UInt8)) (bytes : List UInt8) : Prop :=
  content = .ok bytes ∧ 1 ≤ bytes.length ∧ bytes.length ≤ 3584

theorem listCompletion_of_loadable {content : Except FileError (List UInt8)} {bytes : List UInt8}
    (loadable : Loadable content bytes) (path : String) :
    listCompletion path content = ⟨0, listing bytes, ""⟩ := by
  obtain ⟨rfl, size⟩ := loadable
  obtain ⟨rom, made⟩ := Rom.exists_ofBytes_iff.mpr size
  obtain rfl := Rom.ofBytes_eq_ok_iff.mp made
  have opened : Rom.ofFile (.ok rom.code) = .ok rom := made
  have loaded : Memory.initial.load rom.code = .ok _ := dif_pos rom.length_le
  simp only [listCompletion, opened, loaded, Memory.program_of_load loaded]

theorem listCompletion_of_unloadable {content : Except FileError (List UInt8)}
    (unloadable : ∀ bytes, ¬ Loadable content bytes) (path : String) :
    ∃ errors, listCompletion path content = ⟨1, "", errors⟩ := by
  unfold listCompletion
  cases opened : Rom.ofFile content with
  | error error => exact ⟨_, rfl⟩
  | ok rom =>
    cases content with
    | error cause => cases opened
    | ok bytes =>
      have size := Rom.exists_ofBytes_iff.mp ⟨rom, opened⟩
      exact absurd ⟨rfl, size⟩ (unloadable bytes)

end CommandLine

/-- A byte string is fit to be loaded if it has 1 to 3584 bytes, and then every machine loads it, whatever
    its state. Loading takes any program of up to 3584 bytes and puts it in place of all that was in
    program memory, and nothing else of the machine changes; a larger program is refused with its size and
    changes nothing. So of two programs in a row only the second one is left, and the listing command lists
    the files of 1 to 3584 bytes and writes nothing for any other. -/
theorem loading_replaces_or_refuses :
    (∀ code, (∃ rom, Rom.ofBytes code = .ok rom) ↔ 1 ≤ code.length ∧ code.length ≤ 3584) ∧
    (∀ code rom, Rom.ofBytes code = .ok rom → ∀ m : Machine,
      m.perform (.loadRom rom) = m.perform (.load code) ∧
      (m.perform (.loadRom rom)).answer = .loaded (.ok ())) ∧
    (∀ (m : Machine) code,
      ((m.perform (.load code)).answer = .loaded (.ok ()) ↔ code.length ≤ 3584) ∧
      (code.length ≤ 3584 → Machine.Replaced m code (m.perform (.load code)).machine) ∧
      (3584 < code.length → m.perform (.load code) =
        ⟨.loaded (.error (.tooLarge code.length 3584)), m, []⟩)) ∧
    (∀ (m : Machine) first second, second.length ≤ 3584 →
      ((m.perform (.load first)).machine.perform (.load second)).machine =
        (m.perform (.load second)).machine) ∧
    (∀ path content,
      (∀ bytes, CommandLine.Loadable content bytes →
        CommandLine.listCompletion path content = ⟨0, listing bytes, ""⟩) ∧
      ((∀ bytes, ¬ CommandLine.Loadable content bytes) →
        ∃ errors, CommandLine.listCompletion path content = ⟨1, "", errors⟩)) := by
  refine ⟨fun _ => Rom.exists_ofBytes_iff, ?_, ?_, ?_, ?_⟩
  · intro code rom made m
    obtain rfl := Rom.ofBytes_eq_ok_iff.mp made
    refine ⟨rfl, ?_⟩
    rcases m.performLoad_cases rom.code with ⟨_, answered, _⟩ | ⟨large, _⟩
    · exact answered
    · exact absurd rom.length_le (Nat.not_le.mpr large)
  · intro m code
    show ((m.performLoad code).answer = _ ↔ _) ∧ _
    rcases m.performLoad_cases code with ⟨fits, answered, replaced⟩ | ⟨large, refused⟩
    · exact ⟨iff_of_true answered fits, fun _ => replaced,
        fun large => absurd fits (Nat.not_le.mpr large)⟩
    · have unanswered : (m.performLoad code).answer ≠ .loaded (.ok ()) := by simp [refused]
      exact ⟨iff_of_false unanswered (Nat.not_le.mpr large),
        fun fits => absurd fits (Nat.not_le.mpr large), fun _ => refused⟩
  · exact fun m first _ fits => m.performLoad_performLoad first fits
  · exact fun path _ => ⟨fun _ loadable => CommandLine.listCompletion_of_loadable loadable path,
      fun unloadable => CommandLine.listCompletion_of_unloadable unloadable path⟩

end Chip8
