import Chip8.Memory.Basic

/-!
Memory as a function from addresses to bytes. `check_eq_ok_iff` says which accesses are let through,
`byte_of_load` gives every byte after a program is loaded, and `program_of_load` says that the program
read back is the one loaded.
-/
namespace Chip8.Memory

theorem check_eq_ok_iff (start length : Nat) :
    check start length = .ok () ↔ start < memorySize ∧ start + length ≤ memorySize := by
  unfold check
  split
  · simp
    omega
  · split
    · simp
      omega
    · simp
      omega

theorem byte_of_inside (m : Memory) {address : Nat} (inside : address < memorySize) :
    m.byte address = m.bytes[address] := by
  simp [byte, inside]

theorem byte_of_outside (m : Memory) {address : Nat} (outside : memorySize ≤ address) :
    m.byte address = 0 := by
  simp [byte, outside]

/-- After loading, program memory holds the program and then zeros; the rest holds what it held. -/
theorem byte_of_load {m loaded : Memory} {code : List UInt8} (done : m.load code = .ok loaded)
    (address : Nat) :
    loaded.byte address =
      if programStart ≤ address then code[address - programStart]?.getD 0 else m.byte address := by
  unfold load at done
  split at done
  · next fits =>
    have same := Except.ok.inj done
    have whole : memorySize = programStart + programLimit := rfl
    by_cases inside : address < memorySize
    · subst same
      rw [byte_of_inside _ inside, byte_of_inside _ inside, Block.getElem_write]
      split
      · by_cases covered : address - programStart < code.length
        · rw [List.getElem?_append_left covered]
          simp [covered]
        · rw [List.getElem?_append_right (Nat.not_lt.mp covered),
            List.getElem?_eq_none (Nat.not_lt.mp covered), List.getElem?_replicate, if_pos]
          · rfl
          · omega
      · rfl
    · have outside := Nat.not_lt.mp inside
      have past : code.length ≤ address - programStart :=
        Nat.le_trans fits (Nat.sub_le_sub_right outside programStart)
      simp only [byte_of_outside _ outside, List.getElem?_eq_none past, Option.getD_none, ite_self]
  · cases done

theorem program_of_load {m loaded : Memory} {code : List UInt8} (done : m.load code = .ok loaded) :
    loaded.program = code := by
  have length : loaded.programLength = code.length := by
    unfold load at done
    split at done
    · cases done
      rfl
    · cases done
  apply List.ext_getElem?
  intro place
  by_cases inside : place < code.length
  · rw [program, Block.getElem?_read _ (by omega)]
    have byte := byte_of_load done (programStart + place)
    simp only [Memory.byte, Nat.le_add_right, if_true, Nat.add_sub_cancel_left] at byte
    rw [byte]
    simp [inside]
  · rw [List.getElem?_eq_none (by simp [program, length]; omega),
      List.getElem?_eq_none (Nat.not_lt.mp inside)]

end Chip8.Memory
