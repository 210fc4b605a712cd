/-!
The sixteen keys of the keypad as a machine sees them: each is up or down. Of the keys that are down
the lowest one counts, which `lowestDown_eq_some_iff` puts in terms of the single keys.
-/
namespace Chip8

abbrev keyCount : Nat := 16

/-- Which keys are down. -/
abbrev Keys : Type := Vector Bool keyCount

namespace Keys

def allUp : Keys := Vector.replicate keyCount false

def isDown? (keys : Keys) (key : UInt8) : Option Bool := keys[key.toNat]?

def lowestDown (keys : Keys) : Option UInt8 :=
  ((List.finRange keyCount).find? fun key => keys[key]).map fun key => UInt8.ofNat key

theorem get_set (keys : Keys) (key other : Fin keyCount) (down : Bool) :
    (keys.set key.val down key.isLt).get other = if key = other then down else keys.get other := by
  show (keys.set key.val down key.isLt)[other.val] = if key = other then down else keys[other.val]
  simp only [Vector.getElem_set, Fin.ext_iff]

theorem lowestDown_eq (keys : Keys) :
    keys.lowestDown =
      ((List.finRange keyCount).find? fun key => keys[key]).map fun key => UInt8.ofNat key.val := by
  unfold lowestDown
  cases (List.finRange keyCount).find? fun key => keys[key] <;> rfl

theorem lowestDown_eq_none_iff {keys : Keys} :
    keys.lowestDown = none ↔ ∀ key : Fin keyCount, keys.get key = false := by
  simp [lowestDown_eq, List.find?_eq_none, Vector.get]

theorem lowestDown_eq_some_iff {keys : Keys} {number : UInt8} :
    keys.lowestDown = some number ↔ ∃ key : Fin keyCount, number = UInt8.ofNat key.val ∧
      keys.get key = true ∧ ∀ lower : Fin keyCount, lower < key → keys.get lower = false := by
  simp only [lowestDown_eq, Option.map_eq_some_iff, List.find?_eq_some_iff_getElem,
    Vector.get]
  constructor
  · rintro ⟨key, ⟨down, place, inside, same, before⟩, rfl⟩
    refine ⟨key, rfl, down, ?_⟩
    intro lower below
    simp only [List.getElem_finRange] at same
    have first := before lower.val (by rw [← same] at below; exact below)
    simpa using first
  · rintro ⟨key, rfl, down, before⟩
    refine ⟨key, ⟨down, key.val, by simp, by simp, ?_⟩, rfl⟩
    intro lower below
    simpa using before ⟨lower, Nat.lt_trans below key.isLt⟩ below

end Keys

end Chip8
