import Chip8.Proofs.InPlace.Blit

/-!
Sprites on the display. The cells of a sprite are told by its bits, on a grid without edges
(`Covered`). To draw it is to flip those of its cells that the display has, whether that is done at once
or in place, and it collides if one of them was lit (`sprite_drawn_cell_by_cell`). Drawings flip a cell as
often as they cover it (`pixel_drawAll`), so their order plays no part, and to draw a sprite is to draw
its upper rows and then its lower rows below them (`drawings_in_any_order`).
-/
namespace Chip8.Framebuffer
open InPlace (blit blit_eq testBit_place)

/-- A cell of a sprite whose upper left corner is at column `x` and row `y`: it lies `c` columns to the
    right of the corner and `r` rows below it, and bit `7 - c` of byte `r` is set. -/
def Covered (x y : Nat) (sprite : List UInt8) (column row : Nat) : Prop :=
  ∃ r c byte, sprite[r]? = some byte ∧ c < 8 ∧ column = x + c ∧ row = y + r ∧
    byte.toNat.testBit (7 - c) = true

variable {x y column row : Nat} {sprite : List UInt8}

theorem covers_iff : covers x y sprite column row = true ↔ Covered x y sprite column row := by
  simp only [covers, Bool.and_eq_true, decide_eq_true_eq]
  constructor
  · rintro ⟨⟨right, below⟩, set⟩
    cases found : sprite[row - y]? with
    | none => simp [found] at set
    | some byte =>
      rw [found, Option.getD_some] at set
      have small : column - x < 8 := by
        apply Nat.lt_of_not_le
        intro past
        rw [BitVec.getMsbD_of_ge _ _ past] at set
        cases set
      refine ⟨row - y, column - x, byte, found, small, by omega, by omega, ?_⟩
      rw [testBit_place byte (Nat.le_of_lt_succ small)]
      exact set
  · rintro ⟨r, c, byte, found, small, rfl, rfl, set⟩
    rw [testBit_place byte (Nat.le_of_lt_succ small)] at set
    simp [found, set]

instance : Decidable (Covered x y sprite column row) := decidable_of_iff _ covers_iff

theorem decide_covered : decide (Covered x y sprite column row) = covers x y sprite column row := by
  rw [Bool.eq_iff_iff, decide_eq_true_iff, covers_iff]

theorem right_below_of_covered (covered : Covered x y sprite column row) :
    x ≤ column ∧ y ≤ row ∧ row < y + sprite.length := by
  obtain ⟨r, c, byte, found, _, rfl, rfl, _⟩ := covered
  obtain ⟨inside, _⟩ := List.getElem?_eq_some_iff.mp found
  omega

/-! ### One drawing -/

theorem pixel_of_outside (fb : Framebuffer) (outside : displayWidth ≤ column ∨ displayHeight ≤ row) :
    fb.pixel column row = false := by
  rcases outside with right | below
  · exact BitVec.getMsbD_of_ge _ _ right
  · simp [pixel, Nat.not_lt.mpr below]

theorem pixel_of_uncovered (fb : Framebuffer) (uncovered : ¬ Covered x y sprite column row) :
    (fb.draw x y sprite).pixel column row = fb.pixel column row := by
  by_cases inside : column < displayWidth ∧ row < displayHeight
  · have none : covers x y sprite column row = false := by
      rw [← decide_covered, decide_eq_false uncovered]
    rw [pixel_draw fb x y sprite inside.1 inside.2, none, Bool.xor_false]
  · have outside : displayWidth ≤ column ∨ displayHeight ≤ row := by omega
    rw [pixel_of_outside _ outside, pixel_of_outside _ outside]

theorem draw_lays (fb : Framebuffer) (x y : Nat) (sprite : List UInt8) (hit : Bool) :
    Lays (covers x y sprite) (fb, hit) (fb.draw x y sprite, hit || fb.collides x y sprite) where
  pixel := fun _ _ inside below => pixel_draw fb x y sprite inside below
  noted := by rw [Bool.or_eq_true, collides_iff]

/-- Sprites with the same cells on the grid are drawn alike. -/
theorem draw_congr (fb : Framebuffer) {x' y' : Nat} {other : List UInt8}
    (same : ∀ column row, column < displayWidth → row < displayHeight →
      (Covered x' y' other column row ↔ Covered x y sprite column row)) :
    fb.draw x' y' other = fb.draw x y sprite ∧ fb.collides x' y' other = fb.collides x y sprite := by
  have alike : ∀ column row, column < displayWidth → row < displayHeight →
      covers x' y' other column row = covers x y sprite column row := by
    intro column row inside below
    rw [Bool.eq_iff_iff, covers_iff, covers_iff]
    exact same column row inside below
  exact Prod.mk.inj (draw_of_lays ((fb.draw_lays x' y' other false).congr alike))

/-- A sprite drawn in place at a position of 64 bits, however far outside: it ends without a sum or an
    index out of range, flips exactly the covered cells of the grid, and collides exactly if one of
    them was lit. Nothing comes back at the left or the upper edge, and only the cells on the grid
    count for the picture and for the collision. -/
theorem sprite_drawn_cell_by_cell (fb : Framebuffer) (x y : UInt64) (sprite : List UInt8) :
    let after := fb.draw x.toNat y.toNat sprite
    let hit := fb.collides x.toNat y.toNat sprite
    blit fb x.toNat y.toNat sprite = some (after, hit) ∧
    (∀ column row, column < 64 → row < 32 → after.pixel column row =
      (fb.pixel column row ^^ decide (Covered x.toNat y.toNat sprite column row))) ∧
    (hit = true ↔ ∃ column row, column < 64 ∧ row < 32 ∧ fb.pixel column row = true ∧
      Covered x.toNat y.toNat sprite column row) ∧
    (∀ column row, column < x.toNat ∨ row < y.toNat →
      after.pixel column row = fb.pixel column row) ∧
    (∀ other, (∀ column row, column < 64 → row < 32 →
        (Covered x.toNat y.toNat other column row ↔ Covered x.toNat y.toNat sprite column row)) →
      blit fb x.toNat y.toNat other = some (after, hit)) := by
  intro after hit
  refine ⟨blit_eq fb x.toNat_lt y.toNat_lt sprite, ?_, ?_, ?_, ?_⟩
  · intro column row inside below
    rw [decide_covered]
    exact pixel_draw fb x.toNat y.toNat sprite inside below
  · simp only [← covers_iff]
    exact collides_iff fb x.toNat y.toNat sprite
  · intro column row before
    apply pixel_of_uncovered
    intro covered
    have behind := right_below_of_covered covered
    omega
  · intro other same
    rw [blit_eq fb x.toNat_lt y.toNat_lt other, (fb.draw_congr same).1, (fb.draw_congr same).2]

/-! ### Several drawings -/

/-- A sprite and the place of its upper left corner. -/
structure Drawing where
  x : Nat
  y : Nat
  sprite : List UInt8

def drawAll (fb : Framebuffer) : List Drawing → Framebuffer
  | [] => fb
  | d :: rest => (fb.draw d.x d.y d.sprite).drawAll rest

/-- How many drawings cover a cell. -/
def coverings (drawings : List Drawing) (column row : Nat) : Nat :=
  drawings.countP fun d => decide (Covered d.x d.y d.sprite column row)

theorem pixel_drawAll (fb : Framebuffer) (drawings : List Drawing) (inside : column < displayWidth)
    (below : row < displayHeight) : (fb.drawAll drawings).pixel column row =
      (fb.pixel column row ^^ decide (coverings drawings column row % 2 = 1)) := by
  induction drawings generalizing fb with
  | nil => simp [drawAll, coverings]
  | cons d rest ih =>
    rw [drawAll, ih, pixel_draw fb d.x d.y d.sprite inside below, ← decide_covered, Bool.xor_assoc]
    congr 1
    by_cases covered : Covered d.x d.y d.sprite column row
    · have more : coverings (d :: rest) column row = coverings rest column row + 1 :=
        List.countP_cons_of_pos (decide_eq_true covered)
      rw [more, decide_eq_true covered, Bool.true_xor, ← decide_not]
      exact decide_eq_decide.mpr (by omega)
    · have same : coverings (d :: rest) column row = coverings rest column row :=
        List.countP_cons_of_neg (by simpa using covered)
      rw [same, decide_eq_false covered, Bool.false_xor]

theorem drawAll_of_perm (fb : Framebuffer) {drawings others : List Drawing}
    (perm : drawings.Perm others) : fb.drawAll others = fb.drawAll drawings := by
  apply ext_pixel
  intro column row inside below
  have same : coverings drawings column row = coverings others column row := perm.countP_eq _
  rw [pixel_drawAll fb others inside below, pixel_drawAll fb drawings inside below, same]

/-- Every cell is flipped an even number of times. -/
theorem drawAll_again (fb : Framebuffer) {drawings others : List Drawing}
    (perm : drawings.Perm others) : (fb.drawAll drawings).drawAll others = fb := by
  rw [drawAll_of_perm _ perm]
  apply ext_pixel
  intro column row inside below
  rw [pixel_drawAll _ drawings inside below, pixel_drawAll fb drawings inside below, Bool.xor_assoc,
    Bool.xor_self, Bool.xor_false]

theorem draw_draw (fb : Framebuffer) (x y : Nat) (sprite : List UInt8) :
    (fb.draw x y sprite).draw x y sprite = fb := by
  have again := fb.drawAll_again (List.Perm.refl [⟨x, y, sprite⟩])
  simpa only [drawAll] using again

/-- A cell that a sprite covers is lit before the one or the other of two drawings. -/
theorem collides_twice_iff (fb : Framebuffer) (x y : Nat) (sprite : List UInt8) :
    fb.collides x y sprite = true ∨ (fb.draw x y sprite).collides x y sprite = true ↔
      ∃ column row, column < 64 ∧ row < 32 ∧ Covered x y sprite column row := by
  simp only [collides_iff, ← covers_iff]
  constructor
  · rintro (⟨column, row, inside, below, _, covered⟩ | ⟨column, row, inside, below, _, covered⟩)
    · exact ⟨column, row, inside, below, covered⟩
    · exact ⟨column, row, inside, below, covered⟩
  · rintro ⟨column, row, inside, below, covered⟩
    cases lit : fb.pixel column row with
    | true => exact .inl ⟨column, row, inside, below, lit, covered⟩
    | false =>
      have drawn := pixel_draw fb x y sprite inside below
      rw [lit, covered] at drawn
      exact .inr ⟨column, row, inside, below, drawn, covered⟩

theorem covers_append (x y : Nat) (upper lower : List UInt8) (column row : Nat) :
    covers x y (upper ++ lower) column row =
      (covers x y upper column row || covers x (y + upper.length) lower column row) := by
  unfold covers
  by_cases split : y + upper.length ≤ row
  · have past : upper.length ≤ row - y := by omega
    have here : y ≤ row := by omega
    have shifted : row - y - upper.length = row - (y + upper.length) := by omega
    simp [split, here, past, List.getElem?_append_right, shifted]
  · by_cases here : y ≤ row
    · have within : row - y < upper.length := by omega
      simp [split, here, List.getElem?_append_left within]
    · simp [split, here]

/-- The upper rows of a sprite and its lower rows share no cell, so they can be laid one after the
    other. -/
theorem draw_append (fb : Framebuffer) (x y : Nat) (upper lower : List UInt8) :
    fb.draw x y (upper ++ lower) = (fb.draw x y upper).draw x (y + upper.length) lower ∧
    fb.collides x y (upper ++ lower) =
      (fb.collides x y upper || (fb.draw x y upper).collides x (y + upper.length) lower) := by
  have first := fb.draw_lays x y upper false
  have second := (fb.draw x y upper).draw_lays x (y + upper.length) lower (false || fb.collides x y upper)
  have apart : ∀ column row, column < displayWidth → row < displayHeight →
      covers x y upper column row = true → covers x (y + upper.length) lower column row = false := by
    intro column row _ _ above
    have high := (right_below_of_covered (covers_iff.mp above)).2.2
    rw [← decide_covered, decide_eq_false_iff_not]
    intro under
    have low := (right_below_of_covered under).2.1
    omega
  have both := (first.trans second apart).congr
    fun column row _ _ => (covers_append x y upper lower column row).symm
  obtain ⟨drawn, noted⟩ := Prod.mk.inj (draw_of_lays both)
  rw [Bool.false_or] at noted
  exact ⟨drawn.symm, noted.symm⟩

/-- Drawings one after another, at whatever places: a cell of the grid is flipped if an odd number of
    them cover it, so any order makes the same picture, and to draw all of them again in any order
    takes them away. A sprite can be cut between two rows, and collides if one of the parts does. -/
theorem drawings_in_any_order (fb : Framebuffer) (drawings : List Drawing) :
    (∀ column row, column < 64 → row < 32 → (fb.drawAll drawings).pixel column row =
      (fb.pixel column row ^^ decide (coverings drawings column row % 2 = 1))) ∧
    (∀ others, drawings.Perm others → fb.drawAll others = fb.drawAll drawings ∧
      (fb.drawAll drawings).drawAll others = fb) ∧
    (∀ x y upper lower, let middle := fb.draw x y upper
      fb.draw x y (upper ++ lower) = middle.draw x (y + upper.length) lower ∧
      fb.collides x y (upper ++ lower) =
        (fb.collides x y upper || middle.collides x (y + upper.length) lower)) :=
  ⟨fun _ _ inside below => fb.pixel_drawAll drawings inside below,
    fun _ perm => ⟨fb.drawAll_of_perm perm, fb.drawAll_again perm⟩, fb.draw_append⟩

end Chip8.Framebuffer
