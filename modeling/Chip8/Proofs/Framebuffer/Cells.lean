import Chip8.Framebuffer.Basic

/-!
The display as a grid of cells. A display is its cells (`ext_pixel`), and to lay a set of cells over
it is to flip them and to note whether one of them was lit (`Lays`). Sets that share no cell can be
laid one after the other (`Lays.trans`), which is how a sprite laid cell by cell comes out as the
sprite drawn at once (`draw_of_lays`).
-/
namespace Chip8.Framebuffer

theorem ext_pixel {fb other : Framebuffer}
    (same : ∀ column row, column < displayWidth → row < displayHeight →
      fb.pixel column row = other.pixel column row) : fb = other := by
  cases fb with | mk rows =>
  cases other with | mk others =>
  congr 1
  apply Vector.ext
  intro row below
  apply BitVec.eq_of_getMsbD_eq
  intro column inside
  simpa [pixel, below] using same column row inside below

/-- A display before and after some cells are laid over it, with what is noted of lit ones. -/
structure Lays (cells : Nat → Nat → Bool) (before after : Framebuffer × Bool) : Prop where
  pixel : ∀ column row, column < displayWidth → row < displayHeight →
    after.1.pixel column row = (before.1.pixel column row ^^ cells column row)
  noted : after.2 = true ↔ before.2 = true ∨
    ∃ column row, column < displayWidth ∧ row < displayHeight ∧
      before.1.pixel column row = true ∧ cells column row = true

variable {cells others : Nat → Nat → Bool} {before middle after : Framebuffer × Bool}

/-- Only the cells of the grid count. -/
theorem Lays.congr (laid : Lays cells before after)
    (same : ∀ column row, column < displayWidth → row < displayHeight →
      cells column row = others column row) : Lays others before after where
  pixel := by
    intro column row inside below
    rw [← same column row inside below]
    exact laid.pixel column row inside below
  noted := by
    rw [laid.noted]
    refine or_congr_right (exists_congr fun column => exists_congr fun row => ?_)
    refine and_congr_right fun inside => and_congr_right fun below => ?_
    rw [same column row inside below]

theorem Lays.none (before : Framebuffer × Bool)
    (empty : ∀ column row, column < displayWidth → row < displayHeight →
      cells column row = false) : Lays cells before before where
  pixel := by
    intro column row inside below
    rw [empty column row inside below, Bool.xor_false]
  noted := by
    constructor
    · exact .inl
    · rintro (noted | ⟨column, row, inside, below, _, covered⟩)
      · exact noted
      · rw [empty column row inside below] at covered
        cases covered

theorem Lays.trans (first : Lays cells before middle) (second : Lays others middle after)
    (apart : ∀ column row, column < displayWidth → row < displayHeight →
      cells column row = true → others column row = false) :
    Lays (fun column row => cells column row || others column row) before after where
  pixel := by
    intro column row inside below
    rw [second.pixel column row inside below, first.pixel column row inside below, Bool.xor_assoc]
    cases covered : cells column row with
    | true => simp [apart column row inside below covered]
    | false => simp
  noted := by
    rw [second.noted, first.noted, or_assoc]
    refine or_congr_right ?_
    constructor
    · rintro (⟨column, row, inside, below, lit, covered⟩ | ⟨column, row, inside, below, lit, covered⟩)
      · exact ⟨column, row, inside, below, lit, by simp [covered]⟩
      · refine ⟨column, row, inside, below, ?_, by simp [covered]⟩
        -- A cell of the second set was not flipped by the first one.
        cases earlier : cells column row with
        | true => rw [apart column row inside below earlier] at covered; cases covered
        | false => simpa [first.pixel column row inside below, earlier] using lit
    · rintro ⟨column, row, inside, below, lit, covered⟩
      cases earlier : cells column row with
      | true => exact .inl ⟨column, row, inside, below, lit, earlier⟩
      | false =>
        refine .inr ⟨column, row, inside, below, ?_, by simpa [earlier] using covered⟩
        simp [first.pixel column row inside below, earlier, lit]

/-- What is laid cell by cell in the shape of a sprite is the sprite drawn. -/
theorem draw_of_lays {fb : Framebuffer} {x y : Nat} {sprite : List UInt8}
    (laid : Lays (covers x y sprite) (fb, false) after) :
    after = (fb.draw x y sprite, fb.collides x y sprite) := by
  apply Prod.ext
  · apply ext_pixel
    intro column row inside below
    rw [laid.pixel column row inside below, pixel_draw fb x y sprite inside below]
  · apply Bool.eq_iff_iff.mpr
    rw [laid.noted, collides_iff]
    simp

end Chip8.Framebuffer
