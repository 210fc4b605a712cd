/-!
The latest event of a kind in a history.
-/
namespace Chip8

/-- Either no event of a history is of a kind, or there is a latest one, and none after it is. -/
theorem none_or_latest {α : Type} (kind : α → Prop) (history : List α) :
    (∀ event ∈ history, ¬ kind event) ∨
      ∃ before latest since, history = before ++ latest :: since ∧ kind latest ∧
        ∀ event ∈ since, ¬ kind event := by
  induction history with
  | nil => exact .inl (by simp)
  | cons first rest ih =>
    rcases ih with none | ⟨before, latest, since, rfl, found, none⟩
    · by_cases now : kind first
      · exact .inr ⟨[], first, rest, rfl, now, none⟩
      · exact .inl (List.forall_mem_cons.mpr ⟨now, none⟩)
    · exact .inr ⟨first :: before, latest, since, rfl, found, none⟩

end Chip8
