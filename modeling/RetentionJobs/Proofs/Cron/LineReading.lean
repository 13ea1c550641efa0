import RetentionJobs.Cron.Line
import RetentionJobs.Proofs.Cron.Fronts
import RetentionJobs.Proofs.Outcome
/-! A line is read field by field, each field from where the one before it stopped. -/
namespace RetentionJobs.Cron.Line
open RetentionJobs.Outcome

theorem readField_eq_ok_iff {f : Field} {cs rest : List Char} {items : List Item} :
    readField f cs = .ok (items, rest) ↔
      Grammar.field f cs = some (items, rest) ∧ f.check items = .ok () := by
  unfold readField
  cases hfield : Grammar.field f cs with
  | none => simp
  | some r =>
    obtain ⟨items', rest'⟩ := r
    cases hcheck : f.check items' with
    | error e =>
      simp only [hcheck, reduceCtorEq, Option.some.injEq, Prod.mk.injEq, false_iff, not_and]
      rintro ⟨rfl, rfl⟩
      simp [hcheck]
    | ok u =>
      simp only [hcheck, Except.ok.injEq, Option.some.injEq, Prod.mk.injEq]
      constructor
      · rintro ⟨rfl, rfl⟩
        exact ⟨⟨rfl, rfl⟩, hcheck⟩
      · exact fun h => h.1

/-- What is left after each of the six fields, and the year that is read from the last rest. -/
theorem read_eq_ok_iff {cs : List Char} {line : Line} :
    read cs = .ok line ↔ ∃ c₁ c₂ c₃ c₄ c₅ c₆, readField .second cs = .ok (line.second, c₁) ∧
      readField .minute c₁ = .ok (line.minute, c₂) ∧ readField .hour c₂ = .ok (line.hour, c₃) ∧
      readField .dayOfMonth c₃ = .ok (line.dayOfMonth, c₄) ∧
      readField .month c₄ = .ok (line.month, c₅) ∧
      readField .dayOfWeek c₅ = .ok (line.dayOfWeek, c₆) ∧ readYear c₆ = (line.year, []) := by
  simp only [read, bind_eq_ok_iff, Prod.exists]
  constructor
  · rintro ⟨_, c₁, h₁, _, c₂, h₂, _, c₃, h₃, _, c₄, h₄, _, c₅, h₅, _, c₆, h₆, h⟩
    split at h
    · rename_i hrest
      obtain rfl := Except.ok.inj h
      exact ⟨c₁, c₂, c₃, c₄, c₅, c₆, h₁, h₂, h₃, h₄, h₅, h₆, Prod.ext rfl hrest⟩
    · cases h
  · rintro ⟨c₁, c₂, c₃, c₄, c₅, c₆, h₁, h₂, h₃, h₄, h₅, h₆, h⟩
    refine ⟨_, c₁, h₁, _, c₂, h₂, _, c₃, h₃, _, c₄, h₄, _, c₅, h₅, _, c₆, h₆, ?_⟩
    rw [h]
    rfl

end RetentionJobs.Cron.Line
