import RetentionJobs.Proofs.Cron.Formatting
/-! Of an expression only the words count. With single spaces between them it is read as the same
schedule, its normal form is that text again, and the schedule is shown as it. -/
namespace RetentionJobs.Cron
open RetentionJobs.Text RetentionJobs.Outcome

/-- The words of an expression with single spaces between them. -/
def spaced (e : String) : String := .ofList (join [' '] (words e.toList))

@[simp] theorem words_spaced (e : String) : words (spaced e).toList = words e.toList := by
  rw [spaced, String.toList_ofList, words_join (fun _ => isWord_of_mem_words)]

theorem spaced_of_words_eq {e e' : String} (h : words e'.toList = words e.toList) :
    spaced e' = spaced e := by
  rw [spaced, spaced, h]

namespace Schedule

theorem parse_of_words_eq {e e' : String} (h : words e'.toList = words e.toList) :
    parse e' = parse e := by
  simp only [parse, h]

theorem display_of_parse {e : String} {s : Schedule} (h : parse e = .ok s) :
    s.display = spaced e := by
  obtain ⟨_, hs⟩ := parse_eq_ok_iff.mp h
  have hvalues := values_of_ofWords? (fun _ => isWord_of_mem_words) hs
  rw [display, render, joined, hvalues, spaced]

end Schedule

theorem parse_eq_ok_iff {e : String} {s : Schedule} : parse e = .ok s ↔ Schedule.parse e = .ok s :=
  mapError_eq_ok_iff

theorem parse_of_words_eq {e e' : String} (h : words e'.toList = words e.toList) :
    parse e' = (parse e).mapError (fun r => ⟨e', r.refusal⟩) := by
  rw [parse, parse, Schedule.parse_of_words_eq h]
  cases Schedule.parse e <;> rfl

theorem normalize_eq_ok_iff {e n : String} :
    normalize e = .ok n ↔ (∃ s, parse e = .ok s) ∧ n = spaced e := by
  simp only [normalize_eq_ok_iff_words, parse_eq_ok_iff, Schedule.parse_eq_ok_iff, spaced]
  constructor
  · rintro ⟨hcheck, rfl⟩
    obtain ⟨s, hs⟩ := Schedule.ofWords?_isSome (checkWords_eq_ok_iff.mp hcheck).1
    exact ⟨⟨s, hcheck, hs⟩, rfl⟩
  · rintro ⟨⟨_, hcheck, _⟩, rfl⟩
    exact ⟨hcheck, rfl⟩

theorem parse_spaced {e : String} {s : Schedule} :
    parse (spaced e) = .ok s ↔ parse e = .ok s := by
  rw [parse_eq_ok_iff, parse_eq_ok_iff, Schedule.parse_of_words_eq (words_spaced e)]

/-- The normal form is a normal form. -/
theorem normalize_spaced {e n : String} : normalize (spaced e) = .ok n ↔ normalize e = .ok n := by
  simp only [normalize_eq_ok_iff, parse_spaced, spaced_of_words_eq (words_spaced e)]

namespace Schedule

/-! What is written of a schedule. -/

/-- The fields that are given, in order. -/
def given (s : Schedule) : List String :=
  [s.second, s.minute, s.hour, s.dayOfMonth, s.month, s.dayOfWeek].filterMap id

/-- Trimming leaves a blank inside of the text. -/
def HasBlankInside (v : String) : Prop := ∃ c ∈ trim v.toList, isBlank c

instance (v : String) : Decidable (HasBlankInside v) :=
  List.decidableBEx (fun c => isBlank c = true) (trim v.toList)

theorem exists_blank_fieldOr_iff (value : Option String) {fallback : List Char}
    (h : fallback.any isBlank = false) :
    (∃ c ∈ fieldOr value fallback, isBlank c) ↔ ∃ v ∈ value, HasBlankInside v := by
  have hfallback : ¬ ∃ c ∈ fallback, isBlank c := by
    simpa using h
  cases value with
  | none => simpa [fieldOr] using hfallback
  | some v => cases htrim : trim v.toList <;> simp_all [fieldOr, HasBlankInside]

/-- A written value has a blank inside when a given field has one. -/
theorem hasInnerBlank_iff (s : Schedule) :
    s.HasInnerBlank s.second.isSome ↔ ∃ v ∈ s.given, HasBlankInside v := by
  have hzero : (∃ c ∈ fieldOr s.second ['0'], isBlank c) ↔ ∃ v ∈ s.second, HasBlankInside v :=
    exists_blank_fieldOr_iff s.second rfl
  have hstar (value : Option String) :
      (∃ c ∈ fieldOr value ['*'], isBlank c) ↔ ∃ v ∈ value, HasBlankInside v :=
    exists_blank_fieldOr_iff value rfl
  -- an absent second is not written, and any other absent field is written as a star
  have hsecond : (∃ v ∈ if s.second.isSome then [s.effectiveSecond] else [], ∃ c ∈ v, isBlank c) ↔
      ∃ v ∈ s.second, HasBlankInside v := by
    cases hs : s.second with
    | none => simp
    | some v => simpa [effectiveSecond, hs] using hzero
  calc s.HasInnerBlank s.second.isSome
      ↔ (∃ v ∈ s.second, HasBlankInside v) ∨
          ∃ value ∈ [s.minute, s.hour, s.dayOfMonth, s.month, s.dayOfWeek],
            ∃ v ∈ value, HasBlankInside v := by
        simp only [HasInnerBlank, values, List.mem_append, or_and_right, exists_or, hsecond,
          List.mem_map, exists_exists_and_eq_and, hstar]
    _ ↔ ∃ value ∈ [s.second, s.minute, s.hour, s.dayOfMonth, s.month, s.dayOfWeek],
          ∃ v ∈ value, HasBlankInside v :=
        (List.exists_mem_cons_iff (fun value => ∃ v ∈ value, HasBlankInside v) ..).symm
    _ ↔ ∃ v ∈ s.given, HasBlankInside v := by
        simp only [given, List.mem_filterMap, id, Option.mem_def]
        constructor
        · rintro ⟨value, hvalue, v, hv, hblank⟩
          exact ⟨v, ⟨value, hvalue, hv⟩, hblank⟩
        · rintro ⟨v, ⟨value, hvalue, hv⟩, hblank⟩
          exact ⟨value, hvalue, v, hv, hblank⟩

theorem not_hasInnerBlank_iff (s : Schedule) :
    ¬ s.HasInnerBlank s.second.isSome ↔ ∀ v ∈ s.given, ¬ HasBlankInside v := by
  simp [hasInnerBlank_iff]

theorem words_render {s : Schedule} {seconds : Bool} (h : ¬ s.HasInnerBlank seconds) :
    words (s.render seconds).toList = s.values seconds := by
  rw [render, String.toList_ofList, words_joined_of_not_hasInnerBlank h]

theorem spaced_render {s : Schedule} {seconds : Bool} (h : ¬ s.HasInnerBlank seconds) :
    spaced (s.render seconds) = s.render seconds := by
  rw [spaced, words_render h]
  rfl

/-- A schedule is written when no value has a blank inside and its text is accepted. -/
theorem format_eq_ok_iff_parse {s : Schedule} {seconds : Bool} {e : String} :
    s.format seconds = .ok e ↔
      ¬ s.HasInnerBlank seconds ∧ (∃ s', Cron.parse e = .ok s') ∧ s.render seconds = e := by
  rw [format_eq_ok_iff]
  refine and_congr_right fun hinner => and_congr_left ?_
  rintro rfl
  simp [Cron.parse_eq_ok_iff, parse_eq_ok_iff, words_render hinner, ofWords?_values]

end Schedule
end RetentionJobs.Cron
