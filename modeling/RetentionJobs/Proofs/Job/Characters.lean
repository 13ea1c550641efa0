import RetentionJobs.Proofs.Cron.Signs
import RetentionJobs.Proofs.Job.Effective
/-! The characters that a schedule brings into a statement. It gets there through its normal form
only, which has nothing but the fields with single spaces between them. -/
namespace RetentionJobs.Job
open RetentionJobs.Text RetentionJobs.Cron

/-- A printable ASCII character that neither quotes nor escapes nor ends a statement. -/
def IsHarmless (c : Char) : Prop :=
  32 ≤ c.toNat ∧ c.toNat < 127 ∧ c ∉ ['\'', '"', '\\', '$', ';']

instance (c : Char) : Decidable (IsHarmless c) := inferInstanceAs (Decidable (_ ∧ _))

theorem isHarmless_of_isWordChar {c : Char} (h : isWordChar c) : IsHarmless c := by
  have hrange : 32 ≤ c.toNat ∧ c.toNat < 127 := by
    simp only [isWordChar, Grammar.isLink, Bool.or_eq_true, beq_iff_eq] at h
    obtain ((((hdigit | halpha) | (rfl | rfl) | rfl) | rfl) | rfl) | rfl := h
    · obtain ⟨hzero, hnine⟩ := Char.isDigit_iff_toNat.mp hdigit
      simp only [Char.reduceToNat] at hzero hnine
      omega
    · have := isAlpha_iff.mp halpha
      omega
    all_goals decide
  refine ⟨hrange.1, hrange.2, fun hmem => ?_⟩
  have hquotes : ['\'', '"', '\\', '$', ';'].all (fun d => !isWordChar d) := by decide
  simpa [h] using List.all_eq_true.mp hquotes c hmem

/-- The fields of an accepted expression are made of ASCII letters, digits and the characters
`*?/,-+`, where a plus sign stands in the weekday only, right before a digit. Its normal form is the
fields with single spaces between them, and a job is registered with its schedule in that form. -/
theorem parse_alphabet {e : String} {s : Schedule} (h : Schedule.parse e = .ok s) :
    (∀ v ∈ s.given, v.toList ≠ [] ∧ ∀ c ∈ v.toList, isWordChar c) ∧
    (∀ v ∈ s.beforeWeekday, '+' ∉ v.toList) ∧ (∀ v ∈ s.dayOfWeek, SignsDigits v.toList) ∧
    ∃ n, normalize e = .ok n ∧ n.toList = join [' '] (s.given.map String.toList) ∧
      (∀ c ∈ n.toList, isWordChar c ∨ c = ' ') ∧ (∀ c ∈ n.toList, IsHarmless c) ∧
      ∀ t th job c, compile t th { job with cronExpression := e } = .ok c →
        c = registrationOf t th job n := by
  obtain ⟨hcheck, hs⟩ := Schedule.parse_eq_ok_iff.mp h
  have hnormal := normalize_of_parse h
  have hgiven : s.given.map String.toList = words e.toList := by
    simp [Schedule.given_of_ofWords? hs, Function.comp_def]
  have hchar : ∀ w ∈ words e.toList, ∀ c ∈ w, isWordChar c := fun w hw c hc =>
    isWordChar_of_checkWords (fun _ => isWord_of_mem_words) hcheck hw hc
  have hword : ∀ v ∈ s.given, v.toList ∈ words e.toList := fun v hv =>
    hgiven ▸ List.mem_map_of_mem hv
  have hspaced : ∀ c ∈ join [' '] (words e.toList), isWordChar c ∨ c = ' ' := by
    intro c hc
    by_cases hspace : c = ' '
    · exact .inr hspace
    · obtain ⟨w, hw, hc⟩ := (mem_join_iff (by simpa using hspace) _).mp hc
      exact .inl (hchar w hw c hc)
  obtain ⟨front, last, hwords, hfront, hlast⟩ := Schedule.ofWords?_eq_some hs
  obtain ⟨hsigns, hdigits⟩ := signs_of_checkWords (hwords ▸ hcheck)
  refine ⟨fun v hv => ⟨(isWord_of_mem_words (hword v hv)).1, hchar _ (hword v hv)⟩, ?_, ?_,
    _, hnormal, ?_, ?_, ?_, ?_⟩
  · rw [hfront]
    simpa using hsigns
  · rw [hlast]
    simpa using hdigits
  · rw [String.toList_ofList, hgiven]
  · rwa [String.toList_ofList]
  · rw [String.toList_ofList]
    intro c hc
    obtain hc | rfl := hspaced c hc
    · exact isHarmless_of_isWordChar hc
    · decide
  · intro t th job c hcompile
    obtain ⟨-, cron, hcron, rfl⟩ := compile_eq_ok_iff.mp hcompile
    obtain rfl : cron = _ := Except.ok.inj (hcron.symm.trans hnormal)
    rfl

/-- Signs in a range of weekdays, letters in any mix of cases, and blanks of two kinds. -/
def signedWeekdays : String := "\t*/15 9-17 ? jan,JUL\u3000+1-+05/2,Sun"

theorem parse_alphabet_signedWeekdays :
    Schedule.parse signedWeekdays = .ok ⟨none, some "*/15", some "9-17", some "?", some "jan,JUL",
      some "+1-+05/2,Sun"⟩ ∧ SignsDigits "+1-+05/2,Sun".toList ∧
    normalize signedWeekdays = .ok "*/15 9-17 ? jan,JUL +1-+05/2,Sun" ∧
    (∀ c ∈ "*/15 9-17 ? jan,JUL +1-+05/2,Sun".toList, IsHarmless c) ∧
    ∀ c, compile {} {} (purgeJob signedWeekdays none 10) = .ok c →
      c = registrationOf {} {} (purgeJob "" none 10) "*/15 9-17 ? jan,JUL +1-+05/2,Sun" := by
  have hparse : Schedule.parse signedWeekdays = .ok ⟨none, some "*/15", some "9-17", some "?",
      some "jan,JUL", some "+1-+05/2,Sun"⟩ := by decide +kernel
  obtain ⟨-, -, hsigns, n, hnormal, hjoin, -, hharmless, hcompile⟩ := parse_alphabet hparse
  obtain rfl : n = "*/15 9-17 ? jan,JUL +1-+05/2,Sun" := by
    rw [← String.toList_inj, hjoin]
    decide +kernel
  exact ⟨hparse, hsigns _ rfl, hnormal, hharmless, fun c hc => hcompile _ _ (purgeJob "" none 10) c hc⟩

end RetentionJobs.Job
