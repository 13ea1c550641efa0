import RetentionJobs.Proofs.Cron.Normalization
/-! Writing the fields of a schedule and reading them back. The written values are trimmed and not
empty, so the number of words tells whether one of them has a blank inside. -/
namespace RetentionJobs.Cron
open RetentionJobs.Text RetentionJobs.Outcome

namespace Schedule

/-- A value without the blanks around it, or the fallback if it is absent or has nothing else. -/
def trimmedOr (fallback : String) : Option String → String
  | none => fallback
  | some v => if v.toList.all isBlank then fallback else .ofList (trim v.toList)

/-- The schedule that the written values of `s` make up. It has a second if that is written. -/
def settled (s : Schedule) (seconds : Bool) : Schedule where
  second := if seconds then some (trimmedOr "0" s.second) else none
  minute := some (trimmedOr "*" s.minute)
  hour := some (trimmedOr "*" s.hour)
  dayOfMonth := some (trimmedOr "*" s.dayOfMonth)
  month := some (trimmedOr "*" s.month)
  dayOfWeek := some (trimmedOr "*" s.dayOfWeek)

theorem fieldOr_eq_trimmedOr (value : Option String) (fallback : String) :
    fieldOr value fallback.toList = (trimmedOr fallback value).toList := by
  cases value with
  | none => rfl
  | some v =>
    have hblank : trim v.toList = [] ↔ v.toList.all isBlank :=
      trim_eq_nil_iff.trans List.all_eq_true.symm
    cases htrim : trim v.toList with
    | nil =>
      rw [trimmedOr, if_pos (hblank.mp htrim)]
      simp [fieldOr, htrim]
    | cons c cs =>
      rw [htrim] at hblank
      rw [trimmedOr, if_neg (fun h => List.cons_ne_nil c cs (hblank.mpr h)), String.toList_ofList]
      simp [fieldOr, htrim]

theorem isTrimmed_trimmedOr (value : Option String) {fallback : String}
    (h : IsTrimmed fallback.toList ∧ fallback.toList ≠ []) :
    IsTrimmed (trimmedOr fallback value).toList ∧ (trimmedOr fallback value).toList ≠ [] := by
  unfold trimmedOr
  split
  · exact h
  · split
    · exact h
    · rename_i v hblank
      rw [String.toList_ofList]
      exact ⟨isTrimmed_trim v.toList,
        fun hnil => hblank (List.all_eq_true.mpr (trim_eq_nil_iff.mp hnil))⟩

theorem values_eq (s : Schedule) (seconds : Bool) :
    s.values seconds =
      ((if seconds then [trimmedOr "0" s.second] else []) ++
        [s.minute, s.hour, s.dayOfMonth, s.month, s.dayOfWeek].map (trimmedOr "*")).map
          String.toList := by
  have hstar := fun value => fieldOr_eq_trimmedOr value "*"
  have hzero := fieldOr_eq_trimmedOr s.second "0"
  simp only [String.reduceToList] at hstar hzero
  cases seconds <;> simp [values, effectiveSecond, hstar, hzero]

theorem length_values (s : Schedule) (seconds : Bool) :
    (s.values seconds).length = if seconds then 6 else 5 := by
  cases seconds <;> rfl

theorem isTrimmed_of_mem_values {s : Schedule} {seconds : Bool} {v : List Char}
    (h : v ∈ s.values seconds) : IsTrimmed v ∧ v ≠ [] := by
  rw [values_eq] at h
  have hstar : IsTrimmed "*".toList ∧ "*".toList ≠ [] :=
    ⟨isTrimmed_singleton (by decide), by decide⟩
  have hzero : IsTrimmed "0".toList ∧ "0".toList ≠ [] :=
    ⟨isTrimmed_singleton (by decide), by decide⟩
  obtain ⟨w, hw, rfl⟩ := List.mem_map.mp h
  obtain hsecond | hfield := List.mem_append.mp hw
  · obtain ⟨_, rfl⟩ : seconds = true ∧ w = trimmedOr "0" s.second := by simpa using hsecond
    exact isTrimmed_trimmedOr s.second hzero
  · obtain ⟨value, _, rfl⟩ := List.mem_map.mp hfield
    exact isTrimmed_trimmedOr value hstar

theorem ofWords?_values (s : Schedule) (seconds : Bool) :
    ofWords? (s.values seconds) = some (s.settled seconds) := by
  rw [values_eq]
  cases seconds <;> simp [ofWords?, settled]

theorem second_settled (s : Schedule) (seconds : Bool) :
    (s.settled seconds).second.isSome = seconds := by
  cases seconds <;> rfl

theorem words_joined (s : Schedule) (seconds : Bool) :
    words (s.joined seconds) = (s.values seconds).flatMap words :=
  words_join_eq_flatMap _

/-- The joined text has the right number of words unless a value has a blank inside. -/
theorem length_words_joined_eq_iff (s : Schedule) (seconds : Bool) :
    (words (s.joined seconds)).length = (if seconds then 6 else 5) ↔
      ∀ v ∈ s.values seconds, ∀ c ∈ v, isBlank c = false := by
  rw [words_joined, ← length_values s seconds]
  exact length_flatMap_words_eq_iff (fun _ => isTrimmed_of_mem_values)

/-- Whether a written value has a blank inside, so that the fields cannot be told apart. -/
def HasInnerBlank (s : Schedule) (seconds : Bool) : Prop :=
  ∃ v ∈ s.values seconds, ∃ c ∈ v, isBlank c

theorem length_words_joined_ne_iff (s : Schedule) (seconds : Bool) :
    (words (s.joined seconds)).length ≠ (if seconds then 6 else 5) ↔
      s.HasInnerBlank seconds := by
  have hcount := not_congr (length_words_joined_eq_iff s seconds)
  simpa [HasInnerBlank] using hcount

theorem words_joined_of_not_hasInnerBlank {s : Schedule} {seconds : Bool}
    (h : ¬ s.HasInnerBlank seconds) : words (s.joined seconds) = s.values seconds := by
  refine words_join (fun v hv => ⟨(isTrimmed_of_mem_values hv).2, fun c hc => ?_⟩)
  exact (Bool.not_eq_true _).mp (fun hblank => h ⟨v, hv, c, hc, hblank⟩)

theorem format_of_hasInnerBlank {s : Schedule} {seconds : Bool} (h : s.HasInnerBlank seconds) :
    s.format seconds =
      .error (.innerBlank (if seconds then 6 else 5) (words (s.joined seconds)).length) :=
  if_pos ((length_words_joined_ne_iff s seconds).mpr h)

/-- Without blanks inside, the grammar is asked about the written values. -/
theorem format_of_not_hasInnerBlank {s : Schedule} {seconds : Bool}
    (h : ¬ s.HasInnerBlank seconds) :
    s.format seconds = (checkWords (s.values seconds)).map (fun _ => s.render seconds) := by
  have hcount := mt (length_words_joined_ne_iff s seconds).mp h
  rw [format, if_neg hcount, words_joined_of_not_hasInnerBlank h]
  cases checkWords (s.values seconds) <;> rfl

/-- A schedule is written when no value has a blank inside and the grammar accepts the values. -/
theorem format_eq_ok_iff {s : Schedule} {seconds : Bool} {e : String} :
    s.format seconds = .ok e ↔
      ¬ s.HasInnerBlank seconds ∧ checkWords (s.values seconds) = .ok () ∧
        s.render seconds = e := by
  by_cases hinner : s.HasInnerBlank seconds
  · simp [format_of_hasInnerBlank hinner, hinner]
  · rw [format_of_not_hasInnerBlank hinner]
    cases checkWords (s.values seconds) <;> simp [Except.map, hinner]

/-- Values without blanks inside are only refused by the grammar. -/
theorem grammar_of_format_eq_error {s : Schedule} {seconds : Bool} {refusal : Refusal}
    (hinner : ¬ s.HasInnerBlank seconds) (h : s.format seconds = .error refusal) :
    ∃ line stop, refusal = .grammar line stop := by
  have hlen : (s.values seconds).length = 5 ∨ (s.values seconds).length = 6 := by
    cases seconds <;> simp [length_values]
  rw [format_of_not_hasInnerBlank hinner, checkWords, if_pos hlen] at h
  cases hread : Line.read (lineOf (s.values seconds)) with
  | error stop => exact ⟨_, stop, by simpa [hread, Except.map, eq_comm] using h⟩
  | ok line => simp [hread, Except.map] at h

/-- The written values of what was written are the same. -/
theorem values_settled {s : Schedule} {seconds : Bool} (h : ¬ s.HasInnerBlank seconds) :
    (s.settled seconds).values seconds = s.values seconds := by
  have hword : ∀ v ∈ s.values seconds, IsWord v := by
    rw [← words_joined_of_not_hasInnerBlank h]
    exact fun v => isWord_of_mem_words
  have hvalues := values_of_ofWords? hword (ofWords?_values s seconds)
  rwa [second_settled] at hvalues

end Schedule

theorem format_eq_error_iff {s : Schedule} {seconds : Bool} {rejection : Rejection} :
    format s seconds = .error rejection ↔
      s.format seconds = .error rejection.refusal ∧ rejection.expression = s.render seconds := by
  rw [format, mapError_eq_error_iff]
  constructor
  · rintro ⟨refusal, h, rfl⟩
    exact ⟨h, rfl⟩
  · rintro ⟨h, hexpression⟩
    exact ⟨rejection.refusal, h, by rw [← hexpression]⟩

/-- What a schedule is written as is read back as the values that were written, which are written as
the same text again. The number of words is refused just when a value has a blank inside. -/
theorem parse_format (s : Schedule) (seconds : Bool) :
    (∀ e, format s seconds = .ok e →
      parse e = .ok (s.settled seconds) ∧ format (s.settled seconds) seconds = .ok e) ∧
    ((∃ found, format s seconds =
        .error ⟨s.render seconds, .innerBlank (if seconds then 6 else 5) found⟩) ↔
      s.HasInnerBlank seconds) ∧
    ∀ text found, format s seconds ≠ .error ⟨text, .wordCount found⟩ := by
  refine ⟨?_, ⟨?_, ?_⟩, ?_⟩
  · intro e h
    obtain ⟨hinner, hcheck, rfl⟩ := Schedule.format_eq_ok_iff.mp (mapError_eq_ok_iff.mp h)
    have hwords : words (s.render seconds).toList = s.values seconds := by
      rw [Schedule.render, String.toList_ofList, Schedule.words_joined_of_not_hasInnerBlank hinner]
    have hvalues := Schedule.values_settled hinner
    constructor
    · refine mapError_eq_ok_iff.mpr (Schedule.parse_eq_ok_iff.mpr ?_)
      rw [hwords]
      exact ⟨hcheck, Schedule.ofWords?_values s seconds⟩
    · refine mapError_eq_ok_iff.mpr (Schedule.format_eq_ok_iff.mpr ?_)
      simp only [Schedule.HasInnerBlank, Schedule.render, Schedule.joined, hvalues]
      exact ⟨hinner, hcheck, trivial⟩
  · rintro ⟨found, h⟩
    by_contra hinner
    obtain ⟨_, _, hgrammar⟩ :=
      Schedule.grammar_of_format_eq_error hinner (format_eq_error_iff.mp h).1
    cases hgrammar
  · intro hinner
    exact ⟨_, format_eq_error_iff.mpr ⟨Schedule.format_of_hasInnerBlank hinner, rfl⟩⟩
  · intro text found h
    have hformat := (format_eq_error_iff.mp h).1
    by_cases hinner : s.HasInnerBlank seconds
    · rw [Schedule.format_of_hasInnerBlank hinner] at hformat
      cases hformat
    · obtain ⟨_, _, hgrammar⟩ := Schedule.grammar_of_format_eq_error hinner hformat
      cases hgrammar

/-- Some fields have blanks around them, and some have nothing else or are absent. -/
def paddedSchedule : Schedule where
  second := some " "
  minute := some " */5\u3000"
  dayOfMonth := some "\u2003"
  month := some "Jan-Mar"
  dayOfWeek := some "5-7\t"

theorem parse_format_paddedSchedule :
    format paddedSchedule true = .ok "0 */5 * * Jan-Mar 5-7" ∧
      parse "0 */5 * * Jan-Mar 5-7" =
        .ok ⟨some "0", some "*/5", some "*", some "*", some "Jan-Mar", some "5-7"⟩ := by
  have h : format paddedSchedule true = .ok "0 */5 * * Jan-Mar 5-7" := by decide +kernel
  have hsettled : paddedSchedule.settled true =
      ⟨some "0", some "*/5", some "*", some "*", some "Jan-Mar", some "5-7"⟩ := by decide +kernel
  rw [← hsettled]
  exact ⟨h, ((parse_format paddedSchedule true).1 _ h).1⟩

end RetentionJobs.Cron
