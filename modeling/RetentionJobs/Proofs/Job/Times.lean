import RetentionJobs.Proofs.Cron.Spacing
import RetentionJobs.Proofs.Job.Effective
import RetentionJobs.Proofs.Job.Verdict
/-! The times of a job. What is emitted for an expression is its words with single spaces, and a
schedule that is given field by field is the expression that its fields are joined to, unless a
field has a blank inside. -/
namespace RetentionJobs.Job
open RetentionJobs.Text RetentionJobs.Outcome RetentionJobs.Cron

variable {t : Template} {th : Thresholds} {job : Definition} {c : Compiled}

theorem cron_of_compile (h : compile t th job = .ok c) :
    normalize job.cronExpression = .ok c.cronExpression := by
  obtain ⟨_, cron, hcron, rfl⟩ := compile_eq_ok_iff.mp h
  exact hcron

theorem cronExpression_of_compile (h : compile t th job = .ok c) {cron : String}
    (hnormal : normalize job.cronExpression = .ok cron) : c.cronExpression = cron :=
  Except.ok.inj ((cron_of_compile h).symm.trans hnormal)

/-- A job whose expression is accepted is not refused for it. -/
theorem compile_ne_invalidCron (hcron : ∃ s, parse job.cronExpression = .ok s)
    (expression reason : String) : compile t th job ≠ .error (.invalidCron expression reason) := by
  intro h
  have hverdict : verdict (compile t th job) = .error (.invalidCron expression reason) :=
    verdict_eq_error_iff.mpr h
  rw [verdict_compile, Demand.checkAll_eq_error_iff] at hverdict
  obtain ⟨front, k, back, hdemands, _, hk⟩ := hverdict
  -- only the demand on the expression refuses with such an error, and it is met
  cases k with
  | someFilter columns => exact absurd hk.2 (by simp)
  | literal field value =>
    obtain ⟨_, _, he⟩ := hk
    cases he
  | identifier field value =>
    obtain ⟨_, _, he⟩ := hk
    cases he
  | cron expression' =>
    have hmem : Demand.cron expression' ∈ job.demands := by simp [hdemands]
    have hexpression : expression' = job.cronExpression := by
      simpa [Definition.demands, columnDemands] using hmem
    have hmet : (Demand.cron expression').check = .ok () := by
      rw [Demand.check_eq_ok_iff, hexpression]
      exact hcron
    rw [← Demand.check_eq_error_iff, hmet] at hk
    cases hk

/-- Whether an expression is accepted, and as which schedule or for which reason not, is a matter of
its words. When it is accepted its normal form is the words with single spaces between them; that
text is its own normal form and is read as the same schedule, the schedule is shown as it, and it is
what compiling emits. -/
theorem expression_spaced (e : String) :
    (∀ e', words e'.toList = words e.toList →
      parse e' = (parse e).mapError (fun r => ⟨e', r.refusal⟩)) ∧
    ∀ s, parse e = .ok s →
      normalize e = .ok (spaced e) ∧ normalize (spaced e) = .ok (spaced e) ∧
        parse (spaced e) = .ok s ∧ s.display = spaced e ∧
        ∀ t th job c, job.cronExpression = e → compile t th job = .ok c →
          c.cronExpression = spaced e := by
  refine ⟨fun e' => parse_of_words_eq, ?_⟩
  intro s hs
  have hnormal : normalize e = .ok (spaced e) := normalize_eq_ok_iff.mpr ⟨⟨s, hs⟩, rfl⟩
  refine ⟨hnormal, normalize_spaced.mpr hnormal, parse_spaced.mpr hs,
    Schedule.display_of_parse (parse_eq_ok_iff.mp hs), ?_⟩
  rintro t th job c rfl h
  exact cronExpression_of_compile h hnormal

/-- Blanks of three kinds, and a range of weekdays that the grammar is asked about renumbered. -/
def weekendNights : String := "\t0  3 * *\u30005-7 "

theorem expression_spaced_weekendNights :
    (∃ s c, parse weekendNights = .ok s ∧ normalize weekendNights = .ok "0 3 * * 5-7" ∧
      normalize "0 3 * * 5-7" = .ok "0 3 * * 5-7" ∧ parse "0 3 * * 5-7" = .ok s ∧
      s.display = "0 3 * * 5-7" ∧ compile {} {} (purgeJob weekendNights none 10) = .ok c ∧
      c.cronExpression = "0 3 * * 5-7") ∧
    parse " 0  3" = .error ⟨" 0  3", .wordCount 2⟩ := by
  have hparse : parse weekendNights =
      .ok ⟨none, some "0", some "3", some "*", some "*", some "5-7"⟩ := by decide +kernel
  have hspaced : spaced weekendNights = "0 3 * * 5-7" := by decide +kernel
  have hfew : parse "0 3" = .error ⟨"0 3", .wordCount 2⟩ := by decide +kernel
  obtain ⟨_, haccepted⟩ := expression_spaced weekendNights
  obtain ⟨hnormal, hagain, hsame, hdisplay, hemitted⟩ := haccepted _ hparse
  have hcompile := compile_purgeJob {} none 10 hnormal
  have hcron := hemitted {} {} _ _ rfl hcompile
  rw [hspaced] at hnormal hagain hsame hdisplay hcron
  refine ⟨⟨_, _, hparse, hnormal, hagain, hsame, hdisplay, hcompile, hcron⟩, ?_⟩
  rw [(expression_spaced "0 3").1 " 0  3" (by decide +kernel), hfew]
  rfl

namespace Request
variable {r : Request} {s : Schedule}

theorem compile_eq_ok_iff :
    r.compile t th = .ok c ↔ ∃ job, r.definition = .ok job ∧ Job.compile t th job = .ok c := by
  refine ⟨exists_job_of_compile, ?_⟩
  rintro ⟨job, hjob, h⟩
  rw [Request.compile, hjob]
  exact h

/-- The request with its times given by an expression. -/
def withCron (r : Request) (expression : String) : Request :=
  { r with cronExpression := some expression }

theorem cronExpression_of_withCron {expression : String}
    (h : (r.withCron expression).definition = .ok job) : job.cronExpression = expression := by
  obtain ⟨cron, hcron, rfl⟩ := definition_eq_ok_iff.mp h
  exact (Except.ok.inj hcron).symm

/-- Without an expression, a request asks for the job that it asks for with the joined fields of its
schedule, provided that no field has a blank inside and the joined fields are accepted. -/
theorem definition_eq_ok_iff_withCron (hexpression : r.cronExpression = none)
    (hschedule : r.schedule = some s) :
    r.definition = .ok job ↔ (∀ v ∈ s.given, ¬ Schedule.HasBlankInside v) ∧
      (∃ s', parse s.display = .ok s') ∧ (r.withCron s.display).definition = .ok job := by
  have hformat : ∀ e, r.cron = .ok e ↔ s.format s.second.isSome = .ok e := by
    intro e
    simp only [Request.cron, hexpression, hschedule, mapError_eq_ok_iff, Cron.format]
  have hinner := s.not_hasInnerBlank_iff
  have htext : (r.withCron s.display).cron = .ok s.display := rfl
  simp only [definition_eq_ok_iff, hformat, Schedule.format_eq_ok_iff_parse, hinner, htext]
  constructor
  · rintro ⟨_, ⟨hgiven, haccepted, rfl⟩, rfl⟩
    exact ⟨hgiven, haccepted, s.display, rfl, rfl⟩
  · rintro ⟨hgiven, haccepted, _, htext, rfl⟩
    obtain rfl := Except.ok.inj htext
    exact ⟨s.display, ⟨hgiven, haccepted, rfl⟩, rfl⟩

/-- The joined fields of an accepted schedule are a normal form. -/
theorem normalize_of_definition (hexpression : r.cronExpression = none)
    (hschedule : r.schedule = some s) (h : r.definition = .ok job) :
    normalize job.cronExpression = .ok job.cronExpression := by
  obtain ⟨hgiven, haccepted, hjob⟩ :=
    (definition_eq_ok_iff_withCron hexpression hschedule).mp h
  have hspaced : spaced s.display = s.display :=
    Schedule.spaced_render (s.not_hasInnerBlank_iff.mpr hgiven)
  rw [cronExpression_of_withCron hjob]
  exact normalize_eq_ok_iff.mpr ⟨haccepted, hspaced.symm⟩

/-- A schedule compiles to what its joined fields compile to as an expression, provided that no
field has a blank inside. The expression of the job is then in normal form, so that compiling neither
refuses nor changes it. -/
theorem compile_schedule (hexpression : r.cronExpression = none) (hschedule : r.schedule = some s) :
    (∀ t th c, r.compile t th = .ok c ↔ (∀ v ∈ s.given, ¬ Schedule.HasBlankInside v) ∧
      (r.withCron s.display).compile t th = .ok c) ∧
    ∀ job, r.definition = .ok job →
      normalize job.cronExpression = .ok job.cronExpression ∧ ∀ t th,
        (∀ expression reason, Job.compile t th job ≠ .error (.invalidCron expression reason)) ∧
        ∀ c, Job.compile t th job = .ok c → c.cronExpression = job.cronExpression := by
  constructor
  · intro t th c
    simp only [compile_eq_ok_iff, definition_eq_ok_iff_withCron hexpression hschedule]
    constructor
    · rintro ⟨job, ⟨hgiven, _, hjob⟩, h⟩
      exact ⟨hgiven, job, hjob, h⟩
    · rintro ⟨hgiven, job, hjob, h⟩
      -- the job compiles, so its expression is accepted
      have haccepted := (normalize_eq_ok_iff.mp (cron_of_compile h)).1
      rw [cronExpression_of_withCron hjob] at haccepted
      exact ⟨job, ⟨hgiven, haccepted, hjob⟩, h⟩
  · intro job hdefinition
    have hnormal := normalize_of_definition hexpression hschedule hdefinition
    have haccepted := (normalize_eq_ok_iff.mp hnormal).1
    exact ⟨hnormal, fun t th => ⟨compile_ne_invalidCron haccepted,
      fun c h => cronExpression_of_compile h hnormal⟩⟩

/-- A purge at the given minutes. -/
def atMinutes (minute : String) : Request where
  jobName := "purge"
  schedule := some { minute := some minute, dayOfWeek := some "" }
  databaseName := "core"
  schema := "dbo"
  table := "outbox"
  filters := some [⟨"SentAt", 60⟩, ⟨"CreatedAt", 90⟩]

theorem compile_atMinutes (minute : String) {e : String} (hcron : normalize e = .ok e) :
    ∃ c, ((atMinutes minute).withCron e).compile {} {} = .ok c :=
  ⟨_, compile_eq_ok_iff.mpr ⟨purgeJob e none 60, rfl, compile_purgeJob {} none 60 hcron⟩⟩

/-- Blanks around a field do not matter. With one inside of a field the joined fields are accepted
as six, but the schedule is not. -/
theorem compile_schedule_atMinutes :
    (∃ c, (atMinutes " */5\t").compile {} {} = .ok c ∧
      ((atMinutes " */5\t").withCron "*/5 * * * *").compile {} {} = .ok c ∧
      c.cronExpression = "*/5 * * * *") ∧
    (∃ c, ((atMinutes "0 3").withCron "0 3 * * * *").compile {} {} = .ok c) ∧
    ∀ c, (atMinutes "0 3").compile {} {} ≠ .ok c := by
  have hsix : normalize "0 3 * * * *" = .ok "0 3 * * * *" := by decide +kernel
  have hpadded := compile_schedule (r := atMinutes " */5\t") rfl rfl
  have hsplit := compile_schedule (r := atMinutes "0 3") rfl rfl
  have hdefinition : (atMinutes " */5\t").definition = .ok (purgeJob "*/5 * * * *" none 60) := by
    decide +kernel
  obtain ⟨hnormal, hcompile⟩ := hpadded.2 _ hdefinition
  obtain ⟨c, hc⟩ := compile_atMinutes " */5\t" hnormal
  refine ⟨⟨c, (hpadded.1 {} {} c).mpr ⟨by decide +kernel, hc⟩, hc, ?_⟩,
    compile_atMinutes "0 3" hsix, ?_⟩
  · obtain ⟨job, hjob, h⟩ := compile_eq_ok_iff.mp hc
    obtain rfl : purgeJob "*/5 * * * *" none 60 = job := Except.ok.inj hjob
    exact (hcompile {} {}).2 c h
  · intro c h
    have hgiven := ((hsplit.1 {} {} c).mp h).1
    exact absurd hgiven (by decide +kernel)

end Request
end RetentionJobs.Job
