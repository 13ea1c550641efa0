import RetentionJobs.Proofs.Job.Compilation
/-! The order in which a job is refused: the names of the job and of its database come before all
else but the filters, and no later check says anything about them. -/
namespace RetentionJobs

/-- The error is about the name of a job or of its database. -/
def CompileError.OnNames : CompileError → Prop
  | invalidName field _ _ => field = "jobName" ∨ field = "databaseName"
  | _ => False

/-- The code of an error, and the text that is displayed for it. -/
inductive CompileError.Displays : CompileError → String → String → Prop where
  | invalidCron (expression reason : String) :
      Displays (.invalidCron expression reason) "invalid_cron_format"
        ("invalid cron expression '" ++ expression ++ "': " ++ reason)
  | missingFilters :
      Displays .missingFilters "missing_filters" "at least one retention filter is required"
  | invalidName (field value reason : String) :
      Displays (.invalidName field value reason) "invalid_identifier"
        ("invalid " ++ field ++ " '" ++ value ++ "': " ++ reason)

theorem CompileError.displays (e : CompileError) : e.Displays e.code e.message := by
  cases e with
  | invalidCron expression reason => exact .invalidCron expression reason
  | missingFilters => exact .missingFilters
  | invalidName field value reason => exact .invalidName field value reason

namespace Job
open RetentionJobs.Outcome

/-- The checks of the two names, in the order in which a job is checked. -/
def requireNames (jobName databaseName : String) : Except CompileError Unit := do
  requireLiteral "jobName" jobName
  requireLiteral "databaseName" databaseName

theorem requireNames_eq_ok_iff {jobName databaseName : String} :
    requireNames jobName databaseName = .ok () ↔
      requireLiteral "jobName" jobName = .ok () ∧
        requireLiteral "databaseName" databaseName = .ok () := by
  simp [requireNames, bind_eq_ok_iff, Unique.exists_iff]

theorem requireNames_eq_error_iff {jobName databaseName : String} {e : CompileError} :
    requireNames jobName databaseName = .error e ↔
      requireLiteral "jobName" jobName = .error e ∨
        requireLiteral "jobName" jobName = .ok () ∧
          requireLiteral "databaseName" databaseName = .error e := by
  simp [requireNames, bind_eq_error_iff, Unique.exists_iff]

theorem onNames_of_requireNames {jobName databaseName : String} {e : CompileError}
    (h : requireNames jobName databaseName = .error e) : e.OnNames := by
  rw [requireNames_eq_error_iff] at h
  simp only [requireLiteral, mapError_eq_error_iff] at h
  rcases h with ⟨_, _, rfl⟩ | ⟨_, _, _, rfl⟩
  · exact .inl rfl
  · exact .inr rfl

/-! The checks after the names. -/

theorem onNames_of_requireIdentifier {field value : String} {e : CompileError}
    (h : requireIdentifier field value = .error e) (he : e.OnNames) :
    field = "jobName" ∨ field = "databaseName" := by
  obtain ⟨_, _, rfl⟩ := mapError_eq_error_iff.mp h
  exact he

theorem not_onNames_of_requireCron {expression : String} {e : CompileError}
    (h : requireCron expression = .error e) : ¬ e.OnNames := by
  obtain ⟨_, _, rfl⟩ := mapError_eq_error_iff.mp h
  exact id

/-- A part of a filter is named by a field that starts as no other field does. -/
theorem head?_filterField (index : Nat) (part : String) :
    (filterField index part).toList.head? = some 'f' := by
  simp [filterField]

theorem not_onNames_of_condition {t : Template} {th : Thresholds} {filters : List Filter}
    {e : CompileError} (h : condition t th filters = .error e) : ¬ e.OnNames := by
  cases filters with
  | nil =>
    obtain rfl := Except.error.inj h
    exact id
  | cons f fs =>
    obtain ⟨front, _, _, _, _, _, _, rfl⟩ :=
      (condition_eq_error_iff (List.cons_ne_nil f fs)).mp h
    have hhead := head?_filterField front.length "column"
    rintro (hfield | hfield)
    · rw [hfield] at hhead
      exact absurd hhead (by decide)
    · rw [hfield] at hhead
      exact absurd hhead (by decide)

variable {t : Template} {th : Thresholds} {job : Definition} {e : CompileError}

/-- A job with filters is refused as its names are. -/
theorem compile_of_requireNames_error (hfilters : job.filters ≠ [])
    (h : requireNames job.jobName job.databaseName = .error e) :
    compile t th job = .error e := by
  have hempty : job.filters.isEmpty = false := by simpa using hfilters
  simp only [compile, hempty, Bool.false_eq_true, if_false]
  rcases requireNames_eq_error_iff.mp h with hjob | ⟨hjob, hdatabase⟩
  · rw [hjob]
    rfl
  · rw [hjob, hdatabase]
    rfl

/-- A job whose names are well-formed is not refused for them. -/
theorem not_onNames_of_compile (hnames : requireNames job.jobName job.databaseName = .ok ())
    (h : compile t th job = .error e) : ¬ e.OnNames := by
  obtain ⟨hjob, hdatabase⟩ := requireNames_eq_ok_iff.mp hnames
  cases hempty : job.filters.isEmpty with
  | true =>
    rw [compile, hempty] at h
    obtain rfl := Except.error.inj h
    exact id
  | false =>
    simp only [compile, hempty, Bool.false_eq_true, if_false, bind_eq_error_iff, hjob, hdatabase,
      reduceCtorEq, false_or] at h
    obtain ⟨_, _, _, _, hschema | ⟨_, _, htable | ⟨_, _, hcron | ⟨_, _, hcondition | ⟨_, _, h⟩⟩⟩⟩⟩ := h
    · exact fun he => absurd (onNames_of_requireIdentifier hschema he) (by decide)
    · exact fun he => absurd (onNames_of_requireIdentifier htable he) (by decide)
    · exact not_onNames_of_requireCron hcron
    · exact not_onNames_of_condition hcondition
    · cases h

/-- A job with filters is refused for its names exactly when the checks of the names refuse it, and
with their error. -/
theorem compile_eq_error_onNames_iff (hfilters : job.filters ≠ []) :
    compile t th job = .error e ∧ e.OnNames ↔
      requireNames job.jobName job.databaseName = .error e := by
  constructor
  · rintro ⟨h, he⟩
    cases hnames : requireNames job.jobName job.databaseName with
    | ok u => exact absurd he (not_onNames_of_compile hnames h)
    | error e' =>
      have h' : compile t th job = .error e' := compile_of_requireNames_error hfilters hnames
      exact congrArg Except.error (Except.error.inj (h'.symm.trans h))
  · intro h
    exact ⟨compile_of_requireNames_error hfilters h, onNames_of_requireNames h⟩

namespace Request
variable {r : Request}

/-- A request that compiles has well-formed names, and it is registered under them. -/
theorem names_of_compile {c : Compiled} (h : r.compile t th = .ok c) :
    requireNames r.jobName r.databaseName = .ok () ∧
      c.registeredName = registeredName r.databaseName r.jobName := by
  obtain ⟨job, hjob, hcompile⟩ := exists_job_of_compile h
  obtain ⟨cron, -, rfl⟩ := definition_eq_ok_iff.mp hjob
  obtain ⟨hwell, cron', -, rfl⟩ := compile_eq_ok_iff.mp hcompile
  have hnames := requireNames_eq_ok_iff.mpr
    ⟨mapError_eq_ok_iff.mpr hwell.jobName, mapError_eq_ok_iff.mpr hwell.databaseName⟩
  exact ⟨hnames, rfl⟩

/-- With filters and a cron expression, a request is refused for its names as a job is. -/
theorem compile_eq_error_onNames_iff {cron : String} (hfilters : r.filters.getD [] ≠ [])
    (hcron : r.cron = .ok cron) :
    r.compile t th = .error e ∧ e.OnNames ↔ requireNames r.jobName r.databaseName = .error e := by
  have hjob := definition_eq_ok_iff.mpr ⟨cron, hcron, rfl⟩
  rw [compile, hjob]
  exact Job.compile_eq_error_onNames_iff hfilters

end Request
end Job
end RetentionJobs
