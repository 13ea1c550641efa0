import RetentionJobs.Proofs.Job.Compilation
/-! Which jobs share a registered name. The hyphen between database and job may stand inside of
both, so the name does not tell where the database ends. -/
namespace RetentionJobs.Job

/-- The second pair is the first one with the front of the job, up to one of its hyphens, moved to
the end of the database. -/
def Regroups (database job database' job' : String) : Prop :=
  ∃ moved, database' = database ++ "-" ++ moved ∧ job = moved ++ "-" ++ job'

/-- The pairs are the same up to the hyphen that separates them. -/
def SharesName (database job database' job' : String) : Prop :=
  (database = database' ∧ job = job') ∨ Regroups database job database' job' ∨
    Regroups database' job' database job

theorem registeredName_eq_iff_append {database job database' job' : String} :
    registeredName database job = registeredName database' job' ↔
      database.toList ++ '-' :: job.toList = database'.toList ++ '-' :: job'.toList := by
  have htext : ∀ database job : String, (registeredName database job).toList =
      (database.toList ++ '-' :: job.toList) ++ "-job".toList := by
    simp [registeredName]
  rw [← String.toList_inj, htext, htext, List.append_left_inj]

theorem Regroups.registeredName_eq {database job database' job' : String}
    (h : Regroups database job database' job') :
    registeredName database job = registeredName database' job' := by
  obtain ⟨moved, rfl, rfl⟩ := h
  simp [registeredName_eq_iff_append]

/-- What the longer database has in excess of the shorter one is empty or was moved. -/
theorem eq_or_regroups_of_append {database job database' job' : String} {excess : List Char}
    (hdatabase : database'.toList = database.toList ++ excess)
    (hjob : '-' :: job.toList = excess ++ '-' :: job'.toList) :
    (database = database' ∧ job = job') ∨ Regroups database job database' job' := by
  cases excess with
  | nil =>
    have hjob : job.toList = job'.toList := by simpa using hjob
    have hdatabase : database'.toList = database.toList := by simpa using hdatabase
    exact .inl ⟨(String.toList_inj.mp hdatabase).symm, String.toList_inj.mp hjob⟩
  | cons c moved =>
    -- the excess begins with the hyphen that separated the shorter database
    obtain ⟨rfl, hmoved⟩ : '-' = c ∧ job.toList = moved ++ '-' :: job'.toList := by
      simpa using hjob
    refine .inr ⟨.ofList moved, String.toList_inj.mp ?_, String.toList_inj.mp ?_⟩
    · simp [hdatabase]
    · simp [hmoved]

theorem registeredName_eq_iff {database job database' job' : String} :
    registeredName database job = registeredName database' job' ↔
      SharesName database job database' job' := by
  constructor
  · intro h
    obtain ⟨excess, hdatabase, hjob⟩ | ⟨excess, hdatabase, hjob⟩ :=
      List.append_eq_append_iff.mp (registeredName_eq_iff_append.mp h)
    · obtain heq | hmoved := eq_or_regroups_of_append hdatabase hjob
      · exact .inl heq
      · exact .inr (.inl hmoved)
    · obtain ⟨rfl, rfl⟩ | hmoved := eq_or_regroups_of_append hdatabase hjob
      · exact .inl ⟨rfl, rfl⟩
      · exact .inr (.inr hmoved)
  · rintro (⟨rfl, rfl⟩ | hmoved | hmoved)
    · rfl
    · exact hmoved.registeredName_eq
    · exact hmoved.registeredName_eq.symm

theorem Regroups.mem_database {database job database' job' : String}
    (h : Regroups database job database' job') : '-' ∈ database'.toList := by
  obtain ⟨moved, rfl, _⟩ := h
  simp

/-- The registered name identifies the job among databases without hyphens. -/
theorem eq_of_registeredName_eq {database job database' job' : String}
    (hdatabase : '-' ∉ database.toList) (hdatabase' : '-' ∉ database'.toList)
    (h : registeredName database job = registeredName database' job') :
    database = database' ∧ job = job' := by
  obtain heq | hmoved | hmoved := registeredName_eq_iff.mp h
  · exact heq
  · exact absurd hmoved.mem_database hdatabase'
  · exact absurd hmoved.mem_database hdatabase

/-- The registered name identifies the job inside of one database. -/
theorem registeredName_injective (database : String) :
    Function.Injective (registeredName database) := by
  intro job job' h
  simpa [registeredName_eq_iff_append, String.toList_inj] using h

/-- Two pairs of names share a registered name exactly when they are equal or differ in the hyphen
that separates them, and so do two jobs that compile. -/
theorem registered_alike_iff :
    (∀ database job database' job', registeredName database job = registeredName database' job' ↔
      SharesName database job database' job') ∧
    ∀ {t t' : Template} {th th' : Thresholds} {job job' : Definition} {c c' : Compiled},
      compile t th job = .ok c → compile t' th' job' = .ok c' →
        (c.registeredName = c'.registeredName ↔
          SharesName job.databaseName job.jobName job'.databaseName job'.jobName) := by
  refine ⟨fun _ _ _ _ => registeredName_eq_iff, ?_⟩
  intro t t' th th' job job' c c' h h'
  obtain ⟨_, _, _, rfl⟩ := compile_eq_ok_iff.mp h
  obtain ⟨_, _, _, rfl⟩ := compile_eq_ok_iff.mp h'
  exact registeredName_eq_iff

/-- A job on the database `database`. -/
def hyphenJob (database job : String) : Definition where
  jobName := job
  cronExpression := "0 3 * * *"
  databaseName := database
  schema := "dbo"
  table := "accounts"
  filters := [⟨"SentAt", 90⟩]

theorem compile_hyphenJob (database job : String) (hdatabase : checkLiteral database = .ok ())
    (hjob : checkLiteral job = .ok ()) :
    compile {} {} (hyphenJob database job) =
      .ok (registrationOf {} {} (hyphenJob database job) "0 3 * * *") := by
  have hcron : Cron.normalize "0 3 * * *" = .ok "0 3 * * *" := by decide +kernel
  have hschema : checkIdentifier "dbo" = .ok () := by decide +kernel
  have htable : checkIdentifier "accounts" = .ok () := by decide +kernel
  have hcolumn : ∀ f ∈ [(⟨"SentAt", 90⟩ : Filter)], checkIdentifier f.column = .ok () := by
    decide +kernel
  have hwell : WellNamed (hyphenJob database job) :=
    ⟨List.cons_ne_nil _ _, hjob, hdatabase, hschema, htable, hcolumn⟩
  exact compile_eq_ok_iff.mpr ⟨hwell, _, hcron, rfl⟩

/-- The jobs `c` of database `a-b` and `b-c` of database `a` share a registered name. -/
theorem hyphenJobs_registered_alike :
    compile {} {} (hyphenJob "a-b" "c") =
        .ok (registrationOf {} {} (hyphenJob "a-b" "c") "0 3 * * *") ∧
      compile {} {} (hyphenJob "a" "b-c") =
        .ok (registrationOf {} {} (hyphenJob "a" "b-c") "0 3 * * *") ∧
      (registrationOf {} {} (hyphenJob "a-b" "c") "0 3 * * *").registeredName =
        (registrationOf {} {} (hyphenJob "a" "b-c") "0 3 * * *").registeredName := by
  have h := compile_hyphenJob "a-b" "c" (by decide +kernel) (by decide +kernel)
  have h' := compile_hyphenJob "a" "b-c" (by decide +kernel) (by decide +kernel)
  exact ⟨h, h', (registered_alike_iff.2 h h').mpr (.inr (.inr ⟨"b", by decide, by decide⟩))⟩

/-- The registered name does not identify the job. -/
theorem registeredName_not_identifying :
    ¬ ∀ database job database' job', checkLiteral database = .ok () → checkLiteral job = .ok () →
      checkLiteral database' = .ok () → checkLiteral job' = .ok () →
      registeredName database job = registeredName database' job' →
        database = database' ∧ job = job' := by
  intro h
  have hsame := h "a-b" "c" "a" "b-c" (by decide +kernel) (by decide +kernel) (by decide +kernel)
    (by decide +kernel) (by decide +kernel)
  exact absurd hsame.2 (by decide)

end RetentionJobs.Job
