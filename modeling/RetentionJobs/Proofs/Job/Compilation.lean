import Mathlib.Data.List.Basic
import RetentionJobs.Job.Request
import RetentionJobs.Proofs.Job.Names
import RetentionJobs.Proofs.Outcome
/-! When a job compiles, and what it compiles to: every part passes its own check, and the
registration is then a function of the parts. -/
namespace RetentionJobs.Job
open RetentionJobs.Outcome

/-- The names of a job and its filters are well-formed. Its cron expression is not looked at. -/
structure WellNamed (job : Definition) : Prop where
  filters : job.filters ≠ []
  jobName : checkLiteral job.jobName = .ok ()
  databaseName : checkLiteral job.databaseName = .ok ()
  schema : checkIdentifier job.schema = .ok ()
  table : checkIdentifier job.table = .ok ()
  columns : ∀ f ∈ job.filters, checkIdentifier f.column = .ok ()

/-- The clauses of a list of filters. -/
def clausesOf (t : Template) (th : Thresholds) (filters : List Filter) : List String :=
  filters.map (fun f => t.retentionClause f.column (th.days f.days).applied)

/-- The days that are raised in the filters from the one at `index` on. -/
def raisedDays (th : Thresholds) (index : Nat) (filters : List Filter) : List Adjustment :=
  (filters.zipIdx index).flatMap (fun p =>
    ((th.days p.1.days).adjustment? (filterField p.2 "days")).toList)

/-- The registration of a job whose cron expression has the normal form `cron`. -/
def registrationOf (t : Template) (th : Thresholds) (job : Definition) (cron : String) :
    Compiled where
  query := t.registration job.databaseName job.jobName cron
    (t.purge job.schema job.table (" AND ".intercalate (clausesOf t th job.filters))
      (th.limit job.limit).applied)
  registeredName := registeredName job.databaseName job.jobName
  cronExpression := cron
  adjustments := ((th.limit job.limit).adjustment? "limit").toList ++ raisedDays th 0 job.filters

variable {t : Template} {th : Thresholds}

theorem clauses_eq_ok_iff {index : Nat} {filters : List Filter} {cs : List String}
    {as : List Adjustment} :
    clauses t th index filters = .ok (cs, as) ↔
      (∀ f ∈ filters, checkIdentifier f.column = .ok ()) ∧ cs = clausesOf t th filters ∧
        as = raisedDays th index filters := by
  induction filters generalizing index cs as with
  | nil => simp [clauses, clausesOf, raisedDays, eq_comm]
  | cons f filters ih =>
    simp only [clauses, requireIdentifier, bind_eq_ok_iff, mapError_eq_ok_iff, Prod.exists, ih]
    constructor
    · rintro ⟨_, hcolumn, _, _, ⟨hcolumns, rfl, rfl⟩, h⟩
      obtain ⟨rfl, rfl⟩ := Prod.mk.inj (Except.ok.inj h)
      exact ⟨by simpa [hcolumn] using hcolumns, rfl, rfl⟩
    · rintro ⟨hcolumns, rfl, rfl⟩
      have hcolumn := hcolumns f List.mem_cons_self
      exact ⟨(), hcolumn, _, _, ⟨fun g hg => hcolumns g (List.mem_cons_of_mem f hg), rfl, rfl⟩, rfl⟩

theorem condition_eq_ok_iff {filters : List Filter} {cond : Condition} :
    condition t th filters = .ok cond ↔
      filters ≠ [] ∧ (∀ f ∈ filters, checkIdentifier f.column = .ok ()) ∧
        cond = ⟨" AND ".intercalate (clausesOf t th filters), raisedDays th 0 filters⟩ := by
  cases filters with
  | nil =>
    have herror : condition t th [] = .error .missingFilters := rfl
    simp [herror]
  | cons f fs =>
    simp only [condition, List.isEmpty_cons, Bool.false_eq_true, if_false, bind_eq_ok_iff,
      Prod.exists, clauses_eq_ok_iff]
    constructor
    · rintro ⟨_, _, ⟨hcolumns, rfl, rfl⟩, h⟩
      exact ⟨List.cons_ne_nil f fs, hcolumns, (Except.ok.inj h).symm⟩
    · rintro ⟨_, hcolumns, rfl⟩
      exact ⟨_, _, ⟨hcolumns, rfl, rfl⟩, rfl⟩

/-- The first bad column is named by its place. -/
theorem clauses_eq_error_iff {index : Nat} {filters : List Filter} {e : CompileError} :
    clauses t th index filters = .error e ↔
      ∃ front f back fault, filters = front ++ f :: back ∧
        (∀ g ∈ front, checkIdentifier g.column = .ok ()) ∧ checkIdentifier f.column = .error fault ∧
        e = .invalidName (filterField (index + front.length) "column") f.column fault.reason := by
  induction filters generalizing index with
  | nil => simp [clauses]
  | cons f filters ih =>
    simp only [clauses, requireIdentifier, bind_eq_error_iff, mapError_eq_error_iff,
      mapError_eq_ok_iff]
    constructor
    · rintro (⟨fault, hfault, rfl⟩ | ⟨_, hcolumn, hrest | ⟨_, _, hdone⟩⟩)
      · exact ⟨[], f, filters, fault, rfl, by simp, hfault, rfl⟩
      · obtain ⟨front, g, back, fault, rfl, hfront, hfault, rfl⟩ := ih.mp hrest
        refine ⟨f :: front, g, back, fault, rfl, List.forall_mem_cons.mpr ⟨hcolumn, hfront⟩, hfault,
          ?_⟩
        rw [List.length_cons, Nat.add_right_comm, Nat.add_assoc]
      · cases hdone
    · rintro ⟨front, g, back, fault, hfilters, hfront, hfault, rfl⟩
      cases front with
      | nil =>
        obtain ⟨rfl, rfl⟩ := List.cons.inj hfilters
        exact .inl ⟨fault, hfault, rfl⟩
      | cons f' front =>
        obtain ⟨rfl, rfl⟩ := List.cons.inj hfilters
        obtain ⟨hcolumn, hfront⟩ := List.forall_mem_cons.mp hfront
        refine .inr ⟨(), hcolumn, .inl (ih.mpr ⟨front, g, back, fault, rfl, hfront, hfault, ?_⟩)⟩
        rw [List.length_cons, Nat.add_right_comm, Nat.add_assoc]

theorem condition_eq_error_iff {filters : List Filter} (hne : filters ≠ []) {e : CompileError} :
    condition t th filters = .error e ↔
      ∃ front f back fault, filters = front ++ f :: back ∧
        (∀ g ∈ front, checkIdentifier g.column = .ok ()) ∧ checkIdentifier f.column = .error fault ∧
        e = .invalidName (filterField front.length "column") f.column fault.reason := by
  have hempty : filters.isEmpty = false := by simpa using hne
  have hclauses : condition t th filters = .error e ↔ clauses t th 0 filters = .error e := by
    simp only [condition, hempty, Bool.false_eq_true, if_false, bind_eq_error_iff]
    constructor
    · rintro (h | ⟨_, _, h⟩)
      · exact h
      · cases h
    · exact .inl
  simpa only [Nat.zero_add] using hclauses.trans clauses_eq_error_iff

/-- A job compiles when its names are well-formed and its cron expression is accepted, and it
compiles to its registration. -/
theorem compile_eq_ok_iff {job : Definition} {c : Compiled} :
    compile t th job = .ok c ↔
      WellNamed job ∧ ∃ cron, Cron.normalize job.cronExpression = .ok cron ∧
        c = registrationOf t th job cron := by
  cases hfilters : job.filters with
  | nil =>
    have herror : compile t th job = .error .missingFilters := by
      rw [compile, hfilters]
      rfl
    rw [herror]
    simp only [reduceCtorEq, false_iff, not_and]
    exact fun hwell => absurd hfilters hwell.filters
  | cons f fs =>
    have hne : job.filters ≠ [] := hfilters ▸ List.cons_ne_nil f fs
    have hempty : job.filters.isEmpty = false := by rw [hfilters, List.isEmpty_cons]
    simp only [compile, hempty, Bool.false_eq_true, if_false, bind_eq_ok_iff, requireLiteral,
      requireIdentifier, requireCron, mapError_eq_ok_iff, condition_eq_ok_iff]
    constructor
    · rintro ⟨_, hjob, _, hdatabase, _, hschema, _, htable, cron, hcron, _, ⟨_, hcolumns, rfl⟩, h⟩
      exact ⟨⟨hne, hjob, hdatabase, hschema, htable, hcolumns⟩, cron, hcron, (Except.ok.inj h).symm⟩
    · rintro ⟨hwell, cron, hcron, rfl⟩
      exact ⟨(), hwell.jobName, (), hwell.databaseName, (), hwell.schema, (), hwell.table, cron,
        hcron, _, ⟨hne, hwell.columns, rfl⟩, rfl⟩

/-- A request that compiles asks for a job that compiles. -/
theorem Request.exists_job_of_compile {r : Request} {c : Compiled} (h : r.compile t th = .ok c) :
    ∃ job, r.definition = .ok job ∧ Job.compile t th job = .ok c := by
  unfold Request.compile at h
  cases hjob : r.definition with
  | error e => simp [hjob] at h
  | ok job => exact ⟨job, rfl, by simpa [hjob] using h⟩

/-- The job that is asked for has the parts of the request. -/
theorem Request.definition_eq_ok_iff {r : Request} {job : Definition} :
    r.definition = .ok job ↔ ∃ cron, r.cron = .ok cron ∧
      job = { jobName := r.jobName, cronExpression := cron, databaseName := r.databaseName,
              schema := r.schema, table := r.table, limit := r.limit,
              filters := r.filters.getD [] } := by
  unfold Request.definition
  cases r.cron <;> simp [eq_comm]

end RetentionJobs.Job
