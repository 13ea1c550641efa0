import RetentionJobs.Error
import RetentionJobs.Cron.Schedule
import RetentionJobs.Job.Name
import RetentionJobs.Job.Statement
import RetentionJobs.Job.Thresholds
/-! Compiling a job: its parts are checked in a fixed order, its numbers are raised to the minimums,
and the statement is put together from what passed. -/
namespace RetentionJobs.Job

/-- Deletes rows whose `column` is older than `days`. -/
structure Filter where
  column : String
  days : Int
  deriving DecidableEq, Repr

structure Definition where
  jobName : String := ""
  cronExpression : String := ""
  databaseName : String := ""
  schema : String := ""
  table : String := ""
  limit : Option Int := none
  filters : List Filter := []
  deriving DecidableEq, Repr

/-- The condition of all filters together, and the days that were raised. -/
structure Condition where
  sql : String
  adjustments : List Adjustment
  deriving DecidableEq, Repr

structure Compiled where
  query : String
  registeredName : String
  cronExpression : String
  adjustments : List Adjustment
  deriving DecidableEq, Repr

/-- Where the number `part` of the filter at `index` stands in the request. -/
def filterField (index : Nat) (part : String) : String :=
  "filters[" ++ Text.natText index ++ "]." ++ part

def requireIdentifier (field value : String) : Except CompileError Unit :=
  (checkIdentifier value).mapError (fun e => .invalidName field value e.reason)

/-- A name inside a literal, of the given field of the request. -/
def requireLiteral (field value : String) : Except CompileError Unit :=
  (checkLiteral value).mapError (fun e => .invalidName field value e.reason)

def requireCron (expression : String) : Except CompileError String :=
  (Cron.normalize expression).mapError (fun e => .invalidCron e.expression e.refusal.reason)

/-- The clauses of the filters from the one at `index` on, with the days that were raised. -/
def clauses (t : Template) (th : Thresholds) :
    Nat → List Filter → Except CompileError (List String × List Adjustment)
  | _, [] => .ok ([], [])
  | index, f :: fs => do
    requireIdentifier (filterField index "column") f.column
    let days := th.days f.days
    let (cs, as) ← clauses t th (index + 1) fs
    return (t.retentionClause f.column days.applied :: cs,
      (days.adjustment? (filterField index "days")).toList ++ as)

/-- All filters joined by `AND`. There has to be one. -/
def condition (t : Template) (th : Thresholds) (filters : List Filter) :
    Except CompileError Condition := do
  if filters.isEmpty then throw .missingFilters
  let (cs, as) ← clauses t th 0 filters
  return ⟨" AND ".intercalate cs, as⟩

/-- The registration of a job, or the first check that it fails: that it has filters, then the names
of job, database, schema and table, then the cron expression, then the columns. -/
def compile (t : Template) (th : Thresholds) (job : Definition) : Except CompileError Compiled := do
  if job.filters.isEmpty then throw .missingFilters
  requireLiteral "jobName" job.jobName
  requireLiteral "databaseName" job.databaseName
  requireIdentifier "schema" job.schema
  requireIdentifier "table" job.table
  let cron ← requireCron job.cronExpression
  let limit := th.limit job.limit
  let cond ← condition t th job.filters
  let purge := t.purge job.schema job.table cond.sql limit.applied
  return {
    query := t.registration job.databaseName job.jobName cron purge
    registeredName := registeredName job.databaseName job.jobName
    cronExpression := cron
    adjustments := (limit.adjustment? "limit").toList ++ cond.adjustments }

end RetentionJobs.Job
