import RetentionJobs.Job.Compile
/-! A job as it is requested: its times are given by an expression or field by field. -/
namespace RetentionJobs.Job

structure Request where
  jobName : String := ""
  cronExpression : Option String := none
  schedule : Option Cron.Schedule := none
  databaseName : String := ""
  schema : String := ""
  table : String := ""
  limit : Option Int := none
  filters : Option (List Filter) := none
  deriving DecidableEq, Repr

namespace Request

/-- The expression if there is one, and otherwise the formatted schedule, with a second exactly when
the schedule has one. -/
def cron (r : Request) : Except CompileError String :=
  match r.cronExpression, r.schedule with
  | some expression, _ => .ok expression
  | none, some s =>
    (Cron.format s s.second.isSome).mapError (fun e => .invalidCron e.expression e.refusal.reason)
  | none, none => .error (.invalidCron "" "either cronExpression or schedule is required")

/-- The job that is asked for. Absent filters are no filters. -/
def definition (r : Request) : Except CompileError Definition :=
  match r.cron with
  | .error e => .error e
  | .ok cron => .ok
    { jobName := r.jobName, cronExpression := cron, databaseName := r.databaseName,
      schema := r.schema, table := r.table, limit := r.limit, filters := r.filters.getD [] }

def compile (t : Template) (th : Thresholds) (r : Request) : Except CompileError Compiled :=
  match r.definition with
  | .error e => .error e
  | .ok job => Job.compile t th job

end Request
end RetentionJobs.Job
