import RetentionJobs.Text.Decimal
/-! The SQL text: a condition for each filter, a purge that deletes one batch of rows, and the
statement that registers the purge with the scheduler. -/
namespace RetentionJobs.Job
open RetentionJobs.Text

structure Template where
  tableAlias : String := "om"
  cte : String := "om_cte"
  idColumn : String := "Id"
  timeZone : String := "UTC"
  scheduleFunction : String := "cron.schedule"
  /-- The delimiter around the purge when it is passed as an argument. -/
  dollarQuote : String := "$$"
  deriving DecidableEq, Repr

/-- The name under which the scheduler knows the job. -/
def registeredName (database job : String) : String := database ++ "-" ++ job ++ "-job"

namespace Template

/-- Rows whose `column` is older than `days`. -/
def retentionClause (t : Template) (column : String) (days : Int) : String :=
  t.tableAlias ++ ".\"" ++ column ++ "\" AT TIME ZONE '" ++ t.timeZone ++
    "' < NOW() AT TIME ZONE '" ++ t.timeZone ++ "' - INTERVAL '" ++ intText days ++
    " days'"

/-- Deletes the rows that `condition` selects, at most `limit` of them. -/
def purge (t : Template) (schema table condition : String) (limit : Int) : String :=
  t.dollarQuote ++ " with " ++ t.cte ++ " as (select " ++ t.tableAlias ++ ".\"" ++ t.idColumn ++
    "\" from " ++ schema ++ ".\"" ++ table ++ "\" " ++ t.tableAlias ++ " WHERE " ++ condition ++
    " LIMIT " ++ intText limit ++ ") delete from " ++ schema ++ ".\"" ++ table ++
    "\" " ++ t.tableAlias ++ " where " ++ t.tableAlias ++ ".\"" ++ t.idColumn ++
    "\" in (select \"" ++ t.idColumn ++ "\" from " ++ t.cte ++ ");" ++ t.dollarQuote

/-- Registers `purge` to run on `database` at the times of `cron`. -/
def registration (t : Template) (database job cron purge : String) : String :=
  "SELECT " ++ t.scheduleFunction ++ "('" ++ registeredName database job ++ "', '" ++ cron ++
    "', " ++ purge ++ ", '" ++ database ++ "');"

end Template
end RetentionJobs.Job
