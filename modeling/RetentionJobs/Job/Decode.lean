import RetentionJobs.Job.Request
import RetentionJobs.Json.Reader
/-! A requested job in JSON. Texts that are missing are empty and other missing parts absent, but a
filter needs both its column and its days. -/
namespace RetentionJobs.Job
open Json (Reader Member)

namespace Decode

structure ScheduleParts where
  second : Option (Option String) := none
  minute : Option (Option String) := none
  hour : Option (Option String) := none
  dayOfMonth : Option (Option String) := none
  month : Option (Option String) := none
  dayOfWeek : Option (Option String) := none

structure FilterParts where
  column : Option String := none
  days : Option Int := none

structure RequestParts where
  jobName : Option String := none
  cronExpression : Option (Option String) := none
  schedule : Option (Option Cron.Schedule) := none
  databaseName : Option String := none
  schema : Option String := none
  table : Option String := none
  limit : Option (Option Int) := none
  filters : Option (Option (List Filter)) := none

def field {σ α : Type} (key : String) (get : σ → Option α) (set : σ → α → σ) (r : Reader α) :
    Member σ where
  key
  seen s := (get s).isSome
  read s cs := (r cs).map (fun (a, rest) => (set s a, rest))

def scheduleFields : List (Member ScheduleParts) :=
  [field "second" (·.second) ({ · with second := some · }) (Json.nullable Json.text),
   field "minute" (·.minute) ({ · with minute := some · }) (Json.nullable Json.text),
   field "hour" (·.hour) ({ · with hour := some · }) (Json.nullable Json.text),
   field "dayOfMonth" (·.dayOfMonth) ({ · with dayOfMonth := some · }) (Json.nullable Json.text),
   field "month" (·.month) ({ · with month := some · }) (Json.nullable Json.text),
   field "dayOfWeek" (·.dayOfWeek) ({ · with dayOfWeek := some · }) (Json.nullable Json.text)]

def schedule : Reader Cron.Schedule :=
  Json.record scheduleFields {} (fun s => some
    { second := s.second.join, minute := s.minute.join, hour := s.hour.join,
      dayOfMonth := s.dayOfMonth.join, month := s.month.join, dayOfWeek := s.dayOfWeek.join })

def filterFields : List (Member FilterParts) :=
  [field "column" (·.column) ({ · with column := some · }) Json.text,
   field "days" (·.days) ({ · with days := some · }) Json.integer]

def filter : Reader Filter :=
  Json.record filterFields {} (fun s => do return ⟨← s.column, ← s.days⟩)

def requestFields : List (Member RequestParts) :=
  [field "jobName" (·.jobName) ({ · with jobName := some · }) Json.text,
   field "cronExpression" (·.cronExpression) ({ · with cronExpression := some · })
     (Json.nullable Json.text),
   field "schedule" (·.schedule) ({ · with schedule := some · }) (Json.nullable schedule),
   field "databaseName" (·.databaseName) ({ · with databaseName := some · }) Json.text,
   field "schema" (·.schema) ({ · with schema := some · }) Json.text,
   field "table" (·.table) ({ · with table := some · }) Json.text,
   field "limit" (·.limit) ({ · with limit := some · }) (Json.nullable Json.integer),
   field "filters" (·.filters) ({ · with filters := some · }) (Json.nullable (Json.list filter))]

def request : Reader Request :=
  Json.record requestFields {} (fun s => some
    { jobName := s.jobName.getD "", cronExpression := s.cronExpression.join,
      schedule := s.schedule.join, databaseName := s.databaseName.getD "",
      schema := s.schema.getD "", table := s.table.getD "", limit := s.limit.join,
      filters := s.filters.join })

end Decode

def Request.ofJson (text : String) : Except Json.ReadError Request :=
  Json.readAll Decode.request text

end RetentionJobs.Job
