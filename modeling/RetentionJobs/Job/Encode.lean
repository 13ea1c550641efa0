import RetentionJobs.Job.Request
import RetentionJobs.Json.Value
/-! A requested job as JSON. Every part has its member, and one that is absent is null. -/
namespace RetentionJobs.Job

namespace Encode

def orNull {α : Type} (encode : α → Json) : Option α → Json
  | none => .null
  | some a => encode a

def schedule (s : Cron.Schedule) : Json := .object
  [("second", orNull .string s.second), ("minute", orNull .string s.minute),
   ("hour", orNull .string s.hour), ("dayOfMonth", orNull .string s.dayOfMonth),
   ("month", orNull .string s.month), ("dayOfWeek", orNull .string s.dayOfWeek)]

def filter (f : Filter) : Json := .object [("column", .string f.column), ("days", .number f.days)]

def request (r : Request) : Json := .object
  [("jobName", .string r.jobName), ("cronExpression", orNull .string r.cronExpression),
   ("schedule", orNull schedule r.schedule), ("databaseName", .string r.databaseName),
   ("schema", .string r.schema), ("table", .string r.table), ("limit", orNull .number r.limit),
   ("filters", orNull (fun filters => .array (filters.map filter)) r.filters)]

end Encode

def Request.toJson (r : Request) : Json := Encode.request r

end RetentionJobs.Job
