import RetentionJobs.Config.Basic
/-! Settings from the environment. A value that cannot be used changes nothing, but where a setting
has two variables it keeps the second one from being read. -/
namespace RetentionJobs

abbrev Environment := String → Option String

namespace Config

def variableNames : List String :=
  ["PURGECRON_GATEWAY_PORT", "PORT", "PURGECRON_GATEWAY_HOST", "HOST", "PURGECRON_MIN_DAYS",
    "PURGECRON_MIN_LIMIT", "PURGECRON_REPOSITORY"]

/-- The first of two variables that is set. -/
def firstSet (env : Environment) (name fallback : String) : Option String :=
  match env name with
  | some v => some v
  | none => env fallback

/-- Applies `use` to the value of a variable, if it is set and can be read. -/
def override {α : Type} (value : Option String) (read : String → Option α)
    (use : Config → α → Config) (c : Config) : Config :=
  match value.bind read with
  | none => c
  | some a => use c a

def nonEmpty? (s : String) : Option String := if s.isEmpty then none else some s

/-- The configuration with the settings that the environment makes. -/
def applyEnvironment (env : Environment) (c : Config) : Config :=
  let c := override (firstSet env "PURGECRON_GATEWAY_PORT" "PORT")
    (fun s => Text.readPort? s.toList) (fun c port => { c with gateway.port := port }) c
  let c := override (firstSet env "PURGECRON_GATEWAY_HOST" "HOST") nonEmpty?
    (fun c host => { c with gateway.host := host }) c
  let c := override (env "PURGECRON_MIN_DAYS") (fun s => Text.readWord? s.toList)
    (fun c days => { c with retention.minDays := days }) c
  let c := override (env "PURGECRON_MIN_LIMIT") (fun s => Text.readWord? s.toList)
    (fun c limit => { c with retention.minLimit := limit }) c
  override (env "PURGECRON_REPOSITORY") Backend.ofName?
    (fun c backend => { c with repository.backend := backend }) c

end Config
end RetentionJobs
