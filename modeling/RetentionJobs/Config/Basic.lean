import RetentionJobs.Error
import RetentionJobs.Files.Path
import RetentionJobs.Job.Thresholds
import RetentionJobs.Text.Blank
import RetentionJobs.Text.Decimal
/-! The configuration: its sections with their defaults, the check of its minimums, and the place
of the outbox. -/
namespace RetentionJobs

inductive Backend where
  /-- Nowhere: they are acknowledged only. -/
  | none
  | sqlite
  deriving DecidableEq, Repr

namespace Backend

def name : Backend → String
  | none => "none"
  | sqlite => "sqlite"

/-- The backend of a name, in any mix of cases and with blanks around it. -/
def ofName? (text : String) : Option Backend :=
  let word := String.ofList ((Text.trim text.toList).map Char.toLower)
  if word = "none" ∨ word = "noop" then some none
  else if word = "sqlite" then some sqlite
  else Option.none

end Backend

structure GatewaySettings where
  port : UInt16 := 3000
  host : String := "127.0.0.1"
  /-- Whether the gateway may listen on an address that is no loopback address. -/
  allowPublicBind : Bool := false
  /-- The origins that other sites may call from. -/
  corsOrigins : List String := []
  deriving DecidableEq, Repr

structure RepositorySettings where
  backend : Backend := .none
  path : Option String := none
  deriving DecidableEq, Repr

structure Config where
  dataDir : String := ""
  configPath : String := ""
  retention : Job.Thresholds := {}
  gateway : GatewaySettings := {}
  repository : RepositorySettings := {}
  deriving DecidableEq, Repr

/-- The outbox is where the settings say, and in the data directory if they do not. -/
def RepositorySettings.outboxPath (r : RepositorySettings) (dataDir : String) : String :=
  match r.path with
  | some path => path
  | none => Path.join dataDir "statements.db"

namespace Config

def outboxPath (c : Config) : String := c.repository.outboxPath c.dataDir

def notPositive (key : String) (value : Int) : ConfigError :=
  .validation ("retention." ++ key ++ " must be positive, got " ++ Text.intText value)

/-- Refuses minimums that would let a job delete everything at once. -/
def validate (c : Config) : Except ConfigError Unit :=
  if c.retention.minDays ≤ 0 then .error (notPositive "min_days" c.retention.minDays)
  else if c.retention.minLimit ≤ 0 then .error (notPositive "min_limit" c.retention.minLimit)
  else .ok ()

theorem validate_eq_ok_iff {c : Config} :
    c.validate = .ok () ↔ 0 < c.retention.minDays ∧ 0 < c.retention.minLimit := by
  unfold validate
  split
  · simp only [reduceCtorEq, false_iff]; omega
  · split
    · simp only [reduceCtorEq, false_iff]; omega
    · simp only [true_iff]; omega

end Config
end RetentionJobs
