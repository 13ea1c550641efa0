/-! The errors of compiling a job, of keeping its statement and of the configuration, each with its
text, and the failure that holds one of them. -/
namespace RetentionJobs

inductive CompileError where
  | invalidCron (expression reason : String)
  | missingFilters
  | invalidName (field value reason : String)
  deriving DecidableEq, Repr

namespace CompileError

/-- A word for programs to tell the errors apart. -/
def code : CompileError → String
  | invalidCron .. => "invalid_cron_format"
  | missingFilters => "missing_filters"
  | invalidName .. => "invalid_identifier"

def message : CompileError → String
  | invalidCron expression reason => "invalid cron expression '" ++ expression ++ "': " ++ reason
  | missingFilters => "at least one retention filter is required"
  | invalidName field value reason => "invalid " ++ field ++ " '" ++ value ++ "': " ++ reason

end CompileError

inductive RepositoryError where
  | connect (text : String)
  | schema (text : String)
  | submit (text : String)
  deriving DecidableEq, Repr

namespace RepositoryError

def message : RepositoryError → String
  | connect text => "connect failed: " ++ text
  | schema text => "schema setup failed: " ++ text
  | submit text => "submit failed: " ++ text

end RepositoryError

inductive ConfigError where
  | validation (text : String)
  deriving DecidableEq, Repr

namespace ConfigError

def message : ConfigError → String
  | validation text => "validation failed: " ++ text

end ConfigError

inductive Failure where
  | compile (error : CompileError)
  | repository (error : RepositoryError)
  | config (error : ConfigError)
  | other (text : String)
  deriving DecidableEq, Repr

namespace Failure

def message : Failure → String
  | compile e => e.message
  | repository e => e.message
  | config e => e.message
  | other text => text

/-- The text of the error inside, after the part of the program that it comes from. -/
def display : Failure → String
  | compile e => "compile: " ++ e.message
  | repository e => "repository: " ++ e.message
  | config e => "config: " ++ e.message
  | other text => text

end Failure
end RetentionJobs
