/-! The commands, and what the command line may hold at each point of it. -/
namespace RetentionJobs

inductive Command where
  /-- Serve requests, at another address than the configured one if parts of it are given. -/
  | gateway (port : Option UInt16) (host : Option String)
  | compile (file : String)
  /-- Write a cron expression in its normal form, with a second if that is asked for. -/
  | normalize (expression : String) (seconds : Bool)
  | statements
  deriving DecidableEq, Repr

namespace CommandLine

inductive Refusal where
  | help
  | version
  /-- It ends where a command has to follow. -/
  | incomplete
  | unknownCommand
  | unknownArgument
  /-- An option has no value, or an empty path. -/
  | noValue
  | badValue
  | repeated
  | missingArgument
  /-- A flag has a value. -/
  | unexpectedValue
  deriving DecidableEq, Repr

namespace Refusal

/-- Whether something is asked for that can be shown. -/
def isInformation : Refusal → Bool
  | help | version => true
  | _ => false

def message : Refusal → String
  | help | incomplete =>
    "Usage: purgecron <COMMAND>\n\n" ++
    "Commands:\n" ++
    "  gateway [-p, --port <PORT>] [--host <HOST>]\n" ++
    "  compile [-f, --file <FILE>]\n" ++
    "  cron normalize [--seconds] <EXPRESSION>\n" ++
    "  statements\n" ++
    "  help\n"
  | version => "purgecron 0.1.0\n"
  | unknownCommand => "error: unrecognized subcommand\n"
  | unknownArgument => "error: unexpected argument found\n"
  | noValue => "error: a value is required\n"
  | badValue => "error: invalid value\n"
  | repeated => "error: an argument cannot be used multiple times\n"
  | missingArgument => "error: a required argument was not provided\n"
  | unexpectedValue => "error: unexpected value found\n"

end Refusal

/-- The words after which other commands, flags and options are known. -/
inductive Level where
  | top
  | gateway
  | compile
  | cron
  | normalize
  | statements
  | help
  deriving DecidableEq, Repr

inductive Flag where
  | help
  | version
  | seconds
  deriving DecidableEq, Repr

inductive Setting where
  | port
  | host
  | file
  deriving DecidableEq, Repr

inductive Switch where
  | flag (flag : Flag)
  | setting (setting : Setting)
  deriving DecidableEq, Repr

namespace Level

def next? : Level → String → Option Level
  | top, word =>
    if word = "gateway" then some gateway
    else if word = "compile" then some compile
    else if word = "cron" then some cron
    else if word = "statements" then some statements
    else if word = "help" then some help
    else none
  | cron, word =>
    if word = "normalize" then some normalize
    else if word = "help" then some help
    else none
  | _, _ => none

def hasCommands : Level → Bool
  | top | cron => true
  | _ => false

def long? (level : Level) (name : String) : Option Switch :=
  if name = "help" then some (.flag .help)
  else match level with
    | top => if name = "version" then some (.flag .version) else none
    | gateway =>
      if name = "port" then some (.setting .port)
      else if name = "host" then some (.setting .host)
      else none
    | compile => if name = "file" then some (.setting .file) else none
    | normalize => if name = "seconds" then some (.flag .seconds) else none
    | _ => none

def short? (level : Level) (letter : Char) : Option Switch :=
  if letter = 'h' then some (.flag .help)
  else match level with
    | top => if letter = 'V' then some (.flag .version) else none
    | gateway => if letter = 'p' then some (.setting .port) else none
    | compile => if letter = 'f' then some (.setting .file) else none
    | _ => none

end Level
end CommandLine
end RetentionJobs
