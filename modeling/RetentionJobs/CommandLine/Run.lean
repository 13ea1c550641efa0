import RetentionJobs.CommandLine.Command
import RetentionJobs.Config.Load
import RetentionJobs.Gateway.Start
import RetentionJobs.Job.Decode
/-! Running a command on the files around it. Nothing is printed unless the command succeeds, and a
gateway goes no further than to the address that it may listen on. -/
namespace RetentionJobs.CommandLine

/-- What a command has to do with besides its arguments and the configuration. -/
structure Surroundings where
  volume : Volume
  input : String := ""

inductive Outcome where
  /-- The text for the standard output, and the notes for the standard error. -/
  | printed (output notes : String)
  | listen (address : Gateway.SocketAddress)
  deriving DecidableEq, Repr

/-- The registration of the job that a JSON text requests. -/
def compileJson (th : Job.Thresholds) (text : String) : Except Failure Job.Compiled :=
  match Job.Request.ofJson text with
  | .error _ => .error (.other "parse job definition JSON")
  | .ok r => (r.compile {} th).mapError .compile

/-- The text of a job, where a hyphen stands for the standard input. -/
def jobText (file : String) (s : Surroundings) : Except Failure String :=
  if Path.same file "-" then .ok s.input
  else match s.volume.read? file with
    | none => .error (.other ("read job definition from " ++ file))
    | some text => .ok text

def note (x : Job.Adjustment) : String :=
  let requested := match x.requested with
    | none => "unset"
    | some n => Text.intText n
  "note: " ++ x.field ++ " raised from " ++ requested ++ " to " ++
    Text.intText x.applied ++ "\n"

def compileFile (c : Config) (file : String) (s : Surroundings) : Except Failure Outcome := do
  let text ← jobText file s
  let job ← compileJson c.retention text
  return .printed (job.query ++ "\n") (String.join (job.adjustments.map note))

def normalizeExpression (expression : String) (seconds : Bool) : Except Failure Outcome :=
  match Cron.normalizeWith seconds expression with
  | .error e => .error (.compile (.invalidCron e.expression e.refusal.reason))
  | .ok text => .ok (.printed (text ++ "\n") "")

def entry (s : Outbox.Submitted) : String :=
  "- " ++ s.id ++ " | " ++ s.submittedAt.render ++ "\n    " ++ s.statement ++ "\n"

def listing (rows : List Outbox.Submitted) : String :=
  if rows.isEmpty then "No submitted statements yet.\n"
  else
    "Submitted statements (" ++ Text.natText rows.length ++ "):\n" ++ String.join (rows.map entry)

/-- Lists the configured outbox, which is made if it is missing. -/
def listStatements (c : Config) (v : Volume) : Except Failure Outcome :=
  match c.repository.backend with
  | .none => .error (.other "statement outbox requires [repository] backend = \"sqlite\"")
  | .sqlite =>
    match Outbox.openAt v c.outboxPath with
    | (.error e, _) => .error (.repository e)
    | (.ok handle, v) =>
      match handle.list v with
      | .error e => .error (.repository e)
      | .ok rows => .ok (.printed (listing rows) "")

/-- The address that the gateway may listen on, whose host and port are the configured ones unless
others are given. -/
def gatewayAddress (c : Config) (port : Option UInt16) (host : Option String) :
    Except Failure Gateway.SocketAddress :=
  Gateway.bindAddress (host.getD c.gateway.host) (port.getD c.gateway.port)
    c.gateway.allowPublicBind

def filesRead (command : Command) (c : Config) : List String :=
  match command with
  | .compile file => [file]
  | .statements => [c.outboxPath]
  | .gateway .. | .normalize .. => []

def run (command : Command) (c : Config) (s : Surroundings) : Except Failure Outcome :=
  match command with
  | .gateway port host => (gatewayAddress c port host).map .listen
  | .compile file => compileFile c file s
  | .normalize expression seconds => normalizeExpression expression seconds
  | .statements => listStatements c s.volume

end RetentionJobs.CommandLine
