import RetentionJobs.Config.Basic
import RetentionJobs.Gateway.Address
import RetentionJobs.Gateway.Router
import RetentionJobs.Outbox.Store
/-! Starting the gateway: the address to listen on, then the repository and what is announced. -/
namespace RetentionJobs

structure OpenRepository where
  {State : Type}
  repository : Repository State
  state : State

namespace OpenRepository

def ofConfig (c : Config) (volume : Volume) (tickets : Nat → Outbox.Ticket) :
    Except RepositoryError OpenRepository :=
  match c.repository.backend with
  | .none => .ok ⟨.discarding Unit, ()⟩
  | .sqlite =>
    match Outbox.openAt volume c.outboxPath with
    | (.error e, _) => .error e
    | (.ok handle, volume) => .ok ⟨Outbox.repository, { handle, volume, tickets }⟩

end OpenRepository

namespace Gateway

def hostAndPort (host : String) (port : UInt16) : String :=
  host ++ ":" ++ Text.natText port.toNat

def refusal (host : String) : String :=
  "Refusing to bind to " ++ host ++ ": the job gateway has no authentication.\n" ++
  "Fix: use --host 127.0.0.1 (default), or set\n" ++
  "[gateway] allow_public_bind = true in config.toml behind an authenticating proxy."

/-- The address to listen on. A public one has to be allowed. -/
def bindAddress (host : String) (port : UInt16) (allowPublic : Bool) :
    Except Failure SocketAddress :=
  if isPublicHost host ∧ !allowPublic then .error (.other (refusal host))
  else match SocketAddress.ofText? (hostAndPort host port) with
    | none => .error (.other "parse gateway bind address")
    | some address => .ok address

def banner (host : String) (port : UInt16) (t : Job.Thresholds) (repository : String) : String :=
  "Gateway listening on " ++ hostAndPort host port ++ "\n" ++
  "  POST /jobs\n" ++
  "  POST /jobs/preview\n" ++
  "  GET  /jobs?jobName=..&databaseName=..\n" ++
  "  GET  /health\n" ++
  "  Minimums: " ++ Text.intText t.minDays ++ " days, " ++
    Text.intText t.minLimit ++ " rows\n" ++
  "  Repository: " ++ repository ++ "\n"

inductive StartFault where
  | repository (cause : RepositoryError)
  | cors (fault : CorsFault)
  deriving DecidableEq, Repr

structure Running where
  {State : Type}
  banner : String
  service : Service State
  state : State

def start (host : String) (port : UInt16) (c : Config) (volume : Volume)
    (tickets : Nat → Outbox.Ticket) : Except StartFault Running :=
  match OpenRepository.ofConfig c volume tickets with
  | .error e => .error (.repository e)
  | .ok r =>
    match Service.build {} c.retention r.repository c.gateway.corsOrigins with
    | .error e => .error (.cors e)
    | .ok service =>
      .ok ⟨banner host port c.retention r.repository.name, service, r.state⟩

end Gateway
end RetentionJobs
