import RetentionJobs.Gateway.Cors
import RetentionJobs.Gateway.MediaType
import RetentionJobs.Job.Decode
import RetentionJobs.Repository
import RetentionJobs.Text.Form
/-! The gateway as a function from requests to responses over the state of a repository. -/
namespace RetentionJobs.Gateway
open RetentionJobs.Text

/-- A gateway over a repository with state `σ`. -/
structure Service (σ : Type) where
  template : Job.Template := {}
  thresholds : Job.Thresholds
  repository : Repository σ
  cors : Option Cors := none

def maxBodyBytes : Nat := 65536

inductive Endpoint where
  | health
  | lookup
  | create
  | preview
  deriving DecidableEq, Repr

inductive Route where
  | health
  | jobs
  | preview
  deriving DecidableEq, Repr

namespace Route

def ofPath? (path : String) : Option Route :=
  if path = "/health" then some health
  else if path = "/jobs" then some jobs
  else if path = "/jobs/preview" then some preview
  else none

/-- The endpoint for a method. A request for the head of an answer goes where the answer is. -/
def endpoint? (route : Route) (method : String) : Option Endpoint :=
  let get := method = "GET" ∨ method = "HEAD"
  match route with
  | health => if get then some .health else none
  | jobs => if get then some .lookup else if method = "POST" then some .create else none
  | preview => if method = "POST" then some .preview else none

/-- The methods that there are endpoints for. -/
def allow : Route → String
  | health => "GET,HEAD"
  | jobs => "GET,HEAD,POST"
  | preview => "POST"

end Route

/-! Bodies. -/

def errorBody (code message : String) : Json :=
  .object [("error", .string code), ("message", .string message)]

def adjustmentBody (x : Job.Adjustment) : Json :=
  .object [("applied", .number x.applied), ("field", .string x.field),
    ("requested", Json.numberOrNull x.requested)]

def compiledBody (c : Job.Compiled) : Json :=
  .object [("adjustments", .array (c.adjustments.map adjustmentBody)),
    ("cronExpression", .string c.cronExpression), ("query", .string c.query),
    ("registeredName", .string c.registeredName)]

def createdBody (c : Job.Compiled) (acknowledgement : Nat) : Json :=
  .object [("acknowledgement", .number acknowledgement),
    ("adjustments", .array (c.adjustments.map adjustmentBody)), ("query", .string c.query),
    ("registeredName", .string c.registeredName)]

/-! Answers. -/

def compileFailed (e : CompileError) : Response :=
  { status := 400, body := some (errorBody e.code e.message) }

def repositoryFailed (e : RepositoryError) : Response :=
  { status := 502, body := some (errorBody "repository_unavailable" e.message) }

def healthAnswer (repository : String) : Response :=
  { status := 200,
    body := some (.object [("repository", .string repository), ("status", .string "ok")]) }

/-- The value of a parameter that has to occur once. -/
def parameter? (pairs : List (String × String)) (name : String) : Option String :=
  match pairs.filter (fun p => p.1 == name) with
  | [(_, value)] => some value
  | _ => none

def lookupAnswer (query : String) : Response :=
  let pairs := Form.pairs query.toList
  match parameter? pairs "jobName", parameter? pairs "databaseName" with
  | some job, some database =>
    match (do
      Job.requireLiteral "jobName" job
      Job.requireLiteral "databaseName" database) with
    | .error e => compileFailed e
    | .ok () =>
      { status := 200,
        body := some (.object
          [("registeredName", .string (Job.registeredName database job))]) }
  | _, _ => { status := 400 }

/-- The requested job in a body of which `allowance` bytes are read, or the status of the
refusal. -/
def readJob (allowance : Nat) (r : Request) : Except Nat Job.Request :=
  if !(r.header? "content-type").any MediaType.isJson then .error 415
  else if allowance < r.body.utf8ByteSize then .error 413
  else match Job.Request.ofJson r.body with
    | .ok job => .ok job
    | .error .malformed => .error 400
    | .error .mismatch => .error 422

/-- How many bytes of a body are read: as many as are declared, and at most the greatest size. A
declaration beyond it is refused. -/
def allowance? (r : Request) : Option Nat :=
  match (r.header? "content-length").bind (fun v => readUnsigned? v.toList) with
  | none => some maxBodyBytes
  | some n =>
    if 18446744073709551616 ≤ n then some maxBodyBytes
    else if maxBodyBytes < n then none
    else some n

namespace Service
variable {σ : Type}

/-- Compiles the job without submitting it. -/
def previewAnswer (g : Service σ) (job : Job.Request) : Response :=
  match job.compile g.template g.thresholds with
  | .error e => compileFailed e
  | .ok c => { status := 200, body := some (compiledBody c) }

/-- Compiles the job and submits its statement once. -/
def createAnswer (g : Service σ) (job : Job.Request) (s : σ) : Response × σ :=
  match job.compile g.template g.thresholds with
  | .error e => (compileFailed e, s)
  | .ok c =>
    match g.repository.submit c.query s with
    | (.error e, s) => (repositoryFailed e, s)
    | (.ok n, s) => ({ status := 201, body := some (createdBody c n) }, s)

def answerAt (g : Service σ) (endpoint : Endpoint) (allowance : Nat) (r : Request) (s : σ) :
    Response × σ :=
  match endpoint with
  | .health => (healthAnswer g.repository.name, s)
  | .lookup => (lookupAnswer r.resource.query, s)
  | .preview =>
    match readJob allowance r with
    | .error status => ({ status }, s)
    | .ok job => (g.previewAnswer job, s)
  | .create =>
    match readJob allowance r with
    | .error status => ({ status }, s)
    | .ok job => g.createAnswer job s

/-- The answer of an endpoint, or a refusal where there is none. Too great a body is refused
before. -/
def limited (g : Service σ) (endpoint : Except Nat Endpoint) (r : Request) (s : σ) : Response × σ :=
  match allowance? r, endpoint with
  | none, _ => ({ status := 413 }, s)
  | some _, .error status => ({ status }, s)
  | some allowance, .ok endpoint => g.answerAt endpoint allowance r s

/-- The answer that is shared with the listed origins. -/
def shared (g : Service σ) (endpoint : Except Nat Endpoint) (r : Request) (s : σ) : Response × σ :=
  match g.cors with
  | none => g.limited endpoint r s
  | some cors => cors.wrap r (g.limited endpoint r) s

/-- The response to a request. A path that is there names its methods when the one that is asked for
has no endpoint, and a request for a head gets no body. -/
def respond (g : Service σ) (r : Request) (s : σ) : Response × σ :=
  let (response, s) := match Route.ofPath? r.resource.path with
    | none => g.shared (.error 404) r s
    | some route =>
      match route.endpoint? r.method with
      | some endpoint => g.shared (.ok endpoint) r s
      | none =>
        let (response, s) := g.shared (.error 405) r s
        (response.withHeader "allow" route.allow, s)
  (if r.method = "HEAD" then { response with body := none } else response, s)

def respondAll (g : Service σ) : List Request → σ → List Response × σ
  | [], s => ([], s)
  | r :: rs, s =>
    let (response, s) := g.respond r s
    let (responses, s) := g.respondAll rs s
    (response :: responses, s)

/-- A gateway that shares its answers with the given origins. -/
def build (template : Job.Template) (thresholds : Job.Thresholds) (repository : Repository σ)
    (corsOrigins : List String) : Except CorsFault (Service σ) :=
  (Cors.ofOrigins corsOrigins).map (fun cors => { template, thresholds, repository, cors })

end Service
end RetentionJobs.Gateway
