import RetentionJobs.Gateway.Http
/-! Which other sites may call the gateway from a browser. -/
namespace RetentionJobs.Gateway

/-- Whether a text can be the value of a header: visible ASCII characters, spaces and tabs. -/
def isHeaderValue (s : String) : Bool :=
  s.toList.all (fun c => c == '\t' || (0x20 ≤ c.toNat && c.toNat < 0x7F))

structure Cors where
  origins : List String
  deriving DecidableEq, Repr

/-- An asterisk is no origin, and no gateway is made of a list with one. -/
inductive CorsFault where
  | wildcard
  deriving DecidableEq, Repr

namespace Cors

/-- The sharing that a list of origins asks for: none for the empty list. Texts that can be no
header are passed over. -/
def ofOrigins (origins : List String) : Except CorsFault (Option Cors) :=
  if origins.isEmpty then .ok none
  else
    let legal := origins.filter isHeaderValue
    if legal.contains "*" then .error .wildcard else .ok (some ⟨legal⟩)

/-- The header that shares a response with the origin of its request, if that is listed. -/
def headers (c : Cors) (r : Request) : List (String × String) :=
  match r.header? "origin" with
  | none => []
  | some origin =>
    if c.origins.contains origin then [("access-control-allow-origin", origin)] else []

def preflight (c : Cors) (r : Request) : Response where
  status := 200
  headers := c.headers r ++
    [("access-control-allow-methods", "GET,POST"), ("access-control-allow-headers", "content-type")]

/-- Answers a preflight, and shares the answers to other requests with the listed origins. -/
def wrap {σ : Type} (c : Cors) (r : Request) (answer : σ → Response × σ) (s : σ) : Response × σ :=
  if r.method = "OPTIONS" then (c.preflight r, s)
  else
    let (response, s) := answer s
    ({ response with headers := response.headers ++ c.headers r }, s)

end Cors
end RetentionJobs.Gateway
