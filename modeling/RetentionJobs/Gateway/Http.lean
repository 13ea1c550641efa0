import RetentionJobs.Json.Value
import RetentionJobs.Text.Blank
import RetentionJobs.Text.Decimal
/-! Requests and responses. -/
namespace RetentionJobs.Gateway
open RetentionJobs.Text

structure Resource where
  path : String
  query : String := ""
  deriving DecidableEq, Repr

namespace Resource

def isPathChar (c : Char) : Bool :=
  let n := c.toNat
  n == 0x21 || n == 0x22 || (0x24 ≤ n && n ≤ 0x3B) || n == 0x3D || (0x40 ≤ n && n ≤ 0x5F) ||
  (0x61 ≤ n && n ≤ 0x7E) || 0x7F ≤ n

def isQueryChar (c : Char) : Bool :=
  let n := c.toNat
  n == 0x21 || (0x24 ≤ n && n ≤ 0x3B) || n == 0x3D || 0x3F ≤ n

/-- What follows the name of the host in a target that starts with a scheme. -/
def afterHost? (target : List Char) : Option (List Char) :=
  let strip (scheme : String) : Option (List Char) :=
    if (target.take scheme.length).map Char.toLower = scheme.toList
    then some (target.drop scheme.length) else none
  match (strip "http://").or (strip "https://") with
  | none => none
  | some cs =>
    let isEnd (c : Char) : Bool := c == '/' || c == '?' || c == '#'
    match cs.takeWhile (!isEnd ·), cs.dropWhile (!isEnd ·) with
    | [], _ => none
    | _, '/' :: rest => some ('/' :: rest)
    | _, rest => some ('/' :: rest)

/-- The resource of a target, which starts with a slash, names a host before it, or is an asterisk.
What follows a number sign is dropped. -/
def ofTarget? (target : String) : Option Resource :=
  if target = "*" then some ⟨"*", ""⟩
  else
    let cs := target.toList
    let (cs, _) := splitFirst '#' ((afterHost? cs).getD cs)
    let (path, query) := splitFirst '?' cs
    let query := query.getD []
    if path.head? = some '/' ∧ path.all isPathChar ∧ query.all isQueryChar then
      some ⟨.ofList path, .ofList query⟩
    else none

end Resource

structure Request where
  method : String
  resource : Resource
  headers : List (String × String) := []
  body : String := ""
  deriving DecidableEq, Repr

def lowerCase (s : String) : String := .ofList (s.toList.map Char.toLower)

/-- The first header of a name, in any mix of cases. -/
def Request.header? (r : Request) (name : String) : Option String :=
  (r.headers.find? (fun h => lowerCase h.1 == name)).map (·.2)

structure Response where
  status : Nat
  headers : List (String × String) := []
  body : Option Json := none

namespace Response

def withHeader (r : Response) (name value : String) : Response :=
  { r with headers := r.headers ++ [(name, value)] }

end Response
end RetentionJobs.Gateway
