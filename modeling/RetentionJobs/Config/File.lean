import RetentionJobs.Config.Basic
import RetentionJobs.Toml.Reader
import RetentionJobs.Toml.Writer
/-! The configuration as a TOML document. A key that is missing keeps its default, and a key that is
not known is passed over. -/
namespace RetentionJobs.Config
open Toml (Value)

mutual

/-- Whether all numbers in a value that is passed over are within 128 bits, or finite doubles. -/
def representable : Value → Bool
  | .integer n => -2 ^ 127 ≤ n && n < 2 ^ 128
  | .float cs => !Toml.overflows cs
  | .array items => representableItems items
  | .tables elements => representableElements elements
  | .table _ entries => representableEntries entries
  | _ => true

def representableItems : List Value → Bool
  | [] => true
  | v :: vs => representable v && representableItems vs

def representableElements : List (List (String × Value)) → Bool
  | [] => true
  | es :: ess => representableEntries es && representableElements ess

def representableEntries : List (String × Value) → Bool
  | [] => true
  | (_, v) :: es => representable v && representableEntries es

end

/-- A key of a section that is read into `σ`. -/
structure Key (σ : Type) where
  name : String
  read : σ → Value → Option σ

def readEntries {σ : Type} (keys : List (Key σ)) : σ → Toml.Entries → Option σ
  | s, [] => some s
  | s, (name, v) :: entries =>
    match keys.find? (·.name == name) with
    | some key => do readEntries keys (← key.read s v) entries
    | none => if representable v then readEntries keys s entries else none

/-- Reads the values of a section in the order of its keys. The last ones may be missing. -/
def readPositions {σ : Type} : List (Key σ) → σ → List Value → Option σ
  | key :: keys, s, v :: vs => do readPositions keys (← key.read s v) vs
  | _, s, _ => some s

/-- Reads a section: a table, or an array of its values. A date counts as an empty section. -/
def readSection {σ : Type} (keys : List (Key σ)) (start : σ) : Value → Option σ
  | .table _ entries => readEntries keys start entries
  | .array items => readPositions keys start items
  | .tables elements => readPositions keys start (elements.map (.table .header))
  | .datetime _ => some start
  | _ => none

def word? : Value → Option Int
  | .integer n => if Text.InWord n then some n else none
  | _ => none

def port? : Value → Option UInt16
  | .integer n => if 0 ≤ n ∧ n < 65536 then some (UInt16.ofNat n.toNat) else none
  | _ => none

def text? : Value → Option String
  | .string s => some s
  | _ => none

def flag? : Value → Option Bool
  | .boolean b => some b
  | _ => none

def texts? : Value → Option (List String)
  | .array items => items.mapM text?
  | _ => none

def backendNamed? (name : String) : Option Backend :=
  if name = "none" then some .none else if name = "sqlite" then some .sqlite else none

/-- A backend: its name, or a table with its name as the only key and nothing in it. -/
def backend? : Value → Option Backend
  | .string name => backendNamed? name
  | .table _ [(name, .table _ [])] => backendNamed? name
  | .table _ [(name, .array [])] => backendNamed? name
  | _ => none

def retentionKeys : List (Key Job.Thresholds) :=
  [⟨"min_days", fun s v => (word? v).map ({ s with minDays := · })⟩,
   ⟨"min_limit", fun s v => (word? v).map ({ s with minLimit := · })⟩]

def gatewayKeys : List (Key GatewaySettings) :=
  [⟨"port", fun s v => (port? v).map ({ s with port := · })⟩,
   ⟨"host", fun s v => (text? v).map ({ s with host := · })⟩,
   ⟨"allow_public_bind", fun s v => (flag? v).map ({ s with allowPublicBind := · })⟩,
   ⟨"cors_origins", fun s v => (texts? v).map ({ s with corsOrigins := · })⟩]

def repositoryKeys : List (Key RepositorySettings) :=
  [⟨"backend", fun s v => (backend? v).map ({ s with backend := · })⟩,
   ⟨"path", fun s v => (text? v).map ({ s with path := some · })⟩]

/-! A section that is there takes the default of every key that is missing from it, and a section
that is missing is taken from the default configuration. -/

def emptyRetention : Job.Thresholds where
  minDays := 60
  minLimit := 100

def emptyGateway : GatewaySettings where
  port := 3000
  host := "127.0.0.1"
  allowPublicBind := false
  corsOrigins := []

def emptyRepository : RepositorySettings where
  backend := .none
  path := none

def sections : List (Key Config) :=
  [⟨"retention", fun s v =>
      (readSection retentionKeys emptyRetention v).map ({ s with retention := · })⟩,
   ⟨"gateway", fun s v => (readSection gatewayKeys emptyGateway v).map ({ s with gateway := · })⟩,
   ⟨"repository", fun s v =>
      (readSection repositoryKeys emptyRepository v).map ({ s with repository := · })⟩]

def ofToml? (text : String) : Option Config := do
  readEntries sections {} (← Toml.read text)

def keyLine (key : String) (value : List Char) : String := key ++ " = " ++ .ofList value ++ "\n"

/-- The document of a configuration. Its directory is not part of it. -/
def toToml (c : Config) : String :=
  "[retention]\n" ++
    keyLine "min_days" (Text.decimal c.retention.minDays) ++
    keyLine "min_limit" (Text.decimal c.retention.minLimit) ++
  "\n[gateway]\n" ++
    keyLine "port" (Text.digits c.gateway.port.toNat) ++
    keyLine "host" (Toml.quoted c.gateway.host) ++
    keyLine "allow_public_bind" (if c.gateway.allowPublicBind then "true" else "false").toList ++
    keyLine "cors_origins" (Toml.quotedArray c.gateway.corsOrigins) ++
  "\n[repository]\n" ++
    keyLine "backend" (Toml.quoted c.repository.backend.name) ++
    (match c.repository.path with
     | none => ""
     | some path => keyLine "path" (Toml.quoted path))

end RetentionJobs.Config
