import RetentionJobs.Outbox.Volume
import RetentionJobs.Repository
import RetentionJobs.Text.Form
/-! Outboxes in database files: opening one, submitting statements to it and listing them. -/
namespace RetentionJobs.Outbox
open RetentionJobs.Text

inductive Target where
  | file (loc : Location)
  /-- In a database without a file, which ends with the handle. -/
  | detached (table : Option Table)
  deriving DecidableEq, Repr

structure Handle where
  path : String
  target : Target
  deriving DecidableEq, Repr

def databaseError (code : Nat) (text : String) : String :=
  "error returned from database: (code: " ++ natText code ++ ") " ++ text

def cannotOpen : String := databaseError 14 "unable to open database file"
def notADatabase : String := databaseError 26 "file is not a database"
def noTable : String := databaseError 1 "no such table: scheduled_statements"

/-- The file name that a path gives in the database's address. The address ends at the first
question mark, and what follows it are options, among which there is always one that is not
known. -/
def fileName (path : String) : Except String (List Char) :=
  match splitFirst '?' path.toList with
  | (name, none) =>
    match utf8? (percentDecode (utf8Bytes name)) with
    | none => .error "error with configuration: invalid utf-8 sequence"
    | some name =>
      if name.any (·.toNat == 0) then
        .error ("error communicating with database: " ++
          "filename passed to SQLite must not contain nul bytes")
      else .ok name
  | (_, some options) =>
    let options := Form.pairs (options ++ "?mode=rwc".toList)
    let known := ["mode", "cache", "immutable", "vfs"]
    .error ("error with configuration: " ++
      (match options.find? (fun o => !known.contains o.1) with
       | some (key, _) =>
          "unknown query parameter \x60" ++ key ++ "\x60 while parsing connection URL"
       | none => "unknown option value"))

def makeParents (v : Volume) (path : String) : Except RepositoryError Volume :=
  match Path.parent? path with
  | none => .ok v
  | some "" => .ok v
  | some dir =>
    match v.makeDirectories dir with
    | .ok v => .ok v
    | .error e =>
      .error (.connect ("create outbox directory " ++ dir ++ ": " ++ e.message))

/-- Opens the database with the given file name, which is made if it is missing. -/
def connect (v : Volume) (name : List Char) : Except String (Target × Volume) :=
  let path := String.ofList name
  if path = "" ∨ path = ":memory:" then .ok (.detached none, v)
  else
    let loc := v.locate path
    if v.isDirectory loc.dropLast then
      match v.get? loc with
      | some .directory => .error cannotOpen
      | some _ => .ok (.file loc, v)
      | none => .ok (.file loc, v.put loc (.database none))
    else .error cannotOpen

namespace Handle

/-- The table of an outbox, if its file is a database. -/
def table (h : Handle) (v : Volume) : Except String (Option Table) :=
  match h.target with
  | .detached t => .ok t
  | .file loc =>
    match v.get? loc with
    | some (.database t) => .ok t
    | some (.text "") => .ok none
    | none => .ok none
    | some _ => .error notADatabase

def setTable (h : Handle) (t : Option Table) (v : Volume) : Handle × Volume :=
  match h.target with
  | .detached _ => ({ h with target := .detached t }, v)
  | .file loc => (h, v.put loc (.database t))

def ensureTable (h : Handle) (v : Volume) : Except RepositoryError (Handle × Volume) :=
  match h.table v with
  | .error e => .error (.schema e)
  | .ok (some _) => .ok (h, v)
  | .ok none => .ok (h.setTable (some []) v)

def insert (h : Handle) (row : Row) (v : Volume) : Except RepositoryError (Handle × Volume) :=
  match h.table v with
  | .error e => .error (.submit e)
  | .ok none => .error (.submit noTable)
  | .ok (some t) =>
    match t.insert row with
    | .error e => .error (.submit (databaseError 1555 e))
    | .ok t => .ok (h.setTable (some t) v)

/-- All rows, oldest first. -/
def list (h : Handle) (v : Volume) : Except RepositoryError (List Submitted) :=
  match h.table v with
  | .error e => .error (.submit ("list statements: " ++ e))
  | .ok none => .error (.submit ("list statements: " ++ noTable))
  | .ok (some t) => t.list

end Handle

/-- Opens the outbox at a path. Directories above it, its file and its table are made if they are
missing; the directories are made even if the file cannot be opened. -/
def openAt (v : Volume) (path : String) : Except RepositoryError Handle × Volume :=
  match makeParents v path with
  | .error e => (.error e, v)
  | .ok v =>
    match fileName path with
    | .error e => (.error (.connect ("open outbox " ++ path ++ ": " ++ e)), v)
    | .ok name =>
      match connect v name with
      | .error e => (.error (.connect ("open outbox " ++ path ++ ": " ++ e)), v)
      | .ok (target, v) =>
        match Handle.ensureTable ⟨path, target⟩ v with
        | .error e => (.error e, v)
        | .ok (h, v) => (.ok h, v)

/-- The id and the instant of a submission. -/
structure Ticket where
  id : String
  instant : Time.Instant
  deriving DecidableEq, Repr

/-- An outbox in use, with the tickets for its submissions. -/
structure Session where
  handle : Handle
  volume : Volume
  tickets : Nat → Ticket
  used : Nat := 0

namespace Session

def submit (statement : String) (s : Session) : Except RepositoryError Nat × Session :=
  let ticket := s.tickets s.used
  let s' := { s with used := s.used + 1 }
  match s.handle.insert ⟨ticket.id, statement, ticket.instant.render⟩ s.volume with
  | .error e => (.error e, s')
  | .ok (h, v) => (.ok 1, { s' with handle := h, volume := v })

def list (s : Session) : Except RepositoryError (List Submitted) := s.handle.list s.volume

end Session

def repository : Repository Session where
  name := "sqlite"
  submit := Session.submit

end RetentionJobs.Outbox
