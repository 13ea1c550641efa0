import RetentionJobs.Files.Path
import RetentionJobs.Outbox.Table
/-! Files and directories, among them the databases of outboxes. -/
namespace RetentionJobs

abbrev Location := List String

namespace Location

/-- Follows the parts of a path. Two dots lead to the directory above. -/
def follow (base : Location) : List String → Location
  | [] => base
  | "." :: parts => follow base parts
  | ".." :: parts => follow base.dropLast parts
  | part :: parts => follow (base ++ [part]) parts

end Location

inductive Node where
  | directory
  | text (content : String)
  /-- A database, with its table unless that has been dropped or not been made yet. -/
  | database (table : Option Outbox.Table)

inductive MakeFault where
  | fileExists
  | notADirectory
  deriving DecidableEq, Repr

def MakeFault.message : MakeFault → String
  | fileExists => "File exists (os error 17)"
  | notADirectory => "Not a directory (os error 20)"

structure Volume where
  workingDir : Location := []
  /-- The last entry for a location counts. -/
  nodes : List (Location × Node) := []

namespace Volume

def start (v : Volume) (path : String) : Location :=
  if Path.isAbsolute path then [] else v.workingDir

def locate (v : Volume) (path : String) : Location :=
  Location.follow (v.start path) (Path.components path)

/-- What is at a location. The root and the working directory with all above it are directories. -/
def get? (v : Volume) (loc : Location) : Option Node :=
  match v.nodes.lookup loc with
  | some node => some node
  | none => if loc.isPrefixOf v.workingDir then some .directory else none

/-- Puts a node at a location, in place of what is there. -/
def put (v : Volume) (loc : Location) (node : Node) : Volume :=
  { v with nodes := (loc, node) :: v.nodes.filter (fun e => e.1 != loc) }

def isDirectory (v : Volume) (loc : Location) : Bool :=
  match v.get? loc with
  | some .directory => true
  | _ => false

/-- Follows the parts of a path from the directory `base`, and makes the directories that are
missing. -/
def makeAlong (v : Volume) (base : Location) : List String → Except MakeFault Volume
  | [] => .ok v
  | "." :: parts => makeAlong v base parts
  | ".." :: parts => makeAlong v base.dropLast parts
  | part :: parts =>
    let loc := base ++ [part]
    match v.get? loc with
    | some .directory => makeAlong v loc parts
    | none => makeAlong (v.put loc .directory) loc parts
    | some _ => .error (if parts.isEmpty then .fileExists else .notADirectory)

/-- Makes a directory and all above it that are missing. -/
def makeDirectories (v : Volume) (path : String) : Except MakeFault Volume :=
  v.makeAlong (v.start path) (Path.components path)

/-- Follows the pieces of a path. Whatever a piece follows has to be a directory. -/
def find? (v : Volume) (base : Location) : List String → Option Location
  | [] => some base
  | piece :: pieces =>
    if !v.isDirectory base then none
    else if piece = "" ∨ piece = "." then find? v base pieces
    else if piece = ".." then find? v base.dropLast pieces
    else find? v (base ++ [piece]) pieces

/-- The text of a file. An empty database has an empty file. -/
def read? (v : Volume) (path : String) : Option String :=
  match (v.find? (v.start path) (Path.pieces path)).bind v.get? with
  | some (.text content) => some content
  | some (.database none) => some ""
  | _ => none

/-- Puts a text at a path, after making the directories above it. -/
def write (v : Volume) (path content : String) : Except MakeFault Volume := do
  let v ← match Path.parent? path with
    | none => .ok v
    | some dir => v.makeDirectories dir
  return v.put (v.locate path) (.text content)

end Volume
end RetentionJobs
