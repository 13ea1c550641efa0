import RetentionJobs.Text.Blank
/-! Paths as texts: the parts between their slashes, joining, and what comes before the last
part. -/
namespace RetentionJobs.Path
open RetentionJobs.Text

def isAbsolute (path : String) : Bool := path.toList.head? == some '/'

def pieces (path : String) : List String := (cut (· == '/') path.toList).map String.ofList

/-- The parts of a path. Empty parts and single dots count for nothing, but a path that starts with
a dot keeps it. -/
def components (path : String) : List String :=
  let rest := (pieces path).filter (fun p => p != "" && p != ".")
  if (pieces path).head? = some "." then "." :: rest else rest

/-- Whether two paths have the same parts from the same start. -/
def same (p q : String) : Bool := isAbsolute p == isAbsolute q && components p == components q

/-- The path of `file` seen from `dir`. An absolute path stays as it is. -/
def join (dir file : String) : String :=
  if isAbsolute file ∨ dir = "" then file
  else if dir.toList.getLast? = some '/' then dir ++ file
  else dir ++ "/" ++ file

/-- The path without its last part, which is the empty path for a single part. A path without parts
has none. -/
def parent? (path : String) : Option String :=
  match components path with
  | [] => none
  | parts => some ((if isAbsolute path then "/" else "") ++ "/".intercalate parts.dropLast)

end RetentionJobs.Path
