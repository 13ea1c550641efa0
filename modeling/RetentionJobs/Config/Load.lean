import RetentionJobs.Config.Environment
import RetentionJobs.Config.File
/-! Loading the configuration of a directory. The first load writes a file with the defaults;
settings from the environment are never written. -/
namespace RetentionJobs.Config

def fileName : String := "config.toml"

def initialFile : String := toToml {}

/-- Applies the environment to what was read from `dir`, and checks the result. -/
def finish (dir : String) (env : Environment) (c : Config) : Except Failure Config :=
  let c := applyEnvironment env { c with dataDir := dir, configPath := Path.join dir fileName }
  match c.validate with
  | .error e => .error (.config e)
  | .ok () => .ok c

def ofFile (dir : String) (env : Environment) (text : String) : Except Failure Config :=
  match ofToml? text with
  | none => .error (.other "Failed to parse config file")
  | some c => finish dir env c

/-- What comes of a load: its result, and the texts that were written to the file on the way. -/
structure Loaded where
  result : Except Failure Config
  written : List String

/-- Loads the configuration of `dir`, whose file has the text `file` if there is one. A file that is
missing is written before the environment is applied, and stays when the result is refused. -/
def load (dir : String) (env : Environment) (file : Option String) : Loaded :=
  match file with
  | some text => ⟨ofFile dir env text, []⟩
  | none =>
    let c : Config := { dataDir := dir, configPath := Path.join dir fileName }
    ⟨finish dir env c, [c.toToml]⟩

/-- The text of the file after a load. -/
def Loaded.fileAfter (l : Loaded) (file : Option String) : Option String :=
  l.written.getLast?.or file

theorem fileAfter_load (dir : String) (env : Environment) (file : Option String) :
    (load dir env file).fileAfter file = some (file.getD initialFile) := by
  cases file with
  | none => rfl
  | some text => rfl

/-- What comes of a load, and the text of the file after it. -/
def loadOrInit (dir : String) (env : Environment) (file : Option String) :
    Except Failure Config × String :=
  let loaded := load dir env file
  (loaded.result, (loaded.fileAfter file).getD initialFile)

theorem loadOrInit_eq (dir : String) (env : Environment) (file : Option String) :
    loadOrInit dir env file = ((load dir env file).result, file.getD initialFile) := by
  rw [loadOrInit, fileAfter_load, Option.getD_some]

theorem loadOrInit_some (dir : String) (env : Environment) (text : String) :
    loadOrInit dir env (some text) = (ofFile dir env text, text) :=
  loadOrInit_eq dir env (some text)

end RetentionJobs.Config
