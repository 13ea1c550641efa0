import RetentionJobs.CommandLine.Arguments
import RetentionJobs.CommandLine.Run
/-! The program. It reads the configuration, the files that the command needs and the standard
input, and prints what comes of the command. It has no sockets and no reader for database files, so
a gateway stops where it would listen, and only an empty outbox is listed. -/
namespace RetentionJobs.Program
open CommandLine (Surroundings Outcome)

def readText (path : String) : IO (Option String) := do
  match ← (IO.FS.readFile path).toBaseIO with
  | .ok text => return some text
  | .error (.noFileOrDirectory ..) => return none
  | .error e => throw e

/-- The variables of the environment that have an effect. -/
def environment : IO Environment := do
  let values ← Config.variableNames.mapM (fun name => return (name, ← IO.getEnv name))
  return fun name => (values.lookup name).join

/-- The configuration below the home directory. The first time, its file is written. -/
def loadConfig : IO (Except Failure Config) := do
  let some home ← IO.getEnv "HOME" | return .error (.other "Could not find home directory")
  let dir := Path.join home ".purgecron"
  let path := Path.join dir Config.fileName
  let loaded := Config.load dir (← environment) (← readText path)
  for text in loaded.written do
    IO.FS.createDirAll dir
    IO.FS.writeFile path text
  return loaded.result

/-- A volume with a file that is read from the disk, unless it cannot be. -/
def load (v : Volume) (path : String) : IO Volume := do
  match ← (readText path).toBaseIO with
  | .ok (some text) => return (v.write path text).toOption.getD v
  | _ => return v

def surroundings (command : Command) (c : Config) : IO Surroundings := do
  let workingDir := Path.components (← IO.currentDir).toString
  let volume ← (CommandLine.filesRead command c).foldlM load { workingDir }
  let input ← match command with
    | .compile file => if Path.same file "-" then (← IO.getStdin).readToEnd else pure ""
    | _ => pure ""
  return { volume, input }

def fail (message : String) : IO UInt32 := do
  IO.eprintln ("Error: " ++ message)
  return 1

def execute (command : Command) : IO UInt32 := do
  match ← loadConfig with
  | .error e => fail e.message
  | .ok c =>
    match CommandLine.run command c (← surroundings command c) with
    | .error e => fail e.message
    | .ok (.listen _) => fail "bind gateway socket"
    | .ok (.printed output notes) =>
      IO.eprint notes
      IO.print output
      return 0

def start (arguments : List String) : IO UInt32 := do
  match CommandLine.parse arguments with
  | .ok command => execute command
  | .error refusal =>
    if refusal.isInformation then
      IO.print refusal.message
      return 0
    else
      IO.eprint refusal.message
      return 2

end RetentionJobs.Program

def main (arguments : List String) : IO UInt32 := RetentionJobs.Program.start arguments
