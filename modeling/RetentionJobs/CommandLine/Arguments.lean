import RetentionJobs.CommandLine.Command
import RetentionJobs.Text.Blank
import RetentionJobs.Text.Decimal
/-! Reading a command line. Words with hyphens in front are switches up to the first double hyphen;
a setting takes the text after its name or else the next word. -/
namespace RetentionJobs.CommandLine
open RetentionJobs.Text

structure Given where
  port : Option UInt16 := none
  host : Option String := none
  file : Option String := none
  expression : Option String := none
  seconds : Bool := false
  deriving DecidableEq, Repr

namespace Given

/-- Gives a setting its value. Each is given once. -/
def set (setting : Setting) (value : String) (g : Given) : Except Refusal Given :=
  match setting with
  | .port =>
    if g.port.isSome then .error .repeated
    else match readSigned? value.toList with
      | none => .error .badValue
      | some n =>
        if 0 ≤ n ∧ n < 65536 then .ok { g with port := some (UInt16.ofNat n.toNat) }
        else .error .badValue
  | .host => if g.host.isSome then .error .repeated else .ok { g with host := some value }
  | .file =>
    if g.file.isSome then .error .repeated
    else if value = "" then .error .noValue
    else .ok { g with file := some value }

def command (level : Level) (g : Given) : Except Refusal Command :=
  match level with
  | .gateway => .ok (.gateway g.port g.host)
  | .compile => .ok (.compile (g.file.getD "-"))
  | .normalize =>
    match g.expression with
    | none => .error .missingArgument
    | some expression => .ok (.normalize expression g.seconds)
  | .statements => .ok .statements
  | .top | .cron | .help => .error .incomplete

end Given

/-- What has been given, and the last setting with its value if the value is a word of its own. Such
a setting takes effect when the next switch or the end is reached. -/
structure Progress where
  given : Given := {}
  pending : Option (Setting × Option String) := none
  deriving DecidableEq, Repr

namespace Progress

/-- Lets the last setting take effect. -/
def settle (p : Progress) : Except Refusal Given :=
  match p.pending with
  | none => .ok p.given
  | some (_, none) => .error .noValue
  | some (setting, some value) => p.given.set setting value

def raise (flag : Flag) (p : Progress) : Except Refusal Progress := do
  let given ← p.settle
  match flag with
  | .help => .error .help
  | .version => .error .version
  | .seconds =>
    if given.seconds then .error .repeated else .ok ⟨{ given with seconds := true }, none⟩

/-- Takes a setting. Without a value it waits for the next word. -/
def assign (setting : Setting) (value : Option (List Char)) (p : Progress) :
    Except Refusal Progress := do
  let given ← p.settle
  match value with
  | none => .ok ⟨given, some (setting, none)⟩
  | some value => .ok ⟨← given.set setting (.ofList value), none⟩

def takeLong (level : Level) (word : List Char) (p : Progress) : Except Refusal Progress :=
  let (name, value) := splitFirst '=' word
  match level.long? (.ofList name), value with
  | none, _ => .error .unknownArgument
  | some (.flag _), some _ => .error .unexpectedValue
  | some (.flag flag), none => p.raise flag
  | some (.setting setting), value => p.assign setting value

/-- The value of a setting that is named by a letter: what follows the letter, after an equals sign
that may stand between. -/
def attached? : List Char → Option (List Char)
  | [] => none
  | '=' :: value => some value
  | value => some value

/-- Takes what follows a single hyphen: letters of flags, and then one of a setting. -/
def takeShort (level : Level) (p : Progress) : List Char → Except Refusal Progress
  | [] => .ok p
  | letter :: letters =>
    match level.short? letter with
    | none => .error .unknownArgument
    | some (.flag flag) => do takeShort level (← p.raise flag) letters
    | some (.setting setting) => p.assign setting (attached? letters)

/-- Takes a word that is no switch, no value and no command. -/
def takePlain (level : Level) (word : String) (p : Progress) : Except Refusal Progress :=
  if level = .normalize ∧ p.given.expression = none then do
    return ⟨{ ← p.settle with expression := some word }, none⟩
  else if level.hasCommands then .error .unknownCommand
  else .error .unknownArgument

end Progress

inductive Shape where
  | terminator
  | long (text : List Char)
  | short (text : List Char)
  | plain
  deriving DecidableEq, Repr

/-- A single hyphen is a plain word. -/
def Shape.ofWord (word : String) : Shape :=
  match word.toList with
  | ['-', '-'] => terminator
  | '-' :: '-' :: text => long text
  | ['-'] => plain
  | '-' :: text => short text
  | _ => plain

/-- The words after `help` lead to a command, whose help is asked for. -/
def readHelp (level : Level) : List String → Refusal
  | [] => .help
  | word :: words =>
    match level.next? word with
    | none => .unknownCommand
    | some next => readHelp next words

/-- The words after a double hyphen by itself, of which none is a switch. -/
def readPlain (level : Level) (p : Progress) : List String → Except Refusal Command
  | [] => do (← p.settle).command level
  | word :: words =>
    if (level.next? word).isSome then .error .unknownArgument
    else do readPlain level (← p.takePlain level word) words

def read (level : Level) (p : Progress) : List String → Except Refusal Command
  | [] => do (← p.settle).command level
  | word :: words =>
    match Shape.ofWord word with
    | .terminator => readPlain level p words
    | .long text => do read level (← p.takeLong level text) words
    | .short text => do read level (← p.takeShort level text) words
    | .plain =>
      match p.pending, level.next? word with
      | some (setting, none), _ => read level { p with pending := some (setting, some word) } words
      | _, some .help => .error (readHelp level words)
      | _, some next => read next {} words
      | _, none => do read level (← p.takePlain level word) words

/-- The command that arguments stand for. The name of the program is not among them. -/
def parse (arguments : List String) : Except Refusal Command := read .top {} arguments

end RetentionJobs.CommandLine
