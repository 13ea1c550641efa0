import RetentionJobs.Cron.Line
import RetentionJobs.Cron.Weekday
/-! Cron expressions with five fields, as in a crontab, or six with the second in front: splitting
them into named fields, joining the fields again, and the form that is passed on. -/
namespace RetentionJobs.Cron
open RetentionJobs.Text

inductive Refusal where
  /-- The expression has neither five nor six words. -/
  | wordCount (found : Nat)
  /-- A field has a blank inside, so that the joined fields split differently. -/
  | innerBlank (expected found : Nat)
  /-- The grammar does not read the line. -/
  | grammar (line : List Char) (stop : Stop)
  deriving DecidableEq, Repr

namespace Refusal

def reason : Refusal → String
  | wordCount n => "expected 5 or 6 fields, got " ++ natText n
  | innerBlank e n =>
    "expected " ++ natText e ++ " fields, got " ++ natText n ++
      ": field values must not contain whitespace"
  | grammar line stop => stop.render line

end Refusal

/-- The named fields of an expression. A field that is absent or blank stands for every value, and
an absent second for second 0. -/
structure Schedule where
  second : Option String := none
  minute : Option String := none
  hour : Option String := none
  dayOfMonth : Option String := none
  month : Option String := none
  dayOfWeek : Option String := none
  deriving DecidableEq, Repr

/-- The line that the grammar is asked about: second 0 in front of five words, and the last word
with its weekdays renumbered. -/
def lineOf (words : List (List Char)) : List Char :=
  let words := if words.length = 5 then ['0'] :: words else words
  join [' '] (words.dropLast ++ (words.getLast?.map Weekday.renumber).toList)

/-- Accepts five or six words that the grammar reads to their end. -/
def checkWords (words : List (List Char)) : Except Refusal Unit :=
  if words.length = 5 ∨ words.length = 6 then
    match Line.read (lineOf words) with
    | .ok _ => .ok ()
    | .error stop => .error (.grammar (lineOf words) stop)
  else .error (.wordCount words.length)

namespace Schedule

def ofWords? : List (List Char) → Option Schedule
  | [mi, h, dom, mo, dow] =>
    some ⟨none, some (.ofList mi), some (.ofList h), some (.ofList dom), some (.ofList mo),
      some (.ofList dow)⟩
  | [s, mi, h, dom, mo, dow] =>
    some ⟨some (.ofList s), some (.ofList mi), some (.ofList h), some (.ofList dom),
      some (.ofList mo), some (.ofList dow)⟩
  | _ => none

def parse (expression : String) : Except Refusal Schedule :=
  let ws := words expression.toList
  match checkWords ws with
  | .error e => .error e
  | .ok () =>
    match ofWords? ws with
    | some s => .ok s
    | none => .error (.wordCount ws.length)

/-- A field's value without blanks around it, or the given one if nothing is left. -/
def fieldOr (value : Option String) (fallback : List Char) : List Char :=
  match value.map (fun v => trim v.toList) with
  | none | some [] => fallback
  | some v => v

def effectiveSecond (s : Schedule) : List Char := fieldOr s.second ['0']

/-- The values that are written, in order. -/
def values (s : Schedule) (seconds : Bool) : List (List Char) :=
  (if seconds then [s.effectiveSecond] else []) ++
    [s.minute, s.hour, s.dayOfMonth, s.month, s.dayOfWeek].map (fieldOr · ['*'])

def joined (s : Schedule) (seconds : Bool) : List Char := join [' '] (s.values seconds)

/-- The joined values without any check. -/
def render (s : Schedule) (seconds : Bool) : String := .ofList (s.joined seconds)

/-- The joined values with a second where the schedule has one. -/
def display (s : Schedule) : String := s.render s.second.isSome

/-- The joined values, provided that they split into the same fields again and the grammar accepts
them. -/
def format (s : Schedule) (seconds : Bool) : Except Refusal String :=
  let ws := words (s.joined seconds)
  let expected := if seconds then 6 else 5
  if ws.length ≠ expected then .error (.innerBlank expected ws.length)
  else match checkWords ws with
    | .error e => .error e
    | .ok () => .ok (s.render seconds)

end Schedule

/-- Why an expression is refused, and which text was refused: the expression itself, or the text
that its fields were joined to. -/
structure Rejection where
  expression : String
  refusal : Refusal
  deriving DecidableEq, Repr

/-- `Schedule.parse`, naming the expression when it is refused. -/
def parse (expression : String) : Except Rejection Schedule :=
  (Schedule.parse expression).mapError (⟨expression, ·⟩)

/-- `Schedule.format`, naming the joined text when it is refused. -/
def format (s : Schedule) (seconds : Bool) : Except Rejection String :=
  (s.format seconds).mapError (⟨s.render seconds, ·⟩)

/-- The expression with single spaces. It gets a second in front if `forceSeconds` holds and it has
none. -/
def normalizeWith (forceSeconds : Bool) (expression : String) : Except Rejection String :=
  match parse expression with
  | .error e => .error e
  | .ok s => format s (forceSeconds || s.second.isSome)

/-- The expression with single spaces and as many fields as before. -/
def normalize (expression : String) : Except Rejection String := normalizeWith false expression

end RetentionJobs.Cron
