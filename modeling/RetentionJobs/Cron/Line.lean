import RetentionJobs.Cron.Grammar
/-! A whole cron line: six fields and perhaps a year, each read and then checked before the next
one is read. -/
namespace RetentionJobs.Cron

structure Line where
  second : List Item
  minute : List Item
  hour : List Item
  dayOfMonth : List Item
  month : List Item
  dayOfWeek : List Item
  year : Option (List Item)
  deriving DecidableEq, Repr

/-- Where reading stopped: the text that was left there, and the fault of the field that begins
there if its text could be read. -/
structure Stop where
  left : List Char
  fault : Option Fault
  deriving DecidableEq, Repr

namespace Line

def readField (f : Field) (cs : List Char) : Except Stop (List Item × List Char) :=
  match Grammar.field f cs with
  | none => .error ⟨cs, none⟩
  | some (items, rest) =>
    match f.check items with
    | .error fault => .error ⟨cs, some fault⟩
    | .ok () => .ok (items, rest)

/-- A year is passed over when it cannot be read or is out of range. -/
def readYear (cs : List Char) : Option (List Item) × List Char :=
  match readField .year cs with
  | .ok (items, rest) => (some items, rest)
  | .error _ => (none, cs)

/-- Reads a line to its end. -/
def read (cs : List Char) : Except Stop Line := do
  let (second, cs) ← readField .second cs
  let (minute, cs) ← readField .minute cs
  let (hour, cs) ← readField .hour cs
  let (dayOfMonth, cs) ← readField .dayOfMonth cs
  let (month, cs) ← readField .month cs
  let (dayOfWeek, cs) ← readField .dayOfWeek cs
  let (year, cs) := readYear cs
  if cs = [] then return ⟨second, minute, hour, dayOfMonth, month, dayOfWeek, year⟩
  else throw ⟨cs, none⟩

end Line

namespace Stop

/-- The line, a mark under the place where reading stopped, and the fault. -/
def render (line : List Char) (stop : Stop) : String :=
  String.ofList line ++ "\n" ++
    String.ofList (List.replicate (line.length - stop.left.length) ' ') ++ "^\n" ++
    (match stop.fault with
     | none => ""
     | some fault => fault.message)

end Stop
end RetentionJobs.Cron
