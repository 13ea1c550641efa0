import RetentionJobs.Text.Decimal
/-! The positions of a cron line and the values each of them takes. -/
namespace RetentionJobs.Cron

/-- The positions of a line, from left to right. The year may be left out. -/
inductive Field where
  | second | minute | hour | dayOfMonth | month | dayOfWeek | year
  deriving DecidableEq, Repr

namespace Field

def title : Field → String
  | second => "Seconds"
  | minute => "Minutes"
  | hour => "Hours"
  | dayOfMonth => "Days of Month"
  | month => "Months"
  | dayOfWeek => "Days of Week"
  | year => "Years"

def least : Field → Nat
  | second | minute | hour => 0
  | dayOfMonth | month | dayOfWeek => 1
  | year => 1970

def greatest : Field → Nat
  | second | minute => 59
  | hour => 23
  | dayOfMonth => 31
  | month => 12
  | dayOfWeek => 7
  | year => 2100

/-- Whether `?` may stand for "no particular value". -/
def allowsUnspecified : Field → Bool
  | dayOfMonth | dayOfWeek => true
  | _ => false

/-- The names of a position's values, in lower case. Weekdays count from Sunday, which is 1. -/
def names : Field → List (String × Nat)
  | month =>
    [("jan", 1), ("january", 1), ("feb", 2), ("february", 2), ("mar", 3), ("march", 3),
     ("apr", 4), ("april", 4), ("may", 5), ("jun", 6), ("june", 6), ("jul", 7), ("july", 7),
     ("aug", 8), ("august", 8), ("sep", 9), ("september", 9), ("oct", 10), ("october", 10),
     ("nov", 11), ("november", 11), ("dec", 12), ("december", 12)]
  | dayOfWeek =>
    [("sun", 1), ("sunday", 1), ("mon", 2), ("monday", 2), ("tue", 3), ("tues", 3),
     ("tuesday", 3), ("wed", 4), ("wednesday", 4), ("thu", 5), ("thurs", 5), ("thursday", 5),
     ("fri", 6), ("friday", 6), ("sat", 7), ("saturday", 7)]
  | _ => []

end Field

inductive Fault where
  | tooSmall (field : Field) (value : Nat)
  | tooLarge (field : Field) (value : Nat)
  | badRange (field : Field) (first last : Nat)
  | namesUnsupported (field : Field) (name : String)
  | unknownName (field : Field) (name : String)
  | badNamedRange (field : Field) (first last : String)
  | zeroStep
  | longStep (field : Field) (step : Nat)
  deriving DecidableEq, Repr

namespace Fault

def specified (n : Nat) : String := ". ('" ++ Text.natText n ++ "' specified.)"

def message : Fault → String
  | tooSmall f n =>
    f.title ++ " must be greater than or equal to " ++ Text.natText f.least ++ specified n
  | tooLarge f n =>
    f.title ++ " must be less than " ++ Text.natText f.greatest ++ specified n
  | badRange f a b =>
    "Invalid range for " ++ f.title ++ ": " ++ Text.natText a ++ "-" ++ Text.natText b
  | namesUnsupported f x =>
    "The '" ++ f.title ++ "' field does not support using names. '" ++ x ++ "' specified."
  | unknownName .month x => "'" ++ x ++ "' is not a valid month name."
  | unknownName _ x => "'" ++ x ++ "' is not a valid day of the week."
  | badNamedRange f x y => "Invalid named range for " ++ f.title ++ ": " ++ x ++ "-" ++ y
  | zeroStep => "range step cannot be zero"
  | longStep f n =>
    f.title ++ " must be between 1 and " ++ Text.natText f.greatest ++ specified n

end Fault

/-- A set of values as it is written: all, none in particular, one, or a range. -/
inductive Spec where
  | unspecified
  | every
  | value (n : Nat)
  | range (first last : Nat)
  | named (first last : String)
  deriving DecidableEq, Repr

/-- An item of a field's list: a set, a set thinned by a step, or a lone name. -/
inductive Item where
  | set (spec : Spec)
  | stepped (spec : Spec) (step : Nat)
  | name (text : String)
  deriving DecidableEq, Repr

namespace Field

def checkValue (f : Field) (n : Nat) : Except Fault Unit :=
  if n < f.least then .error (.tooSmall f n)
  else if f.greatest < n then .error (.tooLarge f n)
  else .ok ()

/-- The value that a name stands for, in any mix of cases. -/
def resolve (f : Field) (name : String) : Except Fault Nat :=
  match f.names with
  | [] => .error (.namesUnsupported f name)
  | known =>
    match known.lookup (String.ofList (name.toList.map Char.toLower)) with
    | some n => .ok n
    | none => .error (.unknownName f name)

def checkSpec (f : Field) : Spec → Except Fault Unit
  | .unspecified | .every => .ok ()
  | .value n => f.checkValue n
  | .range a b =>
    if f.least ≤ a ∧ a ≤ b ∧ b ≤ f.greatest then .ok () else .error (.badRange f a b)
  | .named x y =>
    match f.resolve x with
    | .error e => .error e
    | .ok a =>
      match f.resolve y with
      | .error e => .error e
      | .ok b => if b < a then .error (.badNamedRange f x y) else .ok ()

def checkItem (f : Field) : Item → Except Fault Unit
  | .set s => f.checkSpec s
  | .stepped s n =>
    if n = 0 then .error .zeroStep
    else if f.greatest < n then .error (.longStep f n)
    else f.checkSpec s
  | .name x =>
    match f.resolve x with
    | .error e => .error e
    | .ok _ => .ok ()

/-- The first fault of a list, from left to right. -/
def check (f : Field) : List Item → Except Fault Unit
  | [] => .ok ()
  | item :: items =>
    match f.checkItem item with
    | .error e => .error e
    | .ok () => f.check items

end Field
end RetentionJobs.Cron
