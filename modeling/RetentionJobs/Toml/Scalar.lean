import RetentionJobs.Text.Magnitude
import RetentionJobs.Text.Blank
import RetentionJobs.Text.Hexadecimal
import RetentionJobs.Time.Date
import RetentionJobs.Toml.Value
/-! Numbers, booleans and dates in TOML. A literal is a run of characters that belong together; its
form says what it is. -/
namespace RetentionJobs.Toml
open RetentionJobs.Text

/-- The digits of a run that may have single underscores between digits. -/
def ungrouped? (p : Char → Bool) (cs : List Char) : Option (List Char) :=
  let groups := cut (· == '_') cs
  if groups.all (fun g => !g.isEmpty && g.all p) then some groups.flatten else none

def unsigned (cs : List Char) : Bool × List Char :=
  match cs with
  | '-' :: cs => (true, cs)
  | '+' :: cs => (false, cs)
  | cs => (false, cs)

/-- Whole digits in decimal: no zero stands in front of another digit. -/
def wholeDigits? (cs : List Char) : Option (List Char) := do
  let ds ← ungrouped? Char.isDigit cs
  match ds with
  | '0' :: _ :: _ => none
  | ds => some ds

/-- The value of digits in the given base, of at most 16. -/
def based? (base : Nat) (cs : List Char) : Option Nat := do
  let isDigit (c : Char) : Bool := (hexValue? c).any (· < base)
  let ds ← ungrouped? isDigit cs
  return ds.foldl (fun n c => n * base + (hexValue? c).getD 0) 0

/-- A whole number: in decimal with a sign, or in another base without one. -/
def integer? (cs : List Char) : Option Int :=
  match cs with
  | '0' :: 'x' :: ds => (based? 16 ds).map Int.ofNat
  | '0' :: 'o' :: ds => (based? 8 ds).map Int.ofNat
  | '0' :: 'b' :: ds => (based? 2 ds).map Int.ofNat
  | cs => do
    let (negative, cs) := unsigned cs
    let n : Int := digitsValue (← wholeDigits? cs)
    return if negative then -n else n

/-- The parts of a number with a fraction or an exponent: its whole digits, the digits after the
point, and the exponent. -/
def floatParts? (cs : List Char) : Option (List Char × List Char × Int) := do
  let (_, cs) := unsigned cs
  let (mantissa, exponent) := match splitFirst 'e' cs with
    | (m, some e) => (m, some e)
    | (_, none) => splitFirst 'E' cs
  let (whole, fraction) := splitFirst '.' mantissa
  let whole ← wholeDigits? whole
  let fraction ← fraction.mapM (ungrouped? Char.isDigit)
  let exponent ← exponent.mapM (fun e => do
    let (negative, e) := unsigned e
    let n : Int := digitsValue (← ungrouped? Char.isDigit e)
    return if negative then -n else n)
  if fraction.isNone ∧ exponent.isNone then none
  return (whole, fraction.getD [], exponent.getD 0)

def isSpecial (cs : List Char) : Bool :=
  let (_, cs) := unsigned cs
  cs == ['i', 'n', 'f'] || cs == ['n', 'a', 'n']

def isFloat (cs : List Char) : Bool := isSpecial cs || (floatParts? cs).isSome

def overflows (cs : List Char) : Bool :=
  match floatParts? cs with
  | none => false
  | some (whole, fraction, exponent) =>
    isPastDoubles (digitsValue (whole ++ fraction)) (exponent - fraction.length)

def fixed? (width : Nat) (cs : List Char) : Option Nat :=
  if cs.length = width then readDigits? cs else none

def isDate (cs : List Char) : Bool :=
  match cut (· == '-') cs with
  | [y, m, d] =>
    match fixed? 4 y, fixed? 2 m, fixed? 2 d with
    | some y, some m, some d => (Time.Date.mk y m d).isValid
    | _, _, _ => false
  | _ => false

/-- Seconds with a fraction, of which one may be a leap second. -/
def isSeconds (cs : List Char) : Bool :=
  match splitFirst '.' cs with
  | (s, none) => (fixed? 2 s).any (· ≤ 60)
  | (s, some f) => (fixed? 2 s).any (· ≤ 60) && (readDigits? f).isSome

/-- Hours and minutes, and seconds unless they are left out. -/
def isTime (cs : List Char) : Bool :=
  let within (width bound : Nat) (cs : List Char) : Bool := (fixed? width cs).any (· ≤ bound)
  match cut (· == ':') cs with
  | [h, m] => within 2 23 h && within 2 59 m
  | [h, m, s] => within 2 23 h && within 2 59 m && isSeconds s
  | _ => false

/-- A time of the day, and the distance from universal time if it is given. -/
def isTimeWithOffset (cs : List Char) : Bool :=
  match cs.reverse with
  | 'Z' :: r => isTime r.reverse
  | 'z' :: r => isTime r.reverse
  | m :: m' :: ':' :: h :: h' :: sign :: r =>
    ((sign == '+' || sign == '-') && isTime r.reverse &&
      (fixed? 2 [h', h]).any (· ≤ 23) && (fixed? 2 [m', m]).any (· ≤ 59)) || isTime cs
  | _ => isTime cs

/-- A date, a time, or both with a letter or a space between them. -/
def isDatetime (cs : List Char) : Bool :=
  isDate cs || isTime cs ||
    (match cs.drop 10 with
     | c :: time => (c == 'T' || c == 't' || c == ' ') && isDate (cs.take 10) &&
        isTimeWithOffset time
     | [] => false)

def literal? (cs : List Char) : Option Value :=
  if cs = ['t', 'r', 'u', 'e'] then some (.boolean true)
  else if cs = ['f', 'a', 'l', 's', 'e'] then some (.boolean false)
  else match integer? cs with
    | some n => some (.integer n)
    | none =>
      if isFloat cs then some (.float cs)
      else if isDatetime cs then some (.datetime cs)
      else none

end RetentionJobs.Toml
