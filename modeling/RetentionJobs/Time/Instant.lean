import RetentionJobs.Text.Decimal
import RetentionJobs.Time.Date
/-! Instants in the format of RFC 3339: reading any such text, and the form in universal time that
is written. -/
namespace RetentionJobs.Time
open RetentionJobs.Text

/-- A point in time. A leap second belongs to the second before it and has a billion nanoseconds
and more. -/
structure Instant where
  /-- The seconds from the start of year 0 in universal time. -/
  seconds : Int
  nanos : Nat
  deriving DecidableEq, Repr

inductive InstantFault where
  | tooShort
  | tooLong
  | invalid
  | outOfRange
  deriving DecidableEq, Repr

def InstantFault.message : InstantFault → String
  | tooShort => "premature end of input"
  | tooLong => "trailing input"
  | invalid => "input contains invalid characters"
  | outOfRange => "input is out of range"

namespace Instant

abbrev Reader (α : Type) := List Char → Except InstantFault (α × List Char)

def byteSize (cs : List Char) : Nat := cs.foldr (fun c n => c.utf8Size + n) 0

def number (width : Nat) : Reader Nat := fun cs =>
  if byteSize cs < width then .error .tooShort
  else
    let front := cs.take width
    if front.all Char.isDigit then .ok (digitsValue front, cs.drop width) else .error .invalid

def bounded (least greatest : Nat) : Reader Nat := fun cs =>
  match number 2 cs with
  | .error e => .error e
  | .ok (n, rest) => if least ≤ n ∧ n ≤ greatest then .ok (n, rest) else .error .outOfRange

def expect (p : Char → Bool) (cs : List Char) : Except InstantFault (List Char) :=
  match cs with
  | [] => .error .tooShort
  | c :: cs => if p c then .ok cs else .error .invalid

/-- The nanoseconds of a fraction. Digits after the ninth do not count. -/
def fraction : Reader Nat
  | '.' :: cs =>
    match cs.takeWhile Char.isDigit with
    | [] => .error (if cs = [] then .tooShort else .invalid)
    | ds =>
      let kept := ds.take 9
      .ok (digitsValue (kept ++ List.replicate (9 - kept.length) '0'), cs.dropWhile Char.isDigit)
  | cs => .ok (0, cs)

def offsetHours : Reader Nat := fun cs =>
  if byteSize cs < 2 then .error .tooShort
  else match cs with
    | a :: b :: rest =>
      if a.isDigit ∧ b.isDigit then .ok (digitsValue [a, b], rest) else .error .invalid
    | _ => .error .invalid

def offsetMinutes : Reader Nat := fun cs =>
  match offsetHours cs with
  | .error e => .error e
  | .ok (n, rest) => if n ≤ 59 then .ok (n, rest) else .error .outOfRange

def offset : Reader Int := fun cs =>
  match cs with
  | [] => .error .tooShort
  | c :: cs =>
    if c = 'Z' ∨ c = 'z' then .ok (0, cs)
    else if c = '+' ∨ c = '-' ∨ c = '\u2212' then do
      let (h, cs) ← offsetHours cs
      let cs ← expect (· == ':') cs
      let (m, cs) ← offsetMinutes cs
      let n : Int := (h * 60 + m) * 60
      if h ≤ 23 then return (if c = '+' then n else -n, cs) else throw .outOfRange
    else .error .invalid

def read (text : String) : Except InstantFault Instant := do
  let (year, cs) ← number 4 text.toList
  let cs ← expect (· == '-') cs
  let (month, cs) ← bounded 1 12 cs
  let cs ← expect (· == '-') cs
  let (day, cs) ← bounded 1 31 cs
  let cs ← expect (fun c => c == 'T' || c == 't' || c == ' ') cs
  let (hour, cs) ← bounded 0 23 cs
  let cs ← expect (· == ':') cs
  let (minute, cs) ← bounded 0 59 cs
  let cs ← expect (· == ':') cs
  let (second, cs) ← bounded 0 60 cs
  let (nanos, cs) ← fraction cs
  let (off, cs) ← offset cs
  if cs ≠ [] then throw .tooLong
  let date : Date := ⟨year, month, day⟩
  if !date.isValid then throw .outOfRange
  let leap := if second = 60 then 1 else 0
  return {
    seconds := date.toDays * 86400 + ((hour * 60 + minute) * 60 + (second - leap) : Nat) - off
    nanos := nanos + leap * 1000000000 }

def padded (width n : Nat) : List Char :=
  let ds := digits n
  List.replicate (width - ds.length) '0' ++ ds

/-- A year. One that does not have four digits gets its sign. -/
def renderYear (y : Int) : List Char :=
  if 0 ≤ y ∧ y ≤ 9999 then padded 4 y.toNat
  else (if y < 0 then '-' else '+') :: padded 4 y.natAbs

/-- A fraction in the fewest of zero, three, six or nine digits. -/
def renderFraction (nanos : Nat) : List Char :=
  if nanos = 0 then []
  else if nanos % 1000000 = 0 then '.' :: padded 3 (nanos / 1000000)
  else if nanos % 1000 = 0 then '.' :: padded 6 (nanos / 1000)
  else '.' :: padded 9 nanos

def render (i : Instant) : String :=
  let date := Date.ofDays (i.seconds / 86400)
  let second := (i.seconds % 86400).toNat
  let leap := i.nanos / 1000000000
  .ofList (renderYear date.year ++ '-' :: padded 2 date.month ++ '-' :: padded 2 date.day ++
    'T' :: padded 2 (second / 3600) ++ ':' :: padded 2 (second / 60 % 60) ++
    ':' :: padded 2 (second % 60 + leap) ++ renderFraction (i.nanos % 1000000000) ++
    ['+', '0', '0', ':', '0', '0'])

end Instant
end RetentionJobs.Time
