import RetentionJobs.Text.Hexadecimal
import RetentionJobs.Text.Magnitude
/-! Reading JSON text from left to right into values of known shape. The first thing wrong decides:
text that is no JSON is malformed, and JSON of another shape is a mismatch. -/
namespace RetentionJobs.Json
open RetentionJobs.Text

inductive ReadError where
  /-- The text is no JSON, or ends too early. -/
  | malformed
  /-- The text is a JSON value that has no place here. -/
  | mismatch
  deriving DecidableEq, Repr

abbrev Reader (α : Type) := List Char → Except ReadError (α × List Char)

def isGap (c : Char) : Bool := c == ' ' || c == '\n' || c == '\t' || c == '\r'

def skipGap (cs : List Char) : List Char := cs.dropWhile isGap

def word : List Char → Reader Unit
  | [], cs => .ok ((), cs)
  | _ :: _, [] => .error .malformed
  | w :: ws, c :: cs => if c = w then word ws cs else .error .malformed

def hexQuad? (a b c d : Char) : Option Nat := do
  let a ← hexValue? a
  let b ← hexValue? b
  let c ← hexValue? c
  let d ← hexValue? d
  return ((a * 16 + b) * 16 + c) * 16 + d

def escapedChar? : Char → Option Char
  | '"' => some '"'
  | '\\' => some '\\'
  | '/' => some '/'
  | 'b' => some '\x08'
  | 'f' => some '\x0c'
  | 'n' => some '\n'
  | 'r' => some '\r'
  | 't' => some '\t'
  | _ => none

def isHighSurrogate (n : Nat) : Bool := 0xD800 ≤ n && n ≤ 0xDBFF
def isLowSurrogate (n : Nat) : Bool := 0xDC00 ≤ n && n ≤ 0xDFFF

def joinSurrogates (high low : Nat) : Char :=
  Char.ofNat (0x10000 + (high - 0xD800) * 0x400 + (low - 0xDC00))

/-- The rest of a string after its opening quote. A surrogate has to stand in a pair. -/
def stringBody : Reader (List Char)
  | [] => .error .malformed
  | '"' :: cs => .ok ([], cs)
  | '\\' :: 'u' :: a :: b :: c :: d :: cs =>
    match hexQuad? a b c d with
    | none => .error .malformed
    | some n =>
      if isHighSurrogate n then
        match cs with
        | '\\' :: 'u' :: a :: b :: c :: d :: cs =>
          match hexQuad? a b c d with
          | none => .error .malformed
          | some m =>
            if isLowSurrogate m then
              match stringBody cs with
              | .ok (s, rest) => .ok (joinSurrogates n m :: s, rest)
              | .error e => .error e
            else .error .malformed
        | _ => .error .malformed
      else if isLowSurrogate n then .error .malformed
      else
        match stringBody cs with
        | .ok (s, rest) => .ok (Char.ofNat n :: s, rest)
        | .error e => .error e
  | '\\' :: c :: cs =>
    match escapedChar? c with
    | none => .error .malformed
    | some e =>
      match stringBody cs with
      | .ok (s, rest) => .ok (e :: s, rest)
      | .error e => .error e
  | c :: cs =>
    if c.toNat < 32 ∨ c = '\\' then .error .malformed
    else
      match stringBody cs with
      | .ok (s, rest) => .ok (c :: s, rest)
      | .error e => .error e

/-- Passes over the rest of a string after its opening quote. Surrogates may stand alone. -/
def skipString : List Char → Except ReadError (List Char)
  | [] => .error .malformed
  | '"' :: cs => .ok cs
  | '\\' :: 'u' :: a :: b :: c :: d :: cs =>
    match hexQuad? a b c d with
    | none => .error .malformed
    | some _ => skipString cs
  | '\\' :: c :: cs =>
    match escapedChar? c with
    | none => .error .malformed
    | some _ => skipString cs
  | c :: cs => if c.toNat < 32 ∨ c = '\\' then .error .malformed else skipString cs

/-- A number as it is written: its sign, its whole digits, and what follows them. -/
structure Numeral where
  negative : Bool
  whole : List Char
  fraction : Option (List Char)
  exponent : Option Int
  deriving DecidableEq, Repr

/-- The digits after a point, if there is one. -/
def fraction : Reader (Option (List Char))
  | '.' :: cs =>
    match cs.takeWhile Char.isDigit with
    | [] => .error .malformed
    | ds => .ok (some ds, cs.dropWhile Char.isDigit)
  | cs => .ok (none, cs)

def exponent : Reader (Option Int)
  | c :: cs =>
    if c = 'e' ∨ c = 'E' then
      let (negative, cs) := match cs with
        | '-' :: cs => (true, cs)
        | '+' :: cs => (false, cs)
        | cs => (false, cs)
      match cs.takeWhile Char.isDigit with
      | [] => .error .malformed
      | ds =>
        let n : Int := digitsValue ds
        .ok (some (if negative then -n else n), cs.dropWhile Char.isDigit)
    else .ok (none, c :: cs)
  | [] => .ok (none, [])

/-- A number. No zero stands in front of another digit. -/
def numeral : Reader Numeral := fun cs => do
  let (negative, cs) := match cs with
    | '-' :: cs => (true, cs)
    | cs => (false, cs)
  match cs.takeWhile Char.isDigit with
  | [] => throw .malformed
  | '0' :: _ :: _ => throw .malformed
  | whole =>
    let (f, cs) ← fraction (cs.dropWhile Char.isDigit)
    let (e, cs) ← exponent cs
    return (⟨negative, whole, f, e⟩, cs)

namespace Numeral

def overflows (n : Numeral) : Bool :=
  let f := n.fraction.getD []
  isPastDoubles (digitsValue (n.whole ++ f)) (n.exponent.getD 0 - f.length)

/-- The whole number that is written, if the number has neither fraction nor exponent, is no
negative zero and fits in 64 bits with its sign. -/
def word? (n : Numeral) : Option Int :=
  if n.fraction.isNone ∧ n.exponent.isNone then
    let m : Int := digitsValue n.whole
    let v := if n.negative then -m else m
    if InWord v ∧ ¬(n.negative ∧ m = 0) then some v else none
  else none

end Numeral

/-- The complaint about a value of the wrong kind. A scalar is read to its end first, so that one
that is malformed is called so. -/
def complaint (cs : List Char) : ReadError :=
  let judge {α : Type} (r : Except ReadError α) : ReadError :=
    match r with
    | .ok _ => .mismatch
    | .error e => e
  match cs with
  | 'n' :: cs => judge (word ['u', 'l', 'l'] cs)
  | 't' :: cs => judge (word ['r', 'u', 'e'] cs)
  | 'f' :: cs => judge (word ['a', 'l', 's', 'e'] cs)
  | '"' :: cs => judge (stringBody cs)
  | '[' :: _ => .mismatch
  | '\x7b' :: _ => .mismatch
  | c :: _ =>
    if c = '-' ∨ c.isDigit then
      match numeral cs with
      | .ok (n, _) => if n.overflows then .malformed else .mismatch
      | .error e => e
    else .malformed
  | [] => .malformed

def text : Reader String := fun cs =>
  match skipGap cs with
  | '"' :: cs =>
    match stringBody cs with
    | .ok (s, rest) => .ok (.ofList s, rest)
    | .error e => .error e
  | cs => .error (complaint cs)

def integer : Reader Int := fun cs =>
  let cs := skipGap cs
  match cs with
  | c :: _ =>
    if c = '-' ∨ c.isDigit then
      match numeral cs with
      | .error e => .error e
      | .ok (n, rest) =>
        match n.word? with
        | some v => .ok (v, rest)
        | none => .error (if n.overflows then .malformed else .mismatch)
    else .error (complaint cs)
  | [] => .error .malformed

/-- A value or null. -/
def nullable {α : Type} (r : Reader α) : Reader (Option α) := fun cs =>
  match skipGap cs with
  | 'n' :: cs =>
    match word ['u', 'l', 'l'] cs with
    | .ok ((), rest) => .ok (none, rest)
    | .error e => .error e
  | cs =>
    match r cs with
    | .ok (a, rest) => .ok (some a, rest)
    | .error e => .error e

def colon (cs : List Char) : Except ReadError (List Char) :=
  match skipGap cs with
  | ':' :: cs => .ok cs
  | _ => .error .malformed

mutual

/-- Passes over a value of any shape. `fuel` bounds the number of tokens. -/
def skipValue : Nat → List Char → Except ReadError (List Char)
  | 0, _ => .error .malformed
  | fuel + 1, cs =>
    match skipGap cs with
    | 'n' :: cs => (word ['u', 'l', 'l'] cs).map Prod.snd
    | 't' :: cs => (word ['r', 'u', 'e'] cs).map Prod.snd
    | 'f' :: cs => (word ['a', 'l', 's', 'e'] cs).map Prod.snd
    | '"' :: cs => skipString cs
    | '[' :: cs =>
      match skipGap cs with
      | ']' :: rest => .ok rest
      | cs => skipItems fuel cs
    | '\x7b' :: cs =>
      match skipGap cs with
      | '\x7d' :: rest => .ok rest
      | cs => skipMembers fuel cs
    | cs => (numeral cs).map Prod.snd

/-- Passes over the items of an array and its closing bracket. -/
def skipItems : Nat → List Char → Except ReadError (List Char)
  | 0, _ => .error .malformed
  | fuel + 1, cs =>
    match skipValue fuel cs with
    | .error e => .error e
    | .ok rest =>
      match skipGap rest with
      | ']' :: rest => .ok rest
      | ',' :: rest => skipItems fuel rest
      | _ => .error .malformed

/-- Passes over the members of an object and its closing brace. -/
def skipMembers : Nat → List Char → Except ReadError (List Char)
  | 0, _ => .error .malformed
  | fuel + 1, cs =>
    match skipGap cs with
    | '"' :: cs =>
      match skipString cs with
      | .error e => .error e
      | .ok rest =>
        match colon rest with
        | .error e => .error e
        | .ok rest =>
          match skipValue fuel rest with
          | .error e => .error e
          | .ok rest =>
            match skipGap rest with
            | '\x7d' :: rest => .ok rest
            | ',' :: rest => skipMembers fuel rest
            | _ => .error .malformed
    | _ => .error .malformed

end

/-- Passes over a value of any shape. -/
def skip (cs : List Char) : Except ReadError (List Char) := skipValue (2 * cs.length + 2) cs

def listItems {α : Type} (r : Reader α) : Nat → Reader (List α)
  | 0, _ => .error .malformed
  | fuel + 1, cs =>
    match r cs with
    | .error e => .error e
    | .ok (a, rest) =>
      match skipGap rest with
      | ']' :: rest => .ok ([a], rest)
      | ',' :: rest =>
        match skipGap rest with
        | ']' :: _ => .error .malformed
        | rest =>
          match listItems r fuel rest with
          | .error e => .error e
          | .ok (as, rest) => .ok (a :: as, rest)
      | _ => .error .malformed

def list {α : Type} (r : Reader α) : Reader (List α) := fun cs =>
  match skipGap cs with
  | '[' :: cs =>
    match skipGap cs with
    | ']' :: rest => .ok ([], rest)
    | cs => listItems r (cs.length + 1) cs
  | cs => .error (complaint cs)

/-- A field of a record that is read into `σ`. -/
structure Member (σ : Type) where
  key : String
  seen : σ → Bool
  read : σ → Reader σ

/-- The members of an object and its closing brace. A member without a field is passed over, and no
field comes twice. -/
def members {σ : Type} (fields : List (Member σ)) : Nat → σ → Reader σ
  | 0, _, _ => .error .malformed
  | fuel + 1, s, cs =>
    match skipGap cs with
    | '"' :: cs =>
      match stringBody cs with
      | .error e => .error e
      | .ok (key, rest) =>
        let value : Except ReadError (σ × List Char) :=
          match fields.find? (fun f => f.key == String.ofList key) with
          | none => do return (s, ← skip (← colon rest))
          | some f => if f.seen s then .error .mismatch else do f.read s (← colon rest)
        match value with
        | .error e => .error e
        | .ok (s, rest) =>
          match skipGap rest with
          | '\x7d' :: rest => .ok (s, rest)
          | ',' :: rest => members fields fuel s rest
          | _ => .error .malformed
    | _ => .error .malformed

/-- The items of an array, one for each field in turn, up to its closing bracket, which is left. -/
def positions {σ : Type} : List (Member σ) → σ → Reader σ
  | [], s, cs => .ok (s, cs)
  | f :: fields, s, cs =>
    match f.read s cs with
    | .error e => .error e
    | .ok (s, rest) =>
      match fields, skipGap rest with
      | [], rest => .ok (s, rest)
      | _, ']' :: rest => .ok (s, ']' :: rest)
      | fields, ',' :: rest =>
        match skipGap rest with
        | ']' :: _ => .error .malformed
        | rest => positions fields s rest
      | _, _ => .error .malformed

/-- A record: an object with the fields as members in any order, or an array with them in their own
order, of which the last ones may be left out. `finish` fails when a field that is needed is
missing. -/
def record {σ α : Type} (fields : List (Member σ)) (start : σ) (finish : σ → Option α) :
    Reader α := fun cs =>
  match skipGap cs with
  | '\x7b' :: cs =>
    let read : Except ReadError (σ × List Char) := match skipGap cs with
      | '\x7d' :: rest => .ok (start, rest)
      | cs => members fields (cs.length + 1) start cs
    match read with
    | .error e => .error e
    | .ok (s, rest) =>
      match finish s with
      | none => .error .mismatch
      | some a => .ok (a, rest)
  | '[' :: cs =>
    let read : Except ReadError (σ × List Char) := match skipGap cs with
      | ']' :: rest => .ok (start, ']' :: rest)
      | cs => positions fields start cs
    match read with
    | .error e => .error e
    | .ok (s, rest) =>
      match finish s with
      | none => .error .mismatch
      | some a =>
        match skipGap rest with
        | ']' :: rest => .ok (a, rest)
        | _ => .error .malformed
  | cs => .error (complaint cs)

def readAll {α : Type} (r : Reader α) (text : String) : Except ReadError α :=
  match r text.toList with
  | .error e => .error e
  | .ok (a, rest) => if skipGap rest = [] then .ok a else .error .malformed

end RetentionJobs.Json
