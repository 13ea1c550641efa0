import RetentionJobs.Cron.Field
/-! The grammar of a cron line. Alternatives are tried in order and the first that reads wins;
fields need no gap between them. -/
namespace RetentionJobs.Cron.Grammar
open RetentionJobs.Text

abbrev Reader (α : Type) := List Char → Option (α × List Char)

/-- The first alternative that reads. -/
def either {α : Type} (p q : Reader α) : Reader α := fun cs =>
  match p cs with
  | some r => some r
  | none => q cs

def isGap (c : Char) : Bool := c == ' ' || c == '\t' || c == '\r' || c == '\n'

def skipGap (cs : List Char) : List Char := cs.dropWhile isGap

def char (c : Char) : Reader Unit
  | [] => none
  | d :: cs => if d = c then some ((), cs) else none

/-- A number of at most 32 bits, with gaps around it. -/
def ordinal : Reader Nat := fun cs =>
  let cs := skipGap cs
  match readDigits? (cs.takeWhile Char.isDigit) with
  | none => none
  | some n => if n ≤ 4294967295 then some (n, skipGap (cs.dropWhile Char.isDigit)) else none

/-- A run of letters, with gaps around it. -/
def name : Reader String := fun cs =>
  let cs := skipGap cs
  match cs.takeWhile Char.isAlpha with
  | [] => none
  | letters => some (String.ofList letters, skipGap (cs.dropWhile Char.isAlpha))

/-- Two of the same kind with a hyphen between them. -/
def pair {α β : Type} (p : Reader α) (make : α → α → β) : Reader β := fun cs => do
  let (a, cs) ← p cs
  let ((), cs) ← char '-' cs
  let (b, cs) ← p cs
  return (make a b, cs)

def unspecified : Reader Spec := fun cs => (char '?' cs).map (fun r => (.unspecified, r.2))

def every : Reader Spec := fun cs => (char '*' cs).map (fun r => (.every, r.2))

def value : Reader Spec := fun cs => (ordinal cs).map (fun r => (.value r.1, r.2))

def spec (f : Field) : Reader Spec :=
  let common := either every
    (either (pair ordinal .range) (either value (pair name .named)))
  if f.allowsUnspecified then either unspecified common else common

def stepped (f : Field) : Reader Item := fun cs => do
  let (s, cs) ← spec f cs
  let ((), cs) ← char '/' cs
  let (n, cs) ← ordinal cs
  return (.stepped s n, cs)

def item (f : Field) : Reader Item :=
  either (stepped f)
    (either (fun cs => (spec f cs).map (fun r => (.set r.1, r.2)))
      (fun cs => (name cs).map (fun r => (.name r.1, r.2))))

/-- The items that follow the first one, each after a comma. A comma that no item follows is left
unread. `fuel` bounds their number. -/
def moreItems (f : Field) : Nat → List Char → List Item × List Char
  | 0, cs => ([], cs)
  | fuel + 1, cs =>
    match cs with
    | ',' :: after =>
      match item f after with
      | none => ([], cs)
      | some (i, rest) =>
        let (items, rest) := moreItems f fuel rest
        (i :: items, rest)
    | _ => ([], cs)

def field (f : Field) : Reader (List Item) := fun cs =>
  match item f (skipGap cs) with
  | none => none
  | some (i, rest) =>
    let (items, rest) := moreItems f rest.length rest
    some (i :: items, skipGap rest)

end RetentionJobs.Cron.Grammar
