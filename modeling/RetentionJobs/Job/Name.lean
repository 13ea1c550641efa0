import RetentionJobs.Text.Decimal
/-! Names that are put into SQL text: identifiers, and names inside a quoted literal. Neither can
hold a quote, so neither ends the text around it. -/
namespace RetentionJobs.Job

inductive NameFault where
  | empty
  | tooLong
  | badStart (c : Char)
  | badCharacter (c : Char)
  deriving DecidableEq, Repr

/-- The database cuts names after this many bytes. -/
def maxNameBytes : Nat := 63

namespace NameFault

def reason : NameFault → String
  | empty => "must not be empty"
  | tooLong => "longer than " ++ Text.natText maxNameBytes ++ " bytes"
  | badStart c => "must start with a letter or underscore, found '" ++ String.singleton c ++ "'"
  | badCharacter c => "contains disallowed character '" ++ String.singleton c ++ "'"

end NameFault

/-- ASCII letters and the underscore. -/
def isNameStart (c : Char) : Bool := c.isAlpha || c == '_'

/-- ASCII letters, digits and the underscore. -/
def isNamePart (c : Char) : Bool := c.isAlphanum || c == '_'

/-- ASCII letters, digits, the underscore and the hyphen. -/
def isLiteralPart (c : Char) : Bool := isNamePart c || c == '-'

def checkCharacters (p : Char → Bool) (cs : List Char) : Except NameFault Unit :=
  match cs.find? (fun c => !p c) with
  | none => .ok ()
  | some c => .error (.badCharacter c)

def checkLength (name : String) : Except NameFault Unit :=
  if name.isEmpty then .error .empty
  else if maxNameBytes < name.utf8ByteSize then .error .tooLong
  else .ok ()

/-- A schema, table or column: a letter or underscore, then letters, digits and underscores. -/
def checkIdentifier (name : String) : Except NameFault Unit :=
  match checkLength name with
  | .error e => .error e
  | .ok () =>
    match name.toList with
    | [] => .ok ()
    | c :: cs => if isNameStart c then checkCharacters isNamePart cs else .error (.badStart c)

/-- A job or a database: letters, digits, underscores and hyphens. -/
def checkLiteral (name : String) : Except NameFault Unit :=
  match checkLength name with
  | .error e => .error e
  | .ok () => checkCharacters isLiteralPart name.toList

theorem checkCharacters_eq_ok_iff {p : Char → Bool} {cs : List Char} :
    checkCharacters p cs = .ok () ↔ ∀ c ∈ cs, p c := by
  unfold checkCharacters
  cases h : cs.find? (fun c => !p c) with
  | none => simpa using h
  | some c =>
    have hc := List.find?_some h
    have hm := List.mem_of_find?_eq_some h
    simp only [reduceCtorEq, false_iff]
    intro hall
    simp [hall c hm] at hc

end RetentionJobs.Job
