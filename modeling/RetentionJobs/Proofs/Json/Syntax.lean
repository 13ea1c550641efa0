import Mathlib.Data.List.Forall2
import RetentionJobs.Json.Reader
import RetentionJobs.Json.Value
import RetentionJobs.Text.Blank
/-! The texts that JSON allows for a value: gaps between tokens, strings in every spelling, numbers
in every form, and arrays and objects of any depth. -/
namespace RetentionJobs.Json
open RetentionJobs.Text

/-- Blanks between tokens. -/
def IsGap (cs : List Char) : Prop := ∀ c ∈ cs, isGap c

/-! ### Strings -/

/-- A hexadecimal digit in lower or upper case. -/
def IsHexDigit (c : Char) (n : Nat) : Prop := n < 16 ∧ ∃ letters, c = hexDigit letters n

/-- Four hexadecimal digits. -/
inductive IsQuad : Nat → List Char → Prop
  | mk {a b c d : Char} {i j k l : Nat} (ha : IsHexDigit a i) (hb : IsHexDigit b j)
    (hc : IsHexDigit c k) (hd : IsHexDigit d l) :
    IsQuad (((i * 16 + j) * 16 + k) * 16 + l) [a, b, c, d]

/-- The letters of the short escapes, and what they stand for. -/
def shortEscapes : List (Char × Char) :=
  [('"', '"'), ('\\', '\\'), ('/', '/'), ('b', '\x08'), ('f', '\x0c'), ('n', '\n'), ('r', '\r'),
   ('t', '\t')]

/-- A character that may stand in a string as it is. -/
def IsPlain (c : Char) : Prop := 32 ≤ c.toNat ∧ c ≠ '"' ∧ c ≠ '\\'

/-- The spellings of a character in a string. The code of a character is one unit of 16 bits, or a
pair of surrogates. -/
inductive Spelled : Char → List Char → Prop
  | plain {c : Char} (h : IsPlain c) : Spelled c [c]
  | short {e c : Char} (h : (e, c) ∈ shortEscapes) : Spelled c ['\\', e]
  | unit {c : Char} {quad : List Char} (h : IsQuad c.toNat quad) : Spelled c ('\\' :: 'u' :: quad)
  | pair {c : Char} {high low : List Char} (hc : 0x10000 ≤ c.toNat)
    (hhigh : IsQuad (0xD800 + (c.toNat - 0x10000) / 0x400) high)
    (hlow : IsQuad (0xDC00 + (c.toNat - 0x10000) % 0x400) low) :
    Spelled c ('\\' :: 'u' :: (high ++ '\\' :: 'u' :: low))

/-- What may stand between the quotes of a string. -/
inductive IsBody : List Char → List Char → Prop
  | nil : IsBody [] []
  | cons {c : Char} {s text body : List Char} (hc : Spelled c text) (hs : IsBody s body) :
    IsBody (c :: s) (text ++ body)

/-- The texts of a string. -/
def IsText (s : String) (cs : List Char) : Prop :=
  ∃ body, IsBody s.toList body ∧ cs = '"' :: (body ++ ['"'])

/-- What may stand between the quotes of a string that is passed over. Its units need not be the
code of a character. -/
inductive IsLoose : List Char → Prop
  | nil : IsLoose []
  | plain {c : Char} {body : List Char} (h : IsPlain c) (hbody : IsLoose body) : IsLoose (c :: body)
  | short {e c : Char} {body : List Char} (h : (e, c) ∈ shortEscapes) (hbody : IsLoose body) :
    IsLoose ('\\' :: e :: body)
  | unit {n : Nat} {quad body : List Char} (h : IsQuad n quad) (hbody : IsLoose body) :
    IsLoose ('\\' :: 'u' :: (quad ++ body))

/-- The texts of strings that are passed over. -/
def IsLooseText (cs : List Char) : Prop := ∃ body, IsLoose body ∧ cs = '"' :: (body ++ ['"'])

/-! ### Numbers -/

def IsDigits (ds : List Char) : Prop := ds ≠ [] ∧ ∀ c ∈ ds, c.isDigit

/-- Digits without a zero in front of another one. -/
def IsWhole (ds : List Char) : Prop := IsDigits ds ∧ ∀ after, ds = '0' :: after → after = []

def IsFraction (cs : List Char) : Prop := cs = [] ∨ ∃ ds, IsDigits ds ∧ cs = '.' :: ds

def IsExponent (cs : List Char) : Prop :=
  cs = [] ∨ ∃ e sign ds, (e = 'e' ∨ e = 'E') ∧ (sign = [] ∨ sign = ['-'] ∨ sign = ['+']) ∧
    IsDigits ds ∧ cs = e :: (sign ++ ds)

/-- The texts of numbers. -/
def IsNumber (cs : List Char) : Prop :=
  ∃ sign whole fraction exponent, (sign = [] ∨ sign = ['-']) ∧ IsWhole whole ∧
    IsFraction fraction ∧ IsExponent exponent ∧ cs = sign ++ (whole ++ (fraction ++ exponent))

/-! ### Values -/

/-- A text with gaps around it. -/
structure Padded where
  before : List Char
  text : List Char
  after : List Char
  gap_before : IsGap before
  gap_after : IsGap after

def Padded.write (p : Padded) : List Char := p.before ++ (p.text ++ p.after)

/-- The key of a member and its value. -/
structure Entry where
  key : Padded
  value : Padded

def Entry.write (e : Entry) : List Char := e.key.write ++ ':' :: e.value.write

/-- Texts between brackets, with commas in between. -/
def Encloses (opening closing : Char) (parts : List (List Char)) (cs : List Char) : Prop :=
  (parts = [] ∧ ∃ gap, IsGap gap ∧ cs = opening :: (gap ++ [closing])) ∨
    (parts ≠ [] ∧ cs = opening :: (join [','] parts ++ [closing]))

/-- The texts of an array. -/
def IsArray (items : List Padded) (cs : List Char) : Prop :=
  Encloses '[' ']' (items.map Padded.write) cs

/-- The texts of an object. -/
def IsObject (entries : List Entry) (cs : List Char) : Prop :=
  Encloses '\x7b' '\x7d' (entries.map Entry.write) cs

def literals : List (List Char) :=
  [['n', 'u', 'l', 'l'], ['t', 'r', 'u', 'e'], ['f', 'a', 'l', 's', 'e']]

/-- The texts of values. -/
inductive IsValue : List Char → Prop
  | literal {cs : List Char} (h : cs ∈ literals) : IsValue cs
  | string {cs : List Char} (h : IsLooseText cs) : IsValue cs
  | number {cs : List Char} (h : IsNumber cs) : IsValue cs
  | array {items : List Padded} {cs : List Char} (h : IsArray items cs)
    (hitems : ∀ item ∈ items, IsValue item.text) : IsValue cs
  | object {entries : List Entry} {cs : List Char} (h : IsObject entries cs)
    (hkeys : ∀ e ∈ entries, IsLooseText e.key.text)
    (hvalues : ∀ e ∈ entries, IsValue e.value.text) : IsValue cs

/-! ### Values of known shape -/

/-- A value or null. -/
def IsNullable {α : Type} (P : α → List Char → Prop) : Option α → List Char → Prop
  | none, cs => cs = ['n', 'u', 'l', 'l']
  | some a, cs => P a cs

/-- An array with an item for each value. -/
def IsListOf {α : Type} (P : α → List Char → Prop) (as : List α) (cs : List Char) : Prop :=
  ∃ items, IsArray items cs ∧ List.Forall₂ (fun a item => P a item.text) as items

/-- A member whose key is a text of `name`. -/
structure Named extends Entry where
  name : String
  spelled : IsText name key.text

/-- The texts of an object with these members. -/
def IsObjectOf (ms : List Named) (cs : List Char) : Prop := IsObject (ms.map Named.toEntry) cs

/-- A part of a record: the key of its member, the texts of its value, and when it may be left
out. -/
structure Slot (α : Type) where
  key : String
  carries : α → List Char → Prop
  optional : α → Prop

/-- The members carry the parts of `a`, in any order and among any others. -/
structure Carries {α : Type} (slots : List (Slot α)) (a : α) (ms : List Named) : Prop where
  known : ∀ slot ∈ slots, ∀ m ∈ ms, m.name = slot.key → slot.carries a m.value.text
  once : ∀ slot ∈ slots, (ms.map Named.name).count slot.key ≤ 1
  complete : ∀ slot ∈ slots, slot.key ∉ ms.map Named.name → slot.optional a
  others : ∀ m ∈ ms, m.name ∉ slots.map Slot.key → IsValue m.value.text

/-- The texts of a record. -/
def IsRecord {α : Type} (slots : List (Slot α)) (a : α) (cs : List Char) : Prop :=
  ∃ ms, IsObjectOf ms cs ∧ Carries slots a ms

/-- A known key has more than one member. -/
def Repeats {α : Type} (slots : List (Slot α)) (ms : List Named) : Prop :=
  ∃ slot ∈ slots, 2 ≤ (ms.map Named.name).count slot.key

/-- What may follow a value: nothing, a gap, a comma or a closing bracket. -/
def Closes (rest : List Char) : Prop :=
  ∀ c ∈ rest.head?, isGap c ∨ c = ',' ∨ c = ']' ∨ c = '\x7d'

end RetentionJobs.Json
