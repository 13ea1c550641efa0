import RetentionJobs.Toml.Scalar
/-! Reading a TOML document. -/
namespace RetentionJobs.Toml

abbrev Reader (α : Type) := List Char → Option (α × List Char)

def isSpace (c : Char) : Bool := c == ' ' || c == '\t'

def skipSpace (cs : List Char) : List Char := cs.dropWhile isSpace

/-- The characters that stand for themselves: all but control characters, of which only the tab. -/
def isPlain (c : Char) : Bool := c == '\t' || (0x20 ≤ c.toNat && c.toNat != 0x7F)

def skipTrivia (inComment : Bool) : List Char → Option (List Char)
  | [] => some []
  | '\n' :: cs => skipTrivia false cs
  | '\r' :: '\n' :: cs => skipTrivia false cs
  | c :: cs =>
    if inComment then if isPlain c then skipTrivia true cs else none
    else if isSpace c then skipTrivia false cs
    else if c = '#' then skipTrivia true cs
    else some (c :: cs)

def lineEnd (cs : List Char) : Option (List Char) :=
  let cs := skipSpace cs
  let cs := match cs with
    | '#' :: cs => cs.dropWhile isPlain
    | cs => cs
  match cs with
  | [] => some []
  | '\n' :: cs => some cs
  | '\r' :: '\n' :: cs => some cs
  | _ => none

def escapedChar? : Char → Option Char
  | '"' => some '"'
  | '\\' => some '\\'
  | 'b' => some '\x08'
  | 't' => some '\t'
  | 'n' => some '\n'
  | 'f' => some '\x0c'
  | 'r' => some '\r'
  | 'e' => some '\x1b'
  | _ => none

/-- The character with the given number, which is written in hexadecimal. -/
def scalar? (hex : List Char) : Option Char := do
  let ds ← hex.mapM Text.hexValue?
  let n := ds.foldl (fun n d => n * 16 + d) 0
  if n.isValidChar then some (Char.ofNat n) else none

def escape : Reader Char
  | 'x' :: a :: b :: cs => (scalar? [a, b]).map (·, cs)
  | 'u' :: a :: b :: c :: d :: cs => (scalar? [a, b, c, d]).map (·, cs)
  | 'U' :: a :: b :: c :: d :: e :: f :: g :: h :: cs =>
    (scalar? [a, b, c, d, e, f, g, h]).map (·, cs)
  | c :: cs => (escapedChar? c).map (·, cs)
  | [] => none

theorem escape_length_lt {cs rest : List Char} {c : Char} (h : escape cs = some (c, rest)) :
    rest.length < cs.length := by
  unfold escape at h
  split at h <;> simp only [Option.map_eq_some_iff, Prod.mk.injEq, reduceCtorEq] at h <;>
    obtain ⟨_, _, _, rfl⟩ := h <;> simp only [List.length_cons] <;> omega

/-- The rest of a string on one line, after its opening quote. -/
def basicBody (cs : List Char) : Option (List Char × List Char) :=
  match cs with
  | [] => none
  | '"' :: rest => some ([], rest)
  | '\\' :: after =>
    match _h : escape after with
    | none => none
    | some (c, rest) => do
      let (s, rest) ← basicBody rest
      return (c :: s, rest)
  | c :: rest => do
    if isPlain c then
      let (s, rest) ← basicBody rest
      return (c :: s, rest)
    else none
termination_by cs.length
decreasing_by
  all_goals simp_wf
  · have := escape_length_lt _h; omega

/-- The rest of a string without escapes on one line, after its opening quote. -/
def literalBody : Reader (List Char)
  | [] => none
  | '\x27' :: rest => some ([], rest)
  | c :: rest => do
    if isPlain c then
      let (s, rest) ← literalBody rest
      return (c :: s, rest)
    else none

/-- Where a string over several lines stands after a backslash at a line's end. -/
inductive Fold where
  | no
  /-- After the backslash, before the line break. -/
  | pending
  /-- After the line break, where blanks and line breaks are dropped. -/
  | dropping
  deriving DecidableEq, Repr

/-- Whether nothing but spaces stands before the next line break. -/
def foldsLine (cs : List Char) : Bool :=
  match skipSpace cs with
  | '\n' :: _ => true
  | '\r' :: '\n' :: _ => true
  | _ => false

/-- The rest of a string over several lines, after its opening quotes. One or two quotes may stand
before the three that close it. -/
def longBody (fold : Fold) (cs : List Char) : Option (List Char × List Char) :=
  match cs with
  | [] => none
  | '\n' :: rest =>
    if fold = .no then do
      let (s, rest) ← longBody .no rest
      return ('\n' :: s, rest)
    else longBody .dropping rest
  | '\r' :: '\n' :: rest =>
    if fold = .no then do
      let (s, rest) ← longBody .no rest
      return ('\r' :: '\n' :: s, rest)
    else longBody .dropping rest
  | '"' :: '"' :: '"' :: '"' :: '"' :: rest => some (['"', '"'], rest)
  | '"' :: '"' :: '"' :: '"' :: rest => some (['"'], rest)
  | '"' :: '"' :: '"' :: rest => some ([], rest)
  | '\\' :: after =>
    if foldsLine after then longBody .pending after
    else match _h : escape after with
      | none => none
      | some (c, rest) => do
        let (s, rest) ← longBody .no rest
        return (c :: s, rest)
  | c :: rest =>
    if fold ≠ .no ∧ isSpace c then longBody fold rest
    else if isPlain c then do
      let (s, rest) ← longBody .no rest
      return (c :: s, rest)
    else none
termination_by cs.length
decreasing_by
  all_goals simp_wf
  all_goals first
    | omega
    | have := escape_length_lt _h; omega

/-- The rest of a string without escapes over several lines, after its opening quotes. -/
def longLiteralBody : Reader (List Char)
  | [] => none
  | '\x27' :: '\x27' :: '\x27' :: '\x27' :: '\x27' :: rest => some (['\x27', '\x27'], rest)
  | '\x27' :: '\x27' :: '\x27' :: '\x27' :: rest => some (['\x27'], rest)
  | '\x27' :: '\x27' :: '\x27' :: rest => some ([], rest)
  | '\r' :: '\n' :: rest => do
    let (s, rest) ← longLiteralBody rest
    return ('\r' :: '\n' :: s, rest)
  | c :: rest => do
    if c = '\n' ∨ isPlain c then
      let (s, rest) ← longLiteralBody rest
      return (c :: s, rest)
    else none

/-- Drops the line break right after the opening quotes of a string over several lines. -/
def dropBreak : List Char → List Char
  | '\n' :: cs => cs
  | '\r' :: '\n' :: cs => cs
  | cs => cs

def string : Reader String := fun cs =>
  let read := match cs with
    | '"' :: '"' :: '"' :: cs => longBody .no (dropBreak cs)
    | '"' :: cs => basicBody cs
    | '\x27' :: '\x27' :: '\x27' :: cs => longLiteralBody (dropBreak cs)
    | '\x27' :: cs => literalBody cs
    | _ => none
  read.map (fun (s, rest) => (.ofList s, rest))

def isBareKey (c : Char) : Bool := c.isAlphanum || c == '_' || c == '-'

def keyPart : Reader String := fun cs =>
  match cs with
  | '"' :: cs => (basicBody cs).map (fun (s, rest) => (.ofList s, rest))
  | '\x27' :: cs => (literalBody cs).map (fun (s, rest) => (.ofList s, rest))
  | cs =>
    match cs.takeWhile isBareKey with
    | [] => none
    | part => some (.ofList part, cs.dropWhile isBareKey)

/-- The parts of a dotted key, with spaces around the dots, as the ones before the last and the last
one. `fuel` bounds their number. -/
def keyParts : Nat → Reader (List String × String)
  | 0, _ => none
  | fuel + 1, cs => do
    let (part, rest) ← keyPart (skipSpace cs)
    match skipSpace rest with
    | '.' :: rest =>
      let ((path, last), rest) ← keyParts fuel rest
      return ((part :: path, last), rest)
    | rest => return (([], part), rest)

def key : Reader (List String × String) := fun cs => keyParts (cs.length + 1) cs

def isLiteral (c : Char) : Bool :=
  c.isAlphanum || c == '_' || c == '+' || c == '-' || c == '.' || c == ':'

/-- A literal. A date takes in a time that follows it after one space. -/
def literal : Reader Value := fun cs =>
  let front := cs.takeWhile isLiteral
  let rest := cs.dropWhile isLiteral
  let (front, rest) := match rest with
    | ' ' :: c :: more =>
      if isDate front ∧ c.isDigit then
        (front ++ ' ' :: (c :: more).takeWhile isLiteral, (c :: more).dropWhile isLiteral)
      else (front, rest)
    | _ => (front, rest)
  (literal? front).map (·, rest)

mutual

/-- A value. `fuel` bounds the number of tokens. -/
def valueWith : Nat → Reader Value
  | 0, _ => none
  | fuel + 1, cs =>
    match cs with
    | '[' :: cs => do
      let cs ← skipTrivia false cs
      let (items, rest) ← itemsWith fuel cs
      return (.array items, rest)
    | '\x7b' :: cs => do
      let cs ← skipTrivia false cs
      let (t, rest) ← membersWith fuel ⟨.inline, []⟩ cs
      return (.table t.kind t.entries, rest)
    | c :: _ =>
      if c = '"' ∨ c = '\x27' then (string cs).map (fun (s, rest) => (.string s, rest))
      else literal cs
    | [] => none

/-- The items of an array and its closing bracket. A comma may follow the last one. -/
def itemsWith : Nat → Reader (List Value)
  | 0, _ => none
  | fuel + 1, cs =>
    match cs with
    | ']' :: rest => some ([], rest)
    | cs => do
      let (v, rest) ← valueWith fuel cs
      match ← skipTrivia false rest with
      | ']' :: rest => return ([v], rest)
      | ',' :: rest =>
        let (vs, rest) ← itemsWith fuel (← skipTrivia false rest)
        return (v :: vs, rest)
      | _ => none

/-- The members of a table in braces and its closing brace. A comma may follow the last one. -/
def membersWith : Nat → Table → Reader Table
  | 0, _, _ => none
  | fuel + 1, t, cs =>
    match cs with
    | '\x7d' :: rest => some (t, rest)
    | cs => do
      let ((path, last), rest) ← key cs
      match rest with
      | '=' :: rest =>
        let (v, rest) ← valueWith fuel (skipSpace rest)
        let t ← t.assign path last v
        match ← skipTrivia false rest with
        | '\x7d' :: rest => return (t, rest)
        | ',' :: rest => membersWith fuel t (← skipTrivia false rest)
        | _ => none
      | _ => none

end

def value : Reader Value := fun cs => valueWith (2 * cs.length + 2) cs

/-- A document as far as it has been read: its table, and the header that keys belong to. -/
structure Document where
  root : Table := ⟨.header, []⟩
  current : List String := []

namespace Document

def header (d : Document) (opening : List String → String → Table → Option Table)
    (closing : List Char) (cs : List Char) : Option (Document × List Char) := do
  let ((path, last), rest) ← key cs
  if closing.isPrefixOf rest then
    let root ← opening path last d.root
    return (⟨root, path ++ [last]⟩, ← lineEnd (rest.drop closing.length))
  else none

def keyValue (d : Document) (cs : List Char) : Option (Document × List Char) := do
  let ((path, last), rest) ← key cs
  match rest with
  | '=' :: rest =>
    let (v, rest) ← value (skipSpace rest)
    let root ← d.root.alter false (·.assign path last v) d.current
    return (⟨root, d.current⟩, ← lineEnd rest)
  | _ => none

def line (d : Document) (cs : List Char) : Option (Document × List Char) :=
  match cs with
  | '[' :: '[' :: cs => d.header Table.openElement [']', ']'] cs
  | '[' :: cs => d.header Table.openTable [']'] cs
  | cs => d.keyValue cs

/-- The remaining lines. `fuel` bounds their number. -/
def lines : Nat → Document → List Char → Option Document
  | 0, _, _ => none
  | fuel + 1, d, cs => do
    match ← skipTrivia false cs with
    | [] => return d
    | cs =>
      let (d, rest) ← d.line cs
      lines fuel d rest

end Document

/-- The entries of a document. A byte order mark in front of it is passed over. -/
def read (text : String) : Option Entries :=
  let cs := match text.toList with
    | '\ufeff' :: cs => cs
    | cs => cs
  (Document.lines (cs.length + 1) {} cs).map (·.root.entries)

end RetentionJobs.Toml
