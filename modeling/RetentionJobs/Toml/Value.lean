/-! TOML values, and a document as a table that its lines fill one after another. -/
namespace RetentionJobs.Toml

/-- How a table came to be, which decides whether a later line may add to it. -/
inductive TableKind where
  /-- The document itself, or opened by a header of its own. -/
  | header
  /-- Passed through by the header of a table inside it. -/
  | implied
  /-- Passed through by a dotted key. -/
  | dotted
  /-- Written in braces. -/
  | inline
  deriving DecidableEq, Repr

inductive Value where
  | string (s : String)
  | integer (n : Int)
  /-- A number with a fraction or an exponent, or a special one, as it is written. -/
  | float (literal : List Char)
  | boolean (b : Bool)
  | datetime (literal : List Char)
  | array (items : List Value)
  /-- The elements that headers in double brackets opened. -/
  | tables (elements : List (List (String × Value)))
  | table (kind : TableKind) (entries : List (String × Value))

abbrev Entries := List (String × Value)

structure Table where
  kind : TableKind
  entries : Entries

namespace Table

def get? (t : Table) (key : String) : Option Value := t.entries.lookup key

/-- Gives `key` the value `v`, in place of its old value if it has one. -/
def set (t : Table) (key : String) (v : Value) : Table :=
  let t' := t.entries.map (fun e => if e.1 == key then (key, v) else e)
  ⟨t.kind, if (t.get? key).isSome then t' else t.entries ++ [(key, v)]⟩

/-- Applies `f` to the table that `path` leads to. Tables on the way that are missing are made.
A dotted key does not pass through a table that has a header, nothing passes through a table in
braces, and an array of tables is passed through at its last element. -/
def alter (dotted : Bool) (f : Table → Option Table) : List String → Table → Option Table
  | [], t => f t
  | key :: path, t =>
    match t.get? key with
    | none => do
      let sub ← alter dotted f path ⟨if dotted then .dotted else .implied, []⟩
      return t.set key (.table sub.kind sub.entries)
    | some (.table kind entries) =>
      if kind = .inline ∨ (dotted ∧ kind = .header) then none
      else do
        let sub ← alter dotted f path ⟨kind, entries⟩
        return t.set key (.table sub.kind sub.entries)
    | some (.tables elements) =>
      match elements.getLast? with
      | none => none
      | some last => do
        let sub ← alter dotted f path ⟨.header, last⟩
        return t.set key (.tables (elements.dropLast ++ [sub.entries]))
    | some _ => none

/-- Gives a dotted key its value. The last table on the way has to be one that dotted keys made. -/
def assign (path : List String) (key : String) (v : Value) (t : Table) : Option Table :=
  t.alter true (fun t =>
    if (t.kind = .dotted) = (path = []) then none
    else if (t.get? key).isSome then none
    else some (t.set key v)) path

/-- Opens the table of a header. It may have been passed through before, but not opened. -/
def openTable (path : List String) (key : String) (t : Table) : Option Table :=
  t.alter false (fun t =>
    match t.get? key with
    | none => some (t.set key (.table .header []))
    | some (.table .implied entries) => some (t.set key (.table .header entries))
    | some _ => none) path

/-- Opens a new element of an array of tables. -/
def openElement (path : List String) (key : String) (t : Table) : Option Table :=
  t.alter false (fun t =>
    match t.get? key with
    | none => some (t.set key (.tables [[]]))
    | some (.tables elements) => some (t.set key (.tables (elements ++ [[]])))
    | some _ => none) path

end Table
end RetentionJobs.Toml
