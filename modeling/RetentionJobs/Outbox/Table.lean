import RetentionJobs.Error
import RetentionJobs.Time.Instant
/-! The rows of an outbox. Their instants are kept as texts, and rows are listed in the order of
these texts. -/
namespace RetentionJobs.Outbox
open RetentionJobs.Time

structure Row where
  id : String
  statement : String
  submittedAt : String
  deriving DecidableEq, Repr

/-- The rows in the order in which they were inserted. -/
abbrev Table := List Row

structure Submitted where
  id : String
  statement : String
  submittedAt : Instant
  deriving DecidableEq, Repr

/-- Reads a row back. Its instant has to be one. -/
def Row.read (row : Row) : Except RepositoryError Submitted :=
  match Instant.read row.submittedAt with
  | .ok i => .ok ⟨row.id, row.statement, i⟩
  | .error e => .error (.schema ("invalid timestamp '" ++ row.submittedAt ++ "': " ++ e.message))

namespace Table

/-- The rows by the texts of their instants. Rows with the same text keep their order. -/
def sorted (t : Table) : Table := t.mergeSort (fun a b => decide (a.submittedAt ≤ b.submittedAt))

theorem sorted_perm (t : Table) : t.sorted.Perm t := List.mergeSort_perm ..

/-- Reads rows back one after another, up to the first that cannot be read. -/
def readAll : Table → Except RepositoryError (List Submitted)
  | [] => .ok []
  | row :: rows =>
    match row.read with
    | .error e => .error e
    | .ok s =>
      match readAll rows with
      | .error e => .error e
      | .ok ss => .ok (s :: ss)

/-- All rows, oldest first. -/
def list (t : Table) : Except RepositoryError (List Submitted) := t.sorted.readAll

/-- Adds a row, unless its id is taken. -/
def insert (row : Row) (t : Table) : Except String Table :=
  if t.any (·.id == row.id) then .error "UNIQUE constraint failed: scheduled_statements.id"
  else .ok (t ++ [row])

end Table
end RetentionJobs.Outbox
