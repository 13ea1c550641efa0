import Mathlib.Data.List.Basic
import RetentionJobs.Proofs.Sql.Scanner
/-! The numbers that SQL text gives after a keyword: the row counts after LIMIT, and the days of the
literals after INTERVAL. -/
namespace RetentionJobs.Sql
open RetentionJobs.Text

/-- The lexemes of a body in its place. One that cannot be scanned is left as it is. -/
def expand : Lexeme → List Lexeme
  | .body content => (scan content).getD [.body content]
  | lexeme => [lexeme]

/-- The lexemes of a text and of the bodies inside of it. -/
def scanThrough (cs : List Char) : Option (List Lexeme) :=
  (scan cs).map (fun lexemes => lexemes.flatMap expand)

/-- The numbers that `read` finds right after the occurrences of a word. -/
def operands (keyword : String) (read : List Lexeme → Option Int) : List Lexeme → List Int
  | [] => []
  | l :: ls =>
    if l = .word keyword.toList then (read ls).toList ++ operands keyword read ls
    else operands keyword read ls

/-- A space and a whole number. -/
def rowCount? : List Lexeme → Option Int
  | .sign ' ' :: .number ds :: _ => readSigned? ds
  | .sign ' ' :: .sign '-' :: .number ds :: _ => readSigned? ('-' :: ds)
  | _ => none

/-- A space and a literal with a whole number of days. -/
def dayCount? : List Lexeme → Option Int
  | .sign ' ' :: .literal content :: _ =>
    match splitFirst ' ' content with
    | (count, some unit) => if unit = "days".toList then readSigned? count else none
    | (_, none) => none
  | _ => none

def limits (lexemes : List Lexeme) : List Int := operands "LIMIT" rowCount? lexemes

def intervals (lexemes : List Lexeme) : List Int := operands "INTERVAL" dayCount? lexemes

section
variable {keyword : String} {read : List Lexeme → Option Int}

/-- The lexemes give the numbers `out` after the keyword, whatever follows them. -/
def Gives (keyword : String) (read : List Lexeme → Option Int) (ls : List Lexeme)
    (out : List Int) : Prop :=
  ∀ rest, operands keyword read (ls ++ rest) = out ++ operands keyword read rest

theorem Gives.operands_eq {ls : List Lexeme} {out : List Int} (h : Gives keyword read ls out) :
    operands keyword read ls = out := by
  simpa [operands] using h []

theorem Gives.append {ls ls' : List Lexeme} {out out' : List Int} (h : Gives keyword read ls out)
    (h' : Gives keyword read ls' out') : Gives keyword read (ls ++ ls') (out ++ out') := by
  intro rest
  rw [List.append_assoc, h, h', List.append_assoc]

theorem gives_of_not_mem {ls : List Lexeme} (h : .word keyword.toList ∉ ls) :
    Gives keyword read ls [] := by
  intro rest
  induction ls with
  | nil => rfl
  | cons l ls ih =>
    have hl : l ≠ .word keyword.toList := fun he => h (he ▸ List.mem_cons_self)
    have hls := ih (fun hmem => h (List.mem_cons_of_mem l hmem))
    rw [List.cons_append, operands, if_neg hl, hls]

/-- A word gives nothing before a lexeme that begins no number, even if it is the keyword. -/
theorem gives_word {w : List Char} {l : Lexeme} (hl : l ≠ .word keyword.toList)
    (hread : ∀ rest, read (l :: rest) = none) : Gives keyword read [.word w, l] [] := by
  intro rest
  simp [operands, hl, hread]

theorem gives_keyword {ls : List Lexeme} {n : Int} (hread : ∀ rest, read (ls ++ rest) = some n)
    (hls : Gives keyword read ls []) : Gives keyword read (.word keyword.toList :: ls) [n] := by
  intro rest
  rw [List.cons_append, operands, if_pos rfl, hread, hls]
  rfl

theorem gives_flatten {pieces : List (List Lexeme)} {outs : List (List Int)}
    (h : List.Forall₂ (Gives keyword read) pieces outs) :
    Gives keyword read pieces.flatten outs.flatten := by
  induction h with
  | nil => exact fun _ => rfl
  | cons hfirst _ ih => exact hfirst.append ih

theorem gives_intercalate {α : Type} {sep : List Lexeme} {lexemes : α → List Lexeme}
    {out : α → List Int} (hsep : Gives keyword read sep []) {xs : List α}
    (h : ∀ x ∈ xs, Gives keyword read (lexemes x) (out x)) :
    Gives keyword read (sep.intercalate (xs.map lexemes)) (xs.flatMap out) := by
  induction xs with
  | nil => exact fun _ => rfl
  | cons x xs ih =>
    have hx : Gives keyword read (lexemes x) (out x) := h x List.mem_cons_self
    have ih := ih (fun y hy => h y (List.mem_cons_of_mem x hy))
    cases xs with
    | nil => simpa using hx
    | cons y ys =>
      have hfirst : Gives keyword read (lexemes x ++ sep) (out x) := by simpa using hx.append hsep
      simp only [List.map_cons, List.intercalate_cons_cons, List.flatMap_cons] at ih ⊢
      exact hfirst.append ih

end

theorem rowCount?_integer (n : Int) (rest : List Lexeme) :
    rowCount? (.sign ' ' :: (integer n ++ rest)) = some n := by
  rw [← readSigned?_decimal n]
  cases n with
  | ofNat n => rfl
  | negSucc n => rfl

theorem dayCount?_days (n : Int) (rest : List Lexeme) :
    dayCount? (.sign ' ' :: .literal (decimal n ++ " days".toList) :: rest) = some n := by
  have hspace : ' ' ∉ decimal n := not_mem_decimal rfl (by decide)
  have hsplit : splitFirst ' ' (decimal n ++ " days".toList) = (decimal n, some "days".toList) :=
    splitFirst_append hspace _
  simp only [dayCount?, hsplit, if_true, readSigned?_decimal]

end RetentionJobs.Sql
