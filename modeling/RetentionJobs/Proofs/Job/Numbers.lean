import RetentionJobs.Proofs.Job.Quoting
import RetentionJobs.Proofs.Sql.Numbers
/-! The numbers in the lexemes of a statement: the row count of its purge is the only one, and its
intervals are those of the condition, in their order. -/
namespace RetentionJobs.Job
open RetentionJobs.Text RetentionJobs.Sql

/-- The fixed texts of a statement, except those that stand right before its numbers. -/
def fixedTexts : List String :=
  ["om.", " AT TIME ZONE ", " < NOW() AT TIME ZONE ", " AND ", " with om_cte as (select om.",
    " from ", " om WHERE ", " delete from ", " om where om.", " in (select ", " from om_cte);",
    "SELECT cron.schedule(", ", ", ");"]

/-- The lexemes of an interval, from the end of the comparison before it. -/
def intervalLexemes (days : Int) : List Lexeme :=
  plain " - INTERVAL " ++ [.literal (decimal days ++ " days".toList)]

/-- The lexemes of a row count, from the end of the condition before it. -/
def limitLexemes (limit : Int) : List Lexeme := plain " LIMIT " ++ (integer limit ++ [.sign ')'])

/-- The lexemes of a condition with some columns and days. -/
def conditionLexemes (clauses : List (String × Int)) : List Lexeme :=
  (plain " AND ").intercalate (clauses.map (fun p => clauseLexemes p.1 p.2))

/-- The lexemes of a statement and of the purge inside of it. -/
def throughLexemes (database job cron : String) (purge : List Lexeme) : List Lexeme :=
  List.flatten [plain "SELECT cron.schedule(",
    [.literal (database ++ "-" ++ job ++ "-job").toList], plain ", ", [.literal cron.toList],
    plain ", ", purge, plain ", ", [.literal database.toList], plain ");"]

theorem expand_statementLexemes {body : List Char} {purge : List Lexeme}
    (hbody : scan body = some purge) (database job cron : String) :
    (statementLexemes database job cron body).flatMap expand =
      throughLexemes database job cron purge := by
  have hselect : (plain "SELECT cron.schedule(").flatMap expand = plain "SELECT cron.schedule(" := by
    decide +kernel
  have hcomma : (plain ", ").flatMap expand = plain ", " := by decide +kernel
  have hclose : (plain ");").flatMap expand = plain ");" := by decide +kernel
  simp [statementLexemes, throughLexemes, hselect, hcomma, hclose, expand, hbody]

section
variable {keyword : String} {read : List Lexeme → Option Int}
  (hfixed : ∀ text ∈ fixedTexts, .word keyword.toList ∉ plain text)
include hfixed

theorem gives_fixedText (text : String) (h : text ∈ fixedTexts) :
    Gives keyword read (plain text) [] :=
  gives_of_not_mem (hfixed text h)

theorem gives_clauseLexemes {days : Int} {out : List Int}
    (hdays : Gives keyword read (intervalLexemes days) out) (column : String) :
    Gives keyword read (clauseLexemes column days) out := by
  have hpieces : clauseLexemes column days =
      List.flatten [plain "om.", [.quoted column.toList], plain " AT TIME ZONE ",
        [.literal "UTC".toList], plain " < NOW() AT TIME ZONE ", [.literal "UTC".toList],
        intervalLexemes days] := by
    simp [clauseLexemes, intervalLexemes]
  have hcolumn : Gives keyword read [.quoted column.toList] [] := gives_of_not_mem (by simp)
  have hutc : Gives keyword read [.literal "UTC".toList] [] := gives_of_not_mem (by simp)
  have hall := gives_flatten (.cons (gives_fixedText hfixed "om." (by decide)) (.cons hcolumn
    (.cons (gives_fixedText hfixed " AT TIME ZONE " (by decide)) (.cons hutc
      (.cons (gives_fixedText hfixed " < NOW() AT TIME ZONE " (by decide)) (.cons hutc
        (.cons hdays .nil)))))))
  rw [hpieces]
  simpa using hall

/-- A purge gives the numbers of its condition and of its row count. Its schema gives none, even if
it is the keyword. -/
theorem gives_purgeLexemes (hdot : ∀ rest, read (.sign '.' :: rest) = none)
    {condition : List Lexeme} {limit : Int} {out outLimit : List Int}
    (hcondition : Gives keyword read condition out)
    (hlimit : Gives keyword read (limitLexemes limit) outLimit) (schema table : String) :
    Gives keyword read (purgeLexemes schema table condition limit) (out ++ outLimit) := by
  have hpieces : purgeLexemes schema table condition limit =
      List.flatten [plain " with om_cte as (select om.", [.quoted "Id".toList], plain " from ",
        [.word schema.toList, .sign '.'], [.quoted table.toList], plain " om WHERE ", condition,
        limitLexemes limit, plain " delete from ", [.word schema.toList, .sign '.'],
        [.quoted table.toList], plain " om where om.", [.quoted "Id".toList],
        plain " in (select ", [.quoted "Id".toList], plain " from om_cte);"] := by
    simp [purgeLexemes, limitLexemes]
  have hid : Gives keyword read [.quoted "Id".toList] [] := gives_of_not_mem (by simp)
  have htable : Gives keyword read [.quoted table.toList] [] := gives_of_not_mem (by simp)
  have hschema : Gives keyword read [.word schema.toList, .sign '.'] [] :=
    gives_word (by simp) hdot
  have hall := gives_flatten
    (.cons (gives_fixedText hfixed " with om_cte as (select om." (by decide)) (.cons hid
      (.cons (gives_fixedText hfixed " from " (by decide)) (.cons hschema (.cons htable
      (.cons (gives_fixedText hfixed " om WHERE " (by decide)) (.cons hcondition (.cons hlimit
        (.cons (gives_fixedText hfixed " delete from " (by decide)) (.cons hschema (.cons htable
          (.cons (gives_fixedText hfixed " om where om." (by decide)) (.cons hid
            (.cons (gives_fixedText hfixed " in (select " (by decide)) (.cons hid
              (.cons (gives_fixedText hfixed " from om_cte);" (by decide)) .nil))))))))))))))))
  rw [hpieces]
  simpa using hall

theorem gives_throughLexemes {purge : List Lexeme} {out : List Int}
    (hpurge : Gives keyword read purge out) (database job cron : String) :
    Gives keyword read (throughLexemes database job cron purge) out := by
  have hliteral (text : List Char) : Gives keyword read [.literal text] [] :=
    gives_of_not_mem (by simp)
  have hall := gives_flatten (.cons (gives_fixedText hfixed "SELECT cron.schedule(" (by decide))
    (.cons (hliteral (database ++ "-" ++ job ++ "-job").toList)
      (.cons (gives_fixedText hfixed ", " (by decide)) (.cons (hliteral cron.toList)
        (.cons (gives_fixedText hfixed ", " (by decide)) (.cons hpurge
          (.cons (gives_fixedText hfixed ", " (by decide)) (.cons (hliteral database.toList)
            (.cons (gives_fixedText hfixed ");" (by decide)) .nil)))))))))
  rw [throughLexemes]
  simpa using hall

end

theorem limit_not_mem : ∀ text ∈ fixedTexts, Lexeme.word "LIMIT".toList ∉ plain text := by
  decide +kernel

theorem interval_not_mem : ∀ text ∈ fixedTexts, Lexeme.word "INTERVAL".toList ∉ plain text := by
  decide +kernel

theorem limits_limitLexemes (n : Int) : Gives "LIMIT" rowCount? (limitLexemes n) [n] := by
  have hpieces : limitLexemes n =
      [.sign ' '] ++ .word "LIMIT".toList :: .sign ' ' :: (integer n ++ [.sign ')']) := by
    have hlimit : plain " LIMIT " = [.sign ' ', .word "LIMIT".toList, .sign ' '] := by
      decide +kernel
    rw [limitLexemes, hlimit]
    rfl
  have hspace : Gives "LIMIT" rowCount? [.sign ' '] [] := gives_of_not_mem (by simp)
  have hcount : Gives "LIMIT" rowCount? (.sign ' ' :: (integer n ++ [.sign ')'])) [] := by
    refine gives_of_not_mem ?_
    cases n with
    | ofNat n => simp [integer]
    | negSucc n => simp [integer]
  rw [hpieces]
  refine hspace.append (gives_keyword ?_ hcount)
  intro rest
  rw [List.cons_append, List.append_assoc, rowCount?_integer]

theorem intervals_limitLexemes (n : Int) : Gives "INTERVAL" dayCount? (limitLexemes n) [] := by
  have hlimit : Gives "INTERVAL" dayCount? (plain " LIMIT ") [] :=
    gives_of_not_mem (by decide +kernel)
  refine hlimit.append (gives_of_not_mem ?_)
  cases n with
  | ofNat n => simp [integer]
  | negSucc n => simp [integer]

theorem limits_intervalLexemes (n : Int) : Gives "LIMIT" rowCount? (intervalLexemes n) [] := by
  have hinterval : Gives "LIMIT" rowCount? (plain " - INTERVAL ") [] :=
    gives_of_not_mem (by decide +kernel)
  exact hinterval.append (gives_of_not_mem (by simp))

theorem intervals_intervalLexemes (n : Int) :
    Gives "INTERVAL" dayCount? (intervalLexemes n) [n] := by
  have hpieces : intervalLexemes n =
      [.sign ' ', .sign '-', .sign ' '] ++
        .word "INTERVAL".toList :: [.sign ' ', .literal (decimal n ++ " days".toList)] := by
    have hinterval : plain " - INTERVAL " =
        [.sign ' ', .sign '-', .sign ' ', .word "INTERVAL".toList, .sign ' '] := by
      decide +kernel
    rw [intervalLexemes, hinterval]
    rfl
  have hminus : Gives "INTERVAL" dayCount? [.sign ' ', .sign '-', .sign ' '] [] :=
    gives_of_not_mem (by simp)
  rw [hpieces]
  exact hminus.append (gives_keyword (dayCount?_days n) (gives_of_not_mem (by simp)))

theorem limits_purgeLexemes (schema table : String) (clauses : List (String × Int)) (limit : Int) :
    Gives "LIMIT" rowCount? (purgeLexemes schema table (conditionLexemes clauses) limit) [limit] := by
  have hcondition : Gives "LIMIT" rowCount? (conditionLexemes clauses)
      (clauses.flatMap (fun _ => [])) :=
    gives_intercalate (gives_fixedText limit_not_mem " AND " (by decide))
      (fun p _ => gives_clauseLexemes limit_not_mem (limits_intervalLexemes p.2) p.1)
  have hnone : clauses.flatMap (fun _ => ([] : List Int)) = [] := by
    simp [List.flatMap_eq_nil_iff]
  rw [hnone] at hcondition
  exact gives_purgeLexemes limit_not_mem (fun _ => rfl) hcondition (limits_limitLexemes limit) schema
    table

theorem intervals_purgeLexemes (schema table : String) (clauses : List (String × Int))
    (limit : Int) :
    Gives "INTERVAL" dayCount? (purgeLexemes schema table (conditionLexemes clauses) limit)
      (clauses.map Prod.snd) := by
  have hcondition : Gives "INTERVAL" dayCount? (conditionLexemes clauses)
      (clauses.flatMap (fun p => [p.2])) :=
    gives_intercalate (gives_fixedText interval_not_mem " AND " (by decide))
      (fun p _ => gives_clauseLexemes interval_not_mem (intervals_intervalLexemes p.2) p.1)
  have hpurge := gives_purgeLexemes interval_not_mem (fun _ => rfl) hcondition
    (intervals_limitLexemes limit) schema table
  simpa [← List.map_eq_flatMap] using hpurge

end RetentionJobs.Job
