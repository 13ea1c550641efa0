import RetentionJobs.Proofs.Job.Effective
import RetentionJobs.Proofs.Sql.Relations
/-! The relation that a statement purges. Its table stands in quotes and is the one that the job asks
for, but its schema is a bare word, which is read in lower case. -/
namespace RetentionJobs.Job
open RetentionJobs.Text RetentionJobs.Sql

/-- The fixed texts around the two places where a purge names its relation. -/
def plainTexts : List String :=
  ["om.", " AT TIME ZONE ", " < NOW() AT TIME ZONE ", " - INTERVAL ", " AND ",
    " with om_cte as (select om.", " om WHERE ", " LIMIT ", " om where om.", " in (select ",
    "SELECT cron.schedule(", ", ", ");"]

theorem from_not_mem_plain : ∀ text ∈ plainTexts, Lexeme.word fromWord ∉ plain text := by
  decide +kernel

theorem from_not_mem_clauseLexemes (column : String) (days : Int) :
    Lexeme.word fromWord ∉ clauseLexemes column days := by
  have h := from_not_mem_plain
  simp only [plainTexts, List.forall_mem_cons] at h
  simp [clauseLexemes, h]

theorem from_not_mem_conditionLexemes (clauses : List (String × Int)) :
    Lexeme.word fromWord ∉ conditionLexemes clauses := by
  have hand : Lexeme.word fromWord ∉ plain " AND " := from_not_mem_plain _ (by decide)
  unfold conditionLexemes
  induction clauses with
  | nil => simp
  | cons p clauses ih =>
    have hp := from_not_mem_clauseLexemes p.1 p.2
    cases clauses with
    | nil => simpa using hp
    | cons q clauses =>
      simp only [List.map_cons, List.intercalate_cons_cons, List.mem_append, not_or] at ih ⊢
      exact ⟨⟨hp, hand⟩, ih⟩

theorem from_not_mem_integer (n : Int) : Lexeme.word fromWord ∉ integer n := by
  cases n <;> simp [integer]

theorem relations_purgeLexemes {condition : List Lexeme}
    (hcondition : .word fromWord ∉ condition) (schema table : String) (limit : Int)
    (rest : List Lexeme) :
    relations (purgeLexemes schema table condition limit ++ rest) =
      ⟨fold schema.toList, table.toList⟩ :: ⟨fold schema.toList, table.toList⟩ ::
        relations rest := by
  have hfrom : plain " from " = [.sign ' ', .word fromWord, .sign ' '] := by decide +kernel
  have hdelete : plain " delete from " =
      [.sign ' ', .word "delete".toList, .sign ' ', .word fromWord, .sign ' '] := by
    decide +kernel
  have hcte : plain " from om_cte);" = [.sign ' ', .word fromWord, .sign ' ',
      .word "om_cte".toList, .sign ')', .sign ';'] := by
    decide +kernel
  have h := from_not_mem_plain
  simp only [plainTexts, List.forall_mem_cons] at h
  -- nothing is named before the select, between the select and the delete, and after the delete
  have hselect : Lexeme.word fromWord ∉
      plain " with om_cte as (select om." ++ [.quoted "Id".toList, .sign ' '] := by simp [h]
  have hbetween : Lexeme.word fromWord ∉ plain " om WHERE " ++ (condition ++
      (plain " LIMIT " ++ (integer limit ++
        [.sign ')', .sign ' ', .word "delete".toList, .sign ' ']))) := by
    have hword : fromWord ≠ ['d', 'e', 'l', 'e', 't', 'e'] := by decide
    simp [h, hcondition, from_not_mem_integer, hword]
  have hafter : Lexeme.word fromWord ∉ plain " om where om." ++ (.quoted "Id".toList ::
      (plain " in (select " ++ [.quoted "Id".toList, .sign ' '])) := by
    simp [h]
  have hlast : relations (.word fromWord :: .sign ' ' :: .word "om_cte".toList :: .sign ')' ::
      .sign ';' :: rest) = relations rest := by
    simp [relations, relation?]
  calc relations (purgeLexemes schema table condition limit ++ rest)
      = relations ((plain " with om_cte as (select om." ++ [.quoted "Id".toList, .sign ' ']) ++
          .word fromWord :: .sign ' ' :: .word schema.toList :: .sign '.' ::
            .quoted table.toList :: ((plain " om WHERE " ++ (condition ++ (plain " LIMIT " ++
              (integer limit ++ [.sign ')', .sign ' ', .word "delete".toList, .sign ' '])))) ++
          .word fromWord :: .sign ' ' :: .word schema.toList :: .sign '.' ::
            .quoted table.toList :: ((plain " om where om." ++ (.quoted "Id".toList ::
              (plain " in (select " ++ [.quoted "Id".toList, .sign ' ']))) ++
          .word fromWord :: .sign ' ' :: .word "om_cte".toList :: .sign ')' :: .sign ';' ::
            rest))) := by
        simp [purgeLexemes, hfrom, hdelete, hcte]
    _ = _ := by
        rw [relations_append_of_not_mem hselect, relations_from,
          relations_append_of_not_mem hbetween, relations_from,
          relations_append_of_not_mem hafter, hlast]

/-- The schema and the table that a job asks for. -/
def Definition.relation (job : Definition) : Relation := ⟨job.schema.toList, job.table.toList⟩

/-- The relation that the statement of a job names. -/
def Definition.target (job : Definition) : Relation := ⟨fold job.schema.toList, job.table.toList⟩

section
variable {th : Thresholds} {job : Definition} {c : Compiled}

/-- The select and the delete name one relation, and nothing else in the statement names any. -/
theorem relationsOf_compiled (h : compile {} th job = .ok c) :
    relationsOf c.query = some [job.target, job.target] := by
  have hplain := from_not_mem_plain
  simp only [plainTexts, List.forall_mem_cons] at hplain
  have hclose : relations (plain ", " ++ .literal job.databaseName.toList :: plain ");") = [] := by
    have hnone : Lexeme.word fromWord ∉
        plain ", " ++ .literal job.databaseName.toList :: plain ");" := by
      simp [hplain]
    simpa [relations] using relations_append_of_not_mem hnone []
  have hopen : Lexeme.word fromWord ∉ plain "SELECT cron.schedule(" ++
      (.literal (job.databaseName ++ "-" ++ job.jobName ++ "-job").toList :: (plain ", " ++
        (.literal c.cronExpression.toList :: plain ", "))) := by
    simp [hplain]
  have hcondition := from_not_mem_conditionLexemes (job.effective th).clauses
  have hpieces : throughLexemes job.databaseName job.jobName c.cronExpression
      (job.effective th).purgeLexemes =
        (plain "SELECT cron.schedule(" ++
          (.literal (job.databaseName ++ "-" ++ job.jobName ++ "-job").toList :: (plain ", " ++
            (.literal c.cronExpression.toList :: plain ", ")))) ++
        ((job.effective th).purgeLexemes ++
          (plain ", " ++ .literal job.databaseName.toList :: plain ");")) := by
    simp [throughLexemes]
  rw [relationsOf, scanThrough_of_compile h, Option.map_some, hpieces,
    relations_append_of_not_mem hopen, Effective.purgeLexemes, relations_purgeLexemes hcondition,
    hclose]
  rfl

/-- The statement of a job names the schema that the job asks for exactly when it has no capital
letter. Two jobs purge one relation exactly when they ask for the same table in schemas that differ
in letter case at most. -/
theorem relation_purged_iff {th' : Thresholds} {job' : Definition} {c' : Compiled}
    (h : compile {} th job = .ok c) (h' : compile {} th' job' = .ok c') :
    relationsOf c.query = some [job.target, job.target] ∧
      (relationsOf c.query = some [job.relation, job.relation] ↔
        ∀ d ∈ job.schema.toList, d.isUpper = false) ∧
      (relationsOf c.query = relationsOf c'.query ↔
        fold job.schema.toList = fold job'.schema.toList ∧ job.table = job'.table) := by
  have hrelations := relationsOf_compiled h
  refine ⟨hrelations, ?_, ?_⟩
  · rw [hrelations, ← fold_eq_self_iff]
    simp [Definition.target, Definition.relation]
  · rw [hrelations, relationsOf_compiled h']
    simp [Definition.target, String.toList_inj]

end

/-- A job on the table `orders` of the schema `schema`. -/
def ordersJob (schema : String) : Definition where
  jobName := "purge"
  cronExpression := "0 3 * * *"
  databaseName := "core"
  schema
  table := "orders"
  filters := [⟨"SentAt", 90⟩]

theorem compile_ordersJob (schema : String) (h : checkIdentifier schema = .ok ()) :
    compile {} {} (ordersJob schema) =
      .ok (registrationOf {} {} (ordersJob schema) "0 3 * * *") := by
  have hliterals : ∀ name ∈ ["purge", "core"], checkLiteral name = .ok () := by decide +kernel
  have hidentifiers : ∀ name ∈ ["orders", "SentAt"], checkIdentifier name = .ok () := by
    decide +kernel
  have hcron : Cron.normalize "0 3 * * *" = .ok "0 3 * * *" := by decide +kernel
  have hwell : WellNamed (ordersJob schema) := by
    constructor <;> simp_all [ordersJob]
  exact compile_eq_ok_iff.mpr ⟨hwell, _, hcron, rfl⟩

/-- The jobs for the schemas `Sales` and `sales` are both accepted and purge one relation. -/
theorem relation_purged_sales : ∃ c c',
    compile {} {} (ordersJob "Sales") = .ok c ∧ compile {} {} (ordersJob "sales") = .ok c' ∧
      relationsOf c.query = relationsOf c'.query := by
  have h := compile_ordersJob "Sales" (by decide +kernel)
  have h' := compile_ordersJob "sales" (by decide +kernel)
  exact ⟨_, _, h, h', (relation_purged_iff h h').2.2.mpr ⟨by decide, rfl⟩⟩

/-- An accepted job need not purge the relation that it asks for. -/
theorem relation_not_purged : ¬ ∀ {th : Thresholds} {job : Definition} {c : Compiled},
    compile {} th job = .ok c → relationsOf c.query = some [job.relation, job.relation] := by
  intro h
  have hcompile := compile_ordersJob "Sales" (by decide +kernel)
  have heq := (relationsOf_compiled hcompile).symm.trans (h hcompile)
  exact absurd heq (by decide)

end RetentionJobs.Job
