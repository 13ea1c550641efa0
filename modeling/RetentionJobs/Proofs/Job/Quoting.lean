import RetentionJobs.Proofs.Cron.Normalization
import RetentionJobs.Proofs.Job.Compilation
import RetentionJobs.Proofs.Sql.Scanner
/-! No part of a job leaves the quotation that it is put into: the statement of every job that
compiles, and the purge inside of it, are scanned as the fixed text around the job's parts. -/
namespace RetentionJobs.Job
open RetentionJobs.Text RetentionJobs.Sql

/-- The lexemes of the condition of one filter. -/
def clauseLexemes (column : String) (days : Int) : List Lexeme :=
  List.flatten [plain "om.", [.quoted column.toList], plain " AT TIME ZONE ",
    [.literal "UTC".toList], plain " < NOW() AT TIME ZONE ", [.literal "UTC".toList],
    plain " - INTERVAL ", [.literal (decimal days ++ " days".toList)]]

/-- The lexemes of a purge, given those of its condition. -/
def purgeLexemes (schema table : String) (condition : List Lexeme) (limit : Int) : List Lexeme :=
  List.flatten [plain " with om_cte as (select om.", [.quoted "Id".toList], plain " from ",
    [.word schema.toList, .sign '.'], [.quoted table.toList], plain " om WHERE ", condition,
    plain " LIMIT ", integer limit ++ [.sign ')'], plain " delete from ",
    [.word schema.toList, .sign '.'], [.quoted table.toList], plain " om where om.",
    [.quoted "Id".toList], plain " in (select ", [.quoted "Id".toList], plain " from om_cte);"]

/-- The lexemes of the statement that registers the purge `body`. -/
def statementLexemes (database job cron : String) (body : List Char) : List Lexeme :=
  List.flatten [plain "SELECT cron.schedule(",
    [.literal (database ++ "-" ++ job ++ "-job").toList], plain ", ", [.literal cron.toList],
    plain ", ", [.body body], plain ", ", [.literal database.toList], plain ");"]

theorem IsIdentifier.not_mem {cs : List Char} (h : IsIdentifier cs) {c : Char}
    (hc : isNamePart c = false) : c ∉ cs := by
  obtain ⟨d, rest, rfl, hd, hrest⟩ := h
  have hstart : isNamePart d := by
    simp only [isNameStart, isNamePart, Char.isAlphanum, Bool.or_eq_true] at hd ⊢
    tauto
  intro hmem
  obtain rfl | hmem := List.mem_cons.mp hmem
  · simp [hc] at hstart
  · simp [hrest c hmem] at hc

theorem not_mem_of_checkIdentifier {name : String} (h : checkIdentifier name = .ok ()) {c : Char}
    (hc : isNamePart c = false) : c ∉ name.toList :=
  (checkIdentifier_eq_ok_iff.mp h).1.not_mem hc

theorem not_mem_of_checkLiteral {name : String} (h : checkLiteral name = .ok ()) {c : Char}
    (hc : isLiteralPart c = false) : c ∉ name.toList := by
  intro hmem
  simp [(checkLiteral_eq_ok_iff.mp h).2.1 c hmem] at hc

theorem reads_retentionClause {column : String} (days : Int)
    (hcolumn : checkIdentifier column = .ok ()) :
    Reads .bare (({} : Template).retentionClause column days).toList (clauseLexemes column days)
      .bare := by
  have htext : (({} : Template).retentionClause column days).toList =
      List.flatten ["om.".toList, '"' :: (column.toList ++ ['"']), " AT TIME ZONE ".toList,
        '\'' :: ("UTC".toList ++ ['\'']), " < NOW() AT TIME ZONE ".toList,
        '\'' :: ("UTC".toList ++ ['\'']), " - INTERVAL ".toList,
        '\'' :: ((decimal days ++ " days".toList) ++ ['\''])] := by
    simp [Template.retentionClause, intText]
  have hname : '"' ∉ column.toList := not_mem_of_checkIdentifier hcolumn rfl
  have hdays : '\'' ∉ decimal days ++ " days".toList := by
    rw [List.mem_append, not_or]
    exact ⟨not_mem_decimal rfl (by decide), by decide⟩
  have hutc : Reads .bare ('\'' :: ("UTC".toList ++ ['\''])) [.literal "UTC".toList] .bare :=
    reads_literal (by decide)
  have hom := reads_plain "om." (by decide +kernel)
  have hzone := reads_plain " AT TIME ZONE " (by decide +kernel)
  have hnow := reads_plain " < NOW() AT TIME ZONE " (by decide +kernel)
  have hinterval := reads_plain " - INTERVAL " (by decide +kernel)
  rw [htext]
  exact reads_flatten (.cons hom (.cons (reads_quoted hname) (.cons hzone (.cons hutc (.cons hnow
    (.cons hutc (.cons hinterval (.cons (reads_literal hdays) .nil))))))))

/-- The purge without the dollar signs around it. -/
def purgeBody (schema table condition : String) (limit : Int) : String :=
  " with om_cte as (select om.\"Id\" from " ++ schema ++ ".\"" ++ table ++ "\" om WHERE " ++
    condition ++ " LIMIT " ++ intText limit ++ ") delete from " ++ schema ++ ".\"" ++ table ++
    "\" om where om.\"Id\" in (select \"Id\" from om_cte);"

theorem purge_eq_purgeBody (schema table condition : String) (limit : Int) :
    (({} : Template).purge schema table condition limit).toList =
      "$$".toList ++ ((purgeBody schema table condition limit).toList ++ "$$".toList) := by
  unfold Template.purge purgeBody
  simp

theorem reads_purgeBody {schema table condition : String} {lexemes : List Lexeme} (limit : Int)
    (hschema : checkIdentifier schema = .ok ()) (htable : checkIdentifier table = .ok ())
    (hcondition : Reads .bare condition.toList lexemes .bare) :
    Reads .bare (purgeBody schema table condition limit).toList
      (purgeLexemes schema table lexemes limit) .bare := by
  have htext : (purgeBody schema table condition limit).toList =
      List.flatten [" with om_cte as (select om.".toList, '"' :: ("Id".toList ++ ['"']),
        " from ".toList, schema.toList ++ ['.'], '"' :: (table.toList ++ ['"']),
        " om WHERE ".toList, condition.toList, " LIMIT ".toList, decimal limit ++ [')'],
        " delete from ".toList, schema.toList ++ ['.'], '"' :: (table.toList ++ ['"']),
        " om where om.".toList, '"' :: ("Id".toList ++ ['"']), " in (select ".toList,
        '"' :: ("Id".toList ++ ['"']), " from om_cte);".toList] := by
    unfold purgeBody
    simp [intText]
  have hid : Reads .bare ('"' :: ("Id".toList ++ ['"'])) [.quoted "Id".toList] .bare :=
    reads_quoted (by decide)
  have hword : Reads .bare (schema.toList ++ ['.']) [.word schema.toList, .sign '.'] .bare :=
    reads_word rfl (checkIdentifier_eq_ok_iff.mp hschema).1 rfl
  have hname : Reads .bare ('"' :: (table.toList ++ ['"'])) [.quoted table.toList] .bare :=
    reads_quoted (not_mem_of_checkIdentifier htable rfl)
  have hnumber : Reads .bare (decimal limit ++ [')']) (integer limit ++ [.sign ')']) .bare :=
    reads_decimal rfl rfl limit
  have hselect := reads_plain " with om_cte as (select om." (by decide +kernel)
  have hfrom := reads_plain " from " (by decide +kernel)
  have hwhere := reads_plain " om WHERE " (by decide +kernel)
  have hlimit := reads_plain " LIMIT " (by decide +kernel)
  have hdelete := reads_plain " delete from " (by decide +kernel)
  have hom := reads_plain " om where om." (by decide +kernel)
  have hin := reads_plain " in (select " (by decide +kernel)
  have hcte := reads_plain " from om_cte);" (by decide +kernel)
  rw [htext]
  exact reads_flatten (.cons hselect (.cons hid (.cons hfrom (.cons hword (.cons hname
    (.cons hwhere (.cons hcondition (.cons hlimit (.cons hnumber (.cons hdelete (.cons hword
      (.cons hname (.cons hom (.cons hid (.cons hin (.cons hid (.cons hcte .nil)))))))))))))))))

theorem not_mem_retentionClause {column : String} {days : Int}
    (hcolumn : checkIdentifier column = .ok ()) :
    '$' ∉ (({} : Template).retentionClause column days).toList := by
  have hname : '$' ∉ column.toList := not_mem_of_checkIdentifier hcolumn rfl
  have hdays : '$' ∉ decimal days := not_mem_decimal rfl (by decide)
  unfold Template.retentionClause
  simp [intText, hname, hdays]

theorem not_mem_purgeBody {schema table condition : String} {limit : Int}
    (hschema : checkIdentifier schema = .ok ()) (htable : checkIdentifier table = .ok ())
    (hcondition : '$' ∉ condition.toList) :
    '$' ∉ (purgeBody schema table condition limit).toList := by
  have hs : '$' ∉ schema.toList := not_mem_of_checkIdentifier hschema rfl
  have ht : '$' ∉ table.toList := not_mem_of_checkIdentifier htable rfl
  have hlimit : '$' ∉ decimal limit := not_mem_decimal rfl (by decide)
  unfold purgeBody
  simp [intText, hs, ht, hcondition, hlimit]

section
variable {filters : List Filter} (hcolumns : ∀ f ∈ filters, checkIdentifier f.column = .ok ())
  (th : Thresholds)
include hcolumns

theorem reads_condition :
    Reads .bare (" AND ".intercalate (clausesOf {} th filters)).toList
      ((plain " AND ").intercalate
        (filters.map (fun f => clauseLexemes f.column (th.days f.days).applied))) .bare := by
  have hsep := reads_plain " AND " (by decide +kernel)
  have hclause : ∀ f ∈ filters,
      Reads .bare (({} : Template).retentionClause f.column (th.days f.days).applied).toList
        (clauseLexemes f.column (th.days f.days).applied) .bare := fun f hf =>
    reads_retentionClause _ (hcolumns f hf)
  have hjoin := reads_join hsep hclause
  rw [String.toList_intercalate, clausesOf, List.map_map]
  exact hjoin

theorem not_mem_condition :
    '$' ∉ (" AND ".intercalate (clausesOf {} th filters)).toList := by
  have hsep : '$' ∉ " AND ".toList := by decide
  rw [String.toList_intercalate, clausesOf, List.map_map]
  intro hmem
  obtain ⟨clause, hclause, hmem⟩ := (mem_join_iff hsep _).mp hmem
  obtain ⟨f, hf, rfl⟩ := List.mem_map.mp hclause
  exact not_mem_retentionClause (hcolumns f hf) hmem

end

/-- A cron expression in normal form has no quote in it. -/
theorem not_mem_of_normalize {e cron : String} (h : Cron.normalize e = .ok cron) :
    '\'' ∉ cron.toList := by
  obtain ⟨hcheck, rfl⟩ := Cron.normalize_eq_ok_iff_words.mp h
  rw [String.toList_ofList, mem_join_iff (by decide)]
  rintro ⟨w, hw, hmem⟩
  have hword := Cron.isWordChar_of_checkWords (fun _ => isWord_of_mem_words) hcheck hw hmem
  exact absurd hword (by decide)

theorem reads_registration {database job cron purge : String} {body : List Char}
    (hdatabase : checkLiteral database = .ok ()) (hjob : checkLiteral job = .ok ())
    (hcron : '\'' ∉ cron.toList) (hpurge : purge.toList = "$$".toList ++ (body ++ "$$".toList))
    (hbody : '$' ∉ body) :
    Reads .bare (({} : Template).registration database job cron purge).toList
      (statementLexemes database job cron body) .bare := by
  have htext : (({} : Template).registration database job cron purge).toList =
      List.flatten ["SELECT cron.schedule(".toList,
        '\'' :: ((database ++ "-" ++ job ++ "-job").toList ++ ['\'']), ", ".toList,
        '\'' :: (cron.toList ++ ['\'']), ", ".toList, purge.toList, ", ".toList,
        '\'' :: (database.toList ++ ['\'']), ");".toList] := by
    unfold Template.registration registeredName
    simp
  have hname : '\'' ∉ database.toList := not_mem_of_checkLiteral hdatabase rfl
  have hregistered : '\'' ∉ (database ++ "-" ++ job ++ "-job").toList := by
    simp [hname, not_mem_of_checkLiteral hjob (c := '\'') rfl]
  have hselect := reads_plain "SELECT cron.schedule(" (by decide +kernel)
  have hcomma := reads_plain ", " (by decide +kernel)
  have hclose := reads_plain ");" (by decide +kernel)
  rw [htext, hpurge]
  exact reads_flatten (.cons hselect (.cons (reads_literal hregistered) (.cons hcomma
    (.cons (reads_literal hcron) (.cons hcomma (.cons (reads_body hbody) (.cons hcomma
      (.cons (reads_literal hname) (.cons hclose .nil)))))))))

/-- The statement of a job that compiles is scanned as the fixed text, the registered name, the
normal form of the cron expression, one body and the database. The body is scanned as the fixed
text, the schema as a bare word, the limit, and in quotations the identifiers and the days. -/
theorem scan_compiled {th : Thresholds} {job : Definition} {c : Compiled}
    (h : compile {} th job = .ok c) :
    Cron.normalize job.cronExpression = .ok c.cronExpression ∧ IsIdentifier job.schema.toList ∧
      ∃ body, scan c.query.toList =
          some (statementLexemes job.databaseName job.jobName c.cronExpression body) ∧
        scan body = some (purgeLexemes job.schema job.table
          ((plain " AND ").intercalate
            (job.filters.map (fun f => clauseLexemes f.column (th.days f.days).applied)))
          (th.limit job.limit).applied) := by
  obtain ⟨hwell, cron, hcron, rfl⟩ := compile_eq_ok_iff.mp h
  have hcondition := reads_condition hwell.columns th
  have hdollar := not_mem_condition hwell.columns th
  have hquery := reads_registration hwell.databaseName hwell.jobName (not_mem_of_normalize hcron)
    (purge_eq_purgeBody job.schema job.table _ (th.limit job.limit).applied)
    (not_mem_purgeBody hwell.schema hwell.table hdollar)
  have hpurge := reads_purgeBody (th.limit job.limit).applied hwell.schema hwell.table hcondition
  exact ⟨hcron, (checkIdentifier_eq_ok_iff.mp hwell.schema).1, _, hquery.scan_eq, hpurge.scan_eq⟩

/-- A purge of two columns on three weekdays. -/
def outboxJob : Definition where
  jobName := "purge-outbox"
  cronExpression := "*/5  3 * * 5-7"
  databaseName := "internal_core"
  schema := "dbo"
  table := "message_outbox"
  limit := some 110
  filters := [⟨"SentAt", 95⟩, ⟨"CreatedAt", 10⟩]

theorem scan_outboxJob : ∃ body,
    compile {} {} outboxJob = .ok (registrationOf {} {} outboxJob "*/5 3 * * 5-7") ∧
      scan (registrationOf {} {} outboxJob "*/5 3 * * 5-7").query.toList =
        some (statementLexemes "internal_core" "purge-outbox" "*/5 3 * * 5-7" body) ∧
      scan body = some (purgeLexemes "dbo" "message_outbox"
        ((plain " AND ").intercalate [clauseLexemes "SentAt" 95, clauseLexemes "CreatedAt" 60])
        110) := by
  have hcron : Cron.normalize outboxJob.cronExpression = .ok "*/5 3 * * 5-7" := by decide +kernel
  have hwell : WellNamed outboxJob :=
    ⟨by decide, by decide +kernel, by decide +kernel, by decide +kernel, by decide +kernel,
      by decide +kernel⟩
  have h : compile {} {} outboxJob = .ok (registrationOf {} {} outboxJob "*/5 3 * * 5-7") :=
    compile_eq_ok_iff.mpr ⟨hwell, _, hcron, rfl⟩
  obtain ⟨_, _, body, hquery, hbody⟩ := scan_compiled h
  exact ⟨body, h, hquery, hbody⟩

end RetentionJobs.Job
