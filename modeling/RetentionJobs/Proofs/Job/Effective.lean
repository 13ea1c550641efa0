import RetentionJobs.Proofs.Job.Numbers
import RetentionJobs.Proofs.Job.RegisteredName
/-! What a job comes to once its numbers are raised, and that the statement tells exactly this: two
statements are the same text when the jobs come to the same, and only then. -/
namespace RetentionJobs.Job
open RetentionJobs.Text RetentionJobs.Sql

/-- A job with its cron expression cut into words and its numbers raised to the minimums. -/
@[ext]
structure Effective where
  databaseName : String
  jobName : String
  schema : String
  table : String
  cron : List (List Char)
  limit : Int
  /-- The columns, each with its days. -/
  clauses : List (String × Int)
  deriving DecidableEq, Repr

/-- What a job comes to under thresholds. An absent limit is the least one. -/
def Definition.effective (job : Definition) (th : Thresholds) : Effective where
  databaseName := job.databaseName
  jobName := job.jobName
  schema := job.schema
  table := job.table
  cron := words job.cronExpression.toList
  limit := match job.limit with
    | none => th.minLimit
    | some n => max n th.minLimit
  clauses := job.filters.map (fun f => (f.column, max f.days th.minDays))

namespace Effective

/-- The statement of a job with its parts as they are. -/
def query (e : Effective) : String :=
  ({} : Template).registration e.databaseName e.jobName (.ofList (join [' '] e.cron))
    (({} : Template).purge e.schema e.table
      (" AND ".intercalate (e.clauses.map (fun p => ({} : Template).retentionClause p.1 p.2)))
      e.limit)

def purgeLexemes (e : Effective) : List Lexeme :=
  Job.purgeLexemes e.schema e.table (conditionLexemes e.clauses) e.limit

end Effective

variable {th : Thresholds} {job : Definition} {c : Compiled}

theorem limit_applied (th : Thresholds) (job : Definition) :
    (th.limit job.limit).applied = (job.effective th).limit := by
  unfold Thresholds.limit Definition.effective
  cases job.limit with
  | none => rfl
  | some n => rfl

theorem query_of_compile (h : compile {} th job = .ok c) :
    c.query = (job.effective th).query := by
  obtain ⟨_, cron, hcron, rfl⟩ := compile_eq_ok_iff.mp h
  obtain ⟨_, rfl⟩ := Cron.normalize_eq_ok_iff_words.mp hcron
  have hclauses : clausesOf {} th job.filters = (job.effective th).clauses.map
      (fun p => ({} : Template).retentionClause p.1 p.2) := by
    rw [clausesOf, Definition.effective, List.map_map]
    rfl
  rw [registrationOf, hclauses, limit_applied]
  rfl

/-- The normal form of the cron expression has the words of the expression. -/
theorem words_of_compile (h : compile {} th job = .ok c) :
    words c.cronExpression.toList = words job.cronExpression.toList := by
  obtain ⟨_, cron, hcron, rfl⟩ := compile_eq_ok_iff.mp h
  obtain ⟨_, rfl⟩ := Cron.normalize_eq_ok_iff_words.mp hcron
  rw [registrationOf, String.toList_ofList, words_join (fun _ => isWord_of_mem_words)]

/-- The statement of a job that compiles is read to its end, and so is the purge inside of it. -/
theorem reads_of_compile (h : compile {} th job = .ok c) :
    ∃ body, Reads .bare c.query.toList
        (statementLexemes job.databaseName job.jobName c.cronExpression body) .bare ∧
      Reads .bare body (job.effective th).purgeLexemes .bare := by
  obtain ⟨hwell, cron, hcron, rfl⟩ := compile_eq_ok_iff.mp h
  have hquery := reads_registration hwell.databaseName hwell.jobName (not_mem_of_normalize hcron)
    (purge_eq_purgeBody job.schema job.table _ (th.limit job.limit).applied)
    (not_mem_purgeBody hwell.schema hwell.table (not_mem_condition hwell.columns th))
  have hpurge := reads_purgeBody (th.limit job.limit).applied hwell.schema hwell.table
    (reads_condition hwell.columns th)
  have hlexemes : (job.effective th).purgeLexemes = Job.purgeLexemes job.schema job.table
      ((plain " AND ").intercalate
        (job.filters.map (fun f => clauseLexemes f.column (th.days f.days).applied)))
      (th.limit job.limit).applied := by
    rw [limit_applied, Effective.purgeLexemes, conditionLexemes, Definition.effective, List.map_map]
    rfl
  exact ⟨_, hquery, hlexemes ▸ hpurge⟩

/-- Read through, the statement of a job that compiles has its purge in the place of the body. -/
theorem scanThrough_of_compile (h : compile {} th job = .ok c) :
    scanThrough c.query.toList = some (throughLexemes job.databaseName job.jobName
      c.cronExpression (job.effective th).purgeLexemes) := by
  obtain ⟨body, hquery, hbody⟩ := reads_of_compile h
  rw [scanThrough, hquery.scan_eq, Option.map_some, expand_statementLexemes hbody.scan_eq]

/-! Each part can be told from the lexemes. -/

theorem statementLexemes_inj {database database' job job' cron cron' : String}
    {body body' : List Char}
    (h : statementLexemes database job cron body = statementLexemes database' job' cron' body') :
    database = database' ∧ job = job' ∧ cron = cron' ∧ body = body' := by
  simp only [statementLexemes, List.flatten_cons, List.singleton_append, List.append_cancel_left_eq,
    List.cons.injEq, Lexeme.literal.injEq, Lexeme.body.injEq, String.toList_inj] at h
  obtain ⟨hname, hcron, hbody, hdatabase, _⟩ := h
  subst hdatabase
  exact ⟨rfl, registeredName_injective database hname, hcron, hbody⟩

theorem clauseLexemes_inj {p q : String × Int}
    (h : clauseLexemes p.1 p.2 = clauseLexemes q.1 q.2) : p = q := by
  simp only [clauseLexemes, List.flatten_cons, List.singleton_append, List.append_cancel_left_eq,
    List.cons.injEq, Lexeme.literal.injEq, Lexeme.quoted.injEq, String.toList_inj,
    List.append_cancel_right_eq, and_true, true_and] at h
  exact Prod.ext h.1 (decimal_injective h.2)

section
variable {α : Type} {sep : List α} {n : Nat} (hn : 0 < n)
include hn

theorem ne_nil_of_length {x : List α} (hx : x.length = n) : x ≠ [] := by
  rintro rfl
  simp only [List.length_nil] at hx
  omega

theorem eq_of_flatMap_eq {xs ys : List (List α)} (hx : ∀ x ∈ xs, x.length = n)
    (hy : ∀ y ∈ ys, y.length = n)
    (h : xs.flatMap (sep ++ ·) = ys.flatMap (sep ++ ·)) : xs = ys := by
  induction xs generalizing ys with
  | nil =>
    cases ys with
    | nil => rfl
    | cons y ys => simp [ne_nil_of_length hn (hy y List.mem_cons_self)] at h
  | cons x xs ih =>
    have hxn : x.length = n := hx x List.mem_cons_self
    cases ys with
    | nil => simp [ne_nil_of_length hn hxn] at h
    | cons y ys =>
      have hyn : y.length = n := hy y List.mem_cons_self
      simp only [List.flatMap_cons, List.append_assoc, List.append_cancel_left_eq] at h
      obtain ⟨rfl, hrest⟩ := List.append_inj h (hxn.trans hyn.symm)
      rw [ih (fun x hx' => hx x (List.mem_cons_of_mem _ hx'))
        (fun y hy' => hy y (List.mem_cons_of_mem _ hy')) hrest]

/-- Separated pieces of one length can be told apart. -/
theorem eq_of_intercalate_eq {xs ys : List (List α)} (hx : ∀ x ∈ xs, x.length = n)
    (hy : ∀ y ∈ ys, y.length = n) (h : sep.intercalate xs = sep.intercalate ys) : xs = ys := by
  have hcons (x : List α) (xs : List (List α)) :
      sep.intercalate (x :: xs) = x ++ xs.flatMap (sep ++ ·) := by
    induction xs generalizing x with
    | nil => simp
    | cons x' xs ih => simp [List.intercalate_cons_cons, ih]
  cases xs with
  | nil =>
    cases ys with
    | nil => rfl
    | cons y ys => simp [hcons, ne_nil_of_length hn (hy y List.mem_cons_self)] at h
  | cons x xs =>
    have hxn : x.length = n := hx x List.mem_cons_self
    cases ys with
    | nil => simp [hcons, ne_nil_of_length hn hxn] at h
    | cons y ys =>
      have hyn : y.length = n := hy y List.mem_cons_self
      rw [hcons, hcons] at h
      obtain ⟨rfl, hrest⟩ := List.append_inj h (hxn.trans hyn.symm)
      rw [eq_of_flatMap_eq hn (fun x hx' => hx x (List.mem_cons_of_mem _ hx'))
        (fun y hy' => hy y (List.mem_cons_of_mem _ hy')) hrest]

end

theorem conditionLexemes_inj {ps qs : List (String × Int)}
    (h : conditionLexemes ps = conditionLexemes qs) : ps = qs := by
  -- the columns and the days stand inside of lexemes, so all clauses have as many of them
  have hlength (p : String × Int) :
      (clauseLexemes p.1 p.2).length = (clauseLexemes "" 0).length := by
    simp [clauseLexemes]
  have hall (ps : List (String × Int)) : ∀ ls ∈ ps.map (fun p => clauseLexemes p.1 p.2),
      ls.length = (clauseLexemes "" 0).length := by
    simp only [List.mem_map]
    rintro _ ⟨p, _, rfl⟩
    exact hlength p
  have hmap := eq_of_intercalate_eq (by decide +kernel) (hall ps) (hall qs) h
  exact List.map_injective_iff.mpr (fun _ _ => clauseLexemes_inj) hmap

/-- The row count is the only one of the purge, and between it and the table stands the condition. -/
theorem purgeLexemes_inj {schema schema' table table' : String} {ps qs : List (String × Int)}
    {limit limit' : Int}
    (h : purgeLexemes schema table (conditionLexemes ps) limit =
      purgeLexemes schema' table' (conditionLexemes qs) limit') :
    schema = schema' ∧ table = table' ∧ ps = qs ∧ limit = limit' := by
  have hlimit : [limit] = [limit'] := by
    rw [← (limits_purgeLexemes schema table ps limit).operands_eq, h,
      (limits_purgeLexemes schema' table' qs limit').operands_eq]
  obtain rfl := List.singleton_inj.mp hlimit
  simp only [purgeLexemes, List.flatten_cons, List.cons_append, List.nil_append,
    List.append_cancel_left_eq, List.cons.injEq, Lexeme.word.injEq, Lexeme.quoted.injEq,
    String.toList_inj, true_and] at h
  obtain ⟨rfl, rfl, hcondition⟩ := h
  exact ⟨rfl, rfl, conditionLexemes_inj (List.append_cancel_right hcondition), rfl⟩

/-- Two statements are the same text exactly when the jobs come to the same: the same names, the same
words of the cron expression, the same limit, and the same columns and days in the same order. -/
theorem query_eq_iff {th th' : Thresholds} {job job' : Definition} {c c' : Compiled}
    (h : compile {} th job = .ok c) (h' : compile {} th' job' = .ok c') :
    c.query = c'.query ↔ job.effective th = job'.effective th' := by
  constructor
  · intro hquery
    obtain ⟨body, hreads, hbody⟩ := reads_of_compile h
    obtain ⟨body', hreads', hbody'⟩ := reads_of_compile h'
    rw [hquery] at hreads
    obtain ⟨hdatabase, hname, hcron, rfl⟩ := statementLexemes_inj
      (Option.some.inj (hreads.scan_eq.symm.trans hreads'.scan_eq))
    obtain ⟨hschema, htable, hclauses, hlimit⟩ := purgeLexemes_inj
      (Option.some.inj (hbody.scan_eq.symm.trans hbody'.scan_eq))
    have hwords : words job.cronExpression.toList = words job'.cronExpression.toList := by
      rw [← words_of_compile h, hcron, words_of_compile h']
    exact Effective.ext hdatabase hname hschema htable hwords hlimit hclauses
  · intro he
    rw [query_of_compile h, query_of_compile h', he]

/-- A purge of two columns, with the given expression, limit and days of the first column. -/
def purgeJob (expression : String) (limit : Option Int) (days : Int) : Definition where
  jobName := "purge"
  cronExpression := expression
  databaseName := "core"
  schema := "dbo"
  table := "outbox"
  limit
  filters := [⟨"SentAt", days⟩, ⟨"CreatedAt", 90⟩]

theorem compile_purgeJob (th : Thresholds) {expression cron : String} (limit : Option Int)
    (days : Int) (hcron : Cron.normalize expression = .ok cron) :
    compile {} th (purgeJob expression limit days) =
      .ok (registrationOf {} th (purgeJob expression limit days) cron) := by
  have hliterals : ∀ name ∈ ["purge", "core"], checkLiteral name = .ok () := by decide +kernel
  have hidentifiers : ∀ name ∈ ["dbo", "outbox", "SentAt", "CreatedAt"],
      checkIdentifier name = .ok () := by
    decide +kernel
  have hwell : WellNamed (purgeJob expression limit days) := by
    constructor <;> simp_all [purgeJob]
  exact compile_eq_ok_iff.mpr ⟨hwell, cron, hcron, rfl⟩

/-- Raised to different minimums, two jobs have the same statement; a day more makes another one. -/
theorem query_purgeJob_eq : ∃ c c' c'',
    compile {} {} (purgeJob "0 3 * * *" none 10) = .ok c ∧
      compile {} ⟨30, 10⟩ (purgeJob " 0  3 * * * " (some 100) 60) = .ok c' ∧
      compile {} ⟨30, 10⟩ (purgeJob " 0  3 * * * " (some 100) 61) = .ok c'' ∧
      c.query = c'.query ∧ c.query ≠ c''.query := by
  have hcron : Cron.normalize "0 3 * * *" = .ok "0 3 * * *" := by decide +kernel
  have hcron' : Cron.normalize " 0  3 * * * " = .ok "0 3 * * *" := by decide +kernel
  have h := compile_purgeJob {} none 10 hcron
  have h' := compile_purgeJob ⟨30, 10⟩ (some 100) 60 hcron'
  have h'' := compile_purgeJob ⟨30, 10⟩ (some 100) 61 hcron'
  exact ⟨_, _, _, h, h', h'', (query_eq_iff h h').mpr (by decide +kernel),
    mt (query_eq_iff h h'').mp (by decide +kernel)⟩

end RetentionJobs.Job
