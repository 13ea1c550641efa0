import RetentionJobs.Proofs.Cron.Normalization
import RetentionJobs.Proofs.Job.Compilation
import RetentionJobs.Proofs.Text.Decimal
/-! What is demanded of a job, in the order in which it is checked. Compiling succeeds when every
demand is met, and otherwise it fails as the first one that is not met says. The numbers of a job and
the thresholds play no part. -/
namespace RetentionJobs.Job
open RetentionJobs.Text RetentionJobs.Outcome

/-- A demand on a part of a job. A name comes with the field of the request that it stands in. -/
inductive Demand where
  | someFilter (columns : List String)
  | literal (field value : String)
  | identifier (field value : String)
  | cron (expression : String)
  deriving DecidableEq, Repr

/-- The demands on the columns from the one at `index` on. -/
def columnDemands (index : Nat) (columns : List String) : List Demand :=
  (columns.zipIdx index).map
    (fun p => .identifier ("filters[" ++ toString p.2 ++ "].column") p.1)

/-- The demands on a job: that it has filters, the names of job, database, schema and table, the cron
expression, and then the columns. -/
def Definition.demands (job : Definition) : List Demand :=
  let columns := job.filters.map Filter.column
  [.someFilter columns, .literal "jobName" job.jobName, .literal "databaseName" job.databaseName,
    .identifier "schema" job.schema, .identifier "table" job.table, .cron job.cronExpression] ++
  columnDemands 0 columns

/-- The job with other numbers. -/
def Definition.withNumbers (job : Definition) (limit : Option Int) (days : Nat → Int) :
    Definition :=
  { job with limit, filters := job.filters.mapIdx (fun i f => { f with days := days i }) }

/-- Whether a computation succeeds, and with which error it fails if not. -/
def verdict {ε α : Type} (x : Except ε α) : Except ε Unit := x.map (fun _ => ())

/-- The reason against an expression: the number of its words, or else the place where reading its
line stopped, with the fault of the field that begins there. -/
inductive CronReason (expression : String) : String → Prop where
  | wordCount {n : Nat} (hwords : (words expression.toList).length = n) (hn : ¬ (n = 5 ∨ n = 6)) :
      CronReason expression ("expected 5 or 6 fields, got " ++ toString n)
  | grammar {line : List Char} {stop : Cron.Stop}
      (hwords : (words expression.toList).length = 5 ∨ (words expression.toList).length = 6)
      (hline : line = Cron.lineOf (words expression.toList))
      (hread : Cron.Line.read line = .error stop) :
      CronReason expression
        (String.ofList line ++ "\n" ++
          String.ofList (List.replicate (line.length - stop.left.length) ' ') ++ "^\n" ++
          stop.fault.elim "" Cron.Fault.message)

namespace Demand

def IsMet : Demand → Prop
  | someFilter columns => columns ≠ []
  | literal _ value => IsSized value ∧ ∀ c ∈ value.toList, InLiteral c
  | identifier _ value => IsSized value ∧ ∃ first rest, value.toList = first :: rest ∧
      StartsIdentifier first ∧ ∀ c ∈ rest, ContinuesIdentifier c
  | cron expression => ∃ s, Cron.parse expression = .ok s

/-- The error of a demand that is not met. It names the field and gives the value. -/
def Refuses : Demand → CompileError → Prop
  | someFilter columns, e => columns = [] ∧ e = .missingFilters
  | literal field value, e =>
    ∃ reason, LiteralReason value reason ∧ e = .invalidName field value reason
  | identifier field value, e =>
    ∃ reason, IdentifierReason value reason ∧ e = .invalidName field value reason
  | cron expression, e =>
    ∃ reason, CronReason expression reason ∧ e = .invalidCron expression reason

/-- The check of a demand on its own. -/
def check : Demand → Except CompileError Unit
  | someFilter columns => if columns.isEmpty then .error .missingFilters else .ok ()
  | literal field value => requireLiteral field value
  | identifier field value => requireIdentifier field value
  | cron expression => verdict (requireCron expression)

/-- The first refusal of some demands, if there is one. -/
def checkAll : List Demand → Except CompileError Unit
  | [] => .ok ()
  | k :: ks => do
    k.check
    checkAll ks

end Demand

/-! The check of the expression. -/

/-- An expression is put into normal form unless it is refused. -/
theorem normalize_eq_error_iff {expression : String} {r : Cron.Rejection} :
    Cron.normalize expression = .error r ↔ Cron.parse expression = .error r :=
  Cron.normalizeWith_eq_error_iff

theorem wordCount_reason (n : Nat) :
    (Cron.Refusal.wordCount n).reason = "expected 5 or 6 fields, got " ++ toString n := by
  rw [← natText_eq_toString]
  rfl

theorem grammar_reason (line : List Char) (stop : Cron.Stop) :
    (Cron.Refusal.grammar line stop).reason = String.ofList line ++ "\n" ++
      String.ofList (List.replicate (line.length - stop.left.length) ' ') ++ "^\n" ++
      stop.fault.elim "" Cron.Fault.message := by
  obtain ⟨left, fault⟩ := stop
  cases fault <;> rfl

theorem cronReason_iff {expression reason : String} : CronReason expression reason ↔
    ∃ refusal, Cron.parse expression = .error ⟨expression, refusal⟩ ∧ refusal.reason = reason := by
  have hparse (refusal : Cron.Refusal) : Cron.parse expression = .error ⟨expression, refusal⟩ ↔
      Cron.checkWords (words expression.toList) = .error refusal := by
    simp [Cron.parse, mapError_eq_error_iff, Cron.Schedule.parse_eq_error_iff]
  simp only [hparse, Cron.checkWords_eq_error_iff]
  constructor
  · intro h
    cases h with
    | wordCount hwords hn =>
      obtain rfl := hwords
      exact ⟨.wordCount _, .inl ⟨hn, rfl⟩, wordCount_reason _⟩
    | @grammar line stop hwords hline hread =>
      obtain rfl := hline
      exact ⟨.grammar _ stop, .inr ⟨hwords, stop, hread, rfl⟩, grammar_reason _ stop⟩
  · rintro ⟨_, ⟨hn, rfl⟩ | ⟨hwords, stop, hread, rfl⟩, rfl⟩
    · rw [wordCount_reason]
      exact .wordCount rfl hn
    · rw [grammar_reason]
      exact .grammar hwords rfl hread

theorem verdict_eq_ok_iff {ε α : Type} {x : Except ε α} : verdict x = .ok () ↔ ∃ a, x = .ok a := by
  cases x <;> simp [verdict, Except.map]

theorem verdict_eq_error_iff {ε α : Type} {x : Except ε α} {e : ε} :
    verdict x = .error e ↔ x = .error e := by
  cases x <;> simp [verdict, Except.map]

namespace Demand

theorem check_eq_ok_iff {k : Demand} : k.check = .ok () ↔ k.IsMet := by
  cases k with
  | someFilter columns => cases columns <;> simp [check, IsMet]
  | literal field value =>
    simp only [check, requireLiteral, mapError_eq_ok_iff, checkLiteral_eq_ok_iff, IsMet,
      isSized_iff, isLiteralPart_iff]
    constructor
    · rintro ⟨hne, hname, hsize⟩
      exact ⟨⟨hne, hsize⟩, hname⟩
    · rintro ⟨⟨hne, hsize⟩, hname⟩
      exact ⟨hne, hname, hsize⟩
  | identifier field value =>
    simp only [check, requireIdentifier, mapError_eq_ok_iff, checkIdentifier_eq_ok_iff,
      isIdentifier_iff, IsMet, isSized_iff]
    constructor
    · rintro ⟨hname, hsize⟩
      refine ⟨⟨?_, hsize⟩, hname⟩
      obtain ⟨c, rest, hcs, -⟩ := hname
      simp [hcs]
    · rintro ⟨⟨-, hsize⟩, hname⟩
      exact ⟨hname, hsize⟩
  | cron expression =>
    have hnormal : (∃ n, Cron.normalize expression = .ok n) ↔
        ∃ s, Cron.parse expression = .ok s := by
      cases hparse : Cron.parse expression with
      | error r => simp [normalize_eq_error_iff.mpr hparse]
      | ok s => simp [Cron.normalize_of_parse (mapError_eq_ok_iff.mp hparse)]
    simp only [check, verdict_eq_ok_iff, requireCron, mapError_eq_ok_iff, IsMet, hnormal]

/-- A check of a name fails with the reasons that there are against the name. -/
theorem invalidName_iff {x : Except NameFault Unit} {P : String → Prop} {field value : String}
    {e : CompileError}
    (h : ∀ reason, (∃ fault, x = .error fault ∧ fault.reason = reason) ↔ P reason) :
    x.mapError (fun fault => .invalidName field value fault.reason) = .error e ↔
      ∃ reason, P reason ∧ e = .invalidName field value reason := by
  simp only [mapError_eq_error_iff, ← h]
  constructor
  · rintro ⟨fault, hx, rfl⟩
    exact ⟨_, ⟨fault, hx, rfl⟩, rfl⟩
  · rintro ⟨_, ⟨fault, hx, rfl⟩, rfl⟩
    exact ⟨fault, hx, rfl⟩

theorem check_eq_error_iff {k : Demand} {e : CompileError} : k.check = .error e ↔ k.Refuses e := by
  cases k with
  | someFilter columns => cases columns <;> simp [check, Refuses, eq_comm]
  | literal field value => exact invalidName_iff fun _ => checkLiteral_eq_error_iff
  | identifier field value => exact invalidName_iff fun _ => checkIdentifier_eq_error_iff
  | cron expression =>
    simp only [check, verdict_eq_error_iff, requireCron, mapError_eq_error_iff,
      normalize_eq_error_iff, Refuses, cronReason_iff]
    constructor
    · rintro ⟨r, h, rfl⟩
      obtain ⟨refusal, -, rfl⟩ := mapError_eq_error_iff.mp h
      exact ⟨_, ⟨refusal, h, rfl⟩, rfl⟩
    · rintro ⟨_, ⟨refusal, h, rfl⟩, rfl⟩
      exact ⟨_, h, rfl⟩

/-! The checks are made one after another. -/

theorem checkAll_append (ks ks' : List Demand) :
    checkAll (ks ++ ks') = checkAll ks >>= fun _ => checkAll ks' := by
  induction ks with
  | nil => rfl
  | cons k ks ih =>
    rw [List.cons_append, checkAll, checkAll, ih]
    cases k.check <;> rfl

theorem checkAll_eq_ok_iff {ks : List Demand} : checkAll ks = .ok () ↔ ∀ k ∈ ks, k.IsMet := by
  induction ks with
  | nil => simp [checkAll]
  | cons k ks ih =>
    rw [checkAll, bind_eq_ok_iff, List.forall_mem_cons, ← ih, ← check_eq_ok_iff]
    exact ⟨fun ⟨_, hk, hks⟩ => ⟨hk, hks⟩, fun ⟨hk, hks⟩ => ⟨(), hk, hks⟩⟩

theorem checkAll_eq_error_iff {ks : List Demand} {e : CompileError} :
    checkAll ks = .error e ↔
      ∃ front k back, ks = front ++ k :: back ∧ (∀ x ∈ front, x.IsMet) ∧ k.Refuses e := by
  constructor
  · intro h
    induction ks with
    | nil => cases h
    | cons k ks ih =>
      rw [checkAll, bind_eq_error_iff] at h
      rcases h with hk | ⟨_, hk, hks⟩
      · exact ⟨[], k, ks, rfl, by simp, check_eq_error_iff.mp hk⟩
      · obtain ⟨front, k', back, rfl, hfront, hk'⟩ := ih hks
        exact ⟨k :: front, k', back, rfl,
          List.forall_mem_cons.mpr ⟨check_eq_ok_iff.mp hk, hfront⟩, hk'⟩
  · rintro ⟨front, k, back, rfl, hfront, hk⟩
    rw [checkAll_append, checkAll_eq_ok_iff.mpr hfront, ok_bind, checkAll,
      check_eq_error_iff.mpr hk]
    rfl

end Demand

theorem verdict_bind {ε α β : Type} (x : Except ε α) (f : α → Except ε β) :
    verdict (x >>= f) = x >>= fun a => verdict (f a) := by
  cases x <;> rfl

theorem bind_verdict {ε α β : Type} (x : Except ε α) (y : Except ε β) :
    (verdict x >>= fun _ => y) = x >>= fun _ => y := by
  cases x <;> rfl

theorem bind_verdict_pure {ε α β : Type} (x : Except ε α) (f : α → β) :
    (x >>= fun a => verdict (pure (f a))) = verdict x := by
  cases x <;> rfl

theorem filterField_column (index : Nat) :
    filterField index "column" = "filters[" ++ toString index ++ "].column" := by
  have htext : "]." ++ "column" = "].column" := by decide
  rw [filterField, natText_eq_toString, String.append_assoc, htext]

theorem verdict_clauses (t : Template) (th : Thresholds) (index : Nat) (filters : List Filter) :
    verdict (clauses t th index filters) =
      Demand.checkAll (columnDemands index (filters.map Filter.column)) := by
  induction filters generalizing index with
  | nil => rfl
  | cons f filters ih =>
    have hdemands : columnDemands index ((f :: filters).map Filter.column) =
        .identifier (filterField index "column") f.column ::
          columnDemands (index + 1) (filters.map Filter.column) := by
      simp [columnDemands, filterField_column]
    rw [hdemands, Demand.checkAll, ← ih (index + 1), clauses, verdict_bind]
    simp only [Demand.check, verdict_bind]
    cases clauses t th (index + 1) filters <;> rfl

theorem verdict_condition (t : Template) (th : Thresholds) {filters : List Filter}
    (h : filters.isEmpty = false) :
    verdict (condition t th filters) =
      Demand.checkAll (columnDemands 0 (filters.map Filter.column)) := by
  rw [← verdict_clauses t th, condition, h]
  cases clauses t th 0 filters <;> rfl

/-- Compiling checks the demands in their order, and nothing else. -/
theorem verdict_compile (t : Template) (th : Thresholds) (job : Definition) :
    verdict (compile t th job) = Demand.checkAll job.demands := by
  have hmap : (job.filters.map Filter.column).isEmpty = job.filters.isEmpty := by simp
  rw [Definition.demands, Demand.checkAll_append]
  simp only [Demand.checkAll, Demand.check, hmap]
  cases hempty : job.filters.isEmpty with
  | true =>
    rw [compile, hempty]
    rfl
  | false =>
    rw [← verdict_condition t th hempty]
    simp only [compile, hempty, Bool.false_eq_true, if_false, verdict_bind, bind_verdict_pure,
      bind_assoc, bind_verdict, ok_bind]

theorem demands_withNumbers (job : Definition) (limit : Option Int) (days : Nat → Int) :
    (job.withNumbers limit days).demands = job.demands := by
  have hcolumns : (job.withNumbers limit days).filters.map Filter.column =
      job.filters.map Filter.column := by
    refine List.ext_getElem? fun i => ?_
    simp [Definition.withNumbers, Function.comp_def]
  unfold Definition.demands
  rw [hcolumns]
  rfl

/-- A job compiles when every demand on it is met. It fails with the error of the first one that is
not met, which gives its field, the value and the reason, and no number in the job or in the
thresholds changes the verdict. -/
theorem compile_first_refusal (t : Template) (th : Thresholds) (job : Definition) :
    ((∃ c, compile t th job = .ok c) ↔ ∀ k ∈ job.demands, k.IsMet) ∧
      (∀ e, compile t th job = .error e ↔
        ∃ front k back, job.demands = front ++ k :: back ∧ (∀ x ∈ front, x.IsMet) ∧ k.Refuses e) ∧
      ∀ t' th' limit days,
        verdict (compile t' th' (job.withNumbers limit days)) = verdict (compile t th job) := by
  refine ⟨?_, ?_, ?_⟩
  · rw [← verdict_eq_ok_iff, verdict_compile, Demand.checkAll_eq_ok_iff]
  · intro e
    rw [← verdict_eq_error_iff, verdict_compile, Demand.checkAll_eq_error_iff]
  · intro t' th' limit days
    rw [verdict_compile, verdict_compile, demands_withNumbers]

def namedJob (expression table column : String) : Definition where
  jobName := "purge"
  cronExpression := expression
  databaseName := "core"
  schema := "dbo"
  table
  filters := [⟨"SentAt", 90⟩, ⟨column, 0⟩]

/-- The table, the expression and the second column are bad; then all but the table; then the column
alone; and then nothing is. -/
theorem compile_first_refusal_named :
    compile {} {} (namedJob "* *" "1st" "Sent At") = .error
      (.invalidName "table" "1st" "must start with a letter or underscore, found '1'") ∧
    (∀ t th limit days,
      verdict (compile t th ((namedJob "* *" "1st" "Sent At").withNumbers limit days)) = .error
        (.invalidName "table" "1st" "must start with a letter or underscore, found '1'")) ∧
    compile {} {} (namedJob "* *" "outbox" "Sent At") =
      .error (.invalidCron "* *" "expected 5 or 6 fields, got 2") ∧
    compile {} {} (namedJob "0 3 * * *" "outbox" "Sent At") = .error
      (.invalidName "filters[1].column" "Sent At" "contains disallowed character ' '") ∧
    ∃ c, compile {} {} (namedJob "0 3 * * *" "outbox" "CreatedAt") = .ok c := by
  have hrefused {job : Definition} (n : Nat) (k : Demand) {e : CompileError}
      (hdemands : job.demands = job.demands.take n ++ k :: job.demands.drop (n + 1))
      (hbefore : ∀ x ∈ job.demands.take n, x.check = .ok ()) (hk : k.check = .error e) :
      compile {} {} job = .error e :=
    ((compile_first_refusal {} {} job).2.1 e).mpr ⟨_, k, _, hdemands,
      fun x hx => Demand.check_eq_ok_iff.mp (hbefore x hx), Demand.check_eq_error_iff.mp hk⟩
  have htable : compile {} {} (namedJob "* *" "1st" "Sent At") = .error
      (.invalidName "table" "1st" "must start with a letter or underscore, found '1'") :=
    hrefused 4 (.identifier "table" "1st") (by decide +kernel) (by decide +kernel)
      (by decide +kernel)
  have hmet : ∀ k ∈ (namedJob "0 3 * * *" "outbox" "CreatedAt").demands, k.check = .ok () := by
    decide +kernel
  refine ⟨htable, ?_, ?_, ?_, ?_⟩
  · intro t th limit days
    exact ((compile_first_refusal {} {} _).2.2 t th limit days).trans
      (verdict_eq_error_iff.mpr htable)
  · exact hrefused 5 (.cron "* *") (by decide +kernel) (by decide +kernel) (by decide +kernel)
  · exact hrefused 7 (.identifier "filters[1].column" "Sent At") (by decide +kernel)
      (by decide +kernel) (by decide +kernel)
  · exact (compile_first_refusal {} {} _).1.mpr
      (fun k hk => Demand.check_eq_ok_iff.mp (hmet k hk))

end RetentionJobs.Job
