import RetentionJobs.CommandLine.Run
import RetentionJobs.Proofs.Gateway.Acknowledged
import RetentionJobs.Proofs.Job.Refusal
/-! The ways to the compiler agree. The command line, a preview and a creation compile the same job
alike, and a lookup, which checks the names on its own, says of them what a compilation says. -/
namespace RetentionJobs.Gateway
open RetentionJobs.Text RetentionJobs.CommandLine RetentionJobs.Outcome

/-- The status and the body of a response. -/
def Response.Says (response : Response) (status : Nat) (body : Json) : Prop :=
  response.status = status ∧ response.body = some body

/-- A request whose body is read as a job. -/
structure Posts (q : Request) (path : String) (job : Job.Request) : Prop where
  method : q.method = "POST"
  path : q.resource.path = path
  body : ∃ allowance, allowance? q = some allowance ∧ readJob allowance q = .ok job

/-- A request for the registered name of a job. -/
structure LooksUp (q : Request) (jobName databaseName : String) : Prop where
  method : q.method = "GET"
  path : q.resource.path = "/jobs"
  allowed : (allowance? q).isSome
  jobName : parameter? (Form.pairs q.resource.query.toList) "jobName" = some jobName
  databaseName : parameter? (Form.pairs q.resource.query.toList) "databaseName" = some databaseName

theorem says_compileFailed (e : CompileError) :
    (compileFailed e).Says 400 (errorBody e.code e.message) := ⟨rfl, rfl⟩

def namedBody (name : String) : Json := .object [("registeredName", .string name)]

/-- What a lookup answers, given the verdict on the names. -/
def namedAnswer (jobName databaseName : String) : Except CompileError Unit → Response
  | .error e => compileFailed e
  | .ok () => { status := 200, body := some (namedBody (Job.registeredName databaseName jobName)) }

namespace Service
variable {σ : Type} (g : Service σ) {q : Request} {job : Job.Request}

theorem says_published {response : Response} {status : Nat} {body : Json}
    (h : response.Says status body) : (g.published q response).Says status body := by
  simpa [Response.Says] using h

theorem respond_of_posts_preview (h : Posts q "/jobs/preview" job) (s : σ) :
    g.respond q s = (g.published q (g.previewAnswer job), s) := by
  obtain ⟨allowance, hallowance, hread⟩ := h.body
  have hroute : Route.ofPath? q.resource.path = some .preview := by
    rw [h.path]
    rfl
  have hendpoint : Route.preview.endpoint? q.method = some .preview := by
    rw [h.method]
    rfl
  rw [g.respond_of_endpoint hroute hendpoint (by simp [h.method]) hallowance]
  simp only [answerAt, hread]

theorem respond_of_posts_create (h : Posts q "/jobs" job) (s : σ) :
    g.respond q s = (g.published q (g.createAnswer job s).1, (g.createAnswer job s).2) := by
  obtain ⟨allowance, hallowance, hread⟩ := h.body
  have hroute := Route.ofPath?_eq_jobs_iff.mpr h.path
  have hendpoint : Route.jobs.endpoint? q.method = some .create :=
    Route.endpoint?_eq_create_iff.mpr ⟨rfl, h.method⟩
  rw [g.respond_of_endpoint hroute hendpoint (by simp [h.method]) hallowance]
  simp only [answerAt, hread]

theorem respond_of_looksUp {jobName databaseName : String} (h : LooksUp q jobName databaseName)
    (s : σ) : g.respond q s =
      (g.published q (namedAnswer jobName databaseName (Job.requireNames jobName databaseName)),
        s) := by
  obtain ⟨allowance, hallowance⟩ := Option.isSome_iff_exists.mp h.allowed
  have hroute := Route.ofPath?_eq_jobs_iff.mpr h.path
  have hendpoint : Route.jobs.endpoint? q.method = some .lookup := by
    rw [h.method]
    rfl
  rw [g.respond_of_endpoint hroute hendpoint (by simp [h.method]) hallowance]
  simp only [answerAt, lookupAnswer, h.jobName, h.databaseName, Job.requireNames]
  split
  · rename_i e he
    rw [he]
    rfl
  · rename_i hok
    rw [hok]
    rfl

/-! What each answers, by the verdict of the compiler. -/

theorem preview_of_compile {c : Job.Compiled} (h : Posts q "/jobs/preview" job)
    (hcompile : job.compile g.template g.thresholds = .ok c) (s : σ) :
    (g.respond q s).2 = s ∧ (g.respond q s).1.Says 200 (compiledBody c) := by
  rw [g.respond_of_posts_preview h, previewAnswer, hcompile]
  exact ⟨rfl, g.says_published ⟨rfl, rfl⟩⟩

theorem preview_of_error {e : CompileError} (h : Posts q "/jobs/preview" job)
    (hcompile : job.compile g.template g.thresholds = .error e) (s : σ) :
    (g.respond q s).2 = s ∧ (g.respond q s).1.Says 400 (errorBody e.code e.message) := by
  rw [g.respond_of_posts_preview h, previewAnswer, hcompile]
  exact ⟨rfl, g.says_published (says_compileFailed e)⟩

theorem create_of_compile {c : Job.Compiled} (h : Posts q "/jobs" job)
    (hcompile : job.compile g.template g.thresholds = .ok c) (s : σ) :
    (g.respond q s).2 = (g.repository.submit c.query s).2 ∧
      ∀ n, (g.repository.submit c.query s).1 = .ok n →
        (g.respond q s).1.Says 201 (createdBody c n) := by
  obtain ⟨allowance, hallowance, hread⟩ := h.body
  have hcreation : g.creation? q = some c := g.creation?_eq_some_iff.mpr
    ⟨h.path, h.method, allowance, job, hallowance, hread, hcompile⟩
  rw [g.respond_of_creation? hcreation]
  refine ⟨rfl, fun n hn => g.says_published ?_⟩
  rw [hn]
  exact ⟨rfl, rfl⟩

theorem create_of_error {e : CompileError} (h : Posts q "/jobs" job)
    (hcompile : job.compile g.template g.thresholds = .error e) (s : σ) :
    (g.respond q s).2 = s ∧ (g.respond q s).1.Says 400 (errorBody e.code e.message) := by
  rw [g.respond_of_posts_create h, createAnswer, hcompile]
  exact ⟨rfl, g.says_published (says_compileFailed e)⟩

theorem lookup_of_ok {jobName databaseName : String} (h : LooksUp q jobName databaseName)
    (hnames : Job.requireNames jobName databaseName = .ok ()) (s : σ) :
    (g.respond q s).1.Says 200 (namedBody (Job.registeredName databaseName jobName)) := by
  rw [g.respond_of_looksUp h, hnames]
  exact g.says_published ⟨rfl, rfl⟩

theorem lookup_of_error {jobName databaseName : String} {e : CompileError}
    (h : LooksUp q jobName databaseName)
    (hnames : Job.requireNames jobName databaseName = .error e) (s : σ) :
    (g.respond q s).1.Says 400 (errorBody e.code e.message) := by
  rw [g.respond_of_looksUp h, hnames]
  exact g.says_published (says_compileFailed e)

end Service

/-! The command line. -/

/-- A body is read as the command line reads a text. -/
theorem ofJson_of_readJob {allowance : Nat} {q : Request} {job : Job.Request}
    (h : readJob allowance q = .ok job) : Job.Request.ofJson q.body = .ok job := by
  unfold readJob at h
  split at h
  · cases h
  · split at h
    · cases h
    · split at h
      · rename_i job' hjob
        rw [hjob, Except.ok.inj h]
      · cases h
      · cases h

theorem compileJson_eq_ok_iff {th : Job.Thresholds} {raw : String} {r : Job.Request}
    {c : Job.Compiled} (hraw : Job.Request.ofJson raw = .ok r) :
    compileJson th raw = .ok c ↔ r.compile {} th = .ok c := by
  simp only [compileJson, hraw, mapError_eq_ok_iff]

theorem compileJson_eq_error_iff {th : Job.Thresholds} {raw : String} {r : Job.Request}
    {e : Failure} (hraw : Job.Request.ofJson raw = .ok r) :
    compileJson th raw = .error e ↔ ∃ ce, r.compile {} th = .error ce ∧ .compile ce = e := by
  simp only [compileJson, hraw, mapError_eq_error_iff]

/-- The command line, a preview and a creation have one verdict on a job. When it compiles, a preview
answers with all of what it compiles to, and a creation submits the statement and answers with the
same statement, name and adjustments; when it does not, both answer with the error and change
nothing. A lookup has the same registered name, and where nothing comes before the names, the same
verdict on them. -/
theorem routes_agree {σ : Type} (th : Job.Thresholds) (repository : Repository σ)
    (cors : Option Cors) {raw : String} {r : Job.Request} (hraw : Job.Request.ofJson raw = .ok r)
    {preview create lookup : Request} (hpreview : Posts preview "/jobs/preview" r)
    (hcreate : Posts create "/jobs" r) (hlookup : LooksUp lookup r.jobName r.databaseName) (s : σ) :
    let g : Service σ := ⟨{}, th, repository, cors⟩
    let refused (response : Response) (e : CompileError) : Prop := ∃ code text,
      e.Displays code text ∧
        response.Says 400 (.object [("error", .string code), ("message", .string text)])
    (∀ c, compileJson th raw = .ok c →
      let adjustments : Json := .array (c.adjustments.map fun a => .object
        [("applied", .number a.applied), ("field", .string a.field),
          ("requested", a.requested.elim .null .number)])
      ((g.respond preview s).2 = s ∧ (g.respond preview s).1.Says 200 (.object
        [("adjustments", adjustments), ("cronExpression", .string c.cronExpression),
          ("query", .string c.query), ("registeredName", .string c.registeredName)])) ∧
      ((g.respond create s).2 = (repository.submit c.query s).2 ∧
        ∀ n, (repository.submit c.query s).1 = .ok n → (g.respond create s).1.Says 201 (.object
          [("acknowledgement", .number n), ("adjustments", adjustments),
            ("query", .string c.query), ("registeredName", .string c.registeredName)])) ∧
      (g.respond lookup s).1.Says 200
        (.object [("registeredName", .string c.registeredName)])) ∧
    (∀ failure, compileJson th raw = .error failure → ∃ e, failure = .compile e ∧
      ((g.respond preview s).2 = s ∧ refused (g.respond preview s).1 e) ∧
      ((g.respond create s).2 = s ∧ refused (g.respond create s).1 e)) ∧
    (r.filters.getD [] ≠ [] → ∀ cron, r.cron = .ok cron →
      ((g.respond lookup s).1.status = 400 ↔
        ∃ e, compileJson th raw = .error (.compile e) ∧ e.OnNames) ∧
      ∀ e, compileJson th raw = .error (.compile e) → e.OnNames →
        refused (g.respond lookup s).1 e) := by
  have hfailed (e : CompileError) :
      compileJson th raw = .error (.compile e) ↔ r.compile {} th = .error e := by
    simp [compileJson_eq_error_iff hraw]
  intro g refused
  have hrefused {response : Response} {e : CompileError}
      (h : response.Says 400 (errorBody e.code e.message)) : refused response e :=
    ⟨e.code, e.message, e.displays, h⟩
  refine ⟨fun c hc => ?_, fun failure hfailure => ?_, fun hfilters cron hcron => ?_⟩
  · have hcompile := (compileJson_eq_ok_iff hraw).mp hc
    obtain ⟨hnames, hname⟩ := Job.Request.names_of_compile hcompile
    have hregistered := g.lookup_of_ok hlookup hnames s
    rw [← hname] at hregistered
    intro adjustments
    have hadjustments : adjustments = .array (c.adjustments.map adjustmentBody) := by
      refine congrArg Json.array (List.map_congr_left fun a _ => ?_)
      rw [adjustmentBody]
      cases a.requested <;> rfl
    rw [hadjustments]
    exact ⟨g.preview_of_compile hpreview hcompile s, g.create_of_compile hcreate hcompile s,
      hregistered⟩
  · obtain ⟨e, he, rfl⟩ := (compileJson_eq_error_iff hraw).mp hfailure
    obtain ⟨hstate, hsaid⟩ := g.preview_of_error hpreview he s
    obtain ⟨hstate', hsaid'⟩ := g.create_of_error hcreate he s
    exact ⟨e, rfl, ⟨hstate, hrefused hsaid⟩, hstate', hrefused hsaid'⟩
  · have hnames (e : CompileError) : (compileJson th raw = .error (.compile e) ∧ e.OnNames) ↔
        Job.requireNames r.jobName r.databaseName = .error e := by
      rw [hfailed]
      exact Job.Request.compile_eq_error_onNames_iff hfilters hcron
    refine ⟨?_, fun e he hon => hrefused (g.lookup_of_error hlookup ((hnames e).mp ⟨he, hon⟩) s)⟩
    cases hverdict : Job.requireNames r.jobName r.databaseName with
    | ok u =>
      have hstatus := (g.lookup_of_ok hlookup hverdict s).1
      simp [hstatus, hnames, hverdict]
    | error e =>
      have hstatus := (g.lookup_of_error hlookup hverdict s).1
      simp [hstatus, hnames, hverdict]

/-- The body is read alike wherever it is posted. -/
theorem posts_outboxPost (path : String) {jobName limit : String} {n : Int}
    (hread : readJob maxBodyBytes (outboxPost "/jobs" jobName limit) = .ok (outboxJob jobName n)) :
    Posts (outboxPost path jobName limit) path (outboxJob jobName n) :=
  ⟨rfl, rfl, maxBodyBytes, rfl, hread⟩

def outboxLookup (jobName : String) : Request where
  method := "GET"
  resource := ⟨"/jobs", "databaseName=core&jobName=" ++ jobName⟩

/-- The statement of the job. -/
def outboxQuery : String :=
  "SELECT cron.schedule('core-purge-job', '0 3 * * *', $$ with om_cte as " ++
  "(select om.\"Id\" from dbo.\"outbox\" om WHERE " ++
  "om.\"SentAt\" AT TIME ZONE 'UTC' < NOW() AT TIME ZONE 'UTC' - INTERVAL '30 days' AND " ++
  "om.\"CreatedAt\" AT TIME ZONE 'UTC' < NOW() AT TIME ZONE 'UTC' - INTERVAL '90 days' LIMIT 10) " ++
  "delete from dbo.\"outbox\" om where om.\"Id\" in (select \"Id\" from om_cte);$$, 'core');"

/-- All ways to the compiler take one job, and refuse another one for the quote in its name. -/
theorem routes_agree_outboxPost :
    let adjustments : Json := .array [.object
      [("applied", .number 30), ("field", .string "filters[0].days"), ("requested", .number 10)]]
    let refusal : Json := .object [("error", .string "invalid_identifier"),
      ("message", .string "invalid jobName 'it's': contains disallowed character '''")]
    ((outboxGateway.respond (outboxPost "/jobs/preview" "purge" "10") emptyOutbox).1.Says 200
        (.object [("adjustments", adjustments), ("cronExpression", .string "0 3 * * *"),
          ("query", .string outboxQuery), ("registeredName", .string "core-purge-job")]) ∧
      (outboxGateway.respond (outboxPost "/jobs" "purge" "10") emptyOutbox).1.Says 201
        (.object [("acknowledgement", .number 1), ("adjustments", adjustments),
          ("query", .string outboxQuery), ("registeredName", .string "core-purge-job")]) ∧
      (outboxGateway.respond (outboxPost "/jobs" "purge" "10") emptyOutbox).2.rows =
        [outboxQuery] ∧
      (outboxGateway.respond (outboxLookup "purge") emptyOutbox).1.Says 200
        (.object [("registeredName", .string "core-purge-job")])) ∧
    (outboxGateway.respond (outboxPost "/jobs/preview" "it's" "10") emptyOutbox).1.Says 400
      refusal ∧
    (outboxGateway.respond (outboxPost "/jobs" "it's" "10") emptyOutbox).1.Says 400 refusal ∧
    (outboxGateway.respond (outboxLookup "it%27s") emptyOutbox).1.Says 400 refusal := by
  constructor
  · have hread : readJob maxBodyBytes (outboxPost "/jobs" "purge" "10") =
        .ok (outboxJob "purge" 10) := by
      decide +kernel
    have hraw := ofJson_of_readJob hread
    have hlookup : LooksUp (outboxLookup "purge") "purge" "core" :=
      ⟨rfl, rfl, rfl, by decide +kernel, by decide +kernel⟩
    have hcompile : (outboxJob "purge" 10).compile {} ⟨30, 10⟩ =
        .ok ⟨outboxQuery, "core-purge-job", "0 3 * * *", [⟨"filters[0].days", some 10, 30⟩]⟩ := by
      decide +kernel
    obtain ⟨hok, -⟩ := routes_agree ⟨30, 10⟩ Outbox.repository none hraw
      (posts_outboxPost "/jobs/preview" hread) (posts_outboxPost "/jobs" hread) hlookup emptyOutbox
    obtain ⟨⟨-, hpreview⟩, ⟨hsubmitted, hcreated⟩, hregistered⟩ :=
      hok _ ((compileJson_eq_ok_iff hraw).mpr hcompile)
    obtain ⟨hsubmit, -⟩ := submit_emptyOutbox outboxQuery outboxQuery
    have hrows := (congrArg Outbox.Session.rows hsubmitted).trans (Outbox.records_rows.ok hsubmit)
    exact ⟨hpreview, hcreated 1 hsubmit, hrows, hregistered⟩
  · have hread : readJob maxBodyBytes (outboxPost "/jobs" "it's" "10") =
        .ok (outboxJob "it's" 10) := by
      decide +kernel
    have hraw := ofJson_of_readJob hread
    have hlookup : LooksUp (outboxLookup "it%27s") "it's" "core" :=
      ⟨rfl, rfl, rfl, by decide +kernel, by decide +kernel⟩
    have hfilters : (outboxJob "it's" 10).filters.getD [] ≠ [] := List.cons_ne_nil _ _
    have hcompile : (outboxJob "it's" 10).compile {} ⟨30, 10⟩ = .error
        (.invalidName "jobName" "it's" "contains disallowed character '''") := by
      decide +kernel
    have hfailed := (compileJson_eq_error_iff hraw).mpr ⟨_, hcompile, rfl⟩
    obtain ⟨-, herror, hnames⟩ := routes_agree ⟨30, 10⟩ Outbox.repository none hraw
      (posts_outboxPost "/jobs/preview" hread) (posts_outboxPost "/jobs" hread) hlookup emptyOutbox
    obtain ⟨_, ⟨⟩, ⟨-, _, _, ⟨⟩, hpreview⟩, -, _, _, ⟨⟩, hcreate⟩ := herror _ hfailed
    obtain ⟨_, _, ⟨⟩, hlooked⟩ := (hnames hfilters _ rfl).2 _ hfailed (.inl rfl)
    exact ⟨hpreview, hcreate, hlooked⟩

end RetentionJobs.Gateway
