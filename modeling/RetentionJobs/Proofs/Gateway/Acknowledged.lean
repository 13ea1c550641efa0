import RetentionJobs.Proofs.Gateway.Interleaving
import RetentionJobs.Proofs.Job.Effective
/-! What a repository has been given is what the gateway has acknowledged, however the requests that
it is asked at the same time take turns. -/
namespace RetentionJobs.Gateway

/-- Along every schedule by which all requests are answered, the repository is given the statements
in the answers to the jobs that were created, each as often as it is there; one request after the
other, in the order of the requests. Any other answer leaves the repository as it is. The stages
that take turns lead to the responses of the gateway: a request that has the repository to itself
is answered with its response after three of them, and so are requests one after the other. -/
theorem Service.rows_acknowledged {σ : Type} {g : Service σ} {rows : σ → List String}
    (hrows : g.repository.Records rows) (requests : List Request) (s : σ) :
    (∀ schedule responses,
      (interleave schedule (received g requests) s).1.map Task.response? = responses.map some →
      (∀ p ∈ requests.zip responses, Created p.1 p.2 → p.2.query?.isSome) ∧
      ∃ new, rows (interleave schedule (received g requests) s).2 = rows s ++ new ∧
        new.Perm (acknowledged requests responses)) ∧
    rows (g.respondAll requests s).2 =
      rows s ++ acknowledged requests (g.respondAll requests s).1 ∧
    (∀ r s, ¬ Created r (g.respond r s).1 → rows (g.respond r s).2 = rows s) ∧
    (∀ r s, ∃ stage₁ stage₂ : Stage g r, ∃ s₁ s₂ : σ, Stage.received.advance s = (stage₁, s₁) ∧
      stage₁.advance s₁ = (stage₂, s₂) ∧
      stage₂.advance s₂ = (.answered (g.respond r s).1, (g.respond r s).2)) ∧
    interleave (serial 0 requests.length) (received g requests) s =
      (finished g requests (g.respondAll requests s).1, (g.respondAll requests s).2) := by
  refine ⟨fun _ _ hdone => rows_of_answered hrows hdone, rows_respondAll hrows requests s, ?_,
    fun _ s => Stage.advance_three s, interleave_serial [] requests s⟩
  intro r s hcreated
  rw [rows_respond hrows, acknowledged?, if_neg hcreated, Option.toList_none, List.append_nil]

/-- A request to create a job, or to see what creating it would submit. -/
def outboxPost (path jobName limit : String) : Request where
  method := "POST"
  resource := ⟨path, ""⟩
  headers := [("Content-Type", "application/json")]
  body := "[\"" ++ jobName ++ "\", \"0 3 * * *\", null, \"core\", \"dbo\", \"outbox\", " ++
    limit ++ ", [[\"SentAt\", 10], [\"CreatedAt\", 90]]]"

def outboxJob (jobName : String) (limit : Int) : Job.Request where
  jobName
  cronExpression := some "0 3 * * *"
  databaseName := "core"
  schema := "dbo"
  table := "outbox"
  limit := some limit
  filters := some [⟨"SentAt", 10⟩, ⟨"CreatedAt", 90⟩]

/-- A gateway over an outbox. -/
def outboxGateway : Service Outbox.Session where
  thresholds := ⟨30, 10⟩
  repository := Outbox.repository

/-- An empty outbox that is not kept, with numbers for ids. -/
def emptyOutbox : Outbox.Session where
  handle := ⟨":memory:", .detached (some [])⟩
  volume := {}
  tickets n := ⟨Text.natText n, ⟨0, 0⟩⟩

/-- Creating the job is submitting its statement. -/
theorem creation?_outboxPost {limit : String} {n : Int}
    (hread : readJob maxBodyBytes (outboxPost "/jobs" "purge" limit) = .ok (outboxJob "purge" n)) :
    outboxGateway.creation? (outboxPost "/jobs" "purge" limit) = some (Job.registrationOf {} ⟨30, 10⟩
      (Job.purgeJob "0 3 * * *" (some n) 10) "0 3 * * *") := by
  have hcron : Cron.normalize "0 3 * * *" = .ok "0 3 * * *" := by decide +kernel
  have hcompile := Job.compile_purgeJob ⟨30, 10⟩ (some n) 10 hcron
  exact (Service.creation?_eq_some_iff _).mpr ⟨rfl, rfl, _, outboxJob "purge" n, rfl, hread, hcompile⟩

def outboxPosts : List Request := [outboxPost "/jobs" "purge" "10", outboxPost "/jobs" "purge" "20"]

/-- An empty outbox takes two statements. -/
theorem submit_emptyOutbox (q q' : String) :
    (Outbox.repository.submit q emptyOutbox).1 = .ok 1 ∧
      (Outbox.repository.submit q' (Outbox.repository.submit q emptyOutbox).2).1 = .ok 1 := by
  have hids : Text.natText 0 ≠ Text.natText 1 := by decide +kernel
  refine ⟨rfl, ?_⟩
  simp [Outbox.repository, Outbox.Session.submit, emptyOutbox, Outbox.Handle.insert,
    Outbox.Handle.table, Outbox.Handle.setTable, Outbox.Table.insert, hids]

/-- Two jobs are compiled before either is submitted, and the later one is submitted first. The
outbox has both statements, and looking at what a third job would be adds none. One after the other,
the jobs are created as well, and the outbox has the statements in the order of the answers. -/
theorem rows_acknowledged_swapped :
    (∃ responses s,
      interleave [0, 1, 1, 0, 0, 1] (received outboxGateway outboxPosts) emptyOutbox =
          (finished outboxGateway outboxPosts responses, s) ∧
        s.rows = (acknowledged outboxPosts responses).reverse ∧ s.rows.length = 2 ∧
        s.rows.Perm (acknowledged outboxPosts responses) ∧
        (outboxGateway.respond (outboxPost "/jobs/preview" "purge" "30") s).2.rows = s.rows) ∧
    ∃ query query',
      (outboxGateway.respondAll outboxPosts emptyOutbox).1.map (fun r => (r.status, r.query?)) =
        [(201, some query), (201, some query')] ∧
      (outboxGateway.respondAll outboxPosts emptyOutbox).2.rows = [query, query'] := by
  obtain ⟨c₁, hc₁⟩ : ∃ c, outboxGateway.creation? (outboxPost "/jobs" "purge" "10") = some c :=
    ⟨_, creation?_outboxPost (n := 10) (by decide +kernel)⟩
  obtain ⟨c₂, hc₂⟩ : ∃ c, outboxGateway.creation? (outboxPost "/jobs" "purge" "20") = some c :=
    ⟨_, creation?_outboxPost (n := 20) (by decide +kernel)⟩
  obtain ⟨h₂, h₁⟩ := submit_emptyOutbox c₂.query c₁.query
  have hrepository : outboxGateway.repository = Outbox.repository := rfl
  have hpublished (r : Request) (response : Response) :
      outboxGateway.published r response = response := rfl
  have hrun : interleave [0, 1, 1, 0, 0, 1] (received outboxGateway outboxPosts) emptyOutbox =
      (finished outboxGateway outboxPosts
        [createdResponse c₁ (.ok 1), createdResponse c₂ (.ok 1)],
        (Outbox.repository.submit c₁.query (Outbox.repository.submit c₂.query emptyOutbox).2).2) := by
    simp [outboxPosts, interleave, turn, received, Task.advance, finished,
      Stage.advance_received_of_creation? hc₁, Stage.advance_received_of_creation? hc₂,
      hrepository, hpublished, h₁, h₂]
  have hrows : (Outbox.repository.submit c₁.query
      (Outbox.repository.submit c₂.query emptyOutbox).2).2.rows = [c₂.query, c₁.query] := by
    rw [Outbox.records_rows.ok h₁, Outbox.records_rows.ok h₂]
    rfl
  have hacknowledged : acknowledged outboxPosts
      [createdResponse c₁ (.ok 1), createdResponse c₂ (.ok 1)] = [c₁.query, c₂.query] := by
    have h (limit : String) (c : Job.Compiled) :
        acknowledged? (outboxPost "/jobs" "purge" limit) (createdResponse c (.ok 1)) =
          some c.query := by
      have hcreated : Created (outboxPost "/jobs" "purge" limit) (createdResponse c (.ok 1)) :=
        ⟨rfl, rfl, rfl⟩
      rw [acknowledged?, if_pos hcreated, query?_createdResponse]
    simp [acknowledged, outboxPosts, h]
  obtain ⟨hall, hserial, hother, -⟩ := Service.rows_acknowledged (g := outboxGateway)
    Outbox.records_rows outboxPosts emptyOutbox
  constructor
  · obtain ⟨-, new, hnew, hperm⟩ := hall [0, 1, 1, 0, 0, 1]
      [createdResponse c₁ (.ok 1), createdResponse c₂ (.ok 1)] (by rw [hrun]; rfl)
    rw [hrun] at hnew
    refine ⟨_, _, hrun, by rw [hrows, hacknowledged]; rfl, by rw [hrows]; rfl, ?_, ?_⟩
    · rw [hnew]
      exact hperm
    · exact hother _ _ (fun hcreated => absurd hcreated.2.1 (by decide))
  · obtain ⟨h₁, h₂⟩ := submit_emptyOutbox c₁.query c₂.query
    have hresponses : (outboxGateway.respondAll outboxPosts emptyOutbox).1 =
        [createdResponse c₁ (.ok 1), createdResponse c₂ (.ok 1)] := by
      simp [outboxPosts, Service.respondAll, Service.respond_of_creation? _ hc₁,
        Service.respond_of_creation? _ hc₂, hrepository, hpublished, h₁, h₂]
    rw [hresponses, hacknowledged] at hserial
    exact ⟨c₁.query, c₂.query, by rw [hresponses]; rfl, hserial⟩

end RetentionJobs.Gateway
