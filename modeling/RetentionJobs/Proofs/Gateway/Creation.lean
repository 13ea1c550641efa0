import Mathlib.Data.List.Basic
import RetentionJobs.Gateway.Router
import RetentionJobs.Proofs.Outcome
/-! What a request makes of the repository. One that creates a job submits the statement of the job
once and is answered by what the repository says. Any other leaves the repository alone and is not
answered with status 201. -/
namespace RetentionJobs

/-- The value of a member of an object. -/
def Json.member? (key : String) : Json → Option Json
  | .object members => members.lookup key
  | _ => none

namespace Gateway

namespace Response

@[simp] theorem withHeader_status (r : Response) (name value : String) :
    (r.withHeader name value).status = r.status := rfl

end Response

/-- What is answered once the repository has been asked to take the statement of a job. -/
def createdResponse (c : Job.Compiled) : Except RepositoryError Nat → Response
  | .error e => repositoryFailed e
  | .ok n => { status := 201, body := some (createdBody c n) }

/-- Answers without the repository, and not with status 201. -/
def Inert {σ : Type} (answer : σ → Response × σ) : Prop :=
  ∃ response : Response, response.status ≠ 201 ∧ ∀ s, answer s = (response, s)

theorem Inert.map {σ : Type} {answer : σ → Response × σ} (h : Inert answer)
    {f : Response → Response} (hf : ∀ response, (f response).status = response.status) :
    Inert (fun s => (f (answer s).1, (answer s).2)) := by
  obtain ⟨response, hne, hanswer⟩ := h
  exact ⟨f response, by rwa [hf], fun s => by simp only [hanswer]⟩

theorem readJob_error_ne {allowance status : Nat} {r : Request}
    (h : readJob allowance r = .error status) : status ≠ 201 := by
  unfold readJob at h
  split at h
  · cases h; decide
  · split at h
    · cases h; decide
    · split at h
      · cases h
      · cases h; decide
      · cases h; decide

theorem lookupAnswer_status_ne (query : String) : (lookupAnswer query).status ≠ 201 := by
  unfold lookupAnswer
  simp only
  split
  · split <;> simp [compileFailed]
  · decide

theorem Route.ofPath?_eq_jobs_iff {path : String} :
    Route.ofPath? path = some .jobs ↔ path = "/jobs" := by
  unfold Route.ofPath?
  split
  · simp_all
  · split <;> simp_all

theorem Route.endpoint?_eq_create_iff {route : Route} {method : String} :
    route.endpoint? method = some .create ↔ route = .jobs ∧ method = "POST" := by
  cases route with
  | health => simp only [Route.endpoint?]; split <;> simp
  | jobs =>
    simp only [Route.endpoint?]
    split
    · rename_i hget
      have hne : method ≠ "POST" := by
        rintro rfl
        exact absurd hget (by decide)
      simp [hne]
    · simp
  | preview => simp only [Route.endpoint?]; split <;> simp

namespace Service
variable {σ : Type} (g : Service σ)

/-- The registration that a request asks for, when it asks for one that compiles. -/
def creation? (r : Request) : Option Job.Compiled :=
  if r.resource.path = "/jobs" ∧ r.method = "POST" then do
    let allowance ← allowance? r
    let job ← (readJob allowance r).toOption
    (job.compile g.template g.thresholds).toOption
  else none

theorem creation?_eq_some_iff {r : Request} {c : Job.Compiled} :
    g.creation? r = some c ↔ r.resource.path = "/jobs" ∧ r.method = "POST" ∧
      ∃ allowance job, allowance? r = some allowance ∧ readJob allowance r = .ok job ∧
        job.compile g.template g.thresholds = .ok c := by
  unfold creation?
  split
  · rename_i h
    simp [h, Outcome.toOption_eq_some_iff, Option.bind_eq_some_iff]
  · rename_i h
    simp only [reduceCtorEq, false_iff]
    exact fun hc => h ⟨hc.1, hc.2.1⟩

/-- The response with the headers for other sites. -/
def published (r : Request) (response : Response) : Response :=
  match g.cors with
  | none => response
  | some cors => { response with headers := response.headers ++ cors.headers r }

@[simp] theorem published_status (r : Request) (response : Response) :
    (g.published r response).status = response.status := by
  unfold published
  split <;> rfl

@[simp] theorem published_body (r : Request) (response : Response) :
    (g.published r response).body = response.body := by
  unfold published
  split <;> rfl

theorem shared_of_ne_options {r : Request} (h : r.method ≠ "OPTIONS") (endpoint : Except Nat Endpoint)
    (s : σ) : g.shared endpoint r s =
      (g.published r (g.limited endpoint r s).1, (g.limited endpoint r s).2) := by
  unfold shared published
  cases g.cors with
  | none => rfl
  | some cors => simp only [Cors.wrap, if_neg h]

/-- Where a path and a method have an endpoint, its answer is published. -/
theorem respond_of_endpoint {r : Request} {route : Route} {endpoint : Endpoint} {allowance : Nat}
    (hroute : Route.ofPath? r.resource.path = some route)
    (hendpoint : route.endpoint? r.method = some endpoint) (hhead : r.method ≠ "HEAD")
    (hallowance : allowance? r = some allowance) (s : σ) :
    g.respond r s = (g.published r (g.answerAt endpoint allowance r s).1,
      (g.answerAt endpoint allowance r s).2) := by
  have hoptions : r.method ≠ "OPTIONS" := by
    rintro hoptions
    rw [hoptions] at hendpoint
    cases route <;> simp [Route.endpoint?] at hendpoint
  have hlimited : g.limited (.ok endpoint) r s = g.answerAt endpoint allowance r s := by
    simp only [limited, hallowance]
  simp only [respond, hroute, hendpoint, if_neg hhead, g.shared_of_ne_options hoptions, hlimited]

/-! Requests that create nothing. -/

theorem inert_answerAt {r : Request} {endpoint : Endpoint} {allowance : Nat}
    (h : ∀ job c, endpoint = .create → readJob allowance r = .ok job →
      job.compile g.template g.thresholds ≠ .ok c) :
    Inert (g.answerAt endpoint allowance r) := by
  cases endpoint with
  | health => exact ⟨_, by simp [healthAnswer], fun _ => rfl⟩
  | lookup => exact ⟨_, lookupAnswer_status_ne _, fun _ => rfl⟩
  | preview =>
    cases hread : readJob allowance r with
    | error status =>
      exact ⟨_, readJob_error_ne hread, fun s => by simp only [answerAt, hread]; rfl⟩
    | ok job =>
      refine ⟨g.previewAnswer job, ?_, fun s => by simp only [answerAt, hread]⟩
      unfold previewAnswer
      split <;> simp [compileFailed]
  | create =>
    cases hread : readJob allowance r with
    | error status =>
      exact ⟨_, readJob_error_ne hread, fun s => by simp only [answerAt, hread]; rfl⟩
    | ok job =>
      cases hcompile : job.compile g.template g.thresholds with
      | error e =>
        exact ⟨compileFailed e, by simp [compileFailed],
          fun s => by simp only [answerAt, hread, createAnswer, hcompile]⟩
      | ok c => exact absurd hcompile (h job c rfl hread)

theorem inert_limited {r : Request} {endpoint : Except Nat Endpoint}
    (hstatus : ∀ status, endpoint = .error status → status ≠ 201)
    (hanswer : ∀ e allowance, endpoint = .ok e → allowance? r = some allowance →
      Inert (g.answerAt e allowance r)) : Inert (g.limited endpoint r) := by
  cases hallowance : allowance? r with
  | none => exact ⟨{ status := 413 }, by decide, fun s => by simp only [limited, hallowance]⟩
  | some allowance =>
    cases hendpoint : endpoint with
    | error status =>
      exact ⟨{ status }, hstatus status hendpoint, fun s => by simp only [limited, hallowance]⟩
    | ok e =>
      obtain ⟨response, hne, hresponse⟩ := hanswer e allowance hendpoint hallowance
      exact ⟨response, hne, fun s => by simp only [limited, hallowance, hresponse]⟩

theorem inert_shared {r : Request} {endpoint : Except Nat Endpoint}
    (h : Inert (g.limited endpoint r)) : Inert (g.shared endpoint r) := by
  obtain ⟨response, hne, hresponse⟩ := h
  unfold shared
  cases g.cors with
  | none => exact ⟨response, hne, hresponse⟩
  | some cors =>
    by_cases hoptions : r.method = "OPTIONS"
    · exact ⟨cors.preflight r, by simp [Cors.preflight], fun s => by simp [Cors.wrap, hoptions]⟩
    · exact ⟨{ response with headers := response.headers ++ cors.headers r }, hne,
        fun s => by simp [Cors.wrap, hoptions, hresponse]⟩

theorem inert_respond {r : Request} (h : g.creation? r = none) : Inert (g.respond r) := by
  have hrefused (status : Nat) (hne : status ≠ 201) : Inert (g.shared (.error status) r) :=
    g.inert_shared (g.inert_limited (by rintro _ ⟨⟩; exact hne) (by rintro _ _ ⟨⟩))
  have hhead : ∀ response : Response,
      (if r.method = "HEAD" then { response with body := none } else response).status =
        response.status := by
    intro response
    split <;> rfl
  unfold respond
  cases hroute : Route.ofPath? r.resource.path with
  | none => exact (hrefused 404 (by decide)).map hhead
  | some route =>
    simp only
    cases hendpoint : route.endpoint? r.method with
    | none =>
      have hallow := (hrefused 405 (by decide)).map (fun response =>
        Response.withHeader_status response "allow" route.allow)
      exact hallow.map hhead
    | some endpoint =>
      have hanswer : Inert (g.shared (.ok endpoint) r) := by
        refine g.inert_shared (g.inert_limited (by rintro _ ⟨⟩) ?_)
        rintro e allowance ⟨⟩ hallowance
        refine g.inert_answerAt ?_
        rintro job c rfl hread hcompile
        obtain ⟨rfl, hmethod⟩ := Route.endpoint?_eq_create_iff.mp hendpoint
        have hpath := Route.ofPath?_eq_jobs_iff.mp hroute
        have hcreation := g.creation?_eq_some_iff.mpr
          ⟨hpath, hmethod, allowance, job, hallowance, hread, hcompile⟩
        simp [h] at hcreation
      exact hanswer.map hhead

/-- A job that is created is submitted once, and its statement is the one that was compiled. -/
theorem respond_of_creation? {r : Request} {c : Job.Compiled} (h : g.creation? r = some c) (s : σ) :
    g.respond r s = (g.published r (createdResponse c (g.repository.submit c.query s).1),
      (g.repository.submit c.query s).2) := by
  obtain ⟨hpath, hmethod, allowance, job, hallowance, hread, hcompile⟩ :=
    g.creation?_eq_some_iff.mp h
  have hroute : Route.ofPath? r.resource.path = some .jobs := Route.ofPath?_eq_jobs_iff.mpr hpath
  have hendpoint : Route.jobs.endpoint? r.method = some .create :=
    Route.endpoint?_eq_create_iff.mpr ⟨rfl, hmethod⟩
  have hanswer : g.answerAt .create allowance r s =
      (createdResponse c (g.repository.submit c.query s).1, (g.repository.submit c.query s).2) := by
    simp only [answerAt, hread, createAnswer, hcompile]
    split <;> simp_all [createdResponse]
  rw [g.respond_of_endpoint hroute hendpoint (by simp [hmethod]) hallowance, hanswer]

end Service
end Gateway
end RetentionJobs
