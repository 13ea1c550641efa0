import RetentionJobs.Gateway.Start
import RetentionJobs.Proofs.Gateway.Creation
/-! Which responses other sites may read. A gateway shares them with the listed origins that can be
the value of a header, and there is none for a list with an asterisk. -/
namespace RetentionJobs.Gateway

/-- The origins that a response is shared with. -/
def Response.allowedOrigins (response : Response) : List String :=
  (response.headers.filter (·.1 = "access-control-allow-origin")).map (·.2)

/-! ### The headers of a response -/

namespace Cors

/-- The headers that sharing adds to the response to a request. -/
def sharing (c : Cors) (r : Request) : List (String × String) :=
  if r.method = "OPTIONS" then (c.preflight r).headers else c.headers r

theorem wrap_headers {σ : Type} (c : Cors) (r : Request) {answer : σ → Response × σ} {s : σ}
    (h : (answer s).1.headers = []) : (c.wrap r answer s).1.headers = c.sharing r := by
  unfold wrap sharing
  split
  · rfl
  · simp only [h, List.nil_append]

/-- Of the headers that sharing adds, one at most names an origin, and it names that of the
request. -/
theorem filter_sharing (c : Cors) (r : Request) :
    (c.sharing r).filter (·.1 = "access-control-allow-origin") = c.headers r := by
  have hheaders : (c.headers r).filter (·.1 = "access-control-allow-origin") = c.headers r := by
    unfold headers
    split
    · rfl
    · split <;> rfl
  unfold sharing
  split
  · simp [preflight, hheaders]
  · exact hheaders

theorem mem_headers_iff {c : Cors} {r : Request} {origin : String} :
    origin ∈ (c.headers r).map (·.2) ↔ r.header? "origin" = some origin ∧ origin ∈ c.origins := by
  unfold headers
  cases r.header? "origin" with
  | none => simp
  | some o =>
    by_cases ho : o ∈ c.origins
    · simp only [List.contains_iff_mem.mpr ho, if_true, List.map_cons, List.map_nil,
        List.mem_singleton, Option.some.injEq]
      exact ⟨fun h => ⟨h.symm, h ▸ ho⟩, fun h => h.1.symm⟩
    · simp only [List.contains_iff_mem, ho, if_false, List.map_nil, List.not_mem_nil, false_iff,
        Option.some.injEq]
      rintro ⟨rfl, h⟩
      exact ho h

theorem ofOrigins_eq (origins : List String) :
    ofOrigins origins =
      if "*" ∈ origins then .error .wildcard
      else .ok (if origins = [] then none else some ⟨origins.filter isHeaderValue⟩) := by
  have hasterisk : isHeaderValue "*" = true := by decide
  unfold ofOrigins
  cases origins with
  | nil => rfl
  | cons o os =>
    simp only [List.isEmpty_cons, Bool.false_eq_true, if_false, List.contains_iff_mem,
      List.mem_filter, hasterisk, and_true, reduceCtorEq]

end Cors

namespace Service
variable {σ : Type} (g : Service σ)

theorem headers_lookupAnswer (query : String) : (lookupAnswer query).headers = [] := by
  simp only [lookupAnswer]
  repeat' split
  all_goals rfl

theorem headers_previewAnswer (job : Job.Request) : (g.previewAnswer job).headers = [] := by
  unfold previewAnswer
  split <;> rfl

theorem headers_createAnswer (job : Job.Request) (s : σ) :
    (g.createAnswer job s).1.headers = [] := by
  unfold createAnswer
  repeat' split
  all_goals rfl

theorem headers_answerAt (endpoint : Endpoint) (allowance : Nat) (r : Request) (s : σ) :
    (g.answerAt endpoint allowance r s).1.headers = [] := by
  cases endpoint with
  | health => rfl
  | lookup => exact headers_lookupAnswer _
  | preview =>
    simp only [answerAt]
    split
    · rfl
    · exact g.headers_previewAnswer _
  | create =>
    simp only [answerAt]
    split
    · rfl
    · exact g.headers_createAnswer _ s

theorem headers_limited (endpoint : Except Nat Endpoint) (r : Request) (s : σ) :
    (g.limited endpoint r s).1.headers = [] := by
  unfold limited
  split
  · rfl
  · rfl
  · exact g.headers_answerAt _ _ r s

/-- The headers for other sites. -/
def sharing (r : Request) : List (String × String) := (g.cors.map (·.sharing r)).getD []

theorem headers_shared (endpoint : Except Nat Endpoint) (r : Request) (s : σ) :
    (g.shared endpoint r s).1.headers = g.sharing r := by
  unfold shared sharing
  cases g.cors with
  | none => exact g.headers_limited endpoint r s
  | some c => exact c.wrap_headers r (g.headers_limited endpoint r s)

/-- A response has the headers for other sites, and names the methods of its path if there is no
endpoint for the one of the request. -/
theorem headers_respond (r : Request) (s : σ) :
    (g.respond r s).1.headers = g.sharing r ∨
      ∃ methods, (g.respond r s).1.headers = g.sharing r ++ [("allow", methods)] := by
  have hbody (response : Response) :
      (if r.method = "HEAD" then { response with body := none } else response).headers =
        response.headers := by
    split <;> rfl
  simp only [respond, hbody]
  split
  · exact .inl (g.headers_shared _ r s)
  · rename_i route hroute
    split
    · exact .inl (g.headers_shared _ r s)
    · refine .inr ⟨route.allow, ?_⟩
      simp only [Response.withHeader, g.headers_shared]

theorem allowedOrigins_respond (r : Request) (s : σ) :
    (g.respond r s).1.allowedOrigins = (g.cors.elim [] (·.headers r)).map (·.2) := by
  have hsharing : (g.sharing r).filter (·.1 = "access-control-allow-origin") =
      g.cors.elim [] (·.headers r) := by
    unfold sharing
    cases g.cors with
    | none => rfl
    | some c => exact c.filter_sharing r
  unfold Response.allowedOrigins
  obtain h | ⟨methods, h⟩ := g.headers_respond r s
  · rw [h, hsharing]
  · rw [h, List.filter_append, hsharing]
    simp

/-- Sharing changes nothing but headers, except that it answers preflights. -/
theorem respond_of_ne_options {r : Request} (h : r.method ≠ "OPTIONS") (s : σ) :
    (g.respond r s).2 = ({ g with cors := none }.respond r s).2 ∧
      (g.respond r s).1.status = ({ g with cors := none }.respond r s).1.status ∧
      (g.respond r s).1.body = ({ g with cors := none }.respond r s).1.body := by
  have hlimited (endpoint : Except Nat Endpoint) :
      { g with cors := none }.limited endpoint r s = g.limited endpoint r s := rfl
  simp only [respond, shared_of_ne_options _ h, hlimited]
  split
  · split <;> simp
  · split
    · split <;> simp
    · split <;> simp [Response.withHeader]

/-- A gateway is made of every list of origins without an asterisk, and of no other. It shares each
response with the origin of the request exactly if that is listed and can be the value of a header,
and with no other origin. For the empty list it has no headers for other sites, and any other list
changes only headers and the answers to preflights. -/
theorem build_shares_iff (template : Job.Template) (thresholds : Job.Thresholds)
    (repository : Repository σ) (origins : List String) :
    ((∃ g, build template thresholds repository origins = .ok g) ↔ "*" ∉ origins) ∧
      ∀ g, build template thresholds repository origins = .ok g → ∀ (r : Request) (s : σ),
        (∀ origin, r.header? "origin" = some origin →
          (origin ∈ (g.respond r s).1.allowedOrigins ↔ origin ∈ origins ∧ isHeaderValue origin)) ∧
        (∀ origin ∈ (g.respond r s).1.allowedOrigins, r.header? "origin" = some origin) ∧
        (origins = [] →
          ∀ h ∈ (g.respond r s).1.headers, ¬ "access-control-".toList <+: h.1.toList) ∧
        (r.method ≠ "OPTIONS" →
          let plain : Service σ := { template, thresholds, repository }
          (g.respond r s).2 = (plain.respond r s).2 ∧
            (g.respond r s).1.status = (plain.respond r s).1.status ∧
            (g.respond r s).1.body = (plain.respond r s).1.body) := by
  unfold build
  rw [Cors.ofOrigins_eq]
  split
  · rename_i hasterisk
    simp [hasterisk, Except.map]
  rename_i hasterisk
  refine ⟨by simp [hasterisk, Except.map], fun g hg r s => ?_⟩
  obtain rfl := Except.ok.inj hg
  refine ⟨fun origin horigin => ?_, fun origin hmem => ?_, fun hempty h hh => ?_, fun hmethod => ?_⟩
  · rw [allowedOrigins_respond]
    split
    · rename_i hempty
      simp [hempty]
    · rw [Option.elim_some, Cors.mem_headers_iff, List.mem_filter]
      simp [horigin]
  · rw [allowedOrigins_respond] at hmem
    split at hmem
    · cases hmem
    · exact (Cors.mem_headers_iff.mp hmem).1
  · rw [if_pos hempty] at hh
    obtain hnone | ⟨methods, hallow⟩ := headers_respond
      { template, thresholds, repository, cors := none : Service σ } r s
    · rw [hnone] at hh
      cases hh
    · rw [hallow] at hh
      rw [List.mem_singleton.mp hh]
      exact (by decide : ¬ "access-control-".toList <+: "allow".toList)
  · exact respond_of_ne_options _ hmethod s

/-- A request from a page of another site. -/
def visit (origin : String) : Request where
  method := "GET"
  resource := ⟨"/health", ""⟩
  headers := [("Origin", origin)]

/-- A list with a text that can be no header. -/
def opsOrigins : List String := ["https://ops.example.com\n", "https://ops.example.com"]

theorem build_shares_opsOrigins : ∃ g : Service Unit,
    build {} {} (.discarding Unit) opsOrigins = .ok g ∧
      "https://ops.example.com" ∈ (g.respond (visit "https://ops.example.com") ()).1.allowedOrigins ∧
      "https://OPS.example.com" ∉
        (g.respond (visit "https://OPS.example.com") ()).1.allowedOrigins ∧
      (g.respond (visit "https://ops.example.com") ()).1.status = 200 := by
  obtain ⟨hmade, hshares⟩ := build_shares_iff {} {} (.discarding Unit) opsOrigins
  obtain ⟨g, hg⟩ := hmade.mpr (by decide)
  obtain ⟨hlisted, _, _, hplain⟩ := hshares g hg (visit "https://ops.example.com") ()
  obtain ⟨hother, _⟩ := hshares g hg (visit "https://OPS.example.com") ()
  have hstatus := (hplain (by decide)).2.1
  exact ⟨g, hg, (hlisted _ (by decide)).mpr (by decide), mt (hother _ (by decide)).mp (by decide),
    hstatus.trans (by decide)⟩

/-- A list with an asterisk gives no gateway, and the start of a gateway with it fails. -/
theorem build_asterisk :
    (¬ ∃ g, build {} {} (.discarding Unit) ["https://ops.example.com", "*"] = .ok g) ∧
      start "127.0.0.1" 3000
          { gateway := { corsOrigins := ["https://ops.example.com", "*"] } } {} (fun _ => ⟨"", 0, 0⟩) =
        .error (.cors .wildcard) := by
  constructor
  · rintro ⟨g, hg⟩
    cases hg
  · rfl

end Service
end RetentionJobs.Gateway
