import RetentionJobs.Proofs.Gateway.Creation
import RetentionJobs.Proofs.Outbox.Rows
/-! Requests that are handled at the same time. Each goes from stage to stage on its own, and only
one of its stages touches the repository; a schedule says whose turn it is. Whatever the schedule,
the rows of the repository are the statements that the answers acknowledge. -/
namespace RetentionJobs.Gateway

/-- The statement in a response. -/
def Response.query? (response : Response) : Option String :=
  match response.body.bind (Json.member? "query") with
  | some (.string query) => some query
  | _ => none

@[simp] theorem query?_createdResponse (c : Job.Compiled) (n : Nat) :
    (createdResponse c (.ok n)).query? = some c.query := rfl

@[simp] theorem query?_published {σ : Type} (g : Service σ) (r : Request) (response : Response) :
    (g.published r response).query? = response.query? := by
  simp only [Response.query?, Service.published_body]

/-- The answer to a job that was created. -/
def Created (r : Request) (response : Response) : Prop :=
  r.method = "POST" ∧ r.resource.path = "/jobs" ∧ response.status = 201

instance (r : Request) (response : Response) : Decidable (Created r response) :=
  inferInstanceAs (Decidable (_ ∧ _ ∧ _))

/-- The statement that a response acknowledges. -/
def acknowledged? (r : Request) (response : Response) : Option String :=
  if Created r response then response.query? else none

def acknowledged (requests : List Request) (responses : List Response) : List String :=
  (requests.zip responses).filterMap (fun p => acknowledged? p.1 p.2)

variable {σ : Type}

/-- How far the handling of a request has come. A job that creates something is compiled first, then
submitted, and answered last. -/
inductive Stage (g : Service σ) (r : Request) where
  | received
  | compiled (c : Job.Compiled) (h : g.creation? r = some c)
  | submitted (c : Job.Compiled) (h : g.creation? r = some c)
      (result : Except RepositoryError Nat)
  | answered (response : Response)

namespace Stage
variable {g : Service σ} {r : Request}

/-- The next stage, and what becomes of the repository. -/
def advance : Stage g r → σ → Stage g r × σ
  | received, s =>
    match h : g.creation? r with
    | some c => (compiled c h, s)
    | none =>
      let (response, s) := g.respond r s
      (answered response, s)
  | compiled c h, s =>
    let (result, s) := g.repository.submit c.query s
    (submitted c h result, s)
  | submitted c _ result, s => (answered (g.published r (createdResponse c result)), s)
  | answered response, s => (answered response, s)

def response? : Stage g r → Option Response
  | answered response => some response
  | _ => none

/-- The statements that the handling has written so far. -/
def written : Stage g r → List String
  | submitted c _ (.ok _) => [c.query]
  | answered response => (acknowledged? r response).toList
  | _ => []

theorem acknowledged?_createdResponse {c : Job.Compiled} (h : g.creation? r = some c)
    (result : Except RepositoryError Nat) :
    (acknowledged? r (g.published r (createdResponse c result))).toList =
      (submitted c h result).written := by
  obtain ⟨hpath, hmethod, _⟩ := g.creation?_eq_some_iff.mp h
  cases result with
  | error e => simp [acknowledged?, Created, createdResponse, repositoryFailed, written]
  | ok n =>
    have hcreated : Created r (g.published r (createdResponse c (.ok n))) :=
      ⟨hmethod, hpath, by simp [createdResponse]⟩
    simp [acknowledged?, hcreated, written]

theorem acknowledged?_of_status_ne {response : Response} (h : response.status ≠ 201) :
    acknowledged? r response = none := by
  simp [acknowledged?, Created, h]

theorem advance_received_of_creation? {c : Job.Compiled} (h : g.creation? r = some c) (s : σ) :
    (received : Stage g r).advance s = (compiled c h, s) := by
  simp only [advance]
  split
  · rename_i c' hc'
    obtain rfl : c = c' := Option.some.inj (h.symm.trans hc')
    rfl
  · rename_i hnone
    simp [h] at hnone

theorem advance_received_of_none (h : g.creation? r = none) (s : σ) :
    (received : Stage g r).advance s = (answered (g.respond r s).1, (g.respond r s).2) := by
  simp only [advance]
  split
  · rename_i c' hc'
    simp [h] at hc'
  · rfl

@[simp] theorem advance_compiled (c : Job.Compiled) (h : g.creation? r = some c) (s : σ) :
    (compiled c h).advance s = (submitted c h (g.repository.submit c.query s).1,
      (g.repository.submit c.query s).2) := rfl

@[simp] theorem advance_submitted (c : Job.Compiled) (h : g.creation? r = some c)
    (result : Except RepositoryError Nat) (s : σ) :
    (submitted c h result).advance s = (answered (g.published r (createdResponse c result)), s) :=
  rfl

@[simp] theorem advance_answered (response : Response) (s : σ) :
    (answered response : Stage g r).advance s = (answered response, s) := rfl

/-- A step writes to the repository what it adds to the statements of its request. -/
theorem rows_advance {rows : σ → List String} (hrows : g.repository.Records rows) (stage : Stage g r)
    (s : σ) : ∃ new, rows (stage.advance s).2 = rows s ++ new ∧
      (stage.advance s).1.written = stage.written ++ new := by
  cases stage with
  | received =>
    refine ⟨[], ?_⟩
    cases hc : g.creation? r with
    | some c => simp [advance_received_of_creation? hc, written]
    | none =>
      obtain ⟨response, hne, hresponse⟩ := g.inert_respond hc
      simp [advance_received_of_none hc, hresponse, written, acknowledged?_of_status_ne hne]
  | compiled c h =>
    simp only [advance_compiled]
    cases hresult : (g.repository.submit c.query s).1 with
    | error e => exact ⟨[], by simp [hrows.error hresult], by simp [written]⟩
    | ok n => exact ⟨[c.query], by simp [hrows.ok hresult], by simp [written]⟩
  | submitted c h result =>
    refine ⟨[], by simp, ?_⟩
    simp only [advance_submitted, List.append_nil]
    exact acknowledged?_createdResponse h result
  | answered response => exact ⟨[], by simp, by simp⟩

/-- An answer to a job that was created has the statement. -/
def Complete : Stage g r → Prop
  | answered response => Created r response → response.query?.isSome
  | _ => True

theorem complete_advance {stage : Stage g r} (hstage : stage.Complete) (s : σ) :
    (stage.advance s).1.Complete := by
  cases stage with
  | received =>
    cases hc : g.creation? r with
    | some c => simp only [advance_received_of_creation? hc, Complete]
    | none =>
      obtain ⟨response, hne, hresponse⟩ := g.inert_respond hc
      simp [advance_received_of_none hc, hresponse, Complete, Created, hne]
  | compiled c h => simp only [advance_compiled, Complete]
  | submitted c h result =>
    cases result with
    | error e => simp [Complete, Created, createdResponse, repositoryFailed]
    | ok n => simp [Complete]
  | answered response => exact hstage

/-- The stages of a request that has the repository to itself lead to the response that the gateway
gives. -/
theorem advance_three (s : σ) : ∃ stage₁ stage₂ : Stage g r, ∃ s₁ s₂ : σ,
    (received : Stage g r).advance s = (stage₁, s₁) ∧ stage₁.advance s₁ = (stage₂, s₂) ∧
      stage₂.advance s₂ = (answered (g.respond r s).1, (g.respond r s).2) := by
  cases hc : g.creation? r with
  | none =>
    exact ⟨_, _, _, _, advance_received_of_none hc s, rfl, rfl⟩
  | some c =>
    refine ⟨_, _, _, _, advance_received_of_creation? hc s, rfl, ?_⟩
    simp only [advance_submitted, g.respond_of_creation? hc]

end Stage

/-- A request that is being handled. -/
structure Task (g : Service σ) where
  request : Request
  stage : Stage g request

namespace Task
variable {g : Service σ}

def advance (t : Task g) (s : σ) : Task g × σ :=
  (⟨t.request, (t.stage.advance s).1⟩, (t.stage.advance s).2)

def response? (t : Task g) : Option Response := t.stage.response?

def written (t : Task g) : List String := t.stage.written

end Task

variable {g : Service σ}

def received (g : Service σ) (requests : List Request) : List (Task g) :=
  requests.map (fun r => ⟨r, .received⟩)

/-- The turn of a task. -/
def turn (i : Nat) (tasks : List (Task g)) (s : σ) : List (Task g) × σ :=
  match tasks[i]? with
  | none => (tasks, s)
  | some t => (tasks.set i (t.advance s).1, (t.advance s).2)

/-- What becomes of tasks and repository when the tasks take turns as scheduled. -/
def interleave : List Nat → List (Task g) → σ → List (Task g) × σ
  | [], tasks, s => (tasks, s)
  | i :: schedule, tasks, s => interleave schedule (turn i tasks s).1 (turn i tasks s).2

theorem map_request_turn (i : Nat) (tasks : List (Task g)) (s : σ) :
    (turn i tasks s).1.map Task.request = tasks.map Task.request := by
  unfold turn
  split
  · rfl
  · rename_i t ht
    have hrequest : (tasks.map Task.request)[i]? = some t.request := by simp [ht]
    obtain ⟨hi, hget⟩ := List.getElem?_eq_some_iff.mp hrequest
    rw [List.map_set]
    simp only [Task.advance, ← hget, List.set_getElem_self]

theorem map_request_interleave (schedule : List Nat) (tasks : List (Task g)) (s : σ) :
    (interleave schedule tasks s).1.map Task.request = tasks.map Task.request := by
  induction schedule generalizing tasks s with
  | nil => rfl
  | cons i schedule ih => rw [interleave, ih, map_request_turn]

/-- What one element adds ends up among the rest. -/
theorem perm_flatMap_set {α β : Type} {f : α → List β} {l : List α} {i : Nat} {a b : α}
    {new : List β} (h : l[i]? = some a) (hb : f b = f a ++ new) :
    ((l.set i b).flatMap f).Perm (l.flatMap f ++ new) := by
  induction l generalizing i with
  | nil => simp at h
  | cons x l ih =>
    cases i with
    | zero =>
      obtain rfl : x = a := by simpa using h
      have hcomm : (new ++ l.flatMap f).Perm (l.flatMap f ++ new) := List.perm_append_comm
      simpa [hb] using hcomm.append_left (f x)
    | succ i =>
      have hrest := (ih (by simpa using h)).append_left (f x)
      simpa using hrest

/-- A turn writes to the repository what it adds to the statements of the tasks. -/
theorem rows_turn {rows : σ → List String} (hrows : g.repository.Records rows) (i : Nat)
    (tasks : List (Task g)) (s : σ) : ∃ new, rows (turn i tasks s).2 = rows s ++ new ∧
      ((turn i tasks s).1.flatMap Task.written).Perm (tasks.flatMap Task.written ++ new) := by
  unfold turn
  split
  · exact ⟨[], by simp, by simp⟩
  · rename_i t ht
    obtain ⟨new, hnew, hwritten⟩ := t.stage.rows_advance hrows s
    exact ⟨new, hnew, perm_flatMap_set ht hwritten⟩

/-- Along a schedule, the repository is given what the tasks have written. -/
theorem rows_interleave {rows : σ → List String} (hrows : g.repository.Records rows)
    (schedule : List Nat) (tasks : List (Task g)) (s : σ) :
    ∃ new, rows (interleave schedule tasks s).2 = rows s ++ new ∧
      ((interleave schedule tasks s).1.flatMap Task.written).Perm
        (tasks.flatMap Task.written ++ new) := by
  induction schedule generalizing tasks s with
  | nil => exact ⟨[], by simp [interleave], by simp [interleave]⟩
  | cons i schedule ih =>
    obtain ⟨first, hfirst, hperm⟩ := rows_turn hrows i tasks s
    obtain ⟨rest, hrest, hperm'⟩ := ih (turn i tasks s).1 (turn i tasks s).2
    refine ⟨first ++ rest, by rw [interleave, hrest, hfirst, List.append_assoc], ?_⟩
    rw [interleave, ← List.append_assoc]
    exact hperm'.trans (hperm.append_right rest)

/-- What every step of a task preserves holds of all tasks along a schedule. -/
theorem forall_mem_interleave {P : Task g → Prop} (hstep : ∀ t s, P t → P (t.advance s).1)
    (schedule : List Nat) {tasks : List (Task g)} (htasks : ∀ t ∈ tasks, P t) (s : σ) :
    ∀ t ∈ (interleave schedule tasks s).1, P t := by
  induction schedule generalizing tasks s with
  | nil => exact htasks
  | cons i schedule ih =>
    refine ih ?_ _
    unfold turn
    split
    · exact htasks
    · rename_i t ht
      intro t' ht'
      rcases List.mem_or_eq_of_mem_set ht' with hmem | rfl
      · exact htasks t' hmem
      · exact hstep t s (htasks t (List.mem_of_getElem? ht))

/-- Requests that have been answered. -/
def finished (g : Service σ) (requests : List Request) (responses : List Response) :
    List (Task g) :=
  List.zipWith (fun r response => ⟨r, .answered response⟩) requests responses

theorem eq_finished {tasks : List (Task g)} {responses : List Response}
    (h : tasks.map Task.response? = responses.map some) :
    tasks = finished g (tasks.map Task.request) responses := by
  induction tasks generalizing responses with
  | nil => rfl
  | cons t tasks ih =>
    cases responses with
    | nil => simp at h
    | cons response responses =>
      obtain ⟨hresponse, htasks⟩ := List.cons.inj h
      have ht : t = ⟨t.request, .answered response⟩ := by
        obtain ⟨r, stage⟩ := t
        cases stage with
        | answered response' =>
          obtain rfl : response' = response := Option.some.inj hresponse
          rfl
        | received => cases hresponse
        | compiled => cases hresponse
        | submitted => cases hresponse
      exact congrArg₂ List.cons ht (ih htasks)

theorem flatMap_written_finished (requests : List Request) (responses : List Response) :
    (finished g requests responses).flatMap Task.written = acknowledged requests responses := by
  induction requests generalizing responses with
  | nil => simp [finished, acknowledged]
  | cons r requests ih =>
    cases responses with
    | nil => simp [finished, acknowledged]
    | cons response responses =>
      have hrest := ih responses
      simp only [finished, acknowledged] at hrest
      simp only [finished, acknowledged, List.zipWith_cons_cons, List.flatMap_cons, hrest,
        List.zip_cons_cons, List.filterMap_cons, Task.written, Stage.written]
      cases acknowledged? r response <;> rfl

theorem query?_isSome_of_complete {requests : List Request} {responses : List Response}
    (h : ∀ t ∈ finished g requests responses, t.stage.Complete) :
    ∀ p ∈ requests.zip responses, Created p.1 p.2 → p.2.query?.isSome := by
  intro p hp
  have hmem : (⟨p.1, .answered p.2⟩ : Task g) ∈ finished g requests responses := by
    rw [finished, ← List.map_uncurry_zip_eq_zipWith]
    exact List.mem_map_of_mem hp
  exact h _ hmem

/-- The requests that are answered along a schedule have been written down, and the answers to the
jobs that were created have the statements. -/
theorem rows_of_answered {rows : σ → List String} (hrows : g.repository.Records rows)
    {schedule : List Nat} {requests : List Request} {responses : List Response} {s : σ}
    (h : (interleave schedule (received g requests) s).1.map Task.response? = responses.map some) :
    (∀ p ∈ requests.zip responses, Created p.1 p.2 → p.2.query?.isSome) ∧
    ∃ new, rows (interleave schedule (received g requests) s).2 = rows s ++ new ∧
      new.Perm (acknowledged requests responses) := by
  have hrequests : (received g requests).map Task.request = requests := by
    simp [received, Function.comp_def]
  have hnone : (received g requests).flatMap Task.written = [] := by
    simp [received, Task.written, Stage.written]
  have hstart : ∀ t ∈ received g requests, t.stage.Complete := by
    simp [received, Stage.Complete]
  have hcomplete := forall_mem_interleave (fun (t : Task g) s ht => Stage.complete_advance ht s)
    schedule hstart s
  obtain ⟨new, hnew, hperm⟩ := rows_interleave hrows schedule (received g requests) s
  have hfinished := eq_finished h
  rw [map_request_interleave, hrequests] at hfinished
  rw [hfinished] at hcomplete
  rw [hfinished, flatMap_written_finished, hnone, List.nil_append] at hperm
  exact ⟨query?_isSome_of_complete hcomplete, new, hnew, hperm.symm⟩

/-! One request after the other. -/

/-- A response acknowledges what has been written for it. -/
theorem rows_respond {rows : σ → List String} (hrows : g.repository.Records rows) (r : Request)
    (s : σ) : rows (g.respond r s).2 = rows s ++ (acknowledged? r (g.respond r s).1).toList := by
  obtain ⟨stage₁, stage₂, s₁, s₂, h₁, h₂, h₃⟩ := Stage.advance_three (g := g) (r := r) s
  obtain ⟨new₁, hnew₁, hwritten₁⟩ := Stage.rows_advance hrows (.received : Stage g r) s
  obtain ⟨new₂, hnew₂, hwritten₂⟩ := stage₁.rows_advance hrows s₁
  obtain ⟨new₃, hnew₃, hwritten₃⟩ := stage₂.rows_advance hrows s₂
  simp only [h₁, h₂, h₃] at hnew₁ hwritten₁ hnew₂ hwritten₂ hnew₃ hwritten₃
  have hwritten : (acknowledged? r (g.respond r s).1).toList = new₁ ++ new₂ ++ new₃ :=
    calc (acknowledged? r (g.respond r s).1).toList = stage₂.written ++ new₃ := hwritten₃
      _ = new₁ ++ new₂ ++ new₃ := by rw [hwritten₂, hwritten₁]; rfl
  rw [hnew₃, hnew₂, hnew₁, hwritten, List.append_assoc, List.append_assoc, List.append_assoc]

theorem rows_respondAll {rows : σ → List String} (hrows : g.repository.Records rows)
    (requests : List Request) (s : σ) :
    rows (g.respondAll requests s).2 =
      rows s ++ acknowledged requests (g.respondAll requests s).1 := by
  induction requests generalizing s with
  | nil => simp [Service.respondAll, acknowledged]
  | cons r requests ih =>
    simp only [Service.respondAll, ih, rows_respond hrows]
    cases hr : acknowledged? r (g.respond r s).1 <;> simp [acknowledged, hr]

/-- The schedule by which tasks are finished one after the other, from the one at an index on. -/
def serial (first count : Nat) : List Nat :=
  (List.range' first count).flatMap (List.replicate 3)

theorem turn_append (done : List (Task g)) (t : Task g) (tasks : List (Task g)) (s : σ) :
    turn done.length (done ++ t :: tasks) s =
      (done ++ (t.advance s).1 :: tasks, (t.advance s).2) := by
  simp [turn]

/-- By that schedule the gateway gives the responses that it gives one after the other. -/
theorem interleave_serial (done : List (Task g)) (requests : List Request) (s : σ) :
    interleave (serial done.length requests.length) (done ++ received g requests) s =
      (done ++ finished g requests (g.respondAll requests s).1, (g.respondAll requests s).2) := by
  induction requests generalizing done s with
  | nil => simp [serial, received, interleave, finished, Service.respondAll]
  | cons r requests ih =>
    obtain ⟨stage₁, stage₂, s₁, s₂, h₁, h₂, h₃⟩ := Stage.advance_three (g := g) (r := r) s
    have hrest := ih (done ++ [⟨r, .answered (g.respond r s).1⟩]) (g.respond r s).2
    simp only [List.length_append, List.length_singleton, List.append_assoc,
      List.singleton_append] at hrest
    simp only [serial, received, List.map_cons, List.length_cons, List.range'_succ,
      List.flatMap_cons, List.replicate, List.cons_append, List.nil_append, interleave, turn_append,
      Task.advance, h₁, h₂, h₃, Service.respondAll, finished, List.zipWith_cons_cons]
    exact hrest

end RetentionJobs.Gateway
