import Mathlib.Data.List.Forall2
import Mathlib.Data.List.Nodup
import RetentionJobs.Proofs.Cron.Spacing
import RetentionJobs.Proofs.Job.Effective
import RetentionJobs.Proofs.Job.Refusal
/-! What compiling reports of the numbers that it raises. A job with its raised numbers compiles to
the same statement and has nothing left to report; the report of the job before lists the places at
which the two jobs differ. -/
namespace RetentionJobs.Job
open RetentionJobs.Text

/-- The place of a number in a job. -/
inductive Place where
  | limit
  | days (index : Nat)
  deriving DecidableEq, Repr

/-- The field of the request that the number stands in. -/
def Place.field : Place → String
  | limit => "limit"
  | days i => filterField i "days"

namespace Definition

/-- The places of a job's numbers: the limit, and then the days of the filters in their order. -/
def places (job : Definition) : List Place :=
  .limit :: (List.range job.filters.length).map .days

/-- The number at a place. An absent limit is none. -/
def number (job : Definition) : Place → Option Int
  | .limit => job.limit
  | .days i => job.filters[i]?.map Filter.days

/-- The job with its numbers raised to the minimums and with the given expression. -/
def raised (job : Definition) (th : Thresholds) (cron : String) : Definition :=
  { job with
    cronExpression := cron
    limit := some (job.effective th).limit
    filters := job.filters.map (fun f => { f with days := max f.days th.minDays }) }

/-- The places at which the numbers of two jobs differ. -/
def changes (job job' : Definition) : List Place :=
  job.places.filter (fun p => job.number p ≠ job'.number p)

end Definition

/-- The adjustment is the change of the number at a place from one job to the other. -/
structure Adjustment.Reports (job job' : Definition) (p : Place) (a : Adjustment) : Prop where
  field : a.field = p.field
  requested : a.requested = job.number p
  applied : some a.applied = job'.number p

variable {t : Template} {th : Thresholds} {job : Definition} {c : Compiled}

/-! Every place has a field of its own. -/

theorem filterField_injective (part : String) : Function.Injective (filterField · part) := by
  intro i j h
  have htext : digits i ++ ("]." ++ part).toList = digits j ++ ("]." ++ part).toList := by
    simpa [filterField, natText] using congrArg String.toList h
  exact digits_injective (List.append_cancel_right htext)

theorem Place.field_injective : Function.Injective Place.field := by
  intro p q h
  have hlimit : ∀ i, "limit" ≠ filterField i "days" := by
    intro i heq
    have hhead := head?_filterField i "days"
    rw [← heq] at hhead
    exact absurd hhead (by decide)
  cases p with
  | limit =>
    cases q with
    | limit => rfl
    | days j => exact absurd h (hlimit j)
  | days i =>
    cases q with
    | limit => exact absurd h.symm (hlimit i)
    | days j => exact congrArg Place.days (filterField_injective "days" h)

theorem nodup_places (job : Definition) : job.places.Nodup := by
  have hdays : Function.Injective Place.days := fun _ _ h => Place.days.inj h
  exact List.nodup_cons.mpr ⟨by simp, List.Nodup.map hdays List.nodup_range⟩

/-! Raised numbers are not raised again. -/

theorem Thresholds.limit_of_le {n : Int} (h : th.minLimit ≤ n) :
    th.limit (some n) = ⟨some n, n⟩ := by
  rw [Thresholds.limit, clamp_of_le h]

theorem Thresholds.days_of_le {n : Int} (h : th.minDays ≤ n) : th.days n = ⟨some n, n⟩ := by
  rw [Thresholds.days, clamp_of_le h]

theorem Clamped.adjustment?_self (n : Int) (field : String) :
    (⟨some n, n⟩ : Clamped).adjustment? field = none := by
  simp [Clamped.adjustment?, Clamped.raised]

theorem raisedDays_of_le {filters : List Filter} (h : ∀ f ∈ filters, th.minDays ≤ f.days)
    (index : Nat) : raisedDays th index filters = [] := by
  refine List.flatMap_eq_nil_iff.mpr fun p hp => ?_
  have hle := h p.1 (List.fst_mem_of_mem_zipIdx hp)
  rw [Thresholds.days_of_le hle, Clamped.adjustment?_self]
  rfl

theorem minDays_le_raised {f : Filter} {cron : String} (h : f ∈ (job.raised th cron).filters) :
    th.minDays ≤ f.days := by
  obtain ⟨g, _, rfl⟩ := List.mem_map.mp h
  exact le_clamp ..

theorem clausesOf_raised (job : Definition) (cron : String) :
    clausesOf t th (job.raised th cron).filters = clausesOf t th job.filters := by
  rw [clausesOf, clausesOf, Definition.raised, List.map_map]
  refine List.map_congr_left fun f _ => ?_
  have hdays : th.days (max f.days th.minDays) = ⟨_, _⟩ :=
    Thresholds.days_of_le (le_clamp f.days th.minDays)
  simp only [Function.comp_apply, hdays]
  rfl

theorem registrationOf_raised (job : Definition) (cron : String) :
    registrationOf t th (job.raised th cron) cron =
      { registrationOf t th job cron with adjustments := [] } := by
  have hlimit : th.limit (job.raised th cron).limit =
      ⟨some (job.effective th).limit, (job.effective th).limit⟩ := by
    refine Thresholds.limit_of_le ?_
    rw [← limit_applied]
    exact th.minLimit_le_limit job.limit
  have hdays : raisedDays th 0 (job.raised th cron).filters = [] :=
    raisedDays_of_le (fun _ => minDays_le_raised) 0
  simp only [registrationOf, clausesOf_raised, hlimit, hdays, Clamped.adjustment?_self,
    limit_applied]
  rfl

theorem WellNamed.raised (h : WellNamed job) (cron : String) : WellNamed (job.raised th cron) where
  filters := mt List.map_eq_nil_iff.mp h.filters
  jobName := h.jobName
  databaseName := h.databaseName
  schema := h.schema
  table := h.table
  columns := by
    intro f hf
    obtain ⟨g, hg, rfl⟩ := List.mem_map.mp hf
    exact h.columns g hg

/-! What is reported. -/

theorem forall₂_filter_flatMap {α β γ : Type} {R : β → γ → Prop} {p : β → Bool} {g : α → β}
    {f : α → List γ} {xs : List α} (h : ∀ x ∈ xs, List.Forall₂ R ([g x].filter p) (f x)) :
    List.Forall₂ R ((xs.map g).filter p) (xs.flatMap f) := by
  induction xs with
  | nil => exact .nil
  | cons x xs ih =>
    have hx := h x List.mem_cons_self
    have ih := ih (fun y hy => h y (List.mem_cons_of_mem x hy))
    rw [List.map_cons, ← List.singleton_append, List.filter_append, List.flatMap_cons]
    exact List.rel_append hx ih

/-- At one place an adjustment is made just when the number changes. -/
theorem reports_adjustment? (job : Definition) {job' : Definition} {p : Place} {n : Int}
    (hn : job'.number p = some n) :
    List.Forall₂ (Adjustment.Reports job job') ([p].filter (fun p => job.number p ≠ job'.number p))
      ((⟨job.number p, n⟩ : Clamped).adjustment? p.field).toList := by
  by_cases h : job.number p = some n
  · simp [Clamped.adjustment?, Clamped.raised, h, hn]
  · have hreports : Adjustment.Reports job job' p ⟨p.field, job.number p, n⟩ := ⟨rfl, rfl, hn.symm⟩
    simpa [Clamped.adjustment?, Clamped.raised, h, hn] using hreports

/-- The limit comes first, and then each filter has its place. -/
theorem reports_adjustments (job : Definition) (cron : String) :
    List.Forall₂ (Adjustment.Reports job (job.raised th cron)) (job.changes (job.raised th cron))
      (registrationOf t th job cron).adjustments := by
  have hplaces : job.places = [.limit] ++ job.filters.zipIdx.map (fun p => .days p.2) := by
    have hrange : List.range job.filters.length = job.filters.zipIdx.map Prod.snd := by
      rw [List.zipIdx_map_snd, List.range_eq_range']
    rw [Definition.places, hrange, List.map_map]
    rfl
  have hlimit : th.limit job.limit = ⟨job.number .limit, (job.effective th).limit⟩ := by
    rw [← limit_applied]
    rfl
  rw [Definition.changes, hplaces, List.filter_append]
  apply List.rel_append
  · rw [hlimit]
    exact reports_adjustment? job rfl
  · apply forall₂_filter_flatMap
    intro p hp
    have hfilter : job.filters[p.2]? = some p.1 := List.mem_zipIdx_iff_getElem?.mp hp
    have hnumber : job.number (.days p.2) = some p.1.days := by
      simp [Definition.number, hfilter]
    have hraised : (job.raised th cron).number (.days p.2) = some (th.days p.1.days).applied := by
      simp [Definition.number, Definition.raised, hfilter, Thresholds.days, clamp]
    have hreports := reports_adjustment? job hraised
    rwa [hnumber] at hreports

theorem fields_of_reports {job job' : Definition} {ps : List Place} {as : List Adjustment}
    (h : List.Forall₂ (Adjustment.Reports job job') ps as) :
    as.map Adjustment.field = ps.map Place.field := by
  induction h with
  | nil => rfl
  | cons hreports _ ih => rw [List.map_cons, List.map_cons, hreports.field, ih]

theorem nodup_adjustments (job : Definition) (cron : String) :
    ((registrationOf t th job cron).adjustments.map Adjustment.field).Nodup := by
  rw [fields_of_reports (reports_adjustments job cron)]
  apply List.Nodup.map Place.field_injective
  exact (nodup_places job).filter _

/-- With its numbers raised and its expression in normal form, a job compiles to the same and has
nothing to report. What is reported of the job before is each place at which a number was raised,
once and in order, with the number as it was requested and as it is applied. -/
theorem compile_raised (h : compile t th job = .ok c) :
    compile t th (job.raised th c.cronExpression) = .ok { c with adjustments := [] } ∧
      List.Forall₂ (Adjustment.Reports job (job.raised th c.cronExpression))
        (job.changes (job.raised th c.cronExpression)) c.adjustments ∧
      (c.adjustments.map Adjustment.field).Nodup := by
  obtain ⟨hwell, cron, hcron, rfl⟩ := compile_eq_ok_iff.mp h
  refine ⟨?_, reports_adjustments job cron, nodup_adjustments job cron⟩
  obtain ⟨_, rfl⟩ := Cron.normalize_eq_ok_iff.mp hcron
  exact compile_eq_ok_iff.mpr ⟨hwell.raised _, _, Cron.normalize_spaced.mpr hcron,
    (registrationOf_raised job _).symm⟩

/-- No limit is requested, and of three windows the second one is long enough. -/
def hastyJob : Definition where
  jobName := "purge"
  cronExpression := " 0  3 * * * "
  databaseName := "core"
  schema := "dbo"
  table := "outbox"
  filters := [⟨"SentAt", 10⟩, ⟨"CreatedAt", 90⟩, ⟨"ReadAt", -1⟩]

theorem compile_raised_hastyJob : ∃ c, compile {} {} hastyJob = .ok c ∧
    c.adjustments = [⟨"limit", none, 100⟩, ⟨"filters[0].days", some 10, 60⟩,
      ⟨"filters[2].days", some (-1), 60⟩] ∧
    hastyJob.changes (hastyJob.raised {} "0 3 * * *") = [.limit, .days 0, .days 2] ∧
    compile {} {} (hastyJob.raised {} "0 3 * * *") = .ok { c with adjustments := [] } ∧
    List.Forall₂ (Adjustment.Reports hastyJob (hastyJob.raised {} "0 3 * * *"))
      [.limit, .days 0, .days 2] c.adjustments := by
  have hcron : Cron.normalize hastyJob.cronExpression = .ok "0 3 * * *" := by decide +kernel
  have hwell : WellNamed hastyJob :=
    ⟨by decide, by decide +kernel, by decide +kernel, by decide +kernel, by decide +kernel,
      by decide +kernel⟩
  have h : compile {} {} hastyJob = .ok (registrationOf {} {} hastyJob "0 3 * * *") :=
    compile_eq_ok_iff.mpr ⟨hwell, _, hcron, rfl⟩
  have hchanges :
      hastyJob.changes (hastyJob.raised {} "0 3 * * *") = [.limit, .days 0, .days 2] := by
    decide +kernel
  obtain ⟨hraised, hreports, _⟩ := compile_raised h
  exact ⟨_, h, by decide +kernel, hchanges, hraised, hchanges ▸ hreports⟩

end RetentionJobs.Job
