import RetentionJobs.CommandLine.Run
import RetentionJobs.Proofs.Job.Effective
/-! No configuration and no request lead below the floor: the numbers in the statement of a job are at
least the minimums of the configuration that was loaded, and these are positive. -/
namespace RetentionJobs

namespace Job
open Sql

variable {th : Thresholds} {job : Definition} {c : Compiled}

/-- Read through, the statement of a job that compiles has the applied limit for its only row count
and the applied days of the filters, in their order, for its intervals. -/
theorem numbers_of_compile (h : compile {} th job = .ok c) :
    ∃ lexemes, scanThrough c.query.toList = some lexemes ∧
      limits lexemes = [(job.effective th).limit] ∧
      intervals lexemes = (job.effective th).clauses.map Prod.snd := by
  have hlimits := limits_purgeLexemes job.schema job.table (job.effective th).clauses
    (job.effective th).limit
  have hintervals := intervals_purgeLexemes job.schema job.table (job.effective th).clauses
    (job.effective th).limit
  exact ⟨_, scanThrough_of_compile h, (gives_throughLexemes limit_not_mem hlimits _ _ _).operands_eq,
    (gives_throughLexemes interval_not_mem hintervals _ _ _).operands_eq⟩

theorem minLimit_le_effective (job : Definition) (th : Thresholds) :
    th.minLimit ≤ (job.effective th).limit := by
  rw [← limit_applied]
  exact th.minLimit_le_limit job.limit

theorem minDays_le_effective {p : String × Int} (h : p ∈ (job.effective th).clauses) :
    th.minDays ≤ p.2 := by
  obtain ⟨f, _, rfl⟩ := List.mem_map.mp h
  exact th.minDays_le_days f.days

theorem exists_clause_of_compile (h : compile {} th job = .ok c) :
    (job.effective th).clauses ≠ [] := by
  obtain ⟨hwell, _⟩ := compile_eq_ok_iff.mp h
  exact mt List.map_eq_nil_iff.mp hwell.filters

end Job

theorem CommandLine.exists_request_of_compileJson {th : Job.Thresholds} {raw : String}
    {c : Job.Compiled} (h : compileJson th raw = .ok c) :
    ∃ r, Job.Request.ofJson raw = .ok r ∧ r.compile {} th = .ok c := by
  unfold compileJson at h
  cases hraw : Job.Request.ofJson raw with
  | error e => simp [hraw] at h
  | ok r => exact ⟨r, rfl, Outcome.mapError_eq_ok_iff.mp (by simpa [hraw] using h)⟩

namespace Config
open CommandLine Sql

variable {dir : String} {env : Environment} {config : Config}

/-- What is loaded has passed its check, after the environment has changed it. -/
theorem validate_of_finish {c : Config} (h : finish dir env c = .ok config) :
    config.validate = .ok () := by
  unfold finish at h
  simp only at h
  split at h
  · cases h
  · rename_i hvalid
    obtain rfl := Except.ok.inj h
    exact hvalid

theorem validate_of_load {file : Option String} (h : (load dir env file).result = .ok config) :
    config.validate = .ok () := by
  cases file with
  | none => exact validate_of_finish h
  | some text =>
    have hfile : ofFile dir env text = .ok config := h
    unfold ofFile at hfile
    cases hread : ofToml? text with
    | none => simp [hread] at hfile
    | some c => exact validate_of_finish (by simpa [hread] using hfile)

/-- Whatever is loaded and whatever is asked for, the statement has one row count and at least one
interval, and none of these numbers is below its minimum or below one. -/
theorem floors_hold {file : Option String} {saved raw : String} {c : Job.Compiled}
    (hload : loadOrInit dir env file = (.ok config, saved))
    (hcompile : compileJson config.retention raw = .ok c) :
    1 ≤ config.retention.minDays ∧ 1 ≤ config.retention.minLimit ∧
      ∃ lexemes limit, scanThrough c.query.toList = some lexemes ∧ limits lexemes = [limit] ∧
        config.retention.minLimit ≤ limit ∧ intervals lexemes ≠ [] ∧
        ∀ days ∈ intervals lexemes, config.retention.minDays ≤ days := by
  rw [loadOrInit_eq] at hload
  obtain ⟨hdays, hlimit⟩ := validate_eq_ok_iff.mp (validate_of_load (Prod.mk.inj hload).1)
  obtain ⟨r, _, hr⟩ := exists_request_of_compileJson hcompile
  obtain ⟨job, _, hjob⟩ := Job.Request.exists_job_of_compile hr
  obtain ⟨lexemes, hscan, hlimits, hintervals⟩ := Job.numbers_of_compile hjob
  refine ⟨hdays, hlimit, lexemes, _, hscan, hlimits, Job.minLimit_le_effective .., ?_, ?_⟩
  · rw [hintervals]
    exact mt List.map_eq_nil_iff.mp (Job.exists_clause_of_compile hjob)
  · rw [hintervals]
    intro days hmem
    obtain ⟨p, hp, rfl⟩ := List.mem_map.mp hmem
    exact Job.minDays_le_effective hp

/-- A file with small minimums. -/
def smallFloors : String := "[retention]\nmin_days = 30\nmin_limit = 1\n"

/-- An environment that raises one minimum. -/
def raisedLimit : Environment := fun name =>
  if name = "PURGECRON_MIN_LIMIT" then some "50" else none

/-- The configuration that the two make. -/
def smallConfig : Config where
  dataDir := "/data"
  configPath := "/data/config.toml"
  retention := ⟨30, 50⟩

/-- A request for as little as there is. -/
def lowRequest : String :=
  "[\"purge\", \"0 3 * * *\", null, \"core\", \"dbo\", \"outbox\", -9223372036854775808," ++
    "[[\"SentAt\", 0], [\"CreatedAt\", 90]]]"

theorem compileJson_lowRequest (th : Job.Thresholds) :
    compileJson th lowRequest = .ok (Job.registrationOf {} th
      (Job.purgeJob "0 3 * * *" (some (-9223372036854775808)) 0) "0 3 * * *") := by
  have hread : ∃ r, Job.Request.ofJson lowRequest = .ok r ∧
      r.definition = .ok (Job.purgeJob "0 3 * * *" (some (-9223372036854775808)) 0) :=
    ⟨{ jobName := "purge", cronExpression := some "0 3 * * *", databaseName := "core",
       schema := "dbo", table := "outbox", limit := some (-9223372036854775808),
       filters := some [⟨"SentAt", 0⟩, ⟨"CreatedAt", 90⟩] }, by decide +kernel, rfl⟩
  obtain ⟨r, hr, hjob⟩ := hread
  have hcron : Cron.normalize "0 3 * * *" = .ok "0 3 * * *" := by decide +kernel
  have hcompile := Job.compile_purgeJob th (some (-9223372036854775808)) 0 hcron
  simp only [compileJson, hr, Job.Request.compile, hjob, hcompile]
  rfl

/-- The request for too little is raised to the file's days and the environment's limit. -/
theorem floors_hold_lowRequest : ∃ c lexemes limit,
    loadOrInit "/data" raisedLimit (some smallFloors) = (.ok smallConfig, smallFloors) ∧
      compileJson smallConfig.retention lowRequest = .ok c ∧
      scanThrough c.query.toList = some lexemes ∧ limits lexemes = [limit] ∧ 50 ≤ limit ∧
      intervals lexemes ≠ [] ∧ ∀ days ∈ intervals lexemes, 30 ≤ days := by
  have hload : loadOrInit "/data" raisedLimit (some smallFloors) = (.ok smallConfig, smallFloors) := by
    decide +kernel
  have hcompile := compileJson_lowRequest smallConfig.retention
  obtain ⟨_, _, lexemes, limit, hrest⟩ := floors_hold hload hcompile
  exact ⟨_, lexemes, limit, hload, hcompile, hrest⟩

end Config
end RetentionJobs
