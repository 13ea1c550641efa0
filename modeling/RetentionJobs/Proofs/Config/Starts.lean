import RetentionJobs.Proofs.Config.RoundTrip
/-! Loading the configuration again and again, each time in another environment. The first load may
write the file, and every load gives what the file and its own environment make. -/
namespace RetentionJobs.Config

/-- The file that is written is read as the configuration that it is written for. -/
theorem ofFile_initialFile (dir : String) (env : Environment) :
    ofFile dir env initialFile = finish dir env {} := by
  have hread : ofToml? initialFile = some {} :=
    ofToml?_toToml (c := {}) (by decide) (by decide)
  rw [ofFile, hread]

theorem load_eq (dir : String) (env : Environment) (file : Option String) :
    load dir env file =
      ⟨ofFile dir env (file.getD initialFile), if file = none then [initialFile] else []⟩ := by
  cases file with
  | none =>
    rw [Option.getD_none, ofFile_initialFile]
    rfl
  | some text => rfl

/-- A start of the program: its environment, the text of the file that it finds, and what comes of
loading the configuration. -/
structure Start where
  environment : Environment
  found : Option String
  loaded : Loaded

def Start.left (s : Start) : Option String := s.loaded.fileAfter s.found

/-- Starts one after another. Each finds the file that the one before it has left. -/
def starts (dir : String) : Option String → List Environment → List Start
  | _, [] => []
  | file, env :: envs =>
    let start : Start := ⟨env, file, load dir env file⟩
    start :: starts dir start.left envs

section
variable {dir : String} {file : Option String}

theorem starts_cons (env : Environment) (envs : List Environment) :
    starts dir file (env :: envs) =
      ⟨env, file, load dir env file⟩ :: starts dir (some (file.getD initialFile)) envs := by
  rw [starts, Start.left, fileAfter_load]

theorem environment_starts (envs : List Environment) :
    (starts dir file envs).map Start.environment = envs := by
  induction envs generalizing file with
  | nil => rfl
  | cons env envs ih => rw [starts_cons, List.map_cons, ih]

/-- The text of the file is settled by the first start. -/
theorem mem_starts {envs : List Environment} {s : Start} (h : s ∈ starts dir file envs) :
    s.loaded = load dir s.environment s.found ∧
      s.found.getD initialFile = file.getD initialFile := by
  induction envs generalizing file with
  | nil => cases h
  | cons env envs ih =>
    rw [starts_cons] at h
    obtain rfl | h := List.mem_cons.mp h
    · exact ⟨rfl, rfl⟩
    · have hrest := ih h
      exact hrest

theorem found_of_mem_starts {text : String} {envs : List Environment} {s : Start}
    (h : s ∈ starts dir (some text) envs) : s.found = some text := by
  induction envs with
  | nil => cases h
  | cons env envs ih =>
    rw [starts_cons] at h
    obtain rfl | h := List.mem_cons.mp h
    · rfl
    · exact ih h

/-- What was written along some starts. -/
def written (ss : List Start) : List String := ss.flatMap (·.loaded.written)

theorem written_starts_of_some (text : String) (envs : List Environment) :
    written (starts dir (some text) envs) = [] := by
  refine List.flatMap_eq_nil_iff.mpr fun s hs => ?_
  rw [(mem_starts hs).1, load_eq, found_of_mem_starts hs]
  rfl

theorem written_starts (envs : List Environment) :
    written (starts dir file envs) = if file = none ∧ envs ≠ [] then [initialFile] else [] := by
  cases envs with
  | nil => simp [starts, written]
  | cons env envs =>
    have hrest : (starts dir (some (file.getD initialFile)) envs).flatMap (·.loaded.written) = [] :=
      written_starts_of_some _ envs
    rw [starts_cons, written, List.flatMap_cons, hrest, load_eq]
    simp

end

/-- However often the program is started and in whatever environments, the file is written at most
once, by a start that finds none and with a text that no environment has an effect on. Every start
gives what the file that it leaves and its own environment make, so that two starts in the same
environment give the same. -/
theorem starts_agree (dir : String) (file : Option String) (envs : List Environment) :
    (starts dir file envs).map Start.environment = envs ∧
      (written (starts dir file envs)).length ≤ 1 ∧
      ∀ s ∈ starts dir file envs,
        s.loaded.written = (if s.found = none then [initialFile] else []) ∧
        s.left = some (file.getD initialFile) ∧
        s.loaded.result = ofFile dir s.environment (file.getD initialFile) ∧
        ∀ s' ∈ starts dir file envs, s'.environment = s.environment →
          s'.loaded.result = s.loaded.result := by
  have hresult : ∀ s ∈ starts dir file envs,
      s.loaded.result = ofFile dir s.environment (file.getD initialFile) := by
    intro s hs
    obtain ⟨hload, hfound⟩ := mem_starts hs
    rw [hload, load_eq, hfound]
  refine ⟨environment_starts envs, ?_, fun s hs => ⟨?_, ?_, hresult s hs, fun s' hs' henv => ?_⟩⟩
  · rw [written_starts]
    split <;> simp
  · rw [(mem_starts hs).1, load_eq]
  · obtain ⟨hload, hfound⟩ := mem_starts hs
    rw [Start.left, hload, fileAfter_load, hfound]
  · rw [hresult s hs, hresult s' hs', henv]

/-- An environment that makes one minimum too small. -/
def noDays : Environment := fun name => if name = "PURGECRON_MIN_DAYS" then some "0" else none

/-- A first start that is refused leaves the file all the same. -/
example : (load "/data" noDays none).written = [initialFile] ∧
    (load "/data" noDays none).result =
      .error (.config (.validation "retention.min_days must be positive, got 0")) := by
  decide +kernel

end RetentionJobs.Config
