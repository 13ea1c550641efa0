import RetentionJobs.Config.Load
import RetentionJobs.Proofs.Toml.Documents
/-! Saving a configuration and loading it again loses nothing. -/
namespace RetentionJobs.Config
open Toml (Line Section Value)

/-! ### What is written -/

def textLine (key : String) (text : String) (h : Toml.IsBare key) : Line :=
  ⟨key, Toml.quoted text, .string text, h, Toml.readsAs_quoted text⟩

def numberLine (key : String) (n : Int) (h : Toml.IsBare key) : Line :=
  ⟨key, Text.decimal n, .integer n, h, Toml.readsAs_decimal n⟩

def retentionSection (t : Job.Thresholds) : Section where
  name := "retention"
  lines :=
    [numberLine "min_days" t.minDays (by decide), numberLine "min_limit" t.minLimit (by decide)]
  bare := by decide
  nodup := by simp [numberLine]

def gatewaySection (g : GatewaySettings) : Section where
  name := "gateway"
  lines :=
    [numberLine "port" g.port.toNat (by decide), textLine "host" g.host (by decide),
      ⟨"allow_public_bind", _, _, by decide, Toml.readsAs_boolean g.allowPublicBind⟩,
      ⟨"cors_origins", _, _, by decide, Toml.readsAs_quotedArray g.corsOrigins⟩]
  bare := by decide
  nodup := by simp [numberLine, textLine]

def repositorySection (r : RepositorySettings) : Section where
  name := "repository"
  lines := textLine "backend" r.backend.name (by decide) ::
    (r.path.map (fun path => textLine "path" path (by decide))).toList
  bare := by decide
  nodup := by cases r.path <;> simp [textLine]

def writtenSections (c : Config) : List Section :=
  [retentionSection c.retention, gatewaySection c.gateway, repositorySection c.repository]

theorem write_line (l : Line) : l.write = (keyLine l.key l.text).toList := by
  simp [keyLine, Line.write]

theorem write_section (s : Section) :
    s.write = ("[" ++ s.name ++ "]\n").toList ++
      s.lines.flatMap (fun l => (keyLine l.key l.text).toList) := by
  simp [Section.write, ← write_line]

theorem write_retentionSection (t : Job.Thresholds) :
    (retentionSection t).write =
      ("[retention]\n" ++ keyLine "min_days" (Text.decimal t.minDays) ++
        keyLine "min_limit" (Text.decimal t.minLimit)).toList := by
  have hheader : "[retention]\n" = "[" ++ "retention" ++ "]\n" := by decide
  rw [hheader, write_section]
  simp only [retentionSection, numberLine, List.flatMap_cons, List.flatMap_nil, List.append_nil,
    String.toList_append, List.append_assoc]

theorem write_gatewaySection (g : GatewaySettings) :
    (gatewaySection g).write =
      ("[gateway]\n" ++ keyLine "port" (Text.digits g.port.toNat) ++
        keyLine "host" (Toml.quoted g.host) ++
        keyLine "allow_public_bind" (if g.allowPublicBind then "true" else "false").toList ++
        keyLine "cors_origins" (Toml.quotedArray g.corsOrigins)).toList := by
  have hheader : "[gateway]\n" = "[" ++ "gateway" ++ "]\n" := by decide
  rw [hheader, write_section]
  simp only [gatewaySection, numberLine, textLine, List.flatMap_cons, List.flatMap_nil,
    List.append_nil, String.toList_append, List.append_assoc]
  rfl

theorem write_repositorySection (r : RepositorySettings) :
    (repositorySection r).write =
      ("[repository]\n" ++ keyLine "backend" (Toml.quoted r.backend.name) ++
        (match r.path with
          | none => ""
          | some path => keyLine "path" (Toml.quoted path))).toList := by
  have hheader : "[repository]\n" = "[" ++ "repository" ++ "]\n" := by decide
  rw [hheader, write_section]
  simp only [repositorySection, textLine]
  cases r.path with
  | none => simp
  | some path => simp

theorem toToml_eq (c : Config) : c.toToml = .ofList (Toml.writeSections c.writtenSections) := by
  have hgateway : "\n[gateway]\n" = "\n" ++ "[gateway]\n" := by decide
  have hrepository : "\n[repository]\n" = "\n" ++ "[repository]\n" := by decide
  have hbreak : "\n".toList = ['\n'] := by decide
  have hsections : Toml.writeSections c.writtenSections =
      (retentionSection c.retention).write ++ '\n' :: ((gatewaySection c.gateway).write ++
        '\n' :: (repositorySection c.repository).write) := by
    rw [writtenSections, Toml.writeSections_cons_cons, Toml.writeSections_cons_cons,
      Toml.writeSections_singleton]
  rw [hsections, write_retentionSection, write_gatewaySection, write_repositorySection]
  refine String.toList_inj.mp ?_
  rw [String.toList_ofList]
  unfold toToml
  rw [hgateway, hrepository]
  simp only [String.toList_append, List.append_assoc]
  rw [hbreak]
  cases c.repository.path <;> simp only [List.singleton_append]

/-! ### What is read -/

theorem texts?_strings (ss : List String) : texts? (.array (ss.map .string)) = some ss := by
  change (ss.map Value.string).mapM text? = some ss
  induction ss with
  | nil => rfl
  | cons s ss ih =>
    rw [List.map_cons, List.mapM_cons, ih]
    rfl

theorem backend?_name (b : Backend) : backend? (.string b.name) = some b := by
  cases b <;> decide

theorem port?_toNat (port : UInt16) : port? (.integer port.toNat) = some port := by
  have hlt := port.toNat_lt
  rw [port?, if_pos (by omega), Int.toNat_natCast, UInt16.ofNat_toNat]

theorem read_retentionSection {t : Job.Thresholds} (hdays : Text.InWord t.minDays)
    (hlimit : Text.InWord t.minLimit) :
    readSection retentionKeys emptyRetention (retentionSection t).entry.2 = some t := by
  simp [retentionSection, Section.entry, Line.entry, numberLine, readSection, readEntries,
    retentionKeys, word?, hdays, hlimit]

theorem read_gatewaySection (g : GatewaySettings) :
    readSection gatewayKeys emptyGateway (gatewaySection g).entry.2 = some g := by
  simp [gatewaySection, Section.entry, Line.entry, numberLine, textLine, readSection, readEntries,
    gatewayKeys, port?_toNat, text?, flag?, texts?_strings]

theorem read_repositorySection (r : RepositorySettings) :
    readSection repositoryKeys emptyRepository (repositorySection r).entry.2 = some r := by
  obtain ⟨backend, path⟩ := r
  cases path <;>
    simp [repositorySection, Section.entry, Line.entry, textLine, readSection, readEntries,
      repositoryKeys, emptyRepository, backend?_name, text?]

/-- The file of a configuration has all of it but its directory. -/
theorem ofToml?_toToml {c : Config} (hdays : Text.InWord c.retention.minDays)
    (hlimit : Text.InWord c.retention.minLimit) :
    ofToml? c.toToml = some { c with dataDir := "", configPath := "" } := by
  have hnames : c.writtenSections.map Section.name = ["retention", "gateway", "repository"] := rfl
  have hread : Toml.read c.toToml = some (c.writtenSections.map Section.entry) := by
    rw [toToml_eq]
    exact Toml.read_writeSections (hnames ▸ by decide)
  rw [ofToml?, hread, Option.bind_eq_bind, Option.bind_some]
  change readEntries sections {} [("retention", (retentionSection c.retention).entry.2),
    ("gateway", (gatewaySection c.gateway).entry.2),
    ("repository", (repositorySection c.repository).entry.2)] = _
  simp [readEntries, sections, read_retentionSection hdays hlimit, read_gatewaySection,
    read_repositorySection]

theorem applyEnvironment_of_unset {env : Environment} (h : ∀ name ∈ variableNames, env name = none)
    (c : Config) : applyEnvironment env c = c := by
  simp only [variableNames, List.forall_mem_cons] at h
  simp [applyEnvironment, override, firstSet, h]

/-- A configuration that passes its own check is loaded from its file as it was saved, whatever its
texts are made of. -/
theorem loadOrInit_toToml {c : Config} {env : Environment} (hvalid : c.validate = .ok ())
    (hdays : Text.InWord c.retention.minDays) (hlimit : Text.InWord c.retention.minLimit)
    (henv : ∀ name ∈ variableNames, env name = none) (dir : String) :
    loadOrInit dir env (some c.toToml) =
      (.ok { c with dataDir := dir, configPath := Path.join dir fileName }, c.toToml) := by
  have hvalid' : ({ c with dataDir := dir, configPath := Path.join dir fileName } : Config).validate =
      .ok () := hvalid
  simp only [loadOrInit_some, ofFile, ofToml?_toToml hdays hlimit, finish,
    applyEnvironment_of_unset henv, hvalid']

/-- Texts with quotes of both kinds, backslashes, line breaks, control characters and letters beyond
ASCII. -/
def awkwardConfig : Config where
  dataDir := "/old"
  configPath := "/old/config.toml"
  retention := { minDays := 1, minLimit := 9223372036854775807 }
  gateway :=
    { port := 65535, host := "it's \"here\"\t\x00", allowPublicBind := true,
      corsOrigins := ["https://münchen.example", "\n'''\"\"\"\"", "C:\\", ""] }
  repository := { backend := .sqlite, path := some "C:\\データ\r\n\x7f.db" }

theorem loadOrInit_awkwardConfig :
    loadOrInit "/data" (fun _ => none) (some awkwardConfig.toToml) =
      (.ok { awkwardConfig with dataDir := "/data", configPath := "/data/config.toml" },
        awkwardConfig.toToml) := by
  have hpath : Path.join "/data" fileName = "/data/config.toml" := by decide
  have hunset : ∀ name ∈ variableNames, (fun _ => none : Environment) name = none :=
    fun _ _ => rfl
  have hload := loadOrInit_toToml (c := awkwardConfig) (by decide) (by decide) (by decide) hunset
    "/data"
  rwa [hpath] at hload

end RetentionJobs.Config
