import Mathlib
import RetentionJobs.Proofs.Config.RoundTrip
/-! Files that give only some of the settings. The others have their defaults, whichever sections are
there, in whatever order the keys stand and whatever else is in the file. -/
namespace RetentionJobs.Config
open Toml (Value Entries)

/-! ### Sections and settings -/

inductive Part where
  | retention | gateway | repository
  deriving DecidableEq, Repr

inductive Setting where
  | minDays | minLimit | port | host | allowPublicBind | corsOrigins | backend | path
  deriving DecidableEq, Repr

namespace Setting

def part : Setting → Part
  | minDays | minLimit => .retention
  | port | host | allowPublicBind | corsOrigins => .gateway
  | backend | path => .repository

def key : Setting → String
  | minDays => "min_days"
  | minLimit => "min_limit"
  | port => "port"
  | host => "host"
  | allowPublicBind => "allow_public_bind"
  | corsOrigins => "cors_origins"
  | backend => "backend"
  | path => "path"

/-- The value that stands for the setting of `c`. A path that is not configured has none. -/
def value? (c : Config) : Setting → Option Value
  | minDays => some (.integer c.retention.minDays)
  | minLimit => some (.integer c.retention.minLimit)
  | port => some (.integer c.gateway.port.toNat)
  | host => some (.string c.gateway.host)
  | allowPublicBind => some (.boolean c.gateway.allowPublicBind)
  | corsOrigins => some (.array (c.gateway.corsOrigins.map .string))
  | backend => some (.string c.repository.backend.name)
  | path => c.repository.path.map .string

theorem key_inj {s s' : Setting} : s.key = s'.key ↔ s = s' := by
  cases s <;> cases s' <;> decide

end Setting

namespace Part

def name : Part → String
  | retention => "retention"
  | gateway => "gateway"
  | repository => "repository"

/-- What is read from a section. -/
abbrev Contents : Part → Type
  | retention => Job.Thresholds
  | gateway => GatewaySettings
  | repository => RepositorySettings

def keys : (p : Part) → List (Key p.Contents)
  | retention => retentionKeys
  | gateway => gatewayKeys
  | repository => repositoryKeys

def empty : (p : Part) → p.Contents
  | retention => emptyRetention
  | gateway => emptyGateway
  | repository => emptyRepository

def get : (p : Part) → Config → p.Contents
  | retention, c => c.retention
  | gateway, c => c.gateway
  | repository, c => c.repository

def set : (p : Part) → Config → p.Contents → Config
  | retention, c, r => { c with retention := r }
  | gateway, c, g => { c with gateway := g }
  | repository, c, r => { c with repository := r }

theorem name_inj {p q : Part} : p.name = q.name ↔ p = q := by
  cases p <;> cases q <;> decide

theorem get_set_self (p : Part) (c : Config) (x : p.Contents) : p.get (p.set c x) = x := by
  cases p <;> rfl

theorem get_set_of_ne {p q : Part} (h : q ≠ p) (c : Config) (x : p.Contents) :
    q.get (p.set c x) = q.get c := by
  cases p <;> cases q <;> first | rfl | exact absurd rfl h

end Part

/-- The default configuration with the kept settings of `c`. -/
def keep (kept : Setting → Bool) (c : Config) : Config :=
  let source (s : Setting) : Config := if kept s then c else {}
  { retention :=
      { minDays := (source .minDays).retention.minDays
        minLimit := (source .minLimit).retention.minLimit }
    gateway :=
      { port := (source .port).gateway.port
        host := (source .host).gateway.host
        allowPublicBind := (source .allowPublicBind).gateway.allowPublicBind
        corsOrigins := (source .corsOrigins).gateway.corsOrigins }
    repository :=
      { backend := (source .backend).repository.backend
        path := (source .path).repository.path } }

section
variable {kept kept' : Setting → Bool} {c : Config}

/-- It makes no difference whether a setting without a value is kept. -/
theorem get_keep_congr {p : Part}
    (h : ∀ s, s.part = p → (s.value? c).isSome → kept s = kept' s) :
    p.get (keep kept c) = p.get (keep kept' c) := by
  cases p with
  | retention => simp [Part.get, keep, h .minDays rfl rfl, h .minLimit rfl rfl]
  | gateway =>
    simp [Part.get, keep, h .port rfl rfl, h .host rfl rfl, h .allowPublicBind rfl rfl,
      h .corsOrigins rfl rfl]
  | repository =>
    have hpath := h .path rfl
    cases hc : c.repository.path with
    | none => simp [Part.get, keep, h .backend rfl rfl, apply_ite, hc]
    | some path =>
      simp [Part.get, keep, h .backend rfl rfl, hpath (by simp [Setting.value?, hc])]

theorem eq_keep_of_get {c' : Config} (h : ∀ p : Part, p.get c' = p.get (keep kept c))
    (hdir : c'.dataDir = "") (hpath : c'.configPath = "") : c' = keep kept c := by
  have hretention := h .retention
  have hgateway := h .gateway
  have hrepository := h .repository
  cases c'
  simp_all [Part.get, keep]

theorem keep_congr (h : ∀ s : Setting, (s.value? c).isSome → kept s = kept' s) :
    keep kept c = keep kept' c :=
  eq_keep_of_get (fun _ => get_keep_congr fun s _ => h s) rfl rfl

/-- The defaults of the missing keys of a section are those of a section that is missing. -/
theorem get_keep_none (p : Part) : p.get (keep (fun _ => false) c) = p.empty := by
  cases p <;> rfl

end

/-! ### Reading entry by entry -/

section
variable {σ : Type} {keys : List (Key σ)}

theorem readEntries_cons (x : σ) (e : String × Value) (es : Entries) :
    readEntries keys x (e :: es) = (readEntries keys x [e]).bind (readEntries keys · es) := by
  obtain ⟨name, v⟩ := e
  simp only [readEntries]
  split
  · next key _ => cases key.read x v <;> rfl
  · split <;> rfl

theorem readEntries_unknown {name : String} {v : Value} (x : σ)
    (hname : ∀ key ∈ keys, key.name ≠ name) (hv : representable v) :
    readEntries keys x [(name, v)] = some x := by
  have hfind : keys.find? (·.name == name) = none :=
    List.find?_eq_none.mpr fun key hkey => by simpa using hname key hkey
  simp only [readEntries, hfind, hv, if_true]

/-- When every entry takes the state of some names to the state of one name more, all of them take it
to the state of all their names. -/
theorem readEntries_eq_state (state : List String → σ) {es : Entries}
    (hstep : ∀ e ∈ es, ∀ names, readEntries keys (state names) [e] = some (state (e.1 :: names)))
    (names : List String) :
    readEntries keys (state names) es = some (state ((es.map Prod.fst).reverse ++ names)) := by
  induction es generalizing names with
  | nil => rfl
  | cons e es ih =>
    rw [readEntries_cons, hstep e (.head _), Option.bind_some,
      ih (fun e' he' => hstep e' (.tail _ he'))]
    simp

end

section
variable {kept : Setting → Bool} {c : Config}

theorem readEntries_setting (hdays : Text.InWord c.retention.minDays)
    (hlimit : Text.InWord c.retention.minLimit) {s : Setting} {v : Value}
    (hv : s.value? c = some v) :
    readEntries s.part.keys (s.part.get (keep kept c)) [(s.key, v)] =
      some (s.part.get (keep (fun s' => s' = s || kept s') c)) := by
  cases s with
  | path =>
    obtain ⟨path, hpath, rfl⟩ := Option.map_eq_some_iff.mp hv
    simp [Setting.part, Setting.key, Part.keys, Part.get, readEntries, repositoryKeys, keep, text?,
      hpath]
  | _ =>
    obtain rfl := Option.some.inj hv
    simp [Setting.part, Setting.key, Part.keys, Part.get, readEntries, retentionKeys, gatewayKeys,
      repositoryKeys, keep, word?, hdays, hlimit, port?_toNat, text?, flag?, texts?_strings,
      backend?_name]

theorem exists_setting {p : Part} {key : Key p.Contents} (h : key ∈ p.keys) :
    ∃ s : Setting, s.part = p ∧ s.key = key.name := by
  cases p with
  | retention =>
    obtain rfl | rfl : key = _ ∨ key = _ := by simpa [Part.keys, retentionKeys] using h
    · exact ⟨.minDays, rfl, rfl⟩
    · exact ⟨.minLimit, rfl, rfl⟩
  | gateway =>
    obtain rfl | rfl | rfl | rfl : key = _ ∨ key = _ ∨ key = _ ∨ key = _ := by
      simpa [Part.keys, gatewayKeys] using h
    · exact ⟨.port, rfl, rfl⟩
    · exact ⟨.host, rfl, rfl⟩
    · exact ⟨.allowPublicBind, rfl, rfl⟩
    · exact ⟨.corsOrigins, rfl, rfl⟩
  | repository =>
    obtain rfl | rfl : key = _ ∨ key = _ := by simpa [Part.keys, repositoryKeys] using h
    · exact ⟨.backend, rfl, rfl⟩
    · exact ⟨.path, rfl, rfl⟩

theorem exists_part {key : Key Config} (h : key ∈ sections) : ∃ p : Part, p.name = key.name := by
  obtain rfl | rfl | rfl : key = _ ∨ key = _ ∨ key = _ := by simpa [sections] using h
  · exact ⟨.retention, rfl⟩
  · exact ⟨.gateway, rfl⟩
  · exact ⟨.repository, rfl⟩

theorem readEntries_part (p : Part) (x : Config) (v : Value) :
    readEntries sections x [(p.name, v)] = (readSection p.keys p.empty v).map (p.set x) := by
  cases p <;> exact Option.bind_fun_some _

end

/-! ### Files that give the kept settings -/

/-- A section that gives the kept settings of `c`, in any order. Its other keys may have any value
that a file can hold. -/
structure GivesKept (p : Part) (inner : Entries) (kept : Setting → Bool) (c : Config) : Prop where
  settings : ∀ s : Setting, s.part = p → ∀ v, (s.key, v) ∈ inner ↔ kept s ∧ s.value? c = some v
  others : ∀ e ∈ inner, (∀ s : Setting, s.part = p → s.key ≠ e.1) → representable e.2

/-- A file that gives the kept settings of `c`. A section without any of them may be empty or
missing. -/
structure AssignsKept (es : Entries) (kept : Setting → Bool) (c : Config) : Prop where
  sections : ∀ (p : Part) (v : Value), (p.name, v) ∈ es →
    ∃ kind inner, v = .table kind inner ∧ GivesKept p inner kept c
  present : ∀ s : Setting, kept s → (s.value? c).isSome → ∃ v, (s.part.name, v) ∈ es
  others : ∀ e ∈ es, (∀ p : Part, p.name ≠ e.1) → representable e.2

section
variable {kept : Setting → Bool} {c : Config}

theorem GivesKept.mem_keys_iff {p : Part} {inner : Entries} (h : GivesKept p inner kept c)
    {s : Setting} (hs : s.part = p) (hvalue : (s.value? c).isSome) :
    s.key ∈ inner.map Prod.fst ↔ kept s := by
  obtain ⟨v, hv⟩ := Option.isSome_iff_exists.mp hvalue
  constructor
  · intro hmem
    obtain ⟨⟨name, v'⟩, hmem, rfl⟩ := List.mem_map.mp hmem
    exact ((h.settings s hs v').mp hmem).1
  · intro hkept
    exact List.mem_map.mpr ⟨_, (h.settings s hs v).mpr ⟨hkept, hv⟩, rfl⟩

/-- A section is read as the settings that it gives and the defaults of the others. -/
theorem readSection_of_givesKept {p : Part} {inner : Entries}
    (hdays : Text.InWord c.retention.minDays) (hlimit : Text.InWord c.retention.minLimit)
    (h : GivesKept p inner kept c) (kind : Toml.TableKind) :
    readSection p.keys p.empty (.table kind inner) = some (p.get (keep kept c)) := by
  -- Once some of its keys are read, just their settings are there.
  let state (names : List String) : p.Contents := p.get (keep (fun s => s.key ∈ names) c)
  have hstep : ∀ e ∈ inner, ∀ names,
      readEntries p.keys (state names) [e] = some (state (e.1 :: names)) := by
    rintro ⟨name, v⟩ he names
    by_cases hs : ∃ s : Setting, s.part = p ∧ s.key = name
    · obtain ⟨s, rfl, rfl⟩ := hs
      rw [readEntries_setting hdays hlimit ((h.settings s rfl v).mp he).2]
      refine congrArg some (get_keep_congr fun s' _ _ => ?_)
      simp only [List.mem_cons, Setting.key_inj, Bool.decide_or]
    · have hother (s : Setting) (hpart : s.part = p) : s.key ≠ name := fun hkey =>
        hs ⟨s, hpart, hkey⟩
      have hunknown : ∀ key ∈ p.keys, key.name ≠ name := fun key hkey => by
        obtain ⟨s, hpart, hkey⟩ := exists_setting hkey
        exact hkey ▸ hother s hpart
      rw [readEntries_unknown _ hunknown (h.others _ he hother)]
      refine congrArg some (get_keep_congr fun s' hpart _ => ?_)
      simp only [List.mem_cons, hother s' hpart, false_or]
  have hstart : state [] = p.empty := get_keep_none p
  have hread := readEntries_eq_state state hstep []
  rw [hstart, List.append_nil] at hread
  rw [readSection, hread]
  refine congrArg some (get_keep_congr fun s hpart hvalue => ?_)
  simp only [List.mem_reverse, h.mem_keys_iff hpart hvalue, Bool.decide_coe]

theorem readEntries_section {p : Part} {inner : Entries} {kept' : Setting → Bool}
    (hdays : Text.InWord c.retention.minDays) (hlimit : Text.InWord c.retention.minLimit)
    (h : GivesKept p inner kept c) (kind : Toml.TableKind) :
    readEntries sections (keep kept' c) [(p.name, .table kind inner)] =
      some (keep (fun s => if s.part = p then kept s else kept' s) c) := by
  rw [readEntries_part, readSection_of_givesKept hdays hlimit h, Option.map_some]
  have hget (q : Part) : q.get (p.set (keep kept' c) (p.get (keep kept c))) =
      q.get (keep (fun s => if s.part = p then kept s else kept' s) c) := by
    by_cases hq : q = p
    · subst hq
      rw [Part.get_set_self]
      exact get_keep_congr fun s hpart _ => (if_pos hpart).symm
    · rw [Part.get_set_of_ne hq]
      exact get_keep_congr fun s hpart _ => (if_neg (hpart ▸ hq)).symm
  refine congrArg some (eq_keep_of_get hget ?_ ?_)
  · cases p <;> rfl
  · cases p <;> rfl

theorem readEntries_of_assignsKept {es : Entries} (hdays : Text.InWord c.retention.minDays)
    (hlimit : Text.InWord c.retention.minLimit) (h : AssignsKept es kept c) :
    readEntries sections {} es = some (keep kept c) := by
  -- Once some of the sections are read, just the kept settings in them are there.
  let state (names : List String) : Config := keep (fun s => s.part.name ∈ names ∧ kept s) c
  have hstep : ∀ e ∈ es, ∀ names,
      readEntries sections (state names) [e] = some (state (e.1 :: names)) := by
    rintro ⟨name, v⟩ he names
    by_cases hp : ∃ p : Part, p.name = name
    · obtain ⟨p, rfl⟩ := hp
      obtain ⟨kind, inner, rfl, hinner⟩ := h.sections p v he
      rw [readEntries_section hdays hlimit hinner]
      refine congrArg some (keep_congr fun s _ => ?_)
      by_cases hpart : s.part = p <;> simp [hpart, Part.name_inj]
    · have hother (p : Part) : p.name ≠ name := fun hname => hp ⟨p, hname⟩
      have hunknown : ∀ key ∈ sections, key.name ≠ name := fun key hkey => by
        obtain ⟨p, hname⟩ := exists_part hkey
        exact hname ▸ hother p
      rw [readEntries_unknown _ hunknown (h.others _ he hother)]
      refine congrArg some (keep_congr fun s _ => ?_)
      simp only [List.mem_cons, hother s.part, false_or]
  have hstart : state [] = {} := rfl
  have hread := readEntries_eq_state state hstep []
  rw [hstart, List.append_nil] at hread
  rw [hread]
  refine congrArg some (keep_congr fun s hvalue => ?_)
  simp only [List.mem_reverse, Bool.decide_and, Bool.decide_coe]
  cases hkept : kept s with
  | false => exact Bool.and_false _
  | true =>
    obtain ⟨v, hv⟩ := h.present s hkept hvalue
    simpa using ⟨v, hv⟩

/-- The defaults pass the check, so no mixture with them fails it. -/
theorem validate_keep (h : c.validate = .ok ()) : (keep kept c).validate = .ok () := by
  obtain ⟨hdays, hlimit⟩ := validate_eq_ok_iff.mp h
  refine validate_eq_ok_iff.mpr ⟨?_, ?_⟩
  · rcases hkept : kept .minDays with _ | _ <;> simp [keep, hkept, hdays]
  · rcases hkept : kept .minLimit with _ | _ <;> simp [keep, hkept, hlimit]

/-- A file that gives some settings of a configuration is loaded with these and with the defaults of
all others, however it is laid out. -/
theorem loadOrInit_keep {text : String} {es : Entries} {env : Environment}
    (hvalid : c.validate = .ok ()) (hdays : Text.InWord c.retention.minDays)
    (hlimit : Text.InWord c.retention.minLimit) (henv : ∀ name ∈ variableNames, env name = none)
    (htext : Toml.read text = some es) (hes : AssignsKept es kept c) (dir : String) :
    loadOrInit dir env (some text) =
      (.ok { keep kept c with dataDir := dir, configPath := Path.join dir fileName }, text) := by
  have hread : ofToml? text = some (keep kept c) := by
    rw [ofToml?, htext, Option.bind_eq_bind, Option.bind_some]
    exact readEntries_of_assignsKept hdays hlimit hes
  have hvalid' : ({ keep kept c with
      dataDir := dir, configPath := Path.join dir fileName } : Config).validate = .ok () :=
    validate_keep hvalid
  simp only [loadOrInit_some, ofFile, hread, finish, applyEnvironment_of_unset henv, hvalid']

end

/-- One section is written as a dotted key, one is empty, and one has a key that is not known. -/
def partialFile : String :=
  "# The outbox is on the new disk.\nowner = 'ops'\nrepository.path = '/srv/outbox.db'\n\n" ++
  "[gateway]\ntls = \x7b versions = ['1.2', '1.3'] \x7d\nport = 0x1F90\n\n[limits]\n\n[retention]\n"

def partialGateway : Entries :=
  [("tls", .table .inline [("versions", .array [.string "1.2", .string "1.3"])]),
    ("port", .integer 8080)]

def partialEntries : Entries :=
  [("owner", .string "ops"), ("repository", .table .dotted [("path", .string "/srv/outbox.db")]),
    ("gateway", .table .header partialGateway), ("limits", .table .header []),
    ("retention", .table .header [])]

theorem read_partialFile : Toml.read partialFile = some partialEntries := by
  cbv

def portAndPath (s : Setting) : Bool := s = .port ∨ s = .path

def wholeConfig : Config where
  retention := { minDays := 7, minLimit := 5 }
  gateway := { port := 8080, host := "0.0.0.0", allowPublicBind := true, corsOrigins := ["*"] }
  repository := { backend := .sqlite, path := some "/srv/outbox.db" }

theorem assignsKept_partialEntries : AssignsKept partialEntries portAndPath wholeConfig where
  sections p v hmem := by
    cases p with
    | retention =>
      have hv : v = .table .header [] := by simpa [partialEntries, Part.name] using hmem
      refine ⟨.header, _, hv, fun s hpart v => ?_, by simp⟩
      cases s <;> simp [Setting.part, portAndPath] at hpart ⊢
    | gateway =>
      have hv : v = .table .header partialGateway := by
        simpa [partialEntries, Part.name] using hmem
      have hothers : ∀ e ∈ partialGateway, representable e.2 := by decide
      refine ⟨.header, _, hv, fun s hpart v => ?_, fun e he _ => hothers e he⟩
      cases s <;> simp [Setting.part, portAndPath, partialGateway, Setting.key, Setting.value?,
        wholeConfig, eq_comm] at hpart ⊢
    | repository =>
      have hv : v = .table .dotted [("path", .string "/srv/outbox.db")] := by
        simpa [partialEntries, Part.name] using hmem
      have hothers : ∀ e ∈ ([("path", .string "/srv/outbox.db")] : Entries), representable e.2 := by
        decide
      refine ⟨.dotted, _, hv, fun s hpart v => ?_, fun e he _ => hothers e he⟩
      cases s <;> simp [Setting.part, portAndPath, Setting.key, Setting.value?, wholeConfig,
        eq_comm] at hpart ⊢
  present s hkept _ := by
    cases s <;> simp_all [portAndPath, partialEntries, Setting.part, Part.name]
  others e he _ := by
    have hall : ∀ e ∈ partialEntries, representable e.2 := by decide
    exact hall e he

theorem loadOrInit_partialFile :
    loadOrInit "/data" (fun _ => none) (some partialFile) =
      (.ok
        { dataDir := "/data"
          configPath := "/data/config.toml"
          gateway := { port := 8080 }
          repository := { path := some "/srv/outbox.db" } }, partialFile) := by
  have hpath : Path.join "/data" fileName = "/data/config.toml" := by decide
  have hunset : ∀ name ∈ variableNames, (fun _ => none : Environment) name = none :=
    fun _ _ => rfl
  have hload := loadOrInit_keep (c := wholeConfig) (by decide) (by decide) (by decide) hunset
    read_partialFile assignsKept_partialEntries "/data"
  rwa [hpath] at hload

end RetentionJobs.Config
