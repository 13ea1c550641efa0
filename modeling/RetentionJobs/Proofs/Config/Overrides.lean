import RetentionJobs.Config.Environment
/-! What an environment overrides. Of the two variables for the port, and of the two for the host, the
first that is set counts even if its value cannot be used, and such a value hides the other one. -/
namespace RetentionJobs

/-- The variables that override a setting. -/
inductive Variable where
  | gatewayPort | port | gatewayHost | host | minDays | minLimit | repository
  deriving DecidableEq, Repr

namespace Variable

def name : Variable → String
  | gatewayPort => "PURGECRON_GATEWAY_PORT"
  | port => "PORT"
  | gatewayHost => "PURGECRON_GATEWAY_HOST"
  | host => "HOST"
  | minDays => "PURGECRON_MIN_DAYS"
  | minLimit => "PURGECRON_MIN_LIMIT"
  | repository => "PURGECRON_REPOSITORY"

/-- The variable that counts when this one is not set. -/
def fallback? : Variable → Option Variable
  | gatewayPort => some port
  | gatewayHost => some host
  | _ => none

/-- A port has 16 bits, a host is not empty, a minimum has 64 bits, and a repository has a name that
is known. -/
def isUsable : Variable → String → Bool
  | gatewayPort, value | port, value => (Text.readPort? value.toList).isSome
  | gatewayHost, value | host, value => value ≠ ""
  | minDays, value | minLimit, value => (Text.readWord? value.toList).isSome
  | repository, value => (Backend.ofName? value).isSome

end Variable

/-- The environment with some variables removed. -/
def Environment.without (env : Environment) (xs : List Variable) : Environment := fun name =>
  if name ∈ xs.map Variable.name then none else env name

namespace Config

/-- The settings that an environment makes. -/
structure Overrides where
  port : Option UInt16
  host : Option String
  minDays : Option Int
  minLimit : Option Int
  backend : Option Backend

def overrides (env : Environment) : Overrides where
  port := (firstSet env "PURGECRON_GATEWAY_PORT" "PORT").bind (fun s => Text.readPort? s.toList)
  host := (firstSet env "PURGECRON_GATEWAY_HOST" "HOST").bind nonEmpty?
  minDays := (env "PURGECRON_MIN_DAYS").bind (fun s => Text.readWord? s.toList)
  minLimit := (env "PURGECRON_MIN_LIMIT").bind (fun s => Text.readWord? s.toList)
  backend := (env "PURGECRON_REPOSITORY").bind Backend.ofName?

def Overrides.apply (o : Overrides) (c : Config) : Config :=
  { c with
    retention := ⟨o.minDays.getD c.retention.minDays, o.minLimit.getD c.retention.minLimit⟩
    gateway := { c.gateway with
      port := o.port.getD c.gateway.port
      host := o.host.getD c.gateway.host }
    repository := { c.repository with backend := o.backend.getD c.repository.backend } }

theorem override_eq {α : Type} (value : Option String) (read : String → Option α)
    (use : Config → α → Config) (c : Config) :
    override value read use c = ((value.bind read).map (use c)).getD c := by
  unfold override
  cases value.bind read <;> rfl

theorem applyEnvironment_eq (env : Environment) (c : Config) :
    applyEnvironment env c = (overrides env).apply c := by
  unfold applyEnvironment overrides Overrides.apply
  simp only [override_eq]
  cases (firstSet env "PURGECRON_GATEWAY_PORT" "PORT").bind (fun s => Text.readPort? s.toList) <;>
    cases (firstSet env "PURGECRON_GATEWAY_HOST" "HOST").bind nonEmpty? <;>
    cases (env "PURGECRON_MIN_DAYS").bind (fun s => Text.readWord? s.toList) <;>
    cases (env "PURGECRON_MIN_LIMIT").bind (fun s => Text.readWord? s.toList) <;>
    cases (env "PURGECRON_REPOSITORY").bind Backend.ofName? <;>
    rfl

theorem eq_of_getD_eq {α : Type} {a b : α} (hne : a ≠ b) {x y : Option α}
    (h : ∀ c, x.getD c = y.getD c) : x = y := by
  have ha := h a
  have hb := h b
  cases x <;> cases y <;> simp_all

/-- Different settings make a difference to some configuration. -/
theorem Overrides.eq_of_apply_eq {o o' : Overrides} (h : ∀ c, o.apply c = o'.apply c) : o = o' := by
  have hport (port : UInt16) := congrArg (·.gateway.port) (h { gateway := { port } })
  have hhost (host : String) := congrArg (·.gateway.host) (h { gateway := { host } })
  have hdays (minDays : Int) := congrArg (·.retention.minDays) (h { retention := { minDays } })
  have hlimit (minLimit : Int) := congrArg (·.retention.minLimit) (h { retention := { minLimit } })
  have hbackend (backend : Backend) :=
    congrArg (·.repository.backend) (h { repository := { backend } })
  have hport := eq_of_getD_eq (a := 0) (b := 1) (by decide) hport
  have hhost := eq_of_getD_eq (a := "") (b := "localhost") (by decide) hhost
  have hdays := eq_of_getD_eq (a := 0) (b := 1) (by decide) hdays
  have hlimit := eq_of_getD_eq (a := 0) (b := 1) (by decide) hlimit
  have hbackend := eq_of_getD_eq (a := .none) (b := .sqlite) (by decide) hbackend
  cases o
  cases o'
  simp_all

theorem applyEnvironment_eq_iff {env env' : Environment} :
    (∀ c, applyEnvironment env c = applyEnvironment env' c) ↔ overrides env = overrides env' := by
  simp only [applyEnvironment_eq]
  exact ⟨Overrides.eq_of_apply_eq, fun h c => h ▸ rfl⟩

theorem nonEmpty?_eq_none_iff {s : String} : nonEmpty? s = none ↔ s = "" := by
  simp [nonEmpty?]

theorem firstSet_eq (env : Environment) (name fallback : String) :
    firstSet env name fallback = (env name).or (env fallback) := by
  unfold firstSet
  cases env name <;> rfl

/-- A fallback that cannot be read is as good as none. -/
theorem read_getD_of_unread {α : Type} (read : String → Option α) {value : String}
    (h : read value = none) (first : Option String) :
    read (first.getD value) = first.bind read := by
  cases first with
  | none => exact h
  | some v => rfl

variable {env : Environment} {x : Variable} {value : String}

/-- A value that cannot be used has no effect but that the fallback of its variable is not read. -/
theorem overrides_of_unusable (hset : env x.name = some value) (hvalue : x.isUsable value = false) :
    overrides env = overrides (env.without (x :: x.fallback?.toList)) := by
  have hempty : nonEmpty? "" = none := rfl
  cases x <;>
    simp_all [overrides, Environment.without, firstSet_eq, Variable.name, Variable.fallback?,
      Variable.isUsable]
  case port => exact read_getD_of_unread (fun s => Text.readPort? s.toList) hvalue _
  case host => exact read_getD_of_unread nonEmpty? hempty _

theorem overrides_without_iff (hset : env x.name = some value) (hvalue : x.isUsable value = false) :
    overrides (env.without [x]) = overrides env ↔
      ∀ y ∈ x.fallback?, ∀ v ∈ env y.name, y.isUsable v = false := by
  have hboth := overrides_of_unusable hset hvalue
  cases x with
  | gatewayPort =>
    rw [hboth]
    simp_all [overrides, Environment.without, firstSet_eq, Variable.name, Variable.fallback?,
      Variable.isUsable]
  | gatewayHost =>
    rw [hboth]
    simp_all [overrides, Environment.without, firstSet_eq, Variable.name, Variable.fallback?,
      Variable.isUsable, nonEmpty?_eq_none_iff]
  | _ => simpa [Variable.fallback?] using hboth.symm

/-- A value that cannot be used changes nothing, but it hides the fallback of its variable. So it is
as good as none exactly if the fallback has no value that can be used. -/
theorem applyEnvironment_unusable (hset : env x.name = some value)
    (hvalue : x.isUsable value = false) :
    (∀ c, applyEnvironment env c = applyEnvironment (env.without (x :: x.fallback?.toList)) c) ∧
      ((∀ c, applyEnvironment (env.without [x]) c = applyEnvironment env c) ↔
        ∀ y ∈ x.fallback?, ∀ v ∈ env y.name, y.isUsable v = false) :=
  ⟨applyEnvironment_eq_iff.mpr (overrides_of_unusable hset hvalue),
    applyEnvironment_eq_iff.trans (overrides_without_iff hset hvalue)⟩

/-- An environment with both variables for the port. -/
def portVariables (first second : String) : Environment := fun name =>
  if name = "PURGECRON_GATEWAY_PORT" then some first
  else if name = "PORT" then some second
  else none

/-- A first port without digits is as good as none if the second one is too large, but not if the
second one is a port. -/
theorem applyEnvironment_unusable_portVariables :
    Variable.gatewayPort.isUsable "http" = false ∧
      (∀ c, applyEnvironment ((portVariables "http" "65536").without [.gatewayPort]) c =
        applyEnvironment (portVariables "http" "65536") c) ∧
      ¬ ∀ c, applyEnvironment ((portVariables "http" "8080").without [.gatewayPort]) c =
        applyEnvironment (portVariables "http" "8080") c := by
  have hunusable : Variable.gatewayPort.isUsable "http" = false := by decide
  have hset (second : String) :
      portVariables "http" second Variable.gatewayPort.name = some "http" := rfl
  have hlarge := (applyEnvironment_unusable (hset "65536") hunusable).2
  have hport := (applyEnvironment_unusable (hset "8080") hunusable).2
  refine ⟨hunusable, hlarge.mpr ?_, fun hsame => ?_⟩
  · rintro _ ⟨⟩ _ ⟨⟩
    decide
  · exact absurd (hport.mp hsame .port rfl "8080" rfl) (by decide)

/-- With the first port removed the gateway is on the second one, and with a first port that cannot
be used it stays on the port of the configuration. -/
theorem applyEnvironment_port_hidden : ¬ ∀ {env : Environment} {x : Variable} {value : String},
    env x.name = some value → x.isUsable value = false →
      ∀ c, applyEnvironment (env.without [x]) c = applyEnvironment env c := by
  intro h
  have hset : portVariables "http" "8080" Variable.gatewayPort.name = some "http" := rfl
  have hsame := h hset (by decide) {}
  exact absurd (congrArg (·.gateway.port) hsame) (by decide)

end Config
end RetentionJobs
