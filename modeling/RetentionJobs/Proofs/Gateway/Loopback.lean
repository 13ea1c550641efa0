import RetentionJobs.CommandLine.Run
import RetentionJobs.Proofs.Config.Overrides
import RetentionJobs.Proofs.Config.Starts
import RetentionJobs.Proofs.Text.Decimal
/-! The address that a gateway listens on when public ones are not allowed. It is always a loopback
address, but three of the names that are let through as loopback hosts are read as no address. -/
namespace RetentionJobs
open RetentionJobs.Text

namespace Gateway
open SocketAddress

def SocketAddress.portNumber : SocketAddress → Nat
  | v4 _ port => port
  | v6 _ _ port => port

/-! ### Reading loopback hosts -/

theorem port_digits (p : UInt16) : port (':' :: digits p.toNat) = some (p.toNat, []) := by
  have hdigits : ∀ c ∈ digits p.toNat, c.isDigit := fun _ => isDigit_of_mem_digits
  have hfront : (digits p.toNat).takeWhile Char.isDigit = digits p.toNat :=
    List.takeWhile_eq_self_iff.mpr hdigits
  have hrest : (digits p.toNat).dropWhile Char.isDigit = [] :=
    List.dropWhile_eq_nil_iff.mpr hdigits
  have hbound : p.toNat < 65536 := p.toNat_lt
  simp [port, after, numberBelow, hfront, hrest, readDigits?_digits, hbound]

theorem toList_hostAndPort (host : String) (p : UInt16) :
    (hostAndPort host p).toList = host.toList ++ ':' :: digits p.toNat := by
  simp [hostAndPort, natText]

theorem ofText?_bytes (p : UInt16) :
    ofText? (hostAndPort "127.0.0.1" p) = some (.v4 [127, 0, 0, 1] p.toNat) := by
  have hbytes (rest : List Char) :
      bytes ("127.0.0.1".toList ++ ':' :: rest) = some ([127, 0, 0, 1], ':' :: rest) := rfl
  have hread : readV4 ("127.0.0.1".toList ++ ':' :: digits p.toNat) =
      some (.v4 [127, 0, 0, 1] p.toNat, []) := by
    simp only [readV4, hbytes, port_digits, Option.bind_eq_bind, Option.bind_some, Option.pure_def]
  rw [ofText?, toList_hostAndPort, hread]

theorem ofText?_groups (p : UInt16) :
    ofText? (hostAndPort "[::1]" p) = some (.v6 [0, 0, 0, 0, 0, 0, 0, 1] 0 p.toNat) := by
  have hv4 (rest : List Char) : readV4 ('[' :: rest) = none := rfl
  have hgroups (rest : List Char) :
      eightGroups ("::1".toList ++ ']' :: rest) = some ([0, 0, 0, 0, 0, 0, 0, 1], ']' :: rest) := rfl
  have hscope (rest : List Char) : scope (']' :: rest) = some (0, ']' :: rest) := rfl
  have hafter (c : Char) (rest : List Char) : after c (c :: rest) = some rest := by simp [after]
  have hread : readV6 ('[' :: ("::1".toList ++ ']' :: ':' :: digits p.toNat)) =
      some (.v6 [0, 0, 0, 0, 0, 0, 0, 1] 0 p.toNat, []) := by
    simp only [readV6, hafter, hgroups, hscope, port_digits, Option.bind_eq_bind, Option.bind_some,
      Option.pure_def]
  have htext : "[::1]".toList ++ ':' :: digits p.toNat =
      '[' :: ("::1".toList ++ ']' :: ':' :: digits p.toNat) := rfl
  rw [ofText?, toList_hostAndPort, htext, hv4, hread]

/-- Hosts that are let through as loopback hosts and are no address with a port behind them: a name,
and two forms of an address that has to stand in brackets there. -/
def unreadableHosts : List String := ["localhost", "::1", "0:0:0:0:0:0:0:1"]

theorem ofText?_of_mem_unreadableHosts {host : String} (h : host ∈ unreadableHosts) (p : UInt16) :
    ofText? (hostAndPort host p) = none := by
  have hname (rest : List Char) : readV4 ("localhost".toList ++ ':' :: rest) = none ∧
      readV6 ("localhost".toList ++ ':' :: rest) = none := ⟨rfl, rfl⟩
  have hshort (rest : List Char) : readV4 ("::1".toList ++ ':' :: rest) = none ∧
      readV6 ("::1".toList ++ ':' :: rest) = none := ⟨rfl, rfl⟩
  have hlong (rest : List Char) : readV4 ("0:0:0:0:0:0:0:1".toList ++ ':' :: rest) = none ∧
      readV6 ("0:0:0:0:0:0:0:1".toList ++ ':' :: rest) = none := ⟨rfl, rfl⟩
  rw [ofText?, toList_hostAndPort]
  simp only [unreadableHosts, List.mem_cons, List.not_mem_nil, or_false] at h
  obtain rfl | rfl | rfl := h
  · rw [(hname _).1, (hname _).2]
  · rw [(hshort _).1, (hshort _).2]
  · rw [(hlong _).1, (hlong _).2]

theorem not_isPublicHost_of_mem_unreadableHosts :
    ∀ {host : String}, host ∈ unreadableHosts → ¬ isPublicHost host := by
  decide

/-- A public host is refused. One that is let through is a loopback address with the port, or it is
one of the three that cannot be read. -/
theorem bindAddress_cases (host : String) (p : UInt16) :
    (isPublicHost host ∧ bindAddress host p false = .error (.other (refusal host))) ∨
      (host ∈ unreadableHosts ∧
        bindAddress host p false = .error (.other "parse gateway bind address")) ∨
      (host ∉ unreadableHosts ∧ ¬ isPublicHost host ∧
        ∃ address, bindAddress host p false = .ok address ∧ address.isLoopback ∧
          address.portNumber = p.toNat) := by
  by_cases hpublic : isPublicHost host
  · exact .inl ⟨hpublic, by simp [bindAddress, hpublic]⟩
  refine .inr ?_
  by_cases hunreadable : host ∈ unreadableHosts
  · exact .inl ⟨hunreadable,
      by simp [bindAddress, hpublic, ofText?_of_mem_unreadableHosts hunreadable]⟩
  refine .inr ⟨hunreadable, hpublic, ?_⟩
  obtain rfl | rfl : host = "127.0.0.1" ∨ host = "[::1]" := by
    simp [isPublicHost, loopbackHosts, unreadableHosts] at hpublic hunreadable
    tauto
  · exact ⟨.v4 [127, 0, 0, 1] p.toNat, by simp [bindAddress, hpublic, ofText?_bytes], rfl, rfl⟩
  · exact ⟨.v6 [0, 0, 0, 0, 0, 0, 0, 1] 0 p.toNat,
      by simp [bindAddress, hpublic, ofText?_groups], rfl, rfl⟩

end Gateway

namespace Config

/-- What is loaded is what the file says, with the settings of the environment. -/
theorem eq_apply_of_load {dir : String} {env : Environment} {file : Option String}
    {written c : Config} (hfile : ofToml? (file.getD initialFile) = some written)
    (hload : (load dir env file).result = .ok c) :
    c = (overrides env).apply
      { written with dataDir := dir, configPath := Path.join dir fileName } := by
  rw [load_eq, ofFile, hfile] at hload
  simp only [finish, applyEnvironment_eq] at hload
  split at hload
  · cases hload
  · exact (Except.ok.inj hload).symm

end Config

namespace CommandLine
open Config Gateway

/-- A start that refuses a public host, or goes on to listen on a loopback address with the port. -/
def StartsSafely (host : String) (p : UInt16) (result : Except Failure Outcome) : Prop :=
  isPublicHost host ∧ result = .error (.other (refusal host)) ∨
    ∃ address, result = .ok (.listen address) ∧ address.isLoopback ∧ address.portNumber = p.toNat

/-- Where the file allows no public address, the gateway is given a loopback address or none,
whatever the environment and the command line override. With the host and the port that they
result in, a public host is refused, and any other is listened on unless it is one of the three that
cannot be read. -/
theorem listen_loopback {dir : String} {env : Environment} {file : Option String}
    {written c : Config} (hfile : ofToml? (file.getD initialFile) = some written)
    (hclosed : written.gateway.allowPublicBind = false)
    (hload : (load dir env file).result = .ok c) (port : Option UInt16) (host : Option String)
    (s : Surroundings) :
    let h := host.getD ((overrides env).host.getD written.gateway.host)
    let p := port.getD ((overrides env).port.getD written.gateway.port)
    let result := run (.gateway port host) c s
    (isPublicHost h → result = .error (.other (refusal h))) ∧
      (∀ outcome, result = .ok outcome → ∃ address, outcome = .listen address ∧
        address.isLoopback ∧ address.portNumber = p.toNat) ∧
      (StartsSafely h p result ↔ h ∉ unreadableHosts) ∧
      (h ∈ unreadableHosts →
        ¬ isPublicHost h ∧ result = .error (.other "parse gateway bind address")) := by
  intro h p result
  have hresult : result = (bindAddress h p false).map .listen := by
    change (gatewayAddress c port host).map _ = _
    rw [eq_apply_of_load hfile hload]
    simp only [gatewayAddress, Overrides.apply, hclosed, h, p]
  rw [hresult]
  obtain ⟨hpublic, hbind⟩ | ⟨hunreadable, hbind⟩ |
    ⟨hreadable, hlocal, address, hbind, hloopback, hport⟩ := bindAddress_cases h p
  · have hreadable : h ∉ unreadableHosts :=
      fun hmem => not_isPublicHost_of_mem_unreadableHosts hmem hpublic
    rw [hbind]
    exact ⟨fun _ => rfl, fun _ hok => (by cases hok), iff_of_true (.inl ⟨hpublic, rfl⟩) hreadable,
      fun hmem => absurd hmem hreadable⟩
  · have hlocal := not_isPublicHost_of_mem_unreadableHosts hunreadable
    rw [hbind]
    refine ⟨fun hpublic => absurd hpublic hlocal, fun _ hok => (by cases hok),
      iff_of_false ?_ (not_not_intro hunreadable), fun _ => ⟨hlocal, rfl⟩⟩
    rintro (⟨hpublic, _⟩ | ⟨address, hlisten, _⟩)
    · exact hlocal hpublic
    · cases hlisten
  · rw [hbind]
    refine ⟨fun hpublic => absurd hpublic hlocal, fun outcome houtcome => ?_,
      iff_of_true (.inr ⟨address, rfl, hloopback, hport⟩) hreadable,
      fun hmem => absurd hmem hreadable⟩
    exact ⟨address, (Except.ok.inj houtcome).symm, hloopback, hport⟩

/-- A file with a public host. -/
def exposedFile : String := "[gateway]\nhost = \"0.0.0.0\"\nport = 4000\n"

/-- An environment with another public host and another port. -/
def exposedEnvironment : Environment := fun name =>
  if name = "HOST" then some "10.0.0.5" else if name = "PORT" then some "8080" else none

/-- The public host of the environment is refused, and with a loopback host on the command line the
gateway listens there, on the port of the environment. -/
theorem listen_loopback_exposed : ∃ c,
    (load "/data" exposedEnvironment (some exposedFile)).result = .ok c ∧
      run (.gateway none none) c ⟨{}, ""⟩ = .error (.other (refusal "10.0.0.5")) ∧
      StartsSafely "[::1]" 8080 (run (.gateway none (some "[::1]")) c ⟨{}, ""⟩) := by
  let written : Config := { gateway := { host := "0.0.0.0", port := 4000 } }
  have hfile : ofToml? ((some exposedFile).getD initialFile) = some written := by decide +kernel
  have hload : (load "/data" exposedEnvironment (some exposedFile)).result =
      .ok { dataDir := "/data", configPath := "/data/config.toml",
            gateway := { host := "10.0.0.5", port := 8080 } } := by decide +kernel
  obtain ⟨hpublic, _⟩ := listen_loopback hfile rfl hload none none ⟨{}, ""⟩
  obtain ⟨_, _, hsafe, _⟩ := listen_loopback hfile rfl hload none (some "[::1]") ⟨{}, ""⟩
  exact ⟨_, hload, hpublic (by decide), hsafe.mpr (by decide)⟩

/-- A gateway for the name of its own machine does not start, although the name is let through. -/
theorem listen_localhost : ∃ c,
    (load "/data" (fun _ => none) none).result = .ok c ∧ c.gateway.allowPublicBind = false ∧
      ¬ isPublicHost "localhost" ∧
      run (.gateway (some 3000) (some "localhost")) c ⟨{}, ""⟩ =
        .error (.other "parse gateway bind address") ∧
      ¬ StartsSafely "localhost" 3000
        (run (.gateway (some 3000) (some "localhost")) c ⟨{}, ""⟩) := by
  have hload : (load "/data" (fun _ => none) none).result =
      .ok { dataDir := "/data", configPath := "/data/config.toml" } := by decide +kernel
  have hrun : run (.gateway (some 3000) (some "localhost"))
      { dataDir := "/data", configPath := "/data/config.toml" } ⟨{}, ""⟩ =
        .error (.other "parse gateway bind address") := by decide +kernel
  refine ⟨_, hload, rfl, by decide, hrun, ?_⟩
  rw [hrun]
  rintro (⟨hpublic, _⟩ | ⟨address, hlisten, _⟩)
  · exact absurd hpublic (by decide)
  · cases hlisten

end CommandLine
end RetentionJobs
