/-
  Network isolation of virtual machines (`vm_network_isolation.rs`).

  A call is a script: the commands it runs, with those whose failure it ignores, of which every
  one may fail or not even be run.  Addresses and networks are taken as parsed, in the one
  spelling each of them has.
-/
import Blixard.Lib.RuleChains
import Blixard.Lib.Run
import Blixard.IpPool.Config

namespace Blixard

open RuleChains Table

inductive FirewallBackend where
  | iptables | nftables
  deriving DecidableEq

inductive PortDirection where
  | inbound | outbound
  deriving DecidableEq

structure AllowedPort where
  protocol : String
  port : ℕ
  direction : PortDirection

structure NetworkIsolationConfig where
  backend : FirewallBackend
  clusterNetworks : List IpNet
  vmNetwork : IpNet
  interVmIsolation : Bool
  tenantIsolation : Bool
  allowInternet : Bool
  allowedPorts : List AllowedPort

def ipv4 (a b c d : ℕ) : IpAddr := .v4 (.ofNat 32 (((a * 256 + b) * 256 + c) * 256 + d))

def NetworkIsolationConfig.default : NetworkIsolationConfig where
  backend := .nftables
  clusterNetworks := [⟨ipv4 127 0 0 0, 8⟩, ⟨ipv4 169 254 0 0, 16⟩, ⟨ipv4 172 16 0 0, 12⟩]
  vmNetwork := ⟨ipv4 10 0 0 0, 16⟩
  interVmIsolation := false
  tenantIsolation := true
  allowInternet := true
  allowedPorts := [⟨"udp", 53, .outbound⟩, ⟨"tcp", 53, .outbound⟩]

/-! ## Packets -/

inductive ConnectionState where
  | new | established | related | invalid | untracked
  deriving DecidableEq

structure Packet where
  source : IpAddr
  destination : IpAddr
  protocol : String
  dport : ℕ
  state : ConnectionState

inductive AddressMatch where
  | host (ip : IpAddr)
  | net (network : IpNet)
  deriving DecidableEq

def AddressMatch.contains : AddressMatch → IpAddr → Bool
  | host ip, address => ip = address
  | net network, address => network.contains address

/-- The condition of a rule; what is not given matches everything. -/
structure PacketMatch where
  source : Option AddressMatch := none
  destination : Option AddressMatch := none
  notDestination : Option IpNet := none
  port : Option (String × ℕ) := none
  established : Bool := false
  deriving DecidableEq

def PacketMatch.holds (m : PacketMatch) (p : Packet) : Bool :=
  m.source.all (·.contains p.source) && m.destination.all (·.contains p.destination) &&
    m.notDestination.all (fun network => !network.contains p.destination) &&
    m.port.all (fun port => p.protocol = port.1 && p.dport = port.2) &&
    (!m.established || p.state = .established || p.state = .related)

abbrev FirewallRule := Rule PacketMatch String
abbrev FirewallCommand := Command PacketMatch String
abbrev Firewall := Ruleset PacketMatch String

namespace NetworkIsolation

def tool (deletesFull : Bool) : FirewallBackend → Tool String
  | .iptables => ⟨["INPUT", "FORWARD", "OUTPUT"], deletesFull⟩
  | .nftables => ⟨["vm_input", "vm_output", "vm_forward"], deletesFull⟩

def accept (condition : PacketMatch) : FirewallRule := ⟨condition, .verdict .accept⟩

def drop (condition : PacketMatch) : FirewallRule := ⟨condition, .verdict .drop⟩

def jump (condition : PacketMatch) (chain : String) : FirewallRule := ⟨condition, .jump chain⟩

variable (config : NetworkIsolationConfig)

def clusterDrops : List FirewallRule :=
  config.clusterNetworks.map fun network =>
    drop { source := some (.net config.vmNetwork), destination := some (.net network) }

def acceptEstablished : FirewallRule := accept { established := true }

def outboundPorts : List AllowedPort := config.allowedPorts.filter (·.direction = .outbound)

/-! ## Scripts -/

abbrev Script := List (FirewallCommand × Bool)

def strict (commands : List FirewallCommand) : Script := commands.map (·, false)

def lenient (commands : List FirewallCommand) : Script := commands.map (·, true)

def initIptables : Script :=
  lenient (["BLIXARD_VM_IN", "BLIXARD_VM_OUT", "BLIXARD_VM_FWD"].map .addChain) ++
  strict [.insert "FORWARD" (jump {} "BLIXARD_VM_FWD"), .insert "INPUT" (jump {} "BLIXARD_VM_IN"),
    .insert "OUTPUT" (jump {} "BLIXARD_VM_OUT")] ++
  strict ((clusterDrops config).map (.append "BLIXARD_VM_FWD")) ++
  strict [.append "BLIXARD_VM_FWD" acceptEstablished]

def initNftables : Script :=
  lenient [.addTable] ++
  strict [.load [("vm_input", []), ("vm_output", []),
    ("vm_forward", clusterDrops config ++ [acceptEstablished])]]

def addVmIptablesRules (tenantIps : List IpAddr) (vmIp : IpAddr) : Script :=
  strict [.append "BLIXARD_VM_IN" (drop { source := some (.host vmIp) })] ++
  (if config.interVmIsolation then
    strict [.append "BLIXARD_VM_FWD"
      (drop { source := some (.host vmIp), destination := some (.net config.vmNetwork) })]
    else []) ++
  (if config.tenantIsolation then
    strict ((tenantIps.filter (· ≠ vmIp)).map fun allowedIp => .insert "BLIXARD_VM_FWD"
      (accept { source := some (.host vmIp), destination := some (.host allowedIp) }))
    else []) ++
  strict ((outboundPorts config).map fun port => .append "BLIXARD_VM_FWD"
    (accept { source := some (.host vmIp), port := some (port.protocol, port.port) })) ++
  (if config.allowInternet then
    strict [.append "BLIXARD_VM_FWD"
      (accept { source := some (.host vmIp), notDestination := some config.vmNetwork })]
    else [])

/-- The chain of a machine, with underscores for the hyphens of its name. -/
def vmChain (vmName : String) : String :=
  "vm_" ++ String.ofList (vmName.toList.map fun c => if c = '-' then '_' else c)

def vmRules (tenantIps : List IpAddr) (vmIp : IpAddr) : List FirewallRule :=
  (if config.interVmIsolation then [drop { destination := some (.net config.vmNetwork) }]
    else []) ++
  (if config.tenantIsolation then
    (tenantIps.filter (· ≠ vmIp)).map (fun allowedIp =>
      accept { destination := some (.host allowedIp) }) ++
    [drop { destination := some (.net config.vmNetwork) }]
    else []) ++
  (outboundPorts config).map (fun port => accept { port := some (port.protocol, port.port) }) ++
  (if config.allowInternet then [accept { notDestination := some config.vmNetwork }] else [])

def addVmNftablesRules (tenantIps : List IpAddr) (vmName : String) (vmIp : IpAddr) : Script :=
  strict [.addChain (vmChain vmName),
    .append "vm_forward" (jump { source := some (.host vmIp) } (vmChain vmName)),
    .append "vm_input" (drop { source := some (.host vmIp) })] ++
  strict ((vmRules config tenantIps vmIp).map (.append (vmChain vmName)))

def removeVmIptablesRules (vmIp : IpAddr) : Script :=
  lenient [.deleteRule "BLIXARD_VM_IN" (drop { source := some (.host vmIp) })]

def removeVmNftablesRules (vmName : String) (vmIp : IpAddr) : Script :=
  lenient [.deleteRule "vm_forward" (jump { source := some (.host vmIp) } (vmChain vmName)),
    .deleteChain (vmChain vmName),
    .deleteRule "vm_input" (drop { source := some (.host vmIp) })]

end NetworkIsolation

/-! ## Calls -/

inductive CommandOutcome where
  | runs
  | fails
  | notRun (error : String)

/-- The surroundings of a call: what becomes of its commands, and what they print if they
    fail. -/
structure CommandEnv where
  outcome : ℕ → CommandOutcome
  stderr : ℕ → String

def CommandEnv.working (stderr : String) : CommandEnv := ⟨fun _ => .runs, fun _ => stderr⟩

structure NetworkIsolationManager where
  config : NetworkIsolationConfig
  tenantNetworks : Table String (List IpAddr)

structure IsolatedHost where
  manager : NetworkIsolationManager
  firewall : Firewall

inductive IsolationCall where
  | initializeRules (env : CommandEnv)
  | addVmRules (env : CommandEnv) (vmName : String) (vmIp : IpAddr) (tenantId : String)
  | removeVmRules (env : CommandEnv) (vmName : String) (vmIp : IpAddr) (tenantId : String)

namespace NetworkIsolation

def programName (backend : FirewallBackend) : FirewallCommand → String × String
  | .load _ => ("nft with rules", "nft rules")
  | _ =>
    match backend with
    | .iptables => ("iptables", "iptables command")
    | .nftables => ("nft", "nft command")

def runCommand (tool : Tool String) (backend : FirewallBackend) (env : CommandEnv) (fw : Firewall)
    (entry : (FirewallCommand × Bool) × ℕ) : Firewall × Except BlixardError Unit :=
  let ((command, ignoreErrors), i) := entry
  let failed : Except BlixardError Unit :=
    if ignoreErrors then .ok ()
    else .error (.internal s!"{(programName backend command).2} failed: {env.stderr i}")
  match env.outcome i with
  | .notRun e => (fw, .error (.internal s!"Failed to run {(programName backend command).1}: {e}"))
  | .fails => (fw, failed)
  | .runs =>
    match command.run tool fw with
    | none => (fw, failed)
    | some fw => (fw, .ok ())

def runScript (tool : Tool String) (backend : FirewallBackend) (env : CommandEnv) (fw : Firewall)
    (script : Script) : Firewall × Except BlixardError Unit :=
  Run.attempt (runCommand tool backend env) fw script.zipIdx

end NetworkIsolation

namespace NetworkIsolationManager

open NetworkIsolation

variable (m : NetworkIsolationManager)

def tenantIps (tenantId : String) : List IpAddr := m.tenantNetworks[tenantId]?.getD []

def addTenantIp (vmIp : IpAddr) (tenantId : String) : NetworkIsolationManager :=
  { m with tenantNetworks := m.tenantNetworks.insert tenantId (m.tenantIps tenantId ++ [vmIp]) }

def removeTenantIp (vmIp : IpAddr) (tenantId : String) : NetworkIsolationManager :=
  { m with tenantNetworks := m.tenantNetworks.modify tenantId fun ips => ips.filter (· ≠ vmIp) }

def initScript : Script :=
  match m.config.backend with
  | .iptables => initIptables m.config
  | .nftables => initNftables m.config

def addScript (vmName : String) (vmIp : IpAddr) (tenantId : String) : Script :=
  match m.config.backend with
  | .iptables => addVmIptablesRules m.config (m.tenantIps tenantId) vmIp
  | .nftables => addVmNftablesRules m.config (m.tenantIps tenantId) vmName vmIp

def removeScript (vmName : String) (vmIp : IpAddr) : Script :=
  match m.config.backend with
  | .iptables => removeVmIptablesRules vmIp
  | .nftables => removeVmNftablesRules vmName vmIp

variable {m} {ip vmIp : IpAddr} {tenant tenantId : String}

theorem mem_tenantIps_add : ip ∈ (m.addTenantIp vmIp tenantId).tenantIps tenant ↔
    ip ∈ m.tenantIps tenant ∨ ip = vmIp ∧ tenant = tenantId := by
  unfold tenantIps addTenantIp
  rw [get_insert]
  split_ifs with hsame
  · subst hsame
    rw [Option.getD_some, List.mem_append, List.mem_singleton, tenantIps, and_iff_left rfl]
  · simp [Ne.symm hsame]

theorem mem_tenantIps_remove (h : ip ∈ (m.removeTenantIp vmIp tenantId).tenantIps tenant) :
    ip ∈ m.tenantIps tenant := by
  unfold tenantIps removeTenantIp at h
  unfold tenantIps
  cases hips : m.tenantNetworks[tenantId]? with
  | none =>
    rw [modify_of_get_none hips] at h
    exact h
  | some ips =>
    rw [modify_of_get hips, get_insert] at h
    split_ifs at h with hsame
    · rw [← hsame, hips]
      exact List.mem_of_mem_filter h
    · exact h

end NetworkIsolationManager

namespace IsolatedHost

open NetworkIsolation

variable (deletesFull : Bool) (h : IsolatedHost)

/-- A manager that has done nothing yet; `iptables` has chains for the forwarded, incoming and
    outgoing packets, which may hold rules of others. -/
def start (config : NetworkIsolationConfig) (forward input output : List FirewallRule) :
    IsolatedHost where
  manager := ⟨config, ∅⟩
  firewall :=
    match config.backend with
    | .iptables =>
      ⟨true, (((∅ : Table String (List FirewallRule)).insert "FORWARD" forward).insert
        "INPUT" input).insert "OUTPUT" output⟩
    | .nftables => ⟨false, ∅⟩

def runs (env : CommandEnv) (manager : NetworkIsolationManager) (script : Script) :
    IsolatedHost × Except BlixardError Unit :=
  let backend := manager.config.backend
  let result := runScript (tool deletesFull backend) backend env h.firewall script
  (⟨manager, result.1⟩, result.2)

def call : IsolationCall → IsolatedHost × Except BlixardError Unit
  | .initializeRules env => h.runs deletesFull env h.manager h.manager.initScript
  | .addVmRules env vmName vmIp tenantId =>
    let manager := h.manager.addTenantIp vmIp tenantId
    h.runs deletesFull env manager (manager.addScript vmName vmIp tenantId)
  | .removeVmRules env vmName vmIp tenantId =>
    let manager := h.manager.removeTenantIp vmIp tenantId
    h.runs deletesFull env manager (manager.removeScript vmName vmIp)

def step (c : IsolationCall) : IsolatedHost := (h.call deletesFull c).1

def rulesOf (chain : String) : List FirewallRule := h.firewall.chains[chain]?.getD []

/-- What becomes of a forwarded packet, with so many jumps possible. The manager's `nft` chain has
    the policy to accept; that of `iptables` is not the manager's. -/
def forwardVerdict (depth : ℕ) (p : Packet) : Option Verdict :=
  match h.manager.config.backend with
  | .iptables => evaluate PacketMatch.holds h.rulesOf p depth (h.rulesOf "FORWARD")
  | .nftables =>
    if "vm_forward" ∈ h.firewall.chains then
      some ((evaluate PacketMatch.holds h.rulesOf p depth (h.rulesOf "vm_forward")).getD .accept)
    else none

end IsolatedHost

end Blixard
