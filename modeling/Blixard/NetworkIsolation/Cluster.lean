/-
  The cluster networks stay protected from machines.

  The rules for them come first, but for `iptables` rules that let machines of a tenant talk to
  one another, and these are about addresses of machines.
-/
import Blixard.NetworkIsolation.Scripts

namespace Blixard

open RuleChains IsEmpty List NetworkIsolationManager

namespace NetworkIsolation

structure ClusterBound (config : NetworkIsolationConfig) (p : Packet) : Prop where
  source : config.vmNetwork.contains p.source = true
  destination : ∃ network ∈ config.clusterNetworks, network.contains p.destination = true

def forwardChain : FirewallBackend → String
  | .iptables => "BLIXARD_VM_FWD"
  | .nftables => "vm_forward"

variable {config : NetworkIsolationConfig} {p : Packet} {deletesFull : Bool}

/-- The rules drop the packet, and `iptables` looks at them first. -/
structure Guarded (backend : FirewallBackend) (p : Packet) (fw : Firewall) : Prop where
  drops : DropsIn PacketMatch.holds p fw (forwardChain backend)
  hooked : backend = .iptables →
    ∃ rest, fw.chains["FORWARD"]? = some (jump {} "BLIXARD_VM_FWD" :: rest)

structure Harmless (deletesFull : Bool) (backend : FirewallBackend) (p : Packet)
    (command : FirewallCommand) : Prop where
  respects : command.Respects PacketMatch.holds p (forwardChain backend)
  keepsChain : ∀ chain, command = .deleteChain chain → chain = forwardChain backend →
    deletesFull = false
  keepsHook : backend = .iptables → command.About "FORWARD" →
    command = .insert "FORWARD" (jump {} "BLIXARD_VM_FWD")

variable (vmIp : IpAddr) {env : CommandEnv} {fw fw' : Firewall}

theorem Guarded.run {be : FirewallBackend} {cmd : FirewallCommand}
    (h : Guarded be p fw) (hc : Harmless deletesFull be p cmd)
    (hrun : cmd.run (tool deletesFull be) fw = some fw') : Guarded be p fw' where
  drops := by
    refine h.drops.run hc.respects (fun chain heq hn => ?_) hrun
    have hfull := hc.keepsChain chain heq hn
    cases be <;> exact hfull
  hooked := by
    intro hb
    obtain ⟨rest, hrest⟩ := h.hooked hb
    by_cases ha : cmd.About "FORWARD"
    · cases hc.keepsHook hb ha
      obtain ⟨-, before, -, hget⟩ := run_insert hrun
      exact ⟨before, by rw [hget, if_pos rfl]⟩
    · exact ⟨rest, by rw [run_get hrun, effect_of_not_about ha, hrest]⟩

/-! ## The scripts are harmless -/

section
variable {backend : FirewallBackend} {chain : String} {r : FirewallRule}

theorem harmless_append (h : backend = .iptables → chain ≠ "FORWARD") :
    Harmless deletesFull backend p (.append chain r) where
  respects := trivial
  keepsChain := fun _ heq => by cases heq
  keepsHook := fun hb ha => absurd ha (h hb)

theorem harmless_addChain (h : backend = .iptables → chain ≠ "FORWARD") :
    Harmless deletesFull backend p (.addChain chain) where
  respects := trivial
  keepsChain := fun _ heq => by cases heq
  keepsHook := fun hb ha => absurd ha (h hb)

theorem harmless_hook {tgt : String} (h : chain ≠ "BLIXARD_VM_FWD")
    (hf : chain = "FORWARD" → tgt = "BLIXARD_VM_FWD") :
    Harmless deletesFull .iptables p (.insert chain (jump {} tgt)) where
  respects := fun heq => absurd heq h
  keepsChain := fun _ heq => by cases heq
  keepsHook := fun _ ha => by
    have hc : chain = "FORWARD" := ha
    rw [hc, hf hc]

theorem harmless_insert (h : r.condition.holds p = false) :
    Harmless deletesFull .iptables p (.insert "BLIXARD_VM_FWD" r) where
  respects := fun _ => h
  keepsChain := fun _ heq => by cases heq
  keepsHook := fun _ ha => by
    have hc : "BLIXARD_VM_FWD" = "FORWARD" := ha
    simp at hc

theorem harmless_deleteRule (h : chain = forwardChain backend → r.target ≠ .verdict .drop)
    (hhook : backend = .iptables → chain ≠ "FORWARD") :
    Harmless deletesFull backend p (.deleteRule chain r) where
  respects := h
  keepsChain := fun _ heq => by cases heq
  keepsHook := fun hb ha => absurd ha (hhook hb)

end

theorem initIptables_harmless :
    ∀ entry ∈ initIptables config, Harmless deletesFull .iptables p entry.1 := by
  unfold initIptables
  simp only [forall_mem_append, forall_mem_strict, forall_mem_lenient, forall_mem_cons,
    forall_mem_map, not_mem_nil, forall_iff, implies_true, and_true]
  refine ⟨⟨⟨⟨?_, ?_, ?_⟩, ?_, ?_, ?_⟩, ?_⟩, ?_⟩
  · exact harmless_addChain (by simp)
  · exact harmless_addChain (by simp)
  · exact harmless_addChain (by simp)
  · exact harmless_hook (by simp) (by simp)
  · exact harmless_hook (by simp) (by simp)
  · exact harmless_hook (by simp) (by simp)
  · exact fun r _ => harmless_append (by simp)
  · exact harmless_append (by simp)

theorem initNftables_harmless :
    ∀ entry ∈ initNftables config, Harmless deletesFull .nftables p entry.1 := by
  unfold initNftables
  simp only [forall_mem_append, forall_mem_strict, forall_mem_lenient, forall_mem_cons,
    not_mem_nil, forall_iff, implies_true, and_true]
  constructor
  · exact ⟨trivial, fun _ heq => (by cases heq), fun heq => (by cases heq)⟩
  · exact ⟨trivial, fun _ heq => (by cases heq), fun heq => (by cases heq)⟩

theorem addVmIptablesRules_harmless {ips : List IpAddr} (h : ∀ ip ∈ ips, ip ≠ p.destination) :
    ∀ entry ∈ addVmIptablesRules config ips vmIp, Harmless deletesFull .iptables p entry.1 := by
  have hins : ∀ ip ∈ ips.filter (· ≠ vmIp), Harmless deletesFull .iptables p
      (.insert "BLIXARD_VM_FWD"
        (accept { source := some (.host vmIp), destination := some (.host ip) })) := by
    intro ip hip
    have ho := h ip (List.mem_of_mem_filter hip)
    exact harmless_insert (by simp [accept, PacketMatch.holds, AddressMatch.contains, ho])
  unfold addVmIptablesRules
  simp only [List.forall_mem_append, forall_mem_strict, List.forall_mem_cons, List.forall_mem_map,
    List.not_mem_nil, IsEmpty.forall_iff, implies_true, and_true]
  refine ⟨⟨⟨⟨?_, ?_⟩, ?_⟩, ?_⟩, ?_⟩
  · exact harmless_append (by simp)
  · split_ifs
    · simpa [strict] using harmless_append (by simp)
    · simp
  · split_ifs
    · rw [forall_mem_strict, List.forall_mem_map]
      exact hins
    · simp
  · exact fun port _ => harmless_append (by simp)
  · split_ifs
    · simpa [strict] using harmless_append (by simp)
    · simp

theorem addVmNftablesRules_harmless (ips : List IpAddr) (vm : String) (vmIp : IpAddr) :
    ∀ entry ∈ addVmNftablesRules config ips vm vmIp, Harmless deletesFull .nftables p entry.1 := by
  unfold addVmNftablesRules
  simp only [forall_mem_append, forall_mem_strict, forall_mem_cons, forall_mem_map,
    not_mem_nil, forall_iff, implies_true, and_true]
  refine ⟨⟨?_, ?_, ?_⟩, ?_⟩
  · exact harmless_addChain (by simp)
  · exact harmless_append (by simp)
  · exact harmless_append (by simp)
  · exact fun r _ => harmless_append (by simp)

theorem removeVmIptablesRules_harmless :
    ∀ entry ∈ removeVmIptablesRules vmIp, Harmless deletesFull .iptables p entry.1 := by
  unfold removeVmIptablesRules
  simp only [forall_mem_lenient, forall_mem_cons, not_mem_nil, forall_iff,
    implies_true, and_true]
  exact harmless_deleteRule (by simp [forwardChain]) (by simp)

theorem removeVmNftablesRules_harmless {vm : String}
    (h : vmChain vm = "vm_forward" → deletesFull = false) :
    ∀ entry ∈ removeVmNftablesRules vm vmIp, Harmless deletesFull .nftables p entry.1 := by
  unfold removeVmNftablesRules
  simp only [forall_mem_lenient, forall_mem_cons, not_mem_nil, forall_iff,
    implies_true, and_true]
  refine ⟨?_, ?_, ?_⟩
  · exact harmless_deleteRule (by simp [jump]) (by simp)
  · refine ⟨trivial, fun chain heq hc => ?_, fun heq => (by cases heq)⟩
    cases heq
    exact h hc
  · exact harmless_deleteRule (by simp [forwardChain]) (by simp)

theorem clusterDrops_firstDrops (h : ClusterBound config p) (more : List FirewallRule) :
    FirstDrops PacketMatch.holds p (clusterDrops config ++ more) := by
  refine (firstDrops_of_forall ?_ ?_).append more
  · simp [clusterDrops, drop]
  · obtain ⟨net, hnet, hd⟩ := h.destination
    refine ⟨_, List.mem_map_of_mem hnet, ?_⟩
    simp [drop, PacketMatch.holds, AddressMatch.contains, h.source, hd]

theorem initIptables_guarded (hp : ClusterBound config p)
    (hnone : fw.chains["BLIXARD_VM_FWD"]? = none)
    (hok : runScript (tool deletesFull .iptables) .iptables env fw (initIptables config) =
      (fw', .ok ())) : Guarded .iptables p fw' := by
  obtain ⟨hr, hf⟩ := initIptables_rules hok
  refine ⟨⟨_, hr, ?_⟩, fun _ => ⟨_, hf⟩⟩
  rw [hnone]
  exact clusterDrops_firstDrops hp _

theorem initNftables_guarded (hp : ClusterBound config p) (hnone : fw.chains["vm_forward"]? = none)
    (hok : runScript (tool deletesFull .nftables) .nftables env fw (initNftables config) =
      (fw', .ok ())) : Guarded .nftables p fw' := by
  have hr := @initNftables_rules env fw fw' config deletesFull "vm_forward" hok
  refine ⟨⟨_, hr, ?_⟩, fun heq => (by cases heq)⟩
  rw [hnone]
  exact clusterDrops_firstDrops hp _

end NetworkIsolation

/-! ## Runs -/

open NetworkIsolation

/-- The addresses of machines are in their network, and no machine is removed whose chain is
    called like the one with the rules, unless that is not deleted then. -/
def IsolationCall.KeepsCluster (config : NetworkIsolationConfig) (deletesFull : Bool) :
    IsolationCall → Prop
  | .initializeRules _ => True
  | .addVmRules _ _ vmIp _ => config.vmNetwork.contains vmIp = true
  | .removeVmRules _ vmName _ _ => vmChain vmName = "vm_forward" → deletesFull = false

namespace IsolatedHost

variable {config : NetworkIsolationConfig} {p : Packet} {deletesFull : Bool} {h : IsolatedHost}

/-- The rules are in place, and the addresses of tenants are those of machines. -/
structure Protected (config : NetworkIsolationConfig) (p : Packet) (h : IsolatedHost) : Prop where
  config_eq : h.manager.config = config
  tenants : ∀ tenant, ∀ ip ∈ h.manager.tenantIps tenant, config.vmNetwork.contains ip = true
  guarded : Guarded config.backend p h.firewall

theorem Protected.forwardVerdict (hh : Protected config p h) (depth : ℕ) :
    h.forwardVerdict (depth + 1) p = some .drop := by
  obtain ⟨rules, hr, hd⟩ := hh.guarded.drops
  unfold IsolatedHost.forwardVerdict
  rw [hh.config_eq]
  cases hb : config.backend with
  | iptables =>
    obtain ⟨rest, hrest⟩ := hh.guarded.hooked hb
    rw [hb, forwardChain] at hr
    have hf : h.rulesOf "FORWARD" = jump {} "BLIXARD_VM_FWD" :: rest := by
      rw [rulesOf, hrest, Option.getD_some]
    have hw : h.rulesOf "BLIXARD_VM_FWD" = rules := by
      rw [rulesOf, hr, Option.getD_some]
    simp only [hf]
    rw [evaluate_cons, decides_of_jump rfl rfl, hw, hd.evaluate, Option.some_or]
  | nftables =>
    rw [hb, forwardChain] at hr
    have hf : h.rulesOf "vm_forward" = rules := by
      rw [rulesOf, hr, Option.getD_some]
    simp only [hf]
    rw [if_pos ((Table.mem_iff _ _).2 ⟨rules, hr⟩), hd.evaluate, Option.getD_some]

variable {env : CommandEnv}

theorem Protected.runs {mgr : NetworkIsolationManager} {script : Script}
    (hh : Protected config p h) (hc : mgr.config = config)
    (ht : ∀ tn, ∀ ip ∈ mgr.tenantIps tn, config.vmNetwork.contains ip = true)
    (hs : ∀ entry ∈ script, Harmless deletesFull config.backend p entry.1) :
    Protected config p (h.runs deletesFull env mgr script).1 where
  config_eq := hc
  tenants := ht
  guarded := by
    simp only [IsolatedHost.runs, hc]
    exact runScript_keeps (fun fw fw' entry hent hfw hrun => hfw.run (hs entry hent) hrun)
      hh.guarded

theorem Protected.step {c : IsolationCall}
    (hd : config.vmNetwork.contains p.destination = false) (hh : Protected config p h)
    (hc : c.KeepsCluster config deletesFull) : Protected config p (h.step deletesFull c) := by
  have hf := hh.config_eq
  cases c with
  | initializeRules env =>
    refine hh.runs hf hh.tenants ?_
    rw [initScript, hf]
    cases config.backend
    · exact initIptables_harmless
    · exact initNftables_harmless
  | addVmRules env vm vmIp tid =>
    have ht : ∀ tn, ∀ ip ∈ (h.manager.addTenantIp vmIp tid).tenantIps tn,
        config.vmNetwork.contains ip = true := by
      intro tn ip hip
      rcases mem_tenantIps_add.1 hip with hold | ⟨rfl, -⟩
      · exact hh.tenants tn ip hold
      · exact hc
    refine hh.runs hf ht ?_
    have hf' : (h.manager.addTenantIp vmIp tid).config = config := hf
    rw [addScript, hf']
    cases config.backend
    · refine addVmIptablesRules_harmless vmIp fun ip hip heq => ?_
      have hins := ht tid ip hip
      rw [heq, hd] at hins
      cases hins
    · exact addVmNftablesRules_harmless _ vm vmIp
  | removeVmRules env vm vmIp tid =>
    have ht : ∀ tn, ∀ ip ∈ (h.manager.removeTenantIp vmIp tid).tenantIps tn,
        config.vmNetwork.contains ip = true := fun tn ip hip =>
      hh.tenants tn ip (mem_tenantIps_remove hip)
    refine hh.runs hf ht ?_
    have hf' : (h.manager.removeTenantIp vmIp tid).config = config := hf
    rw [removeScript, hf']
    cases config.backend
    · exact removeVmIptablesRules_harmless vmIp
    · exact removeVmNftablesRules_harmless vmIp hc

theorem protected_after_init {forward input output : List FirewallRule} (hp : ClusterBound config p)
    (hok : ((start config forward input output).call deletesFull (.initializeRules env)).2 =
      .ok ()) : Protected config p
      ((start config forward input output).step deletesFull (.initializeRules env)) where
  config_eq := rfl
  tenants := fun tn ip hip => by
    have hnone : ip ∈ (∅ : Table String (List IpAddr))[tn]?.getD [] := hip
    simp at hnone
  guarded := by
    simp only [step, call, runs, start, initScript] at hok ⊢
    cases hb : config.backend with
    | iptables =>
      simp only [hb] at hok ⊢
      refine initIptables_guarded hp ?_ (Prod.ext rfl hok)
      simp
    | nftables =>
      simp only [hb] at hok ⊢
      exact initNftables_guarded hp (by simp) (Prod.ext rfl hok)

/-- **The cluster stays protected**: after `initialize` and any calls, whatever commands fail,
    packets from the machines' network to a cluster network are dropped, if the networks are
    disjoint and machines have addresses in theirs. -/
theorem cluster_protected (config : NetworkIsolationConfig) (deletesFull : Bool)
    (forward input output : List FirewallRule) (env : CommandEnv) (calls : List IsolationCall)
    (hdisjoint : ∀ network ∈ config.clusterNetworks, ∀ ip, network.contains ip = true →
      config.vmNetwork.contains ip = false)
    (hok : ((start config forward input output).call deletesFull (.initializeRules env)).2 = .ok ())
    (hcalls : ∀ c ∈ calls, c.KeepsCluster config deletesFull) :
    ∀ h ∈ calls.scanl (step deletesFull)
        ((start config forward input output).step deletesFull (.initializeRules env)),
      ∀ p, ClusterBound config p → ∀ depth, h.forwardVerdict (depth + 1) p = some .drop := by
  intro h hh p hp depth
  obtain ⟨network, hnetwork, hdestination⟩ := hp.destination
  have hprotected := Run.invariant
    (fun _ _ hs hc => hs.step (hdisjoint network hnetwork _ hdestination) hc)
    (protected_after_init hp hok) (Run.along_of_forall_mem hcalls _) h hh
  exact hprotected.forwardVerdict depth

theorem default_disjoint : ∀ net ∈ NetworkIsolationConfig.default.clusterNetworks, ∀ ip,
    net.contains ip = true → NetworkIsolationConfig.default.vmNetwork.contains ip = false := by
  intro net hnet ip hip
  simp only [NetworkIsolationConfig.default, List.mem_cons, List.not_mem_nil, or_false]
    at hnet
  cases ip with
  | v6 bits =>
    rcases hnet with rfl | rfl | rfl <;> cases hip
  | v4 bits =>
    rcases hnet with rfl | rfl | rfl <;>
      simp [NetworkIsolationConfig.default, ipv4, IpNet.contains] at hip ⊢ <;> omega

/-- `iptables` with a rule of others that accepts everything: two machines of a tenant, of
    which the rules of the second break off at the third command, and one is removed. -/
theorem cluster_protected_iptables :
    let config := { NetworkIsolationConfig.default with backend := .iptables }
    let working := CommandEnv.working "iptables: Bad rule"
    let breaksOff : CommandEnv :=
      ⟨fun i => if i = 2 then .fails else .runs, fun _ => "Resource temporarily unavailable"⟩
    let calls : List IsolationCall := [.addVmRules working "web" (ipv4 10 0 0 5) "acme",
      .addVmRules breaksOff "db" (ipv4 10 0 0 6) "acme",
      .removeVmRules working "web" (ipv4 10 0 0 5) "acme"]
    ((start config [accept {}] [] []).call false (.initializeRules working)).2 = .ok () ∧
      ∀ h ∈ calls.scanl (step false)
          ((start config [accept {}] [] []).step false (.initializeRules working)),
        ∀ p, ClusterBound config p → ∀ depth, h.forwardVerdict (depth + 1) p = some .drop := by
  intro config working breaksOff calls
  have hok : ((start config [accept {}] [] []).call false (.initializeRules working)).2 =
      .ok () := by decide +kernel
  have hcalls : ∀ c ∈ calls, c.KeepsCluster config false := by
    simp only [calls, List.forall_mem_cons, List.not_mem_nil, IsEmpty.forall_iff, implies_true,
      and_true, IsolationCall.KeepsCluster]
    decide
  exact ⟨hok, cluster_protected config false [accept {}] [] [] working calls default_disjoint hok
    hcalls⟩

end IsolatedHost

end Blixard
