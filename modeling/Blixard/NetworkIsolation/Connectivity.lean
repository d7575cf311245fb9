/-
  Which machines reach one another.

  A machine gets rules only for those of its tenant that were there before it, and these get none
  for it.  `Reaches` says exactly which new connections are accepted once machines have been
  added (`accepted_iff`).
-/
import Blixard.NetworkIsolation.Cluster
import Blixard.NetworkIsolation.Tenants

namespace Blixard

open RuleChains NetworkIsolation List PacketMatch

/-! ## What is let through -/

/-- The machine got rules for an address of its tenant, `older` being there before it. -/
def LiveVm.Knows (vm : LiveVm) (older : List LiveVm) (ip : IpAddr) : Prop :=
  ip ≠ vm.ip ∧ ∃ other ∈ older, other.tenant = vm.tenant ∧ other.ip = ip

instance (vm : LiveVm) (older : List LiveVm) (ip : IpAddr) : Decidable (vm.Knows older ip) :=
  inferInstanceAs (Decidable (_ ∧ _))

namespace NetworkIsolation

/-- Of the machines, the last one first, one with the first address knows the second. -/
def Met : List LiveVm → IpAddr → IpAddr → Prop
  | [], _, _ => False
  | vm :: older, source, destination =>
    (vm.ip = source ∧ vm.Knows older destination) ∨ Met older source destination

instance decidableMet : (vms : List LiveVm) → (source destination : IpAddr) →
    Decidable (Met vms source destination)
  | [], _, _ => inferInstanceAs (Decidable False)
  | _ :: older, source, destination =>
    haveI := decidableMet older source destination
    inferInstanceAs (Decidable (_ ∨ _))

def chainOf : List LiveVm → IpAddr → Option String
  | [], _ => none
  | vm :: older, ip =>
    (chainOf older ip).or (if vm.ip = ip then some (vmChain vm.name) else none)

def ChainKnows : List LiveVm → String → IpAddr → Prop
  | [], _, _ => False
  | vm :: older, chain, ip =>
    if ∃ other ∈ older, vmChain other.name = chain then ChainKnows older chain ip
    else vmChain vm.name = chain ∧ vm.Knows older ip

instance decidableChainKnows : (vms : List LiveVm) → (chain : String) → (ip : IpAddr) →
    Decidable (ChainKnows vms chain ip)
  | [], _, _ => inferInstanceAs (Decidable False)
  | vm :: older, chain, ip =>
    haveI := decidableChainKnows older chain ip
    inferInstanceAs (Decidable (if ∃ other ∈ older, vmChain other.name = chain then
      ChainKnows older chain ip else vmChain vm.name = chain ∧ vm.Knows older ip))

instance (config : NetworkIsolationConfig) (p : Packet) : Decidable (ClusterBound config p) :=
  decidable_of_iff (config.vmNetwork.contains p.source = true ∧
    ∃ network ∈ config.clusterNetworks, network.contains p.destination = true)
    ⟨fun h => ⟨h.1, h.2⟩, fun h => ⟨h.1, h.2⟩⟩

def Permitted (config : NetworkIsolationConfig) (p : Packet) : Prop :=
  (∃ port ∈ outboundPorts config, p.protocol = port.protocol ∧ p.dport = port.port) ∨
    (config.allowInternet = true ∧ config.vmNetwork.contains p.destination = false)

instance (config : NetworkIsolationConfig) (p : Packet) : Decidable (Permitted config p) :=
  inferInstanceAs (Decidable (_ ∨ _))

def Reaches (config : NetworkIsolationConfig) (vms : List LiveVm) (p : Packet) : Prop :=
  match config.backend with
  | .iptables =>
    Met vms p.source p.destination ∨
      (¬ ClusterBound config p ∧
        (config.interVmIsolation = true → config.vmNetwork.contains p.destination = false) ∧
        Permitted config p)
  | .nftables =>
    ¬ ClusterBound config p ∧
      (config.vmNetwork.contains p.destination = true →
        config.interVmIsolation = false ∧
          ∃ chain, chainOf vms p.source = some chain ∧ ChainKnows vms chain p.destination)

theorem chainOf_ne_none {vms : List LiveVm} {vm : LiveVm} (h : vm ∈ vms) :
    chainOf vms vm.ip ≠ none := by
  induction vms with
  | nil => cases h
  | cons first older ih =>
    rw [chainOf, Ne, Option.or_eq_none_iff]
    rintro ⟨hold, hself⟩
    rcases mem_cons.1 h with rfl | hmem
    · simp at hself
    · exact ih hmem hold

variable {dst ip vmIp : IpAddr} {older : List LiveVm} {m : NetworkIsolationManager} {chain : String}

theorem chainKnows_of_older {vm : LiveVm} (h : ∃ other ∈ older, vmChain other.name = chain) :
    ChainKnows (vm :: older) chain ip ↔ ChainKnows older chain ip := by
  rw [ChainKnows, if_pos h]

theorem chainKnows_of_first {vm : LiveVm}
    (h : ¬ ∃ other ∈ older, vmChain other.name = vmChain vm.name) :
    ChainKnows (vm :: older) (vmChain vm.name) ip ↔ vm.Knows older ip := by
  rw [ChainKnows, if_neg h, and_iff_right rfl]

variable {config : NetworkIsolationConfig} {deletesFull : Bool} {env : CommandEnv}
  {fw fw' : Firewall} {vms : List LiveVm} {vm : LiveVm} {tenantIps : List IpAddr} {p : Packet}
  {cs : String → List FirewallRule} {depth : ℕ}

theorem evaluate_clusterDrops : evaluate PacketMatch.holds cs p depth (clusterDrops config) =
      if ClusterBound config p then some .drop else none := by
  have hb : (∃ r ∈ clusterDrops config, r.condition.holds p = true) ↔
      ClusterBound config p := by
    simp only [clusterDrops, drop, List.mem_map, exists_exists_and_eq_and, PacketMatch.holds,
      Option.all_some, AddressMatch.contains, Option.all_none, Bool.not_false, Bool.true_or,
      Bool.and_eq_true, and_true]
    constructor
    · rintro ⟨net, hnet, hs, hd⟩
      exact ⟨hs, net, hnet, hd⟩
    · rintro ⟨hs, net, hnet, hd⟩
      exact ⟨net, hnet, hs, hd⟩
  rw [evaluate_verdicts (v := .drop) (by simp [clusterDrops, drop])]
  simp only [hb]

theorem evaluate_init (hnew : p.state = .new) :
    evaluate holds cs p depth (clusterDrops config ++ [acceptEstablished]) =
      if ClusterBound config p then some .drop else none := by
  have hnone : evaluate holds cs p depth [acceptEstablished] = none := by
    refine evaluate_eq_none fun r hr => decides_of_not_holds ?_
    rw [mem_singleton.1 hr]
    exact acceptEstablished_not_holds hnew
  rw [evaluate_append, hnone, Option.or_none, evaluate_clusterDrops]

/-! ## `iptables` -/

def accessVerdict (config : NetworkIsolationConfig) (p : Packet) : Option Verdict :=
  if config.interVmIsolation = true ∧ config.vmNetwork.contains p.destination = true then
    some .drop
  else if Permitted config p then some .accept
  else none

def iptablesVerdict (config : NetworkIsolationConfig) (vms : List LiveVm) (p : Packet) :
    Option Verdict :=
  if Met vms p.source p.destination then some .accept
  else if ClusterBound config p then some .drop
  else if ∃ vm ∈ vms, vm.ip = p.source then accessVerdict config p
  else none

theorem evaluate_vmBarrier (hs : vmIp = p.source) :
    evaluate PacketMatch.holds cs p depth (vmBarrier config vmIp) =
      if config.interVmIsolation = true ∧ config.vmNetwork.contains p.destination = true then
        some .drop else none := by
  rw [evaluate_verdicts (v := .drop) (by simp [vmBarrier, drop])]
  simp [vmBarrier, drop, PacketMatch.holds, AddressMatch.contains, hs]

theorem evaluate_vmAccess (hs : vmIp = p.source) :
    evaluate PacketMatch.holds cs p depth (vmAccess config vmIp) =
      if Permitted config p then some .accept else none := by
  have hp : (∃ r ∈ vmAccess config vmIp, r.condition.holds p = true) ↔
      Permitted config p := by
    simp [vmAccess, accept, PacketMatch.holds, AddressMatch.contains, hs, Permitted, or_and_right,
      exists_or]
  rw [evaluate_verdicts (v := .accept) (by simp [vmAccess, accept, or_imp, forall_and])]
  simp only [hp]

theorem evaluate_access :
    evaluate holds cs p depth (vmBarrier config vmIp ++ vmAccess config vmIp) =
      if vmIp = p.source then accessVerdict config p else none := by
  split_ifs with hs
  · rw [evaluate_append, evaluate_vmBarrier hs, evaluate_vmAccess hs, accessVerdict]
    split_ifs <;> rfl
  · refine evaluate_eq_none fun r hr => decides_of_not_holds ?_
    by_contra hl
    exact hs (source_of_holds hr (by simpa using hl))

theorem evaluate_tenantAccess (hi : config.tenantIsolation = true) :
    evaluate PacketMatch.holds cs p depth (tenantAccess config tenantIps vmIp).reverse =
      if vmIp = p.source ∧ p.destination ∈ tenantIps.filter (· ≠ vmIp) then some .accept
      else none := by
  have hacc : ∀ r ∈ (tenantAccess config tenantIps vmIp).reverse,
      r.target = .verdict .accept := by
    intro r hr
    simp only [List.mem_reverse, tenantAccess, List.mem_ite_nil_right, List.mem_map] at hr
    obtain ⟨-, ip, -, rfl⟩ := hr
    rfl
  rw [evaluate_verdicts hacc]
  simp [tenantAccess, hi, accept, PacketMatch.holds, AddressMatch.contains, and_comm]

def Tracks (m : NetworkIsolationManager) (vms : List LiveVm) : Prop :=
  ∀ tenant ip, ip ∈ m.tenantIps tenant ↔ ∃ vm ∈ vms, vm.tenant = tenant ∧ vm.ip = ip

theorem Tracks.knows (h : Tracks m (vm :: vms)) :
    ip ∈ (m.tenantIps vm.tenant).filter (· ≠ vm.ip) ↔ vm.Knows vms ip := by
  simp only [mem_filter, h vm.tenant ip, mem_cons, exists_eq_or_imp, LiveVm.Knows,
    decide_eq_true_eq]
  constructor
  · rintro ⟨⟨-, rfl⟩ | ho, hne⟩
    · exact absurd rfl hne
    · exact ⟨hne, ho⟩
  · rintro ⟨hne, ho⟩
    exact ⟨.inr ho, hne⟩

theorem Tracks.add {m : NetworkIsolationManager} (h : Tracks m vms) :
    Tracks (m.addTenantIp vm.ip vm.tenant) (vm :: vms) := by
  intro tn ip
  rw [NetworkIsolationManager.mem_tenantIps_add, h tn ip]
  simp only [mem_cons, exists_eq_or_imp]
  constructor
  · rintro (ho | ⟨rfl, rfl⟩)
    · exact .inr ho
    · exact .inl ⟨rfl, rfl⟩
  · rintro (⟨rfl, rfl⟩ | ho)
    · exact .inr ⟨rfl, rfl⟩
    · exact .inl ho

theorem iptablesVerdict_cons : iptablesVerdict config (vm :: vms) p =
      (if vm.ip = p.source ∧ vm.Knows vms p.destination then some .accept else none).or
        ((iptablesVerdict config vms p).or
          (if vm.ip = p.source then accessVerdict config p else none)) := by
  unfold iptablesVerdict
  by_cases hk : vm.ip = p.source ∧ vm.Knows vms p.destination
  · rw [if_pos hk, Option.some_or, if_pos (.inl hk)]
  rw [if_neg hk, Option.none_or]
  have hmet : Met (vm :: vms) p.source p.destination ↔ Met vms p.source p.destination :=
    or_iff_right hk
  simp only [hmet, mem_cons, exists_eq_or_imp]
  by_cases hs : vm.ip = p.source
  · by_cases ho : ∃ vm ∈ vms, vm.ip = p.source
    · simp only [hs, ho, true_or, if_true]
      split_ifs <;> simp
    · simp only [hs, ho, true_or, if_true, if_false]
      split_ifs <;> simp
  · simp only [hs, false_or, if_false, Option.or_none]

/-- All packets go to the chain of the manager, whose verdict is known. -/
structure IptablesRoutes (config : NetworkIsolationConfig) (vms : List LiveVm) (fw : Firewall) :
    Prop where
  hooks : ∀ r ∈ fw.chains["FORWARD"]?.getD [], r = jump {} "BLIXARD_VM_FWD"
  ready : ∀ rules, fw.chains["BLIXARD_VM_FWD"]? = some rules →
    fw.chains["FORWARD"]?.getD [] ≠ [] ∧ ∀ p : Packet, p.state = .new → ∀ cs depth,
      evaluate PacketMatch.holds cs p depth rules = iptablesVerdict config vms p
  absent : fw.chains["BLIXARD_VM_FWD"]? = none →
    vms = [] ∧ fw.chains["BLIXARD_VM_IN"]? = none

theorem IptablesRoutes.init (h : IptablesRoutes config vms fw)
    (hok : runScript (tool deletesFull .iptables) .iptables env fw (initIptables config) =
      (fw', .ok ())) : IptablesRoutes config vms fw' := by
  obtain ⟨hr, hf⟩ := initIptables_rules hok
  constructor
  · rw [hf, Option.getD_some, forall_mem_cons]
    exact ⟨rfl, h.hooks⟩
  · intro rules ha
    rw [hr, Option.some.injEq] at ha
    subst ha
    refine ⟨by rw [hf]; simp, fun p hnew cs depth => ?_⟩
    rw [evaluate_append, evaluate_init hnew]
    cases hb : fw.chains["BLIXARD_VM_FWD"]? with
    | none =>
      rw [(h.absent hb).1]
      simp [iptablesVerdict, Met, evaluate]
    | some pre =>
      -- what is dropped now was decided before
      rw [Option.getD_some, (h.ready pre hb).2 p hnew]
      unfold iptablesVerdict
      split_ifs <;> simp
  · intro hnone
    rw [hr] at hnone
    cases hnone

theorem addVmIptablesRules_present (hok : runScript (tool deletesFull .iptables) .iptables env fw
      (addVmIptablesRules config tenantIps vmIp) = (fw', .ok ())) :
    fw.chains["BLIXARD_VM_IN"]? ≠ none := by
  rw [addVmIptablesRules_eq] at hok
  obtain ⟨_, hf, -⟩ := runAll_cons (runAll_of_strict hok)
  obtain ⟨-, before, hb, -⟩ := run_append hf
  rw [hb]
  simp

theorem IptablesRoutes.add {m : NetworkIsolationManager} (h : IptablesRoutes config vms fw)
    (hi : config.tenantIsolation = true) (ht : Tracks m (vm :: vms))
    (hok : runScript (tool deletesFull .iptables) .iptables env fw
      (addVmIptablesRules config (m.tenantIps vm.tenant) vm.ip) = (fw', .ok ())) :
    IptablesRoutes config (vm :: vms) fw' := by
  obtain ⟨hf, hr⟩ := addVmIptablesRules_rules hok
  have hp : ∃ rules, fw.chains["BLIXARD_VM_FWD"]? = some rules := by
    by_contra hnone
    have hnone' := Option.eq_none_iff_forall_ne_some.2 fun rules heq => hnone ⟨rules, heq⟩
    exact addVmIptablesRules_present hok (h.absent hnone').2
  obtain ⟨pre, hpre⟩ := hp
  rw [hpre, Option.map_some] at hr
  obtain ⟨hk, hv⟩ := h.ready pre hpre
  constructor
  · rw [hf]
    exact h.hooks
  · intro rules ha
    rw [hr, Option.some.injEq] at ha
    subst ha
    refine ⟨by rwa [hf], fun p hnew cs depth => ?_⟩
    rw [evaluate_append, evaluate_append, evaluate_tenantAccess hi, evaluate_access,
      hv p hnew, iptablesVerdict_cons]
    simp only [ht.knows]
  · intro hnone
    rw [hr] at hnone
    cases hnone

theorem IptablesRoutes.evaluate (h : IptablesRoutes config vms fw) (hvms : vms ≠ [])
    (hnew : p.state = .new) : evaluate holds (fun c => fw.chains[c]?.getD []) p (depth + 1)
      (fw.chains["FORWARD"]?.getD []) = iptablesVerdict config vms p := by
  cases hl : fw.chains["BLIXARD_VM_FWD"]? with
  | none => exact absurd (h.absent hl).1 hvms
  | some rules =>
    obtain ⟨hk, hv⟩ := h.ready rules hl
    refine evaluate_of_forall hk fun r hr => ?_
    have hjump : (jump {} "BLIXARD_VM_FWD").decides holds
        (fun c => fw.chains[c]?.getD []) p (depth + 1) = _ := decides_of_jump rfl rfl
    rw [h.hooks r hr, hjump, hl, Option.getD_some]
    exact hv p hnew _ depth

theorem iptablesVerdict_eq_accept (hs : ∃ vm ∈ vms, vm.ip = p.source)
    (hb : config.backend = .iptables) :
    iptablesVerdict config vms p = some .accept ↔ Reaches config vms p := by
  simp only [iptablesVerdict, hs, if_true, accessVerdict, Reaches, hb]
  split_ifs <;> simp_all

/-! ## `nft` -/

def jumpFrom (ip : IpAddr) (r : FirewallRule) : Option String :=
  match r.target with
  | .jump chain => if r.condition.source = some (.host ip) then some chain else none
  | .verdict _ => none

def chainVerdict (config : NetworkIsolationConfig) (vms : List LiveVm) (destination : IpAddr)
    (chain : String) : Verdict :=
  if config.interVmIsolation = false ∧ ChainKnows vms chain destination then .accept else .drop

theorem chainVerdict_of_older (h : ∃ other ∈ vms, vmChain other.name = chain) :
    chainVerdict config (vm :: vms) dst chain = chainVerdict config vms dst chain := by
  simp only [chainVerdict, chainKnows_of_older h]

theorem chainVerdict_of_first (h : ¬ ∃ other ∈ vms, vmChain other.name = vmChain vm.name) :
    chainVerdict config (vm :: vms) dst (vmChain vm.name) =
      if config.interVmIsolation = false ∧ vm.Knows vms dst then .accept else .drop := by
  simp only [chainVerdict, chainKnows_of_first h]

theorem evaluate_barrier :
    evaluate PacketMatch.holds cs p depth [drop { destination := some (.net config.vmNetwork) }] =
      if config.vmNetwork.contains p.destination = true then some .drop else none := by
  rw [evaluate_verdicts (v := .drop) (by simp [drop])]
  simp [drop, PacketMatch.holds, AddressMatch.contains]

theorem evaluate_vmRules_inside (hi : config.tenantIsolation = true)
    (hins : config.vmNetwork.contains p.destination = true) :
    evaluate PacketMatch.holds cs p depth (vmRules config tenantIps vmIp) =
      some (if config.interVmIsolation = false ∧ p.destination ∈ tenantIps.filter (· ≠ vmIp) then
        .accept else .drop) := by
  have hbar : evaluate PacketMatch.holds cs p depth
      [drop { destination := some (.net config.vmNetwork) }] = some .drop := by
    rw [evaluate_barrier, if_pos hins]
  have hten : evaluate PacketMatch.holds cs p depth ((tenantIps.filter (· ≠ vmIp)).map
      (fun allowedIp => accept { destination := some (.host allowedIp) })) =
      if p.destination ∈ tenantIps.filter (· ≠ vmIp) then some .accept else none := by
    rw [evaluate_verdicts (v := .accept) (List.forall_mem_map.2 fun _ _ => rfl)]
    simp [accept, PacketMatch.holds, AddressMatch.contains]
  unfold vmRules
  rw [if_pos hi, List.append_assoc, List.append_assoc]
  cases hn : config.interVmIsolation with
  | true =>
    rw [if_pos rfl, evaluate_append, hbar, Option.some_or]
    rfl
  | false =>
    simp only [Bool.false_eq_true, if_false, List.nil_append, evaluate_append, hten, hbar,
      true_and]
    split_ifs <;> simp

theorem evaluate_vmRules_outside {vmIp : IpAddr}
    (ho : config.vmNetwork.contains p.destination = false) :
    evaluate PacketMatch.holds cs p depth (vmRules config tenantIps vmIp) ≠ some .drop := by
  intro hdrop
  obtain ⟨r, hr, hdec⟩ := exists_decides hdrop
  have hv : r.target = .verdict .accept ∨ r.condition.holds p = false := by
    simp only [vmRules, List.mem_append, List.mem_ite_nil_right, List.mem_singleton, List.mem_map]
      at hr
    rcases hr with ((⟨-, rfl⟩ | ⟨-, ⟨ip, -, rfl⟩ | rfl⟩) | ⟨port, -, rfl⟩) | ⟨-, rfl⟩
    · exact .inr (by simp [drop, PacketMatch.holds, AddressMatch.contains, ho])
    · exact .inl rfl
    · exact .inr (by simp [drop, PacketMatch.holds, AddressMatch.contains, ho])
    · exact .inl rfl
    · exact .inl rfl
  rcases hv with ha | hl
  · cases (eq_of_decides ha hdec).1
  · rw [decides_of_not_holds hl] at hdec
    cases hdec

def nftBases : List String := ["vm_input", "vm_output", "vm_forward"]

/-- Packets of a machine go to the chain of the first one with its address, and what that says
    is known. -/
structure NftRoutes (config : NetworkIsolationConfig) (vms : List LiveVm) (fw : Firewall) :
    Prop where
  absent : fw.chains["vm_forward"]? = none → vms = []
  shape : ∀ r ∈ fw.chains["vm_forward"]?.getD [], r ∈ clusterDrops config ∨
    r = acceptEstablished ∨ ∃ vm ∈ vms, r = jump { source := some (.host vm.ip) } (vmChain vm.name)
  guarded : ∀ rules, fw.chains["vm_forward"]? = some rules → ∀ p, ClusterBound config p →
    FirstDrops PacketMatch.holds p rules
  first : ∀ ip, (fw.chains["vm_forward"]?.getD []).findSome? (jumpFrom ip) = chainOf vms ip
  inside : ∀ vm ∈ vms, ∀ p : Packet, config.vmNetwork.contains p.destination = true →
    ∀ cs depth, evaluate PacketMatch.holds cs p depth (fw.chains[vmChain vm.name]?.getD []) =
      some (chainVerdict config vms p.destination (vmChain vm.name))
  outside : ∀ vm ∈ vms, ∀ p : Packet, config.vmNetwork.contains p.destination = false →
    ∀ cs depth, evaluate PacketMatch.holds cs p depth (fw.chains[vmChain vm.name]?.getD []) ≠
      some .drop
  own : ∀ vm ∈ vms, vmChain vm.name ∉ nftBases
  fresh : ∀ chain, chain ∉ nftBases → (∀ vm ∈ vms, vmChain vm.name ≠ chain) →
    fw.chains[chain]? = none

theorem findSome?_jumpFrom_init (ip : IpAddr) :
    (clusterDrops config ++ [acceptEstablished]).findSome? (jumpFrom ip) = none := by
  rw [findSome?_eq_none_iff]
  intro r hr
  rcases mem_append.1 hr with hdrop | he
  · obtain ⟨network, -, rfl⟩ := mem_map.1 hdrop
    rfl
  · rw [mem_singleton.1 he]
    rfl

theorem NftRoutes.init (h : NftRoutes config vms fw)
    (hok : runScript (tool deletesFull .nftables) .nftables env fw (initNftables config) =
      (fw', .ok ())) : NftRoutes config vms fw' := by
  have hf := @initNftables_rules env fw fw' config deletesFull "vm_forward" hok
  rw [if_neg (by simp), if_pos rfl] at hf
  have hsame : ∀ chain, chain ∉ nftBases → fw'.chains[chain]? = fw.chains[chain]? := by
    intro chain hc
    simp only [nftBases, mem_cons, not_mem_nil, or_false, not_or] at hc
    rw [initNftables_rules hok, if_neg (by simp [hc]), if_neg hc.2.2]
  constructor
  · intro hnone
    rw [hf] at hnone
    cases hnone
  · intro r hr
    rw [hf, Option.getD_some, mem_append, mem_append, mem_singleton] at hr
    rcases hr with hold | hdrop | he
    · exact h.shape r hold
    · exact .inl hdrop
    · exact .inr (.inl he)
  · intro rules hl p hp
    rw [hf, Option.some.injEq] at hl
    subst hl
    cases hb : fw.chains["vm_forward"]? with
    | none => exact clusterDrops_firstDrops hp _
    | some pre => exact (h.guarded pre hb p hp).append _
  · intro ip
    rw [hf, Option.getD_some, findSome?_append, findSome?_jumpFrom_init, Option.or_none,
      h.first ip]
  · intro vm hvm
    rw [hsame _ (h.own vm hvm)]
    exact h.inside vm hvm
  · intro vm hvm
    rw [hsame _ (h.own vm hvm)]
    exact h.outside vm hvm
  · exact h.own
  · intro chain hc hvms
    rw [hsame chain hc]
    exact h.fresh chain hc hvms

theorem NftRoutes.inside_add (h : NftRoutes config vms fw)
    (hi : config.tenantIsolation = true) (ht : Tracks m (vm :: vms))
    (hbase : vmChain vm.name ∉ nftBases) (hins : config.vmNetwork.contains p.destination = true) :
    evaluate holds cs p depth (fw.chains[vmChain vm.name]?.getD [] ++
      vmRules config (m.tenantIps vm.tenant) vm.ip) =
        some (chainVerdict config (vm :: vms) p.destination (vmChain vm.name)) := by
  rw [evaluate_append]
  by_cases hold : ∃ other ∈ vms, vmChain other.name = vmChain vm.name
  · rw [chainVerdict_of_older hold]
    obtain ⟨other, ho, heq⟩ := hold
    rw [← heq, h.inside other ho p hins, Option.some_or]
  have hnone := h.fresh _ hbase fun other ho heq => hold ⟨other, ho, heq⟩
  rw [hnone, Option.getD_none, evaluate_eq_none (by simp), Option.none_or,
    evaluate_vmRules_inside hi hins, chainVerdict_of_first hold]
  simp only [ht.knows]

theorem NftRoutes.outside_add (h : NftRoutes config vms fw) (hbase : vmChain vm.name ∉ nftBases)
    (ho : config.vmNetwork.contains p.destination = false) :
    evaluate holds cs p depth (fw.chains[vmChain vm.name]?.getD [] ++
      vmRules config (m.tenantIps vm.tenant) vm.ip) ≠ some .drop := by
  have hr := @evaluate_vmRules_outside config (m.tenantIps vm.tenant) p cs depth vm.ip ho
  rw [evaluate_append]
  by_cases hold : ∃ other ∈ vms, vmChain other.name = vmChain vm.name
  · obtain ⟨other, ht, heq⟩ := hold
    have hpre := h.outside other ht p ho cs depth
    rw [heq] at hpre
    intro hdrop
    rw [Option.or_eq_some_iff] at hdrop
    rcases hdrop with hdrop | ⟨-, hdrop⟩
    · exact hpre hdrop
    · exact hr hdrop
  · have hnone := h.fresh _ hbase fun other ht heq => hold ⟨other, ht, heq⟩
    rw [hnone, Option.getD_none, evaluate_eq_none (by simp), Option.none_or]
    exact hr

theorem NftRoutes.add {m : NetworkIsolationManager} (h : NftRoutes config vms fw)
    (hi : config.tenantIsolation = true) (ht : Tracks m (vm :: vms))
    (hok : runScript (tool deletesFull .nftables) .nftables env fw
      (addVmNftablesRules config (m.tenantIps vm.tenant) vm.name vm.ip) = (fw', .ok ())) :
    NftRoutes config (vm :: vms) fw' := by
  obtain ⟨hbase, ⟨rules, hf, hf'⟩, hl, hsame⟩ := addVmNftablesRules_rules hok
  -- the chains of the machines that were there are extended, or as they were
  have ho : ∀ other ∈ vms, vmChain other.name ≠ vmChain vm.name →
      fw'.chains[vmChain other.name]? = fw.chains[vmChain other.name]? :=
    fun other hmem hne => hsame _ hne (h.own other hmem)
  have hpre : ∀ r ∈ rules, r ∈ fw.chains["vm_forward"]?.getD [] := by
    rw [hf]
    exact fun r hr => hr
  constructor
  · intro hnone
    rw [hf'] at hnone
    cases hnone
  · intro r hr
    rw [hf', Option.getD_some, mem_append, mem_singleton] at hr
    rcases hr with hold | rfl
    · refine (h.shape r (hpre r hold)).imp_right (Or.imp_right ?_)
      rintro ⟨other, hmem, heq⟩
      exact ⟨other, mem_cons_of_mem vm hmem, heq⟩
    · exact .inr (.inr ⟨vm, mem_cons_self, rfl⟩)
  · intro after ha p hp
    rw [hf', Option.some.injEq] at ha
    subst ha
    exact (h.guarded rules hf p hp).append _
  · intro ip
    have hs := h.first ip
    rw [hf, Option.getD_some] at hs
    rw [hf', Option.getD_some, findSome?_append, hs, chainOf]
    simp [jumpFrom, jump]
  · intro other hmem p hins cs depth
    by_cases heq : vmChain other.name = vmChain vm.name
    · rw [heq, hl, Option.getD_some]
      exact h.inside_add hi ht hbase hins
    rcases mem_cons.1 hmem with rfl | hmem
    · exact absurd rfl heq
    · rw [ho other hmem heq, h.inside other hmem p hins,
        chainVerdict_of_older ⟨other, hmem, rfl⟩]
  · intro other hmem p ho1 cs depth
    by_cases heq : vmChain other.name = vmChain vm.name
    · rw [heq, hl, Option.getD_some]
      exact h.outside_add hbase ho1
    rcases mem_cons.1 hmem with rfl | hmem
    · exact absurd rfl heq
    · rw [ho other hmem heq]
      exact h.outside other hmem p ho1 cs depth
  · exact forall_mem_cons.2 ⟨hbase, h.own⟩
  · intro chain hc hvms
    obtain ⟨hvm, hvms⟩ := forall_mem_cons.1 hvms
    rw [hsame chain (Ne.symm hvm) hc]
    exact h.fresh chain hc hvms

theorem jump_holds :
    (jump { source := some (.host ip) } chain).condition.holds p = true ↔ ip = p.source := by
  simp [jump, PacketMatch.holds, AddressMatch.contains]

theorem NftRoutes.decides_of_not_jump {r : FirewallRule} (hnew : p.state = .new)
    (hb : ¬ ClusterBound config p) (hr : r ∈ clusterDrops config ∨ r = acceptEstablished) :
    r.decides holds cs p depth = none := by
  rcases hr with hdrop | rfl
  · have hnone := @evaluate_clusterDrops config p cs depth
    rw [if_neg hb] at hnone
    exact findSome?_eq_none_iff.1 hnone r hdrop
  · exact decides_of_not_holds (acceptEstablished_not_holds hnew)

theorem NftRoutes.evaluate_inside (h : NftRoutes config vms fw) (hnew : p.state = .new)
    (hb : ¬ ClusterBound config p) (hins : config.vmNetwork.contains p.destination = true) :
    evaluate holds (fun c => fw.chains[c]?.getD []) p (depth + 1)
      (fw.chains["vm_forward"]?.getD []) =
        (chainOf vms p.source).map (chainVerdict config vms p.destination) := by
  rw [← h.first, map_findSome?]
  refine evaluate_eq fun r hr => ?_
  rw [Function.comp_apply]
  rcases h.shape r hr with hdrop | rfl | ⟨vm, hvm, rfl⟩
  · rw [NftRoutes.decides_of_not_jump hnew hb (.inl hdrop)]
    obtain ⟨network, -, rfl⟩ := mem_map.1 hdrop
    rfl
  · rw [NftRoutes.decides_of_not_jump hnew hb (.inr rfl)]
    rfl
  by_cases hs : vm.ip = p.source
  · rw [decides_of_jump (jump_holds.2 hs) rfl, h.inside vm hvm p hins]
    simp [jumpFrom, jump, hs]
  · rw [decides_of_not_holds (by simpa using mt jump_holds.1 hs)]
    simp [jumpFrom, jump, hs]

theorem NftRoutes.evaluate_outside (h : NftRoutes config vms fw) (hnew : p.state = .new)
    (hb : ¬ ClusterBound config p) (ho : config.vmNetwork.contains p.destination = false) :
    evaluate holds (fun c => fw.chains[c]?.getD []) p (depth + 1)
      (fw.chains["vm_forward"]?.getD []) ≠ some .drop := by
  intro hdrop
  obtain ⟨r, hr, hdec⟩ := exists_decides hdrop
  rcases h.shape r hr with hf | hf | ⟨vm, hvm, rfl⟩
  · rw [NftRoutes.decides_of_not_jump hnew hb (.inl hf)] at hdec
    cases hdec
  · rw [NftRoutes.decides_of_not_jump hnew hb (.inr hf)] at hdec
    cases hdec
  by_cases hs : vm.ip = p.source
  · rw [decides_of_jump (jump_holds.2 hs) rfl] at hdec
    exact h.outside vm hvm p ho _ _ hdec
  · rw [decides_of_not_holds (by simpa using mt jump_holds.1 hs)] at hdec
    cases hdec

theorem NftRoutes.accepts_iff (h : NftRoutes config vms fw) (hnew : p.state = .new)
    (hs : ∃ vm ∈ vms, vm.ip = p.source) (hb : config.backend = .nftables) :
    (evaluate holds (fun c => fw.chains[c]?.getD []) p (depth + 1)
      (fw.chains["vm_forward"]?.getD [])).getD .accept = .accept ↔ Reaches config vms p := by
  simp only [Reaches, hb]
  by_cases hn : ClusterBound config p
  · obtain ⟨vm, hvm, -⟩ := hs
    cases hf : fw.chains["vm_forward"]? with
    | none => simp [h.absent hf] at hvm
    | some rules =>
      rw [Option.getD_some, (h.guarded rules hf p hn).evaluate]
      simp [hn]
  · cases hi : config.vmNetwork.contains p.destination with
    | false =>
      have hnot := @NftRoutes.evaluate_outside _ _ _ _ depth h hnew hn hi
      rcases hv : evaluate holds _ p (depth + 1) _ with _ | _ | _
      · simp [hn]
      · simp [hn]
      · exact absurd hv hnot
    | true =>
      obtain ⟨vm, hvm, hip⟩ := hs
      rw [h.evaluate_inside hnew hn hi, ← hip]
      cases hc : chainOf vms vm.ip with
      | none => exact absurd hc (chainOf_ne_none hvm)
      | some chain =>
        simp only [Option.map_some, Option.getD_some, chainVerdict]
        simp [hn]

end NetworkIsolation

/-! ## Runs -/

def IsolationCall.isRemoval : IsolationCall → Bool
  | .removeVmRules .. => true
  | _ => false

namespace WatchedHost

variable {config : NetworkIsolationConfig} {deletesFull : Bool} {w : WatchedHost}

/-- The call succeeds, and removes no machine. -/
def Grows (deletesFull : Bool) (w : WatchedHost) (c : IsolationCall) : Prop :=
  (w.host.call deletesFull c).2 = .ok () ∧ c.isRemoval = false

instance (c : IsolationCall) : Decidable (Grows deletesFull w c) :=
  inferInstanceAs (Decidable (_ ∧ _))

/-- What the rules say of every machine is known. -/
structure Routed (config : NetworkIsolationConfig) (w : WatchedHost) : Prop where
  config_eq : w.host.manager.config = config
  tracks : Tracks w.host.manager w.live
  iptables : config.backend = .iptables → IptablesRoutes config w.live w.host.firewall
  nft : config.backend = .nftables → NftRoutes config w.live w.host.firewall

theorem routed_start : Routed config (start config) := by
  refine ⟨rfl, ?_, fun hb => ?_, fun hb => ?_⟩
  · intro tn ip
    have hnone : (start config).host.manager.tenantIps tn = [] := by
      simp [start, IsolatedHost.start, NetworkIsolationManager.tenantIps]
    rw [hnone]
    simp [start]
  · simp only [start, IsolatedHost.start, hb]
    constructor
    · simp only [Table.get_insert]
      simp
    · simp
    · simp
  · simp only [start, IsolatedHost.start, hb]
    constructor <;> simp [chainOf]

open NetworkIsolationManager IsolatedHost in
theorem Routed.step {c : IsolationCall} (hi : config.tenantIsolation = true)
    (h : Routed config w) (hg : Grows deletesFull w c) :
    Routed config (w.step deletesFull c) := by
  have hc := h.config_eq
  obtain ⟨hok, hsty⟩ := hg
  cases c with
  | initializeRules env =>
    refine ⟨hc, h.tracks, fun hb => ?_, fun hb => ?_⟩
    · exact (h.iptables hb).init (runScript_of_runs (hc ▸ hb)
        (initScript_iptables hc hb) hok)
    · exact (h.nft hb).init (runScript_of_runs (hc ▸ hb)
        (initScript_nftables hc hb) hok)
  | addVmRules env vmName vmIp tid =>
    have ht := @Tracks.add _ ⟨vmName, vmIp, tid⟩ _ h.tracks
    refine ⟨hc, ht, fun hb => ?_, fun hb => ?_⟩
    · exact (h.iptables hb).add hi ht
        (runScript_of_runs (hc ▸ hb)
        (addScript_iptables vmName vmIp tid hc hb) hok)
    · exact (h.nft hb).add hi ht
        (runScript_of_runs (hc ▸ hb)
        (addScript_nftables vmName vmIp tid hc hb) hok)
  | removeVmRules => cases hsty

theorem Routed.forwardVerdict_iff (h : Routed config w) {x : LiveVm} (hx : x ∈ w.live)
    {p : Packet} (hs : p.source = x.ip) (hnew : p.state = .new) (depth : ℕ) :
    w.host.forwardVerdict (depth + 1) p = some .accept ↔ Reaches config w.live p := by
  have hr : ∃ vm ∈ w.live, vm.ip = p.source := ⟨x, hx, hs.symm⟩
  have hlive : w.live ≠ [] := ne_nil_of_mem hx
  unfold IsolatedHost.forwardVerdict
  rw [h.config_eq]
  cases hb : config.backend with
  | iptables =>
    rw [← iptablesVerdict_eq_accept hr hb, ← (h.iptables hb).evaluate hlive hnew]
    rfl
  | nftables =>
    have hp : "vm_forward" ∈ w.host.firewall.chains := by
      by_contra hnone
      exact hlive ((h.nft hb).absent (Std.ExtTreeMap.getElem?_eq_none hnone))
    simp only [hp, if_true, Option.some.injEq]
    exact (h.nft hb).accepts_iff hnew hr hb

/-- **Who reaches whom**: with `tenant_isolation`, after successful calls that remove no machine,
    exactly the new connections that `Reaches` describes are accepted within a tenant. -/
theorem accepted_iff (config : NetworkIsolationConfig) (deletesFull : Bool)
    (calls : List IsolationCall) (hisolation : config.tenantIsolation = true)
    (hgrows : Run.Along (step deletesFull) (Grows deletesFull) (start config) calls) :
    ∀ w ∈ calls.scanl (step deletesFull) (start config), ∀ x ∈ w.live, ∀ z ∈ w.live,
      x.tenant = z.tenant → ∀ p : Packet, p.source = x.ip → p.destination = z.ip →
      p.state = .new → ∀ depth,
        (w.host.forwardVerdict (depth + 1) p = some .accept ↔ Reaches config w.live p) := by
  intro w hw x hx z _ _ p hsource _ hnew depth
  have hrouted := Run.invariant (fun _ _ h hc => h.step hisolation hc) routed_start hgrows w hw
  exact hrouted.forwardVerdict_iff hx hsource hnew depth

def oneTenant : List IsolationCall :=
  [.initializeRules working, .addVmRules working "web" (ipv4 10 0 0 5) "acme",
    .addVmRules working "db" (ipv4 10 0 0 6) "acme"]

theorem accepted_second : Run.Along (step false) (Grows false) (start .default) oneTenant ∧
      Reaches .default (oneTenant.foldl (step false) (start .default)).live
        (newTo (ipv4 10 0 0 6) (ipv4 10 0 0 5) 443) ∧
      (oneTenant.foldl (step false) (start .default)).host.forwardVerdict 1
        (newTo (ipv4 10 0 0 6) (ipv4 10 0 0 5) 443) = some .accept := by
  have hgrows : Run.Along (step false) (Grows false) (start .default) oneTenant := by
    decide +kernel
  have hreaches : Reaches .default (oneTenant.foldl (step false) (start .default)).live
      (newTo (ipv4 10 0 0 6) (ipv4 10 0 0 5) 443) := by
    refine ⟨by decide +kernel, fun _ => ⟨rfl, "vm_db", by decide +kernel, by decide +kernel⟩⟩
  refine ⟨hgrows, hreaches, ?_⟩
  exact (accepted_iff .default false oneTenant rfl hgrows _ (Run.foldl_mem_scanl _ _)
    ⟨"db", ipv4 10 0 0 6, "acme"⟩ (by decide +kernel) ⟨"web", ipv4 10 0 0 5, "acme"⟩
    (by decide +kernel) rfl _ rfl rfl rfl 0).2 hreaches

/-- **The first one does not get to the second**, with either backend. -/
theorem dropped_within_tenant :
    let iptables := { NetworkIsolationConfig.default with backend := .iptables }
    let connection := newTo (ipv4 10 0 0 5) (ipv4 10 0 0 6) 443
    (Run.Along (step false) (Grows false) (start .default) oneTenant ∧
      (oneTenant.foldl (step false) (start .default)).host.forwardVerdict 1 connection =
        some .drop) ∧
    Run.Along (step false) (Grows false) (start iptables) oneTenant ∧
      (oneTenant.foldl (step false) (start iptables)).host.forwardVerdict 1 connection =
        none := by
  refine ⟨⟨?_, ?_⟩, ?_, ?_⟩ <;> decide +kernel

end WatchedHost

end Blixard
