/-
  Tenants are kept apart, in runs in which no address and no chain comes to another tenant, and
  without allowed ports where they break the isolation (`isolated_along`).

  A `WatchedHost` notes to which tenants they were last given.
-/
import Blixard.NetworkIsolation.Scripts

namespace Blixard

open RuleChains NetworkIsolation Function List PacketMatch Table

structure LiveVm where
  name : String
  ip : IpAddr
  tenant : String
  deriving DecidableEq

/-- A host with the machines that are there, and the tenants to which addresses and chains of
    machines were last given. -/
structure WatchedHost where
  host : IsolatedHost
  live : List LiveVm
  owner : IpAddr → Option String
  chainOwner : String → Option String

namespace WatchedHost

def start (config : NetworkIsolationConfig) : WatchedHost where
  host := IsolatedHost.start config [] [] []
  live := []
  owner := fun _ => none
  chainOwner := fun _ => none

variable (deletesFull : Bool) (w : WatchedHost)

def step (c : IsolationCall) : WatchedHost :=
  let host := w.host.step deletesFull c
  match c with
  | .initializeRules _ => { w with host }
  | .addVmRules _ vmName vmIp tenantId =>
    { host
      live := ⟨vmName, vmIp, tenantId⟩ :: w.live
      owner := Function.update w.owner vmIp (some tenantId)
      chainOwner := Function.update w.chainOwner (vmChain vmName) (some tenantId) }
  | .removeVmRules _ vmName vmIp tenantId =>
    { w with host, live := w.live.filter (· ≠ ⟨vmName, vmIp, tenantId⟩) }

/-- The call succeeds, and machines have addresses in their network and names and addresses of
    their own. -/
def Allowed (c : IsolationCall) : Prop :=
  (w.host.call deletesFull c).2 = .ok () ∧
    match c with
    | .addVmRules _ vmName vmIp _ =>
      w.host.manager.config.vmNetwork.contains vmIp = true ∧
        ∀ vm ∈ w.live, vm.name ≠ vmName ∧ vm.ip ≠ vmIp
    | _ => True

def Isolated : Prop :=
  ∀ x ∈ w.live, ∀ z ∈ w.live, x.tenant ≠ z.tenant → ∀ p : Packet, p.source = x.ip →
    p.destination = z.ip → p.state = .new → ∀ depth, w.host.forwardVerdict depth p ≠ some .accept

/-- Addresses and live `nft` chains come to no other tenant, `iptables` lets nothing through before
    the other machines are barred, and `nft` removes a machine only with an address of its own and a
    chain that is not the manager's. -/
def Separates (c : IsolationCall) : Prop :=
  let config := w.host.manager.config
  match c with
  | .initializeRules _ => True
  | .addVmRules _ vmName vmIp tenantId =>
    (w.owner vmIp = none ∨ w.owner vmIp = some tenantId) ∧
      (config.backend = .iptables → config.interVmIsolation = true ∨ outboundPorts config = []) ∧
      (config.backend = .nftables → vmChain vmName ∈ w.host.firewall.chains →
        w.chainOwner (vmChain vmName) = some tenantId)
  | .removeVmRules _ vmName vmIp tenantId =>
    config.backend = .nftables →
      (∀ vm ∈ w.live, vm.ip = vmIp → vm = ⟨vmName, vmIp, tenantId⟩) ∧
        vmChain vmName ∉ ["vm_input", "vm_output", "vm_forward"]

instance (c : IsolationCall) : Decidable (w.Allowed deletesFull c) :=
  match c with
  | .initializeRules _ => inferInstanceAs (Decidable (_ ∧ True))
  | .addVmRules _ vmName vmIp _ => inferInstanceAs (Decidable (_ ∧
      w.host.manager.config.vmNetwork.contains vmIp = true ∧
        ∀ vm ∈ w.live, vm.name ≠ vmName ∧ vm.ip ≠ vmIp))
  | .removeVmRules .. => inferInstanceAs (Decidable (_ ∧ True))

instance (c : IsolationCall) : Decidable (w.Separates c) :=
  match c with
  | .initializeRules _ => inferInstanceAs (Decidable True)
  | .addVmRules .. => inferInstanceAs (Decidable (_ ∧ (_ → _) ∧ (_ → _ → _)))
  | .removeVmRules .. => inferInstanceAs (Decidable (_ → _ ∧ _))

end WatchedHost

namespace NetworkIsolation

variable {config : NetworkIsolationConfig} {owner owner' : IpAddr → Option String}
  {deletesFull : Bool} {env : CommandEnv} {fw fw' : Firewall} {p : Packet}

/-! ## `iptables` -/

/-- A new connection to a machine, not between machines of one tenant. -/
structure Apart (config : NetworkIsolationConfig) (owner : IpAddr → Option String) (p : Packet) :
    Prop where
  new : p.state = .new
  inside : config.vmNetwork.contains p.destination = true
  foreign : ¬ ∃ tenant, owner p.source = some tenant ∧ owner p.destination = some tenant

theorem Apart.mono (h : Apart config owner' p)
    (hmono : ∀ ip tn, owner ip = some tn → owner' ip = some tn) : Apart config owner p where
  new := h.new
  inside := h.inside
  foreign := by
    rintro ⟨tn, hs, hd⟩
    exact h.foreign ⟨tn, hmono _ _ hs, hmono _ _ hd⟩

theorem acceptEstablished_not_holds (h : p.state = .new) :
    acceptEstablished.condition.holds p = false := by
  simp [acceptEstablished, accept, holds, h]

/-- All packets go to the rules of the manager, which accept none that should not pass. -/
structure IptablesApart (config : NetworkIsolationConfig) (owner : IpAddr → Option String)
    (fw : Firewall) : Prop where
  hooks : ∀ r ∈ fw.chains["FORWARD"]?.getD [], r.target = .jump "BLIXARD_VM_FWD"
  quiet : ∀ p, Apart config owner p →
    NeverAccepts PacketMatch.holds p (fw.chains["BLIXARD_VM_FWD"]?.getD [])

theorem IptablesApart.init (h : IptablesApart config owner fw)
    (hok : runScript (tool deletesFull .iptables) .iptables env fw (initIptables config) =
      (fw', .ok ())) : IptablesApart config owner fw' := by
  obtain ⟨hl, hf⟩ := initIptables_rules hok
  constructor
  · rw [hf, Option.getD_some, forall_mem_cons]
    exact ⟨rfl, h.hooks⟩
  intro p hp
  rw [hl, Option.getD_some]
  refine (h.quiet p hp).append (neverAccepts_of_forall fun r hr hd => ?_)
  rcases mem_append.1 hr with hdrop | he
  · obtain ⟨network, -, rfl⟩ := mem_map.1 hdrop
    rfl
  · rw [mem_singleton.1 he, acceptEstablished_not_holds hp.new] at hd
    cases hd

variable {r : FirewallRule} {vmIp : IpAddr}

theorem source_of_holds
    (hr : r ∈ vmBarrier config vmIp ++ vmAccess config vmIp) (h : r.condition.holds p = true) :
    vmIp = p.source := by
  have hs : r.condition.source = some (.host vmIp) := by
    simp only [vmBarrier, vmAccess, List.mem_append, List.mem_map, List.mem_ite_nil_right,
      List.mem_singleton] at hr
    rcases hr with ⟨-, rfl⟩ | ⟨port, -, rfl⟩ | ⟨-, rfl⟩ <;> rfl
  simp only [PacketMatch.holds, hs, Option.all_some, AddressMatch.contains, Bool.and_eq_true,
    decide_eq_true_eq] at h
  exact h.1.1.1.1

theorem vmBarrier_access_neverAccepts
    (hp : config.interVmIsolation = true ∨ outboundPorts config = [])
    (hins : config.vmNetwork.contains p.destination = true) :
    NeverAccepts PacketMatch.holds p (vmBarrier config vmIp ++ vmAccess config vmIp) := by
  rcases hp with hb | hp
  · by_cases hs : vmIp = p.source
    · have hd : FirstDrops PacketMatch.holds p (vmBarrier config vmIp) := by
        rw [vmBarrier, if_pos hb]
        refine firstDrops_of_forall (by simp [drop]) ⟨_, List.mem_singleton_self _, ?_⟩
        simp [drop, PacketMatch.holds, AddressMatch.contains, hs, hins]
      exact (hd.append _).neverAccepts
    · exact neverAccepts_of_forall fun r hr hl => absurd (source_of_holds hr hl) hs
  · refine neverAccepts_of_forall fun r hr hl => ?_
    simp only [vmBarrier, vmAccess, hp, List.map_nil, List.nil_append, List.mem_append,
      List.mem_ite_nil_right, List.mem_singleton] at hr
    rcases hr with ⟨-, rfl⟩ | ⟨-, rfl⟩
    · rfl
    · simp [accept, PacketMatch.holds, hins] at hl

theorem tenantAccess_not_holds {ips : List IpAddr} {tn : String}
    (hr : r ∈ tenantAccess config ips vmIp)
    (hvm : owner vmIp = some tn) (hips : ∀ ip ∈ ips, owner ip = some tn)
    (hp : Apart config owner p) : r.condition.holds p ≠ true := by
  intro hl
  simp only [tenantAccess, List.mem_ite_nil_right, List.mem_map] at hr
  obtain ⟨-, ip, hip, rfl⟩ := hr
  simp only [accept, PacketMatch.holds, Option.all_some, AddressMatch.contains, Option.all_none,
    Bool.and_true, Bool.and_eq_true, decide_eq_true_eq] at hl
  refine hp.foreign ⟨tn, ?_, ?_⟩
  · rw [← hl.1.1, hvm]
  · rw [← hl.1.2, hips ip (List.mem_of_mem_filter hip)]

theorem IptablesApart.add {ips : List IpAddr} {vmIp : IpAddr} {tn : String}
    (h : IptablesApart config owner fw)
    (ht : config.interVmIsolation = true ∨ outboundPorts config = [])
    (hmono : ∀ ip tn, owner ip = some tn → owner' ip = some tn)
    (hvm : owner' vmIp = some tn) (hips : ∀ ip ∈ ips, owner' ip = some tn)
    (hok : runScript (tool deletesFull .iptables) .iptables env fw
      (addVmIptablesRules config ips vmIp) = (fw', .ok ())) : IptablesApart config owner' fw' := by
  obtain ⟨hf, hl⟩ := addVmIptablesRules_rules hok
  constructor
  · rw [hf]
    exact h.hooks
  intro p hp
  have hold := h.quiet p (hp.mono hmono)
  rw [hl]
  cases hb : fw.chains["BLIXARD_VM_FWD"]? with
  | none => exact neverAccepts_of_forall fun r hr => absurd hr not_mem_nil
  | some rules =>
    rw [hb, Option.getD_some] at hold
    rw [Option.map_some, Option.getD_some]
    have hn : NeverAccepts holds p
        (tenantAccess config ips vmIp).reverse :=
      neverAccepts_of_forall fun r hr hd =>
        absurd hd (tenantAccess_not_holds (mem_reverse.1 hr) hvm hips hp)
    exact hn.append (hold.append (vmBarrier_access_neverAccepts ht hp.inside))

theorem IptablesApart.remove {vmIp : IpAddr} (h : IptablesApart config owner fw)
    (hok : runScript (tool deletesFull .iptables) .iptables env fw (removeVmIptablesRules vmIp) =
      (fw', .ok ())) : IptablesApart config owner fw' := by
  have hfw' : (runScript _ _ env fw _).1 = fw' := congrArg Prod.fst hok
  rw [← hfw']
  refine runScript_keeps (fun fw fw' entry hent hfw hrun => ?_) h
  obtain ⟨cmd, hc, rfl⟩ := mem_map.1 hent
  cases mem_singleton.1 hc
  constructor
  · rw [run_get hrun, effect_of_not_about (by simp [Command.About])]
    exact hfw.hooks
  · rw [run_get hrun, effect_of_not_about (by simp [Command.About])]
    exact hfw.quiet

/-! ## `nft` -/

section
variable {chainOwner chainOwner' : String → Option String} {live : List LiveVm}

/-- The rules that are in `vm_forward`: of those for machines, both the address and the chain
    belong to one tenant. -/
inductive ForwardRule (owner : IpAddr → Option String) (chainOwner : String → Option String)
    (fw : Firewall) : FirewallRule → Prop
  | drop {r : FirewallRule} (h : r.target = .verdict .drop) : ForwardRule owner chainOwner fw r
  | established : ForwardRule owner chainOwner fw acceptEstablished
  | jump {ip : IpAddr} {chain : String} {tenant : String} (hip : owner ip = some tenant)
    (hchain : chainOwner chain = some tenant) (hmem : chain ∈ fw.chains) :
    ForwardRule owner chainOwner fw (jump { source := some (.host ip) } chain)

/-- The chain of a machine of a tenant drops what goes to machines of others. -/
structure NftApart (config : NetworkIsolationConfig) (owner : IpAddr → Option String)
    (chainOwner : String → Option String) (live : List LiveVm) (fw : Firewall) : Prop where
  forward : ∀ r ∈ fw.chains["vm_forward"]?.getD [], ForwardRule owner chainOwner fw r
  chains : ∀ chain tenant rules, chainOwner chain = some tenant → fw.chains[chain]? = some rules →
    ∀ p, config.vmNetwork.contains p.destination = true → owner p.destination ≠ some tenant →
      FirstDrops PacketMatch.holds p rules
  own : ∀ chain tenant, chainOwner chain = some tenant →
    chain ∉ ["vm_input", "vm_output", "vm_forward"]
  hooked : ∀ vm ∈ live, jump { source := some (.host vm.ip) } (vmChain vm.name) ∈
    fw.chains["vm_forward"]?.getD []

variable {r : FirewallRule} {depth : ℕ}

theorem ForwardRule.mono (h : ForwardRule owner chainOwner fw r)
    (hown : ∀ ip tn, owner ip = some tn → owner' ip = some tn)
    (hc : ∀ chain tn, chainOwner chain = some tn → chain ∈ fw.chains →
      chainOwner' chain = some tn ∧ chain ∈ fw'.chains) : ForwardRule owner' chainOwner' fw' r := by
  cases h with
  | drop h => exact .drop h
  | established => exact .established
  | jump hip ha hmem =>
    obtain ⟨hc', hmem'⟩ := hc _ _ ha hmem
    exact .jump (hown _ _ hip) hc' hmem'

theorem NftApart.init (h : NftApart config owner chainOwner live fw)
    (hok : runScript (tool deletesFull .nftables) .nftables env fw (initNftables config) =
      (fw', .ok ())) : NftApart config owner chainOwner live fw' := by
  have hf := @initNftables_rules env fw fw' config deletesFull "vm_forward" hok
  rw [if_neg (by simp), if_pos rfl] at hf
  have hsame : ∀ chain tn, chainOwner chain = some tn →
      fw'.chains[chain]? = fw.chains[chain]? := by
    intro chain tn hc
    have hown := h.own chain tn hc
    simp only [mem_cons, not_mem_nil, or_false, not_or] at hown
    rw [initNftables_rules hok, if_neg (by simp [hown]), if_neg hown.2.2]
  constructor
  · intro r hr
    rw [hf, Option.getD_some, mem_append, mem_append] at hr
    rcases hr with hold | hdrop | he
    · refine (h.forward r hold).mono (fun _ _ hip => hip) fun chain tn hc hmem => ?_
      obtain ⟨rules, hl⟩ := (mem_iff _ _).1 hmem
      exact ⟨hc, (mem_iff _ _).2 ⟨rules, (hsame chain tn hc).trans hl⟩⟩
    · obtain ⟨network, -, rfl⟩ := mem_map.1 hdrop
      exact .drop rfl
    · rw [mem_singleton.1 he]
      exact .established
  · intro chain tn rules hc hl
    rw [hsame chain tn hc] at hl
    exact h.chains chain tn rules hc hl
  · exact h.own
  · intro vm hvm
    rw [hf, Option.getD_some]
    exact mem_append_left _ (h.hooked vm hvm)

theorem vmRules_firstDrops {ips : List IpAddr} {vmIp : IpAddr} {tn : String}
    (hi : config.tenantIsolation = true) (hips : ∀ ip ∈ ips, owner ip = some tn)
    (hins : config.vmNetwork.contains p.destination = true) (ho : owner p.destination ≠ some tn) :
    FirstDrops PacketMatch.holds p (vmRules config ips vmIp) := by
  have hdrop : FirstDrops PacketMatch.holds p
      [NetworkIsolation.drop { destination := some (.net config.vmNetwork) }] := by
    refine firstDrops_of_forall (by simp [NetworkIsolation.drop])
      ⟨_, List.mem_singleton_self _, ?_⟩
    simp [NetworkIsolation.drop, PacketMatch.holds, AddressMatch.contains, hins]
  have hacc : ∀ r ∈ (ips.filter (· ≠ vmIp)).map (fun allowedIp =>
      accept { destination := some (.host allowedIp) }), r.condition.holds p = false := by
    intro r hr
    obtain ⟨ip, hip, rfl⟩ := List.mem_map.1 hr
    have hne : ip ≠ p.destination := by
      rintro rfl
      exact ho (hips _ (List.mem_of_mem_filter hip))
    simp [accept, PacketMatch.holds, AddressMatch.contains, hne]
  unfold vmRules
  rw [if_pos hi]
  refine FirstDrops.append (FirstDrops.append ?_ _) _
  split_ifs
  · exact hdrop.append _
  · exact hdrop.prepend hacc

theorem NftApart.add {ips : List IpAddr} {vmName : String} {vmIp : IpAddr} {tn : String}
    (h : NftApart config owner chainOwner live fw) (hi : config.tenantIsolation = true)
    (hc : vmChain vmName ∈ fw.chains → chainOwner (vmChain vmName) = some tn)
    (hmono : ∀ ip tn, owner ip = some tn → owner' ip = some tn)
    (hvm : owner' vmIp = some tn) (hips : ∀ ip ∈ ips, owner' ip = some tn)
    (hok : runScript (tool deletesFull .nftables) .nftables env fw
      (addVmNftablesRules config ips vmName vmIp) = (fw', .ok ())) :
    NftApart config owner' (update chainOwner (vmChain vmName) (some tn))
      (⟨vmName, vmIp, tn⟩ :: live) fw' := by
  obtain ⟨hbase, ⟨rules, hf, hf'⟩, hl, hsame⟩ := addVmNftablesRules_rules hok
  have hkept : ∀ chain tenant', chainOwner chain = some tenant' → chain ∈ fw.chains →
      update chainOwner (vmChain vmName) (some tn) chain = some tenant' ∧
        chain ∈ fw'.chains := by
    intro chain tenant' hown hmem
    by_cases heq : chain = vmChain vmName
    · subst heq
      rw [update_self, ← hc hmem]
      exact ⟨hown, (mem_iff _ _).2 ⟨_, hl⟩⟩
    rw [update_of_ne heq]
    obtain ⟨pre, hpre⟩ := (mem_iff _ _).1 hmem
    refine ⟨hown, (mem_iff _ _).2 ⟨pre, ?_⟩⟩
    rw [hsame chain heq (h.own chain tenant' hown), hpre]
  constructor
  · intro r hr
    rw [hf', Option.getD_some, mem_append] at hr
    rcases hr with hold | hnew
    · exact (h.forward r (by rw [hf]; exact hold)).mono hmono hkept
    · rw [mem_singleton.1 hnew]
      exact .jump hvm (update_self _ _ _) ((mem_iff _ _).2 ⟨_, hl⟩)
  · intro chain tenant' after hown ha p hins ho
    by_cases heq : chain = vmChain vmName
    · subst heq
      rw [update_self] at hown
      cases hown
      rw [hl] at ha
      cases ha
      cases hpre : fw.chains[vmChain vmName]? with
      | none => exact vmRules_firstDrops hi hips hins ho
      | some pre =>
        have hmem := (mem_iff _ _).2 ⟨pre, hpre⟩
        exact (h.chains _ _ _ (hc hmem) hpre p hins fun heq =>
          ho (hmono _ _ heq)).append _
    · rw [update_of_ne heq] at hown
      rw [hsame chain heq (h.own chain tenant' hown)] at ha
      exact h.chains _ _ _ hown ha p hins fun heq => ho (hmono _ _ heq)
  · intro chain tenant' hown
    by_cases heq : chain = vmChain vmName
    · exact heq ▸ hbase
    · rw [update_of_ne heq] at hown
      exact h.own chain tenant' hown
  · rw [hf', Option.getD_some, forall_mem_cons]
    refine ⟨mem_append_right _ (mem_singleton_self _), fun vm hvm => ?_⟩
    have hold := h.hooked vm hvm
    rw [hf] at hold
    exact mem_append_left _ hold

/-- Rules of `vm_forward` and chains to which none of them jumps can go away, but for those of
    machines that are there. -/
theorem NftApart.shrink (h : NftApart config owner chainOwner live fw)
    (hsub : ∀ r ∈ fw'.chains["vm_forward"]?.getD [], r ∈ fw.chains["vm_forward"]?.getD [])
    (hstay : ∀ vm ∈ live, jump { source := some (.host vm.ip) } (vmChain vm.name) ∈
      fw'.chains["vm_forward"]?.getD [])
    (hc : ∀ chain, chain ∉ ["vm_input", "vm_output", "vm_forward"] →
      fw'.chains[chain]? = fw.chains[chain]? ∨
        fw'.chains[chain]? = none ∧ fw.used chain = false) :
    NftApart config owner chainOwner live fw' where
  forward := by
    intro r hr
    have hold := hsub r hr
    cases h.forward r hold with
    | drop h => exact .drop h
    | established => exact .established
    | jump hip hn hmem =>
      refine .jump hip hn ?_
      rcases hc _ (h.own _ _ hn) with hsame | ⟨-, hu⟩
      · rw [mem_iff] at hmem ⊢
        rw [hsame]
        exact hmem
      cases hf : fw.chains["vm_forward"]? with
      | none => simp [hf] at hold
      | some rules =>
        rw [hf, Option.getD_some] at hold
        rw [used_of_jump hf hold rfl] at hu
        cases hu
  chains := by
    intro chain tn rules hn hl
    rcases hc chain (h.own _ _ hn) with hsame | ⟨hnone, -⟩
    · rw [hsame] at hl
      exact h.chains chain tn rules hn hl
    · rw [hnone] at hl
      cases hl
  own := h.own
  hooked := hstay

theorem NftApart.remove {vmName : String} {vmIp : IpAddr}
    (h : NftApart config owner chainOwner live fw) (hlive : ∀ vm ∈ live, vm.ip ≠ vmIp)
    (hbase : vmChain vmName ∉ ["vm_input", "vm_output", "vm_forward"])
    (hok : runScript (tool deletesFull .nftables) .nftables env fw
      (removeVmNftablesRules vmName vmIp) = (fw', .ok ())) :
    NftApart config owner chainOwner live fw' := by
  have hfw' : (runScript _ _ env fw _).1 = fw' := congrArg Prod.fst hok
  rw [← hfw']
  refine runScript_keeps (fun fw fw' entry hent hfw hrun => ?_) h
  obtain ⟨cmd, hc, rfl⟩ := mem_map.1 hent
  simp only [mem_cons, not_mem_nil, or_false] at hc hbase
  rcases hc with rfl | rfl | rfl
  · obtain ⟨pre, hpre, hget⟩ := run_deleteRule hrun
    have hf : fw'.chains["vm_forward"]? = _ := (hget "vm_forward").trans (if_pos rfl)
    refine hfw.shrink (fun r hr => ?_) (fun vm hvm => ?_) fun chain hn => ?_
    · rw [hf] at hr
      rw [hpre]
      exact mem_of_mem_erase hr
    · have hk := hfw.hooked vm hvm
      rw [hpre] at hk
      rw [hf]
      refine (mem_erase_of_ne fun heq => hlive vm hvm ?_).2 hk
      simpa [NetworkIsolation.jump] using congrArg (·.condition.source) heq
    · refine .inl ((hget chain).trans (if_neg ?_))
      rintro rfl
      simp at hn
  · obtain ⟨hu, -, hget⟩ := run_deleteChain hrun
    have hf : fw'.chains["vm_forward"]? = fw.chains["vm_forward"]? :=
      (hget "vm_forward").trans (if_neg fun heq => hbase (.inr (.inr heq)))
    refine hfw.shrink (fun r hr => hf ▸ hr) (fun vm hvm => ?_) fun chain hn => ?_
    · rw [hf]
      exact hfw.hooked vm hvm
    · by_cases heq : vmChain vmName = chain
      · exact .inr ⟨(hget chain).trans (if_pos heq), heq ▸ hu⟩
      · exact .inl ((hget chain).trans (if_neg heq))
  · obtain ⟨pre, -, hget⟩ := run_deleteRule hrun
    have hf : fw'.chains["vm_forward"]? = fw.chains["vm_forward"]? :=
      (hget "vm_forward").trans (if_neg (by simp))
    refine hfw.shrink (fun r hr => hf ▸ hr) (fun vm hvm => ?_) fun chain hn => ?_
    · rw [hf]
      exact hfw.hooked vm hvm
    · refine .inl ((hget chain).trans (if_neg ?_))
      rintro rfl
      simp at hn

/-- A `vm_forward` rule that applies to a new connection to another tenant's machine drops it: a
    jump leads to a chain of the sender's tenant. -/
theorem NftApart.decides
    (h : NftApart config owner chainOwner live fw) (hr : ForwardRule owner chainOwner fw r)
    (hp : Apart config owner p) (hl : r.condition.holds p = true) :
    r.decides PacketMatch.holds (fun c => fw.chains[c]?.getD []) p depth = some .drop := by
  cases hr with
  | drop ht => exact decides_of_verdict hl ht
  | established =>
    rw [acceptEstablished_not_holds hp.new] at hl
    cases hl
  | @jump ip chain tenant hip hc hmem =>
    have hs : ip = p.source := by
      simpa [NetworkIsolation.jump, PacketMatch.holds, AddressMatch.contains] using hl
    obtain ⟨rules, hr1⟩ := (Table.mem_iff _ _).1 hmem
    have hd : FirstDrops PacketMatch.holds p (fw.chains[chain]?.getD []) := by
      rw [hr1, Option.getD_some]
      refine h.chains chain tenant rules hc hr1 p hp.inside fun hd1 => ?_
      exact hp.foreign ⟨tenant, hs ▸ hip, hd1⟩
    exact FirstDrops.decides_jump hd hl rfl

theorem NftApart.evaluate {vm : LiveVm}
    (h : NftApart config owner chainOwner live fw) (hvm : vm ∈ live) (hs : p.source = vm.ip)
    (hp : Apart config owner p) :
    evaluate PacketMatch.holds (fun c => fw.chains[c]?.getD []) p depth
      (fw.chains["vm_forward"]?.getD []) = some .drop := by
  refine evaluate_eq_drop (fun r hr hacc => ?_) ⟨_, h.hooked vm hvm, ?_⟩
  · cases hl : r.condition.holds p with
    | false =>
      rw [decides_of_not_holds hl] at hacc
      cases hacc
    | true =>
      rw [h.decides (h.forward r hr) hp hl] at hacc
      cases hacc
  · refine h.decides (h.forward _ (h.hooked vm hvm)) hp ?_
    simp [NetworkIsolation.jump, PacketMatch.holds, AddressMatch.contains, hs]

end

end NetworkIsolation

/-! ## Runs -/

namespace WatchedHost

variable {config : NetworkIsolationConfig} {deletesFull : Bool} {w : WatchedHost}

structure Separated (config : NetworkIsolationConfig) (w : WatchedHost) : Prop where
  config_eq : w.host.manager.config = config
  owned : ∀ vm ∈ w.live, w.owner vm.ip = some vm.tenant ∧
    config.vmNetwork.contains vm.ip = true
  tenants : ∀ tenant, ∀ ip ∈ w.host.manager.tenantIps tenant, w.owner ip = some tenant
  iptables : config.backend = .iptables → IptablesApart config w.owner w.host.firewall
  nft : config.backend = .nftables →
    NftApart config w.owner w.chainOwner w.live w.host.firewall

theorem separated_start : Separated config (start config) := by
  constructor
  · rfl
  · simp [start]
  · intro tn ip hip
    have hnone : ip ∈ (∅ : Table String (List IpAddr))[tn]?.getD [] := hip
    simp at hnone
  · intro hb
    simp only [start, IsolatedHost.start, hb]
    constructor
    · simp only [get_insert]
      simp
    · intro p hp chains depth
      simp [evaluate]
  · intro hb
    simp only [start, IsolatedHost.start, hb]
    constructor <;> simp

theorem Separated.isolated (h : Separated config w) : w.Isolated := by
  intro x hx z hz ht p hs hd hnew depth
  obtain ⟨hx', -⟩ := h.owned x hx
  obtain ⟨hz', hins⟩ := h.owned z hz
  rw [← hs] at hx'
  rw [← hd] at hz' hins
  have ha : Apart config w.owner p := by
    refine ⟨hnew, hins, ?_⟩
    rintro ⟨tn, hs', hd'⟩
    rw [hx'] at hs'
    rw [hz'] at hd'
    exact ht (Option.some.inj (hs'.trans hd'.symm))
  unfold IsolatedHost.forwardVerdict
  rw [h.config_eq]
  cases hb : config.backend with
  | iptables =>
    intro hacc
    obtain ⟨r, hr, hdec⟩ := exists_decides hacc
    have hq := (h.iptables hb).quiet p ha
    exact hq.decides_jump ((h.iptables hb).hooks r hr) hdec
  | nftables =>
    have hp : evaluate holds w.host.rulesOf p depth
        (w.host.rulesOf "vm_forward") = some .drop :=
      (h.nft hb).evaluate hx hs ha
    simp [hp]

theorem update_owner_mono {owner : IpAddr → Option String} {vmIp : IpAddr} {tenantId : String}
    (h : owner vmIp = none ∨ owner vmIp = some tenantId) (ip : IpAddr) (tenant : String)
    (hip : owner ip = some tenant) : update owner vmIp (some tenantId) ip = some tenant := by
  by_cases heq : ip = vmIp
  · subst heq
    rcases h with hnone | hsome
    · rw [hnone] at hip
      cases hip
    · rw [update_self, ← hsome, hip]
  · rw [update_of_ne heq, hip]

open NetworkIsolationManager IsolatedHost in
theorem Separated.step {c : IsolationCall} (hi : config.tenantIsolation = true)
    (h : Separated config w) (ha : w.Allowed deletesFull c) (hc : w.Separates c) :
    Separated config (w.step deletesFull c) := by
  have hn := h.config_eq
  obtain ⟨hok, ha⟩ := ha
  cases c with
  | initializeRules env =>
    refine ⟨hn, h.owned, h.tenants, fun hb => ?_, fun hb => ?_⟩
    · exact (h.iptables hb).init (runScript_of_runs (hn ▸ hb)
        (initScript_iptables hn hb) hok)
    · exact (h.nft hb).init (runScript_of_runs (hn ▸ hb)
        (initScript_nftables hn hb) hok)
  | addVmRules env vmName vmIp tenantId =>
    obtain ⟨hs, -⟩ := ha
    obtain ⟨hf, hp, hc1⟩ := hc
    rw [hn] at hs hp hc1
    have hmono := update_owner_mono hf
    have ht : ∀ tenant, ∀ ip ∈ (w.host.manager.addTenantIp vmIp tenantId).tenantIps tenant,
        update w.owner vmIp (some tenantId) ip = some tenant := by
      intro tenant ip hip
      rcases mem_tenantIps_add.1 hip with hold | ⟨rfl, rfl⟩
      · exact hmono ip tenant (h.tenants tenant ip hold)
      · exact update_self _ _ _
    refine ⟨hn, ?_, ht, fun hb => ?_, fun hb => ?_⟩
    · rintro vm (_ | ⟨_, hvm⟩)
      · exact ⟨update_self _ _ _, hs⟩
      · obtain ⟨hr, hw⟩ := h.owned vm hvm
        exact ⟨hmono _ _ hr, hw⟩
    · exact (h.iptables hb).add (hp hb) hmono (update_self _ _ _)
        (ht tenantId) (runScript_of_runs (hn ▸ hb)
        (addScript_iptables vmName vmIp tenantId hn hb) hok)
    · exact (h.nft hb).add hi (hc1 hb) hmono (update_self _ _ _)
        (ht tenantId) (runScript_of_runs (hn ▸ hb)
        (addScript_nftables vmName vmIp tenantId hn hb) hok)
  | removeVmRules env vmName vmIp tenantId =>
    have hsub : ∀ vm ∈ w.live.filter (· ≠ ⟨vmName, vmIp, tenantId⟩), vm ∈ w.live :=
      fun vm hvm => mem_of_mem_filter hvm
    have ht : ∀ tenant,
        ∀ ip ∈ (w.host.manager.removeTenantIp vmIp tenantId).tenantIps tenant,
        w.owner ip = some tenant := fun tenant ip hip =>
      h.tenants tenant ip (mem_tenantIps_remove hip)
    refine ⟨hn, fun vm hvm => h.owned vm (hsub vm hvm), ht, fun hb => ?_,
      fun hb => ?_⟩
    · exact (h.iptables hb).remove (runScript_of_runs (hn ▸ hb)
        (removeScript_iptables vmName vmIp hn hb) hok)
    obtain ⟨hown, hbase⟩ := hc (hn ▸ hb)
    have ho : NftApart config w.owner w.chainOwner
        (w.live.filter (· ≠ ⟨vmName, vmIp, tenantId⟩)) w.host.firewall :=
      { h.nft hb with hooked := fun vm hvm => (h.nft hb).hooked vm (hsub vm hvm) }
    refine ho.remove (fun vm hvm hip => ?_) hbase
      (runScript_of_runs (hn ▸ hb)
      (removeScript_nftables vmName vmIp hn hb) hok)
    exact absurd (hown vm (hsub vm hvm) hip) (by simpa using (mem_filter.1 hvm).2)

/-- **Tenants are kept apart**: with `tenant_isolation`, in every run of calls that separate the
    tenants, no new connection to a machine of another tenant is accepted. -/
theorem isolated_along (config : NetworkIsolationConfig) (deletesFull : Bool)
    (calls : List IsolationCall) (hisolation : config.tenantIsolation = true)
    (hallowed : Run.Along (step deletesFull) (Allowed deletesFull) (start config) calls)
    (hseparates : Run.Along (step deletesFull) Separates (start config) calls) :
    ∀ w ∈ calls.scanl (step deletesFull) (start config), w.Isolated := by
  intro w hw
  have hseparated := Run.invariant (fun _ _ h hc => h.step hisolation hc.1 hc.2)
    separated_start (Run.along_and hallowed hseparates) w hw
  exact hseparated.isolated

def working : CommandEnv := .working "No such file or directory"

/-- `nft`, with an address that comes to another machine of the same tenant. -/
def keptAddress : List IsolationCall :=
  [.initializeRules working, .addVmRules working "web" (ipv4 10 0 0 5) "acme",
    .addVmRules working "db" (ipv4 10 0 0 6) "acme",
    .addVmRules working "mail" (ipv4 10 0 0 7) "umbrella",
    .removeVmRules working "web" (ipv4 10 0 0 5) "acme",
    .addVmRules working "shop" (ipv4 10 0 0 5) "acme"]

theorem isolated_keptAddress : Run.Along (step false) (Allowed false) (start .default) keptAddress ∧
      Run.Along (step false) Separates (start .default) keptAddress ∧
      ∀ w ∈ keptAddress.scanl (step false) (start .default), w.Isolated := by
  have hallowed : Run.Along (step false) (Allowed false) (start .default) keptAddress := by
    decide +kernel
  have hseparates : Run.Along (step false) Separates (start .default) keptAddress := by
    decide +kernel
  exact ⟨hallowed, hseparates, isolated_along .default false keptAddress rfl hallowed hseparates⟩

def newTo (source destination : IpAddr) (dport : ℕ) : Packet :=
  ⟨source, destination, "tcp", dport, .new⟩

def twoTenants : List IsolationCall :=
  [.initializeRules working, .addVmRules working "web" (ipv4 10 0 0 5) "acme",
    .addVmRules working "mail" (ipv4 10 0 0 6) "umbrella"]

/-- An address that comes to a machine of another tenant. -/
def movedAddress : List IsolationCall :=
  [.initializeRules working, .addVmRules working "web" (ipv4 10 0 0 5) "acme",
    .addVmRules working "db" (ipv4 10 0 0 6) "acme",
    .removeVmRules working "web" (ipv4 10 0 0 5) "acme",
    .addVmRules working "mail" (ipv4 10 0 0 5) "umbrella"]

/-- With `iptables` a machine gets to port 53 of a machine of another tenant; with `nft` it gets
    to the machine that has the address of one that its tenant had. -/
theorem accepted_across_tenants :
    let iptables := { NetworkIsolationConfig.default with backend := .iptables }
    (Run.Along (step false) (Allowed false) (start iptables) twoTenants ∧
      ¬ (twoTenants.foldl (step false) (start iptables)).Isolated) ∧
    Run.Along (step false) (Allowed false) (start .default) movedAddress ∧
      ¬ (movedAddress.foldl (step false) (start .default)).Isolated := by
  refine ⟨⟨by decide +kernel, fun h => ?_⟩, by decide +kernel, fun h => ?_⟩
  · exact h ⟨"web", ipv4 10 0 0 5, "acme"⟩ (by decide +kernel)
      ⟨"mail", ipv4 10 0 0 6, "umbrella"⟩ (by decide +kernel) (by simp)
      (newTo (ipv4 10 0 0 5) (ipv4 10 0 0 6) 53) rfl rfl rfl 1 (by decide +kernel)
  · exact h ⟨"db", ipv4 10 0 0 6, "acme"⟩ (by decide +kernel)
      ⟨"mail", ipv4 10 0 0 5, "umbrella"⟩ (by decide +kernel) (by simp)
      (newTo (ipv4 10 0 0 6) (ipv4 10 0 0 5) 443) rfl rfl rfl 1 (by decide +kernel)

end WatchedHost

end Blixard
