/-
  What the scripts of the network isolation manager do to the chains.

  Whatever fails, a script keeps what each of its commands keeps (`runScript_keeps`).  If it
  succeeds, the commands that must not fail have been done, and the rules of each chain are
  those it had with the new ones around them.
-/
import Blixard.NetworkIsolation

namespace Blixard

open RuleChains Command List Run

namespace NetworkIsolation

variable {tool : Tool String} {backend : FirewallBackend} {env : CommandEnv} {fw fw' : Firewall}
  {k : ℕ}

theorem strict_append (first second : List FirewallCommand) :
    strict (first ++ second) = strict first ++ strict second :=
  map_append

variable {P : FirewallCommand → Prop} {commands : List FirewallCommand}

theorem forall_mem_strict :
    (∀ entry ∈ strict commands, P entry.1) ↔ ∀ command ∈ commands, P command := by
  simp [strict]

theorem forall_mem_lenient :
    (∀ entry ∈ lenient commands, P entry.1) ↔ ∀ command ∈ commands, P command := by
  simp [lenient]

theorem runCommand_cases (entry : (FirewallCommand × Bool) × ℕ) :
    (runCommand tool backend env fw entry).1 = fw ∨
      entry.1.1.run tool fw = some (runCommand tool backend env fw entry).1 := by
  obtain ⟨⟨cmd, ignoreErrors⟩, i⟩ := entry
  simp only [runCommand]
  cases env.outcome i with
  | notRun e => exact .inl rfl
  | fails => exact .inl rfl
  | runs =>
    cases hrun : cmd.run tool fw with
    | none => exact .inl rfl
    | some fw' => exact .inr rfl

theorem runCommand_strict {cmd : FirewallCommand}
    (h : runCommand tool backend env fw ((cmd, false), k) = (fw', .ok ())) :
    cmd.run tool fw = some fw' := by
  simp only [runCommand] at h
  cases hout : env.outcome k <;> simp only [hout] at h
  · cases hrun : cmd.run tool fw <;> rw [hrun] at h <;> cases h
    rfl
  · cases h
  · cases h

theorem runScript_keeps {P : Firewall → Prop} {script : Script}
    (keep : ∀ fw fw', ∀ entry ∈ script, P fw → entry.1.run tool fw = some fw' → P fw')
    (h : P fw) : P (runScript tool backend env fw script).1 := by
  refine attempt_keeps_of_mem _ (fun fw entry hent hfw => ?_) h
  rcases @runCommand_cases tool backend env fw entry with hsame | hrun
  · rw [hsame]
    exact hfw
  · refine keep _ _ entry.1 ?_ hfw hrun
    exact (mem_zipIdx hent).2.2 ▸ getElem_mem _

theorem runAll_of_strict {cmds : List FirewallCommand}
    (h : attempt (runCommand tool backend env) fw ((strict cmds).zipIdx k) =
      (fw', .ok ())) : runAll tool fw cmds = some fw' := by
  induction cmds generalizing fw k with
  | nil =>
    cases h
    rfl
  | cons cmd cmds ih =>
    simp only [strict, map_cons, zipIdx_cons, attempt] at h
    rcases hf : runCommand tool backend env fw ((cmd, false), k) with ⟨btw, e | ⟨⟩⟩
      <;> rw [hf] at h
    · cases h
    · rw [runAll, foldlM_cons, runCommand_strict hf]
      exact ih h

theorem runAll_of_lenient_strict {first second : List FirewallCommand}
    (h : runScript tool backend env fw (lenient first ++ strict second) = (fw', .ok ())) :
    runAll tool (runScript tool backend env fw (lenient first)).1 second = some fw' := by
  rw [runScript, zipIdx_append] at h
  obtain ⟨btw, hf, hs⟩ := attempt_append_ok _ h
  rw [runScript, hf]
  exact runAll_of_strict hs

/-! ## The rules after a script -/

section
variable {config : NetworkIsolationConfig} {deletesFull : Bool}

theorem getD_addChains {c : String} (chains : List String) :
    (runScript tool backend env fw (lenient (chains.map .addChain))).1.chains[c]?.getD [] =
      fw.chains[c]?.getD [] := by
  refine runScript_keeps (P := fun after => after.chains[c]?.getD [] = fw.chains[c]?.getD [])
    (fun pre after entry hent hpre hrun => ?_) rfl
  obtain ⟨cmd, hc, rfl⟩ := mem_map.1 hent
  obtain ⟨chain, -, rfl⟩ := mem_map.1 hc
  rw [run_get hrun, effect]
  split_ifs
  · rw [Option.getD_some, hpre]
  · exact hpre

theorem effects_append_other {c chain : String} (h : chain ≠ c) (rules : List FirewallRule)
    (before : Option (List FirewallRule)) :
    effects c (rules.map (.append chain)) before = before := by
  refine effects_of_not_about (fun command hc => ?_) before
  obtain ⟨r, -, rfl⟩ := mem_map.1 hc
  exact h

theorem initIptables_rules
    (h : runScript (NetworkIsolation.tool deletesFull .iptables) .iptables env fw
      (initIptables config) = (fw', .ok ())) :
    fw'.chains["BLIXARD_VM_FWD"]? = some (fw.chains["BLIXARD_VM_FWD"]?.getD [] ++
        (clusterDrops config ++ [acceptEstablished])) ∧
      fw'.chains["FORWARD"]? =
        some (jump {} "BLIXARD_VM_FWD" :: fw.chains["FORWARD"]?.getD []) := by
  have hs : initIptables config =
      lenient (["BLIXARD_VM_IN", "BLIXARD_VM_OUT", "BLIXARD_VM_FWD"].map .addChain) ++
      strict ([.insert "FORWARD" (jump {} "BLIXARD_VM_FWD"),
        .insert "INPUT" (jump {} "BLIXARD_VM_IN"), .insert "OUTPUT" (jump {} "BLIXARD_VM_OUT")] ++
        (clusterDrops config ++ [acceptEstablished]).map (.append "BLIXARD_VM_FWD")) := by
    simp [initIptables, strict]
  rw [hs] at h
  have hrun := runAll_of_lenient_strict h
  have hr (c : String) := @getD_addChains (NetworkIsolation.tool deletesFull .iptables)
    .iptables env fw c ["BLIXARD_VM_IN", "BLIXARD_VM_OUT", "BLIXARD_VM_FWD"]
  generalize (runScript _ _ env fw _).1 = between at hrun hr
  -- the first jump is only made from and to chains that are there
  obtain ⟨next, ht, -⟩ := runAll_cons hrun
  obtain ⟨ha, forward, hf, -⟩ := run_insert ht
  obtain ⟨rules, he⟩ := (Table.mem_iff _ _).1 (admits_jump ha rfl).1
  constructor
  · rw [runAll_get hrun, effects_concat, effects_append, ← hr, he]
    rfl
  · rw [runAll_get hrun, effects_concat, effects_append_other (by simp), ← hr, hf]
    rfl

theorem initNftables_rules {c : String}
    (h : runScript (NetworkIsolation.tool deletesFull .nftables) .nftables env fw
      (initNftables config) = (fw', .ok ())) : fw'.chains[c]? =
      if c ∈ ["vm_input", "vm_output"] then some (fw.chains[c]?.getD [])
      else if c = "vm_forward" then
        some (fw.chains[c]?.getD [] ++ (clusterDrops config ++ [acceptEstablished]))
      else fw.chains[c]? := by
  have hrun := runAll_of_lenient_strict h
  have hsame : (runScript (NetworkIsolation.tool deletesFull .nftables) .nftables env fw
      (lenient [.addTable])).1.chains[c]? = fw.chains[c]? := by
    refine runScript_keeps (P := fun after => after.chains[c]? = fw.chains[c]?)
      (fun pre after entry hent hpre hrun => ?_) rfl
    obtain ⟨cmd, hc, rfl⟩ := mem_map.1 hent
    cases mem_singleton.1 hc
    rw [run_get hrun]
    exact hpre
  rw [runAll_get hrun, hsame]
  simp only [effects, foldl_cons, foldl_nil, effect]
  by_cases hi : c = "vm_input"
  · subst hi
    simp
  by_cases ho : c = "vm_output"
  · subst ho
    simp
  by_cases hf : c = "vm_forward"
  · subst hf
    simp
  · simp [hi, ho, hf, eq_comm]

def vmBarrier (config : NetworkIsolationConfig) (vmIp : IpAddr) : List FirewallRule :=
  if config.interVmIsolation then
    [drop { source := some (.host vmIp), destination := some (.net config.vmNetwork) }] else []

def vmAccess (config : NetworkIsolationConfig) (vmIp : IpAddr) : List FirewallRule :=
  (outboundPorts config).map (fun port =>
    accept { source := some (.host vmIp), port := some (port.protocol, port.port) }) ++
  (if config.allowInternet then
    [accept { source := some (.host vmIp), notDestination := some config.vmNetwork }] else [])

def tenantAccess (config : NetworkIsolationConfig) (tenantIps : List IpAddr) (vmIp : IpAddr) :
    List FirewallRule :=
  if config.tenantIsolation then
    (tenantIps.filter (· ≠ vmIp)).map fun allowedIp =>
      accept { source := some (.host vmIp), destination := some (.host allowedIp) }
  else []

theorem addVmIptablesRules_eq (ips : List IpAddr) (vmIp : IpAddr) :
    addVmIptablesRules config ips vmIp =
      strict ([drop { source := some (.host vmIp) }].map (.append "BLIXARD_VM_IN") ++
        ((vmBarrier config vmIp).map (.append "BLIXARD_VM_FWD") ++
        ((tenantAccess config ips vmIp).map (.insert "BLIXARD_VM_FWD") ++
        (vmAccess config vmIp).map (.append "BLIXARD_VM_FWD")))) := by
  unfold addVmIptablesRules vmBarrier tenantAccess vmAccess
  split_ifs <;> simp [strict, Function.comp_def]

variable {vmIp : IpAddr} {tenantIps : List IpAddr}

theorem addVmIptablesRules_rules
    (h : runScript (NetworkIsolation.tool deletesFull .iptables) .iptables env fw
      (addVmIptablesRules config tenantIps vmIp) = (fw', .ok ())) :
    fw'.chains["FORWARD"]? = fw.chains["FORWARD"]? ∧
      fw'.chains["BLIXARD_VM_FWD"]? = fw.chains["BLIXARD_VM_FWD"]?.map fun rules =>
        (tenantAccess config tenantIps vmIp).reverse ++
          (rules ++ (vmBarrier config vmIp ++ vmAccess config vmIp)) := by
  rw [addVmIptablesRules_eq] at h
  have hrun := runAll_of_strict h
  constructor
  · rw [runAll_get hrun]
    refine effects_of_not_about (fun command hc => ?_) _
    simp only [mem_append, mem_map] at hc
    rcases hc with ⟨r, -, rfl⟩ | ⟨r, -, rfl⟩ | ⟨r, -, rfl⟩ | ⟨r, -, rfl⟩ <;>
      simp [Command.About]
  · rw [runAll_get hrun, effects_concat, effects_append_other (by simp), effects_concat,
      effects_append, effects_concat, effects_insert, effects_append]
    simp [Function.comp_def]

theorem addVmNftablesRules_rules {vmName : String}
    (h : runScript (NetworkIsolation.tool deletesFull .nftables) .nftables env fw
      (addVmNftablesRules config tenantIps vmName vmIp) = (fw', .ok ())) :
    vmChain vmName ∉ ["vm_input", "vm_output", "vm_forward"] ∧
      (∃ rules, fw.chains["vm_forward"]? = some rules ∧ fw'.chains["vm_forward"]? =
        some (rules ++ [jump { source := some (.host vmIp) } (vmChain vmName)])) ∧
      fw'.chains[vmChain vmName]? =
        some (fw.chains[vmChain vmName]?.getD [] ++ vmRules config tenantIps vmIp) ∧
      ∀ c, c ≠ vmChain vmName → c ∉ ["vm_input", "vm_output", "vm_forward"] →
        fw'.chains[c]? = fw.chains[c]? := by
  unfold addVmNftablesRules at h
  rw [← strict_append] at h
  have hrun := runAll_of_strict h
  -- the jump is only made from `vm_forward` to a chain that no packet comes into by itself
  obtain ⟨next, hn, hrest⟩ := runAll_cons hrun
  obtain ⟨_, hjump, -⟩ := runAll_cons hrest
  obtain ⟨ha, rules, hf, -⟩ := run_append hjump
  have hbase : vmChain vmName ∉ ["vm_input", "vm_output", "vm_forward"] :=
    (admits_jump ha rfl).2
  refine ⟨hbase, ?_⟩
  simp only [mem_cons, not_mem_nil, or_false, not_or] at hbase ⊢
  obtain ⟨hi, -, ho⟩ := hbase
  have hf' : fw.chains["vm_forward"]? = some rules := by
    rw [run_get hn, effect, if_neg ho] at hf
    exact hf
  refine ⟨⟨rules, hf', ?_⟩, ?_, fun c hc hb => ?_⟩
  · rw [runAll_get hrun, effects_concat, effects_append_other ho, hf']
    simp [effects, effect, ho]
  · rw [runAll_get hrun, effects_concat, effects_append]
    simp [effects, effect, Ne.symm hi, Ne.symm ho]
  · rw [runAll_get hrun, effects_concat, effects_append_other (Ne.symm hc)]
    simp [effects, effect, Ne.symm hc, Ne.symm hb.1, Ne.symm hb.2.2]

end

end NetworkIsolation

/-! ## The script of each call -/

namespace NetworkIsolationManager

open NetworkIsolation

variable {m : NetworkIsolationManager} {config : NetworkIsolationConfig}

theorem initScript_iptables (hc : m.config = config) (h : config.backend = .iptables) :
    m.initScript = initIptables config := by
  simp [initScript, hc, h]

theorem initScript_nftables (hc : m.config = config) (h : config.backend = .nftables) :
    m.initScript = initNftables config := by
  simp [initScript, hc, h]

variable (vmName : String) (vmIp : IpAddr) (tenantId : String)

theorem addScript_iptables (hc : m.config = config) (h : config.backend = .iptables) :
    m.addScript vmName vmIp tenantId = addVmIptablesRules config (m.tenantIps tenantId) vmIp := by
  simp [addScript, hc, h]

theorem addScript_nftables (hc : m.config = config) (h : config.backend = .nftables) :
    m.addScript vmName vmIp tenantId =
      addVmNftablesRules config (m.tenantIps tenantId) vmName vmIp := by
  simp [addScript, hc, h]

theorem removeScript_iptables (hc : m.config = config) (h : config.backend = .iptables) :
    m.removeScript vmName vmIp = removeVmIptablesRules vmIp := by
  simp [removeScript, hc, h]

theorem removeScript_nftables (hc : m.config = config) (h : config.backend = .nftables) :
    m.removeScript vmName vmIp = removeVmNftablesRules vmName vmIp := by
  simp [removeScript, hc, h]

end NetworkIsolationManager

theorem IsolatedHost.runScript_of_runs {h : IsolatedHost} {deletesFull : Bool} {env : CommandEnv}
    {mgr : NetworkIsolationManager} {be : FirewallBackend}
    {script script' : NetworkIsolation.Script} (hb : mgr.config.backend = be)
    (hs : script = script') (hok : (h.runs deletesFull env mgr script).2 = .ok ()) :
    NetworkIsolation.runScript (NetworkIsolation.tool deletesFull be) be env h.firewall
      script' = ((h.runs deletesFull env mgr script).1.firewall, .ok ()) := by
  subst hb hs
  exact Prod.ext rfl hok

end Blixard
