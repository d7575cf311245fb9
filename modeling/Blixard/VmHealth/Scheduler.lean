/-
  Cycles of health checks (`vm_health_scheduler.rs`).

  The count of failures is that of a status which each cycle makes anew, so no machine with a
  running process is ever recovered (`recovers_iff`).  Metrics and log messages are left out.
-/
import Blixard.Lib.Run
import Blixard.VmHealth
import Blixard.VmRecovery

namespace Blixard

open List

structure CheckedVmConfig extends VmConfig where
  healthCheckConfig : Option VmHealthCheckConfig

structure HealthCheckSchedulerConfig where
  healthCheckTimeout : ℕ
  debugTimeout : String
  enableProcessChecks : Bool
  enableDetailedChecks : Bool

inductive CheckAnswer where
  | answered (result : Except BlixardError HealthCheckResult)
  | timedOut

/-- The surroundings of a cycle: what the database and the backend answer in it, and times. -/
structure CycleEnv where
  listVms : Except BlixardError (List (CheckedVmConfig × VmStatus))
  hasDatabase : Bool
  readVmState : String → Except BlixardError (Option VmState)
  getVmStatus : String → Except BlixardError (Option VmStatus)
  performHealthCheck : String → ℕ → HealthCheck → CheckAnswer
  durationMs : String → ℕ → ℕ
  nowSecs : ℤ

inductive HealthEvent where
  | updateVmStatus (vmName status : String)
  | triggerRecovery (vmName : String)
  | updateVmHealthStatus (vmName : String) (status : VmHealthStatus)
  deriving DecidableEq

structure HealthCheckScheduler where
  config : HealthCheckSchedulerConfig
  nodeId : ℕ

namespace HealthCheckScheduler

variable (pf : Platform) (h : HealthCheckScheduler) (env : CycleEnv)

/-! ## A cycle -/

def getVmNodeId (vmName : String) : Except BlixardError (Option ℕ) :=
  if env.hasDatabase then (env.readVmState vmName).map (·.map (·.nodeId))
  else .error (.internal "Database not initialized")

def checkResult (vmName : String) (position : ℕ) (check : HealthCheck) : HealthCheckResult :=
  match env.performHealthCheck vmName position check with
  | .answered (.ok result) => result
  | .answered (.error e) =>
    { checkName := check.name
      success := false
      message := s!"Health check failed: {e.display}"
      durationMs := env.durationMs vmName position
      timestampSecs := env.nowSecs
      error := some e.display
      priority := .quick
      critical := false }
  | .timedOut =>
    { checkName := check.name
      success := false
      message := s!"Health check timed out after {h.config.debugTimeout}"
      durationMs := h.config.healthCheckTimeout
      timestampSecs := env.nowSecs
      error := some "Timeout"
      priority := .quick
      critical := false }

def performVmHealthChecks (vm : CheckedVmConfig) : Except Failure VmHealthStatus :=
  match vm.healthCheckConfig with
  | none => .ok .default
  | some config =>
    VmHealthStatus.default.feed pf config
      ⟨config.checks.mapIdx (h.checkResult env vm.name), env.nowSecs⟩

def isIll (state : HealthState) : Bool := state = .unhealthy ∨ state = .unresponsive

def checkRunningVm (vm : CheckedVmConfig) : List HealthEvent × Except Failure Unit :=
  match h.performVmHealthChecks pf env vm with
  | .error (.error _) => ([], .ok ())
  | .error failure => ([], .error failure)
  | .ok status =>
    ((if isIll status.state ∧ 3 ≤ status.consecutiveFailures then [.triggerRecovery vm.name]
      else []) ++ [.updateVmHealthStatus vm.name status], .ok ())

def handleEndedProcess (vm : CheckedVmConfig) (storedStatus processStatus : VmStatus) :
    List HealthEvent :=
  if storedStatus = .running then
    [.updateVmStatus vm.name processStatus.debug, .triggerRecovery vm.name]
  else []

def checkOwnVm (vm : CheckedVmConfig) (storedStatus : VmStatus) :
    List HealthEvent × Except Failure Unit :=
  if !h.config.enableProcessChecks && !h.config.enableDetailedChecks then ([], .ok ())
  else
    match env.getVmStatus vm.name with
    | .error e => ([], .error (.error e))
    | .ok status =>
      let processStatus := status.getD .failed
      if h.config.enableProcessChecks ∧ processStatus ≠ .running then
        (handleEndedProcess vm storedStatus processStatus, .ok ())
      else if h.config.enableDetailedChecks ∧ processStatus = .running then
        h.checkRunningVm pf env vm
      else ([], .ok ())

def checkVm (vm : CheckedVmConfig × VmStatus) : List HealthEvent × Except Failure Unit :=
  match getVmNodeId env vm.1.name with
  | .ok (some nodeId) => if nodeId ≠ h.nodeId then ([], .ok ()) else h.checkOwnVm pf env vm.1 vm.2
  | _ => ([], .ok ())

/-- What a cycle does, and how it ends: an error ends this cycle, a panic the task. -/
def runHealthCheckCycle : List HealthEvent × Except Failure Unit :=
  match env.listVms with
  | .error e => ([], .error (.error e))
  | .ok vms =>
    Run.attempt (fun events vm =>
      let (new, result) := h.checkVm pf env vm
      (events ++ new, result)) [] vms

def cycles : List CycleEnv → List (List HealthEvent)
  | [] => []
  | env :: envs =>
    let cycle := h.runHealthCheckCycle pf env
    if endsTask cycle.2 then [cycle.1] else cycle.1 :: cycles envs

/-! ## What a cycle recovers -/

variable {pf h env}

variable {vm : CheckedVmConfig} {envs : List CycleEnv}

theorem failures_le_one {st : VmHealthStatus}
    (hs : h.performVmHealthChecks pf env vm = .ok st) : st.consecutiveFailures ≤ 1 := by
  unfold performVmHealthChecks at hs
  split at hs
  · cases hs
    exact Nat.zero_le 1
  · exact VmHealthStatus.failures_feed_le hs

def Explains (env : CycleEnv) : HealthEvent → Prop
  | .updateVmStatus _ _ => True
  | .triggerRecovery vmName =>
    ∃ status, env.getVmStatus vmName = .ok status ∧ status.getD .failed ≠ .running
  | .updateVmHealthStatus vmName _ => env.getVmStatus vmName = .ok (some .running)

theorem explains_checkRunningVm (hrun : env.getVmStatus vm.name = .ok (some .running)) :
    ∀ event ∈ (h.checkRunningVm pf env vm).1, Explains env event := by
  unfold checkRunningVm
  split
  · exact nofun
  · exact nofun
  · next st hs =>
    have hle := failures_le_one hs
    rw [if_neg fun hi => by omega, nil_append]
    exact forall_mem_singleton.2 hrun

theorem explains_checkOwnVm (vm : CheckedVmConfig) (storedStatus : VmStatus) :
    ∀ event ∈ (h.checkOwnVm pf env vm storedStatus).1, Explains env event := by
  unfold checkOwnVm
  split_ifs with hd
  · exact nofun
  cases hs : env.getVmStatus vm.name with
  | error e => exact nofun
  | ok st =>
    simp only
    split_ifs with hend ht
    · unfold handleEndedProcess
      split_ifs
      · exact forall_mem_cons.2 ⟨trivial,
          forall_mem_singleton.2 ⟨st, hs, hend.2⟩⟩
      · exact nofun
    · refine explains_checkRunningVm (hs.trans ?_)
      cases st with
      | none => exact absurd ht.2 nofun
      | some st => exact congrArg (fun s => Except.ok (some s)) ht.2
    · exact nofun

theorem explains_cycle :
    ∀ event ∈ (h.runHealthCheckCycle pf env).1, Explains env event := by
  unfold runHealthCheckCycle
  cases env.listVms with
  | error e => exact nofun
  | ok vms =>
    refine Run.attempt_keeps (P := fun evs => ∀ event ∈ evs, Explains env event) _
      (fun evs vm he => ?_) (forall_mem_nil _) vms
    refine forall_mem_append.2 ⟨he, ?_⟩
    unfold checkVm
    split
    · split_ifs
      · exact nofun
      · exact explains_checkOwnVm vm.1 vm.2
    · exact nofun

/-! ## Runs of cycles -/

/-- A cycle that finds a machine unhealthy or unresponsive. -/
def FindsIll (vmName : String) (events : List HealthEvent) : Prop :=
  ∃ status, .updateVmHealthStatus vmName status ∈ events ∧ isIll status.state

/-- The third of three cycles in a row that find a machine ill triggers its recovery. -/
def Recovers (pf : Platform) (h : HealthCheckScheduler) (envs : List CycleEnv) : Prop :=
  ∀ vmName first second third, [first, second, third] <:+: h.cycles pf envs →
    FindsIll vmName first → FindsIll vmName second → FindsIll vmName third →
      .triggerRecovery vmName ∈ third

def NeverIllThrice (pf : Platform) (h : HealthCheckScheduler) (envs : List CycleEnv) : Prop :=
  ∀ vmName first second third, [first, second, third] <:+: h.cycles pf envs →
    ¬ (FindsIll vmName first ∧ FindsIll vmName second ∧ FindsIll vmName third)

theorem exists_of_mem_cycles {evs : List HealthEvent}
    (he : evs ∈ h.cycles pf envs) : ∃ env, evs = (h.runHealthCheckCycle pf env).1 := by
  induction envs with
  | nil => cases he
  | cons env envs ih =>
    simp only [cycles] at he
    split_ifs at he
    · exact ⟨env, mem_singleton.1 he⟩
    · rcases mem_cons.1 he with he | he
      · exact ⟨env, he⟩
      · exact ih he

theorem not_triggered_of_ill {events : List HealthEvent} {vmName : String}
    (he : events ∈ h.cycles pf envs) (hi : FindsIll vmName events) :
    .triggerRecovery vmName ∉ events := by
  intro ht
  obtain ⟨env, rfl⟩ := exists_of_mem_cycles he
  obtain ⟨status, hc, -⟩ := hi
  have hr : env.getVmStatus vmName = .ok (some .running) := explains_cycle _ hc
  obtain ⟨ended, hn, hnot⟩ := explains_cycle _ ht
  cases hn.symm.trans hr
  exact hnot rfl

/-- **Recovery after three cycles**: the rule holds of a run exactly if it is never needed. -/
theorem recovers_iff (pf : Platform) (h : HealthCheckScheduler) (envs : List CycleEnv) :
    Recovers pf h envs ↔ NeverIllThrice pf h envs := by
  constructor
  · rintro hrecovers vmName first second third hinfix ⟨hfirst, hsecond, hthird⟩
    have hmem : third ∈ h.cycles pf envs := hinfix.subset (by simp)
    exact not_triggered_of_ill hmem hthird
      (hrecovers vmName first second third hinfix hfirst hsecond hthird)
  · intro hnever vmName first second third hinfix hfirst hsecond hthird
    exact absurd ⟨hfirst, hsecond, hthird⟩ (hnever vmName first second third hinfix)

def onNodeOne : HealthCheckScheduler := ⟨⟨5000, "5s", true, true⟩, 1⟩

def pingedVm : CheckedVmConfig :=
  { name := "web"
    healthCheckConfig := some { VmHealthCheckConfig.default with
      checks := [⟨"ping", .tcp "10.0.0.5:80" 5⟩] } }

def noAnswer : CycleEnv where
  listVms := .ok [(pingedVm, .running)]
  hasDatabase := true
  readVmState := fun vmName => .ok (some ⟨vmName, pingedVm.toVmConfig, .running, 1, 0, 0⟩)
  getVmStatus := fun _ => .ok (some .running)
  performHealthCheck := fun _ _ _ => .timedOut
  durationMs := fun _ _ => 5000
  nowSecs := 0

def foundIll : List HealthEvent :=
  [.updateVmHealthStatus "web"
    ⟨.unhealthy, 0, [⟨"ping", false, "Health check timed out after 5s", 5000, 0, some "Timeout",
      .quick, false⟩], none, 1, 0⟩]

/-- The machine is unhealthy for three cycles, and is not recovered. -/
theorem ill_and_not_recovered :
    onNodeOne.cycles .release [noAnswer, noAnswer, noAnswer] = [foundIll, foundIll, foundIll] ∧
      ¬ Recovers .release onNodeOne [noAnswer, noAnswer, noAnswer] := by
  have hcycles : onNodeOne.cycles .release [noAnswer, noAnswer, noAnswer] =
      [foundIll, foundIll, foundIll] := by decide +kernel
  refine ⟨hcycles, fun hrecovers => ?_⟩
  have hi : FindsIll "web" foundIll := ⟨_, List.mem_singleton_self _, rfl⟩
  have htriggered := hrecovers "web" foundIll foundIll foundIll (hcycles ▸ List.infix_rfl) hi hi
    hi
  exact absurd htriggered (by decide)

end HealthCheckScheduler

end Blixard
