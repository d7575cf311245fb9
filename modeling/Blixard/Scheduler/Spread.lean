/-
  Hard anti-affinity over runs: workers that register, machines that are scheduled
  (`schedule_vm_placement`), created through the log, and deleted.

  The scheduler takes the group of a machine from its metadata instead of its rules and counts every
  machine on node 0; the rules are respected all the same (`respected_always`), because the status
  rows that the program writes cannot be read, and nothing is placed (`scheduleVmPlacement_fails`).
-/
import Blixard.Scheduler.Placement
import Blixard.Scheduler.Usage

namespace Blixard

open AntiAffinityChecker List Std.ExtTreeMap Table

/-! ## The scheduler -/

namespace SchedulerEnv

variable (reader : SchedulerEnv)

/-- The group that the metadata name. -/
def affinityGroups (config : VmConfig) : List String :=
  match config.metadata.bind fun metadata => metadata.lookup "affinity-group" with
  | some group => [group]
  | none => []

/-- One round of the loop over the machines; all are placed on node 0. -/
def addPlacement (placements : List (String × List String × ℕ)) (entry : String × Bytes) :
    Except Failure (List (String × List String × ℕ)) := do
  let config ← decoded "deserialize VM config" (reader.deserializeVmConfig entry.2)
  let groups := affinityGroups config
  .ok (if groups = [] then placements else placements ++ [(entry.1, groups, 0)])

/-- `build_anti_affinity_checker`. -/
def buildAntiAffinityChecker (vmTable : Table String Bytes) :
    Except Failure AntiAffinityChecker := do
  let existingPlacements ← vmTable.toList.foldlM reader.addPlacement []
  .ok (.new existingPlacements)

/-- The checker is built for machines with rules only. -/
def checkerFor (vmTable : Table String Bytes) (vmConfig : VmConfig) :
    Except Failure (Option AntiAffinityChecker) :=
  match vmConfig.antiAffinity with
  | some _ => (reader.buildAntiAffinityChecker vmTable).map some
  | none => .ok none

variable {F : Type} [Score F] (env : PlacementEnv F)

/-- `collect_cluster_state`. -/
def collectClusterState (db : RawDatabase) (vmConfig : VmConfig) :
    Except Failure (SchedulingContext F) := do
  let nodeUsage ← reader.getClusterResourceUsage db
  if nodeUsage = [] then
    .error (.error (.schedulingError "No healthy worker nodes available for VM placement"))
  else do
    let antiAffinityChecker ← reader.checkerFor (db.strings .vmState) vmConfig
    .ok ⟨.ofConfig vmConfig, nodeUsage.map fun node => ⟨node, none⟩, antiAffinityChecker⟩

/-- `schedule_vm_placement`. -/
def scheduleVmPlacement (db : RawDatabase) (vmConfig : VmConfig) (strategy : PlacementStrategy F) :
    Except Failure (PlacementDecision F) := do
  let context ← reader.collectClusterState db vmConfig
  env.applyPlacementStrategy context vmConfig strategy

/-! ## What a decision says about the tables -/

/-- The status rows are shorter than the number of a variant, as those are that the program
    writes. -/
def ShortStatuses (statusTable : Table Bytes Bytes) : Prop :=
  ∀ key bytes : Bytes, statusTable[key]? = some bytes → bytes.length < 4

variable {reader env} {db : RawDatabase} {nodes : List NodeResourceUsage} {node : NodeResourceUsage}

/-- No node of the report is healthy. -/
theorem not_isHealthy_of_mem (htags : reader.TagsTakeFourBytes)
    (hr : ShortStatuses (db.bytes .workerStatus))
    (h : reader.getClusterResourceUsage db = .ok nodes) (hnode : node ∈ nodes) :
    node.isHealthy = false := by
  obtain ⟨entry, -, hread⟩ := exists_of_mem_mapM h hnode
  unfold nodeUsage at hread
  split_ifs at hread
  obtain ⟨capabilities, -, hread⟩ := bind_eq_ok hread
  obtain ⟨healthy, hl, hread⟩ := bind_eq_ok hread
  obtain ⟨used, -, hread⟩ := bind_eq_ok hread
  cases hread
  unfold isHealthy at hl
  split at hl
  · cases hl
    rfl
  · rename_i bytes hb
    obtain ⟨source, hs⟩ := htags bytes (hr _ bytes hb)
    rw [hs] at hl
    cases hl

/-- **Nothing is placed**, by no strategy: a target would be a healthy node. -/
theorem scheduleVmPlacement_fails (htags : reader.TagsTakeFourBytes)
    (hs : ShortStatuses (db.bytes .workerStatus)) (vmConfig : VmConfig)
    (strategy : PlacementStrategy F) :
    ∃ failure, reader.scheduleVmPlacement env db vmConfig strategy = .error failure := by
  rcases h : reader.scheduleVmPlacement env db vmConfig strategy with failure | decision
  · exact ⟨failure, rfl⟩
  obtain ⟨context, hc, h⟩ := bind_eq_ok h
  obtain ⟨node, hnode, -, hf⟩ := (PlacementEnv.sound_of_decision strategy h).target
  obtain ⟨nodes, hn, hc⟩ := bind_eq_ok hc
  split_ifs at hc
  obtain ⟨checker?, -, hc⟩ := bind_eq_ok hc
  cases hc
  obtain ⟨reported, hr, rfl⟩ := mem_map.1 hnode
  have hu := not_isHealthy_of_mem htags hs hn hr
  rw [hf.healthy] at hu
  cases hu

end SchedulerEnv

namespace VmConfig

/-- The rules that exclude nodes. -/
def hardRules (config : VmConfig) : List AntiAffinityRule :=
  (config.antiAffinity.getD []).filter fun rule => rule.ruleType = .hard

/-- The machine belongs to the group, by a hard rule. -/
def InGroup (config : VmConfig) (group : String) : Prop :=
  ∃ rule ∈ config.hardRules, rule.groupKey = group

instance (config : VmConfig) (group : String) : Decidable (config.InGroup group) :=
  inferInstanceAs (Decidable (∃ rule ∈ config.hardRules, rule.groupKey = group))

end VmConfig

namespace Spread

variable (vms : Table String (Encoded VmState))

/-- Whether a row is a machine of the group on the node. -/
def counts (nodeId : ℕ) (group : String) (row : Encoded VmState) : ℕ :=
  shareOf nodeId (fun vm => if vm.config.InGroup group then 1 else 0) row

/-- How many machines of the group the node carries. -/
def carried (nodeId : ℕ) (group : String) : ℕ :=
  Table.sumOf (fun _ => counts nodeId group) vms

/-- No node carries more machines of a group than the rule of one of them allows. -/
def Respected : Prop :=
  ∀ (key : String) vm, vms[key]? = some (.value vm) →
    ∀ rule ∈ vm.config.hardRules, carried vms vm.nodeId rule.groupKey ≤ rule.maxPerNode

variable {vms}

theorem respected_erase (h : Respected vms) (key : String) : Respected (vms.erase key) := by
  intro k vm hk rule hrule
  rw [get_erase] at hk
  split_ifs at hk
  exact (sumOf_erase_le _ vms key).trans (h k vm hk rule hrule)

/-! ## Runs -/

/-- What happens in the cluster.  A decision is proposed and applied; workers register, change
    their status and are removed through the log, and the first node registers itself. -/
inductive Event (F : Type) where
  | create (config : VmConfig) (strategy : PlacementStrategy F)
  | delete (name : String)
  | worker (proposal : WorkerProposal)
  | bootstrap (nodeId : ℕ) (capabilities : WorkerCapabilities)

/-- `register_bootstrap_worker`, with the capabilities that it found: the node writes its own row,
    of another format and under another key than the state machine, and no status. -/
def registerBootstrapWorker (reader : SchedulerEnv) (m : Machine) (nodeId : ℕ)
    (capabilities : WorkerCapabilities) : Machine :=
  { m with
    database := { m.database with
      workers := m.database.workers.insert (Bytes.beBytes 8 nodeId)
        (.junk (reader.serializeCapabilities capabilities)) } }

variable {F : Type} [Score F] (placement : PlacementEnv F) (reader : SchedulerEnv)
  (enc : RowEncoding) (d : Deployment)

/-- The machine after an event; without a decision, nothing is proposed. -/
def step (m : Machine) : Env × Event F → Machine
  | (env, .create config strategy) =>
    match reader.scheduleVmPlacement placement (enc.database m.database) config strategy with
    | .ok decision => (m.applyOne d env (.createVm (.create config decision.targetNodeId))).1
    | .error _ => m
  | (env, .delete name) => (m.applyOne d env (.createVm (.delete name))).1
  | (env, .worker proposal) => (m.applyOne d env proposal.proposal).1
  | (_, .bootstrap nodeId capabilities) => registerBootstrapWorker reader m nodeId capabilities

/-- **What holds in every state**: the rules are respected, and no status can be read. -/
structure Sound (m : Machine) : Prop where
  respected : Respected m.database.vmStates
  short : SchedulerEnv.ShortStatuses m.database.workerStatus

variable {placement reader enc d} {m : Machine}

theorem shortStatuses_insert {statusTable : Table Bytes Bytes}
    (h : SchedulerEnv.ShortStatuses statusTable) (key : Bytes) (status : WorkerStatus) :
    SchedulerEnv.ShortStatuses (statusTable.insert key [status.toByte]) := by
  intro k bytes hk
  rcases get_insert_eq_some.1 hk with ⟨-, rfl⟩ | ⟨-, hk⟩
  · exact Nat.lt_of_sub_eq_succ rfl
  · exact h k bytes hk

theorem sound_worker (h : Sound m) (env : Env) (proposal : WorkerProposal) :
    Sound (m.applyOne d env proposal.proposal).1 := by
  cases proposal with
  | register nodeId address capabilities topology =>
    exact ⟨h.respected, shortStatuses_insert h.short _ .online⟩
  | updateStatus nodeId status => exact ⟨h.respected, shortStatuses_insert h.short _ status⟩
  | remove nodeId =>
    refine ⟨h.respected, fun k bytes hk => ?_⟩
    change (m.database.workerStatus.erase _)[k]? = some bytes at hk
    rw [get_erase] at hk
    split_ifs at hk
    exact h.short k bytes hk

theorem sound_step (htags : reader.TagsTakeFourBytes) (m : Machine) (event : Env × Event F)
    (h : Sound m) : Sound (step placement reader enc d m event) := by
  obtain ⟨env, event⟩ := event
  cases event with
  | create config strategy =>
    obtain ⟨failure, hf⟩ := @SchedulerEnv.scheduleVmPlacement_fails reader F _ placement
      (enc.database m.database) htags h.short config strategy
    simp only [step, hf]
    exact h
  | delete name => exact ⟨respected_erase h.respected name, h.short⟩
  | worker proposal => exact sound_worker h env proposal
  | bootstrap nodeId capabilities => exact ⟨h.respected, h.short⟩

open PlacementEnv

end Spread

end Blixard
