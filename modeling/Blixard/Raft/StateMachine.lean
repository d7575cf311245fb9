/-
  The replicated state machine (`raft/state_machine.rs`, `raft/proposals.rs`).

  `applyEntry` applies a log entry to a `Machine`: the database, and the managers that live in
  memory.  What a call reads besides is in `Env`, and what is fixed for a node in `Deployment`.
-/
import Blixard.IpPool.Manager
import Blixard.Quota
import Blixard.Storage.Database

namespace Blixard

inductive ProposalData where
  | assignTask (taskId : String) (nodeId : ℕ) (task : TaskSpec)
  | completeTask (taskId : String) (result : TaskResult)
  | reassignTask (taskId : String) (fromNode toNode : ℕ)
  | registerWorker (nodeId : ℕ) (address : String) (capabilities : WorkerCapabilities)
      (topology : NodeTopology)
  | updateWorkerStatus (nodeId : ℕ) (status : WorkerStatus)
  | removeWorker (nodeId : ℕ)
  | createVm (command : VmCommand)
  | updateVmStatus (vmName : String) (status : VmStatus) (nodeId : ℕ)
  | migrateVm (vmName : String) (fromNode toNode : ℕ)
  | ipPoolCommand (command : IpPoolCommand)
  | allocateIp (request : IpAllocationRequest)
  | releaseVmIps (vmId : VmId)
  | setTenantQuota (quota : TenantQuota)
  | updateTenantUsage (tenantId : String) (delta : ResourceUsageDelta) (operationId : BitVec 128)
  | removeTenantQuota (tenantId : String)
  | batch (proposals : List ProposalData)

/-! ## Machines and their surroundings -/

/-- Where `apply_entry` is polled: outside any async runtime, by a task of the
    runtime, or by a thread that may block on the runtime. -/
inductive Runtime where
  | absent | driving | blocking
  deriving DecidableEq

structure Deployment extends Platform where
  runtime : Runtime
  sharedAlive : Bool
  admission : Bool
  decodeError : Bytes → String

/-- What one application of a proposal reads from its surroundings: besides the
    pools' `PoolEnv`, the order that a hash map has after it was decoded. -/
structure Env extends PoolEnv where
  rehash : List (String × String) → List (String × String)
  rehash_perm : ∀ m, (rehash m).Perm m
  rehashCounts : List (ℕ × ℕ) → List (ℕ × ℕ)
  rehashCounts_perm : ∀ m, (rehashCounts m).Perm m

def Deployment.raftManager : Deployment where
  toPlatform := .release
  runtime := .driving
  sharedAlive := true
  admission := false
  decodeError _ := "unexpected end of file"

def Env.still (time : ℤ) : Env where
  order ids := ids
  order_perm := List.Perm.refl
  random := 0
  now _ := time
  rehash metadata := metadata
  rehash_perm := List.Perm.refl
  rehashCounts counts := counts
  rehashCounts_perm := List.Perm.refl

structure Machine where
  database : Database
  ipPoolManager : IpPoolManager
  quotaManager : Option QuotaManager

abbrev Applied := Machine × Except Failure Unit

namespace Machine

def new : Machine := ⟨{}, .new, none⟩

def commit (m : Machine) (database : Database) : Applied := ({ m with database }, .ok ())

def abort (m : Machine) (failure : Failure) : Applied := (m, .error failure)

variable (d : Deployment) (env : Env) (m : Machine)

def blockOnPanic : Failure := .panic ("Cannot start a runtime from within a runtime. This ha " ++
  "because a function (like `block_on`) attempted to block the current thread while the thread " ++
  "is being used to drive asynchronous tasks.")

def blockOn (run : Unit → Applied) : Applied :=
  match d.runtime with
  | .absent => m.abort (.error (.internal "No tokio runtime available"))
  | .driving => m.abort blockOnPanic
  | .blocking => run ()

def applyAssignTask (taskId : String) (nodeId : ℕ) (task : TaskSpec) : Applied :=
  m.commit { m.database with
    tasks := m.database.tasks.insert taskId (.value task)
    taskAssignments := m.database.taskAssignments.insert taskId (Bytes.leBytes 8 nodeId) }

def applyCompleteTask (taskId : String) (result : TaskResult) : Applied :=
  m.commit { m.database with
    taskResults := m.database.taskResults.insert taskId (.value result)
    taskAssignments := m.database.taskAssignments.erase taskId }

def applyReassignTask (taskId : String) (toNode : ℕ) : Applied :=
  m.commit { m.database with
    taskAssignments := m.database.taskAssignments.insert taskId (Bytes.leBytes 8 toNode) }

def applyRegisterWorker (nodeId : ℕ) (address : String) (capabilities : WorkerCapabilities)
    (topology : NodeTopology) : Applied :=
  let key := Bytes.leBytes 8 nodeId
  m.commit { m.database with
    workers := m.database.workers.insert key (.value (address, capabilities))
    workerStatus := m.database.workerStatus.insert key [WorkerStatus.online.toByte]
    nodeTopology := m.database.nodeTopology.insert key (.value topology) }

def applyUpdateWorkerStatus (nodeId : ℕ) (status : WorkerStatus) : Applied :=
  m.commit { m.database with
    workerStatus := m.database.workerStatus.insert (Bytes.leBytes 8 nodeId) [status.toByte] }

def applyRemoveWorker (nodeId : ℕ) : Applied :=
  let key := Bytes.leBytes 8 nodeId
  m.commit { m.database with
    workers := m.database.workers.erase key
    workerStatus := m.database.workerStatus.erase key
    nodeTopology := m.database.nodeTopology.erase key }

/-! ## Virtual machines -/

def rehashConfig (config : VmConfig) : VmConfig :=
  { config with metadata := config.metadata.map env.rehash }

/-- Decode the row of a machine, change it, and write it back; a missing row is left
    alone. -/
def modifyVm (name : String) (change : VmState → VmState) : Applied :=
  match m.database.vmStates[name]? with
  | none => m.commit m.database
  | some (.junk bytes) =>
    m.abort (.error (.serialization "deserialize vm state (VmState)" (d.decodeError bytes)))
  | some (.value vm) =>
    let vm := { vm with config := rehashConfig env vm.config }
    m.commit { m.database with
      vmStates := m.database.vmStates.insert name (.value (change vm)) }

/-- The quota check of `validate_vm_admission`.  A tenant without a quota gets a
    default one, whose save waits for the transaction that is already open. -/
def checkQuota (config : VmConfig) (nodeId : ℕ) : Except Failure Unit :=
  match m.quotaManager with
  | none => .ok ()
  | some q =>
    match q.quotas[config.tenantId]? with
    | none => .error .deadlock
    | some quota => do
      let request : ResourceRequest :=
        ⟨config.tenantId, some nodeId, config.vcpus, config.memory, 0⟩
      let usage := q.getTenantUsage config.tenantId (env.now 3)
      match ← QuotaManager.checkLimits d.toPlatform quota usage.vmUsage request with
      | none => pure ()
      | some violation => throw (.error (.insufficientResources
          s!"VM with {config.vcpus} vCPUs, {config.memory} MB memory"
          s!"Quota violation: {violation.debug}"))

def validateVmAdmission (config : VmConfig) (nodeId : ℕ) : Except Failure Unit :=
  if ¬ d.admission then .ok ()
  else
    match d.runtime with
    | .absent => .error (.error (.internal "No tokio runtime available"))
    | .driving => if d.sharedAlive then .error blockOnPanic else .ok ()
    | .blocking => if d.sharedAlive then m.checkQuota d env config nodeId else .ok ()

def applyVmCommand : VmCommand → Applied
  | .create config nodeId =>
    match m.validateVmAdmission d env config nodeId with
    | .error failure => m.abort failure
    | .ok () =>
      let config := rehashConfig env config
      m.commit { m.database with
        vmStates := m.database.vmStates.insert config.name
          (.value ⟨config.name, config, .creating, nodeId, env.now 2, env.now 2⟩) }
  | .start name => m.modifyVm d env name fun vm => { vm with status := .starting }
  | .stop name => m.modifyVm d env name fun vm => { vm with status := .stopping }
  | .delete name =>
    m.commit { m.database with vmStates := m.database.vmStates.erase name }
  | .migrate task => m.modifyVm d env task.vmName fun vm =>
      { vm with nodeId := task.targetNodeId, status := .stopping }
  | .updateStatus _ _ => m.commit m.database

def applyUpdateVmStatus (vmName : String) (status : VmStatus) (nodeId : ℕ) : Applied :=
  m.modifyVm d env vmName fun vm => { vm with status, nodeId }

def applyIpPoolCommand (command : IpPoolCommand) : Applied :=
  m.blockOn d fun _ =>
    let (ipPoolManager, result) := m.ipPoolManager.processCommand d.toPlatform command
    ({ m with ipPoolManager }, result)

/-- The addresses in a mapping row; a row that does not decode counts as empty. -/
def mappedIps (vmId : VmId) : List IpAddr :=
  (m.database.vmIpMappings[vmId]?.bind Encoded.decode).getD []

def storeAllocation (a : IpAllocation) : Database :=
  let ips := m.mappedIps a.vmId
  { m.database with
    ipAllocations := m.database.ipAllocations.insert ⟨a.poolId, a.ip⟩ (.value a)
    vmIpMappings := m.database.vmIpMappings.insert a.vmId
      (.value (if a.ip ∈ ips then ips else ips ++ [a.ip])) }

/-- A failed allocation is only logged: the call succeeds all the same. -/
def applyAllocateIp (request : IpAllocationRequest) : Applied :=
  m.blockOn d fun _ =>
    let (ipPoolManager, result) :=
      m.ipPoolManager.allocateIp d.toPlatform env.toPoolEnv request
    let m := { m with ipPoolManager }
    match result with
    | .ok r => m.commit (m.storeAllocation r.allocation)
    | .error _ => m.commit m.database

/-- The manager releases all addresses of the machine once for each address in the
    row; only the mapping row is removed. -/
def applyReleaseVmIps (vmId : VmId) : Applied :=
  let ips := m.mappedIps vmId
  let finish (ipPoolManager : IpPoolManager) : Applied :=
    { m with ipPoolManager }.commit
      { m.database with vmIpMappings := m.database.vmIpMappings.erase vmId }
  match d.runtime with
  | .absent => m.abort (.error (.internal "No tokio runtime available"))
  | .driving => if ips = [] then finish m.ipPoolManager else m.abort blockOnPanic
  | .blocking =>
    finish (ips.foldl (fun manager _ => manager.releaseVmIps vmId) m.ipPoolManager)

/-! ## Quotas -/

/-- After the commit, the quota manager in memory is told, if there is one.  Without
    a runtime that is skipped; inside a task of the runtime it panics. -/
def tellQuotaManager (change : QuotaManager → Database → Except Failure (QuotaManager × Database)) :
    Applied :=
  if ¬ d.sharedAlive then (m, .ok ())
  else
    match d.runtime with
    | .absent => (m, .ok ())
    | .driving => m.abort blockOnPanic
    | .blocking =>
      match m.quotaManager with
      | none => (m, .ok ())
      | some q =>
        match change q m.database with
        | .error failure => m.abort failure
        | .ok (q, database) => ({ m with quotaManager := some q, database }, .ok ())

def saveTenantQuota (db : Database) (quota : TenantQuota) : Database :=
  { db with tenantQuotas := db.tenantQuotas.insert quota.tenantId (.value quota) }

def deleteTenantQuota (db : Database) (tenantId : String) : Database :=
  { db with tenantQuotas := db.tenantQuotas.erase tenantId }

def applySetTenantQuota (quota : TenantQuota) : Applied :=
  { m with database := saveTenantQuota m.database quota }.tellQuotaManager d fun q db =>
    .ok (q.setTenantQuota quota, saveTenantQuota db quota)

/-- The usage of a tenant that an update starts from: a missing row or one that does
    not decode is a new usage. -/
def currentUsage (tenantId : String) : TenantUsage :=
  match m.database.tenantUsage[tenantId]?.bind Encoded.decode with
  | some usage =>
    { usage with vmUsage.vmsPerNode := env.rehashCounts usage.vmUsage.vmsPerNode }
  | none => .new tenantId (env.now 3)

def updatedUsage (tenantId : String) (delta : ResourceUsageDelta) : Except Failure TenantUsage := do
  let usage := m.currentUsage env tenantId
  let activeVms ← d.applyDelta 32 usage.vmUsage.activeVms delta.vmCountDelta
  let usedVcpus ← d.applyDelta 32 usage.vmUsage.usedVcpus delta.vcpuDelta
  let usedMemoryMb ← d.applyDelta 64 usage.vmUsage.usedMemoryMb delta.memoryMbDelta
  let usedDiskGb ← d.applyDelta 64 usage.vmUsage.usedDiskGb delta.diskGbDelta
  return { usage with
    vmUsage := { usage.vmUsage with activeVms, usedVcpus, usedMemoryMb, usedDiskGb }
    updatedAt := env.now 4 }

def applyUpdateTenantUsage (tenantId : String) (delta : ResourceUsageDelta) : Applied :=
  match m.updatedUsage d env tenantId delta with
  | .error failure => m.abort failure
  | .ok usage =>
    { m with database := { m.database with
        tenantUsage := m.database.tenantUsage.insert tenantId (.value usage) }
      }.tellQuotaManager d fun q db => do
        -- the node id is a placeholder in the source as well
        let q ← q.updateResourceUsage d.toPlatform tenantId delta.vcpuDelta delta.memoryMbDelta
          delta.diskGbDelta 1 (env.now 5)
        return (q, db)

def applyRemoveTenantQuota (tenantId : String) : Applied :=
  { m with database := { deleteTenantQuota m.database tenantId with
      tenantUsage := m.database.tenantUsage.erase tenantId }
    }.tellQuotaManager d fun q db =>
      .ok (q.removeTenantQuota tenantId, deleteTenantQuota db tenantId)

/-! ## Entries -/

/-- One proposal; a batch is refused here, as it is inside another batch. -/
def applyOne : ProposalData → Applied
  | .assignTask taskId nodeId task => m.applyAssignTask taskId nodeId task
  | .completeTask taskId result => m.applyCompleteTask taskId result
  | .reassignTask taskId _ toNode => m.applyReassignTask taskId toNode
  | .registerWorker nodeId address capabilities topology =>
    m.applyRegisterWorker nodeId address capabilities topology
  | .updateWorkerStatus nodeId status => m.applyUpdateWorkerStatus nodeId status
  | .removeWorker nodeId => m.applyRemoveWorker nodeId
  | .createVm command => m.applyVmCommand d env command
  | .updateVmStatus vmName status nodeId => m.applyUpdateVmStatus d env vmName status nodeId
  | .migrateVm vmName fromNode toNode =>
    m.applyVmCommand d env (.migrate ⟨vmName, fromNode, toNode, false, false⟩)
  | .ipPoolCommand command => m.applyIpPoolCommand d command
  | .allocateIp request => m.applyAllocateIp d env request
  | .releaseVmIps vmId => m.applyReleaseVmIps d vmId
  | .setTenantQuota quota => m.applySetTenantQuota d quota
  | .updateTenantUsage tenantId delta _ => m.applyUpdateTenantUsage d env tenantId delta
  | .removeTenantQuota tenantId => m.applyRemoveTenantQuota d tenantId
  | .batch _ => m.abort (.error (.internal "Nested batch proposals are not supported"))

/-- The members of a batch, one by one up to the first error. -/
def applyBatch (envs : ℕ → Env) : ℕ → Machine → List ProposalData → Applied
  | _, m, [] => (m, .ok ())
  | i, m, p :: ps =>
    match m.applyOne d (envs i) p with
    | (m, .error failure) => (m, .error failure)
    | (m, .ok ()) => applyBatch envs (i + 1) m ps

def applyProposal (envs : ℕ → Env) : ProposalData → Applied
  | .batch proposals => applyBatch d envs 0 m proposals
  | p => m.applyOne d (envs 0) p

def applyEntry (decode : Bytes → Except String ProposalData) (envs : ℕ → Env) (entry : Entry) :
    Applied :=
  if entry.data = [] then (m, .ok ())
  else
    match decode entry.data with
    | .error source =>
      m.abort (.error (.serialization "deserialize proposal (ProposalData)" source))
    | .ok proposal => m.applyProposal d envs proposal

end Machine

def decodeOnly (p : ProposalData) (bytes : Bytes) : Bytes → Except String ProposalData :=
  fun data => if data = bytes then .ok p else .error "unexpected end of file"

end Blixard
