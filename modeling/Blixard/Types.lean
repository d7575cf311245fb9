/-
  The replicated data of Blixard (`types.rs`, `raft/proposals.rs`, `resource_quotas.rs`).

  Times are whole numbers, `f32` and `f64` values are kept as their bits.  A hash map is the list
  of its pairs in iteration order; reading one back from its encoding may reorder it.
-/
import Blixard.Lib.Bytes
import Blixard.Lib.Table
import Blixard.Error

namespace Blixard

/-! ## Virtual machines -/

structure VmId where
  uuid : BitVec 128
  deriving DecidableEq

instance : Ord VmId := ⟨compareOn fun v => v.uuid.toNat⟩
instance : Std.TransOrd VmId := transCmp_compareOn _
instance : Std.LawfulEqOrd VmId := lawfulEqCmp_compareOn (by
  rintro ⟨a⟩ ⟨b⟩ h
  exact congrArg VmId.mk (BitVec.eq_of_toNat_eq h))

structure NodeTopology where
  datacenter : String := "default-dc"
  zone : String := "default-zone"
  rack : String := "default-rack"
  deriving DecidableEq

inductive AntiAffinityType where
  | hard
  | soft (weight : BitVec 64)
  deriving DecidableEq

structure AntiAffinityRule where
  ruleType : AntiAffinityType
  groupKey : String
  maxPerNode : ℕ := 1
  scope : Option String := none
  deriving DecidableEq

structure LocalityPreference where
  preferredDatacenter : Option String := none
  preferredZone : Option String := none
  enforceSameDatacenter : Bool := false
  spreadAcrossZones : Bool := false
  maxLatencyMs : Option ℕ := none
  excludedDatacenters : List String := []
  deriving DecidableEq

structure VmConfig where
  name : String := ""
  configPath : String := ""
  vcpus : ℕ := 1
  memory : ℕ := 1024
  tenantId : String := "default"
  ipAddress : Option String := none
  metadata : Option (List (String × String)) := none
  antiAffinity : Option (List AntiAffinityRule) := none
  priority : ℕ := 500
  preemptible : Bool := true
  localityPreference : LocalityPreference := {}
  deriving DecidableEq

inductive VmStatus where
  | creating | starting | running | stopping | stopped | failed
  deriving DecidableEq

/-- Neither stopped nor failed. -/
def VmStatus.isActive : VmStatus → Bool
  | stopped | failed => false
  | creating | starting | running | stopping => true

structure VmState where
  name : String
  config : VmConfig
  status : VmStatus
  nodeId : ℕ
  createdAt : ℤ
  updatedAt : ℤ
  deriving DecidableEq

structure VmMigrationTask where
  vmName : String
  sourceNodeId : ℕ
  targetNodeId : ℕ
  liveMigration : Bool
  force : Bool

inductive VmCommand where
  | create (config : VmConfig) (nodeId : ℕ)
  | start (name : String)
  | stop (name : String)
  | delete (name : String)
  | updateStatus (name : String) (status : VmStatus)
  | migrate (task : VmMigrationTask)

structure ResourceRequirements where
  cpuCores : ℕ
  memoryMb : ℕ
  diskGb : ℕ
  requiredFeatures : List String
  deriving DecidableEq

structure TaskSpec where
  command : String
  args : List String
  resources : ResourceRequirements
  timeoutSecs : ℕ
  deriving DecidableEq

structure TaskResult where
  success : Bool
  output : String
  error : Option String
  executionTimeMs : ℕ
  deriving DecidableEq

structure WorkerCapabilities where
  cpuCores : ℕ
  memoryMb : ℕ
  diskGb : ℕ
  features : List String
  deriving DecidableEq

inductive WorkerStatus where
  | online | busy | offline | failed
  deriving DecidableEq

def WorkerStatus.toByte : WorkerStatus → UInt8
  | online => 0
  | busy => 1
  | offline => 2
  | failed => 3

/-! ## Quotas -/

structure VmResourceLimits where
  maxVms : ℕ := 50
  maxVcpus : ℕ := 200
  maxMemoryMb : ℕ := 204800
  maxDiskGb : ℕ := 2048
  maxVmsPerNode : ℕ := 25
  -- the bits of `1.2`
  overcommitRatio : BitVec 32 := 0x3f99999a
  priority : ℕ := 100
  deriving DecidableEq

structure OperationLimits where
  vmCreatePerMinute : ℕ := 10
  vmDeletePerMinute : ℕ := 20
  clusterJoinPerHour : ℕ := 5
  statusQueryPerSecond : ℕ := 50
  configChangePerHour : ℕ := 10
  deriving DecidableEq

structure ApiRateLimits where
  requestsPerSecond : ℕ := 100
  burstCapacity : ℕ := 200
  maxConcurrentRequests : ℕ := 50
  operationLimits : OperationLimits := {}
  deriving DecidableEq

structure StorageLimits where
  maxStorageGb : ℕ := 1024
  maxDiskImages : ℕ := 100
  maxImageSizeGb : ℕ := 100
  maxBackupStorageGb : ℕ := 512
  maxIops : ℕ := 10000
  deriving DecidableEq

structure TenantQuota where
  tenantId : String
  vmLimits : VmResourceLimits := {}
  apiLimits : ApiRateLimits := {}
  storageLimits : StorageLimits := {}
  enabled : Bool := true
  createdAt : ℤ
  updatedAt : ℤ
  deriving DecidableEq

def TenantQuota.new (tenantId : String) (now : ℤ) : TenantQuota :=
  { tenantId, createdAt := now, updatedAt := now }

structure VmResourceUsage where
  activeVms : ℕ := 0
  usedVcpus : ℕ := 0
  usedMemoryMb : ℕ := 0
  usedDiskGb : ℕ := 0
  vmsPerNode : List (ℕ × ℕ) := []
  deriving DecidableEq

structure OperationUsage where
  vmCreateCurrentMinute : ℕ := 0
  vmDeleteCurrentMinute : ℕ := 0
  clusterJoinCurrentHour : ℕ := 0
  statusQueryCurrentSecond : ℕ := 0
  configChangeCurrentHour : ℕ := 0
  deriving DecidableEq

structure ApiUsage where
  requestsCurrentSecond : ℕ := 0
  requestsCurrentMinute : ℕ := 0
  requestsCurrentHour : ℕ := 0
  concurrentRequests : ℕ := 0
  operationUsage : OperationUsage := {}
  requestTimestamps : List ℤ := []
  deriving DecidableEq

structure StorageUsage where
  usedStorageGb : ℕ := 0
  diskImageCount : ℕ := 0
  backupStorageGb : ℕ := 0
  currentIops : ℕ := 0
  deriving DecidableEq

structure TenantUsage where
  tenantId : String
  vmUsage : VmResourceUsage := {}
  apiUsage : ApiUsage := {}
  storageUsage : StorageUsage := {}
  updatedAt : ℤ
  deriving DecidableEq

def TenantUsage.new (tenantId : String) (now : ℤ) : TenantUsage :=
  { tenantId, updatedAt := now }

inductive ResourceOperation where
  | create | update | delete

structure ResourceUsageDelta where
  vmCountDelta : ℤ
  vcpuDelta : ℤ
  memoryMbDelta : ℤ
  diskGbDelta : ℤ
  operation : ResourceOperation
  timestamp : ℤ

end Blixard
