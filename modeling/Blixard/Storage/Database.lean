/-
  The database of a node (`raft_storage.rs`): its tables, and the snapshot of ten of them.

  A row is the value it encodes, or bytes that do not decode (`Encoded`).  A missing table reads
  as an empty one.
-/
import Blixard.RaftCodec
import Blixard.IpPool.Config

namespace Blixard

/-- The bytes of a row: an encoded value, or bytes that encode none. -/
inductive Encoded (α : Type) where
  | value (a : α)
  | junk (bytes : Bytes)
  deriving DecidableEq

def Encoded.decode {α : Type} : Encoded α → Option α
  | value a => some a
  | junk _ => none

/-- The key `"{pool_id}:{ip}"` of an allocation row. -/
structure IpAllocationKey where
  poolId : IpPoolId
  ip : IpAddr
  deriving DecidableEq

instance : Ord IpAllocationKey := ⟨compareOn fun k => [k.poolId.id, k.ip.rank]⟩
instance : Std.TransOrd IpAllocationKey := transCmp_compareOn _
instance : Std.LawfulEqOrd IpAllocationKey := lawfulEqCmp_compareOn (by
  rintro ⟨⟨i⟩, a⟩ ⟨⟨j⟩, b⟩ h
  obtain ⟨rfl, h⟩ := List.cons.inj h
  rw [IpAddr.rank_injective a b (List.cons.inj h).1])

structure Database where
  vmStates : Table String (Encoded VmState) := ∅
  clusterState : Table String (Encoded ConfState) := ∅
  raftLog : Table ℕ Bytes := ∅
  raftHardState : Table String Bytes := ∅
  raftConfState : Table String Bytes := ∅
  tasks : Table String (Encoded TaskSpec) := ∅
  taskAssignments : Table String Bytes := ∅
  taskResults : Table String (Encoded TaskResult) := ∅
  workers : Table Bytes (Encoded (String × WorkerCapabilities)) := ∅
  workerStatus : Table Bytes Bytes := ∅
  nodeTopology : Table Bytes (Encoded NodeTopology) := ∅
  tenantQuotas : Table String (Encoded TenantQuota) := ∅
  tenantUsage : Table String (Encoded TenantUsage) := ∅
  ipPools : Table ℕ (Encoded IpPoolConfig) := ∅
  ipAllocations : Table IpAllocationKey (Encoded IpAllocation) := ∅
  vmIpMappings : Table VmId (Encoded (List IpAddr)) := ∅

/-! ## Snapshots of the tables -/

structure SnapshotData where
  vmStates : List (String × Encoded VmState)
  clusterState : List (String × Encoded ConfState)
  tasks : List (String × Encoded TaskSpec)
  taskAssignments : List (String × Bytes)
  taskResults : List (String × Encoded TaskResult)
  workers : List (Bytes × Encoded (String × WorkerCapabilities))
  workerStatus : List (Bytes × Bytes)
  ipPools : List (ℕ × Encoded IpPoolConfig)
  ipAllocations : List (IpAllocationKey × Encoded IpAllocation)
  vmIpMappings : List (VmId × Encoded (List IpAddr))
  deriving DecidableEq

namespace Database

def createSnapshotData (db : Database) : SnapshotData where
  vmStates := db.vmStates.toList
  clusterState := db.clusterState.toList
  tasks := db.tasks.toList
  taskAssignments := db.taskAssignments.toList
  taskResults := db.taskResults.toList
  workers := db.workers.toList
  workerStatus := db.workerStatus.toList
  ipPools := db.ipPools.toList
  ipAllocations := db.ipAllocations.toList
  vmIpMappings := db.vmIpMappings.toList

/-- Clear the ten tables and fill them with the rows of the snapshot. -/
def restoreTables (db : Database) (snapshot : SnapshotData) : Database :=
  { db with
    vmStates := Table.refill db.vmStates snapshot.vmStates
    clusterState := Table.refill db.clusterState snapshot.clusterState
    tasks := Table.refill db.tasks snapshot.tasks
    taskAssignments := Table.refill db.taskAssignments snapshot.taskAssignments
    taskResults := Table.refill db.taskResults snapshot.taskResults
    workers := Table.refill db.workers snapshot.workers
    workerStatus := Table.refill db.workerStatus snapshot.workerStatus
    ipPools := Table.refill db.ipPools snapshot.ipPools
    ipAllocations := Table.refill db.ipAllocations snapshot.ipAllocations
    vmIpMappings := Table.refill db.vmIpMappings snapshot.vmIpMappings }

/-- **A restored snapshot**: the ten tables of the source, the other tables of the
    receiver. -/
theorem restoreTables_createSnapshotData (src dst : Database) :
    dst.restoreTables src.createSnapshotData =
      { src with
        raftLog := dst.raftLog
        raftHardState := dst.raftHardState
        raftConfState := dst.raftConfState
        nodeTopology := dst.nodeTopology
        tenantQuotas := dst.tenantQuotas
        tenantUsage := dst.tenantUsage } := by
  simp only [restoreTables, createSnapshotData, Table.refill_toList]

end Database

end Blixard
