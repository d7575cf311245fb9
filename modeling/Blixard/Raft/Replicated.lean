/-
  The replicated tables: what the state machine writes, and what a snapshot carries of it.

  An entry changes no table but the eleven of `Replicated`, of which a snapshot has eight
  (`replicated_restoreFromSnapshot_iff`).
-/
import Blixard.Raft.StateMachine
import Blixard.Storage.RaftState

namespace Blixard

structure Replicated where
  vmStates : Table String (Encoded VmState)
  tasks : Table String (Encoded TaskSpec)
  taskAssignments : Table String Bytes
  taskResults : Table String (Encoded TaskResult)
  workers : Table Bytes (Encoded (String × WorkerCapabilities))
  workerStatus : Table Bytes Bytes
  nodeTopology : Table Bytes (Encoded NodeTopology)
  tenantQuotas : Table String (Encoded TenantQuota)
  tenantUsage : Table String (Encoded TenantUsage)
  ipAllocations : Table IpAllocationKey (Encoded IpAllocation)
  vmIpMappings : Table VmId (Encoded (List IpAddr))

namespace Database

def replicated (db : Database) : Replicated where
  vmStates := db.vmStates
  tasks := db.tasks
  taskAssignments := db.taskAssignments
  taskResults := db.taskResults
  workers := db.workers
  workerStatus := db.workerStatus
  nodeTopology := db.nodeTopology
  tenantQuotas := db.tenantQuotas
  tenantUsage := db.tenantUsage
  ipAllocations := db.ipAllocations
  vmIpMappings := db.vmIpMappings

def withReplicated (db : Database) (r : Replicated) : Database :=
  { db with
    vmStates := r.vmStates
    tasks := r.tasks
    taskAssignments := r.taskAssignments
    taskResults := r.taskResults
    workers := r.workers
    workerStatus := r.workerStatus
    nodeTopology := r.nodeTopology
    tenantQuotas := r.tenantQuotas
    tenantUsage := r.tenantUsage
    ipAllocations := r.ipAllocations
    vmIpMappings := r.vmIpMappings }

def SameElsewhere (db db' : Database) : Prop := db' = db.withReplicated db'.replicated

theorem SameElsewhere.refl (db : Database) : db.SameElsewhere db := rfl

theorem SameElsewhere.trans {a b c : Database} (hab : a.SameElsewhere b)
    (hbc : b.SameElsewhere c) : a.SameElsewhere c := by
  unfold SameElsewhere at hab hbc ⊢
  rw [hbc, hab]
  rfl

end Database

/-! ## What an entry writes -/

def ProposalData.isAccounting : ProposalData → Bool
  | ipPoolCommand _ | allocateIp _ | releaseVmIps _ => true
  | setTenantQuota _ | updateTenantUsage _ _ _ | removeTenantQuota _ => true
  | _ => false

namespace Machine

open Database (SameElsewhere)

section
variable {d : Deployment} {m : Machine}

/-- What is told to the quota manager changes no row and fails only for want of a
    thread to wait in. -/
theorem tellQuotaManager_of_same
    {chg : QuotaManager → Database → Except Failure (QuotaManager × Database)}
    (h : ∀ q, ∃ q', chg q m.database = .ok (q', m.database)) :
    (m.tellQuotaManager d chg).1.database = m.database ∧
    (m.tellQuotaManager d chg).2 =
      if d.sharedAlive ∧ d.runtime = .driving then .error blockOnPanic else .ok () := by
  unfold tellQuotaManager
  by_cases hs : d.sharedAlive
  · cases hr : d.runtime with
    | absent => simp [hs]
    | driving => simp [hs, abort]
    | blocking =>
      cases hq : m.quotaManager with
      | none => simp [hs]
      | some q =>
        obtain ⟨q', hq'⟩ := h q
        simp [hs, hq']
  · simp [hs]

theorem applySetTenantQuota_eq (quota : TenantQuota) :
    (m.applySetTenantQuota d quota).1.database = saveTenantQuota m.database quota ∧
    (m.applySetTenantQuota d quota).2 =
      if d.sharedAlive ∧ d.runtime = .driving then .error blockOnPanic else .ok () := by
  refine tellQuotaManager_of_same fun q => ⟨q.setTenantQuota quota, ?_⟩
  simp only [saveTenantQuota, Table.insert_insert]

theorem applyRemoveTenantQuota_eq (tid : String) : (m.applyRemoveTenantQuota d tid).1.database =
      { deleteTenantQuota m.database tid with
        tenantUsage := m.database.tenantUsage.erase tid } ∧
    (m.applyRemoveTenantQuota d tid).2 =
      if d.sharedAlive ∧ d.runtime = .driving then .error blockOnPanic else .ok () := by
  refine tellQuotaManager_of_same fun q => ⟨q.removeTenantQuota tid, ?_⟩
  simp only [deleteTenantQuota, Table.erase_erase]

end

variable (d : Deployment) (env : Env) (m : Machine)

theorem blockOn_cases (run : Unit → Applied) :
    m.blockOn d run = run () ∧ d.runtime = .blocking ∨ ∃ f, m.blockOn d run = m.abort f := by
  unfold blockOn
  rcases d.runtime with _ | _ | _
  · exact Or.inr ⟨_, rfl⟩
  · exact Or.inr ⟨_, rfl⟩
  · exact Or.inl ⟨rfl, rfl⟩

theorem modifyVm_vms (name : String) (chg : VmState → VmState) : ∃ vms,
    (m.modifyVm d env name chg).1 = { m with database := { m.database with vmStates := vms } } := by
  unfold modifyVm
  split
  · exact ⟨_, rfl⟩
  · exact ⟨_, rfl⟩
  · exact ⟨_, rfl⟩

theorem applyVmCommand_vms (cmd : VmCommand) : ∃ vms, (m.applyVmCommand d env cmd).1 =
      { m with database := { m.database with vmStates := vms } } := by
  cases cmd with
  | create cfg nid =>
    rw [applyVmCommand]
    split
    · exact ⟨_, rfl⟩
    · exact ⟨_, rfl⟩
  | start name | stop name => exact modifyVm_vms d env m name _
  | delete | updateStatus => exact ⟨_, rfl⟩
  | migrate task => exact modifyVm_vms d env m task.vmName _

theorem applyIpPoolCommand_database (cmd : IpPoolCommand) :
    (m.applyIpPoolCommand d cmd).1.database = m.database := by
  unfold applyIpPoolCommand
  rcases blockOn_cases d m (fun _ => _) with ⟨h, -⟩ | ⟨f, h⟩ <;> rw [h]
  rfl

theorem applyAllocateIp_database (req : IpAllocationRequest) :
    (m.applyAllocateIp d env req).1.database = m.database ∨
      ∃ a, (m.applyAllocateIp d env req).1.database = m.storeAllocation a := by
  unfold applyAllocateIp
  rcases blockOn_cases d m (fun _ => _) with ⟨h, -⟩ | ⟨f, h⟩ <;> rw [h]
  · dsimp only
    split
    · exact Or.inr ⟨_, rfl⟩
    · exact Or.inl rfl
  · exact Or.inl rfl

theorem applyReleaseVmIps_database (vmId : VmId) :
    (m.applyReleaseVmIps d vmId).1.database = m.database ∨
      (m.applyReleaseVmIps d vmId).1.database =
        { m.database with vmIpMappings := m.database.vmIpMappings.erase vmId } := by
  unfold applyReleaseVmIps
  dsimp only
  split
  · exact Or.inl rfl
  · split
    · exact Or.inr rfl
    · exact Or.inl rfl
  · exact Or.inr rfl

variable (chg : QuotaManager → Database → Except Failure (QuotaManager × Database))
  {P : Machine → Prop}

theorem tellQuotaManager_cases
   : (∃ res, m.tellQuotaManager d chg = (m, res)) ∨
      ∃ q q' db, chg q m.database = .ok (q', db) ∧
        m.tellQuotaManager d chg =
          ({ m with quotaManager := some q', database := db }, .ok ()) := by
  fun_cases tellQuotaManager d m chg with
  | case6 ha hr q hq q' db hc => exact .inr ⟨q, q', db, hc, rfl⟩
  | _ => exact .inl ⟨_, rfl⟩

theorem tellQuotaManager_pools
   : (m.tellQuotaManager d chg).1.ipPoolManager = m.ipPoolManager := by
  rcases tellQuotaManager_cases d m chg with ⟨res, htold⟩ | ⟨q, q', db, -, htold⟩ <;>
    rw [htold]

/-- An update writes the row of the tenant's usage, if it writes at all; what the quota
    manager is told stays in memory. -/
theorem applyUpdateTenantUsage_database (tid : String) (delta : ResourceUsageDelta) :
    (m.applyUpdateTenantUsage d env tid delta).1.database = m.database ∨ ∃ row,
      (m.applyUpdateTenantUsage d env tid delta).1.database =
        { m.database with tenantUsage := m.database.tenantUsage.insert tid row } := by
  unfold applyUpdateTenantUsage
  split
  · exact Or.inl rfl
  · rename_i usage _
    right
    refine ⟨.value usage, ?_⟩
    rcases tellQuotaManager_cases d _ _ with ⟨res, htold⟩ | ⟨q, q', db, hc, htold⟩ <;>
      rw [htold]
    obtain ⟨q₁, -, hq₁⟩ := bind_eq_ok hc
    cases hq₁
    rfl

/-- **What proposals about addresses and quotas write**: the four tables about them, and of those
    about addresses at most a record. -/
theorem applyOne_accounting {p : ProposalData} (hp : p.isAccounting = true) :
    ∃ allocs mappings quotas usage,
      (m.applyOne d env p).1.database = { m.database with
        ipAllocations := allocs
        vmIpMappings := mappings
        tenantQuotas := quotas
        tenantUsage := usage } ∧
      (allocs = m.database.ipAllocations ∨
        ∃ key a, allocs = m.database.ipAllocations.insert key (.value a)) := by
  cases p with
  | ipPoolCommand cmd => exact ⟨_, _, _, _, applyIpPoolCommand_database d m cmd, .inl rfl⟩
  | allocateIp req =>
    rcases applyAllocateIp_database d env m req with h | ⟨a, h⟩
    · exact ⟨_, _, _, _, h, .inl rfl⟩
    · exact ⟨_, _, _, _, h, .inr ⟨_, a, rfl⟩⟩
  | releaseVmIps vmId =>
    rcases applyReleaseVmIps_database d m vmId with h | h
    · exact ⟨_, _, _, _, h, .inl rfl⟩
    · exact ⟨_, _, _, _, h, .inl rfl⟩
  | setTenantQuota quota => exact ⟨_, _, _, _, (applySetTenantQuota_eq quota).1, .inl rfl⟩
  | updateTenantUsage tid delta oid =>
    rcases applyUpdateTenantUsage_database d env m tid delta with h | ⟨row, h⟩
    · exact ⟨_, _, _, _, h, .inl rfl⟩
    · exact ⟨_, _, _, _, h, .inl rfl⟩
  | removeTenantQuota t => exact ⟨_, _, _, _, (applyRemoveTenantQuota_eq t).1, .inl rfl⟩
  | _ => cases hp

theorem applyOne_sameElsewhere (p : ProposalData) :
    m.database.SameElsewhere (m.applyOne d env p).1.database := by
  have written : ∀ {m' : Machine}, (∃ vms, m' = { m with database := { m.database with
      vmStates := vms } }) → m.database.SameElsewhere m'.database := by
    rintro _ ⟨vms, rfl⟩
    rfl
  have ha := @applyOne_accounting d env m p
  cases p with
  | createVm cmd => exact written (applyVmCommand_vms d env m cmd)
  | updateVmStatus vm st nid => exact written (modifyVm_vms d env m vm _)
  | migrateVm vm fromNode toNode => exact written (applyVmCommand_vms d env m _)
  | ipPoolCommand | allocateIp | releaseVmIps | setTenantQuota | updateTenantUsage
  | removeTenantQuota =>
    obtain ⟨allocations, mappings, quotas, usage, h, -⟩ := ha rfl
    rw [h]
    rfl
  | _ => rfl

theorem applyBatch_keeps
    (one : ∀ m env p, P m → P (applyOne d env m p).1) (envs : ℕ → Env) (ps : List ProposalData)
    (i : ℕ) {m : Machine} (h : P m) : P (applyBatch d envs i m ps).1 := by
  induction ps generalizing i m with
  | nil => exact h
  | cons p ps ih =>
    have hone := one m (envs i) p h
    rw [applyBatch]
    rcases heq : m.applyOne d (envs i) p with ⟨m', _ | _⟩ <;> rw [heq] at hone
    · exact hone
    · exact ih (i + 1) hone

/-- **What every proposal keeps, an entry keeps.** -/
theorem applyEntry_keeps (one : ∀ m env p, P m → P (applyOne d env m p).1)
    (decode : Bytes → Except String ProposalData) (envs : ℕ → Env) (entry : Entry) {m : Machine}
    (h : P m) : P (m.applyEntry d decode envs entry).1 := by
  unfold applyEntry
  split
  · exact h
  split
  · exact h
  unfold applyProposal
  split
  · exact applyBatch_keeps d one envs _ 0 h
  · exact one m (envs 0) _ h

/-- **What an entry writes**: replicated tables only. -/
theorem applyEntry_sameElsewhere (decode : Bytes → Except String ProposalData) (envs : ℕ → Env)
    (entry : Entry) : m.database.SameElsewhere (m.applyEntry d decode envs entry).1.database :=
  applyEntry_keeps d (P := fun m' => m.database.SameElsewhere m'.database)
    (fun m' env p h => h.trans (applyOne_sameElsewhere d env m' p)) decode envs entry (.refl _)

end Machine

/-! ## What a snapshot carries -/

namespace Database

/-- **A follower caught up by a snapshot** has the source's replicated tables exactly if it had its
    topology, quotas and usage before: those are not part of a snapshot. -/
theorem replicated_restoreFromSnapshot_iff (codec : SnapshotCodec) (src dst : Database)
    (hcodec : codec.deserialize (codec.serialize src.createSnapshotData) =
      .ok src.createSnapshotData) :
    (dst.restoreFromSnapshot codec (codec.serialize src.createSnapshotData)).1.replicated =
        src.replicated ↔
      dst.nodeTopology = src.nodeTopology ∧ dst.tenantQuotas = src.tenantQuotas ∧
        dst.tenantUsage = src.tenantUsage := by
  simp only [restoreFromSnapshot, hcodec, restoreTables_createSnapshotData, replicated,
    Replicated.mk.injEq, true_and, and_true]

end Database

def SnapshotCodec.only (snapshot : SnapshotData) (bytes : Bytes) : SnapshotCodec where
  serialize _ := bytes
  deserialize data := if data = bytes then .ok snapshot else .error "unexpected end of file"

def registerWorkerOne : ProposalData := .registerWorker 1 "n1:7001" ⟨4, 8192, 100, []⟩ {}

/-- The snapshot of a node that has only worker 1, as bytes: ten sequences, each after
    its length. -/
def workerOneSnapshot (status : WorkerStatus) : Bytes :=
  let u64 := Bytes.leBytes 8
  let address := "n1:7001".toUTF8.toList
  let worker := u64 address.length ++ address ++ Bytes.leBytes 4 4 ++ u64 8192 ++ u64 100 ++ u64 0
  List.replicate 40 0 ++
    (u64 1 ++ (u64 8 ++ u64 1) ++ (u64 worker.length ++ worker)) ++
    (u64 1 ++ (u64 8 ++ u64 1) ++ (u64 1 ++ [status.toByte])) ++
    List.replicate 24 0

/-- Two nodes registered the worker, and one of them saw it become busy: its snapshot
    brings the other one up to date. -/
theorem busy_worker_reaches_registered_node :
    let dst := (Machine.new.applyOne .raftManager (.still 0) registerWorkerOne).1
    let src := (dst.applyOne .raftManager (.still 1) (.updateWorkerStatus 1 .busy)).1.database
    let codec := SnapshotCodec.only src.createSnapshotData (workerOneSnapshot .busy)
    (dst.database.restoreFromSnapshot codec (codec.serialize src.createSnapshotData)).1.replicated =
      src.replicated :=
  (Database.replicated_restoreFromSnapshot_iff _ _ _ (by decide +kernel)).2
    ⟨by decide +kernel, by decide +kernel, by decide +kernel⟩

/-- A new node that is caught up by a snapshot does not know the topology of a worker
    that was registered before. -/
theorem snapshot_loses_topology :
    let src := (Machine.new.applyOne .raftManager (.still 0) registerWorkerOne).1.database
    let codec := SnapshotCodec.only src.createSnapshotData (workerOneSnapshot .online)
    codec.deserialize (codec.serialize src.createSnapshotData) = .ok src.createSnapshotData ∧
      (Database.restoreFromSnapshot codec {} (codec.serialize src.createSnapshotData)).1.replicated ≠
        src.replicated := by
  refine ⟨by decide +kernel, fun h => ?_⟩
  have htopology := congrArg (fun r => r.nodeTopology[Bytes.leBytes 8 1]?) h
  revert htopology
  decide +kernel

end Blixard
