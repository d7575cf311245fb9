/-
  The replicated tables as one store, and what an entry writes into it.

  `Course` says what a proposal does in terms of that store.  A `Determined` proposal takes its
  course whatever the clock, the quota manager and the other surroundings are
  (`applyEntry_follows`).
-/
import Blixard.Lib.Replay
import Blixard.Raft.Determinism
import Mathlib.Data.Multiset.Defs

namespace Blixard

open Database Deployment List Multiset Replay TenantUsage

/-! ## One store -/

def Encoded.map {α β : Type} (f : α → β) : Encoded α → Encoded β
  | value a => .value (f a)
  | junk bytes => .junk bytes

/-- A machine without its times, and its metadata without the order of the map. -/
structure VmView where
  name : String
  config : VmConfig
  metadata : Option (Multiset (String × String))
  status : VmStatus
  nodeId : ℕ

def VmState.view (vm : VmState) : VmView where
  name := vm.name
  config := { vm.config with metadata := none }
  metadata := vm.config.metadata.map Multiset.ofList
  status := vm.status
  nodeId := vm.nodeId

/-- The usage of a tenant without its time, and its counts without the order of the map. -/
structure UsageView where
  usage : TenantUsage
  vmsPerNode : Multiset (ℕ × ℕ)

def TenantUsage.view (usage : TenantUsage) : UsageView where
  usage := { usage with vmUsage.vmsPerNode := [], updatedAt := 0 }
  vmsPerNode := usage.vmUsage.vmsPerNode

def IpAllocation.view (a : IpAllocation) : IpAllocation := { a with allocatedAt := 0 }

def UsageView.update (d : Deployment) (view : UsageView) (delta : ResourceUsageDelta) :
    Except Failure UsageView := do
  let use := view.usage.vmUsage
  let activeVms ← d.applyDelta 32 use.activeVms delta.vmCountDelta
  let usedVcpus ← d.applyDelta 32 use.usedVcpus delta.vcpuDelta
  let usedMemoryMb ← d.applyDelta 64 use.usedMemoryMb delta.memoryMbDelta
  let usedDiskGb ← d.applyDelta 64 use.usedDiskGb delta.diskGbDelta
  return { view with
    usage.vmUsage := { use with activeVms, usedVcpus, usedMemoryMb, usedDiskGb } }

inductive RowKey where
  | vm (name : String)
  | task (taskId : String)
  | taskAssignment (taskId : String)
  | taskResult (taskId : String)
  | worker (key : Bytes)
  | workerStatus (key : Bytes)
  | nodeTopology (key : Bytes)
  | tenantQuota (tenantId : String)
  | tenantUsage (tenantId : String)
  | ipAllocation (key : IpAllocationKey)
  | vmIpMapping (vmId : VmId)
  deriving DecidableEq

inductive Row where
  | vm (row : Encoded VmView)
  | task (row : Encoded TaskSpec)
  | taskAssignment (row : Bytes)
  | taskResult (row : Encoded TaskResult)
  | worker (row : Encoded (String × WorkerCapabilities))
  | workerStatus (row : Bytes)
  | nodeTopology (row : Encoded NodeTopology)
  | tenantQuota (row : Encoded TenantQuota)
  | tenantUsage (row : Encoded UsageView)
  | ipAllocation (row : Encoded IpAllocation)
  | vmIpMapping (row : Encoded (List IpAddr))

def Database.rows (db : Database) : RowKey → Option Row
  | .vm name => db.vmStates[name]?.map fun row => .vm (row.map VmState.view)
  | .task taskId => db.tasks[taskId]?.map .task
  | .taskAssignment taskId => db.taskAssignments[taskId]?.map .taskAssignment
  | .taskResult taskId => db.taskResults[taskId]?.map .taskResult
  | .worker key => db.workers[key]?.map .worker
  | .workerStatus key => db.workerStatus[key]?.map .workerStatus
  | .nodeTopology key => db.nodeTopology[key]?.map .nodeTopology
  | .tenantQuota tenantId => db.tenantQuotas[tenantId]?.map .tenantQuota
  | .tenantUsage tenantId =>
    db.tenantUsage[tenantId]?.map fun row => .tenantUsage (row.map TenantUsage.view)
  | .ipAllocation key =>
    db.ipAllocations[key]?.map fun row => .ipAllocation (row.map IpAllocation.view)
  | .vmIpMapping vmId => db.vmIpMappings[vmId]?.map .vmIpMapping

def Row.currentUsage (tenantId : String) : Option Row → UsageView
  | some (.tenantUsage (.value view)) => view
  | _ => (TenantUsage.new tenantId 0).view

structure VmChange where
  status : Option VmStatus := none
  nodeId : Option ℕ := none

namespace VmChange

/-- First the right change and then the left one. -/
instance : Monoid VmChange where
  mul a b := ⟨a.status.or b.status, a.nodeId.or b.nodeId⟩
  one := {}
  mul_assoc _ _ _ := congrArg₂ VmChange.mk Option.or_assoc Option.or_assoc
  one_mul _ := rfl
  mul_one _ := congrArg₂ VmChange.mk Option.or_none Option.or_none

theorem idempotent (a : VmChange) : IsIdempotentElem a :=
  congrArg₂ VmChange.mk Option.or_self Option.or_self

def apply (a : VmChange) : Row → Row
  | .vm (.value vm) =>
    .vm (.value { vm with
      status := a.status.getD vm.status
      nodeId := a.nodeId.getD vm.nodeId })
  | row => row

instance : MulAction VmChange Row where
  smul := apply
  one_smul row := by
    show apply 1 row = row
    unfold apply
    split <;> rfl
  mul_smul := by
    rintro ⟨s, n⟩ ⟨s', n'⟩ row
    show apply ⟨s.or s', n.or n'⟩ row = apply ⟨s, n⟩ (apply ⟨s', n'⟩ row)
    rcases row with (vm | bytes) | _ | _ | _ | _ | _ | _ | _ | _ | _ | _ <;>
      cases s <;> cases n <;> rfl

end VmChange

abbrev TableWrite := Replay.Write RowKey Row VmChange

/-! ## Courses -/

/-- What a proposal does: its writes, the pools in memory afterwards, and its result. -/
structure Course where
  writes : List TableWrite
  ipPoolManager : IpPoolManager
  result : Except Failure Unit

variable (d : Deployment)

def Deployment.wait : Except Failure Unit :=
  match d.runtime with
  | .absent => .error (.error (.internal "No tokio runtime available"))
  | .driving => .error Machine.blockOnPanic
  | .blocking => .ok ()

def Deployment.tell : Except Failure Unit :=
  if d.sharedAlive ∧ d.runtime = .driving then .error Machine.blockOnPanic else .ok ()

def Deployment.admitted : Except Failure Unit :=
  if ¬ d.admission then .ok ()
  else if d.runtime = .driving ∧ ¬ d.sharedAlive then .ok ()
  else d.wait

def courseOne (pools : IpPoolManager) (rows : RowKey → Option Row) : ProposalData → Course
  | .assignTask taskId nodeId task =>
    ⟨[.put (.task taskId) (.task (.value task)),
      .put (.taskAssignment taskId) (.taskAssignment (Bytes.leBytes 8 nodeId))], pools, .ok ()⟩
  | .completeTask taskId result =>
    ⟨[.put (.taskResult taskId) (.taskResult (.value result)), .drop (.taskAssignment taskId)],
      pools, .ok ()⟩
  | .reassignTask taskId _ toNode =>
    ⟨[.put (.taskAssignment taskId) (.taskAssignment (Bytes.leBytes 8 toNode))], pools, .ok ()⟩
  | .registerWorker nodeId address capabilities topology =>
    let key := Bytes.leBytes 8 nodeId
    ⟨[.put (.worker key) (.worker (.value (address, capabilities))),
      .put (.workerStatus key) (.workerStatus [WorkerStatus.online.toByte]),
      .put (.nodeTopology key) (.nodeTopology (.value topology))], pools, .ok ()⟩
  | .updateWorkerStatus nodeId status =>
    ⟨[.put (.workerStatus (Bytes.leBytes 8 nodeId)) (.workerStatus [status.toByte])], pools, .ok ()⟩
  | .removeWorker nodeId =>
    let key := Bytes.leBytes 8 nodeId
    ⟨[.drop (.worker key), .drop (.workerStatus key), .drop (.nodeTopology key)], pools, .ok ()⟩
  | .createVm (.create config nodeId) =>
    match d.admitted with
    | .error failure => ⟨[], pools, .error failure⟩
    | .ok () =>
      let vm : VmState := ⟨config.name, config, .creating, nodeId, 0, 0⟩
      ⟨[.put (.vm config.name) (.vm (.value vm.view))], pools, .ok ()⟩
  | .createVm (.start name) => ⟨[.adjust (.vm name) ⟨some .starting, none⟩], pools, .ok ()⟩
  | .createVm (.stop name) => ⟨[.adjust (.vm name) ⟨some .stopping, none⟩], pools, .ok ()⟩
  | .createVm (.delete name) => ⟨[.drop (.vm name)], pools, .ok ()⟩
  | .createVm (.migrate task) =>
    ⟨[.adjust (.vm task.vmName) ⟨some .stopping, some task.targetNodeId⟩], pools, .ok ()⟩
  | .createVm (.updateStatus _ _) => ⟨[], pools, .ok ()⟩
  | .updateVmStatus vmName status nodeId =>
    ⟨[.adjust (.vm vmName) ⟨some status, some nodeId⟩], pools, .ok ()⟩
  | .migrateVm vmName _ toNode =>
    ⟨[.adjust (.vm vmName) ⟨some .stopping, some toNode⟩], pools, .ok ()⟩
  | .ipPoolCommand command =>
    match d.wait with
    | .error failure => ⟨[], pools, .error failure⟩
    | .ok () =>
      let processed := pools.processCommand d.toPlatform command
      ⟨[], processed.1, processed.2⟩
  | .allocateIp _ => ⟨[], pools, d.wait⟩
  | .releaseVmIps vmId =>
    if d.runtime = .absent then ⟨[], pools, d.wait⟩
    else ⟨[.drop (.vmIpMapping vmId)], pools, .ok ()⟩
  | .setTenantQuota quota =>
    ⟨[.put (.tenantQuota quota.tenantId) (.tenantQuota (.value quota))], pools, d.tell⟩
  | .updateTenantUsage tenantId delta _ =>
    match (Row.currentUsage tenantId (rows (.tenantUsage tenantId))).update d delta with
    | .error failure => ⟨[], pools, .error failure⟩
    | .ok view =>
      ⟨[.put (.tenantUsage tenantId) (.tenantUsage (.value view))], pools, d.tell⟩
  | .removeTenantQuota tenantId =>
    ⟨[.drop (.tenantQuota tenantId), .drop (.tenantUsage tenantId)], pools, d.tell⟩
  | .batch _ => ⟨[], pools, .error (.error (.internal "Nested batch proposals are not supported"))⟩

def courseBatch (pools : IpPoolManager) (rows : RowKey → Option Row) :
    List ProposalData → Course
  | [] => ⟨[], pools, .ok ()⟩
  | p :: ps =>
    match courseOne d pools rows p with
    | ⟨writes, pools, .error failure⟩ => ⟨writes, pools, .error failure⟩
    | ⟨writes, pools, .ok ()⟩ =>
      let rest := courseBatch pools (Replay.run writes rows) ps
      ⟨writes ++ rest.writes, rest.ipPoolManager, rest.result⟩

def courseProposal (pools : IpPoolManager) (rows : RowKey → Option Row) : ProposalData → Course
  | .batch proposals => courseBatch d pools rows proposals
  | p => courseOne d pools rows p

variable (decode : Bytes → Except String ProposalData)

def courseEntry (pools : IpPoolManager) (rows : RowKey → Option Row) (entry : Entry) : Course :=
  if entry.data = [] then ⟨[], pools, .ok ()⟩
  else
    match decode entry.data with
    | .error source =>
      ⟨[], pools, .error (.error (.serialization "deserialize proposal (ProposalData)" source))⟩
    | .ok proposal => courseProposal d pools rows proposal

/-! ## Entries take their course -/

/-- A condition on the members of a batch, or on a proposal by itself. -/
def ProposalData.Each (P : ProposalData → Prop) : ProposalData → Prop
  | .batch ps => ∀ p ∈ ps, P p
  | p => P p

def EntryOf (P : ProposalData → Prop) (entry : Entry) : Prop :=
  entry.data ≠ [] → ∀ p, decode entry.data = .ok p → p.Each P

/-- Tables and pools decide what the proposal does: neither the quota manager nor a random
    choice of addresses has a say. -/
def Determined : ProposalData → Prop
  | .createVm (.create _ _) => ¬ (d.admission ∧ d.runtime = .blocking ∧ d.sharedAlive)
  | .allocateIp _ => d.runtime ≠ .blocking
  | .updateTenantUsage _ _ _ => ¬ (d.runtime = .blocking ∧ d.sharedAlive)
  | _ => True

/-- The proposal writes the same whatever the tables are. -/
def ProposalData.IsAbsolute : ProposalData → Prop
  | .updateTenantUsage _ _ _ => False
  | _ => True

/-- Every row of a machine decodes, and no address is mapped. -/
structure Database.Tidy (db : Database) : Prop where
  decodes : ∀ (name : String) (bytes : Bytes), db.vmStates[name]? ≠ some (.junk bytes)
  unmapped : db.vmIpMappings = ∅

namespace Machine

/-- A call from the machine `m` takes the given course. -/
structure Follows (m : Machine) (applied : Applied) (course : Course) : Prop where
  rows : applied.1.database.rows = Replay.run course.writes m.database.rows
  pools : applied.1.ipPoolManager = course.ipPoolManager
  result : applied.2 = course.result
  tidy : applied.1.database.Tidy

variable {d decode} {m : Machine} {env : Env}

theorem Follows.of_same (hm : m.database.Tidy) {applied : Applied} {res : Except Failure Unit}
    (hc : applied.1 = m) (hres : applied.2 = res) :
    m.Follows applied ⟨[], m.ipPoolManager, res⟩ := by
  constructor
  · rw [hc]
    rfl
  · rw [hc]
  · exact hres
  · rw [hc]
    exact hm

theorem Follows.of_rows (hm : m.database.Tidy) {db : Database} {ws : List TableWrite}
    (hvms : db.vmStates = m.database.vmStates) (hips : db.vmIpMappings = m.database.vmIpMappings)
    (hrows : db.rows = run ws m.database.rows) :
    m.Follows (m.commit db) ⟨ws, m.ipPoolManager, .ok ()⟩ where
  rows := hrows
  pools := rfl
  result := rfl
  tidy := ⟨by rw [commit, hvms]; exact hm.decodes, by rw [commit, hips]; exact hm.unmapped⟩

theorem view_rehash (vm : VmState) :
    ({ vm with config := rehashConfig env vm.config } : VmState).view = vm.view := by
  have hm : (vm.config.metadata.map env.rehash).map ofList =
      vm.config.metadata.map ofList := by
    cases vm.config.metadata with
    | none => rfl
    | some metadata => simpa using env.rehash_perm metadata
  unfold VmState.view
  simp only [rehashConfig, hm]

theorem Follows.of_insert_vm (hm : m.database.Tidy) (name : String) (vm : VmState)
    {write : TableWrite} (hw : write.apply m.database.rows =
      Function.update m.database.rows (.vm name) (some (.vm (.value vm.view)))) :
    m.Follows (m.commit { m.database with
        vmStates := m.database.vmStates.insert name (.value vm) })
      ⟨[write], m.ipPoolManager, .ok ()⟩ where
  rows := by
    rw [Replay.run_cons, Replay.run_nil, hw]
    funext k
    cases k <;> simp [commit, Database.rows, Function.update_apply, Table.map_get_insert,
      Encoded.map]
  pools := rfl
  result := rfl
  tidy := by
    refine ⟨fun name' bytes h => ?_, hm.unmapped⟩
    rcases Table.get_insert_eq_some.1 h with ⟨-, hjunk⟩ | ⟨-, hold⟩
    · cases hjunk
    · exact hm.decodes name' bytes hold

theorem modifyVm_follows (hm : m.database.Tidy) (name : String) (a : VmChange)
    {chg : VmState → VmState}
    (hc : ∀ vm, (chg vm).view = { vm.view with
      status := a.status.getD vm.status
      nodeId := a.nodeId.getD vm.nodeId }) :
    m.Follows (m.modifyVm d env name chg) ⟨[.adjust (.vm name) a], m.ipPoolManager, .ok ()⟩ := by
  unfold modifyVm
  rcases hrow : m.database.vmStates[name]? with _ | vm | bytes
  · have hnone : m.database.rows (.vm name) = none := by simp [Database.rows, hrow]
    refine Follows.of_rows hm rfl rfl ?_
    rw [Replay.run_cons, Replay.run_nil, Replay.Write.apply, hnone, Option.map_none, ← hnone,
      Function.update_eq_self]
  · refine Follows.of_insert_vm hm name _ ?_
    rw [Replay.Write.apply, hc, view_rehash]
    simp only [Database.rows, hrow, Option.map_some, Encoded.map]
    rfl
  · exact absurd hrow (hm.decodes name bytes)

theorem applyVmCommand_follows (hm : m.database.Tidy) {cmd : VmCommand}
    (hp : Determined d (.createVm cmd)) : m.Follows (m.applyVmCommand d env cmd)
      (courseOne d m.ipPoolManager m.database.rows (.createVm cmd)) := by
  cases cmd with
  | create cfg nid =>
    have ha : m.validateVmAdmission d env cfg nid = d.admitted := by
      unfold validateVmAdmission admitted wait
      unfold Determined at hp
      cases hd : d.admission <;> cases hr : d.runtime <;>
        cases hs : d.sharedAlive <;> simp_all
    rw [applyVmCommand, courseOne, ha]
    cases d.admitted with
    | error fail => exact Follows.of_same hm rfl rfl
    | ok _ =>
      refine Follows.of_insert_vm hm cfg.name _ ?_
      rw [Replay.Write.apply]
      congr 4
      exact (@view_rehash env ⟨cfg.name, cfg, .creating, nid, 0, 0⟩).symm
  | start name | stop name =>
    rw [applyVmCommand, courseOne]
    refine modifyVm_follows hm name _ ?_
    intro vm
    rfl
  | delete name =>
    constructor
    · funext k
      cases k <;> simp [courseOne, applyVmCommand, commit, rows]
    · rfl
    · rfl
    refine ⟨fun name' bytes h => ?_, hm.unmapped⟩
    simp only [applyVmCommand, commit, Table.get_erase] at h
    split_ifs at h
    exact hm.decodes name' bytes h
  | migrate task =>
    rw [applyVmCommand, courseOne]
    refine modifyVm_follows hm task.vmName _ ?_
    intro vm
    rfl
  | updateStatus name st => exact Follows.of_same hm rfl rfl

theorem applyIpPoolCommand_follows (hm : m.database.Tidy) (cmd : IpPoolCommand) :
    m.Follows (m.applyIpPoolCommand d cmd)
      (courseOne d m.ipPoolManager m.database.rows (.ipPoolCommand cmd)) := by
  have hdb := applyIpPoolCommand_database d m cmd
  have hrows : (m.applyIpPoolCommand d cmd).1.database.rows = m.database.rows := by rw [hdb]
  have htidy : (m.applyIpPoolCommand d cmd).1.database.Tidy := by rwa [hdb]
  unfold applyIpPoolCommand blockOn at hrows htidy ⊢
  unfold courseOne wait
  cases hr : d.runtime with
  | absent => exact Follows.of_same hm rfl rfl
  | driving => exact Follows.of_same hm rfl rfl
  | blocking =>
    rw [hr] at hrows htidy
    exact ⟨hrows, rfl, rfl, htidy⟩

theorem applyAllocateIp_follows (hm : m.database.Tidy) {req : IpAllocationRequest}
    (hp : Determined d (.allocateIp req)) : m.Follows (m.applyAllocateIp d env req)
      (courseOne d m.ipPoolManager m.database.rows (.allocateIp req)) := by
  unfold Determined at hp
  unfold applyAllocateIp blockOn courseOne wait
  cases hr : d.runtime with
  | absent => exact Follows.of_same hm rfl rfl
  | driving => exact Follows.of_same hm rfl rfl
  | blocking => exact absurd hr hp

theorem applyReleaseVmIps_follows (hm : m.database.Tidy) (vmId : VmId) :
    m.Follows (m.applyReleaseVmIps d vmId)
      (courseOne d m.ipPoolManager m.database.rows (.releaseVmIps vmId)) := by
  have hips : m.mappedIps vmId = [] := by simp [mappedIps, hm.unmapped]
  have hrows : ({ m.database with vmIpMappings := m.database.vmIpMappings.erase vmId } :
      Database).rows =
        run ([.drop (.vmIpMapping vmId)] : List TableWrite) m.database.rows := by
    funext k
    cases k <;> simp [rows]
  have htidy : ({ m.database with vmIpMappings := m.database.vmIpMappings.erase vmId } :
      Database).Tidy := by
    refine ⟨hm.decodes, ?_⟩
    show m.database.vmIpMappings.erase vmId = ∅
    rw [hm.unmapped]
    rfl
  unfold applyReleaseVmIps courseOne wait
  cases hr : d.runtime with
  | absent => exact Follows.of_same hm rfl rfl
  | driving =>
    simp only [hips, if_true, reduceCtorEq, if_false]
    exact ⟨hrows, rfl, rfl, htidy⟩
  | blocking =>
    simp only [hips, foldl_nil, reduceCtorEq, if_false]
    exact ⟨hrows, rfl, rfl, htidy⟩

theorem applySetTenantQuota_follows (hm : m.database.Tidy) (quota : TenantQuota) :
    m.Follows (m.applySetTenantQuota d quota)
      (courseOne d m.ipPoolManager m.database.rows (.setTenantQuota quota)) := by
  obtain ⟨hdb, hres⟩ := @applySetTenantQuota_eq d m quota
  refine ⟨?_, tellQuotaManager_pools d _ _, hres, ?_⟩
  · rw [hdb]
    funext k
    cases k <;> simp [courseOne, saveTenantQuota, rows]
  · rw [hdb]
    exact ⟨hm.decodes, hm.unmapped⟩

theorem applyRemoveTenantQuota_follows (hm : m.database.Tidy) (tid : String) :
    m.Follows (m.applyRemoveTenantQuota d tid)
      (courseOne d m.ipPoolManager m.database.rows (.removeTenantQuota tid)) := by
  obtain ⟨hdb, hres⟩ := @applyRemoveTenantQuota_eq d m tid
  refine ⟨?_, tellQuotaManager_pools d _ _, hres, ?_⟩
  · rw [hdb]
    funext k
    cases k <;> simp [courseOne, deleteTenantQuota, rows]
  · rw [hdb]
    exact ⟨hm.decodes, hm.unmapped⟩

theorem updatedUsage_view (tid : String) (delta : ResourceUsageDelta) :
    (m.updatedUsage d env tid delta).map view =
      (Row.currentUsage tid (m.database.rows (.tenantUsage tid))).update d delta := by
  have hcur : (m.currentUsage env tid).view =
      Row.currentUsage tid (m.database.rows (.tenantUsage tid)) := by
    unfold Machine.currentUsage
    simp only [rows]
    rcases m.database.tenantUsage[tid]? with _ | usage | bytes
    · rfl
    · have hc := coe_eq_coe.2 (env.rehashCounts_perm usage.vmUsage.vmsPerNode)
      simp only [Option.bind_some, Encoded.decode, view, hc]
      rfl
    · rfl
  rw [← hcur]
  unfold updatedUsage UsageView.update
  generalize m.currentUsage env tid = usage
  simp only [view]
  rcases d.applyDelta 32 usage.vmUsage.activeVms delta.vmCountDelta with _ | activeVms
  · rfl
  rcases d.applyDelta 32 usage.vmUsage.usedVcpus delta.vcpuDelta with _ | usedVcpus
  · rfl
  rcases d.applyDelta 64 usage.vmUsage.usedMemoryMb delta.memoryMbDelta with _ | usedMemoryMb
  · rfl
  cases d.applyDelta 64 usage.vmUsage.usedDiskGb delta.diskGbDelta <;> rfl

theorem tellQuotaManager_of_not_told
    {chg : QuotaManager → Database → Except Failure (QuotaManager × Database)}
    (h : ¬ (d.runtime = .blocking ∧ d.sharedAlive)) : m.tellQuotaManager d chg = (m, d.tell) := by
  unfold tellQuotaManager Deployment.tell
  cases hs : d.sharedAlive <;> cases hr : d.runtime <;> simp_all [abort]

theorem applyUpdateTenantUsage_follows (hm : m.database.Tidy) {tid : String}
    {delta : ResourceUsageDelta} {oid : BitVec 128}
    (hp : Determined d (.updateTenantUsage tid delta oid)) :
    m.Follows (m.applyUpdateTenantUsage d env tid delta)
      (courseOne d m.ipPoolManager m.database.rows (.updateTenantUsage tid delta oid)) := by
  have hview := @updatedUsage_view d m env tid delta
  rw [applyUpdateTenantUsage, courseOne, ← hview]
  cases m.updatedUsage d env tid delta with
  | error fail => exact Follows.of_same hm rfl rfl
  | ok usage =>
    simp only [tellQuotaManager_of_not_told hp, Except.map]
    refine ⟨?_, rfl, rfl, hm.decodes, hm.unmapped⟩
    funext k
    cases k <;> simp [Database.rows, Encoded.map]

variable (envs : ℕ → Env) {p : ProposalData}

theorem applyOne_follows (env : Env) (hm : m.database.Tidy) (hp : Determined d p) :
    m.Follows (m.applyOne d env p) (courseOne d m.ipPoolManager m.database.rows p) := by
  cases p with
  | createVm cmd => exact applyVmCommand_follows hm hp
  | updateVmStatus vmName st nid =>
    rw [applyOne, applyUpdateVmStatus, courseOne]
    refine modifyVm_follows hm vmName _ ?_
    intro vm
    rfl
  | migrateVm vmName fromNode toNode =>
    have hg : Determined d (.createVm (.migrate ⟨vmName, fromNode, toNode, false, false⟩)) :=
      trivial
    exact applyVmCommand_follows hm hg
  | ipPoolCommand cmd => exact applyIpPoolCommand_follows hm cmd
  | allocateIp req => exact applyAllocateIp_follows hm hp
  | releaseVmIps vmId => exact applyReleaseVmIps_follows hm vmId
  | setTenantQuota quota => exact applySetTenantQuota_follows hm quota
  | updateTenantUsage tid delta oid => exact applyUpdateTenantUsage_follows hm hp
  | removeTenantQuota tid => exact applyRemoveTenantQuota_follows hm tid
  | batch ps => exact Follows.of_same hm rfl rfl
  | _ =>
    -- the tables of tasks and workers
    refine Follows.of_rows hm rfl rfl ?_
    funext k
    cases k <;> simp [rows]

theorem applyBatch_follows (i : ℕ) (hm : m.database.Tidy)
    {ps : List ProposalData} (hps : ∀ p ∈ ps, Determined d p) :
    m.Follows (applyBatch d envs i m ps) (courseBatch d m.ipPoolManager m.database.rows ps) := by
  induction ps generalizing i m with
  | nil => exact Follows.of_same hm rfl rfl
  | cons p ps ih =>
    have hp := applyOne_follows (envs i) hm (hps p mem_cons_self)
    rw [applyBatch, courseBatch]
    rcases ha : m.applyOne d (envs i) p with ⟨m', fail | ⟨⟩⟩ <;>
      rcases hc : courseOne d m.ipPoolManager m.database.rows p with
        ⟨writes, pools, failure' | ⟨⟩⟩ <;>
      rw [ha, hc] at hp
    · exact hp
    · cases hp.result
    · cases hp.result
    · obtain rfl : m'.ipPoolManager = pools := hp.pools
      have hrest := ih (i + 1) hp.tidy fun q hq => hps q (mem_cons_of_mem p hq)
      have hrows : m'.database.rows = run writes m.database.rows := hp.rows
      rw [hrows] at hrest
      refine ⟨?_, hrest.pools, hrest.result, hrest.tidy⟩
      rw [hrest.rows, hrows, run_append]

theorem applyProposal_follows (hm : m.database.Tidy) (h : p.Each (Determined d)) :
    m.Follows (m.applyProposal d envs p) (courseProposal d m.ipPoolManager m.database.rows p) := by
  cases p with
  | batch ps => exact applyBatch_follows envs 0 hm h
  | _ =>
    simp only [applyProposal, courseProposal]
    exact applyOne_follows (envs 0) hm h

theorem applyEntry_follows (hm : m.database.Tidy) {entry : Entry}
    (h : EntryOf decode (Determined d) entry) : m.Follows (m.applyEntry d decode envs entry)
      (courseEntry d decode m.ipPoolManager m.database.rows entry) := by
  unfold applyEntry courseEntry
  by_cases hdata : entry.data = []
  · simp only [hdata, if_true]
    exact Follows.of_same hm rfl rfl
  simp only [hdata, if_false]
  cases hp : decode entry.data with
  | error src => exact Follows.of_same hm rfl rfl
  | ok p => exact applyProposal_follows envs hm (h hdata p hp)

end Machine

/-! ## Absolute entries -/

section
variable {d decode}

variable {p : ProposalData}

theorem courseOne_eq (hp : p.IsAbsolute) (pools : IpPoolManager)
    (rows rows' : RowKey → Option Row) : courseOne d pools rows p = courseOne d pools rows' p := by
  cases p with
  | createVm cmd => cases cmd <;> rfl
  | updateTenantUsage tid delta oid => exact hp.elim
  | _ => rfl

theorem courseBatch_eq {ps : List ProposalData} (hps : ∀ p ∈ ps, p.IsAbsolute)
    (pools : IpPoolManager) (rows rows' : RowKey → Option Row) :
    courseBatch d pools rows ps = courseBatch d pools rows' ps := by
  induction ps generalizing pools rows rows' with
  | nil => rfl
  | cons p ps ih =>
    rw [courseBatch, courseBatch, courseOne_eq (hps p mem_cons_self) pools rows rows']
    rcases courseOne d pools rows' p with ⟨ws, pools', fail | ⟨⟩⟩
    · rfl
    have hrest := ih (fun q hq => hps q (mem_cons_of_mem p hq)) pools'
      (run ws rows) (run ws rows')
    dsimp only
    rw [hrest]

theorem courseProposal_eq (h : p.Each ProposalData.IsAbsolute)
    (pools : IpPoolManager) (rows rows' : RowKey → Option Row) :
    courseProposal d pools rows p = courseProposal d pools rows' p := by
  cases p with
  | batch ps => exact courseBatch_eq h pools rows rows'
  | _ =>
    simp only [courseProposal]
    refine courseOne_eq ?_ pools rows rows'
    exact h

theorem courseEntry_eq {entry : Entry} (h : EntryOf decode ProposalData.IsAbsolute entry)
    (pools : IpPoolManager) (rows rows' : RowKey → Option Row) :
    courseEntry d decode pools rows entry = courseEntry d decode pools rows' entry := by
  unfold courseEntry
  by_cases hdata : entry.data = []
  · simp only [hdata, if_true]
  simp only [hdata, if_false]
  cases hp : decode entry.data with
  | error src => rfl
  | ok p => exact courseProposal_eq (h hdata p hp) pools rows rows'

end

end Blixard
