/-
  The CPU manager (`resource_managers/cpu_manager.rs`).

  Several allocations can share a core, which counts them; an exclusive one takes idle cores and
  flags them.  Metrics, configuration and the background tasks are left out.
-/
import Blixard.IpPool.Config
import Mathlib.Data.List.Sort

namespace Blixard

open List

/-! ## Types -/

inductive CpuSchedulingPolicy where
  | firstFit | bestFit | roundRobin | affinityAware
  deriving DecidableEq

inductive ResourceType where
  | memory | cpu | disk | network | gpu
  | custom (name : String)
  deriving DecidableEq

structure ResourceAllocationRequest where
  requestId : String
  tenantId : String
  resourceType : ResourceType
  amount : ℕ
  priority : ℕ
  isTemporary : Bool
  expiresAt : Option ℤ
  metadata : List (String × String)
  deriving DecidableEq

inductive AllocationStatus where
  | active | reserved | releasing | released
  | failed (reason : String)
  deriving DecidableEq

structure ResourceAllocation where
  allocationId : String
  request : ResourceAllocationRequest
  allocatedAmount : ℕ
  allocatedOn : Option String
  allocatedAt : ℤ
  status : AllocationStatus
  deriving DecidableEq

structure CpuAllocation where
  base : ResourceAllocation
  assignedCores : List ℕ
  affinityMask : Option ℕ
  schedulingPolicy : CpuSchedulingPolicy
  exclusive : Bool
  deriving DecidableEq

/-- A core; its utilisation is an `f64`, kept as its bits. -/
structure CoreUsage where
  coreId : ℕ
  allocatedVcpus : ℕ
  utilizationPercent : BitVec 64
  exclusive : Bool
  exclusiveTenant : Option String

structure ResourceUsage where
  resourceType : ResourceType
  totalCapacity : ℕ
  allocatedAmount : ℕ
  usedAmount : ℕ
  allocationCount : ℕ
  updatedAt : ℤ

inductive ResourceManagerHealth where
  | healthy
  | degraded (reason : String)
  | unhealthy (reason : String)
  | stopped

structure ManagerState where
  health : ResourceManagerHealth
  lastHealthCheck : ℤ
  totalAllocations : ℕ
  totalDeallocations : ℕ
  allocationTimes : List ℕ

structure CpuResourceManager where
  allocations : Table String CpuAllocation
  coreUsage : Table ℕ CoreUsage
  usage : ResourceUsage
  state : ManagerState
  schedulingPolicy : CpuSchedulingPolicy
  totalCores : ℕ

/-- The surroundings of a call: the order in which the map of cores is iterated, clocks,
    and arithmetic on floats. -/
structure CpuEnv where
  order : List ℕ → List ℕ
  order_perm : ∀ ids, (order ids).Perm ids
  now : ℕ → ℤ
  /-- `Utc::now().timestamp_nanos_opt().unwrap_or(0)`. -/
  nanos : ℤ
  elapsed : Option ℕ
  /-- The sum of percentages divided by `100.0`, as an integer. -/
  coresUsed : List (BitVec 64) → ℕ

def CpuEnv.allocationId (env : CpuEnv) (tenantId : String) : String :=
  s!"cpu-{tenantId}-{env.nanos}"

def CoreUsage.idle (coreId : ℕ) : CoreUsage := ⟨coreId, 0, 0, false, none⟩

def CoreUsage.mayUse (exclusive : Bool) (core : CoreUsage) : Bool :=
  if exclusive then core.allocatedVcpus = 0 else !core.exclusive

def ResourceAllocationRequest.isExclusive (request : ResourceAllocationRequest) : Bool :=
  request.metadata.lookup "exclusive" == some "true"

namespace CpuResourceManager

def new (schedulingPolicy : CpuSchedulingPolicy) (totalCores : ℕ) (now : ℤ) :
    CpuResourceManager where
  allocations := ∅
  coreUsage := Table.putAll ∅ ((List.range totalCores).map fun id => (id, .idle id))
  usage := ⟨.cpu, totalCores, 0, 0, 0, now⟩
  state := ⟨.stopped, now, 0, 0, []⟩
  schedulingPolicy
  totalCores

variable (pf : Platform) (env : CpuEnv) (m : CpuResourceManager)

/-! ## Choosing cores -/

def firstFit (usable : CoreUsage → Bool) (needed : ℕ) : List ℕ → List ℕ → List ℕ
  | available, [] => available
  | available, id :: ids =>
    match m.coreUsage[id]? with
    | none => firstFit usable needed available ids
    | some core =>
      if usable core then
        if needed ≤ (available ++ [id]).length then available ++ [id]
        else firstFit usable needed (available ++ [id]) ids
      else firstFit usable needed available ids

/-- The loop of the affinity policy: the first run of usable cores that is long enough and
    ends before a core that is not usable. -/
def consecutiveCores (usable : CoreUsage → Bool) (needed : ℕ) : List ℕ → List ℕ → List ℕ
  | _, [] => []
  | run, id :: ids =>
    match m.coreUsage[id]? with
    | none => consecutiveCores usable needed run ids
    | some core =>
      if usable core then consecutiveCores usable needed (run ++ [id]) ids
      else if needed ≤ run.length then run
      else consecutiveCores usable needed [] ids

def coresWithUsage (exclusive : Bool) : List (ℕ × ℕ) :=
  (env.order m.coreUsage.keys).filterMap fun id =>
    match m.coreUsage[id]? with
    | none => none
    | some core => if core.mayUse exclusive then some (id, core.allocatedVcpus) else none

def sufficient (needed : ℕ) (cores : List ℕ) : Except BlixardError (List ℕ) :=
  if cores.length < needed then
    .error (.insufficientResources s!"{needed} vCPUs" s!"{cores.length} cores available")
  else .ok cores

/-- The fallback of the affinity policy, which shares a core among at most four. -/
def findAvailableCoresFirstFit (vcpusNeeded : ℕ) (exclusive : Bool) :
    Except BlixardError (List ℕ) :=
  sufficient vcpusNeeded (m.firstFit
    (fun core => core.mayUse exclusive && (exclusive || core.allocatedVcpus < 4)) vcpusNeeded []
    (List.range m.totalCores))

def findAvailableCores (vcpusNeeded : ℕ) (exclusive : Bool) : Except BlixardError (List ℕ) :=
  match m.schedulingPolicy with
  | .firstFit =>
    sufficient vcpusNeeded
      (m.firstFit (·.mayUse exclusive) vcpusNeeded [] (List.range m.totalCores))
  | .bestFit =>
    sufficient vcpusNeeded (((m.coresWithUsage env exclusive).insertionSort
      fun a b => a.2 ≤ b.2).take vcpusNeeded |>.map Prod.fst)
  | .roundRobin =>
    let used (id : ℕ) : ℕ := (m.coreUsage[id]?.map (·.allocatedVcpus)).getD 0
    let coreIds := (List.range m.totalCores).insertionSort fun a b => used a ≤ used b
    sufficient vcpusNeeded ((coreIds.take vcpusNeeded).filter fun id =>
      m.coreUsage[id]?.any (·.mayUse exclusive))
  | .affinityAware =>
    let cores := m.consecutiveCores (·.mayUse exclusive) vcpusNeeded [] (List.range m.totalCores)
    if vcpusNeeded ≤ cores.length then .ok (cores.take vcpusNeeded)
    else m.findAvailableCoresFirstFit vcpusNeeded exclusive

def allocateCore (exclusive : Bool) (tenantId : String) (core : CoreUsage) :
    Except Failure CoreUsage :=
  if exclusive then
    .ok { core with exclusive := true, exclusiveTenant := some tenantId, allocatedVcpus := 1 }
  else (pf.addUnsigned 32 core.allocatedVcpus 1).map fun allocatedVcpus =>
    { core with allocatedVcpus }

/-- The loop of `allocate_cores`: an overflow that panics leaves the cores before it
    taken. -/
def allocateCores (exclusive : Bool) (tenantId : String) :
    Table ℕ CoreUsage → List ℕ → Table ℕ CoreUsage × Except Failure Unit
  | coreUsage, [] => (coreUsage, .ok ())
  | coreUsage, id :: ids =>
    match coreUsage[id]? with
    | none => allocateCores exclusive tenantId coreUsage ids
    | some core =>
      match allocateCore pf exclusive tenantId core with
      | .error failure => (coreUsage, .error failure)
      | .ok core => allocateCores exclusive tenantId (coreUsage.insert id core) ids

def deallocateCore (exclusive : Bool) (core : CoreUsage) : CoreUsage :=
  if exclusive then { core with exclusive := false, exclusiveTenant := none, allocatedVcpus := 0 }
  else { core with allocatedVcpus := core.allocatedVcpus - 1 }

def deallocateCores (exclusive : Bool) (coreUsage : Table ℕ CoreUsage) (cores : List ℕ) :
    Table ℕ CoreUsage :=
  Table.modifyAll coreUsage cores (deallocateCore exclusive)

/-! ## Calls -/

def updateUsageStats : CpuResourceManager :=
  let live := (m.allocations.toList.map Prod.snd).filter fun a =>
    a.base.status = .active ∨ a.base.status = .reserved
  let inUse := (env.order m.coreUsage.keys).filterMap fun id =>
    m.coreUsage[id]?.bind fun core =>
      if 0 < core.allocatedVcpus then some core.utilizationPercent else none
  { m with usage := { m.usage with
      allocatedAmount := (live.map fun a => a.assignedCores.length).sum
      usedAmount := env.coresUsed inUse
      allocationCount := live.length
      updatedAt := env.now 2 } }

def cpuAllocation (request : ResourceAllocationRequest) (cores : List ℕ) : CpuAllocation where
  base := {
    allocationId := env.allocationId request.tenantId
    request
    allocatedAmount := cores.length
    allocatedOn := some "cpu"
    allocatedAt := env.now 1
    status := .active }
  assignedCores := cores
  affinityMask := none
  schedulingPolicy := m.schedulingPolicy
  exclusive := request.isExclusive

def recordTime (times : List ℕ) : Option ℕ → List ℕ
  | none => times
  | some time => if 100 < (times ++ [time]).length then (times ++ [time]).tail else times ++ [time]

def allocate (request : ResourceAllocationRequest) :
    CpuResourceManager × Except Failure ResourceAllocation :=
  if request.resourceType ≠ .cpu then
    (m, .error (.error (.configurationError "cpu_manager.allocation.resource_type"
      "CPU manager can only ha CPU resources")))
  else
    -- `amount as u32` keeps the low bits
    match m.findAvailableCores env (request.amount % 2 ^ 32) request.isExclusive with
    | .error e => (m, .error (.error e))
    | .ok cores =>
      let allocation := m.cpuAllocation env request cores
      match allocateCores pf request.isExclusive request.tenantId m.coreUsage cores with
      | (coreUsage, .error failure) => ({ m with coreUsage }, .error failure)
      | (coreUsage, .ok ()) =>
        let m := updateUsageStats env { m with
          coreUsage
          allocations := m.allocations.insert allocation.base.allocationId allocation }
        ({ m with state := { m.state with
            totalAllocations := m.state.totalAllocations + 1
            allocationTimes := recordTime m.state.allocationTimes env.elapsed } },
          .ok allocation.base)

def deallocate (allocationId : String) : CpuResourceManager × Except Failure Unit :=
  match m.allocations[allocationId]? with
  | none =>
    (m, .error (.error (.resourceUnavailable "cpu" s!"Allocation {allocationId} not found")))
  | some allocation =>
    let m := updateUsageStats env { m with
      allocations := m.allocations.erase allocationId
      coreUsage := deallocateCores allocation.exclusive m.coreUsage allocation.assignedCores }
    ({ m with state := { m.state with totalDeallocations := m.state.totalDeallocations + 1 } },
      .ok ())

def initializeManager : CpuResourceManager × Except Failure Unit :=
  ({ m with
      usage := { m.usage with totalCapacity := m.totalCores, updatedAt := env.now 0 }
      state := { m.state with health := .healthy, lastHealthCheck := env.now 1 } }, .ok ())

/-! ## What the policies choose -/

variable {pf env m}

theorem firstFit_eq (usable : CoreUsage → Bool) (needed : ℕ) (avail ids : List ℕ) :
    m.firstFit usable needed avail ids = avail ++
      (ids.filter fun id => m.coreUsage[id]?.any usable).take (max 1 (needed - avail.length)) := by
  induction ids generalizing avail with
  | nil => simp [firstFit]
  | cons id ids ih =>
    rw [firstFit]
    cases hcore : m.coreUsage[id]? with
    | none => simp [ih, hcore]
    | some core =>
      dsimp only
      split_ifs with huse he
      · have hone : max 1 (needed - avail.length) = 1 := by simp at he; omega
        simp [hone, hcore, huse]
      · have hmore : max 1 (needed - avail.length) =
            max 1 (needed - (avail ++ [id]).length) + 1 := by
          simp at he ⊢
          omega
        rw [ih, hmore]
        simp [hcore, huse]
      · simp [ih, hcore, huse]

theorem consecutiveCores_sublist (usable : CoreUsage → Bool) (needed : ℕ) (run ids : List ℕ)
    (hrun : ∀ id ∈ run, ∃ core, m.coreUsage[id]? = some core ∧ usable core) :
    (m.consecutiveCores usable needed run ids).Sublist (run ++ ids) ∧
      ∀ id ∈ m.consecutiveCores usable needed run ids,
        ∃ core, m.coreUsage[id]? = some core ∧ usable core := by
  induction ids generalizing run with
  | nil => exact ⟨nil_sublist _, by simp [consecutiveCores]⟩
  | cons id ids ih =>
    rw [consecutiveCores]
    cases hcore : m.coreUsage[id]? with
    | none =>
      obtain ⟨hsub, hu⟩ := ih run hrun
      exact ⟨hsub.trans ((sublist_cons_self id ids).append_left run), hu⟩
    | some core =>
      dsimp only
      split_ifs with huse he
      · have hrun' : ∀ id' ∈ run ++ [id], ∃ core, m.coreUsage[id']? = some core ∧ usable core := by
          intro id' hid'
          rcases mem_append.1 hid' with hid' | hid'
          · exact hrun id' hid'
          · rw [mem_singleton.1 hid']
            exact ⟨core, hcore, huse⟩
        obtain ⟨hsub, hu⟩ := ih (run ++ [id]) hrun'
        rw [append_assoc, singleton_append] at hsub
        exact ⟨hsub, hu⟩
      · exact ⟨sublist_append_left run _, hrun⟩
      · obtain ⟨hsub, hu⟩ := ih [] (by simp)
        rw [nil_append] at hsub
        exact ⟨(hsub.trans (sublist_cons_self id ids)).trans (sublist_append_right run _),
          hu⟩

theorem sufficient_ok {needed : ℕ} {cores chosen : List ℕ}
    (h : sufficient needed cores = .ok chosen) : chosen = cores := by
  unfold sufficient at h
  split_ifs at h
  exact (Except.ok.inj h).symm

structure Choice (m : CpuResourceManager) (exclusive : Bool) (cores : List ℕ) : Prop where
  nodup : cores.Nodup
  usable : ∀ id ∈ cores, ∃ core, m.coreUsage[id]? = some core ∧ core.mayUse exclusive

variable {exclusive : Bool} {needed : ℕ} {cores cores' ids : List ℕ}

theorem Choice.sublist (h : m.Choice exclusive cores) (hsub : cores'.Sublist cores) :
    m.Choice exclusive cores' :=
  ⟨hsub.nodup h.nodup, fun id hid => h.usable id (hsub.subset hid)⟩

theorem Choice.perm (h : m.Choice exclusive cores) (hperm : cores'.Perm cores) :
    m.Choice exclusive cores' :=
  ⟨hperm.nodup_iff.2 h.nodup, fun id hid => h.usable id (hperm.mem_iff.1 hid)⟩

theorem choice_filter (hids : ids.Nodup) :
    m.Choice exclusive (ids.filter fun id => m.coreUsage[id]?.any (·.mayUse exclusive)) := by
  refine ⟨hids.filter _, fun id hid => ?_⟩
  exact (Option.any_eq_true _ _).1 (mem_filter.1 hid).2

theorem coresWithUsage_fst : (m.coresWithUsage env exclusive).map Prod.fst =
    (env.order m.coreUsage.keys).filter fun id => m.coreUsage[id]?.any (·.mayUse exclusive) := by
  rw [coresWithUsage, map_filterMap, ← filterMap_eq_filter]
  congr 1
  funext id
  cases hcore : m.coreUsage[id]? with
  | none => simp [Option.guard, hcore]
  | some core => by_cases huse : core.mayUse exclusive <;> simp [Option.guard, hcore, huse]

theorem choice_firstFit {usable : CoreUsage → Bool} (needed : ℕ)
    (hu : ∀ core, usable core → core.mayUse exclusive) :
    m.Choice exclusive (m.firstFit usable needed [] (range m.totalCores)) := by
  rw [firstFit_eq, nil_append]
  refine ⟨(take_sublist _ _).nodup (nodup_range.filter _), fun id hid => ?_⟩
  obtain ⟨core, hcore, huse⟩ :=
    (Option.any_eq_true _ _).1 (mem_filter.1 (mem_of_mem_take hid)).2
  exact ⟨core, hcore, hu core huse⟩

theorem findAvailableCores_ok (h : m.findAvailableCores env needed exclusive = .ok cores) :
    m.Choice exclusive cores := by
  unfold findAvailableCores at h
  cases hp : m.schedulingPolicy with
  | firstFit =>
    rw [hp] at h
    rw [sufficient_ok h]
    exact choice_firstFit needed fun _ => id
  | bestFit =>
    rw [hp] at h
    rw [sufficient_ok h]
    refine Choice.sublist ?_ ((take_sublist _ _).map Prod.fst)
    refine Choice.perm ?_ ((perm_insertionSort _ _).map Prod.fst)
    rw [coresWithUsage_fst]
    exact choice_filter ((env.order_perm _).nodup_iff.2 Std.ExtTreeMap.nodup_keys)
  | roundRobin =>
    rw [hp] at h
    rw [sufficient_ok h]
    refine Choice.sublist ?_ ((take_sublist _ _).filter _)
    exact (choice_filter nodup_range).perm ((perm_insertionSort _ _).filter _)
  | affinityAware =>
    rw [hp] at h
    dsimp only at h
    split_ifs at h with he
    · obtain ⟨hsub, hu⟩ := @consecutiveCores_sublist m (·.mayUse exclusive) needed []
        (range m.totalCores) (by simp)
      have hrun : m.Choice exclusive (m.consecutiveCores (·.mayUse exclusive) needed []
        (range m.totalCores)) := ⟨hsub.nodup nodup_range, hu⟩
      rw [← Except.ok.inj h]
      exact hrun.sublist (take_sublist _ _)
    · -- the fallback asks for more than the policies do
      rw [sufficient_ok h]
      exact choice_firstFit needed fun core huse => (Bool.and_eq_true _ _ ▸ huse).1

end CpuResourceManager

end Blixard
