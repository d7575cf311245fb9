/-
  What the proposer of an `AllocateIp` is told (`raft/core.rs`, `raft/state_machine.rs`).

  An allocation that fails is only logged, and where `block_on` panics nobody is answered.  The
  answer tells whether a row was created exactly if there is no runtime, or the manager is asked and
  the pool that the request gets can still hand out an address (`answer_tells_iff`).
-/
import Blixard.IpPool.Reuse
import Blixard.Raft.Addresses
import Blixard.Raft.Core

namespace Blixard

open EnhancedIpPoolState IpPoolManager List Machine Std.ExtTreeMap Table

/-! ## Pools in sync -/

namespace IpPoolManager

def InSync (m : IpPoolManager) : Prop :=
  ∀ (id : IpPoolId) (p : EnhancedIpPoolState), m.pools[id]? = some p → p.InSync

variable {pf : Platform} {m : IpPoolManager}

theorem inSync_new : InSync new := by
  intro id p hp
  simp [new] at hp

theorem InSync.insert (h : m.InSync) {m' : IpPoolManager} {id : IpPoolId} {p : EnhancedIpPoolState}
    (hp : p.InSync) (hl : m'.pools = m.pools.insert id p) : m'.InSync := by
  intro id' q hq
  rw [hl] at hq
  rcases get_insert_eq_some.1 hq with ⟨-, rfl⟩ | ⟨-, hq⟩
  · exact hp
  · exact h id' q hq

theorem inSync_releaseOne (h : m.InSync) (ip : IpAddr) : (m.releaseOne ip).InSync := by
  unfold releaseOne
  cases m.allocations[ip]? with
  | none => exact h
  | some a =>
    dsimp only
    cases hp : m.pools[a.poolId]? with
    | none => exact h
    | some p => exact h.insert (releaseIp_inSync (h _ p hp) ip) rfl

theorem inSync_step (m : IpPoolManager) (x : PoolOp × PoolEnv) (h : m.InSync) :
    (m.step pf x).InSync := by
  obtain ⟨op, env⟩ := x
  cases op with
  | command c =>
    show (m.processCommand pf c).1.InSync
    rcases @processCommand_cases pf m c with heq | ⟨config, p, -, -, -, hnew, heq⟩ |
      ⟨id, p, p', hp, hsame, -, heq⟩ | ⟨id, p, -, -, heq⟩ <;> rw [heq]
    · exact h
    · exact h.insert (new_ok hnew).1 rfl
    · exact h.insert (hsame.inSync (h id p hp)) rfl
    intro id' q hq
    simp only [get_erase] at hq
    split_ifs at hq
    exact h id' q hq
  | allocateIp req =>
    show (m.allocateIp pf env req).1.InSync
    rcases @allocateIp_cases pf env m h req with
      ⟨counter, e, heq⟩ | ⟨counter, id, p, p', ip, -, -, -, hp', -, -, -, heq⟩ <;> rw [heq]
    · exact h
    · exact h.insert hp' rfl
  | releaseVmIps vmId =>
    show (m.releaseVmIps vmId).InSync
    exact foldlRecOn (m.held vmId) releaseOne (motive := InSync) h
      fun m hm ip _ => inSync_releaseOne hm ip

variable {allocs : List IpAllocation} {cfgs : List IpPoolConfig}

theorem loadPools_inSync {pools pools' : Table IpPoolId EnhancedIpPoolState}
    (h : ∀ (id : IpPoolId) (p : EnhancedIpPoolState), pools[id]? = some p → p.InSync)
    (hload : loadPools pf allocs pools cfgs = .ok pools') :
    ∀ (id : IpPoolId) (p : EnhancedIpPoolState), pools'[id]? = some p → p.InSync := by
  induction cfgs generalizing pools with
  | nil =>
    cases hload
    exact h
  | cons cfg rest ih =>
    rw [loadPools] at hload
    cases hv : cfg.validate pf with
    | error e =>
      rw [hv] at hload
      cases hload
    | ok u =>
      rw [hv] at hload
      obtain ⟨p, hp, hload⟩ := bind_eq_ok hload
      refine ih ?_ hload
      intro id q hq
      rcases get_insert_eq_some.1 hq with ⟨-, rfl⟩ | ⟨-, hq⟩
      · -- a loaded pool has nothing in stock and starts with the addresses of its state
        unfold fromExistingState at hp
        obtain ⟨capacity, -, hp⟩ := bind_eq_ok hp
        split at hp
        · cases hp
        · cases hp
          exact ⟨rfl, rfl⟩
      · exact h id q hq

theorem foldl_loadAllocation_pools (allocs : List IpAllocation) (m : IpPoolManager) :
    (allocs.foldl loadAllocation m).pools = m.pools := by
  induction allocs generalizing m with
  | nil => rfl
  | cons a rest ih => exact ih (m.loadAllocation a)

theorem inSync_loadFromStorage (h : new.loadFromStorage pf cfgs allocs = .ok m) : m.InSync := by
  obtain ⟨pools, hl, h⟩ := bind_eq_ok h
  cases h
  intro id p hp
  rw [foldl_loadAllocation_pools] at hp
  exact loadPools_inSync inSync_new hl id p hp

def Starts (pf : Platform) (m : IpPoolManager) : Prop :=
  m = new ∨ ∃ configs allocations, new.loadFromStorage pf configs allocations = .ok m

theorem Starts.inSync (h : m.Starts pf) : m.InSync := by
  rcases h with rfl | ⟨cfgs, allocs, h⟩
  · exact inSync_new
  · exact inSync_loadFromStorage h

/-! ## Requests that are served -/

/-- The request is for this pool: the preferred one if it has capacity, or else the one
    that `select_pool` picks. -/
def Gets (pf : Platform) (env : PoolEnv) (m : IpPoolManager) (request : IpAllocationRequest)
    (id : IpPoolId) (p : EnhancedIpPoolState) : Prop :=
  m.pools[id]? = some p ∧
  match request.preferredPool with
  | some preferred => id = preferred ∧ p.hasCapacity
  | none => (m.selectPool pf env request).1 = .ok id

/-- The pool that the request gets has a permit left and an address that it may hand out. -/
def CanServe (pf : Platform) (env : PoolEnv) (m : IpPoolManager) (request : IpAllocationRequest) :
    Prop :=
  ∃ id p, m.Gets pf env request id p ∧ 0 < p.resourcePool.permits ∧
    ∃ ip ∈ p.factoryConfig.allocatable pf, ip ∉ p.allocatedIpsShared

theorem gets_iff {env : PoolEnv} {req : IpAllocationRequest} {id : IpPoolId}
    {p : EnhancedIpPoolState} : m.Gets pf env req id p ↔
      (m.choosePool pf env req).1 = .ok id ∧ m.pools[id]? = some p := by
  unfold Gets choosePool
  cases req.preferredPool with
  | none => exact and_comm
  | some preferred =>
    dsimp only
    constructor
    · rintro ⟨hp, rfl, hcap⟩
      simp [hp, hcap]
    rintro ⟨hc, hp⟩
    cases hr : m.pools[preferred]? with
    | none => simp [hr] at hc
    | some q =>
      by_cases hcap : q.hasCapacity
      · simp only [hr, hcap, if_true, Except.ok.injEq] at hc
        subst hc
        rw [hp] at hr
        cases hr
        exact ⟨hp, rfl, hcap⟩
      · simp [hr, hcap] at hc

theorem isOk_allocateIp (h : m.InSync) (env : PoolEnv) (request : IpAllocationRequest) :
    (m.allocateIp pf env request).2.isOk ↔ m.CanServe pf env request := by
  simp only [CanServe, gets_iff]
  unfold allocateIp
  rcases hc : m.choosePool pf env request with ⟨e | id, counter⟩
  · simp [Except.isOk, Except.toBool]
  dsimp only
  cases hp : m.pools[id]? with
  | none =>
    refine iff_of_false (by simp [Except.isOk, Except.toBool]) ?_
    rintro ⟨id', p, ⟨⟨⟩, hp'⟩, -⟩
    rw [hp] at hp'
    cases hp'
  | some p =>
    have hs := @EnhancedIpPoolState.isOk_allocateIp_iff pf p (h id p hp) (env.now 0)
    rw [findNextAvailableIp_isSome] at hs
    trans 0 < p.resourcePool.permits ∧
      ∃ ip ∈ p.factoryConfig.allocatable pf, ip ∉ p.allocatedIpsShared
    · rw [← hs]
      dsimp only
      rcases p.allocateIp pf (env.now 0) with ⟨q, e | address⟩ <;> rfl
    constructor
    · intro hfree
      exact ⟨id, p, ⟨rfl, hp⟩, hfree⟩
    rintro ⟨id', q, ⟨⟨⟩, hq⟩, hfree⟩
    rw [hp] at hq
    cases hq
    exact hfree

end IpPoolManager

/-! ## The machine in its node -/

namespace Machine

variable (d : Deployment) (decode : Bytes → Except String ProposalData)

/-- What happens to the machine: it applies an entry, or other code of the node changes
    its database. -/
inductive Event where
  | apply (entry : Entry) (envs : ℕ → Env)
  | store (database : Database)

def event (m : Machine) : Event → Machine
  | .apply entry envs => (m.applyEntry d decode envs entry).1
  | .store database => { m with database }

variable {d decode} {m : Machine}

/-- The pools after a call are those before it after a run of operations of their manager. -/
def PoolsFollow (d : Deployment) (m m' : Machine) : Prop :=
  ∃ ops : List (PoolOp × PoolEnv),
    m'.ipPoolManager = ops.foldl (IpPoolManager.step d.toPlatform) m.ipPoolManager

variable {m' : Machine}

theorem PoolsFollow.of_same (h : m'.ipPoolManager = m.ipPoolManager) : PoolsFollow d m m' := ⟨[], h⟩

theorem PoolsFollow.of_vms (h : ∃ vms, m' = { m with database :=
    { m.database with vmStates := vms } }) : PoolsFollow d m m' := by
  obtain ⟨vms, rfl⟩ := h
  exact .of_same rfl

theorem applyIpPoolCommand_poolsFollow (env : PoolEnv) (cmd : IpPoolCommand) :
    PoolsFollow d m (m.applyIpPoolCommand d cmd).1 := by
  unfold applyIpPoolCommand
  rcases blockOn_cases d m (fun _ => _) with ⟨heq, -⟩ | ⟨f, heq⟩ <;> rw [heq]
  · exact ⟨[(.command cmd, env)], rfl⟩
  · exact .of_same rfl

theorem applyAllocateIp_poolsFollow (env : Env) (req : IpAllocationRequest) :
    PoolsFollow d m (m.applyAllocateIp d env req).1 := by
  unfold applyAllocateIp
  rcases blockOn_cases d m (fun _ => _) with ⟨heq, -⟩ | ⟨f, heq⟩ <;> rw [heq]
  · refine ⟨[(.allocateIp req, env.toPoolEnv)], ?_⟩
    dsimp only
    split <;> rfl
  · exact .of_same rfl

theorem applyReleaseVmIps_poolsFollow (env : PoolEnv) (vmId : VmId) :
    PoolsFollow d m (m.applyReleaseVmIps d vmId).1 := by
  unfold applyReleaseVmIps
  cases d.runtime with
  | absent => exact .of_same rfl
  | driving =>
    dsimp only
    split <;> exact .of_same rfl
  | blocking =>
    refine ⟨(m.mappedIps vmId).map fun _ => (.releaseVmIps vmId, env), ?_⟩
    rw [foldl_map]
    rfl

theorem applyOne_poolsFollow (m : Machine) (env : Env) (p : ProposalData) :
    PoolsFollow d m (m.applyOne d env p).1 := by
  cases p with
  | createVm cmd => exact .of_vms (applyVmCommand_vms d env m cmd)
  | updateVmStatus vm st nid => exact .of_vms (modifyVm_vms d env m vm _)
  | migrateVm vm fromNode toNode => exact .of_vms (applyVmCommand_vms d env m _)
  | ipPoolCommand cmd => exact applyIpPoolCommand_poolsFollow env.toPoolEnv cmd
  | allocateIp req => exact applyAllocateIp_poolsFollow env req
  | releaseVmIps vmId => exact applyReleaseVmIps_poolsFollow env.toPoolEnv vmId
  | setTenantQuota | removeTenantQuota => exact .of_same (tellQuotaManager_pools d _ _)
  | updateTenantUsage tid delta ts =>
    show PoolsFollow d m (m.applyUpdateTenantUsage d env tid delta).1
    unfold applyUpdateTenantUsage
    split
    · exact .of_same rfl
    · exact .of_same (tellQuotaManager_pools d _ _)
  | _ => exact .of_same rfl

theorem inSync_applyOne {m : Machine} (h : m.ipPoolManager.InSync) (env : Env) (p : ProposalData) :
    (m.applyOne d env p).1.ipPoolManager.InSync := by
  obtain ⟨ops, hops⟩ := applyOne_poolsFollow (d := d) m env p
  rw [hops]
  exact foldlRecOn ops _ (motive := IpPoolManager.InSync) h
    fun pools hp op _ => inSync_step pools op hp

theorem inSync_event (m : Machine) (e : Event) (h : m.ipPoolManager.InSync) :
    (m.event d decode e).ipPoolManager.InSync := by
  cases e with
  | store db => exact h
  | apply entry envs =>
    exact applyEntry_keeps d (P := fun m => m.ipPoolManager.InSync)
      (fun _ env p h => inSync_applyOne h env p) decode envs entry h

theorem inSync_events {start : Machine} (hs : start.ipPoolManager.Starts d.toPlatform)
    (evs : List Event) : (evs.foldl (event d decode) start).ipPoolManager.InSync :=
  foldlRecOn evs _ (motive := fun m => m.ipPoolManager.InSync) hs.inSync
    fun m hm e _ => inSync_event m e hm

/-! ## Rows -/

/-- The entry creates a row for an address of the machine: afterwards the row is there,
    whatever the table held before. -/
def CreatesRow (d : Deployment) (decode : Bytes → Except String ProposalData) (envs : ℕ → Env)
    (m : Machine) (entry : Entry) (vmId : VmId) : Prop :=
  ∃ a : IpAllocation, a.vmId = vmId ∧ ∀ ipAllocations,
    ({ m with database := { m.database with ipAllocations } }.applyEntry d decode envs
      entry).1.database.ipAllocations[(⟨a.poolId, a.ip⟩ : IpAllocationKey)]? = some (.value a)

/-- What an allocation does when the manager is asked: the call succeeds, and the table has
    the row of the allocation if there is one. -/
theorem applyAllocateIp_blocking (hd : d.runtime = .blocking) (env : Env)
    (req : IpAllocationRequest) : (m.applyAllocateIp d env req).2 = .ok () ∧
      (m.applyAllocateIp d env req).1.database.ipAllocations =
        match (m.ipPoolManager.allocateIp d.toPlatform env.toPoolEnv req).2 with
        | .ok r => m.database.ipAllocations.insert ⟨r.allocation.poolId, r.allocation.ip⟩
            (.value r.allocation)
        | .error _ => m.database.ipAllocations := by
  simp only [applyAllocateIp, blockOn, hd]
  rcases m.ipPoolManager.allocateIp d.toPlatform env.toPoolEnv req with ⟨mgr, e | r⟩ <;>
    exact ⟨rfl, rfl⟩

theorem applyEntry_allocateIp {entry : Entry} {request : IpAllocationRequest}
    (hdata : entry.data ≠ []) (hd : decode entry.data = .ok (.allocateIp request))
    (m : Machine) (envs : ℕ → Env) :
    m.applyEntry d decode envs entry = m.applyAllocateIp d (envs 0) request := by
  simp only [applyEntry, hdata, if_false, hd]
  rfl

theorem createsRow_iff (hm : m.ipPoolManager.InSync) {entry : Entry}
    {request : IpAllocationRequest} (hdata : entry.data ≠ [])
    (hc : decode entry.data = .ok (.allocateIp request)) (envs : ℕ → Env) :
    m.CreatesRow d decode envs entry request.vmId ↔ d.runtime = .blocking ∧
      m.ipPoolManager.CanServe d.toPlatform (envs 0).toPoolEnv request := by
  simp only [CreatesRow, applyEntry_allocateIp hdata hc]
  by_cases hd : d.runtime = .blocking
  · rw [← isOk_allocateIp hm]
    simp only [(applyAllocateIp_blocking hd (envs 0) request).2]
    rcases @IpPoolManager.allocateIp_cases d.toPlatform (envs 0).toPoolEnv m.ipPoolManager hm
        request with ⟨counter, e, heq⟩ | ⟨counter, id, p, p', ip, -, -, -, -, -, -, -, heq⟩
    · simp only [heq]
      refine iff_of_false ?_ (by simp [Except.isOk, Except.toBool])
      rintro ⟨a, -, hrow⟩
      exact absurd (hrow ∅) (by simp)
    simp only [heq]
    refine iff_of_true ⟨record (envs 0).toPoolEnv request id ip, rfl, ?_⟩ ⟨hd, rfl⟩
    intro rows
    exact getElem?_insert_self
  · refine iff_of_false ?_ fun h => hd h.1
    rintro ⟨a, -, hrow⟩
    have hrow := hrow ∅
    unfold applyAllocateIp at hrow
    rcases blockOn_cases d { m with database := { m.database with ipAllocations := ∅ } }
      (fun _ => _) with ⟨-, hb⟩ | ⟨f, heq⟩
    · exact hd hb
    · rw [heq] at hrow
      simp [abort] at hrow

end Machine

/-! ## Answers -/

namespace RaftManager

variable {R : Type} (d : Deployment) (lib : Libraries R) (envs : ℕ → ℕ → Env)

/-- The entry is an `AllocateIp` for which the client waits. -/
structure Awaits (n : RaftManager R) (entry : Entry) (client : ℕ) (request : IpAllocationRequest) :
    Prop where
  data : entry.data ≠ []
  decoded : lib.decodeProposal entry.data = .ok (.allocateIp request)
  context : entry.context ≠ []
  pending : n.pendingProposals[entry.context]? = some client

def Answers (n : RaftManager R) (entry : Entry) (client : ℕ) (result : Except BlixardError Unit) :
    Prop :=
  (n.processNormalEntry d lib envs entry).1.responses = n.responses ++ [(client, result)]

def Creates (n : RaftManager R) (entry : Entry) (vmId : VmId) : Prop :=
  n.machine.CreatesRow d lib.decodeProposal (envs n.handed.length) entry vmId

/-- The client gets `Ok` if and only if a row is created, and gets an error if none is. -/
structure AnswerTells (n : RaftManager R) (entry : Entry) (client : ℕ)
    (request : IpAllocationRequest) : Prop where
  ok_iff : n.Answers d lib envs entry client (.ok ()) ↔ n.Creates d lib envs entry request.vmId
  failed : ¬ n.Creates d lib envs entry request.vmId →
    ∃ e, n.Answers d lib envs entry client (.error e)

variable {d lib envs} {n : RaftManager R} {entry : Entry} {client : ℕ}
  {request : IpAllocationRequest}

/-- Whatever the manager does with the request, the answer depends on the runtime only; the panic
    of `block_on` leaves the client without one. -/
theorem responses_allocateIp (h : n.Awaits lib entry client request) :
    (n.processNormalEntry d lib envs entry).1.responses = n.responses ++
      match d.runtime with
      | .absent => [(client, .error (.internal "No tokio runtime available"))]
      | .driving => []
      | .blocking => [(client, .ok ())] := by
  unfold processNormalEntry
  rw [applyEntry_allocateIp h.data h.decoded]
  cases hd : d.runtime with
  | absent => simp [applyAllocateIp, blockOn, hd, abort, respond, h.context, h.pending]
  | driving => simp [applyAllocateIp, blockOn, hd, abort, blockOnPanic]
  | blocking => simp [(applyAllocateIp_blocking hd _ request).1, respond, h.context, h.pending]

theorem answers_ok_iff (h : n.Awaits lib entry client request) :
    n.Answers d lib envs entry client (.ok ()) ↔ d.runtime = .blocking := by
  rw [Answers, responses_allocateIp h, append_cancel_left_eq]
  cases d.runtime <;> simp

theorem answers_error_iff (h : n.Awaits lib entry client request) :
    (∃ e, n.Answers d lib envs entry client (.error e)) ↔ d.runtime = .absent := by
  simp only [Answers, responses_allocateIp h, append_cancel_left_eq]
  cases d.runtime <;> simp

/-- **When the answer tells what happened**: exactly if there is no runtime to ask the manager in,
    or the manager is asked, and the pool that the request gets has a permit left and an address to
    hand out. -/
theorem answer_tells_iff (d : Deployment) (lib : Libraries R) (envs : ℕ → ℕ → Env)
    {start : Machine} (hstart : start.ipPoolManager.Starts d.toPlatform)
    (events : List Machine.Event) (n : RaftManager R)
    (hn : n.machine = events.foldl (Machine.event d lib.decodeProposal) start)
    (entry : Entry) (client : ℕ) (request : IpAllocationRequest)
    (h : n.Awaits lib entry client request) :
    n.AnswerTells d lib envs entry client request ↔ d.runtime = .absent ∨ d.runtime = .blocking ∧
      n.machine.ipPoolManager.CanServe d.toPlatform (envs n.handed.length 0).toPoolEnv request := by
  have hsync : n.machine.ipPoolManager.InSync := by
    rw [hn]
    exact Machine.inSync_events hstart events
  have hcreates : n.Creates d lib envs entry request.vmId ↔ _ :=
    Machine.createsRow_iff hsync h.data h.decoded (envs n.handed.length)
  have hok := @answers_ok_iff R d lib envs n entry client request h
  have herror := @answers_error_iff R d lib envs n entry client request h
  constructor
  · intro htells
    by_cases hrow : n.Creates d lib envs entry request.vmId
    · exact .inr (hcreates.1 hrow)
    · exact .inl (herror.1 (htells.failed hrow))
  rintro (habsent | hserved)
  · have hnone : ¬ n.Creates d lib envs entry request.vmId := by
      rw [hcreates, habsent]
      rintro ⟨⟨⟩, -⟩
    refine ⟨iff_of_false ?_ hnone, fun _ => herror.2 habsent⟩
    rw [hok, habsent]
    rintro ⟨⟩
  · have hrow := hcreates.2 hserved
    exact ⟨iff_of_true (hok.2 hserved.1) hrow, fun hnone => absurd hrow hnone⟩

/-! ## A pool, and no pool -/

def poolLibraries : Libraries Unit :=
  { Libraries.only (.allocateIp (IpPoolManager.requestFrom 1 1)) [0] .refusing with
    decodeProposal := fun data =>
      if data = [0] then .ok (.allocateIp (IpPoolManager.requestFrom 1 1))
      else decodeOnly (.ipPoolCommand (.createPool (IpPoolManager.tenPool 1 10 20))) [1] data }

def asking : Entry := { entryType := 0, term := 1, index := 2, data := [0], context := [5] }

def creating : Machine.Event :=
  .apply { entryType := 0, term := 1, index := 1, data := [1] } fun _ => .still 0

def waitingNode (events : List Machine.Event) : RaftManager Unit :=
  { nodeOne [] with
    machine := events.foldl (Machine.event Machine.blockingNode poolLibraries.decodeProposal) .new
    pendingProposals := (∅ : Table _ _).insert [5] 7 }

theorem awaits_waitingNode (evs : List Machine.Event) :
    (waitingNode evs).Awaits poolLibraries asking 7 (requestFrom 1 1) :=
  ⟨by decide, rfl, by decide, getElem?_insert_self⟩

theorem served_request_is_answered_ok :
    (waitingNode [creating]).AnswerTells Machine.blockingNode poolLibraries
      (fun _ _ => .still 0) asking 7 (IpPoolManager.requestFrom 1 1) ∧
    ((waitingNode [creating]).processNormalEntry Machine.blockingNode poolLibraries
      (fun _ _ => .still 0) asking).1.machine.database.ipAllocations.keys =
        [⟨⟨1⟩, .v4 0x0a00000a⟩] := by
  refine ⟨?_, by decide +kernel⟩
  have hstart : Machine.new.ipPoolManager.Starts Machine.blockingNode.toPlatform := .inl rfl
  refine (answer_tells_iff Machine.blockingNode poolLibraries (fun _ _ => .still 0) hstart
    [creating] (waitingNode [creating]) rfl asking 7 _ (awaits_waitingNode _)).2 (.inr ⟨rfl, ?_⟩)
  refine ⟨⟨1⟩, EnhancedIpPoolState.freshTen 20, ⟨by decide +kernel, rfl, by decide +kernel⟩,
    by decide +kernel, .v4 0x0a00000a, by decide +kernel, by decide +kernel⟩

/-- **`Ok` without a row**: there is no pool, and the client gets `Ok` all the same. -/
theorem unserved_request_is_answered_ok :
    (waitingNode []).Answers Machine.blockingNode poolLibraries (fun _ _ => .still 0) asking 7
      (.ok ()) ∧
    ¬ (waitingNode []).AnswerTells Machine.blockingNode poolLibraries (fun _ _ => .still 0)
      asking 7 (IpPoolManager.requestFrom 1 1) := by
  have hok : (waitingNode []).Answers Machine.blockingNode poolLibraries (fun _ _ => .still 0)
      asking 7 (.ok ()) := (answers_ok_iff (awaits_waitingNode [])).2 rfl
  refine ⟨hok, fun htells => ?_⟩
  obtain ⟨-, id, p, ⟨hp, -⟩, -⟩ := (Machine.createsRow_iff IpPoolManager.inSync_new (by decide) rfl
    _).1 (htells.ok_iff.1 hok)
  simp [waitingNode, Machine.new, IpPoolManager.new] at hp

end RaftManager

end Blixard
