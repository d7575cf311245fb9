/-
  The manager of all address pools (`ip_pool_manager.rs`), and what its commands do to the
  addresses of the pools.

  The order of its hash maps, the clock and the random choice of a selection are in `PoolEnv`.
-/
import Mathlib.Data.List.MinMax
import Blixard.Lib.Run
import Blixard.IpPool.Pool

namespace Blixard

open Std.ExtTreeMap

/-- What the surroundings of one call decide: the order in which the map of
    pools is iterated, the random index, and the successive clock readings. -/
structure PoolEnv where
  order : List IpPoolId → List IpPoolId
  order_perm : ∀ ids, (order ids).Perm ids
  random : ℕ
  now : ℕ → ℤ

structure IpPoolManager where
  pools : Table IpPoolId EnhancedIpPoolState
  allocations : Table IpAddr IpAllocation
  vmAllocations : Table VmId (List IpAddr)
  roundRobinCounter : ℕ

theorem forM_eq_ok {ε α : Type} {f : α → Except ε Unit} {xs : List α} :
    xs.forM f = .ok () ↔ ∀ x ∈ xs, f x = .ok () := by
  induction xs with
  | nil => simp [pure, Except.pure]
  | cons x xs ih =>
    rw [List.forM, List.forall_mem_cons, ← ih]
    cases hx : f x with
    | error e => simp [bind, Except.bind]
    | ok u => simp [bind, Except.bind]

namespace IpPoolManager

variable (pf : Platform) (env : PoolEnv)

def new : IpPoolManager := ⟨∅, ∅, ∅, 0⟩

/-! ## Pool commands -/

def fail (m : IpPoolManager) (e : BlixardError) : IpPoolManager × Except Failure Unit :=
  (m, .error (.error e))

def createPool (m : IpPoolManager) (config : IpPoolConfig) :
    IpPoolManager × Except Failure Unit :=
  match config.validate pf with
  | .error e => m.fail e
  | .ok () =>
    if config.id ∈ m.pools then m.fail (.alreadyExists s!"IP pool {config.id.display}")
    else
      match EnhancedIpPoolState.new pf config with
      | .error failure => (m, .error failure)
      | .ok p => ({ m with pools := m.pools.insert config.id p }, .ok ())

def withPool (m : IpPoolManager) (poolId : IpPoolId)
    (f : EnhancedIpPoolState → Except BlixardError EnhancedIpPoolState) :
    IpPoolManager × Except Failure Unit :=
  match m.pools[poolId]? with
  | none => m.fail (.notFound s!"IP pool {poolId.display}")
  | some p =>
    match f p with
    | .error e => m.fail e
    | .ok p' => ({ m with pools := m.pools.insert poolId p' }, .ok ())

def updatePool (m : IpPoolManager) (config : IpPoolConfig) :
    IpPoolManager × Except Failure Unit :=
  match config.validate pf with
  | .error e => m.fail e
  | .ok () => m.withPool config.id fun p =>
    .ok { p with state := { p.state with config } }.syncState

def deletePool (m : IpPoolManager) (poolId : IpPoolId) : IpPoolManager × Except Failure Unit :=
  match m.pools[poolId]? with
  | none => m.fail (.notFound s!"IP pool {poolId.display}")
  | some p =>
    if p.state.allocatedIps.size ≠ 0 then
      m.fail (.invalidOperation "delete pool"
        s!"Pool {poolId.display} has {p.state.allocatedIps.size} allocated IPs")
    else ({ m with pools := m.pools.erase poolId }, .ok ())

def setPoolEnabled (m : IpPoolManager) (poolId : IpPoolId) (enabled : Bool) :
    IpPoolManager × Except Failure Unit :=
  m.withPool poolId fun p =>
    .ok { p with state := { p.state with config := { p.state.config with enabled } } }

def checkReservable (p : EnhancedIpPoolState) (ip : IpAddr) : Except BlixardError Unit :=
  if ¬ pf.subnetContains p.state.config.subnet ip then
    .error (.invalidOperation "reserve IP" s!"IP {ip.display} is not in pool subnet")
  else if ip ∈ p.state.allocatedIps then
    .error (.invalidOperation "reserve IP" s!"IP {ip.display} is already allocated")
  else .ok ()

def setReserved (p : EnhancedIpPoolState) (reservedIps : IpSet) : EnhancedIpPoolState :=
  { p with state := { p.state with config := { p.state.config with reservedIps } } }

def reserveIps (m : IpPoolManager) (poolId : IpPoolId) (ips : IpSet) :
    IpPoolManager × Except Failure Unit :=
  m.withPool poolId fun p => do
    ips.keys.forM (checkReservable pf p)
    return setReserved p (Table.putAll p.state.config.reservedIps ips.toList)

def releaseReservedIps (m : IpPoolManager) (poolId : IpPoolId) (ips : IpSet) :
    IpPoolManager × Except Failure Unit :=
  m.withPool poolId fun p =>
    .ok (setReserved p (Table.eraseAll p.state.config.reservedIps ips.keys))

def processCommand (m : IpPoolManager) : IpPoolCommand → IpPoolManager × Except Failure Unit
  | .createPool config => m.createPool pf config
  | .updatePool config => m.updatePool pf config
  | .deletePool poolId => m.deletePool poolId
  | .setPoolEnabled poolId enabled => m.setPoolEnabled poolId enabled
  | .reserveIps poolId ips => m.reserveIps pf poolId ips
  | .releaseReservedIps poolId ips => m.releaseReservedIps poolId ips

/-! ## Allocation -/

def eligible (request : IpAllocationRequest) (p : EnhancedIpPoolState) : Bool :=
  p.state.config.enabled &&
  (request.requiredTags.all fun tag => p.state.config.tags.lookup tag.1 == some tag.2) &&
  (match request.topologyHint, p.state.config.topologyHint with
    | some hint, some poolHint => poolHint == hint
    | _, _ => true) &&
  p.hasCapacity

def eligiblePools (m : IpPoolManager) (request : IpAllocationRequest) :
    List (IpPoolId × EnhancedIpPoolState) :=
  (env.order m.pools.keys).filterMap fun id =>
    match m.pools[id]? with
    | some p => if eligible request p then some (id, p) else none
    | none => none

def leastUtilized (pools : List (IpPoolId × EnhancedIpPoolState)) : Except BlixardError IpPoolId :=
  match pools.argmin fun p => p.2.utilizationKey pf with
  | some p => .ok p.1
  | none =>
    .error (.invalidOperation "minimum selection" "Cannot find minimum in empty collection")

def mostUtilized (pools : List (IpPoolId × EnhancedIpPoolState)) : Except BlixardError IpPoolId :=
  match pools.reverse.argmax fun p => p.2.utilizationKey pf with
  | some p => .ok p.1
  | none =>
    .error (.invalidOperation "maximum selection" "Cannot find maximum in empty collection")

def selectPool (m : IpPoolManager) (request : IpAllocationRequest) :
    Except BlixardError IpPoolId × ℕ :=
  match m.eligiblePools env request with
  | [] => (.error (.resourceExhausted "IP pools matching requirements"), m.roundRobinCounter)
  | first :: rest =>
    let pools := first :: rest
    match request.selectionStrategy with
    | .leastUtilized => (leastUtilized pf pools, m.roundRobinCounter)
    | .mostUtilized => (mostUtilized pf pools, m.roundRobinCounter)
    | .roundRobin =>
      (.ok (pools.getD (m.roundRobinCounter % pools.length) first).1,
        (m.roundRobinCounter + 1) % pools.length)
    | .topologyAware =>
      match request.topologyHint with
      | some hint =>
        match pools.find? fun p => p.2.state.config.topologyHint == some hint with
        | some p => (.ok p.1, m.roundRobinCounter)
        | none => (leastUtilized pf pools, m.roundRobinCounter)
      | none => (leastUtilized pf pools, m.roundRobinCounter)
    | .random => (.ok (pools.getD (env.random % pools.length) first).1, m.roundRobinCounter)

def choosePool (m : IpPoolManager) (request : IpAllocationRequest) :
    Except BlixardError IpPoolId × ℕ :=
  match request.preferredPool with
  | some preferred =>
    match m.pools[preferred]? with
    | none => (.error (.notFound s!"IP pool {preferred.display}"), m.roundRobinCounter)
    | some p =>
      if p.hasCapacity then (.ok preferred, m.roundRobinCounter)
      else (.error (.resourceExhausted s!"IP pool {preferred.display}"), m.roundRobinCounter)
  | none => m.selectPool pf env request

def record (request : IpAllocationRequest) (poolId : IpPoolId) (ip : IpAddr) : IpAllocation :=
  { ip, poolId, vmId := request.vmId, macAddress := request.macAddress,
    allocatedAt := env.now 1, expiresAt := none }

def networkConfig (config : IpPoolConfig) (ip : IpAddr) (macAddress : String) : NetworkConfig :=
  ⟨ip, config.subnet, config.gateway, config.dnsServers, config.vlanId, macAddress⟩

def held (m : IpPoolManager) (vmId : VmId) : List IpAddr := m.vmAllocations[vmId]?.getD []

def allocateIp (m : IpPoolManager) (request : IpAllocationRequest) :
    IpPoolManager × Except BlixardError IpAllocationResult :=
  match m.choosePool pf env request with
  | (.error e, counter) => ({ m with roundRobinCounter := counter }, .error e)
  | (.ok poolId, counter) =>
    let m := { m with roundRobinCounter := counter }
    match m.pools[poolId]? with
    | none => (m, .error (.notFound s!"IP Pool with id: {poolId.display}"))
    | some p =>
      match p.allocateIp pf (env.now 0) with
      | (p, .error e) => ({ m with pools := m.pools.insert poolId p }, .error e)
      | (p, .ok address) =>
        let allocation := record env request poolId address.ip
        ({ m with
            pools := m.pools.insert poolId p
            allocations := m.allocations.insert address.ip allocation
            vmAllocations :=
              m.vmAllocations.insert request.vmId (m.held request.vmId ++ [address.ip]) },
          .ok ⟨allocation, networkConfig p.state.config address.ip request.macAddress⟩)

def releaseOne (m : IpPoolManager) (ip : IpAddr) : IpPoolManager :=
  match m.allocations[ip]? with
  | none => m
  | some allocation =>
    let m := { m with allocations := m.allocations.erase ip }
    match m.pools[allocation.poolId]? with
    | none => m
    | some p => { m with pools := m.pools.insert allocation.poolId (p.releaseIp ip) }

def releaseVmIps (m : IpPoolManager) (vmId : VmId) : IpPoolManager :=
  (m.held vmId).foldl releaseOne { m with vmAllocations := m.vmAllocations.erase vmId }

/-- The state of a pool that is loaded, with the addresses of the allocations that name it. -/
def loadedState (config : IpPoolConfig) (allocations : List IpAllocation) : IpPoolState :=
  (allocations.filter fun a => a.poolId = config.id).foldl
    (fun s a => { s with
      allocatedIps := s.allocatedIps.insert a.ip ()
      totalAllocated := s.totalAllocated + 1 }) ⟨config, ∅, 0, none⟩

def loadPools (allocations : List IpAllocation) :
    Table IpPoolId EnhancedIpPoolState → List IpPoolConfig →
      Except Failure (Table IpPoolId EnhancedIpPoolState)
  | pools, [] => .ok pools
  | pools, config :: rest =>
    match config.validate pf with
    | .error e => .error (.error e)
    | .ok () => do
      let p ← EnhancedIpPoolState.fromExistingState pf (loadedState config allocations)
      loadPools allocations (pools.insert p.state.config.id p) rest

def loadAllocation (m : IpPoolManager) (a : IpAllocation) : IpPoolManager :=
  { m with
    allocations := m.allocations.insert a.ip a
    vmAllocations := m.vmAllocations.insert a.vmId (m.held a.vmId ++ [a.ip]) }

def loadFromStorage (m : IpPoolManager) (pools : List IpPoolConfig)
    (allocations : List IpAllocation) : Except Failure IpPoolManager := do
  let pools ← loadPools pf allocations m.pools pools
  return allocations.foldl loadAllocation { m with pools }

/-! ## What the operations can do -/

variable {pf env} {m : IpPoolManager}

theorem withPool_cases (id : IpPoolId)
    (f : EnhancedIpPoolState → Except BlixardError EnhancedIpPoolState) :
    (m.withPool id f).1 = m ∨ ∃ p p', m.pools[id]? = some p ∧ f p = .ok p' ∧
      (m.withPool id f).1 = { m with pools := m.pools.insert id p' } := by
  unfold withPool
  cases hp : m.pools[id]? with
  | none => exact .inl rfl
  | some p =>
    cases hf : f p with
    | error e => simp only [hf]; exact .inl rfl
    | ok p' => simp only [hf]; exact .inr ⟨p, p', rfl, hf, rfl⟩

structure SameAddresses (p p' : EnhancedIpPoolState) : Prop where
  factoryConfig : p'.factoryConfig = p.factoryConfig
  shared : p'.allocatedIpsShared = p.allocatedIpsShared
  inSync : p.InSync → p'.InSync

/-- How a command may change the configuration in the state of the pool `id`. -/
inductive Reconfigured (pf : Platform) (c : IpPoolCommand) (id : IpPoolId)
    (p p' : EnhancedIpPoolState) : Prop
  | update (hc : c = .updatePool p'.state.config) (hid : p'.state.config.id = id)
      (hvalid : p'.state.config.validate pf = .ok ())
  | enabled (b : Bool) (h : p'.state.config = { p.state.config with enabled := b })
  | reserve (ips : IpSet) (hc : c = .reserveIps id ips)
      (hcheck : ∀ ip ∈ ips, checkReservable pf p ip = .ok ())
      (h : p' = setReserved p (Table.putAll p.state.config.reservedIps ips.toList))
  | release (ips : IpSet)
      (h : p' = setReserved p (Table.eraseAll p.state.config.reservedIps ips.keys))

/-- **What a pool command does**: nothing, it adds a new empty pool, it changes
    the configuration of one pool, or it removes a pool without allocations. -/
theorem processCommand_cases (m : IpPoolManager) (c : IpPoolCommand) :
    (m.processCommand pf c).1 = m ∨
    (∃ cfg p, c = .createPool cfg ∧ cfg.validate pf = .ok () ∧ cfg.id ∉ m.pools ∧
      EnhancedIpPoolState.new pf cfg = .ok p ∧
      (m.processCommand pf c).1 = { m with pools := m.pools.insert cfg.id p }) ∨
    (∃ id p p', m.pools[id]? = some p ∧ SameAddresses p p' ∧ Reconfigured pf c id p p' ∧
      (m.processCommand pf c).1 = { m with pools := m.pools.insert id p' }) ∨
    ∃ id p, m.pools[id]? = some p ∧ p.state.allocatedIps = ∅ ∧
      (m.processCommand pf c).1 = { m with pools := m.pools.erase id } := by
  -- the commands that change one pool in place
  have inPlace : ∀ id f,
      (∀ p p', f p = .ok p' → SameAddresses p p' ∧ Reconfigured pf c id p p') →
      (m.withPool id f).1 = m ∨ ∃ id' p p', m.pools[id']? = some p ∧ SameAddresses p p' ∧
        Reconfigured pf c id' p p' ∧
        (m.withPool id f).1 = { m with pools := m.pools.insert id' p' } := by
    intro id f hf
    rcases withPool_cases (m := m) id f with h | ⟨p, p', hp, hfp, h⟩
    · exact .inl h
    · exact .inr ⟨id, p, p', hp, (hf p p' hfp).1, (hf p p' hfp).2, h⟩
  cases c with
  | createPool cfg =>
    simp only [processCommand]
    fun_cases createPool pf m cfg with
    | case4 hv hid p hnew => exact .inr (.inl ⟨cfg, p, rfl, hv, hid, hnew, rfl⟩)
    | _ => exact .inl rfl
  | updatePool cfg =>
    simp only [processCommand]
    fun_cases updatePool pf m cfg with
    | case1 => exact .inl rfl
    | case2 hv =>
      refine (inPlace _ _ ?_).imp_right fun h => .inr (.inl h)
      rintro p p' ⟨⟩
      exact ⟨⟨rfl, rfl, fun hp => ⟨hp.available, rfl⟩⟩, .update rfl rfl hv⟩
  | deletePool id =>
    simp only [processCommand]
    fun_cases deletePool m id with
    | case3 p hp hs =>
      refine .inr (.inr (.inr ⟨id, p, hp, ?_, rfl⟩))
      rwa [not_not, ← eq_empty_iff_size_eq_zero] at hs
    | _ => exact .inl rfl
  | setPoolEnabled id enabled =>
    refine (inPlace _ _ ?_).imp_right fun h => .inr (.inl h)
    rintro p p' ⟨⟩
    exact ⟨⟨rfl, rfl, fun hp => ⟨hp.available, hp.allocated⟩⟩, .enabled enabled rfl⟩
  | reserveIps id ips =>
    refine (inPlace _ _ ?_).imp_right fun h => .inr (.inl h)
    intro p p' h
    obtain ⟨u, hc, h⟩ := bind_eq_ok h
    cases h
    refine ⟨⟨rfl, rfl, fun hp => ⟨hp.available, hp.allocated⟩⟩, .reserve ips rfl ?_ rfl⟩
    intro ip hip
    exact forM_eq_ok.1 hc ip (mem_keys.2 hip)
  | releaseReservedIps id ips =>
    refine (inPlace _ _ ?_).imp_right fun h => .inr (.inl h)
    rintro p p' ⟨⟩
    exact ⟨⟨rfl, rfl, fun hp => ⟨hp.available, hp.allocated⟩⟩, .release ips rfl⟩

/-- **What an allocation does** when all pools are in sync: nothing but counting,
    or it takes a fresh address of one pool and records it for the machine. -/
theorem allocateIp_cases
    (hsync : ∀ (id : IpPoolId) (p : EnhancedIpPoolState), m.pools[id]? = some p → p.InSync)
    (req : IpAllocationRequest) :
    (∃ ctr e, m.allocateIp pf env req = ({ m with roundRobinCounter := ctr }, .error e)) ∨
    ∃ ctr id p p' ip, m.pools[id]? = some p ∧
      p.factoryConfig.Allocatable pf ip ∧ ip ∉ p.allocatedIpsShared ∧ p'.InSync ∧
      p'.factoryConfig = p.factoryConfig ∧ p'.state.config = p.state.config ∧
      p'.allocatedIpsShared = p.allocatedIpsShared.insert ip () ∧
      m.allocateIp pf env req =
        ({ pools := m.pools.insert id p'
           allocations := m.allocations.insert ip (record env req id ip)
           vmAllocations := m.vmAllocations.insert req.vmId (m.held req.vmId ++ [ip])
           roundRobinCounter := ctr },
          .ok ⟨record env req id ip,
            networkConfig p'.state.config ip req.macAddress⟩) := by
  unfold allocateIp
  rcases hc1 : m.choosePool pf env req with ⟨e | id, ctr⟩
  · exact .inl ⟨ctr, e, rfl⟩
  cases hp : m.pools[id]? with
  | none => simp only [hp]; exact .inl ⟨ctr, _, rfl⟩
  | some p =>
    simp only [hp]
    rcases @EnhancedIpPoolState.allocateIp_cases pf p (hsync id p hp) (env.now 0) with
      ⟨e, he⟩ | ⟨ip, p', hok, hall, hr, hs, hf, hc, hsh⟩
    · refine .inl ⟨ctr, e, ?_⟩
      simp only [he, Table.insert_of_get hp]
    · refine .inr ⟨ctr, id, p, p', ip, hp, hall, hr, hs, hf, hc, hsh, ?_⟩
      rw [hok]; rfl

end IpPoolManager

end Blixard
