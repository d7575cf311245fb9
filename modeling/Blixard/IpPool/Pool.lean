/-
  One address pool: the generic resource pool (`patterns/resource_pool.rs`), the factory that
  searches for a free address, and the pool state around them (`ip_pool.rs`, second half).
-/
import Blixard.IpPool.Config

namespace Blixard

/-! ## Resource pools -/

structure PoolConfig where
  maxSize : ℕ
  minSize : ℕ
  acquireTimeoutSecs : ℕ
  validateOnAcquire : Bool
  resetOnAcquire : Bool
  deriving DecidableEq

structure ResourceFactory (S T : Type) where
  create : S → Except BlixardError (T × S)
  destroy : S → T → Except BlixardError S
  isValid : T → Bool
  reset : T → Except BlixardError T

structure ResourcePool (T : Type) where
  available : List T
  permits : ℕ
  config : PoolConfig
  totalCreated : ℕ
  deriving DecidableEq

namespace ResourcePool

variable {S T : Type} (f : ResourceFactory S T)

def new (config : PoolConfig) : ResourcePool T := ⟨[], config.maxSize, config, 0⟩

/-- The end of `acquire_with_timeout`.  The permit is forgotten, not given back, when the resource
    is handed out. -/
def handOut (p : ResourcePool T) (s : S) (r : T) : ResourcePool T × S × Except BlixardError T :=
  if p.config.resetOnAcquire then
    match f.reset r with
    | .error e => (p, s, .error e)
    | .ok r => ({ p with permits := p.permits - 1 }, s, .ok r)
  else ({ p with permits := p.permits - 1 }, s, .ok r)

/-- The part of `acquire_with_timeout` after a resource is there. -/
def checkOut (p : ResourcePool T) (s : S) (r : T) :
    ResourcePool T × S × Except BlixardError T :=
  if p.config.validateOnAcquire ∧ ¬ f.isValid r then
    match f.destroy s r with
    | .error e => (p, s, .error e)
    | .ok s =>
      match f.create s with
      | .error e => (p, s, .error e)
      | .ok (r, s) => p.handOut f s r
  else p.handOut f s r

/-- `acquire`, by a caller that no one else returns resources to: with no permit
    left it waits in vain. -/
def acquire (p : ResourcePool T) (s : S) : ResourcePool T × S × Except BlixardError T :=
  if p.permits = 0 then
    (p, s, .error (.timeout "acquire resource from pool" p.config.acquireTimeoutSecs))
  else
    match p.available with
    | r :: rest => checkOut f { p with available := rest } s r
    | [] =>
      match f.create s with
      | .error e => (p, s, .error e)
      | .ok (r, s) => checkOut f { p with totalCreated := p.totalCreated + 1 } s r

def inUse (p : ResourcePool T) : ℕ := p.totalCreated - p.available.length

end ResourcePool

/-! ## The factory of addresses -/

structure IpAddress where
  ip : IpAddr
  poolId : IpPoolId
  isValid : Bool
  deriving DecidableEq

namespace IpPoolConfig

variable (pf : Platform) (c : IpPoolConfig)

/-- The addresses `find_next_available_ip` looks at, in its order; of an IPv6
    range only the first 10000. -/
def scanned : List IpAddr :=
  match c.allocationStart, c.allocationEnd with
  | .v4 first, .v4 last =>
    (List.range' first.toNat (last.toNat + 1 - first.toNat)).map fun i => .v4 (.ofNat 32 i)
  | .v6 first, .v6 last =>
    -- the pool was created with the same sum, so it does not overflow here
    (List.range' first.toNat (min 10000 ((last.toNat - first.toNat + 1) % 2 ^ 128))).map
      fun i => .v6 (.ofNat 128 i)
  | _, _ => []

/-- The part of `is_ip_available` that does not depend on the allocations. -/
def allowed (ip : IpAddr) : Bool :=
  !decide (ip ∈ c.reservedIps) && pf.subnetContains c.subnet ip && decide (ip ≠ c.gateway)

def isIpAvailable (allocated : IpSet) (ip : IpAddr) : Bool :=
  !decide (ip ∈ allocated) && c.allowed pf ip

def findNextAvailableIp (allocated : IpSet) : Option IpAddr :=
  c.scanned.find? (c.isIpAvailable pf allocated)

/-- The addresses a pool created with this configuration can ever hand out. -/
def Allocatable (ip : IpAddr) : Prop := ip ∈ c.scanned ∧ c.allowed pf ip

instance (ip : IpAddr) : Decidable (c.Allocatable pf ip) := inferInstanceAs (Decidable (_ ∧ _))

variable {pf c}

theorem findNextAvailableIp_some {allocated : IpSet} {ip : IpAddr}
    (h : c.findNextAvailableIp pf allocated = some ip) : c.Allocatable pf ip ∧ ip ∉ allocated := by
  have hmem := List.mem_of_find?_eq_some h
  have hav := List.find?_some h
  simp only [isIpAvailable, Bool.and_eq_true, Bool.not_eq_true', decide_eq_false_iff_not] at hav
  exact ⟨⟨hmem, hav.2⟩, hav.1⟩

end IpPoolConfig

def ipAddressFactory (pf : Platform) (config : IpPoolConfig) : ResourceFactory IpSet IpAddress where
  create allocated :=
    match config.findNextAvailableIp pf allocated with
    | none => .error (.resourceExhausted s!"IP addresses in pool {config.id.display}")
    | some ip => .ok (⟨ip, config.id, true⟩, allocated.insert ip ())
  destroy allocated r := .ok (allocated.erase r.ip)
  isValid r := r.isValid
  reset r := .ok { r with isValid := true }

/-- What acquiring from an address pool with nothing in stock does: nothing, or
    it hands out the next free address of the factory. -/
theorem acquire_ipAddress (pf : Platform) (cfg : IpPoolConfig) {p : ResourcePool IpAddress}
    (hp : p.available = []) (alloc : IpSet) :
    (∃ e, p.acquire (ipAddressFactory pf cfg) alloc = (p, alloc, .error e)) ∨
    ∃ ip, cfg.findNextAvailableIp pf alloc = some ip ∧
      p.acquire (ipAddressFactory pf cfg) alloc =
        ({ p with totalCreated := p.totalCreated + 1, permits := p.permits - 1 },
          alloc.insert ip (), .ok ⟨ip, cfg.id, true⟩) := by
  unfold ResourcePool.acquire
  split
  · exact .inl ⟨_, rfl⟩
  rw [hp]
  cases hfind : cfg.findNextAvailableIp pf alloc with
  | none =>
    simp only [ipAddressFactory, hfind]
    exact .inl ⟨_, rfl⟩
  | some ip =>
    refine .inr ⟨ip, rfl, ?_⟩
    -- a new address is valid, so neither the validation nor a reset changes it
    cases hr : p.config.resetOnAcquire <;>
      simp [ipAddressFactory, hfind, ResourcePool.checkOut, ResourcePool.handOut, hr]

/-! ## Pool states -/

structure IpPoolState where
  config : IpPoolConfig
  allocatedIps : IpSet
  totalAllocated : ℕ
  lastAllocation : Option ℤ
  deriving DecidableEq

structure EnhancedIpPoolState where
  state : IpPoolState
  resourcePool : ResourcePool IpAddress
  factoryConfig : IpPoolConfig
  allocatedIpsShared : IpSet
  deriving DecidableEq

namespace EnhancedIpPoolState

variable (pf : Platform)

def new (config : IpPoolConfig) : Except Failure EnhancedIpPoolState := do
  let capacity ← config.totalCapacity pf
  if pf.maxPermits < capacity then
    throw (.panic s!"a semaphore may not have more than MAX_PERMITS permits ({pf.maxPermits})")
  return { state := ⟨config, ∅, 0, none⟩
           resourcePool := .new ⟨capacity, 0, 30, true, false⟩
           factoryConfig := config
           allocatedIpsShared := ∅ }

def fromExistingState (state : IpPoolState) : Except Failure EnhancedIpPoolState := do
  let capacity ← state.config.totalCapacity pf
  if pf.maxPermits < capacity then
    throw (.panic s!"a semaphore may not have more than MAX_PERMITS permits ({pf.maxPermits})")
  return { state
           resourcePool := .new ⟨capacity, 0, 30, true, false⟩
           factoryConfig := state.config
           allocatedIpsShared := state.allocatedIps }

def allocateIp (now : ℤ) (p : EnhancedIpPoolState) :
    EnhancedIpPoolState × Except BlixardError IpAddress :=
  match p.resourcePool.acquire (ipAddressFactory pf p.factoryConfig) p.allocatedIpsShared with
  | (pool, shared, .error e) =>
    ({ p with resourcePool := pool, allocatedIpsShared := shared }, .error e)
  | (pool, shared, .ok address) =>
    ({ p with
        resourcePool := pool
        allocatedIpsShared := shared
        state := { p.state with
          allocatedIps := p.state.allocatedIps.insert address.ip ()
          totalAllocated := p.state.totalAllocated + 1
          lastAllocation := some now } }, .ok address)

def releaseIp (p : EnhancedIpPoolState) (ip : IpAddr) : EnhancedIpPoolState :=
  { p with
    state := { p.state with
      allocatedIps := p.state.allocatedIps.erase ip
      totalAllocated :=
        if ip ∈ p.state.allocatedIps then p.state.totalAllocated - 1 else p.state.totalAllocated }
    allocatedIpsShared := p.allocatedIpsShared.erase ip }

def hasCapacity (p : EnhancedIpPoolState) : Bool :=
  p.state.config.enabled && decide (p.resourcePool.inUse < p.resourcePool.config.maxSize)

def utilizationKey (p : EnhancedIpPoolState) : ℕ :=
  if p.resourcePool.config.maxSize = 0 then 100000
  else pf.utilization p.resourcePool.inUse p.resourcePool.config.maxSize

def syncState (p : EnhancedIpPoolState) : EnhancedIpPoolState :=
  { p with state := { p.state with
      allocatedIps := p.allocatedIpsShared
      totalAllocated := p.allocatedIpsShared.size } }

/-- A pool holds nothing in stock, and its two sets of allocated addresses are
    the same. -/
structure InSync (p : EnhancedIpPoolState) : Prop where
  available : p.resourcePool.available = []
  allocated : p.state.allocatedIps = p.allocatedIpsShared

variable {pf} {p : EnhancedIpPoolState}

variable {cfg : IpPoolConfig}

theorem new_eq (h : new pf cfg = .ok p) : ∃ cap, cfg.totalCapacity pf = .ok cap ∧
      p = ⟨⟨cfg, ∅, 0, none⟩, .new ⟨cap, 0, 30, true, false⟩, cfg, ∅⟩ := by
  unfold new at h
  obtain ⟨cap, hcap, h⟩ := bind_eq_ok h
  refine ⟨cap, hcap, ?_⟩
  split at h
  · cases h
  · cases h; rfl

theorem new_ok (h : new pf cfg = .ok p) :
    p.InSync ∧ p.factoryConfig = cfg ∧ p.allocatedIpsShared = ∅ := by
  obtain ⟨capacity, -, rfl⟩ := new_eq h
  exact ⟨⟨rfl, rfl⟩, rfl, rfl⟩

/-- **What an allocation does to a pool**: nothing it tracks, or it hands out a
    fresh allocatable address and records it in both sets. -/
theorem allocateIp_cases (hp : p.InSync) (now : ℤ) :
    (∃ e, allocateIp pf now p = (p, .error e)) ∨
    ∃ ip p', allocateIp pf now p = (p', .ok ⟨ip, p.factoryConfig.id, true⟩) ∧
      p.factoryConfig.Allocatable pf ip ∧ ip ∉ p.allocatedIpsShared ∧ p'.InSync ∧
      p'.factoryConfig = p.factoryConfig ∧ p'.state.config = p.state.config ∧
      p'.allocatedIpsShared = p.allocatedIpsShared.insert ip () := by
  rcases acquire_ipAddress pf p.factoryConfig hp.available p.allocatedIpsShared with
    ⟨e, he⟩ | ⟨ip, hfind, hok⟩
  · exact .inl ⟨e, by simp only [allocateIp, he]⟩
  obtain ⟨hall, hf⟩ := IpPoolConfig.findNextAvailableIp_some hfind
  refine .inr ⟨ip, (allocateIp pf now p).1, ?_, hall, hf, ?_⟩ <;>
    unfold allocateIp <;> rw [hok]
  exact ⟨⟨hp.available, congrArg (·.insert ip ()) hp.allocated⟩, rfl, rfl, rfl⟩

theorem releaseIp_inSync (hp : p.InSync) (ip : IpAddr) : (p.releaseIp ip).InSync :=
  ⟨hp.available, by
    show p.state.allocatedIps.erase ip = p.allocatedIpsShared.erase ip
    rw [hp.allocated]⟩

end EnhancedIpPoolState

end Blixard
