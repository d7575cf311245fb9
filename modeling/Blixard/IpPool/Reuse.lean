/-
  Are released addresses reusable?

  An acquired address takes a permit and counts as created, and a release gives neither back
  (`reusable_iff`).
-/
import Blixard.IpPool.Configuration

namespace Blixard

open IpPoolConfig List ResourcePool Std.ExtTreeMap

/-- Networks hold intervals of IPv4 addresses, as a common prefix of bits makes them. -/
def Platform.Convex (pf : Platform) : Prop :=
  ∀ (net : IpNet) (a x b : BitVec 32), a.toNat ≤ x.toNat → x.toNat ≤ b.toNat →
    pf.subnetContains net (.v4 a) → pf.subnetContains net (.v4 b) → pf.subnetContains net (.v4 x)

namespace IpPoolConfig

variable {pf : Platform} {c : IpPoolConfig} {ip : IpAddr}

def IsV4 (c : IpPoolConfig) : Prop :=
  ∃ first last, c.allocationStart = .v4 first ∧ c.allocationEnd = .v4 last

def allocatable (pf : Platform) (c : IpPoolConfig) : List IpAddr := c.scanned.filter (c.allowed pf)

theorem mem_allocatable : ip ∈ c.allocatable pf ↔ c.Allocatable pf ip := mem_filter

theorem checkInSubnet_ok {component label : String}
    (h : c.checkInSubnet pf component label ip = .ok ()) : pf.subnetContains c.subnet ip := by
  unfold checkInSubnet at h
  split_ifs at h with hc
  exact hc

theorem ends_of_validate (h : c.validate pf = .ok ()) :
    pf.subnetContains c.subnet c.allocationStart ∧ pf.subnetContains c.subnet c.allocationEnd := by
  obtain ⟨_, -, h⟩ := bind_eq_ok h
  obtain ⟨_, hs, h⟩ := bind_eq_ok h
  obtain ⟨_, hend, -⟩ := bind_eq_ok h
  exact ⟨checkInSubnet_ok hs, checkInSubnet_ok hend⟩

theorem nodup_scanned (hv4 : c.IsV4) : c.scanned.Nodup := by
  obtain ⟨first, last, hs, he⟩ := hv4
  simp only [scanned, hs, he]
  apply List.Nodup.map_on _ (nodup_range' ..)
  intro i hi j hj hij
  have hb := last.isLt
  rw [mem_range'_1] at hi hj
  injection hij with hij
  have := congrArg BitVec.toNat hij
  simp only [BitVec.toNat_ofNat] at this
  omega

theorem allocatable_iff_grants (hpf : pf.Convex) (hval : c.validate pf = .ok ()) (hv4 : c.IsV4) :
    c.Allocatable pf ip ↔ c.Grants ip := by
  refine ⟨grants_of_allocatable hval, ?_⟩
  rintro ⟨hr, hr1, hg⟩
  obtain ⟨first, last, hs, he⟩ := hv4
  obtain ⟨ht, hend⟩ := ends_of_validate hval
  rw [hs] at ht
  rw [he] at hend
  unfold InRange at hr
  rw [hs, he] at hr
  cases ip with
  | v6 x => exact hr.elim
  | v4 x =>
    obtain ⟨hf, hlast⟩ := hr
    constructor
    · simp only [scanned, hs, he, mem_map]
      refine ⟨x.toNat, mem_range'_1.2 (by omega), ?_⟩
      rw [BitVec.ofNat_toNat, BitVec.setWidth_eq]
    · have hnet := hpf c.subnet first x last hf hlast ht hend
      simp [allowed, hr1, hg, hnet]

end IpPoolConfig

/-! ## Runs on one pool -/

inductive PoolUse where
  | allocateIp (now : ℤ)
  | releaseIp (ip : IpAddr)

namespace EnhancedIpPoolState

variable (pf : Platform)

def use (p : EnhancedIpPoolState) : PoolUse → EnhancedIpPoolState
  | .allocateIp now => (p.allocateIp pf now).1
  | .releaseIp ip => p.releaseIp ip

/-- Some address in the pool's range is neither allocated, reserved nor the gateway. -/
def HasFree (p : EnhancedIpPoolState) : Prop :=
  ∃ ip, p.state.config.Grants ip ∧ ip ∉ p.state.allocatedIps

/-- A request succeeds exactly if there is a free address, and `has_capacity` says so. -/
def Reusable (p : EnhancedIpPoolState) : Prop :=
  ∀ now, ((p.allocateIp pf now).2.isOk ↔ p.HasFree) ∧
    (p.hasCapacity ↔ (p.allocateIp pf now).2.isOk)

/-- What the uses of a pool keep: its configuration, the balance of permits and created
    addresses, and where its addresses come from. -/
structure Kept (config : IpPoolConfig) (p : EnhancedIpPoolState) : Prop where
  inSync : p.InSync
  factoryConfig : p.factoryConfig = config
  stateConfig : p.state.config = config
  balance : p.resourcePool.permits + p.resourcePool.totalCreated = p.resourcePool.config.maxSize
  allocatable : ∀ ip ∈ p.allocatedIpsShared, config.Allocatable pf ip

variable {pf} {config : IpPoolConfig} {p : EnhancedIpPoolState}

theorem kept_new (h : new pf config = .ok p) : Kept pf config p := by
  obtain ⟨capacity, -, rfl⟩ := new_eq h
  refine ⟨⟨rfl, rfl⟩, rfl, rfl, rfl, ?_⟩
  intro ip hip
  exact absurd hip not_mem_empty

theorem allocateIp_eq (hp : p.InSync) (now : ℤ) :
    (∃ e, p.allocateIp pf now = (p, .error e) ∧ (p.resourcePool.permits = 0 ∨
      p.factoryConfig.findNextAvailableIp pf p.allocatedIpsShared = none)) ∨
    ∃ ip, p.factoryConfig.findNextAvailableIp pf p.allocatedIpsShared = some ip ∧
      0 < p.resourcePool.permits ∧
      p.allocateIp pf now =
        ({ p with
            resourcePool := { p.resourcePool with
              totalCreated := p.resourcePool.totalCreated + 1
              permits := p.resourcePool.permits - 1 }
            allocatedIpsShared := p.allocatedIpsShared.insert ip ()
            state := { p.state with
              allocatedIps := p.state.allocatedIps.insert ip ()
              totalAllocated := p.state.totalAllocated + 1
              lastAllocation := some now } }, .ok ⟨ip, p.factoryConfig.id, true⟩) := by
  by_cases hr : p.resourcePool.permits = 0
  · left
    simp only [allocateIp, acquire, hr, if_true]
    exact ⟨_, rfl, .inl trivial⟩
  rcases acquire_ipAddress pf p.factoryConfig hp.available p.allocatedIpsShared with
    ⟨e, he⟩ | ⟨ip, hfind, hok⟩
  · refine .inl ⟨e, by simp only [allocateIp, he], .inr ?_⟩
    cases hfind : p.factoryConfig.findNextAvailableIp pf p.allocatedIpsShared with
    | none => rfl
    | some ip =>
      -- a permit and a free address are all that an acquisition needs
      cases hs : p.resourcePool.config.resetOnAcquire <;>
        simp [acquire, hr, hp.available, ipAddressFactory, hfind,
          checkOut, handOut, hs] at he
  · refine .inr ⟨ip, hfind, Nat.pos_of_ne_zero hr, ?_⟩
    simp only [allocateIp, hok]

theorem kept_use (p : EnhancedIpPoolState) (u : PoolUse) (h : Kept pf config p) :
    Kept pf config (p.use pf u) := by
  cases u with
  | allocateIp now =>
    show Kept pf config (p.allocateIp pf now).1
    rcases @allocateIp_eq pf p h.inSync now with ⟨e, heq, -⟩ | ⟨ip, hfind, hpos, heq⟩ <;> rw [heq]
    · exact h
    refine ⟨⟨h.inSync.available, ?_⟩, h.factoryConfig, h.stateConfig, ?_, ?_⟩
    · exact congrArg (·.insert ip ()) h.inSync.allocated
    · have := h.balance
      show p.resourcePool.permits - 1 + (p.resourcePool.totalCreated + 1) =
        p.resourcePool.config.maxSize
      omega
    intro x hx
    rw [mem_insert, Std.LawfulEqCmp.compare_eq_iff_eq] at hx
    rcases hx with rfl | hx
    · exact h.factoryConfig ▸ (findNextAvailableIp_some hfind).1
    · exact h.allocatable x hx
  | releaseIp ip =>
    refine ⟨releaseIp_inSync h.inSync ip, h.factoryConfig, h.stateConfig, h.balance, ?_⟩
    intro x hx
    exact h.allocatable x (mem_of_mem_erase hx)

/-! ## When a request succeeds -/

theorem findNextAvailableIp_isSome {allocated : IpSet} :
    (config.findNextAvailableIp pf allocated).isSome ↔
      ∃ ip ∈ config.allocatable pf, ip ∉ allocated := by
  rw [findNextAvailableIp, find?_isSome]
  simp only [mem_allocatable, IpPoolConfig.Allocatable, isIpAvailable,
    Bool.and_eq_true, Bool.not_eq_true', decide_eq_false_iff_not]
  constructor
  · rintro ⟨ip, hscan, hnot, ha⟩
    exact ⟨ip, ⟨hscan, ha⟩, hnot⟩
  · rintro ⟨ip, ⟨hscan, ha⟩, hnot⟩
    exact ⟨ip, hscan, hnot, ha⟩

theorem isOk_allocateIp_iff (hp : p.InSync) (now : ℤ) :
    (p.allocateIp pf now).2.isOk ↔ 0 < p.resourcePool.permits ∧
      (p.factoryConfig.findNextAvailableIp pf p.allocatedIpsShared).isSome := by
  rcases @allocateIp_eq pf p hp now with ⟨e, heq, hwhy⟩ | ⟨ip, hfind, hpos, heq⟩ <;> rw [heq]
  · rcases hwhy with hzero | hnone
    · simp [hzero, Except.isOk, Except.toBool]
    · simp [hnone, Except.isOk, Except.toBool]
  · simp [hfind, hpos, Except.isOk, Except.toBool]

theorem Kept.hasFree_iff (h : Kept pf config p) (hpf : pf.Convex)
    (hval : config.validate pf = .ok ()) (hv4 : config.IsV4) :
    p.HasFree ↔ p.state.allocatedIps.size < (config.allocatable pf).length := by
  have hn : (config.allocatable pf).Nodup := (nodup_scanned hv4).filter _
  have hsub : ∀ ip ∈ p.allocatedIpsShared, ip ∈ config.allocatable pf := fun ip hip =>
    mem_allocatable.2 (h.allocatable ip hip)
  rw [h.inSync.allocated, Table.size_lt_length_iff hn hsub, HasFree, h.stateConfig,
    h.inSync.allocated]
  simp only [mem_allocatable, allocatable_iff_grants hpf hval hv4]

/-- **When released addresses are reusable**: a request always succeeds exactly if an address is
    free and `has_capacity` says so, if and only if those handed out so far are below the capacity
    just when those in use are fewer than the pool has. -/
theorem reusable_iff (pf : Platform) (hpf : pf.Convex) (config : IpPoolConfig)
    (hvalid : config.validate pf = .ok ()) (hv4 : config.IsV4) (henabled : config.enabled)
    (p₀ : EnhancedIpPoolState) (hnew : new pf config = .ok p₀) (run : List PoolUse) :
    ∀ p ∈ run.scanl (use pf) p₀, p.Reusable pf ↔
      (p.resourcePool.totalCreated < p.resourcePool.config.maxSize ↔
        p.state.allocatedIps.size < (config.allocatable pf).length) := by
  intro p hp
  have along : Run.Along (use pf) (fun _ _ => True) p₀ run := Run.along_true p₀ run
  have h : Kept pf config p :=
    Run.invariant (fun p u hp _ => kept_use p u hp) (kept_new hnew) along p hp
  have hcap : p.hasCapacity ↔ 0 < p.resourcePool.permits := by
    have := h.balance
    have hinUse : p.resourcePool.inUse = p.resourcePool.totalCreated := by
      simp [ResourcePool.inUse, h.inSync.available]
    simp only [hasCapacity, h.stateConfig, henabled, hinUse, Bool.true_and, decide_eq_true_eq]
    omega
  have hfree := h.hasFree_iff hpf hvalid hv4
  have hfind :
      (p.factoryConfig.findNextAvailableIp pf p.allocatedIpsShared).isSome ↔ p.HasFree := by
    rw [findNextAvailableIp_isSome, HasFree, h.factoryConfig, h.stateConfig, h.inSync.allocated]
    simp only [IpPoolConfig.mem_allocatable,
      IpPoolConfig.allocatable_iff_grants hpf hvalid hv4]
  have hleft : p.resourcePool.totalCreated < p.resourcePool.config.maxSize ↔
      0 < p.resourcePool.permits := by
    have := h.balance
    omega
  simp only [Reusable, isOk_allocateIp_iff h.inSync, hcap, hfind, hleft, ← hfree,
    forall_const]
  rw [and_iff_right_iff_imp, iff_self_and, and_comm]
  exact iff_def.symm

theorem convex_release : Platform.release.Convex := by
  intro net a x b hax hxb ha hb
  simp only [Platform.release, IpNet.contains] at ha hb ⊢
  cases hnet : net.addr with
  | v6 base => simp [hnet] at ha
  | v4 base =>
    simp only [hnet, decide_eq_true_eq] at ha hb ⊢
    have hle := Nat.div_le_div_right (c := 2 ^ (32 - net.prefixLen)) hax
    have hge := Nat.div_le_div_right (c := 2 ^ (32 - net.prefixLen)) hxb
    omega

def freshTen (last : ℕ) : EnhancedIpPoolState :=
  ⟨⟨IpPoolManager.tenPool 1 10 last, ∅, 0, none⟩, .new ⟨last - 9, 0, 30, true, false⟩,
    IpPoolManager.tenPool 1 10 last, ∅⟩

/-- The address of a pool of one is allocated and released; no request gets it again. -/
theorem released_address_is_not_reusable :
    ¬ ∀ (pf : Platform), pf.Convex → ∀ config : IpPoolConfig, config.validate pf = .ok () →
      config.IsV4 → config.enabled → ∀ p₀, new pf config = .ok p₀ → ∀ run : List PoolUse,
        ∀ p ∈ run.scanl (use pf) p₀, p.Reusable pf := by
  intro h
  have hreuse := h .release convex_release (IpPoolManager.tenPool 1 10 10) (by decide +kernel)
    ⟨_, _, rfl, rfl⟩ rfl (freshTen 10) (by decide +kernel)
    [.allocateIp 0, .releaseIp (.v4 0x0a00000a)] _ (Run.foldl_mem_scanl (freshTen 10) _)
  have hok := (hreuse 0).1.2 ⟨.v4 0x0a00000a, ⟨by decide +kernel, by decide +kernel,
    by decide +kernel⟩, by decide +kernel⟩
  exact absurd hok (by decide +kernel)

theorem second_of_two_is_reusable : ((freshTen 11).use .release (.allocateIp 0)).Reusable .release ∧
    (((freshTen 11).use .release (.allocateIp 0)).allocateIp .release 0).2 =
      .ok ⟨.v4 0x0a00000b, ⟨1⟩, true⟩ := by
  have hiff := reusable_iff .release convex_release (IpPoolManager.tenPool 1 10 11)
    (by decide +kernel) ⟨_, _, rfl, rfl⟩ rfl (freshTen 11) (by decide +kernel) [.allocateIp 0]
    ((freshTen 11).use .release (.allocateIp 0))
    (Run.foldl_mem_scanl (freshTen 11) [PoolUse.allocateIp 0])
  exact ⟨hiff.2 (by decide +kernel), by decide +kernel⟩

end EnhancedIpPoolState

end Blixard
