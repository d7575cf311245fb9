/-
  Who holds which address: runs of the pool manager.

  No address has two holders as long as the ranges that the factories of all pools search stay
  disjoint (`noDoubleAssignment_of_disjoint`).
-/
import Blixard.IpPool.Manager

namespace Blixard

open List Table

inductive PoolOp where
  | command (command : IpPoolCommand)
  | allocateIp (request : IpAllocationRequest)
  | releaseVmIps (vmId : VmId)

namespace IpPoolManager

variable (pf : Platform)

/-- The manager after a command; a failed one may still move the round-robin
    counter. -/
def step (m : IpPoolManager) (x : PoolOp × PoolEnv) : IpPoolManager :=
  match x.1 with
  | .command command => (m.processCommand pf command).1
  | .allocateIp request => (m.allocateIp pf x.2 request).1
  | .releaseVmIps vmId => m.releaseVmIps vmId

def NoDoubleAssignment (m : IpPoolManager) : Prop :=
  ∀ vm vm' ip, ip ∈ m.held vm → ip ∈ m.held vm' → vm = vm'

/-- A pool that is about to be created shares no allocatable address with the
    factory of an existing pool. -/
def RangesDisjoint (m : IpPoolManager) (x : PoolOp × PoolEnv) : Prop :=
  ∀ config, x.1 = .command (.createPool config) → config.id ∉ m.pools →
    ∀ (id : IpPoolId) (p : EnhancedIpPoolState), m.pools[id]? = some p →
      ∀ ip, config.Allocatable pf ip → ¬ p.factoryConfig.Allocatable pf ip

/-- The sets of the pools, the record of allocations and the addresses of the
    machines describe one assignment. -/
structure Assigned (m : IpPoolManager) : Prop where
  inSync : ∀ (id : IpPoolId) (p : EnhancedIpPoolState), m.pools[id]? = some p → p.InSync
  shared : ∀ (id : IpPoolId) (p : EnhancedIpPoolState), m.pools[id]? = some p → ∀ ip : IpAddr,
    ip ∈ p.allocatedIpsShared ↔ m.allocations[ip]?.map (·.poolId) = some id
  allocatable : ∀ (id : IpPoolId) (p : EnhancedIpPoolState), m.pools[id]? = some p →
    ∀ ip : IpAddr, ip ∈ p.allocatedIpsShared → p.factoryConfig.Allocatable pf ip
  disjoint : ∀ (id id' : IpPoolId) (p p' : EnhancedIpPoolState), m.pools[id]? = some p →
    m.pools[id']? = some p' → id ≠ id' →
    ∀ ip, p.factoryConfig.Allocatable pf ip → ¬ p'.factoryConfig.Allocatable pf ip
  live : ∀ (ip : IpAddr) (a : IpAllocation), m.allocations[ip]? = some a → a.poolId ∈ m.pools
  holder : ∀ vm ip, ip ∈ m.held vm → m.allocations[ip]?.map (·.vmId) = some vm

variable {pf} {m : IpPoolManager}

theorem assigned_new : Assigned pf new where
  inSync id p h := by simp [new] at h
  shared id p h := by simp [new] at h
  allocatable id p h := by simp [new] at h
  disjoint id id' p p' h := by simp [new] at h
  live ip a h := by simp [new] at h
  holder vm ip h := by simp [new, held] at h

theorem Assigned.noDoubleAssignment (h : m.Assigned pf) : m.NoDoubleAssignment := by
  intro vm vm' ip hvm hvm'
  have := (h.holder vm ip hvm).symm.trans (h.holder vm' ip hvm')
  exact Option.some.inj this

/-! ## Steps -/

theorem assigned_of_counter (h : m.Assigned pf) (ctr : ℕ) :
    Assigned pf { m with roundRobinCounter := ctr } :=
  ⟨h.inSync, h.shared, h.allocatable, h.disjoint, h.live, h.holder⟩

theorem Assigned.inSync_insert (h : m.Assigned pf) {id : IpPoolId} {p' : EnhancedIpPoolState}
    (hsync : p'.InSync) (i : IpPoolId) (q : EnhancedIpPoolState)
    (hq : (m.pools.insert id p')[i]? = some q) : q.InSync := by
  rcases get_insert_eq_some.1 hq with ⟨rfl, rfl⟩ | ⟨-, hq⟩
  · exact hsync
  · exact h.inSync i q hq

theorem Assigned.disjoint_replace (h : m.Assigned pf) {id : IpPoolId} {p p' : EnhancedIpPoolState}
    (hp : m.pools[id]? = some p) (ha : p'.factoryConfig = p.factoryConfig) (i i' : IpPoolId)
    (q q' : EnhancedIpPoolState) (hq : (m.pools.insert id p')[i]? = some q)
    (hq' : (m.pools.insert id p')[i']? = some q') (hne : i ≠ i') (ip : IpAddr)
    (hip : q.factoryConfig.Allocatable pf ip) : ¬ q'.factoryConfig.Allocatable pf ip := by
  -- every pool of the new map has the factory of one of the old map
  have old : ∀ {i : IpPoolId} {q : EnhancedIpPoolState}, (m.pools.insert id p')[i]? = some q →
      ∃ q₀, m.pools[i]? = some q₀ ∧ q.factoryConfig = q₀.factoryConfig := by
    intro i q hq
    rcases get_insert_eq_some.1 hq with ⟨rfl, rfl⟩ | ⟨-, hq⟩
    · exact ⟨p, hp, ha⟩
    · exact ⟨q, hq, rfl⟩
  obtain ⟨q₀, hq₀, hf⟩ := old hq
  obtain ⟨q₀', hq₀', hf'⟩ := old hq'
  rw [hf']
  exact h.disjoint i i' q₀ q₀' hq₀ hq₀' hne ip (hf ▸ hip)

theorem assigned_createPool (h : m.Assigned pf) {cfg : IpPoolConfig} {p : EnhancedIpPoolState}
    (hnew : EnhancedIpPoolState.new pf cfg = .ok p) (hid : cfg.id ∉ m.pools)
    (hdisj : ∀ (id : IpPoolId) (q : EnhancedIpPoolState), m.pools[id]? = some q →
      ∀ ip, cfg.Allocatable pf ip → ¬ q.factoryConfig.Allocatable pf ip) :
    Assigned pf { m with pools := m.pools.insert cfg.id p } := by
  obtain ⟨hsync, hf, hm⟩ := EnhancedIpPoolState.new_ok hnew
  refine ⟨h.inSync_insert hsync, ?_, ?_, ?_, ?_, h.holder⟩
  · intro id q hq ip
    rcases Table.get_insert_eq_some.1 hq with ⟨he, rfl⟩ | ⟨-, hq⟩
    · -- no recorded address names a pool that did not exist
      simp only [hm, Std.ExtTreeMap.not_mem_empty, false_iff, Option.map_eq_some_iff]
      rintro ⟨a, ha, rfl⟩
      exact hid (he ▸ h.live ip a ha)
    · exact h.shared id q hq ip
  · intro id q hq ip hip
    rcases Table.get_insert_eq_some.1 hq with ⟨-, rfl⟩ | ⟨-, hq⟩
    · rw [hm] at hip
      exact absurd hip Std.ExtTreeMap.not_mem_empty
    · exact h.allocatable id q hq ip hip
  · intro id id' q q' hq hq' hne ip hip hip'
    rcases Table.get_insert_eq_some.1 hq with ⟨he, rfl⟩ | ⟨-, hq⟩ <;>
      rcases Table.get_insert_eq_some.1 hq' with ⟨he', rfl⟩ | ⟨-, hq'⟩
    · exact hne (he.symm.trans he')
    · exact hdisj id' q' hq' ip (hf ▸ hip) hip'
    · exact hdisj id q hq ip (hf ▸ hip') hip
    · exact h.disjoint id id' q q' hq hq' hne ip hip hip'
  · intro ip a ha
    exact Std.ExtTreeMap.mem_insert.2 (.inr (h.live ip a ha))

theorem assigned_sameAddresses (h : m.Assigned pf) {id : IpPoolId} {p p' : EnhancedIpPoolState}
    (hp : m.pools[id]? = some p) (hsame : SameAddresses p p') :
    Assigned pf { m with pools := m.pools.insert id p' } := by
  refine ⟨h.inSync_insert (hsame.inSync (h.inSync id p hp)), ?_, ?_,
    h.disjoint_replace hp hsame.factoryConfig, ?_, h.holder⟩
  · intro i q hq ip
    rcases Table.get_insert_eq_some.1 hq with ⟨rfl, rfl⟩ | ⟨-, hq⟩
    · rw [hsame.shared]
      exact h.shared id p hp ip
    · exact h.shared i q hq ip
  · intro i q hq ip hip
    rcases Table.get_insert_eq_some.1 hq with ⟨rfl, rfl⟩ | ⟨-, hq⟩
    · rw [hsame.shared] at hip
      exact hsame.factoryConfig ▸ h.allocatable id p hp ip hip
    · exact h.allocatable i q hq ip hip
  · intro ip a ha
    exact Std.ExtTreeMap.mem_insert.2 (.inr (h.live ip a ha))

theorem assigned_deletePool (h : m.Assigned pf) {id : IpPoolId} {p : EnhancedIpPoolState}
    (hp : m.pools[id]? = some p) (hm : p.state.allocatedIps = ∅) :
    Assigned pf { m with pools := m.pools.erase id } := by
  have old : ∀ {i : IpPoolId} {q : EnhancedIpPoolState}, (m.pools.erase id)[i]? = some q →
      m.pools[i]? = some q := by
    intro i q hq
    rw [Table.get_erase] at hq
    split_ifs at hq
    exact hq
  refine ⟨fun i q hq => h.inSync i q (old hq), fun i q hq => h.shared i q (old hq),
    fun i q hq => h.allocatable i q (old hq),
    fun i i' q q' hq hq' => h.disjoint i i' q q' (old hq) (old hq'), ?_, h.holder⟩
  intro ip a ha
  refine Std.ExtTreeMap.mem_erase.2 ⟨fun he => ?_, h.live ip a ha⟩
  -- a recorded address of the deleted pool would be in its empty set
  obtain rfl : id = a.poolId := Std.LawfulEqCmp.eq_of_compare he
  have hip := (h.shared a.poolId p hp ip).2 (by rw [ha]; rfl)
  rw [← (h.inSync a.poolId p hp).allocated, hm] at hip
  exact absurd hip Std.ExtTreeMap.not_mem_empty

/-- An address that a pool may hand out and has not handed out is not recorded at
    all: only here the ranges have to be disjoint. -/
theorem Assigned.fresh (h : m.Assigned pf) {id : IpPoolId} {p : EnhancedIpPoolState} {ip : IpAddr}
    (hp : m.pools[id]? = some p) (hall : p.factoryConfig.Allocatable pf ip)
    (hip : ip ∉ p.allocatedIpsShared) : m.allocations[ip]? = none := by
  by_contra hne
  obtain ⟨a, ha⟩ := Option.ne_none_iff_exists'.1 hne
  obtain ⟨q, hq⟩ := (mem_iff _ _).1 (h.live ip a ha)
  have hmem : ip ∈ q.allocatedIpsShared := (h.shared a.poolId q hq ip).2 (by rw [ha]; rfl)
  by_cases hid : a.poolId = id
  · rw [hid, hp] at hq
    exact hip (Option.some.inj hq ▸ hmem)
  · exact h.disjoint a.poolId id q p hq hp hid ip (h.allocatable a.poolId q hq ip hmem) hall

theorem assigned_allocate (h : m.Assigned pf) {id : IpPoolId} {p p' : EnhancedIpPoolState}
    {ip : IpAddr} (hp : m.pools[id]? = some p) (hall : p.factoryConfig.Allocatable pf ip)
    (hip : ip ∉ p.allocatedIpsShared) (hsync : p'.InSync)
    (hf : p'.factoryConfig = p.factoryConfig)
    (hsh : p'.allocatedIpsShared = p.allocatedIpsShared.insert ip ()) {a : IpAllocation}
    (ha : a.poolId = id) (ctr : ℕ) :
    Assigned pf
      { pools := m.pools.insert id p'
        allocations := m.allocations.insert ip a
        vmAllocations := m.vmAllocations.insert a.vmId (m.held a.vmId ++ [ip])
        roundRobinCounter := ctr } := by
  have hr := h.fresh hp hall hip
  have hmem : ∀ x : IpAddr, x ∈ p'.allocatedIpsShared ↔ ip = x ∨ x ∈ p.allocatedIpsShared := by
    intro x
    rw [hsh, Std.ExtTreeMap.mem_insert, Std.LawfulEqCmp.compare_eq_iff_eq]
  refine ⟨h.inSync_insert hsync, ?_, ?_, h.disjoint_replace hp hf, ?_, ?_⟩
  · intro i q hq x
    rw [Table.get_insert]
    rcases Table.get_insert_eq_some.1 hq with ⟨he, rfl⟩ | ⟨he, hq⟩
    · rw [hmem]
      split_ifs with hx
      · simp [hx, ha, he]
      · rw [or_iff_right hx, ← he]
        exact h.shared id p hp x
    split_ifs with hx
    · subst hx
      have hnot : ip ∉ q.allocatedIpsShared := by
        rw [h.shared i q hq ip, hr]
        simp
      simp [hnot, ha, he]
    · exact h.shared i q hq x
  · intro i q hq x hx
    rcases Table.get_insert_eq_some.1 hq with ⟨-, rfl⟩ | ⟨-, hq⟩
    · rw [hf]
      rcases (hmem x).1 hx with rfl | hx
      · exact hall
      · exact h.allocatable id p hp x hx
    · exact h.allocatable i q hq x hx
  · intro x b hb
    rw [Table.get_insert] at hb
    refine Std.ExtTreeMap.mem_insert.2 ?_
    split_ifs at hb with hx
    · obtain rfl := Option.some.inj hb
      exact .inl (by rw [ha]; exact Std.ReflOrd.compare_self)
    · exact .inr (h.live x b hb)
  · intro vm x hx
    rw [Table.get_insert]
    simp only [held, Table.get_insert] at hx
    split_ifs at hx with hvm
    · rw [Option.getD_some, List.mem_append, List.mem_singleton] at hx
      split_ifs with hi
      · simp [hvm]
      · exact h.holder vm x (hvm ▸ hx.resolve_right fun e => hi e.symm)
    have hold := h.holder vm x hx
    -- the machine's other addresses were recorded before, so none is the fresh one
    have hne : ip ≠ x := by
      rintro rfl
      rw [hr] at hold
      cases hold
    rw [if_neg hne]
    exact hold

theorem assigned_releaseOne (h : m.Assigned pf) {ip : IpAddr} (hip : ∀ vm, ip ∉ m.held vm) :
    (m.releaseOne ip).Assigned pf := by
  unfold releaseOne
  cases ha : m.allocations[ip]? with
  | none => exact h
  | some a =>
    obtain ⟨p, hp⟩ := (Table.mem_iff _ _).1 (h.live ip a ha)
    simp only [hp]
    have hmem : ∀ x : IpAddr,
        x ∈ (p.releaseIp ip).allocatedIpsShared ↔ ip ≠ x ∧ x ∈ p.allocatedIpsShared := by
      intro x
      rw [EnhancedIpPoolState.releaseIp, Std.ExtTreeMap.mem_erase, ne_eq,
        Std.LawfulEqCmp.compare_eq_iff_eq]
    have hsync := EnhancedIpPoolState.releaseIp_inSync (h.inSync _ p hp) ip
    refine ⟨h.inSync_insert hsync, ?_, ?_, h.disjoint_replace hp rfl, ?_, ?_⟩
    · intro i q hq x
      rw [Table.get_erase]
      rcases Table.get_insert_eq_some.1 hq with ⟨he, rfl⟩ | ⟨he, hq⟩
      · rw [hmem]
        split_ifs with hx
        · simp [hx]
        · rw [and_iff_right hx, ← he]
          exact h.shared _ p hp x
      split_ifs with hx
      · subst hx
        rw [h.shared i q hq ip, ha]
        simp [he]
      · exact h.shared i q hq x
    · intro i q hq x hx
      rcases Table.get_insert_eq_some.1 hq with ⟨-, rfl⟩ | ⟨-, hq⟩
      · exact h.allocatable _ p hp x ((hmem x).1 hx).2
      · exact h.allocatable i q hq x hx
    · intro x b hb
      rw [Table.get_erase] at hb
      split_ifs at hb with hx
      exact Std.ExtTreeMap.mem_insert.2 (.inr (h.live x b hb))
    · intro vm x hx
      have hne : ip ≠ x := fun e => hip vm (e ▸ hx)
      rw [Table.get_erase, if_neg hne]
      exact h.holder vm x hx

theorem releaseOne_held (m : IpPoolManager) (ip : IpAddr) (vm : VmId) :
    (m.releaseOne ip).held vm = m.held vm := by
  unfold releaseOne
  cases m.allocations[ip]? with
  | none => rfl
  | some a => cases h : m.pools[a.poolId]? <;> simp only [h] <;> rfl

theorem assigned_releaseAll (ips : List IpAddr) (h : m.Assigned pf)
    (hips : ∀ ip ∈ ips, ∀ vm, ip ∉ m.held vm) : (ips.foldl releaseOne m).Assigned pf := by
  induction ips generalizing m with
  | nil => exact h
  | cons ip ips ih =>
    rw [foldl_cons]
    refine ih (assigned_releaseOne h (hips ip mem_cons_self)) ?_
    intro x hx vm
    rw [releaseOne_held]
    exact hips x (mem_cons_of_mem ip hx) vm

theorem assigned_releaseVmIps (h : m.Assigned pf) (vmId : VmId) :
    (m.releaseVmIps vmId).Assigned pf := by
  have hheld : ∀ vm,
      ({ m with vmAllocations := m.vmAllocations.erase vmId } : IpPoolManager).held vm =
        if vmId = vm then [] else m.held vm := by
    intro vm
    simp only [held, get_erase]
    split_ifs <;> rfl
  refine assigned_releaseAll _ ⟨h.inSync, h.shared, h.allocatable, h.disjoint, h.live, ?_⟩ ?_
  · intro vm ip hip
    rw [hheld] at hip
    split_ifs at hip with hvm
    · cases hip
    · exact h.holder vm ip hip
  intro ip hip vm hvm
  rw [hheld] at hvm
  split_ifs at hvm with hne
  · cases hvm
  · exact hne (h.noDoubleAssignment vmId vm ip hip hvm)

theorem assigned_step (m : IpPoolManager) (x : PoolOp × PoolEnv) (h : m.Assigned pf)
    (hdisj : RangesDisjoint pf m x) : (m.step pf x).Assigned pf := by
  obtain ⟨op, env⟩ := x
  cases op with
  | command c =>
    show (m.processCommand pf c).1.Assigned pf
    rcases @processCommand_cases pf m c with
      heq | ⟨config, p, rfl, -, hid, hnew, heq⟩ | ⟨id, p, p', hp, hsame, -, heq⟩ |
        ⟨id, p, hp, he, heq⟩ <;> rw [heq]
    · exact h
    · exact assigned_createPool h hnew hid (hdisj config rfl hid)
    · exact assigned_sameAddresses h hp hsame
    · exact assigned_deletePool h hp he
  | allocateIp req =>
    show (m.allocateIp pf env req).1.Assigned pf
    rcases @allocateIp_cases pf env m h.inSync req with
      ⟨counter, e, heq⟩ | ⟨counter, id, p, p', ip, hp, hall, hip, hsync, hf, -, hsh, heq⟩ <;>
      rw [heq]
    · exact assigned_of_counter h counter
    · exact assigned_allocate h hp hall hip hsync hf hsh rfl counter
  | releaseVmIps vmId => exact assigned_releaseVmIps h vmId

/-- **No double assignment**: in every run whose pools are created with disjoint
    ranges, no address is held by two machines in any state. -/
theorem noDoubleAssignment_of_disjoint (pf : Platform) (run : List (PoolOp × PoolEnv))
    (h : Run.Along (step pf) (RangesDisjoint pf) new run) :
    ∀ m ∈ run.scanl (step pf) new, m.NoDoubleAssignment := fun m hm =>
  (Run.invariant (fun m x => assigned_step m x) assigned_new h m hm).noDoubleAssignment

/-! ## Two pools with one range -/

def vm (n : ℕ) : VmId := ⟨.ofNat 128 n⟩

def tenPool (id first last : ℕ) : IpPoolConfig where
  id := ⟨id⟩
  name := "ten"
  subnet := ⟨.v4 0x0a000000, 24⟩
  vlanId := none
  gateway := .v4 0x0a000001
  dnsServers := []
  allocationStart := .v4 (0x0a000000 + .ofNat 32 first)
  allocationEnd := .v4 (0x0a000000 + .ofNat 32 last)
  topologyHint := none
  reservedIps := ∅
  enabled := true
  tags := []

def requestFrom (id n : ℕ) : IpAllocationRequest where
  vmId := vm n
  preferredPool := some ⟨id⟩
  requiredTags := []
  topologyHint := none
  selectionStrategy := .leastUtilized
  macAddress := ""

def quietEnv : PoolEnv := ⟨id, fun _ => .refl _, 0, fun _ => 0⟩

def twoPools (first last first' last' : ℕ) : List (PoolOp × PoolEnv) :=
  [.command (.createPool (tenPool 1 first last)), .command (.createPool (tenPool 2 first' last')),
    .allocateIp (requestFrom 1 1), .allocateIp (requestFrom 2 2)].map (·, quietEnv)

/-- Two pools over the same range give their first address to two machines. -/
theorem overlapping_pools_share_an_address :
    ¬ ∀ (pf : Platform) (run : List (PoolOp × PoolEnv)),
      ∀ m ∈ run.scanl (step pf) new, m.NoDoubleAssignment := by
  intro h
  have hlast := h .release (twoPools 10 20 10 20) _ (Run.foldl_mem_scanl new _) (vm 1) (vm 2)
    (.v4 0x0a00000a) (by decide +kernel) (by decide +kernel)
  exact absurd hlast (by decide)

theorem rangesDisjoint_adjoining :
    Run.Along (step .release) (RangesDisjoint .release) new (twoPools 10 20 21 30) := by
  refine ⟨?_, ?_, ?_, ?_, trivial⟩
  · intro config _ _ id p hp
    simp [new] at hp
  · intro config hc _ id p hp ip hip hip'
    have hid : id ∈ [(⟨1⟩ : IpPoolId)] := by
      have hkeys := (mem_iff _ _).2 ⟨p, hp⟩
      rw [← Std.ExtTreeMap.mem_keys] at hkeys
      exact hkeys
    obtain rfl := mem_singleton.1 hid
    obtain rfl : tenPool 2 21 30 = config := by cases hc; rfl
    have hf : p.factoryConfig = tenPool 1 10 20 := by
      have hmap := congrArg (Option.map EnhancedIpPoolState.factoryConfig) hp
      exact (Option.some.inj hmap).symm
    have hsep : ∀ x ∈ (tenPool 2 21 30).scanned, x ∉ (tenPool 1 10 20).scanned := by
      decide +kernel
    exact hsep ip hip.1 (hf ▸ hip'.1)
  · rintro config ⟨⟩
  · rintro config ⟨⟩

theorem adjoining_pools_noDoubleAssignment :
    Run.Along (step .release) (RangesDisjoint .release) new (twoPools 10 20 21 30) ∧
    (∀ m ∈ (twoPools 10 20 21 30).scanl (step .release) new, m.NoDoubleAssignment) ∧
    ((twoPools 10 20 21 30).foldl (step .release) new).held (vm 1) = [.v4 0x0a00000a] ∧
    ((twoPools 10 20 21 30).foldl (step .release) new).held (vm 2) = [.v4 0x0a000015] :=
  ⟨rangesDisjoint_adjoining, noDoubleAssignment_of_disjoint _ _ rangesDisjoint_adjoining,
    by decide +kernel, by decide +kernel⟩

end IpPoolManager

end Blixard
