/-
  The books of the pool manager: five records of which addresses are in use, which eight
  operations update on different paths (`books_agree`).
-/
import Blixard.IpPool.Assignment

namespace Blixard

open List Std.ExtTreeMap Table

/-! ## The number of a pool -/

namespace EnhancedIpPoolState

def Counted (p : EnhancedIpPoolState) : Prop :=
  p.state.totalAllocated = p.state.allocatedIps.size

variable {pf : Platform} {p : EnhancedIpPoolState}

theorem counted_allocateIp (hsync : p.InSync) (hp : p.Counted) (now : ℤ) :
    (p.allocateIp pf now).1.Counted := by
  rcases acquire_ipAddress pf p.factoryConfig hsync.available p.allocatedIpsShared with
    ⟨e, he⟩ | ⟨ip, hfind, hok⟩
  · simp only [allocateIp, he]
    exact hp
  have hf : ip ∉ p.state.allocatedIps := by
    rw [hsync.allocated]
    exact (IpPoolConfig.findNextAvailableIp_some hfind).2
  have hsize : (p.state.allocatedIps.insert ip ()).size = p.state.allocatedIps.size + 1 := by
    simp [size_insert, hf]
  simp only [allocateIp, hok, Counted]
  rw [hsize, hp]

theorem counted_releaseIp (hp : p.Counted) (ip : IpAddr) : (p.releaseIp ip).Counted := by
  simp only [releaseIp, Counted]
  rw [size_erase, hp]
  by_cases hip : ip ∈ p.state.allocatedIps <;> simp [hip]

end EnhancedIpPoolState

namespace IpPoolManager

open EnhancedIpPoolState

variable {pf : Platform} {m : IpPoolManager}

def AllCounted (m : IpPoolManager) : Prop :=
  ∀ (id : IpPoolId) (p : EnhancedIpPoolState), m.pools[id]? = some p → p.Counted

theorem AllCounted.insert (h : m.AllCounted) {id : IpPoolId} {p : EnhancedIpPoolState}
    (hp : p.Counted) {m' : IpPoolManager} (hl : m'.pools = m.pools.insert id p) :
    m'.AllCounted := by
  intro i q hq
  rw [hl] at hq
  rcases get_insert_eq_some.1 hq with ⟨-, rfl⟩ | ⟨-, hq⟩
  · exact hp
  · exact h i q hq

theorem allCounted_withPool (h : m.AllCounted) (id : IpPoolId)
    {f : EnhancedIpPoolState → Except BlixardError EnhancedIpPoolState}
    (hf : ∀ p p', f p = .ok p' → p.Counted → p'.Counted) : (m.withPool id f).1.AllCounted := by
  rcases withPool_cases (m := m) id f with heq | ⟨p, p', hp, hfp, heq⟩ <;> rw [heq]
  · exact h
  · exact h.insert (hf p p' hfp (h id p hp)) rfl

theorem allCounted_processCommand (h : m.AllCounted) (c : IpPoolCommand) :
    (m.processCommand pf c).1.AllCounted := by
  cases c with
  | createPool cfg =>
    simp only [processCommand, createPool]
    split
    · exact h
    split_ifs
    · exact h
    split
    · exact h
    · rename_i p hnew
      obtain ⟨capacity, -, rfl⟩ := new_eq hnew
      have he : Counted ⟨⟨cfg, ∅, 0, none⟩,
          .new ⟨capacity, 0, 30, true, false⟩, cfg, ∅⟩ := rfl
      exact h.insert he rfl
  | updatePool cfg =>
    simp only [processCommand, updatePool]
    split
    · exact h
    refine allCounted_withPool h _ ?_
    -- the pool is synchronised, and counts the shared addresses
    rintro p p' ⟨⟩ -
    rfl
  | deletePool id =>
    simp only [processCommand, deletePool]
    split
    · exact h
    split_ifs
    · exact h
    intro i q hq
    rw [get_erase] at hq
    split_ifs at hq
    exact h i q hq
  | setPoolEnabled id enabled | releaseReservedIps id ips =>
    refine allCounted_withPool h id ?_
    rintro p p' ⟨⟩ hp
    exact hp
  | reserveIps id ips =>
    refine allCounted_withPool h id ?_
    intro p p' hp' hp
    obtain ⟨-, -, hset⟩ := bind_eq_ok hp'
    cases hset
    exact hp

theorem allCounted_allocateIp (ha : m.Assigned pf) (h : m.AllCounted) (env : PoolEnv)
    (req : IpAllocationRequest) : (m.allocateIp pf env req).1.AllCounted := by
  unfold allocateIp
  split
  · exact h
  dsimp only
  split
  · exact h
  · rename_i p hp
    have hc := @counted_allocateIp pf p (ha.inSync _ p hp) (h _ p hp) (env.now 0)
    split <;> rename_i heq <;> rw [heq] at hc
    · exact h.insert hc rfl
    · exact h.insert hc rfl

theorem allCounted_releaseOne (h : m.AllCounted) (ip : IpAddr) : (m.releaseOne ip).AllCounted := by
  unfold releaseOne
  split
  · exact h
  dsimp only
  split
  · exact h
  · rename_i p hp
    exact h.insert (counted_releaseIp (h _ p hp) ip) rfl

variable (ips : List IpAddr) {ip : IpAddr} {m' : IpPoolManager}

theorem allCounted_releaseAll (h : m.AllCounted) : (ips.foldl releaseOne m).AllCounted := by
  induction ips generalizing m with
  | nil => exact h
  | cons ip ips ih => exact ih (allCounted_releaseOne h ip)

/-! ## The lists of the machines -/

/-- The list of a machine has exactly the addresses that are recorded for it, each once. -/
structure Listed (m : IpPoolManager) : Prop where
  keyed : ∀ (ip : IpAddr) (a : IpAllocation), m.allocations[ip]? = some a → a.ip = ip
  held_iff : ∀ vm ip, ip ∈ m.held vm ↔ ∃ a, m.allocations[ip]? = some a ∧ a.vmId = vm
  nodup : ∀ vm, (m.held vm).Nodup

theorem listed_new : new.Listed where
  keyed ip a h := by simp [new] at h
  held_iff vm ip := by simp [new, held]
  nodup vm := by simp [new, held]

theorem Listed.congr (h : m.Listed) (hl : m'.allocations = m.allocations)
    (hvms : m'.vmAllocations = m.vmAllocations) : m'.Listed := by
  have hheld : ∀ vm, m'.held vm = m.held vm := by
    intro vm
    rw [held, held, hvms]
  refine ⟨fun ip a ha => h.keyed ip a (hl ▸ ha), fun vm ip => ?_, fun vm => ?_⟩
  · rw [hheld, hl]
    exact h.held_iff vm ip
  · rw [hheld]
    exact h.nodup vm

theorem held_of_insert {vmId : VmId}
    (hvms : m'.vmAllocations = m.vmAllocations.insert vmId (m.held vmId ++ [ip])) (vm : VmId) :
    m'.held vm = if vmId = vm then m.held vm ++ [ip] else m.held vm := by
  simp only [held, hvms, get_insert]
  split_ifs with hvm
  · rw [hvm, Option.getD_some]
  · rfl

theorem Listed.not_held (h : m.Listed) (hf : m.allocations[ip]? = none)
    (vm : VmId) : ip ∉ m.held vm := by
  intro hip
  obtain ⟨b, hb, -⟩ := (h.held_iff vm ip).1 hip
  rw [hf] at hb
  cases hb

theorem Listed.allocate (h : m.Listed) {a : IpAllocation} (hf : m.allocations[a.ip]? = none)
    (ha : m'.allocations = m.allocations.insert a.ip a)
    (hvms : m'.vmAllocations = m.vmAllocations.insert a.vmId (m.held a.vmId ++ [a.ip])) :
    m'.Listed := by
  have hheld := held_of_insert hvms
  have hnot := h.not_held hf
  refine ⟨fun ip b hb => ?_, fun vm ip => ?_, fun vm => ?_⟩
  · rw [ha, get_insert_eq_some] at hb
    rcases hb with ⟨rfl, rfl⟩ | ⟨-, hb⟩
    · rfl
    · exact h.keyed ip b hb
  · rw [hheld, ha]
    constructor
    · intro hip
      split_ifs at hip with hvm
      · rcases mem_append.1 hip with hold | hnew
        · obtain ⟨b, hb, hv⟩ := (h.held_iff vm ip).1 hold
          have hne : a.ip ≠ ip := fun heq => hnot vm (heq ▸ hold)
          exact ⟨b, get_insert_eq_some.2 (.inr ⟨hne, hb⟩), hv⟩
        · obtain rfl := mem_singleton.1 hnew
          exact ⟨a, get_insert_eq_some.2 (.inl ⟨rfl, rfl⟩), hvm⟩
      · obtain ⟨b, hb, hv⟩ := (h.held_iff vm ip).1 hip
        have hne : a.ip ≠ ip := fun heq => hnot vm (heq ▸ hip)
        exact ⟨b, get_insert_eq_some.2 (.inr ⟨hne, hb⟩), hv⟩
    · rintro ⟨b, hb, rfl⟩
      rcases get_insert_eq_some.1 hb with ⟨rfl, rfl⟩ | ⟨-, hb⟩
      · simp
      have hold := (h.held_iff b.vmId ip).2 ⟨b, hb, rfl⟩
      split_ifs
      · exact mem_append_left _ hold
      · exact hold
  · rw [hheld]
    split_ifs
    · refine nodup_append.2 ⟨h.nodup vm, nodup_singleton _, ?_⟩
      rintro x hx y hy rfl
      obtain rfl := mem_singleton.1 hy
      exact hnot vm hx
    · exact h.nodup vm

theorem get_releaseAll (m : IpPoolManager) (ip : IpAddr) :
    (ips.foldl releaseOne m).allocations[ip]? =
      if ip ∈ ips then none else m.allocations[ip]? := by
  have hone : ∀ (m : IpPoolManager) (x : IpAddr), (m.releaseOne x).allocations[ip]? =
      if x = ip then none else m.allocations[ip]? := by
    intro m x
    unfold releaseOne
    cases hx : m.allocations[x]? with
    | none =>
      split_ifs with heq
      · rw [← heq, hx]
      · rfl
    | some a =>
      dsimp only
      split <;> exact get_erase _ _ _
  induction ips generalizing m with
  | nil => simp
  | cons x ips ih =>
    rw [foldl_cons, ih, hone]
    by_cases hmem : ip ∈ ips
    · simp [hmem]
    · by_cases heq : x = ip
      · simp [heq]
      · simp [hmem, heq, Ne.symm heq]

theorem releaseAll_held (m : IpPoolManager) (vm : VmId) :
    (ips.foldl releaseOne m).held vm = m.held vm := by
  induction ips generalizing m with
  | nil => rfl
  | cons ip ips ih => rw [foldl_cons, ih, releaseOne_held]

theorem Listed.releaseVmIps (h : m.Listed) (vmId : VmId) : (m.releaseVmIps vmId).Listed := by
  have hheld : ∀ vm, (m.releaseVmIps vmId).held vm = if vmId = vm then [] else m.held vm := by
    intro vm
    rw [IpPoolManager.releaseVmIps, releaseAll_held]
    simp only [held, Table.get_erase]
    split_ifs <;> rfl
  have hl : ∀ (ip : IpAddr) (a : IpAllocation),
      (m.releaseVmIps vmId).allocations[ip]? = some a ↔
        m.allocations[ip]? = some a ∧ a.vmId ≠ vmId := by
    intro ip a
    rw [IpPoolManager.releaseVmIps, get_releaseAll]
    constructor
    · intro ha
      split_ifs at ha with hip
      exact ⟨ha, fun hvm => hip ((h.held_iff vmId ip).2 ⟨a, ha, hvm⟩)⟩
    rintro ⟨ha, hvm⟩
    rw [if_neg]
    · exact ha
    intro hip
    obtain ⟨b, hb, hv⟩ := (h.held_iff vmId ip).1 hip
    rw [ha] at hb
    exact hvm (Option.some.inj hb ▸ hv)
  refine ⟨fun ip a ha => h.keyed ip a ((hl ip a).1 ha).1, fun vm ip => ?_, fun vm => ?_⟩
  · rw [hheld]
    constructor
    · intro hip
      split_ifs at hip with hvm
      · cases hip
      · obtain ⟨a, ha, rfl⟩ := (h.held_iff vm ip).1 hip
        exact ⟨a, (hl ip a).2 ⟨ha, fun heq => hvm heq.symm⟩, rfl⟩
    rintro ⟨a, ha, rfl⟩
    obtain ⟨hold, hne⟩ := (hl ip a).1 ha
    rw [if_neg fun heq => hne heq.symm]
    exact (h.held_iff a.vmId ip).2 ⟨a, hold, rfl⟩
  · rw [hheld]
    split_ifs
    · exact List.nodup_nil
    · exact h.nodup vm

theorem processCommand_maps (m : IpPoolManager) (c : IpPoolCommand) :
    (m.processCommand pf c).1.allocations = m.allocations ∧
    (m.processCommand pf c).1.vmAllocations = m.vmAllocations := by
  rcases @processCommand_cases pf m c with
    heq | ⟨config, p, -, -, -, -, heq⟩ | ⟨id, p, p', -, -, -, heq⟩ | ⟨id, p, -, -, heq⟩ <;>
    rw [heq] <;> exact ⟨rfl, rfl⟩

/-! ## Runs -/

structure Books (pf : Platform) (m : IpPoolManager) : Prop where
  assigned : m.Assigned pf
  counted : m.AllCounted
  listed : m.Listed

theorem allCounted_step (m : IpPoolManager) (x : PoolOp × PoolEnv) (h : m.Books pf) :
    (m.step pf x).AllCounted := by
  obtain ⟨op, env⟩ := x
  cases op with
  | command c => exact allCounted_processCommand h.counted c
  | allocateIp req => exact allCounted_allocateIp h.assigned h.counted env req
  | releaseVmIps vmId => exact allCounted_releaseAll _ h.counted

theorem listed_step (m : IpPoolManager) (x : PoolOp × PoolEnv) (h : m.Books pf) :
    (m.step pf x).Listed := by
  obtain ⟨op, env⟩ := x
  cases op with
  | command c =>
    obtain ⟨ha, hvms⟩ := @processCommand_maps pf m c
    exact h.listed.congr ha hvms
  | allocateIp req =>
    show (m.allocateIp pf env req).1.Listed
    rcases @allocateIp_cases pf env m h.assigned.inSync req with
      ⟨counter, e, heq⟩ | ⟨counter, id, p, p', ip, hp, hall, hip, -, -, -, -, heq⟩ <;> rw [heq]
    · exact h.listed.congr rfl rfl
    · exact h.listed.allocate (a := record env req id ip) (h.assigned.fresh hp hall hip) rfl rfl
  | releaseVmIps vmId => exact h.listed.releaseVmIps vmId

theorem books_step (m : IpPoolManager) (x : PoolOp × PoolEnv) (h : m.Books pf)
    (hdisj : RangesDisjoint pf m x) : (m.step pf x).Books pf :=
  ⟨assigned_step m x h.assigned hdisj, allCounted_step m x h, listed_step m x h⟩

/-- **The books of the manager**, as one reads them off its fields. -/
structure Consistent (m : IpPoolManager) : Prop where
  shared : ∀ (id : IpPoolId) (p : EnhancedIpPoolState), m.pools[id]? = some p →
    p.state.allocatedIps = p.allocatedIpsShared
  recorded : ∀ (id : IpPoolId) (p : EnhancedIpPoolState), m.pools[id]? = some p → ∀ ip : IpAddr,
    ip ∈ p.state.allocatedIps ↔ ∃ a, m.allocations[ip]? = some a ∧ a.poolId = id
  counted : ∀ (id : IpPoolId) (p : EnhancedIpPoolState), m.pools[id]? = some p →
    p.state.totalAllocated = p.state.allocatedIps.size
  listed : ∀ (ip : IpAddr) (a : IpAllocation), m.allocations[ip]? = some a →
    ∀ vm, (m.held vm).count ip = if a.vmId = vm then 1 else 0
  held : ∀ vm ip, ip ∈ m.held vm → ip ∈ m.allocations
  live : ∀ (ip : IpAddr) (a : IpAllocation), m.allocations[ip]? = some a → a.poolId ∈ m.pools

theorem Books.consistent (h : m.Books pf) : m.Consistent where
  shared id p hp := (h.assigned.inSync id p hp).allocated
  recorded id p hp ip := by
    rw [(h.assigned.inSync id p hp).allocated, h.assigned.shared id p hp ip,
      Option.map_eq_some_iff]
  counted := h.counted
  listed ip a ha vm := by
    rw [List.Nodup.count (h.listed.nodup vm)]
    refine if_congr ?_ rfl rfl
    rw [h.listed.held_iff, ha]
    simp
  held vm ip hip := by
    obtain ⟨a, ha, -⟩ := (h.listed.held_iff vm ip).1 hip
    exact (mem_iff _ _).2 ⟨a, ha⟩
  live := h.assigned.live

/-- **The books agree** in every run of pool commands, allocations and releases from an empty
    manager that only creates pools with disjoint ranges. -/
theorem books_agree (pf : Platform) (run : List (PoolOp × PoolEnv))
    (h : Run.Along (step pf) (RangesDisjoint pf) new run) :
    ∀ m ∈ run.scanl (step pf) new, m.Consistent := by
  have hnew : new.Books pf :=
    ⟨assigned_new, fun id p hp => by simp [new] at hp, listed_new⟩
  intro m hm
  exact (Run.invariant (fun m x => books_step m x) hnew h m hm).consistent

theorem adjoining_pools_consistent :
    let run := twoPools 10 20 21 30 ++ [(.releaseVmIps (vm 1), quietEnv)]
    Run.Along (step .release) (RangesDisjoint .release) new run ∧
    (∀ m ∈ run.scanl (step .release) new, m.Consistent) ∧
    (run.foldl (step .release) new).pools.toList.map (·.2.state.totalAllocated) = [0, 1] := by
  intro run
  have along : Run.Along (step .release) (RangesDisjoint .release) new run := by
    refine Run.along_append.2 ⟨rangesDisjoint_adjoining, ?_, trivial⟩
    rintro config ⟨⟩
  exact ⟨along, books_agree .release run along, by decide +kernel⟩

end IpPoolManager

end Blixard
