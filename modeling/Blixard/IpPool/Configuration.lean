/-
  Does an allocation follow the pool's configuration?

  The factory of a pool keeps the configuration the pool was created with; updates and
  reservations change the one in the pool's state only (`allocation_follows_configuration`).
-/
import Blixard.IpPool.Assignment

namespace Blixard

open EnhancedIpPoolState List Std.ExtTreeMap Table

namespace IpPoolConfig

def InRange (c : IpPoolConfig) (ip : IpAddr) : Prop :=
  match c.allocationStart, c.allocationEnd, ip with
  | .v4 first, .v4 last, .v4 x => first.toNat ≤ x.toNat ∧ x.toNat ≤ last.toNat
  | .v6 first, .v6 last, .v6 x => first.toNat ≤ x.toNat ∧ x.toNat ≤ last.toNat
  | _, _, _ => False

instance (c : IpPoolConfig) (ip : IpAddr) : Decidable (c.InRange ip) := by
  unfold InRange
  split <;> infer_instance

structure Grants (c : IpPoolConfig) (ip : IpAddr) : Prop where
  inRange : c.InRange ip
  notReserved : ip ∉ c.reservedIps
  notGateway : ip ≠ c.gateway

variable {pf : Platform} {c : IpPoolConfig}

theorem rangeError_of_validate (h : c.validate pf = .ok ()) : c.rangeError = none := by
  obtain ⟨_, -, h⟩ := bind_eq_ok h
  obtain ⟨_, -, h⟩ := bind_eq_ok h
  obtain ⟨_, -, h⟩ := bind_eq_ok h
  cases hr : c.rangeError with
  | none => rfl
  | some msg => rw [hr] at h; cases h

variable {ip : IpAddr}

theorem inRange_of_scanned (h : c.rangeError = none) (hip : ip ∈ c.scanned) : c.InRange ip := by
  unfold rangeError at h
  unfold scanned at hip
  unfold InRange
  cases hs : c.allocationStart <;> cases he : c.allocationEnd <;> rw [hs, he] at h hip <;>
    simp only [reduceCtorEq] at h
  case v4.v4 first last =>
    have hle : first.toNat ≤ last.toNat := by
      by_contra hlt
      simp [Nat.lt_of_not_le hlt] at h
    obtain ⟨i, hi, rfl⟩ := mem_map.1 hip
    have hb := last.isLt
    rw [mem_range'_1] at hi
    have hmod : i % 2 ^ 32 = i := Nat.mod_eq_of_lt (by omega)
    simp only [BitVec.toNat_ofNat, hmod]
    omega
  case v6.v6 first last =>
    have hle : first.toNat ≤ last.toNat := by
      by_contra hlt
      simp [Nat.lt_of_not_le hlt] at h
    obtain ⟨i, hi, rfl⟩ := mem_map.1 hip
    have hb := last.isLt
    rw [mem_range'_1] at hi
    have hspan : (last.toNat - first.toNat + 1) % 2 ^ 128 ≤ last.toNat - first.toNat + 1 :=
      Nat.mod_le _ _
    have hmod : i % 2 ^ 128 = i := Nat.mod_eq_of_lt (by omega)
    simp only [BitVec.toNat_ofNat, hmod]
    omega

theorem grants_of_allocatable (h : c.validate pf = .ok ())
    (hip : c.Allocatable pf ip) : c.Grants ip := by
  obtain ⟨hscan, ha⟩ := hip
  simp only [allowed, Bool.and_eq_true, Bool.not_eq_true', decide_eq_false_iff_not,
    decide_eq_true_eq] at ha
  exact ⟨inRange_of_scanned (rangeError_of_validate h) hscan, ha.1.1, ha.2⟩

end IpPoolConfig

namespace IpPoolManager

variable {pf : Platform} {m : IpPoolManager}

variable {q : EnhancedIpPoolState} {c : IpPoolCommand} {m' : IpPoolManager}
  {pools : List (IpPoolId × EnhancedIpPoolState)}

/-- **Where a pool comes from** after a command: it was there, it is new, or it is a
    pool with the same factory and addresses whose configuration was changed. -/
theorem processCommand_pool {id : IpPoolId} (hq : (m.processCommand pf c).1.pools[id]? = some q) :
    m.pools[id]? = some q ∨
    (∃ cfg, cfg.validate pf = .ok () ∧ EnhancedIpPoolState.new pf cfg = .ok q) ∨
    ∃ p, m.pools[id]? = some p ∧ SameAddresses p q ∧ Reconfigured pf c id p q := by
  rcases @processCommand_cases pf m c with
    heq | ⟨cfg, p, -, hv, -, hnew, heq⟩ | ⟨id', p, p', hp, hsame, hr, heq⟩ |
      ⟨id', p, -, -, heq⟩ <;> rw [heq] at hq
  · exact .inl hq
  · rcases Table.get_insert_eq_some.1 hq with ⟨-, rfl⟩ | ⟨-, hq⟩
    · exact .inr (.inl ⟨cfg, hv, hnew⟩)
    · exact .inl hq
  · rcases Table.get_insert_eq_some.1 hq with ⟨rfl, rfl⟩ | ⟨-, hq⟩
    · exact .inr (.inr ⟨p, hp, hsame, hr⟩)
    · exact .inl hq
  · simp only [Table.get_erase] at hq
    split_ifs at hq
    exact .inl hq

/-! ## The pool that serves a request -/

variable {env : PoolEnv} {request : IpAllocationRequest} {id : IpPoolId}

theorem mem_eligiblePools {x : IpPoolId × EnhancedIpPoolState}
    (hx : x ∈ m.eligiblePools env request) : m.pools[x.1]? = some x.2 ∧ eligible request x.2 := by
  obtain ⟨id, -, hid⟩ := mem_filterMap.1 hx
  cases hp : m.pools[id]? with
  | none => simp [hp] at hid
  | some p =>
    by_cases he : eligible request p
    · simp only [hp, he, if_true, Option.some.injEq] at hid
      obtain rfl := hid
      exact ⟨hp, he⟩
    · simp [hp, he] at hid

theorem leastUtilized_mem (h : leastUtilized pf pools = .ok id) : ∃ p, (id, p) ∈ pools := by
  unfold leastUtilized at h
  split at h
  · rename_i x hx
    cases h
    exact ⟨x.2, argmin_mem hx⟩
  · cases h

theorem mostUtilized_mem (h : mostUtilized pf pools = .ok id) : ∃ p, (id, p) ∈ pools := by
  unfold mostUtilized at h
  split at h
  · rename_i x hx
    cases h
    exact ⟨x.2, mem_reverse.1 (argmax_mem hx)⟩
  · cases h

theorem getD_mod_mem {α : Type} (first : α) (rest : List α) (n : ℕ) :
    (first :: rest).getD (n % (first :: rest).length) first ∈ first :: rest := by
  have hlt : n % (first :: rest).length < (first :: rest).length :=
    Nat.mod_lt n (Nat.succ_pos rest.length)
  rw [getD_eq_getElem?_getD, getElem?_eq_getElem hlt, Option.getD_some]
  exact getElem_mem hlt

theorem selectPool_mem (h : (m.selectPool pf env request).1 = .ok id) :
    ∃ p, (id, p) ∈ m.eligiblePools env request := by
  unfold selectPool at h
  cases hp : m.eligiblePools env request with
  | nil => rw [hp] at h; cases h
  | cons first rest =>
    rw [hp] at h
    dsimp only at h
    cases hs : request.selectionStrategy <;> rw [hs] at h
    case leastUtilized => exact leastUtilized_mem h
    case mostUtilized => exact mostUtilized_mem h
    case roundRobin =>
      cases h
      exact ⟨_, getD_mod_mem first rest m.roundRobinCounter⟩
    case topologyAware =>
      dsimp only at h
      split at h
      · split at h
        · rename_i x hx
          cases h
          exact ⟨x.2, mem_of_find?_eq_some hx⟩
        · exact leastUtilized_mem h
      · exact leastUtilized_mem h
    case random =>
      cases h
      exact ⟨_, getD_mod_mem first rest env.random⟩

theorem choosePool_enabled (h : (m.choosePool pf env request).1 = .ok id) :
    ∃ p, m.pools[id]? = some p ∧ p.state.config.enabled := by
  unfold choosePool at h
  cases hpref : request.preferredPool with
  | none =>
    rw [hpref] at h
    obtain ⟨p, hmem⟩ := selectPool_mem h
    obtain ⟨hp, he⟩ := mem_eligiblePools hmem
    simp only [eligible, Bool.and_eq_true] at he
    exact ⟨p, hp, he.1.1.1⟩
  | some preferred =>
    rw [hpref] at h
    cases hp : m.pools[preferred]? with
    | none => simp [hp] at h
    | some p =>
      by_cases hcap : p.hasCapacity
      · simp only [hp, hcap, if_true, Except.ok.injEq] at h
        subst h
        simp only [hasCapacity, Bool.and_eq_true] at hcap
        exact ⟨p, hp, hcap.1⟩
      · simp [hp, hcap] at h

theorem allocateIp_ok
    (hsync : ∀ (id : IpPoolId) (p : EnhancedIpPoolState), m.pools[id]? = some p → p.InSync)
    {res : IpAllocationResult} (h : m.allocateIp pf env request = (m', .ok res)) :
    ∃ p, m.pools[res.allocation.poolId]? = some p ∧ p.state.config.enabled ∧
      p.factoryConfig.Allocatable pf res.allocation.ip ∧
      res.networkConfig.ipAddress = res.allocation.ip := by
  unfold allocateIp at h
  rcases hc : m.choosePool pf env request with ⟨e | id, ctr⟩ <;> rw [hc] at h
  · cases h
  obtain ⟨p, hp, hn⟩ := choosePool_enabled (congrArg Prod.fst hc)
  simp only [hp] at h
  rcases @EnhancedIpPoolState.allocateIp_cases pf p (hsync id p hp) (env.now 0) with
    ⟨e, he⟩ | ⟨ip, p', hok, hall, -⟩
  · rw [he] at h
    cases h
  · rw [hok] at h
    cases h
    exact ⟨p, hp, hn, hall, rfl⟩

/-! ## The invariant -/

structure Faithful (pf : Platform) (m : IpPoolManager) : Prop where
  inSync : ∀ (id : IpPoolId) (p : EnhancedIpPoolState), m.pools[id]? = some p → p.InSync
  grants : ∀ (id : IpPoolId) (p : EnhancedIpPoolState), m.pools[id]? = some p →
    ∀ ip, p.factoryConfig.Allocatable pf ip → p.state.config.Grants ip

/-- The command withdraws no address that its pool's factory can hand out: a valid update grants all
    of them, a reservation that passes its checks has none. -/
def WithdrawsNothing (pf : Platform) (m : IpPoolManager) (x : PoolOp × PoolEnv) : Prop :=
  match x.1 with
  | .command (.updatePool config) => config.validate pf = .ok () →
    ∀ p, m.pools[config.id]? = some p →
      ∀ ip, p.factoryConfig.Allocatable pf ip → config.Grants ip
  | .command (.reserveIps id ips) => ∀ p, m.pools[id]? = some p →
    (∀ ip ∈ ips, checkReservable pf p ip = .ok ()) →
      ∀ ip ∈ ips, ¬ p.factoryConfig.Allocatable pf ip
  | _ => True

theorem faithful_new : Faithful pf new where
  inSync id p h := by simp [new] at h
  grants id p h := by simp [new] at h

/-- The invariant carries over when each pool of the new manager has the factory and the
    configuration of one of the old manager. -/
theorem Faithful.of_same (h : m.Faithful pf)
    (hsame : ∀ (id : IpPoolId) (q : EnhancedIpPoolState), m'.pools[id]? = some q →
      ∃ p, m.pools[id]? = some p ∧ q.factoryConfig = p.factoryConfig ∧
        q.state.config = p.state.config ∧ (p.InSync → q.InSync)) : m'.Faithful pf where
  inSync id q hq := by
    obtain ⟨p, hp, -, -, hsync⟩ := hsame id q hq
    exact hsync (h.inSync id p hp)
  grants id q hq ip hip := by
    obtain ⟨p, hp, hf, hc, -⟩ := hsame id q hq
    rw [hc]
    exact h.grants id p hp ip (hf ▸ hip)

theorem Faithful.grants_reconfigured (h : m.Faithful pf)
    (hc : WithdrawsNothing pf m (.command c, env)) {p : EnhancedIpPoolState}
    (hp : m.pools[id]? = some p) (hr : Reconfigured pf c id p q) {ip : IpAddr}
    (hip : p.factoryConfig.Allocatable pf ip) : q.state.config.Grants ip := by
  have hg := h.grants id p hp ip hip
  cases hr with
  | update hupd hid hval =>
    subst hupd hid
    exact hc hval p hp ip hip
  | enabled b heq =>
    rw [heq]
    exact ⟨hg.inRange, hg.notReserved, hg.notGateway⟩
  | reserve ips hres hc1 heq =>
    subst hres heq
    refine ⟨hg.inRange, ?_, hg.notGateway⟩
    show ip ∉ putAll p.state.config.reservedIps ips.toList
    rw [mem_putAll, map_fst_toList_eq_keys, Std.ExtTreeMap.mem_keys]
    rintro (hmem | hmem)
    · exact hg.notReserved hmem
    · exact hc p hp hc1 ip hmem hip
  | release ips heq =>
    subst heq
    refine ⟨hg.inRange, ?_, hg.notGateway⟩
    show ip ∉ eraseAll p.state.config.reservedIps ips.keys
    rw [mem_iff, get_eraseAll]
    rintro ⟨v, hv⟩
    split_ifs at hv
    exact hg.notReserved ((mem_iff _ _).2 ⟨v, hv⟩)

theorem faithful_command (h : m.Faithful pf)
    (hc : WithdrawsNothing pf m (.command c, env)) : (m.processCommand pf c).1.Faithful pf where
  inSync id q hq := by
    rcases processCommand_pool hq with hold | ⟨cfg, -, hnew⟩ | ⟨p, hp, hsame, -⟩
    · exact h.inSync id q hold
    · exact (EnhancedIpPoolState.new_ok hnew).1
    · exact hsame.inSync (h.inSync id p hp)
  grants id q hq ip hip := by
    rcases processCommand_pool hq with hold | ⟨cfg, hval, hnew⟩ | ⟨p, hp, hsame, hr⟩
    · exact h.grants id q hold ip hip
    · obtain ⟨capacity, -, rfl⟩ := EnhancedIpPoolState.new_eq hnew
      exact IpPoolConfig.grants_of_allocatable hval hip
    · exact h.grants_reconfigured hc hp hr (hsame.factoryConfig ▸ hip)

theorem faithful_releaseOne (h : m.Faithful pf) (ip : IpAddr) : (m.releaseOne ip).Faithful pf := by
  apply h.of_same
  intro id q hq
  unfold releaseOne at hq
  cases ha : m.allocations[ip]? with
  | none => rw [ha] at hq; exact ⟨q, hq, rfl, rfl, fun hs => hs⟩
  | some a =>
    cases hp : m.pools[a.poolId]? with
    | none => simp only [ha, hp] at hq; exact ⟨q, hq, rfl, rfl, fun hs => hs⟩
    | some p =>
      simp only [ha, hp] at hq
      rcases get_insert_eq_some.1 hq with ⟨rfl, rfl⟩ | ⟨-, hq⟩
      · exact ⟨p, hp, rfl, rfl, fun hs => releaseIp_inSync hs ip⟩
      · exact ⟨q, hq, rfl, rfl, fun hs => hs⟩

theorem faithful_releaseAll (ips : List IpAddr) (h : m.Faithful pf) :
    (ips.foldl releaseOne m).Faithful pf := by
  induction ips generalizing m with
  | nil => exact h
  | cons ip ips ih =>
    rw [foldl_cons]
    exact ih (faithful_releaseOne h ip)

theorem faithful_step (m : IpPoolManager) (x : PoolOp × PoolEnv) (h : m.Faithful pf)
    (hx : WithdrawsNothing pf m x) : (m.step pf x).Faithful pf := by
  obtain ⟨op, env⟩ := x
  cases op with
  | command c => exact faithful_command h hx
  | allocateIp req =>
    show (m.allocateIp pf env req).1.Faithful pf
    rcases @allocateIp_cases pf env m h.inSync req with
      ⟨counter, e, heq⟩ | ⟨counter, id, p, p', ip, hp, -, -, hsync, hf, hc, -, heq⟩ <;>
      rw [heq]
    · exact ⟨h.inSync, h.grants⟩
    apply h.of_same
    intro i q hq
    rcases get_insert_eq_some.1 hq with ⟨rfl, rfl⟩ | ⟨-, hq⟩
    · exact ⟨p, hp, hf, hc, fun _ => hsync⟩
    · exact ⟨q, hq, rfl, rfl, fun hs => hs⟩
  | releaseVmIps vmId => exact faithful_releaseAll _ ⟨h.inSync, h.grants⟩

/-- The address of a result is granted by the current configuration of its pool, which
    is enabled. -/
def FollowsConfiguration (m : IpPoolManager) (result : IpAllocationResult) : Prop :=
  result.networkConfig.ipAddress = result.allocation.ip ∧
  ∃ p, m.pools[result.allocation.poolId]? = some p ∧
    p.state.config.Grants result.allocation.ip ∧ p.state.config.enabled

/-- **Allocations follow the configuration**: if no command withdraws an address that a factory can
    hand out, an allocated one is in range, not reserved, not the gateway, and of an enabled pool.
    -/
theorem allocation_follows_configuration (pf : Platform) (run : List (PoolOp × PoolEnv))
    (h : Run.Along (step pf) (WithdrawsNothing pf) new run) :
    ∀ m ∈ run.scanl (step pf) new, ∀ env request m' result,
      m.allocateIp pf env request = (m', .ok result) → m.FollowsConfiguration result := by
  intro m hm env request m' result hresult
  have hfaithful := Run.invariant (fun m x => faithful_step m x) faithful_new h m hm
  obtain ⟨p, hp, henabled, hall, hip⟩ := allocateIp_ok hfaithful.inSync hresult
  exact ⟨hip, p, hp, hfaithful.grants _ p hp _ hall, henabled⟩

/-! ## A reservation after the creation -/

def reservedLater (n : ℕ) : List (PoolOp × PoolEnv) :=
  [.command (.createPool (tenPool 1 10 20)),
    .command (.reserveIps ⟨1⟩ {(.v4 (0x0a000000 + .ofNat 32 n), ())})].map (·, quietEnv)

def afterReservation (n : ℕ) : IpPoolManager := (reservedLater n).foldl (step .release) new

def firstOfTen : IpAllocationResult :=
  ⟨record quietEnv (requestFrom 1 1) ⟨1⟩ (.v4 0x0a00000a),
    networkConfig (tenPool 1 10 20) (.v4 0x0a00000a) ""⟩

/-- The first address of the range is reserved, and the next request still gets it. -/
theorem reserved_address_is_allocated :
    ¬ ∀ (pf : Platform) (run : List (PoolOp × PoolEnv)), ∀ m ∈ run.scanl (step pf) new,
      ∀ env request m' result,
        m.allocateIp pf env request = (m', .ok result) → m.FollowsConfiguration result := by
  intro h
  have hresult : (afterReservation 10).allocateIp .release quietEnv (requestFrom 1 1) =
      (((afterReservation 10).allocateIp .release quietEnv (requestFrom 1 1)).1,
        .ok firstOfTen) := Prod.ext rfl (by decide +kernel)
  obtain ⟨-, p, hp, hgrants, -⟩ := h .release (reservedLater 10) _ (Run.foldl_mem_scanl new _)
    quietEnv (requestFrom 1 1) _ firstOfTen hresult
  have hreserved : (afterReservation 10).pools[firstOfTen.allocation.poolId]?.map
      (fun p => decide (firstOfTen.allocation.ip ∈ p.state.config.reservedIps)) = some true := by
    decide +kernel
  rw [afterReservation, hp, Option.map_some, Option.some.injEq, decide_eq_true_eq] at hreserved
  exact hgrants.notReserved hreserved

/-- A reservation below the range withdraws nothing, and the request gets its address. -/
theorem outside_reservation_follows_configuration :
    Run.Along (step .release) (WithdrawsNothing .release) new (reservedLater 5) ∧
    ((afterReservation 5).allocateIp .release quietEnv (requestFrom 1 1)).2 = .ok firstOfTen ∧
    (afterReservation 5).FollowsConfiguration firstOfTen := by
  have along : Run.Along (step .release) (WithdrawsNothing .release) new (reservedLater 5) := by
    refine ⟨trivial, ?_, trivial⟩
    intro p hp _ ip hip hall
    have hf : p.factoryConfig = tenPool 1 10 20 := by
      have hmap := congrArg (Option.map EnhancedIpPoolState.factoryConfig) hp
      exact (Option.some.inj hmap).symm
    have hsep : ∀ x ∈ (tenPool 1 10 20).scanned,
        x ∉ ({(.v4 (0x0a000000 + .ofNat 32 5), ())} : IpSet) := by decide +kernel
    exact hsep ip (hf ▸ hall.1) hip
  have hresult : ((afterReservation 5).allocateIp .release quietEnv (requestFrom 1 1)).2 =
      .ok firstOfTen := by decide +kernel
  exact ⟨along, hresult, allocation_follows_configuration .release (reservedLater 5) along _
    (Run.foldl_mem_scanl new _) quietEnv (requestFrom 1 1) _ firstOfTen (Prod.ext rfl hresult)⟩

end IpPoolManager

end Blixard
