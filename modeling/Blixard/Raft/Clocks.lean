/-
  How far the clock and the order of hash maps reach into a machine.

  Machines that are alike up to those (`Alike`) fail together and stay alike, unless they
  allocate an address in different surroundings (`applyEntry_alike`).
-/
import Blixard.Raft.QuotaUsage

namespace Blixard

open QuotaManager Table

def ProposalData.members : ProposalData → List ProposalData
  | batch ps => ps
  | p => [p]

namespace QuotaManager

def usageOf (q : QuotaManager) (tenantId : String) : VmResourceUsage :=
  (q.usage[tenantId]?.map fun usage => usage.vmUsage).getD {}

def figures (q : QuotaManager) : Table String TenantQuota × (String → VmResourceUsage) :=
  (q.quotas, q.usageOf)

variable {q q' : QuotaManager}

theorem figures_eq : q.figures = q'.figures ↔ q.quotas = q'.quotas ∧ q.usageOf = q'.usageOf :=
  Prod.mk_inj

theorem getTenantUsage_vmUsage (tenantId : String) (now : ℤ) :
    (q.getTenantUsage tenantId now).vmUsage = q.usageOf tenantId := by
  unfold getTenantUsage usageOf
  cases q.usage[tenantId]? <;> rfl

theorem usageOf_insert (tid t : String) (usage : TenantUsage) :
    usageOf { q with usage := q.usage.insert tid usage } t =
      if tid = t then usage.vmUsage else q.usageOf t := by
  simp only [usageOf, get_insert]
  split_ifs <;> rfl

theorem figures_setTenantQuota (h : q.figures = q'.figures) (quota : TenantQuota) :
    (q.setTenantQuota quota).figures = (q'.setTenantQuota quota).figures := by
  obtain ⟨hq, hu⟩ := figures_eq.1 h
  exact figures_eq.2 ⟨congrArg (·.insert quota.tenantId quota) hq, hu⟩

theorem figures_removeTenantQuota (h : q.figures = q'.figures) (tid : String) :
    (q.removeTenantQuota tid).figures = (q'.removeTenantQuota tid).figures := by
  obtain ⟨hq, hu⟩ := figures_eq.1 h
  refine figures_eq.2 ⟨congrArg (·.erase tid) hq, funext fun t => ?_⟩
  simp only [usageOf, removeTenantQuota, get_erase]
  split_ifs
  · rfl
  · exact congrFun hu t

/-- A change of the usage fails with the same failure, or leaves the same figures. -/
theorem updateResourceUsage_figures {pf : Platform} (h : q.figures = q'.figures)
    (tenantId : String) (vcpus memoryMb diskGb : ℤ) (nodeId : ℕ) (now now' : ℤ) :
    (q.updateResourceUsage pf tenantId vcpus memoryMb diskGb nodeId now).map figures =
      (q'.updateResourceUsage pf tenantId vcpus memoryMb diskGb nodeId now').map figures := by
  obtain ⟨hq, hu⟩ := figures_eq.1 h
  simp only [updateResourceUsage, getTenantUsage_vmUsage, hu]
  cases (updateVmUsage pf (q'.usageOf tenantId) vcpus memoryMb diskGb nodeId).2 with
  | error failure => rfl
  | ok u =>
    refine congrArg Except.ok (figures_eq.2 ⟨hq, funext fun t => ?_⟩)
    rw [usageOf_insert, usageOf_insert, hu]

end QuotaManager

namespace Machine

/-- The bytes of a machine's row, if it does not decode. -/
def unreadable (m : Machine) (name : String) : Option Bytes :=
  match m.database.vmStates[name]? with
  | some (.junk bytes) => some bytes
  | _ => none

/-- The machines have the same pools and address rows, and what decides whether a proposal
    fails: the rows that cannot be read, and the figures of tenants. -/
structure Alike (a b : Machine) : Prop where
  pools : a.ipPoolManager = b.ipPoolManager
  allocations : a.database.ipAllocations = b.database.ipAllocations
  mappings : a.database.vmIpMappings = b.database.vmIpMappings
  unreadable : a.unreadable = b.unreadable
  stored : a.stored = b.stored
  figures : a.quotaManager.map QuotaManager.figures = b.quotaManager.map QuotaManager.figures

theorem Alike.refl (m : Machine) : m.Alike m := ⟨rfl, rfl, rfl, rfl, rfl, rfl⟩

def AppliedAlike (x y : Applied) : Prop := x.1.Alike y.1 ∧ x.2 = y.2

variable {d : Deployment} {a b m : Machine} {env env' : Env}

theorem Alike.quotaManagers (h : a.Alike b) : a.quotaManager = none ∧ b.quotaManager = none ∨
      ∃ q q', a.quotaManager = some q ∧ b.quotaManager = some q' ∧ q.figures = q'.figures := by
  have hf := h.figures
  cases ha : a.quotaManager with
  | none =>
    rw [ha, Option.map_none, eq_comm, Option.map_eq_none_iff] at hf
    exact .inl ⟨rfl, hf⟩
  | some q =>
    rw [ha, Option.map_some, eq_comm, Option.map_eq_some_iff] at hf
    obtain ⟨q', hb, hq⟩ := hf
    exact .inr ⟨q, q', rfl, hb, hq.symm⟩

theorem Alike.withVms (h : a.Alike b) {vms vms' : Table String (Encoded VmState)}
    (hvms : Machine.unreadable { a with database := { a.database with vmStates := vms } } =
      Machine.unreadable { b with database := { b.database with vmStates := vms' } }) :
    AppliedAlike (a.commit { a.database with vmStates := vms })
      (b.commit { b.database with vmStates := vms' }) :=
  ⟨⟨h.pools, h.allocations, h.mappings, hvms, h.stored, h.figures⟩, rfl⟩

/-! ## Virtual machines -/

variable (name : String) {envs envs' : ℕ → Env}

theorem unreadable_insert (vm : VmState) : unreadable { m with database := { m.database with
      vmStates := m.database.vmStates.insert name (.value vm) } } =
        fun other => if name = other then none else m.unreadable other := by
  funext other
  simp only [unreadable, get_insert]
  split_ifs <;> rfl

theorem unreadable_erase : unreadable { m with database := { m.database with
      vmStates := m.database.vmStates.erase name } } =
        fun other => if name = other then none else m.unreadable other := by
  funext other
  simp only [unreadable, get_erase]
  split_ifs <;> rfl

theorem modifyVm_of_readable {name : String} (h : m.unreadable name = none) (env : Env)
    (chg : VmState → VmState) : ∃ vms,
      m.modifyVm d env name chg = m.commit { m.database with vmStates := vms } ∧
      unreadable { m with database := { m.database with vmStates := vms } } = m.unreadable := by
  unfold modifyVm
  cases hrow : m.database.vmStates[name]? with
  | none => exact ⟨m.database.vmStates, rfl, rfl⟩
  | some row =>
    cases row with
    | junk bytes => simp [unreadable, hrow] at h
    | value vm =>
      refine ⟨_, rfl, (unreadable_insert name _).trans (funext fun other => ?_)⟩
      split_ifs with hname
      · rw [← hname, h]
      · rfl

theorem modifyVm_of_unreadable {name : String} {bytes : Bytes}
    (h : m.unreadable name = some bytes) (env : Env) (chg : VmState → VmState) :
    m.modifyVm d env name chg = m.abort
      (.error (.serialization "deserialize vm state (VmState)" (d.decodeError bytes))) := by
  unfold unreadable at h
  unfold modifyVm
  split at h
  · cases h
    simp only [*]
  · cases h

theorem modifyVm_alike (h : a.Alike b) (name : String) (chg : VmState → VmState) :
    AppliedAlike (a.modifyVm d env name chg) (b.modifyVm d env' name chg) := by
  cases ha : a.unreadable name with
  | none =>
    have hb : b.unreadable name = none := by rw [← h.unreadable, ha]
    obtain ⟨vms, hp, hvms⟩ := modifyVm_of_readable (d := d) ha env chg
    obtain ⟨vms', hp', hvms'⟩ := modifyVm_of_readable (d := d) hb env' chg
    rw [hp, hp']
    exact h.withVms (hvms.trans (h.unreadable.trans hvms'.symm))
  | some bytes =>
    have hb : b.unreadable name = some bytes := by rw [← h.unreadable, ha]
    rw [modifyVm_of_unreadable ha, modifyVm_of_unreadable hb]
    exact ⟨h, rfl⟩

theorem checkQuota_alike (h : a.Alike b) (env env' : Env) (config : VmConfig) (nodeId : ℕ) :
    a.checkQuota d env config nodeId = b.checkQuota d env' config nodeId := by
  unfold checkQuota
  rcases h.quotaManagers with ⟨ha, hb⟩ | ⟨q, q', ha, hb, hf⟩
  · rw [ha, hb]
  · obtain ⟨hq, hu⟩ := figures_eq.1 hf
    simp only [ha, hb, hq, getTenantUsage_vmUsage, hu]

theorem validateVmAdmission_alike (h : a.Alike b) (env env' : Env) (config : VmConfig)
    (nodeId : ℕ) :
    a.validateVmAdmission d env config nodeId = b.validateVmAdmission d env' config nodeId := by
  unfold validateVmAdmission
  rw [checkQuota_alike h env env']

theorem applyVmCommand_alike (h : a.Alike b) (command : VmCommand) :
    AppliedAlike (a.applyVmCommand d env command) (b.applyVmCommand d env' command) := by
  cases command with
  | create config nodeId =>
    simp only [applyVmCommand, validateVmAdmission_alike h env env' config nodeId]
    cases b.validateVmAdmission d env' config nodeId with
    | error failure => exact ⟨h, rfl⟩
    | ok u => exact h.withVms (by rw [unreadable_insert, unreadable_insert, h.unreadable]; rfl)
  | start name | stop name => exact modifyVm_alike h name _
  | delete name => exact h.withVms (by rw [unreadable_erase, unreadable_erase, h.unreadable])
  | migrate task => exact modifyVm_alike h task.vmName _
  | updateStatus name status => exact ⟨h, rfl⟩

/-! ## Addresses -/

theorem mappedIps_alike (h : a.Alike b) (vmId : VmId) : a.mappedIps vmId = b.mappedIps vmId := by
  rw [mappedIps, mappedIps, h.mappings]

theorem blockOn_alike (h : a.Alike b) {run run' : Unit → Applied}
    (hrun : d.runtime = .blocking → AppliedAlike (run ()) (run' ())) :
    AppliedAlike (a.blockOn d run) (b.blockOn d run') := by
  unfold blockOn
  cases hr : d.runtime with
  | absent => exact ⟨h, rfl⟩
  | driving => exact ⟨h, rfl⟩
  | blocking => exact hrun hr

theorem applyIpPoolCommand_alike (h : a.Alike b) (cmd : IpPoolCommand) :
    AppliedAlike (a.applyIpPoolCommand d cmd) (b.applyIpPoolCommand d cmd) := by
  refine blockOn_alike h fun _ => ?_
  rw [h.pools]
  exact ⟨⟨rfl, h.allocations, h.mappings, h.unreadable, h.stored, h.figures⟩, rfl⟩

theorem applyAllocateIp_alike (h : a.Alike b) (req : IpAllocationRequest)
    (henv : d.runtime = .blocking → env.toPoolEnv = env'.toPoolEnv) :
    AppliedAlike (a.applyAllocateIp d env req) (b.applyAllocateIp d env' req) := by
  refine blockOn_alike h fun hr => ?_
  rw [h.pools, henv hr]
  rcases b.ipPoolManager.allocateIp d.toPlatform env'.toPoolEnv req with ⟨mgr, e | r⟩
  · exact ⟨⟨rfl, h.allocations, h.mappings, h.unreadable, h.stored, h.figures⟩, rfl⟩
  refine ⟨⟨rfl, ?_, ?_, h.unreadable, h.stored, h.figures⟩, rfl⟩
  · simp only [commit, storeAllocation, h.allocations]
  · have hips : mappedIps { a with ipPoolManager := mgr } r.allocation.vmId =
        mappedIps { b with ipPoolManager := mgr } r.allocation.vmId := mappedIps_alike h _
    simp only [commit, storeAllocation, hips, h.mappings]

theorem applyReleaseVmIps_alike (h : a.Alike b) (vmId : VmId) :
    AppliedAlike (a.applyReleaseVmIps d vmId) (b.applyReleaseVmIps d vmId) := by
  have finish : ∀ mgr, AppliedAlike
      ({ a with ipPoolManager := mgr }.commit
        { a.database with vmIpMappings := a.database.vmIpMappings.erase vmId })
      ({ b with ipPoolManager := mgr }.commit
        { b.database with vmIpMappings := b.database.vmIpMappings.erase vmId }) := fun mgr =>
    ⟨⟨rfl, h.allocations, congrArg (·.erase vmId) h.mappings, h.unreadable, h.stored, h.figures⟩,
      rfl⟩
  unfold applyReleaseVmIps
  rw [mappedIps_alike h, h.pools]
  cases d.runtime with
  | absent => exact ⟨h, rfl⟩
  | driving =>
    by_cases hips : b.mappedIps vmId = []
    · simp only [hips, if_true]
      exact finish _
    · simp only [hips, if_false]
      exact ⟨h, rfl⟩
  | blocking => exact finish _

/-! ## Quotas -/

/-- The quota managers are told of changes that end in the same way and leave the same
    figures. -/
theorem tellQuotaManager_alike (h : a.Alike b)
    {chg chg' : QuotaManager → Database → Except Failure (QuotaManager × Database)}
    (hc : ∀ q q', q.figures = q'.figures →
      (∃ fail, chg q a.database = .error fail ∧
        chg' q' b.database = .error fail) ∨
      ∃ r r', chg q a.database = .ok r ∧ chg' q' b.database = .ok r' ∧
        r.1.figures = r'.1.figures ∧ Alike { a with database := r.2 } { b with database := r'.2 }) :
    AppliedAlike (a.tellQuotaManager d chg) (b.tellQuotaManager d chg') := by
  unfold tellQuotaManager
  by_cases hv : d.sharedAlive
  · simp only [hv, not_true, if_false]
    cases d.runtime with
    | absent => exact ⟨h, rfl⟩
    | driving => exact ⟨h, rfl⟩
    | blocking =>
      rcases h.quotaManagers with ⟨ha, hb⟩ | ⟨q, q', ha, hb, hf⟩
      · simp only [ha, hb]
        exact ⟨h, rfl⟩
      rcases hc q q' hf with ⟨fail, hq, hq'⟩ | ⟨r, r', hq, hq', hr, hl⟩
      · simp only [ha, hb, hq, hq']
        exact ⟨h, rfl⟩
      · simp only [ha, hb, hq, hq']
        exact ⟨⟨hl.pools, hl.allocations, hl.mappings, hl.unreadable,
          hl.stored, congrArg some hr⟩, rfl⟩
  · rw [if_pos hv, if_pos hv]
    exact ⟨h, rfl⟩

theorem applySetTenantQuota_alike (h : a.Alike b) (quota : TenantQuota) :
    AppliedAlike (a.applySetTenantQuota d quota) (b.applySetTenantQuota d quota) := by
  unfold applySetTenantQuota
  apply tellQuotaManager_alike
  · exact ⟨h.pools, h.allocations, h.mappings, h.unreadable, h.stored, h.figures⟩
  intro q q' hq
  exact .inr ⟨_, _, rfl, rfl, figures_setTenantQuota hq quota,
    h.pools, h.allocations, h.mappings, h.unreadable, h.stored, h.figures⟩

theorem applyRemoveTenantQuota_alike (h : a.Alike b) (tid : String) :
    AppliedAlike (a.applyRemoveTenantQuota d tid) (b.applyRemoveTenantQuota d tid) := by
  have hs := funext fun t => (@stored_erase a tid t).trans
    ((congrArg (fun s => if tid = t then {} else s t) h.stored).trans
      (@stored_erase b tid t).symm)
  unfold applyRemoveTenantQuota
  apply tellQuotaManager_alike
  · exact ⟨h.pools, h.allocations, h.mappings, h.unreadable, hs, h.figures⟩
  intro q q' hq
  exact .inr ⟨_, _, rfl, rfl, figures_removeTenantQuota hq tid,
    h.pools, h.allocations, h.mappings, h.unreadable, hs, h.figures⟩

def summed (pf : Platform) (use : VmResourceUsage) (delta : ResourceUsageDelta) :
    Except Failure VmResourceUsage := do
  let activeVms ← pf.applyDelta 32 use.activeVms delta.vmCountDelta
  let usedVcpus ← pf.applyDelta 32 use.usedVcpus delta.vcpuDelta
  let usedMemoryMb ← pf.applyDelta 64 use.usedMemoryMb delta.memoryMbDelta
  let usedDiskGb ← pf.applyDelta 64 use.usedDiskGb delta.diskGbDelta
  return { activeVms, usedVcpus, usedMemoryMb, usedDiskGb }

theorem updatedUsage_figures (env : Env) (tid : String) (delta : ResourceUsageDelta) :
    (m.updatedUsage d env tid delta).map (fun usage => usage.vmUsage.totals) =
      summed d.toPlatform (m.stored tid) delta := by
  rw [← currentUsage_totals env]
  unfold updatedUsage summed
  generalize m.currentUsage env tid = usage
  simp only [VmResourceUsage.totals]
  rcases d.applyDelta 32 usage.vmUsage.activeVms delta.vmCountDelta with _ | activeVms
  · rfl
  rcases d.applyDelta 32 usage.vmUsage.usedVcpus delta.vcpuDelta with _ | usedVcpus
  · rfl
  rcases d.applyDelta 64 usage.vmUsage.usedMemoryMb delta.memoryMbDelta with _ | usedMemoryMb
  · rfl
  cases d.applyDelta 64 usage.vmUsage.usedDiskGb delta.diskGbDelta <;> rfl

theorem applyUpdateTenantUsage_alike (h : a.Alike b) (tid : String) (delta : ResourceUsageDelta) :
    AppliedAlike (a.applyUpdateTenantUsage d env tid delta)
      (b.applyUpdateTenantUsage d env' tid delta) := by
  have hupd := updatedUsage_figures (d := d) (m := a) env tid delta
  rw [h.stored, ← updatedUsage_figures env'] at hupd
  unfold applyUpdateTenantUsage
  rcases map_eq_map_cases hupd with ⟨fail, ha, hb⟩ | ⟨usage, usage', ha, hb, ht⟩
  · rw [ha, hb]
    exact ⟨h, rfl⟩
  rw [ha, hb]
  have hl : Alike
      { a with database := { a.database with
          tenantUsage := a.database.tenantUsage.insert tid (.value usage) } }
      { b with database := { b.database with
          tenantUsage := b.database.tenantUsage.insert tid (.value usage') } } := by
    refine ⟨h.pools, h.allocations, h.mappings, h.unreadable, funext fun t => ?_, h.figures⟩
    rw [stored_insert, stored_insert, ht, h.stored]
  refine tellQuotaManager_alike hl ?_
  intro q q' hq
  have hf := @QuotaManager.updateResourceUsage_figures q q' d.toPlatform hq tid
    delta.vcpuDelta delta.memoryMbDelta delta.diskGbDelta 1 (env.now 5) (env'.now 5)
  rcases map_eq_map_cases hf with ⟨fail, hr, hr'⟩ | ⟨r, r', hr, hr', hsame⟩
  · exact .inl ⟨fail, by rw [hr]; rfl, by rw [hr']; rfl⟩
  · exact .inr ⟨(r, _), (r', _), by rw [hr]; rfl, by rw [hr']; rfl, hsame, hl⟩

/-! ## Entries -/

/-- The proposal is not an allocation that the pools are asked for, or is applied in the same
    surroundings. -/
def SameSurroundings (d : Deployment) (p : ProposalData) (env env' : Env) : Prop :=
  ∀ request, p = .allocateIp request → d.runtime = .blocking → env.toPoolEnv = env'.toPoolEnv

theorem applyOne_alike (h : a.Alike b) {p : ProposalData} (henv : SameSurroundings d p env env') :
    AppliedAlike (a.applyOne d env p) (b.applyOne d env' p) := by
  -- proposals that only write tables that are not compared
  have other : ∀ {db db' : Database}, db.ipAllocations = db'.ipAllocations →
      db.vmIpMappings = db'.vmIpMappings → db.vmStates = a.database.vmStates →
      db'.vmStates = b.database.vmStates → db.tenantUsage = a.database.tenantUsage →
      db'.tenantUsage = b.database.tenantUsage → AppliedAlike (a.commit db) (b.commit db') := by
    intro db db' ha hm hvms hvms' hu hu'
    refine ⟨⟨h.pools, ha, hm, ?_, ?_, h.figures⟩, rfl⟩
    · have hn := h.unreadable
      unfold unreadable at hn ⊢
      simpa only [commit, hvms, hvms'] using hn
    · have hs := h.stored
      unfold stored at hs ⊢
      simpa only [commit, hu, hu'] using hs
  cases p with
  | createVm cmd => exact applyVmCommand_alike h cmd
  | updateVmStatus vm st nid => exact modifyVm_alike h vm _
  | migrateVm vm fromNode toNode => exact applyVmCommand_alike h _
  | ipPoolCommand cmd => exact applyIpPoolCommand_alike h cmd
  | allocateIp req => exact applyAllocateIp_alike h req (henv req rfl)
  | releaseVmIps vmId => exact applyReleaseVmIps_alike h vmId
  | setTenantQuota quota => exact applySetTenantQuota_alike h quota
  | updateTenantUsage tid delta oid =>
    exact applyUpdateTenantUsage_alike h tid delta
  | removeTenantQuota tid => exact applyRemoveTenantQuota_alike h tid
  | batch ps => exact ⟨h, rfl⟩
  | _ => exact other h.allocations h.mappings rfl rfl rfl rfl

theorem applyBatch_alike : ∀ (ps : List ProposalData) (i : ℕ) {a b : Machine}, a.Alike b →
    (∀ (j : ℕ) p, ps[j]? = some p → SameSurroundings d p (envs (i + j)) (envs' (i + j))) →
    AppliedAlike (applyBatch d envs i a ps) (applyBatch d envs' i b ps)
  | [], _, _, _, h, _ => ⟨h, rfl⟩
  | p :: ps, i, a, b, h, henvs => by
    obtain ⟨hl, hres⟩ := applyOne_alike h (henvs 0 p rfl)
    rw [applyBatch, applyBatch]
    rcases ha : a.applyOne d (envs i) p with ⟨a', e | u⟩ <;>
      rcases hb : b.applyOne d (envs' i) p with ⟨b', e' | u'⟩ <;>
      simp only [Nat.add_zero, ha, hb] at hl hres
    · exact ⟨hl, hres⟩
    · cases hres
    · cases hres
    · refine applyBatch_alike ps (i + 1) hl fun j q hq => ?_
      rw [Nat.add_assoc, Nat.add_comm 1 j]
      exact henvs (j + 1) q hq

/-- The allocations of the entry are applied in the same surroundings by both replicas. -/
def EntrySurroundings (d : Deployment) (decode : Bytes → Except String ProposalData)
    (entry : Entry) (envs envs' : ℕ → Env) : Prop :=
  entry.data ≠ [] → ∀ p, decode entry.data = .ok p →
    ∀ (i : ℕ) q, p.members[i]? = some q → SameSurroundings d q (envs i) (envs' i)

/-- **Replicas that apply an entry stay alike.** -/
theorem applyEntry_alike {decode : Bytes → Except String ProposalData} (h : a.Alike b)
    {entry : Entry} (henvs : EntrySurroundings d decode entry envs envs') :
    AppliedAlike (a.applyEntry d decode envs entry) (b.applyEntry d decode envs' entry) := by
  unfold applyEntry
  by_cases hdata : entry.data = []
  · simp only [hdata, if_true]
    exact ⟨h, rfl⟩
  simp only [hdata, if_false]
  cases hp : decode entry.data with
  | error src => exact ⟨h, rfl⟩
  | ok p =>
    have hm := henvs hdata p hp
    cases p with
    | batch ps =>
      refine applyBatch_alike ps 0 h fun j q hq => ?_
      rw [Nat.zero_add]
      exact hm j q hq
    | _ => exact applyOne_alike h (hm 0 _ rfl)

end Machine

end Blixard
