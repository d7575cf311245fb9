/-
  The usage of tenants, in the table and in the memory of the quota manager
  (`raft/state_machine.rs`, `resource_quotas.rs`).

  One delta is applied twice, by different rules: the state machine adds the change of the number
  of machines, the quota manager counts one by the sign of the change of vCPUs
  (`usage_agrees_iff`).
-/
import Blixard.QuotaEnforcement
import Blixard.Raft.Addresses
import Blixard.Raft.Rows

namespace Blixard

/-! ## Sums -/

/-- `(used as iW + delta).max(0) as uW`, where the sum wraps around. -/
def wrapped (w used : ℕ) (delta : ℤ) : ℕ :=
  (max (((used : ℤ).bmod (2 ^ w) + delta).bmod (2 ^ w)) 0).toNat

/-- The sum of `applyDelta` does not fit into a signed number. -/
def SumOverflows (w used : ℕ) (delta : ℤ) : Prop :=
  ((used : ℤ).bmod (2 ^ w) + delta).bmod (2 ^ w) ≠ (used : ℤ).bmod (2 ^ w) + delta

instance (w used : ℕ) (delta : ℤ) : Decidable (SumOverflows w used delta) := instDecidableNot

theorem Platform.applyDelta_eq (pf : Platform) (w used : ℕ) (delta : ℤ) :
    pf.applyDelta w used delta =
      if pf.overflowChecks ∧ SumOverflows w used delta then
        .error (.panic "attempt to add with overflow")
      else .ok (wrapped w used delta) := by
  unfold applyDelta addSigned SumOverflows
  split_ifs <;> rfl

theorem wrapped_lt (used : ℕ) (delta : ℤ) : wrapped 32 used delta < 2 ^ 31 := by
  have hlt := @Int.bmod_lt ((used : ℤ).bmod (2 ^ 32) + delta) (2 ^ 32) (by decide)
  unfold wrapped
  omega

namespace VmResourceUsage

def totals (use : VmResourceUsage) : VmResourceUsage := { use with vmsPerNode := [] }

def plus (use : VmResourceUsage) (delta : ResourceUsageDelta) : VmResourceUsage where
  activeVms := wrapped 32 use.activeVms delta.vmCountDelta
  usedVcpus := wrapped 32 use.usedVcpus delta.vcpuDelta
  usedMemoryMb := wrapped 64 use.usedMemoryMb delta.memoryMbDelta
  usedDiskGb := wrapped 64 use.usedDiskGb delta.diskGbDelta

theorem plus_activeVms_lt (use : VmResourceUsage) (delta : ResourceUsageDelta) :
    (use.plus delta).activeVms < 2 ^ 31 := by
  simp only [plus]
  exact wrapped_lt use.activeVms delta.vmCountDelta

def Overflows (use : VmResourceUsage) (delta : ResourceUsageDelta) : Prop :=
  SumOverflows 32 use.activeVms delta.vmCountDelta ∨
  SumOverflows 32 use.usedVcpus delta.vcpuDelta ∨
  SumOverflows 64 use.usedMemoryMb delta.memoryMbDelta ∨
  SumOverflows 64 use.usedDiskGb delta.diskGbDelta

/-- The number of machines after a change of vCPUs, as the quota manager counts. -/
def counted (activeVms : ℕ) (vcpuDelta : ℤ) : ℕ :=
  if 0 < vcpuDelta then activeVms + 1
  else if vcpuDelta < 0 then activeVms - 1
  else activeVms

/-- The count of the node that stands for all nodes, which is bounded by the count of
    machines. -/
def CountsOne (use : VmResourceUsage) : Prop := (use.vmsPerNode.lookup 1).getD 0 ≤ use.activeVms

end VmResourceUsage

/-! ## The two updates -/

namespace QuotaManager

variable (counts : List (ℕ × ℕ))

theorem lookup_setCount (nid n : ℕ) : (setCount counts nid n).lookup nid = some n := by
  unfold setCount
  split_ifs with hsome
  · induction counts with
    | nil => simp at hsome
    | cons c counts ih =>
      obtain ⟨k, v⟩ := c
      by_cases hk : k = nid
      · subst hk
        simp
      have hne : (nid == k) = false := by simpa using Ne.symm hk
      rw [List.lookup_cons, hne] at hsome
      simp only [List.map_cons, hk, if_false, List.lookup_cons, hne]
      exact ih hsome
  · rw [Option.not_isSome_iff_eq_none] at hsome
    rw [List.lookup_append, hsome]
    simp

theorem lookup_without (nid : ℕ) : (counts.filter fun c => c.1 ≠ nid).lookup nid = none := by
  rw [List.lookup_eq_none_iff]
  intro c hc
  simpa using Ne.symm (of_decide_eq_true (List.mem_filter.1 hc).2)

theorem countVm_one {pf : Platform} {use : VmResourceUsage} (hact : use.activeVms < 2 ^ 31)
    (hone : use.CountsOne) (vcpus : ℤ) :
    ∃ use', countVm pf use vcpus 1 = (use', .ok ()) ∧ use'.CountsOne ∧
      use'.totals = { use.totals with
        activeVms := VmResourceUsage.counted use.activeVms vcpus } := by
  unfold VmResourceUsage.CountsOne at hone
  have hadd : ∀ n < 2 ^ 31, pf.addUnsigned 32 n 1 = .ok (n + 1) := by
    intro n hn
    exact pf.addUnsigned_of_lt (by omega)
  unfold countVm VmResourceUsage.counted VmResourceUsage.CountsOne
  by_cases hpos : 0 < vcpus
  · simp only [hpos, if_true, hadd _ hact, hadd _ (hone.trans_lt hact)]
    refine ⟨_, rfl, ?_, rfl⟩
    rw [lookup_setCount]
    exact Nat.succ_le_succ hone
  by_cases hneg : vcpus < 0
  · simp only [hpos, hneg, if_true, if_false]
    refine ⟨_, rfl, ?_, rfl⟩
    cases hc : use.vmsPerNode.lookup 1 with
    | none => simp [hc]
    | some count =>
      rw [hc, Option.getD_some] at hone
      by_cases hlast : count - 1 = 0
      · simp only [hlast, if_true, lookup_without]
        exact Nat.zero_le _
      · simp only [hlast, if_false, lookup_setCount, Option.getD_some]
        exact Nat.sub_le_sub_right hone 1
  · simp only [hpos, hneg, if_false]
    exact ⟨use, rfl, hone, rfl⟩

theorem updateVmUsage_totals {pf : Platform} {use : VmResourceUsage} {vcpus memoryMb diskGb : ℤ}
    {usedVcpus usedMemoryMb usedDiskGb : ℕ} (ha : use.activeVms < 2 ^ 31) (hone : use.CountsOne)
    (hcpu : pf.applyDelta 32 use.usedVcpus vcpus = .ok usedVcpus)
    (hmem : pf.applyDelta 64 use.usedMemoryMb memoryMb = .ok usedMemoryMb)
    (hdisk : pf.applyDelta 64 use.usedDiskGb diskGb = .ok usedDiskGb) :
    ∃ use', updateVmUsage pf use vcpus memoryMb diskGb 1 = (use', .ok ()) ∧ use'.CountsOne ∧
      use'.totals = ⟨VmResourceUsage.counted use.activeVms vcpus, usedVcpus, usedMemoryMb,
        usedDiskGb, []⟩ := by
  obtain ⟨use', hc, hone', ht⟩ := @countVm_one pf
    { use with usedVcpus, usedMemoryMb, usedDiskGb } ha hone vcpus
  refine ⟨use', ?_, hone', ht⟩
  simp only [updateVmUsage, hcpu, hmem, hdisk, hc]

def kept (q : QuotaManager) (tenantId : String) : VmResourceUsage :=
  (q.usage[tenantId]?.map fun usage => usage.vmUsage.totals).getD {}

end QuotaManager

namespace Machine

variable (d : Deployment) (m : Machine)

/-- The figures that the table has for a tenant; a row that does not decode counts as
    none. -/
def stored (tenantId : String) : VmResourceUsage :=
  ((m.database.tenantUsage[tenantId]?.bind Encoded.decode).map fun usage =>
    usage.vmUsage.totals).getD {}

variable {d m}

theorem currentUsage_totals (env : Env) (tenantId : String) :
    (m.currentUsage env tenantId).vmUsage.totals = m.stored tenantId := by
  unfold currentUsage stored
  cases m.database.tenantUsage[tenantId]?.bind Encoded.decode <;> rfl

/-- **The update of the table**: all four amounts are added, or a sum overflows and the
    build panics. -/
theorem updatedUsage_totals (env : Env) (tid : String) (delta : ResourceUsageDelta) :
    (d.overflowChecks ∧ (m.stored tid).Overflows delta ∧
      ∃ fail, m.updatedUsage d env tid delta = .error fail) ∨
    (¬ (d.overflowChecks ∧ (m.stored tid).Overflows delta) ∧
      ∃ usage, m.updatedUsage d env tid delta = .ok usage ∧
        usage.vmUsage.totals = (m.stored tid).plus delta) := by
  rw [← currentUsage_totals env]
  unfold updatedUsage
  generalize m.currentUsage env tid = usage
  by_cases hvms : d.overflowChecks ∧
      SumOverflows 32 usage.vmUsage.activeVms delta.vmCountDelta
  · refine .inl ⟨hvms.1, .inl hvms.2, ?_⟩
    simp only [Platform.applyDelta_eq, if_pos hvms]
    exact ⟨_, rfl⟩
  by_cases hcpu : d.overflowChecks ∧ SumOverflows 32 usage.vmUsage.usedVcpus delta.vcpuDelta
  · refine .inl ⟨hcpu.1, .inr (.inl hcpu.2), ?_⟩
    simp only [Platform.applyDelta_eq, if_neg hvms, if_pos hcpu]
    exact ⟨_, rfl⟩
  by_cases hmem : d.overflowChecks ∧
      SumOverflows 64 usage.vmUsage.usedMemoryMb delta.memoryMbDelta
  · refine .inl ⟨hmem.1, .inr (.inr (.inl hmem.2)), ?_⟩
    simp only [Platform.applyDelta_eq, if_neg hvms, if_neg hcpu, if_pos hmem]
    exact ⟨_, rfl⟩
  by_cases hdisk : d.overflowChecks ∧ SumOverflows 64 usage.vmUsage.usedDiskGb delta.diskGbDelta
  · refine .inl ⟨hdisk.1, .inr (.inr (.inr hdisk.2)), ?_⟩
    simp only [Platform.applyDelta_eq, if_neg hvms, if_neg hcpu, if_neg hmem, if_pos hdisk]
    exact ⟨_, rfl⟩
  refine .inr ⟨?_, ?_⟩
  · rintro ⟨hc, h | h | h | h⟩
    · exact hvms ⟨hc, h⟩
    · exact hcpu ⟨hc, h⟩
    · exact hmem ⟨hc, h⟩
    · exact hdisk ⟨hc, h⟩
  · simp only [Platform.applyDelta_eq, if_neg hvms, if_neg hcpu, if_neg hmem, if_neg hdisk]
    refine ⟨_, rfl, ?_⟩
    simp only [VmResourceUsage.totals, VmResourceUsage.plus]

theorem stored_insert (tid t : String) (usage : TenantUsage) :
    stored { m with database := { m.database with
      tenantUsage := m.database.tenantUsage.insert tid (.value usage) } } t =
        if tid = t then usage.vmUsage.totals else m.stored t := by
  simp only [stored, Table.get_insert]
  split_ifs <;> rfl

theorem stored_erase (tid t : String) :
    stored { m with database := { deleteTenantQuota m.database tid with
      tenantUsage := m.database.tenantUsage.erase tid } } t =
        if tid = t then {} else m.stored t := by
  simp only [stored, Table.get_erase]
  split_ifs <;> rfl

end Machine

namespace QuotaManager

variable {q : QuotaManager}

theorem kept_insert (tid t : String) (usage : TenantUsage) :
    kept { q with usage := q.usage.insert tid usage } t =
      if tid = t then usage.vmUsage.totals else q.kept t := by
  simp only [kept, Table.get_insert]
  split_ifs <;> rfl

theorem kept_removeTenantQuota (tid t : String) :
    (q.removeTenantQuota tid).kept t = if tid = t then {} else q.kept t := by
  simp only [kept, removeTenantQuota, Table.get_erase]
  split_ifs <;> rfl

theorem getTenantUsage_totals (tenantId : String) (now : ℤ) :
    (q.getTenantUsage tenantId now).vmUsage.totals = q.kept tenantId := by
  unfold getTenantUsage kept
  cases q.usage[tenantId]? <;> rfl

def AllCountOne (q : QuotaManager) : Prop :=
  ∀ (tenantId : String) usage, q.usage[tenantId]? = some usage → usage.vmUsage.CountsOne

theorem AllCountOne.getTenantUsage (h : q.AllCountOne) (tid : String) (now : ℤ) :
    (q.getTenantUsage tid now).vmUsage.CountsOne := by
  unfold QuotaManager.getTenantUsage
  cases hu : q.usage[tid]? with
  | none => exact Nat.zero_le 0
  | some usage => exact h tid usage hu

theorem updateResourceUsage_kept {pf : Platform} {tid : String} {delta : ResourceUsageDelta}
    (hone : q.AllCountOne) (hact : (q.kept tid).activeVms < 2 ^ 31)
    (hsums : ¬ (pf.overflowChecks ∧ (q.kept tid).Overflows delta)) (now : ℤ) :
    ∃ q', q.updateResourceUsage pf tid delta.vcpuDelta delta.memoryMbDelta delta.diskGbDelta
        1 now = .ok q' ∧ q'.AllCountOne ∧
      ∀ t, q'.kept t = if tid = t then { (q.kept tid).plus delta with
        activeVms := VmResourceUsage.counted (q.kept tid).activeVms delta.vcpuDelta }
        else q.kept t := by
  rw [← getTenantUsage_totals tid now] at hact hsums ⊢
  obtain ⟨use, hp, hc, ht⟩ := @updateVmUsage_totals pf
    (q.getTenantUsage tid now).vmUsage _ _ _ _ _ _ hact (hone.getTenantUsage tid now)
    ((pf.applyDelta_eq 32 _ delta.vcpuDelta).trans
      (if_neg fun h => hsums ⟨h.1, .inr (.inl h.2)⟩))
    ((pf.applyDelta_eq 64 _ delta.memoryMbDelta).trans
      (if_neg fun h => hsums ⟨h.1, .inr (.inr (.inl h.2))⟩))
    ((pf.applyDelta_eq 64 _ delta.diskGbDelta).trans
      (if_neg fun h => hsums ⟨h.1, .inr (.inr (.inr h.2))⟩))
  let usage : TenantUsage := { q.getTenantUsage tid now with vmUsage := use, updatedAt := now }
  refine ⟨{ q with usage := q.usage.insert tid usage }, ?_, ?_, ?_⟩
  · rw [updateResourceUsage, hp]
    rfl
  · intro t u hu
    rcases Table.get_insert_eq_some.1 hu with ⟨-, rfl⟩ | ⟨-, hu⟩
    · exact hc
    · exact hone t u hu
  · intro t
    rw [kept_insert, ht]
    simp only [VmResourceUsage.plus, VmResourceUsage.totals]

end QuotaManager

/-! ## Entries -/

inductive QuotaProposal where
  | setTenantQuota (quota : TenantQuota)
  | updateTenantUsage (tenantId : String) (delta : ResourceUsageDelta) (operationId : BitVec 128)
  | removeTenantQuota (tenantId : String)

def QuotaProposal.data : QuotaProposal → ProposalData
  | setTenantQuota quota => .setTenantQuota quota
  | updateTenantUsage tenantId delta operationId => .updateTenantUsage tenantId delta operationId
  | removeTenantQuota tenantId => .removeTenantQuota tenantId

/-- The quota manager is told of changes: the shared state is alive, and the runtime can be
    waited for. -/
def Deployment.Tells (d : Deployment) : Prop := d.runtime = .blocking ∧ d.sharedAlive

namespace Machine

variable (d : Deployment)

def quotaStep (m : Machine) (x : QuotaProposal × Env) : Machine := (m.applyOne d x.2 x.1.data).1

/-- The quota manager has the figures of the table in memory. -/
def UsageAgrees (m : Machine) : Prop :=
  ∀ q, m.quotaManager = some q → ∀ tenantId, q.kept tenantId = m.stored tenantId

/-- The entry changes both alike. For an update: a sum overflows and stops a build with overflow
    checks, or the manager is told and counts as the table does, or it is not told and the figures
    stay. -/
def ChangesAlike (m : Machine) (x : QuotaProposal × Env) : Prop :=
  match x.1 with
  | .setTenantQuota _ => True
  | .updateTenantUsage tenantId delta _ =>
    let use := m.stored tenantId
    m.quotaManager = none ∨ (d.overflowChecks ∧ use.Overflows delta) ∨
      (d.Tells ∧ wrapped 32 use.activeVms delta.vmCountDelta =
        VmResourceUsage.counted use.activeVms delta.vcpuDelta) ∨
      (¬ d.Tells ∧ use.plus delta = use)
  | .removeTenantQuota tenantId =>
    m.quotaManager = none ∨ d.Tells ∨ m.stored tenantId = {}

/-- What the runs keep: the figures agree, and the counts leave room for one more. -/
structure UsageKept (m : Machine) : Prop where
  agrees : m.UsageAgrees
  stored_lt : ∀ tenantId, (m.stored tenantId).activeVms < 2 ^ 31
  countsOne : ∀ q, m.quotaManager = some q → q.AllCountOne

structure Replaces (m m' : Machine) (tenantId : String) (inTable inMemory : VmResourceUsage) :
    Prop where
  stored : ∀ t, m'.stored t = if tenantId = t then inTable else m.stored t
  absent : m.quotaManager = none → m'.quotaManager = none
  kept : ∀ q, m.quotaManager = some q → ∃ q', m'.quotaManager = some q' ∧ q'.AllCountOne ∧
    ∀ t, q'.kept t = if tenantId = t then inMemory else q.kept t

variable {d} {m m' : Machine} {tenantId : String} {inTable inMemory : VmResourceUsage}

theorem Replaces.agrees_iff (h : Replaces m m' tenantId inTable inMemory) (hm : m.UsageAgrees) :
    m'.UsageAgrees ↔ m.quotaManager = none ∨ inTable = inMemory := by
  cases hq : m.quotaManager with
  | none =>
    refine iff_of_true ?_ (.inl rfl)
    intro q hq'
    rw [h.absent hq] at hq'
    cases hq'
  | some q =>
    obtain ⟨q', hq', -, hkept⟩ := h.kept q hq
    constructor
    · intro ha
      have hat := ha q' hq' tenantId
      rw [hkept, h.stored, if_pos rfl, if_pos rfl] at hat
      exact .inr hat.symm
    rintro (⟨⟨⟩⟩ | hsame)
    intro q'' hq'' t
    rw [hq'] at hq''
    cases hq''
    rw [hkept, h.stored, hm q hq t, hsame]

theorem Replaces.usageKept (h : Replaces m m' tenantId inTable inMemory) (hm : m.UsageKept)
    (hlt : inTable.activeVms < 2 ^ 31) (hsame : m.quotaManager = none ∨ inTable = inMemory) :
    m'.UsageKept := by
  refine ⟨(h.agrees_iff hm.agrees).2 hsame, ?_, ?_⟩
  · intro t
    rw [h.stored]
    split_ifs
    · exact hlt
    · exact hm.stored_lt t
  intro q' hq'
  cases hq : m.quotaManager with
  | none =>
    rw [h.absent hq] at hq'
    cases hq'
  | some q =>
    obtain ⟨q'', hq'', hone, -⟩ := h.kept q hq
    rw [hq'] at hq''
    cases hq''
    exact hone

theorem tellQuotaManager_told (hd : d.Tells)
    (chg : QuotaManager → Database → Except Failure (QuotaManager × Database)) :
    (m.tellQuotaManager d chg).1 =
      match m.quotaManager with
      | none => m
      | some q =>
        match chg q m.database with
        | .error _ => m
        | .ok (q, database) => { m with quotaManager := some q, database } := by
  simp only [tellQuotaManager, hd.1, hd.2, not_true_eq_false, if_false]
  cases m.quotaManager with
  | none => rfl
  | some q =>
    dsimp only
    cases chg q m.database <;> rfl

theorem stored_congr (h : m'.database.tenantUsage = m.database.tenantUsage) (t : String) :
    m'.stored t = m.stored t := by
  rw [stored, stored, h]

variable {db : Database} {chg : QuotaManager → Database → Except Failure (QuotaManager × Database)}

theorem replaces_told (hd : d.Tells) (hs : ∀ t, stored { m with database := db } t =
      if tenantId = t then inTable else m.stored t)
    (hc : ∀ q, m.quotaManager = some q → ∃ q' db', chg q db = .ok (q', db') ∧
      db'.tenantUsage = db.tenantUsage ∧ q'.AllCountOne ∧
      ∀ t, q'.kept t = if tenantId = t then inMemory else q.kept t) :
    Replaces m ({ m with database := db }.tellQuotaManager d chg).1 tenantId inTable
      inMemory := by
  rw [tellQuotaManager_told hd]
  cases hq : m.quotaManager with
  | none =>
    refine ⟨fun t => (stored_congr rfl t).trans (hs t), fun _ => rfl, ?_⟩
    intro q h
    rw [hq] at h
    cases h
  | some q =>
    obtain ⟨q', db', heq, hrows, hone, hkept⟩ := hc q hq
    simp only [heq]
    refine ⟨fun t => (stored_congr hrows t).trans (hs t), ?_, ?_⟩
    · intro h
      rw [hq] at h
      cases h
    intro q₀ hq₀
    rw [hq] at hq₀
    cases hq₀
    exact ⟨q', rfl, hone, hkept⟩

theorem replaces_untold (hm : m.UsageKept) (hd : ¬ d.Tells)
    (hs : ∀ t, stored { m with database := db } t =
      if tenantId = t then inTable else m.stored t) :
    Replaces m ({ m with database := db }.tellQuotaManager d chg).1 tenantId inTable
      (m.stored tenantId) := by
  rw [tellQuotaManager_of_not_told hd]
  refine ⟨hs, id, fun q hq => ⟨q, hq, hm.countsOne q hq, fun t => ?_⟩⟩
  split_ifs with ht
  · rw [← ht, hm.agrees q hq]
  · rfl

/-! ## What each entry replaces -/

theorem replaces_setTenantQuota (hm : m.UsageKept) (quota : TenantQuota) :
    Replaces m (m.applySetTenantQuota d quota).1 quota.tenantId (m.stored quota.tenantId)
      (m.stored quota.tenantId) := by
  have hs : ∀ t, stored { m with database := saveTenantQuota m.database quota } t =
      if quota.tenantId = t then m.stored quota.tenantId else m.stored t := by
    intro t
    split_ifs with ht
    · rw [ht]
      rfl
    · rfl
  by_cases hd : d.Tells
  · refine replaces_told hd hs fun q hq => ?_
    refine ⟨q.setTenantQuota quota, _, rfl, rfl, hm.countsOne q hq, fun t => ?_⟩
    split_ifs with ht
    · rw [← hm.agrees q hq, ht]
      rfl
    · rfl
  · exact replaces_untold hm hd hs

theorem replaces_removeTenantQuota (hm : m.UsageKept) (tid : String) :
    ∃ inMemory, Replaces m (m.applyRemoveTenantQuota d tid).1 tid {} inMemory ∧
      ((d.Tells ∧ inMemory = {}) ∨ (¬ d.Tells ∧ inMemory = m.stored tid)) := by
  by_cases hd : d.Tells
  · refine ⟨{}, replaces_told hd (stored_erase tid) fun q hq => ?_, .inl ⟨hd, rfl⟩⟩
    refine ⟨q.removeTenantQuota tid, _, rfl, rfl, ?_, QuotaManager.kept_removeTenantQuota _⟩
    intro t usage ht
    simp only [QuotaManager.removeTenantQuota, Table.get_erase] at ht
    split_ifs at ht
    exact hm.countsOne q hq t usage ht
  · exact ⟨_, replaces_untold hm hd (stored_erase tid), .inr ⟨hd, rfl⟩⟩

/-- An update whose sums fit adds the delta in the table, and in the memory of a manager
    that is told, which counts in its own way. -/
theorem replaces_updateTenantUsage (hm : m.UsageKept) (env : Env) {delta : ResourceUsageDelta}
    (hsums : ¬ (d.overflowChecks ∧ (m.stored tenantId).Overflows delta)) :
    ∃ inMemory, Replaces m (m.applyUpdateTenantUsage d env tenantId delta).1 tenantId
        ((m.stored tenantId).plus delta) inMemory ∧
      ((d.Tells ∧ inMemory = { (m.stored tenantId).plus delta with
        activeVms := VmResourceUsage.counted (m.stored tenantId).activeVms delta.vcpuDelta }) ∨
      (¬ d.Tells ∧ inMemory = m.stored tenantId)) := by
  obtain ⟨hc, hover, -⟩ | ⟨-, usage, hu, ht⟩ :=
    @updatedUsage_totals d m env tenantId delta
  · exact absurd ⟨hc, hover⟩ hsums
  have hs := fun t => @stored_insert m tenantId t usage
  rw [ht] at hs
  simp only [applyUpdateTenantUsage, hu]
  by_cases hd : d.Tells
  · refine ⟨_, replaces_told hd hs fun q hq => ?_, .inl ⟨hd, rfl⟩⟩
    have hsame := hm.agrees q hq tenantId
    obtain ⟨q', hq', hone, hkept⟩ := @QuotaManager.updateResourceUsage_kept q d.toPlatform tenantId
      delta (hm.countsOne q hq) (by rw [hsame]; exact hm.stored_lt tenantId) (by rwa [hsame])
      (env.now 5)
    rw [hsame] at hkept
    refine ⟨q', _, ?_, rfl, hone, hkept⟩
    simp only [hq', bind, Except.bind, pure, Except.pure]
  · exact ⟨_, replaces_untold hm hd hs, .inr ⟨hd, rfl⟩⟩

theorem replaces_refl (hm : m.UsageKept) (tid : String) :
    Replaces m m tid (m.stored tid) (m.stored tid) := by
  refine ⟨fun t => ?_, id, fun q hq => ⟨q, hq, hm.countsOne q hq, fun t => ?_⟩⟩
  · split_ifs with ht
    · rw [ht]
    · rfl
  · split_ifs with ht
    · rw [← ht, hm.agrees q hq]
    · rfl

/-- **What an entry replaces**, and that the condition on it says that this is the same in
    the table and in memory. -/
theorem quotaStep_replaces (hm : m.UsageKept) (x : QuotaProposal × Env) :
    ∃ tid inTable inMemory, Replaces m (m.quotaStep d x) tid inTable inMemory ∧
      inTable.activeVms < 2 ^ 31 ∧
      (m.ChangesAlike d x ↔ m.quotaManager = none ∨ inTable = inMemory) := by
  obtain ⟨p, env⟩ := x
  cases p with
  | setTenantQuota quota =>
    exact ⟨_, _, _, replaces_setTenantQuota hm quota, hm.stored_lt _,
      iff_of_true trivial (.inr rfl)⟩
  | removeTenantQuota tid =>
    obtain ⟨inMemory, hr, hmem⟩ := @replaces_removeTenantQuota d m hm tid
    refine ⟨tid, {}, inMemory, hr, Nat.two_pow_pos 31, ?_⟩
    simp only [ChangesAlike]
    rcases hmem with ⟨hd, rfl⟩ | ⟨hd, rfl⟩
    · simp [hd]
    · simp [hd, eq_comm]
  | updateTenantUsage tid delta oid =>
    by_cases hsums : d.overflowChecks ∧ (m.stored tid).Overflows delta
    · obtain ⟨-, -, failure, hf⟩ | ⟨hfits, -⟩ := @updatedUsage_totals d m env tid delta
      · have hsame : m.quotaStep d (.updateTenantUsage tid delta oid, env) = m := by
          simp only [quotaStep, QuotaProposal.data, applyOne, applyUpdateTenantUsage, hf, abort]
        rw [hsame]
        exact ⟨tid, _, _, replaces_refl hm tid, hm.stored_lt _,
          iff_of_true (.inr (.inl hsums)) (.inr rfl)⟩
      · exact absurd hsums hfits
    · obtain ⟨inMemory, hr, hmem⟩ :=
        @replaces_updateTenantUsage d m tid hm env delta hsums
      refine ⟨tid, _, inMemory, hr, VmResourceUsage.plus_activeVms_lt _ delta, ?_⟩
      simp only [ChangesAlike, hsums, false_or]
      rcases hmem with ⟨hd, rfl⟩ | ⟨hd, rfl⟩
      · simp [hd, VmResourceUsage.plus]
      · simp [hd]

theorem usageKept_quotaStep (m : Machine) (x : QuotaProposal × Env) (hm : m.UsageKept)
    (hx : m.ChangesAlike d x) : (m.quotaStep d x).UsageKept := by
  obtain ⟨tid, inTable, inMemory, hr, hlt, hiff⟩ := @quotaStep_replaces d m hm x
  exact hr.usageKept hm hlt (hiff.1 hx)

theorem not_usageAgrees_quotaStep (m : Machine) (x : QuotaProposal × Env) (hm : m.UsageKept)
    (hx : ¬ m.ChangesAlike d x) : ¬ (m.quotaStep d x).UsageAgrees := by
  obtain ⟨tenantId, inTable, inMemory, hr, -, hiff⟩ := @quotaStep_replaces d m hm x
  rwa [hr.agrees_iff hm.agrees, ← hiff]

/-- **When memory agrees with the table**: in every state of a run from a machine where the
    two agree, if and only if each entry changes them alike. -/
theorem usage_agrees_iff (d : Deployment) (m : Machine) (hm : m.UsageKept)
    (run : List (QuotaProposal × Env)) :
    (∀ s ∈ run.scanl (quotaStep d) m, s.UsageAgrees) ↔
      Run.Along (quotaStep d) (ChangesAlike d) m run :=
  Run.holds_iff_along usageKept_quotaStep (fun _ hs => hs.agrees) not_usageAgrees_quotaStep hm

def unusedNode : Machine := { Machine.new with quotaManager := some ⟨∅, ∅⟩ }

theorem usageKept_unusedNode : unusedNode.UsageKept := by
  refine ⟨?_, fun tid => ?_, ?_⟩
  · rintro q ⟨⟩ tid
    simp [QuotaManager.kept, stored, unusedNode, new]
  · simp [stored, unusedNode, new]
  · rintro q ⟨⟩ tid usage hu
    simp at hu

def creation (machines : ℤ) : QuotaProposal × Env :=
  (.updateTenantUsage "a" ⟨machines, 2 * machines, 512 * machines, 0, .create, 0⟩ 0, .still 0)

theorem usage_agrees_with_one_machine :
    (∀ s ∈ [creation 1, (.removeTenantQuota "a", .still 1)].scanl (quotaStep blockingNode)
      unusedNode, s.UsageAgrees) ∧
    (unusedNode.quotaStep blockingNode (creation 1)).stored "a" = ⟨1, 2, 512, 0, []⟩ := by
  have htells : blockingNode.Tells := ⟨rfl, rfl⟩
  refine ⟨(usage_agrees_iff blockingNode unusedNode usageKept_unusedNode _).2 ?_,
    by decide +kernel⟩
  exact ⟨.inr (.inr (.inl ⟨htells, by decide +kernel⟩)), .inr (.inl htells), trivial⟩

/-- **One delta, two counts**: an entry for two machines is two in the table and one in
    memory. -/
theorem two_machines_are_counted_as_one :
    ¬ ∀ (d : Deployment) (m : Machine), m.UsageKept → ∀ run : List (QuotaProposal × Env),
      ∀ s ∈ run.scanl (quotaStep d) m, s.UsageAgrees := by
  intro h
  have hagrees := h blockingNode unusedNode usageKept_unusedNode [creation 2] _
    (Run.foldl_mem_scanl unusedNode _)
  obtain ⟨q, hq, hkept⟩ : ∃ q,
      (unusedNode.quotaStep blockingNode (creation 2)).quotaManager = some q ∧
      (q.kept "a").activeVms = 1 := ⟨_, rfl, by decide +kernel⟩
  have hsame := congrArg VmResourceUsage.activeVms (hagrees q hq "a")
  rw [hkept] at hsame
  exact absurd hsame (by decide +kernel)

end Machine

end Blixard
