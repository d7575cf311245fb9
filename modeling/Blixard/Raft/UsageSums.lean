/-
  Is the recorded usage of a tenant the sum over its machines? (`resource_quotas.rs`,
  `quota_manager.rs`, `raft/state_machine.rs`.)

  A sum that does not fit into the signed type is recorded as zero, or panics, and the manager
  does not count a machine without vCPUs (`usage_exact_iff`).
-/
import Blixard.Raft.QuotaUsage
import Mathlib.Algebra.Order.BigOperators.Group.List

namespace Blixard

open List Platform VmResourceUsage

/-! ## Sums within the signed types -/

def Adds (w used : ℕ) (delta : ℤ) (total : ℕ) : Prop :=
  wrapped w used delta = total ∧ ¬ SumOverflows w used delta

theorem adds_of_sum {w used total : ℕ} {delta : ℤ} (hused : 2 * used < 2 ^ w)
    (htot : 2 * total < 2 ^ w) (hsum : (used : ℤ) + delta = total) : Adds w used delta total := by
  have hfits : ∀ n : ℕ, 2 * n < 2 ^ w → (n : ℤ).bmod (2 ^ w) = n := by
    intro n hn
    have hcast : ((2 ^ w : ℕ) : ℤ) = 2 ^ w := by push_cast; rfl
    exact Int.bmod_eq_of_le_mul_two (by omega) (by omega)
  unfold Adds wrapped SumOverflows
  rw [hfits used hused, hsum, hfits total htot]
  exact ⟨by omega, by simp⟩

theorem bmod_of_small {w n : ℕ} (hn : 2 * n < 2 ^ w) :
    (n : ℤ).bmod (2 ^ w) = n ∧ (-(n : ℤ)).bmod (2 ^ w) = -n := by
  have hcast : ((2 ^ w : ℕ) : ℤ) = 2 ^ w := by push_cast; rfl
  exact ⟨Int.bmod_eq_of_le_mul_two (by omega) (by omega),
    Int.bmod_eq_of_le_mul_two (by omega) (by omega)⟩

theorem adds_amount {w used n : ℕ} (h : 2 * (n + used) < 2 ^ w) :
    Adds w used ((n : ℤ).bmod (2 ^ w)) (n + used) := by
  rw [(bmod_of_small (by omega)).1]
  exact adds_of_sum (by omega) h (by omega)

theorem adds_neg_amount {w used n : ℕ} (h : 2 * (n + used) < 2 ^ w) :
    Adds w (n + used) ((-(n : ℤ)).bmod (2 ^ w)) used := by
  rw [(bmod_of_small (by omega)).2]
  exact adds_of_sum h (by omega) (by omega)

theorem Adds.applyDelta {w used total : ℕ} {delta : ℤ} (h : Adds w used delta total)
    (pf : Platform) : pf.applyDelta w used delta = .ok total := by
  rw [applyDelta_eq, if_neg fun hover => h.2 hover.2, h.1]

theorem applyDelta_lt {pf : Platform} {w used n : ℕ} {delta : ℤ}
    (h : pf.applyDelta w used delta = .ok n) : n < (2 ^ w + 1) / 2 := by
  rw [applyDelta_eq] at h
  split_ifs at h
  obtain rfl := Except.ok.inj h
  have hpos := Nat.two_pow_pos w
  have hlt := @Int.bmod_lt ((used : ℤ).bmod (2 ^ w) + delta) (2 ^ w) hpos
  unfold wrapped
  generalize 2 ^ w = k at hpos hlt ⊢
  omega

/-! ## Machines of tenants -/

structure TenantVm where
  tenantId : String
  nodeId : ℕ
  vcpus : ℕ
  memoryMb : ℕ
  diskGb : ℕ

namespace TenantVm

def created (vm : TenantVm) (now : ℤ) : ResourceUsageDelta :=
  ⟨1, (vm.vcpus : ℤ).bmod (2 ^ 32), (vm.memoryMb : ℤ).bmod (2 ^ 64), (vm.diskGb : ℤ).bmod (2 ^ 64),
    .create, now⟩

def deleted (vm : TenantVm) (now : ℤ) : ResourceUsageDelta :=
  ⟨-1, (-(vm.vcpus : ℤ)).bmod (2 ^ 32), (-(vm.memoryMb : ℤ)).bmod (2 ^ 64),
    (-(vm.diskGb : ℤ)).bmod (2 ^ 64), .delete, now⟩

def on (nodeId : ℕ) (vm : TenantVm) : ℕ := if vm.nodeId = nodeId then 1 else 0

def total (f : TenantVm → ℕ) (tenantId : String) (vms : List TenantVm) : ℕ :=
  ((vms.filter fun vm => vm.tenantId = tenantId).map f).sum

theorem total_cons (f : TenantVm → ℕ) (tid : String) (vm : TenantVm) (vms : List TenantVm) :
    total f tid (vm :: vms) = (if vm.tenantId = tid then f vm else 0) + total f tid vms := by
  unfold total
  by_cases h : vm.tenantId = tid <;> simp [h]

theorem total_of_get (f : TenantVm → ℕ) (tid : String) {vms : List TenantVm} {i : ℕ}
    {vm : TenantVm} (h : vms[i]? = some vm) : total f tid vms =
      (if vm.tenantId = tid then f vm else 0) + total f tid (vms.eraseIdx i) := by
  obtain ⟨hi, rfl⟩ := List.getElem?_eq_some_iff.1 h
  rw [← total_cons]
  exact (((List.getElem_cons_eraseIdx_perm hi).symm.filter _).map f).sum_eq

theorem total_le_total {f g : TenantVm → ℕ} (tid : String) {vms : List TenantVm}
    (h : ∀ vm ∈ vms, f vm ≤ g vm) : total f tid vms ≤ total g tid vms :=
  sum_le_sum fun vm hvm => h vm (mem_of_mem_filter hvm)

def figures (tenantId : String) (vms : List TenantVm) : VmResourceUsage where
  activeVms := total (fun _ => 1) tenantId vms
  usedVcpus := total vcpus tenantId vms
  usedMemoryMb := total memoryMb tenantId vms
  usedDiskGb := total diskGb tenantId vms

/-- The sums over these machines fit into the signed types, and each has a vCPU, so that
    their number fits as well. -/
structure Countable (vms : List TenantVm) : Prop where
  vcpus : ∀ tenantId, total TenantVm.vcpus tenantId vms < 2 ^ 31
  memory : ∀ tenantId, total TenantVm.memoryMb tenantId vms < 2 ^ 63
  disk : ∀ tenantId, total TenantVm.diskGb tenantId vms < 2 ^ 63
  positive : ∀ vm ∈ vms, 0 < vm.vcpus

theorem Countable.active {vms : List TenantVm} (h : Countable vms) (tid : String) :
    total (fun _ => 1) tid vms < 2 ^ 31 :=
  (total_le_total tid fun vm hvm => h.positive vm hvm).trans_lt (h.vcpus tid)

theorem Countable.eraseIdx {vms : List TenantVm} (h : Countable vms) (i : ℕ) :
    Countable (vms.eraseIdx i) := by
  cases hi : vms[i]? with
  | none => rwa [eraseIdx_of_length_le (getElem?_eq_none_iff.1 hi)]
  | some vm =>
    have hle (f : TenantVm → ℕ) (tid : String) :
        total f tid (vms.eraseIdx i) ≤ total f tid vms :=
      (total_of_get f tid hi).ge.trans' (Nat.le_add_left _ _)
    exact ⟨fun t => (hle _ t).trans_lt (h.vcpus t), fun t => (hle _ t).trans_lt (h.memory t),
      fun t => (hle _ t).trans_lt (h.disk t),
      fun vm hvm => h.positive vm (mem_of_mem_eraseIdx hvm)⟩

/-- A change leads from the figures of some machines to those of others. -/
structure Moves (delta : ResourceUsageDelta) (use use' : VmResourceUsage) : Prop where
  active : Adds 32 use.activeVms delta.vmCountDelta use'.activeVms
  vcpus : Adds 32 use.usedVcpus delta.vcpuDelta use'.usedVcpus
  memory : Adds 64 use.usedMemoryMb delta.memoryMbDelta use'.usedMemoryMb
  disk : Adds 64 use.usedDiskGb delta.diskGbDelta use'.usedDiskGb

theorem moves_created {vm : TenantVm} {vms : List TenantVm} (h : Countable (vm :: vms)) (now : ℤ) :
    Moves (vm.created now) (figures vm.tenantId vms) (figures vm.tenantId (vm :: vms)) := by
  have hact := h.active vm.tenantId
  have hv := h.vcpus vm.tenantId
  have hmem := h.memory vm.tenantId
  have hdisk := h.disk vm.tenantId
  rw [total_cons, if_pos rfl] at hact hv hmem hdisk
  refine ⟨?_, ?_, ?_, ?_⟩ <;> simp only [figures, created, total_cons, if_true]
  · exact adds_of_sum (by omega) (by omega) (by omega)
  · exact adds_amount (by omega)
  · exact adds_amount (by omega)
  · exact adds_amount (by omega)

theorem moves_deleted {vm : TenantVm} {vms : List TenantVm} {i : ℕ} (h : Countable vms)
    (hi : vms[i]? = some vm) (now : ℤ) :
    Moves (vm.deleted now) (figures vm.tenantId vms) (figures vm.tenantId (vms.eraseIdx i)) := by
  have hact := h.active vm.tenantId
  have hv := h.vcpus vm.tenantId
  have hmem := h.memory vm.tenantId
  have hdisk := h.disk vm.tenantId
  rw [total_of_get _ _ hi, if_pos rfl] at hact hv hmem hdisk
  refine ⟨?_, ?_, ?_, ?_⟩ <;> simp only [figures, deleted, total_of_get _ vm.tenantId hi, if_true]
  · exact adds_of_sum (by omega) (by omega) (by omega)
  · exact adds_neg_amount (by omega)
  · exact adds_neg_amount (by omega)
  · exact adds_neg_amount (by omega)

end TenantVm

/-! ## Counting in memory -/

namespace QuotaManager

open TenantVm

theorem lookup_setCount_of_ne (counts : List (ℕ × ℕ)) {nid node : ℕ} (n : ℕ)
    (h : nid ≠ node) : (setCount counts nid n).lookup node = counts.lookup node := by
  have hnew : (node == nid) = false := by simpa using h.symm
  unfold setCount
  split_ifs with hsome
  · clear hsome
    induction counts with
    | nil => rfl
    | cons c counts ih =>
      obtain ⟨k, v⟩ := c
      simp only [map_cons]
      by_cases hk : k = nid
      · simp only [hk, if_true, lookup_cons, hnew, ih]
      · rw [if_neg hk, lookup_cons, lookup_cons, ih]
  · rw [lookup_append]
    simp [lookup_cons, hnew]

theorem lookup_without_of_ne (counts : List (ℕ × ℕ)) {nid node : ℕ} (h : nid ≠ node) :
    (counts.filter fun c => c.1 ≠ nid).lookup node = counts.lookup node := by
  induction counts with
  | nil => rfl
  | cons c counts ih =>
    obtain ⟨k, v⟩ := c
    by_cases hk : k = nid
    · have hnew : (node == k) = false := by simpa [hk] using h.symm
      rw [filter_cons_of_neg (by simp [hk]), ih, lookup_cons, hnew]
    · rw [filter_cons_of_pos (by simpa using hk), lookup_cons, lookup_cons, ih]

def entry (n : ℕ) : Option ℕ := if n = 0 then none else some n

theorem getD_entry (n : ℕ) : (entry n).getD 0 = n := by
  unfold entry
  split_ifs with h
  · exact h.symm
  · rfl

/-- The usage in memory is that of a tenant with these machines. -/
structure CountsRight (tenantId : String) (vms : List TenantVm) (use : VmResourceUsage) :
    Prop where
  totals : use.totals = TenantVm.figures tenantId vms
  perNode : ∀ node, use.vmsPerNode.lookup node = entry (total (TenantVm.on node) tenantId vms)

variable {pf : Platform} {use : VmResourceUsage} {vms : List TenantVm} {tenantId : String}
  {vm : TenantVm}

theorem countVm_up {vcpus : ℤ} {nid : ℕ} (hv : 0 < vcpus) (hact : use.activeVms < 2 ^ 31)
    (hnode : (use.vmsPerNode.lookup nid).getD 0 ≤ use.activeVms) :
    countVm pf use vcpus nid = ({ use with
      activeVms := use.activeVms + 1
      vmsPerNode := setCount use.vmsPerNode nid
        ((use.vmsPerNode.lookup nid).getD 0 + 1) }, .ok ()) := by
  have hadd : ∀ n ≤ use.activeVms, pf.addUnsigned 32 n 1 = .ok (n + 1) := by
    intro n hn
    exact pf.addUnsigned_of_lt (by omega)
  simp only [countVm, hv, if_true, hadd _ le_rfl, hadd _ hnode]

theorem countVm_totals (vcpus : ℤ) (nid : ℕ) :
    (countVm pf use vcpus nid).1.usedVcpus = use.usedVcpus ∧
      (countVm pf use vcpus nid).1.usedMemoryMb = use.usedMemoryMb ∧
      (countVm pf use vcpus nid).1.usedDiskGb = use.usedDiskGb := by
  fun_cases countVm pf use vcpus nid <;> exact ⟨rfl, rfl, rfl⟩

theorem lookup_up {counts : List (ℕ × ℕ)} {nid n : ℕ} (hc : counts.lookup nid = entry n) :
    (setCount counts nid ((counts.lookup nid).getD 0 + 1)).lookup nid = entry (1 + n) := by
  rw [lookup_setCount, hc, getD_entry, entry, if_neg (by omega), Nat.add_comm]

def countDown (counts : List (ℕ × ℕ)) (nodeId : ℕ) : List (ℕ × ℕ) :=
  match counts.lookup nodeId with
  | none => counts
  | some count =>
    if count - 1 = 0 then counts.filter fun c => c.1 ≠ nodeId
    else setCount counts nodeId (count - 1)

theorem countVm_down {vcpus : ℤ} {nid : ℕ} (hv : vcpus < 0) :
    countVm pf use vcpus nid = ({ use with
      activeVms := use.activeVms - 1
      vmsPerNode := countDown use.vmsPerNode nid }, .ok ()) := by
  unfold countVm
  exact (if_neg hv.not_gt).trans (if_pos hv)

theorem lookup_countDown {counts : List (ℕ × ℕ)} {nid n : ℕ}
    (hc : counts.lookup nid = entry (1 + n)) : (countDown counts nid).lookup nid = entry n := by
  rw [entry, if_neg (by omega)] at hc
  unfold countDown
  rw [hc]
  dsimp only
  by_cases hn : n = 0
  · rw [if_pos (by omega), lookup_without, entry, if_pos hn]
  · rw [if_neg (by omega), lookup_setCount, entry, if_neg hn]
    congr 1
    omega

theorem lookup_countDown_of_ne {counts : List (ℕ × ℕ)} {nid node : ℕ} (h : nid ≠ node) :
    (countDown counts nid).lookup node = counts.lookup node := by
  unfold countDown
  split
  · rfl
  · split_ifs
    · exact lookup_without_of_ne counts h
    · exact lookup_setCount_of_ne counts _ h

/-! ## One machine more or less -/

theorem CountsRight.nodeCount_le (h : CountsRight tenantId vms use) (node : ℕ) :
    (use.vmsPerNode.lookup node).getD 0 ≤ use.activeVms := by
  have hact : use.activeVms = total (fun _ => 1) tenantId vms :=
    congrArg activeVms h.totals
  rw [h.perNode, getD_entry, hact]
  refine total_le_total tenantId fun vm _ => ?_
  unfold TenantVm.on
  split_ifs <;> omega

theorem updateVmUsage_of_moves {delta : ResourceUsageDelta} {use' : VmResourceUsage}
    (h : Moves delta use.totals use') (nodeId : ℕ) :
    updateVmUsage pf use delta.vcpuDelta delta.memoryMbDelta delta.diskGbDelta nodeId =
      countVm pf { use with
        usedVcpus := use'.usedVcpus
        usedMemoryMb := use'.usedMemoryMb
        usedDiskGb := use'.usedDiskGb } delta.vcpuDelta nodeId := by
  have hv := h.vcpus.applyDelta pf
  have hm := h.memory.applyDelta pf
  have hdisk := h.disk.applyDelta pf
  simp only [totals] at hv hm hdisk
  simp only [updateVmUsage, hv, hm, hdisk]

theorem CountsRight.activeVms_eq (h : CountsRight tenantId vms use) :
    use.activeVms = total (fun _ => 1) tenantId vms :=
  congrArg activeVms h.totals

theorem CountsRight.created (h : CountsRight vm.tenantId vms use) (hpre : Countable vms)
    (ha : Countable (vm :: vms)) (now : ℤ) :
    ∃ use', updateVmUsage pf use (vm.created now).vcpuDelta (vm.created now).memoryMbDelta
        (vm.created now).diskGbDelta vm.nodeId = (use', .ok ()) ∧
      CountsRight vm.tenantId (vm :: vms) use' := by
  have hsign : 0 < (vm.created now).vcpuDelta := by
    have hpos := ha.positive vm List.mem_cons_self
    have hlt := ha.vcpus vm.tenantId
    rw [total_cons, if_pos rfl] at hlt
    simp only [TenantVm.created]
    rw [(bmod_of_small (by omega)).1]
    omega
  have hm := moves_created ha now
  rw [← h.totals] at hm
  have hact : use.activeVms < 2 ^ 31 := h.activeVms_eq.trans_lt (hpre.active _)
  rw [updateVmUsage_of_moves hm]
  refine ⟨_, countVm_up hsign hact (h.nodeCount_le vm.nodeId), ?_, fun node => ?_⟩
  · simp only [VmResourceUsage.totals, TenantVm.figures, total_cons, if_true, h.activeVms_eq,
      Nat.add_comm]
  rw [total_cons, if_pos rfl]
  by_cases hnode : vm.nodeId = node
  · subst hnode
    rw [TenantVm.on, if_pos rfl]
    exact lookup_up (h.perNode vm.nodeId)
  · rw [TenantVm.on, if_neg hnode, Nat.zero_add]
    exact (lookup_setCount_of_ne _ _ hnode).trans (h.perNode node)

theorem CountsRight.deleted (h : CountsRight vm.tenantId vms use) (hpre : Countable vms)
    {i : ℕ} (hi : vms[i]? = some vm) (now : ℤ) :
    ∃ use', updateVmUsage pf use (vm.deleted now).vcpuDelta (vm.deleted now).memoryMbDelta
        (vm.deleted now).diskGbDelta vm.nodeId = (use', .ok ()) ∧
      CountsRight vm.tenantId (vms.eraseIdx i) use' := by
  have hsign : (vm.deleted now).vcpuDelta < 0 := by
    have hpos := hpre.positive vm (List.mem_of_getElem? hi)
    have hlt := hpre.vcpus vm.tenantId
    rw [total_of_get _ _ hi, if_pos rfl] at hlt
    simp only [TenantVm.deleted]
    rw [(bmod_of_small (by omega)).2]
    omega
  have hm := moves_deleted hpre hi now
  rw [← h.totals] at hm
  rw [updateVmUsage_of_moves hm, countVm_down hsign]
  refine ⟨_, rfl, ?_, fun node => ?_⟩
  · simp only [VmResourceUsage.totals, TenantVm.figures, h.activeVms_eq,
      total_of_get (fun _ => 1) vm.tenantId hi, if_true, Nat.add_sub_cancel_left]
  have hc := h.perNode node
  rw [total_of_get _ _ hi, if_pos rfl] at hc
  by_cases hnode : vm.nodeId = node
  · subst hnode
    rw [TenantVm.on, if_pos rfl] at hc
    exact lookup_countDown hc
  · rw [TenantVm.on, if_neg hnode, Nat.zero_add] at hc
    exact (lookup_countDown_of_ne hnode).trans hc

theorem updateVmUsage_lt (hc : use.usedVcpus < 2 ^ 31) (hmem : use.usedMemoryMb < 2 ^ 63)
    (hdisk : use.usedDiskGb < 2 ^ 63) (vcpus mem diskGb : ℤ) (nid : ℕ) :
    (updateVmUsage pf use vcpus mem diskGb nid).1.usedVcpus < 2 ^ 31 ∧
      (updateVmUsage pf use vcpus mem diskGb nid).1.usedMemoryMb < 2 ^ 63 ∧
      (updateVmUsage pf use vcpus mem diskGb nid).1.usedDiskGb < 2 ^ 63 := by
  fun_cases updateVmUsage pf use vcpus mem diskGb nid with
  | case1 => exact ⟨hc, hmem, hdisk⟩
  | case2 usedVcpus hv => exact ⟨applyDelta_lt hv, hmem, hdisk⟩
  | case3 usedVcpus hv use' usedMemoryMb hm =>
    exact ⟨applyDelta_lt hv, applyDelta_lt hm, hdisk⟩
  | case4 usedVcpus hv use' usedMemoryMb hm use'' usedDiskGb hd =>
    obtain ⟨hsame₁, hsame₂, hsame₃⟩ := @countVm_totals pf
      { use with usedVcpus, usedMemoryMb, usedDiskGb } vcpus nid
    rw [hsame₁, hsame₂, hsame₃]
    exact ⟨applyDelta_lt hv, applyDelta_lt hm, applyDelta_lt hd⟩

theorem updateVmUsage_activeVms (mem diskGb : ℤ) (nid : ℕ) :
    (updateVmUsage pf use 0 mem diskGb nid).1.activeVms = use.activeVms := by
  fun_cases updateVmUsage pf use 0 mem diskGb nid <;> rfl

end QuotaManager

/-! ## Changes of the table -/

namespace Machine

open TenantVm

variable {d : Deployment} {m : Machine}

theorem stored_applyUpdateTenantUsage {delta : ResourceUsageDelta} {tid : String}
    {use' : VmResourceUsage} (hm : Moves delta (m.stored tid) use')
    (hp : use'.vmsPerNode = []) (env : Env) (t : String) :
    (m.applyUpdateTenantUsage d env tid delta).1.stored t =
      if tid = t then use' else m.stored t := by
  have hfits : ¬ (d.overflowChecks ∧ (m.stored tid).Overflows delta) := by
    rintro ⟨-, h | h | h | h⟩
    · exact hm.active.2 h
    · exact hm.vcpus.2 h
    · exact hm.memory.2 h
    · exact hm.disk.2 h
  have hplus : (m.stored tid).plus delta = use' := by
    obtain ⟨activeVms, usedVcpus, mem, usedDiskGb, vmsPerNode⟩ := use'
    obtain rfl : vmsPerNode = [] := hp
    simp only [plus, hm.active.1, hm.vcpus.1, hm.memory.1,
      hm.disk.1]
  obtain ⟨hk, hover, -⟩ | ⟨-, usage, hu, ht⟩ :=
    @updatedUsage_totals d m env tid delta
  · exact absurd ⟨hk, hover⟩ hfits
  rw [hplus] at ht
  rw [← ht, ← stored_insert]
  unfold applyUpdateTenantUsage
  rw [hu]
  -- telling the manager does not write to the table
  refine stored_congr ?_ t
  dsimp only
  obtain ⟨res, htold⟩ | ⟨q, q', db, hc, htold⟩ := tellQuotaManager_cases d
    { m with database := { m.database with
        tenantUsage := m.database.tenantUsage.insert tid (.value usage) } }
    fun q db => do
      let q ← q.updateResourceUsage d.toPlatform tid delta.vcpuDelta delta.memoryMbDelta
        delta.diskGbDelta 1 (env.now 5)
      return (q, db)
  · rw [htold]
  · obtain ⟨_, -, hsame⟩ := bind_eq_ok hc
    cases hsame
    rw [htold]

end Machine

/-! ## Histories -/

/-- A quota manager, whether a panic has poisoned the lock of its usage, a state machine with
    the table, and the machines that live. -/
structure UsageBooks where
  manager : QuotaManager
  poisoned : Bool
  machine : Machine
  live : List TenantVm

inductive VmEvent where
  | create (vm : TenantVm) (env : Env) (now : ℤ)
  | delete (i : ℕ) (env : Env) (now : ℤ)

namespace UsageBooks

open TenantVm QuotaManager

variable (d : Deployment)

def start (quotas : Table String TenantQuota) (m : Machine) : UsageBooks where
  manager := ⟨quotas, ∅⟩
  poisoned := false
  machine := { m with database := { m.database with tenantUsage := ∅ } }
  live := []

/-- `update_resource_usage`: with a poisoned lock it fails, and a panic poisons the lock. -/
def record (manager : QuotaManager) (vm : TenantVm) (delta : ResourceUsageDelta) (now : ℤ) :
    QuotaManager × Bool :=
  let usage := manager.getTenantUsage vm.tenantId now
  let (vmUsage, result) := updateVmUsage d.toPlatform usage.vmUsage delta.vcpuDelta
    delta.memoryMbDelta delta.diskGbDelta vm.nodeId
  let usage :=
    match result with
    | .ok () => { usage with vmUsage, updatedAt := now }
    | .error _ => { usage with vmUsage }
  ({ manager with usage := manager.usage.insert vm.tenantId usage }, result.isOk = false)

def tell (s : UsageBooks) (vm : TenantVm) (delta : ResourceUsageDelta) (env : Env) (now : ℤ) :
    UsageBooks :=
  let machine := (s.machine.applyUpdateTenantUsage d env vm.tenantId delta).1
  if s.poisoned then { s with machine }
  else
    let (manager, poisoned) := record d s.manager vm delta now
    { s with manager, poisoned, machine }

def Fits (vm : TenantVm) (live : List TenantVm) : Prop :=
  total vcpus vm.tenantId (vm :: live) < 2 ^ 32 ∧
    total memoryMb vm.tenantId (vm :: live) < 2 ^ 64 ∧
    total diskGb vm.tenantId (vm :: live) < 2 ^ 64

instance (vm : TenantVm) (live : List TenantVm) : Decidable (Fits vm live) := instDecidableAnd

/-- One event; a machine whose amounts do not fit into the sums is not created. -/
def step (s : UsageBooks) : VmEvent → UsageBooks
  | .create vm env now =>
    if Fits vm s.live then { s.tell d vm (vm.created now) env now with live := vm :: s.live } else s
  | .delete i env now =>
    match s.live[i]? with
    | none => s
    | some vm => { s.tell d vm (vm.deleted now) env now with live := s.live.eraseIdx i }

def use (s : UsageBooks) (tenantId : String) : VmResourceUsage :=
  (s.manager.usage[tenantId]?.map TenantUsage.vmUsage).getD {}

/-- Memory and table have the sums over the machines that live. -/
def Exact (s : UsageBooks) : Prop :=
  ∀ tenantId, CountsRight tenantId s.live (s.use tenantId) ∧
    s.machine.stored tenantId = TenantVm.figures tenantId s.live

/-- A machine that is created has a vCPU, and the sums with it fit into the signed types. -/
def FitsSigned (s : UsageBooks) : VmEvent → Prop
  | .create vm _ _ => Fits vm s.live →
    0 < vm.vcpus ∧ total vcpus vm.tenantId (vm :: s.live) < 2 ^ 31 ∧
      total memoryMb vm.tenantId (vm :: s.live) < 2 ^ 63 ∧
      total diskGb vm.tenantId (vm :: s.live) < 2 ^ 63
  | .delete _ _ _ => True

variable {d} {s : UsageBooks} {vm : TenantVm} {delta : ResourceUsageDelta} {env : Env} {now : ℤ}

theorem getTenantUsage_vmUsage (s : UsageBooks) (tenantId : String) (now : ℤ) :
    (s.manager.getTenantUsage tenantId now).vmUsage = s.use tenantId := by
  unfold QuotaManager.getTenantUsage use
  cases s.manager.usage[tenantId]? <;> rfl

theorem use_tell (hlock : s.poisoned = false) (t : String) : (s.tell d vm delta env now).use t =
      if vm.tenantId = t then
        (updateVmUsage d.toPlatform (s.use vm.tenantId) delta.vcpuDelta delta.memoryMbDelta
          delta.diskGbDelta vm.nodeId).1
      else s.use t := by
  simp only [tell, record, hlock, Bool.false_eq_true, if_false, getTenantUsage_vmUsage]
  generalize updateVmUsage d.toPlatform (s.use vm.tenantId) delta.vcpuDelta delta.memoryMbDelta
    delta.diskGbDelta vm.nodeId = updated
  simp only [use, Table.get_insert]
  split_ifs
  · rcases updated with ⟨use', fail | ⟨⟩⟩ <;> rfl
  · rfl

theorem poisoned_tell {use' : VmResourceUsage} (hlock : s.poisoned = false)
    (hok : updateVmUsage d.toPlatform (s.use vm.tenantId) delta.vcpuDelta delta.memoryMbDelta
      delta.diskGbDelta vm.nodeId = (use', .ok ())) :
    (s.tell d vm delta env now).poisoned = false := by
  simp only [tell, record, hlock, Bool.false_eq_true, if_false, getTenantUsage_vmUsage, hok]
  rfl

theorem machine_tell : (s.tell d vm delta env now).machine =
      (s.machine.applyUpdateTenantUsage d env vm.tenantId delta).1 := by
  unfold tell
  split_ifs <;> rfl

structure Kept (s : UsageBooks) : Prop where
  exact : s.Exact
  countable : Countable s.live
  unlocked : s.poisoned = false

theorem countable_cons {vms : List TenantVm} (h : Countable vms) (hpos : 0 < vm.vcpus)
    (hv : total vcpus vm.tenantId (vm :: vms) < 2 ^ 31)
    (hmem : total memoryMb vm.tenantId (vm :: vms) < 2 ^ 63)
    (hdisk : total diskGb vm.tenantId (vm :: vms) < 2 ^ 63) : Countable (vm :: vms) := by
  have ho (f : TenantVm → ℕ) {t : String} (ht : vm.tenantId ≠ t) :
      total f t (vm :: vms) = total f t vms := by
    rw [total_cons, if_neg ht, Nat.zero_add]
  refine ⟨fun t => ?_, fun t => ?_, fun t => ?_, forall_mem_cons.2 ⟨hpos, h.positive⟩⟩ <;>
    by_cases ht : vm.tenantId = t
  · exact ht ▸ hv
  · exact (ho _ ht).trans_lt (h.vcpus t)
  · exact ht ▸ hmem
  · exact (ho _ ht).trans_lt (h.memory t)
  · exact ht ▸ hdisk
  · exact (ho _ ht).trans_lt (h.disk t)

theorem Kept.tell (h : s.Kept) {vms : List TenantVm} (hc : Countable vms) {use' : VmResourceUsage}
    (hmem : updateVmUsage d.toPlatform (s.use vm.tenantId) delta.vcpuDelta delta.memoryMbDelta
      delta.diskGbDelta vm.nodeId = (use', .ok ())) (hr : CountsRight vm.tenantId vms use')
    (hm : Moves delta (TenantVm.figures vm.tenantId s.live) (TenantVm.figures vm.tenantId vms))
    (ho : ∀ t f, vm.tenantId ≠ t → total f t vms = total f t s.live) :
    { s.tell d vm delta env now with live := vms }.Kept := by
  refine ⟨fun t => ?_, hc, poisoned_tell h.unlocked hmem⟩
  have huse := @use_tell d s vm delta env now h.unlocked t
  rw [← (h.exact vm.tenantId).2] at hm
  have hs := @Machine.stored_applyUpdateTenantUsage d s.machine delta vm.tenantId _ hm rfl
    env t
  by_cases ht : vm.tenantId = t
  · subst ht
    rw [if_pos rfl, hmem] at huse
    rw [if_pos rfl] at hs
    refine ⟨?_, ?_⟩
    · show CountsRight vm.tenantId vms ((s.tell d vm delta env now).use vm.tenantId)
      rw [huse]
      exact hr
    · show (s.tell d vm delta env now).machine.stored vm.tenantId = TenantVm.figures vm.tenantId vms
      rw [machine_tell, hs]
  · rw [if_neg ht] at huse hs
    obtain ⟨hn, hf⟩ := h.exact t
    have hsame : TenantVm.figures t vms = TenantVm.figures t s.live := by
      simp only [TenantVm.figures, ho t _ ht]
    refine ⟨⟨?_, fun node => ?_⟩, ?_⟩
    · show ((s.tell d vm delta env now).use t).totals = TenantVm.figures t vms
      rw [huse, hsame]
      exact hn.totals
    · show ((s.tell d vm delta env now).use t).vmsPerNode.lookup node = entry (total _ t vms)
      rw [huse, ho t _ ht]
      exact hn.perNode node
    · show (s.tell d vm delta env now).machine.stored t = TenantVm.figures t vms
      rw [machine_tell, hs, hsame]
      exact hf

theorem kept_step (s : UsageBooks) (e : VmEvent) (h : s.Kept) (he : s.FitsSigned e) :
    (s.step d e).Kept := by
  cases e with
  | create vm env now =>
    simp only [step]
    split_ifs with hfits
    · obtain ⟨hpos, hv, hmem, hdisk⟩ := he hfits
      have hc := countable_cons h.countable hpos hv hmem hdisk
      obtain ⟨use', hupd, hr⟩ :=
        @CountsRight.created d.toPlatform _ _ _ (h.exact vm.tenantId).1 h.countable hc now
      refine h.tell hc hupd hr (moves_created hc now) fun t f ht => ?_
      rw [total_cons, if_neg ht, Nat.zero_add]
    · exact h
  | delete i env now =>
    simp only [step]
    cases hi : s.live[i]? with
    | none => exact h
    | some vm =>
      obtain ⟨use', hupd, hr⟩ :=
        @CountsRight.deleted d.toPlatform _ _ _ (h.exact vm.tenantId).1 h.countable i hi now
      refine h.tell (h.countable.eraseIdx i) hupd hr (moves_deleted h.countable hi now)
        fun t f ht => ?_
      rw [total_of_get f t hi, if_neg ht, Nat.zero_add]

/-- If the books are exact after a creation, the sums fit, since nothing larger can be
    recorded, and the machine was counted. -/
theorem not_exact_step (s : UsageBooks) (e : VmEvent) (h : s.Kept) (he : ¬ s.FitsSigned e) :
    ¬ (s.step d e).Exact := by
  intro hx
  cases e with
  | delete i env now => exact he trivial
  | create vm env now =>
    refine he fun hfits => ?_
    simp only [step, if_pos hfits] at hx
    obtain ⟨hr, -⟩ := hx vm.tenantId
    have huse : ({ s.tell d vm (vm.created now) env now with live := vm :: s.live } :
        UsageBooks).use vm.tenantId = _ := @use_tell d s vm (vm.created now) env now h.unlocked _
    rw [huse, if_pos rfl] at hr
    have hpre := (h.exact vm.tenantId).1
    have hlt := @updateVmUsage_lt d.toPlatform (s.use vm.tenantId)
      ((congrArg usedVcpus hpre.totals).trans_lt (h.countable.vcpus _))
      ((congrArg usedMemoryMb hpre.totals).trans_lt (h.countable.memory _))
      ((congrArg usedDiskGb hpre.totals).trans_lt (h.countable.disk _))
      (vm.created now).vcpuDelta (vm.created now).memoryMbDelta (vm.created now).diskGbDelta
      vm.nodeId
    refine ⟨?_, ?_, ?_, ?_⟩
    · by_contra hzero
      have hnone : (vm.created now).vcpuDelta = 0 := by
        rw [created, Nat.eq_zero_of_not_pos hzero]
        rfl
      have hact := hr.activeVms_eq
      rw [hnone, updateVmUsage_activeVms, hpre.activeVms_eq, total_cons, if_pos rfl] at hact
      omega
    · exact (congrArg usedVcpus hr.totals).ge.trans_lt hlt.1
    · exact (congrArg usedMemoryMb hr.totals).ge.trans_lt hlt.2.1
    · exact (congrArg usedDiskGb hr.totals).ge.trans_lt hlt.2.2

theorem kept_start (quotas : Table String TenantQuota) (m : Machine) : (start quotas m).Kept := by
  refine ⟨fun t => ⟨⟨?_, fun node => ?_⟩, ?_⟩, ⟨?_, ?_, ?_, nofun⟩, rfl⟩
  · simp [start, use, totals, TenantVm.figures, total]
  · simp [start, use, total, entry]
  · simp [start, Machine.stored, TenantVm.figures, total]
  all_goals
    intro t
    simp [start, total]

/-- **When the usage is exact**, in memory and in the table: exactly if each machine that is created
    has a vCPU and keeps the sums within the signed types. -/
theorem usage_exact_iff (d : Deployment) (quotas : Table String TenantQuota) (m : Machine)
    (events : List VmEvent) :
    (∀ s ∈ events.scanl (step d) (start quotas m), s.Exact) ↔
      Run.Along (step d) FitsSigned (start quotas m) events :=
  Run.holds_iff_along kept_step (fun _ h => h.exact) not_exact_step (kept_start quotas m)

def largeVm : TenantVm := ⟨"acme", 1, 2 ^ 30, 1024, 10⟩

/-- Two machines whose vCPUs fit into the field together: none are recorded. -/
theorem large_sum_is_lost :
    ¬ ∀ (d : Deployment) (quotas : Table String TenantQuota) (m : Machine)
      (events : List VmEvent), ∀ s ∈ events.scanl (step d) (start quotas m), s.Exact := by
  intro h
  have hlast := h .raftManager ∅ .new
    [.create largeVm (.still 0) 0, .create largeVm (.still 1) 1] _ (Run.foldl_mem_scanl _ _) "acme"
  have hvcpus := congrArg VmResourceUsage.usedVcpus hlast.1.totals
  revert hvcpus
  decide +kernel

end UsageBooks

end Blixard
