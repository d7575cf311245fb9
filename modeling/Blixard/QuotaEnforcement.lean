/-
  Does the quota check keep a tenant within its limits? (`quota_manager.rs`.)

  Check and update take the lock each for itself.  The usage stays within the limits if no update of
  a tenant comes between the check and the update of one of its requests
  (`withinLimits_of_undisturbed`).
-/
import Blixard.Lib.Run
import Blixard.Quota

namespace Blixard

open Platform

namespace QuotaManager

/-! ## What a passed check promises -/

variable {pf : Platform} {quota : TenantQuota} {use : VmResourceUsage} {request : ResourceRequest}

theorem orElse_ok_none {a b : Except Failure (Option QuotaViolation)} :
    orElse a b = .ok none ↔ a = .ok none ∧ b = .ok none := by
  rcases a with failure | (_ | v)
  · simp [orElse, bind, Except.bind]
  · simp [orElse, bind, Except.bind]
  · simp [orElse, bind, Except.bind, pure, Except.pure]

theorem checkTotal_ok_none {w limit cur req : ℕ} {violation : ℕ → ℕ → ℕ → QuotaViolation}
    (h : checkTotal pf w limit cur req violation = .ok none) : (cur + req) % 2 ^ w ≤ limit := by
  obtain ⟨total, htot, h⟩ := bind_eq_ok h
  rw [(addUnsigned_eq_ok.1 htot).1]
  by_contra hlt
  rw [if_pos (Nat.lt_of_not_le hlt)] at h
  cases h

/-- A request that passes has room for one more machine, and its amounts added to the use
    are within the limits, in the machine's arithmetic. -/
theorem checkLimits_ok_none (he : quota.enabled)
    (h : checkLimits pf quota use request = .ok none) : use.activeVms < quota.vmLimits.maxVms ∧
    (use.usedVcpus + request.vcpus) % 2 ^ 32 ≤ quota.vmLimits.maxVcpus ∧
    (use.usedMemoryMb + request.memoryMb) % 2 ^ 64 ≤ quota.vmLimits.maxMemoryMb ∧
    (use.usedDiskGb + request.diskGb) % 2 ^ 64 ≤ quota.vmLimits.maxDiskGb := by
  unfold checkLimits at h
  by_cases hvms : quota.vmLimits.maxVms ≤ use.activeVms
  · simp [he, hvms] at h
  simp only [he, not_true_eq_false, if_false, hvms, orElse_ok_none] at h
  obtain ⟨hcpu, hmem, hdisk, -⟩ := h
  exact ⟨Nat.lt_of_not_le hvms, checkTotal_ok_none hcpu, checkTotal_ok_none hmem,
    checkTotal_ok_none hdisk⟩

theorem applyDelta_le {w used amount n : ℕ}
    (h : pf.applyDelta w used ((amount : ℤ).bmod (2 ^ w)) = .ok n) :
    n ≤ (used + amount) % 2 ^ w := by
  unfold applyDelta addSigned at h
  split_ifs at h
  · cases h
  obtain rfl : _ = n := Except.ok.inj h
  rw [Int.bmod_add_bmod, Int.add_bmod_bmod]
  have hcast :
      ((used : ℤ) + amount) % ((2 ^ w : ℕ) : ℤ) = (((used + amount) % 2 ^ w : ℕ) : ℤ) := by
    push_cast
    rfl
  unfold Int.bmod
  rw [hcast]
  have hlt : (used + amount) % 2 ^ w < 2 ^ w := Nat.mod_lt _ (Nat.two_pow_pos w)
  generalize (used + amount) % 2 ^ w = r at hlt ⊢
  generalize 2 ^ w = k at hlt ⊢
  dsimp only
  split_ifs <;> omega

/-! ## Use within limits -/

structure Within (limits : VmResourceLimits) (use : VmResourceUsage) : Prop where
  vms : use.activeVms ≤ limits.maxVms
  vcpus : use.usedVcpus ≤ limits.maxVcpus
  memory : use.usedMemoryMb ≤ limits.maxMemoryMb
  disk : use.usedDiskGb ≤ limits.maxDiskGb

theorem within_default (lims : VmResourceLimits) : Within lims {} :=
  ⟨Nat.zero_le _, Nat.zero_le _, Nat.zero_le _, Nat.zero_le _⟩

theorem within_countVm {lims : VmResourceLimits} (h : Within lims use)
    (hvms : use.activeVms < lims.maxVms) (vcpus : ℤ) (nid : ℕ) :
    Within lims (countVm pf use vcpus nid).1 := by
  have hle : ∀ {activeVms}, pf.addUnsigned 32 use.activeVms 1 = .ok activeVms →
      activeVms ≤ lims.maxVms := by
    intro activeVms hadd
    rw [← (addUnsigned_eq_ok.1 hadd).1]
    exact (Nat.mod_le _ _).trans hvms
  fun_cases countVm pf use vcpus nid with
  | case2 cur hpos activeVms hadd failure hc
  | case3 cur hpos activeVms hadd count hc => exact ⟨hle hadd, h.vcpus, h.memory, h.disk⟩
  | case4 => exact ⟨(Nat.sub_le _ _).trans h.vms, h.vcpus, h.memory, h.disk⟩
  | case1 | case5 => exact h

theorem within_updateVmUsage (he : quota.enabled) (h : Within quota.vmLimits use)
    (hpass : checkLimits pf quota use request = .ok none) (nodeId : ℕ) :
    Within quota.vmLimits (updateVmUsage pf use ((request.vcpus : ℤ).bmod (2 ^ 32))
      ((request.memoryMb : ℤ).bmod (2 ^ 64)) ((request.diskGb : ℤ).bmod (2 ^ 64)) nodeId).1 := by
  obtain ⟨hvms, hcpu, hmem, hdisk⟩ := checkLimits_ok_none he hpass
  fun_cases updateVmUsage pf use ((request.vcpus : ℤ).bmod (2 ^ 32))
    ((request.memoryMb : ℤ).bmod (2 ^ 64)) ((request.diskGb : ℤ).bmod (2 ^ 64)) nodeId with
  | case1 => exact h
  | case2 usedVcpus hv use' failure hm =>
    exact ⟨h.vms, (applyDelta_le hv).trans hcpu, h.memory, h.disk⟩
  | case3 usedVcpus hv use' usedMemoryMb hm use'' failure hd =>
    exact ⟨h.vms, (applyDelta_le hv).trans hcpu, (applyDelta_le hm).trans hmem, h.disk⟩
  | case4 usedVcpus hv use' usedMemoryMb hm use'' usedDiskGb hd =>
    have ht : Within quota.vmLimits { use with usedVcpus, usedMemoryMb, usedDiskGb } :=
      ⟨h.vms, (applyDelta_le hv).trans hcpu, (applyDelta_le hm).trans hmem,
        (applyDelta_le hd).trans hdisk⟩
    exact within_countVm ht hvms _ nodeId

end QuotaManager

/-! ## Interleavings -/

/-- A request that passed its check, and whether an update of its tenant came since. -/
structure CheckedRequest where
  request : ResourceRequest
  overtaken : Bool

/-- The mark that an update of the tenant leaves. -/
def CheckedRequest.overtake (tenantId : String) (c : CheckedRequest) : CheckedRequest :=
  if c.request.tenantId = tenantId then { c with overtaken := true } else c

/-- The quota manager, the requests that passed the check and are still to be counted, and
    whether a panic during an update poisoned the lock of the usage. -/
structure QuotaSession where
  manager : QuotaManager
  pending : List CheckedRequest
  poisoned : Bool

/-- A request is checked, or the `i`-th of those that passed is counted. -/
inductive QuotaEvent where
  | check (request : ResourceRequest) (now : ℤ)
  | update (i : ℕ) (nodeId : ℕ) (now : ℤ)

namespace QuotaSession

open QuotaManager

variable (pf : Platform)

/-- `get_tenant_quota` at time `now`: a tenant without a quota gets the default one. -/
def tenantQuota (q : QuotaManager) (tenantId : String) (now : ℤ) : TenantQuota :=
  q.quotas[tenantId]?.getD (.new tenantId now)

/-- `check_resource_quota`: a poisoned lock reads as no usage. -/
def check (s : QuotaSession) (request : ResourceRequest) (now : ℤ) : QuotaSession :=
  let quota := tenantQuota s.manager request.tenantId now
  let manager :=
    if request.tenantId ∈ s.manager.quotas then s.manager else s.manager.setTenantQuota quota
  let usage :=
    if s.poisoned then .new request.tenantId now
    else s.manager.getTenantUsage request.tenantId now
  match checkLimits pf quota usage.vmUsage request with
  | .ok none => { s with manager, pending := s.pending ++ [⟨request, false⟩] }
  | .ok (some _) | .error _ => { s with manager }

/-- `update_resource_usage` with the amounts of the request as signed numbers; with a
    poisoned lock it fails. -/
def update (s : QuotaSession) (i nodeId : ℕ) (now : ℤ) : QuotaSession :=
  match s.pending[i]? with
  | none => s
  | some ⟨request, _⟩ =>
    let pending := s.pending.eraseIdx i
    if s.poisoned then { s with pending }
    else
      let usage := s.manager.getTenantUsage request.tenantId now
      let (vmUsage, result) := updateVmUsage pf usage.vmUsage ((request.vcpus : ℤ).bmod (2 ^ 32))
        ((request.memoryMb : ℤ).bmod (2 ^ 64)) ((request.diskGb : ℤ).bmod (2 ^ 64)) nodeId
      let usage :=
        match result with
        | .ok () => { usage with vmUsage, updatedAt := now }
        | .error _ => { usage with vmUsage }
      { manager := { s.manager with usage := s.manager.usage.insert request.tenantId usage }
        pending := pending.map (.overtake request.tenantId)
        poisoned := result.isOk = false }

/-- What an event does. -/
def step (s : QuotaSession) : QuotaEvent → QuotaSession
  | .check request now => s.check pf request now
  | .update i nodeId now => s.update pf i nodeId now

/-- The recorded usage of every tenant whose quota is enabled is within its limits. -/
def WithinLimits (s : QuotaSession) : Prop :=
  ∀ (tenantId : String) (usage : TenantUsage) (now : ℤ),
    s.manager.usage[tenantId]? = some usage → (tenantQuota s.manager tenantId now).enabled →
      Within (tenantQuota s.manager tenantId now).vmLimits usage.vmUsage

/-- No update of its tenant comes between the check of a request and its own update. -/
def Undisturbed (s : QuotaSession) : QuotaEvent → Prop
  | .check _ _ => True
  | .update i _ _ => ∀ c ∈ s.pending[i]?, c.overtaken = false

variable {pf} {s : QuotaSession} {now : ℤ}

/-! ## What a check saw is still so -/

/-- The quota manager lets the request pass, by what it has at time `now`. -/
def passes (pf : Platform) (q : QuotaManager) (now : ℤ) (request : ResourceRequest) : Prop :=
  checkLimits pf (tenantQuota q request.tenantId now)
    (q.getTenantUsage request.tenantId now).vmUsage request = .ok none

theorem checkLimits_congr {quota quota' : TenantQuota} (he : quota.enabled = quota'.enabled)
    (hl : quota.vmLimits = quota'.vmLimits) (use : VmResourceUsage)
    (request : ResourceRequest) :
    checkLimits pf quota use request = checkLimits pf quota' use request := by
  unfold checkLimits
  rw [he, hl]

/-- A default quota that is made at another time has the same limits. -/
theorem tenantQuota_limits {q q' : QuotaManager} {tenantId : String} {now₀ : ℤ}
    (h : q'.quotas[tenantId]? = q.quotas[tenantId]? ∨
      q.quotas[tenantId]? = none ∧ q'.quotas[tenantId]? = some (.new tenantId now₀))
    (now now' : ℤ) : (tenantQuota q' tenantId now').enabled = (tenantQuota q tenantId now).enabled ∧
      (tenantQuota q' tenantId now').vmLimits = (tenantQuota q tenantId now).vmLimits := by
  unfold tenantQuota
  rcases h with hsame | ⟨hnone, hnew⟩
  · rw [hsame]
    cases q.quotas[tenantId]? <;> exact ⟨rfl, rfl⟩
  · rw [hnone, hnew]
    exact ⟨rfl, rfl⟩

theorem passes_congr {q q' : QuotaManager} {request : ResourceRequest} {now₀ : ℤ}
    (hq : q'.quotas[request.tenantId]? = q.quotas[request.tenantId]? ∨
      q.quotas[request.tenantId]? = none ∧
        q'.quotas[request.tenantId]? = some (.new request.tenantId now₀))
    (hu : q'.usage[request.tenantId]? = q.usage[request.tenantId]?)
    (h : passes pf q now request) (now' : ℤ) : passes pf q' now' request := by
  obtain ⟨he, hl⟩ := tenantQuota_limits hq now now'
  unfold passes at h ⊢
  rw [checkLimits_congr he hl, ← h]
  unfold QuotaManager.getTenantUsage
  rw [hu]
  cases q.usage[request.tenantId]? <;> rfl

/-- **What holds in every state**: the usages are within the limits, and every request that was not
    overtaken would pass its check again. -/
structure Sound (pf : Platform) (s : QuotaSession) : Prop where
  within : s.WithinLimits
  pending : s.poisoned = false → ∀ c ∈ s.pending, c.overtaken = false →
    ∀ now, passes pf s.manager now c.request

theorem WithinLimits.getTenantUsage (h : s.WithinLimits) {tenantId : String}
    (he : (tenantQuota s.manager tenantId now).enabled) :
    Within (tenantQuota s.manager tenantId now).vmLimits
      (s.manager.getTenantUsage tenantId now).vmUsage := by
  unfold QuotaManager.getTenantUsage
  cases hu : s.manager.usage[tenantId]? with
  | none => exact within_default _
  | some usage => exact h tenantId usage now hu he

/-- A check changes no usage, and stores a default quota at most. -/
theorem check_manager (s : QuotaSession) (request : ResourceRequest) (now : ℤ) :
    (s.check pf request now).manager.usage = s.manager.usage ∧
      (s.check pf request now).poisoned = s.poisoned ∧
      ∀ tenantId : String,
        (s.check pf request now).manager.quotas[tenantId]? = s.manager.quotas[tenantId]? ∨
          s.manager.quotas[tenantId]? = none ∧
            (s.check pf request now).manager.quotas[tenantId]? = some (.new tenantId now) := by
  have hm : (s.check pf request now).manager =
      if request.tenantId ∈ s.manager.quotas then s.manager
      else s.manager.setTenantQuota (tenantQuota s.manager request.tenantId now) := by
    unfold check
    dsimp only
    split <;> rfl
  refine ⟨?_, ?_, fun tenantId => ?_⟩
  · rw [hm]
    split_ifs <;> rfl
  · unfold check
    dsimp only
    split <;> rfl
  rw [hm]
  split_ifs with hmem
  · exact .inl rfl
  have hnone : s.manager.quotas[request.tenantId]? = none := Std.ExtTreeMap.getElem?_eq_none hmem
  simp only [tenantQuota, setTenantQuota, hnone, Option.getD_none, Table.get_insert]
  split_ifs with ht
  · obtain rfl : request.tenantId = tenantId := ht
    exact .inr ⟨hnone, rfl⟩
  · exact .inl rfl

theorem sound_check (h : s.Sound pf) (request : ResourceRequest) (now : ℤ) :
    (s.check pf request now).Sound pf := by
  obtain ⟨hu, hp, hq⟩ := @check_manager pf s request now
  constructor
  · intro tenantId usage now' hrow he
    rw [hu] at hrow
    obtain ⟨he', hl⟩ := tenantQuota_limits (hq tenantId) now' now'
    rw [hl]
    exact h.within tenantId usage now' hrow (he' ▸ he)
  intro hn c hc hf now'
  rw [hp] at hn
  -- the request was among the pending ones, or it is the one that passed now
  have hs : ∃ now, passes pf s.manager now c.request := by
    unfold check at hc
    dsimp only at hc
    split at hc
    case h_1 hpass =>
      rcases List.mem_append.1 hc with hold | hnew
      · exact ⟨now, h.pending hn c hold hf now⟩
      · obtain rfl := List.mem_singleton.1 hnew
        rw [hn] at hpass
        exact ⟨now, hpass⟩
    all_goals exact ⟨now, h.pending hn c hc hf now⟩
  obtain ⟨now₁, hs⟩ := hs
  exact passes_congr (hq _) (by rw [hu]) hs now'

theorem mem_overtake {tenantId : String} {l : List CheckedRequest} {c : CheckedRequest}
    (hc : c ∈ l.map (.overtake tenantId)) (hf : c.overtaken = false) :
    c ∈ l ∧ c.request.tenantId ≠ tenantId := by
  obtain ⟨c', hmem, rfl⟩ := List.mem_map.1 hc
  unfold CheckedRequest.overtake at hf ⊢
  split_ifs at hf ⊢ with ht
  exact ⟨hmem, ht⟩

theorem sound_update (h : s.Sound pf) {i nodeId : ℕ}
    (hu : s.Undisturbed (.update i nodeId now)) : (s.update pf i nodeId now).Sound pf := by
  unfold update
  cases hi : s.pending[i]? with
  | none => exact h
  | some checked =>
    obtain ⟨request, overtaken⟩ := checked
    dsimp only
    cases hp : s.poisoned with
    | true => exact ⟨h.within, fun hn => absurd hn (by simp)⟩
    | false =>
      have hs : passes pf s.manager now request := h.pending hp _
        (List.mem_of_getElem? hi) (hu _ hi) now
      simp only [Bool.false_eq_true, if_false]
      constructor
      · intro tenantId usage now' hrow he
        rw [Table.get_insert_eq_some] at hrow
        rcases hrow with ⟨rfl, rfl⟩ | ⟨-, hrow⟩
        · obtain ⟨he', hl⟩ := @tenantQuota_limits s.manager s.manager request.tenantId
            now (.inl rfl) now' now
          have hnow := he'.trans he
          have hw := within_updateVmUsage hnow (h.within.getTenantUsage hnow) hs nodeId
          rw [hl] at hw
          split <;> exact hw
        · exact h.within tenantId usage now' hrow he
      · intro _ c hc hf now'
        obtain ⟨hmem, ho⟩ := mem_overtake hc hf
        have hb := h.pending hp c (List.mem_of_mem_eraseIdx hmem) hf now
        refine @passes_congr pf now s.manager _ c.request now (.inl ?_) ?_ hb now'
        · rfl
        exact (Table.get_insert ..).trans (if_neg fun heq => ho heq.symm)

theorem sound_step (s : QuotaSession) (event : QuotaEvent) (h : s.Sound pf)
    (hu : s.Undisturbed event) : (s.step pf event).Sound pf := by
  cases event with
  | check request now => exact sound_check h request now
  | update i nodeId now => exact sound_update h hu

/-- **Quotas are kept** in every interleaving in which no update of a tenant comes between the
    check of one of its requests and the update of that request. -/
theorem withinLimits_of_undisturbed (pf : Platform) (manager : QuotaManager)
    (run : List QuotaEvent) (h : WithinLimits ⟨manager, [], false⟩)
    (hrun : Run.Along (step pf) Undisturbed ⟨manager, [], false⟩ run) :
    ∀ s ∈ run.scanl (step pf) ⟨manager, [], false⟩, s.WithinLimits := by
  have hstart : Sound pf ⟨manager, [], false⟩ := ⟨h, fun _ c hc => absurd hc List.not_mem_nil⟩
  intro s hs
  exact (Run.invariant (fun s event => sound_step s event) hstart hrun s hs).within

/-! ## Two requests for one machine each -/

/-- A tenant that may have one machine. -/
def oneVm : QuotaManager :=
  ⟨{("acme", { TenantQuota.new "acme" 0 with vmLimits := { maxVms := 1 } })}, ∅⟩

/-- A request for a machine with one processor. -/
def smallVm (tenantId : String) : ResourceRequest := ⟨tenantId, none, 1, 1024, 10⟩

theorem withinLimits_oneVm : WithinLimits ⟨oneVm, [], false⟩ := by
  intro tenantId usage now hu
  simp [oneVm] at hu

/-- Both requests pass the check before the first of them is counted, and the tenant ends
    up with two machines. -/
theorem two_checks_before_two_updates :
    ¬ ∀ (pf : Platform) (manager : QuotaManager) (run : List QuotaEvent),
      WithinLimits ⟨manager, [], false⟩ →
        ∀ s ∈ run.scanl (step pf) ⟨manager, [], false⟩, s.WithinLimits := by
  intro h
  have hlast := h .release oneVm
    [.check (smallVm "acme") 0, .check (smallVm "acme") 0, .update 0 1 0, .update 0 1 0]
    withinLimits_oneVm _ (Run.foldl_mem_scanl _ _) "acme"
    { TenantUsage.new "acme" 0 with vmUsage := ⟨2, 2, 2048, 20, [(1, 2)]⟩ } 0
    (by decide +kernel) (by decide +kernel)
  exact absurd hlast.vms (by decide +kernel)

/-- The requests of two tenants overlap, and a second one of the first tenant is refused. -/
def overlapping : List QuotaEvent :=
  [.check (smallVm "acme") 0, .check (smallVm "labs") 0, .update 1 1 0, .update 0 1 0,
    .check (smallVm "acme") 0]

theorem second_request_is_refused :
    Run.Along (step .release) Undisturbed ⟨oneVm, [], false⟩ overlapping ∧
    (∀ s ∈ overlapping.scanl (step .release) ⟨oneVm, [], false⟩, s.WithinLimits) ∧
    (overlapping.foldl (step .release) ⟨oneVm, [], false⟩).pending.length = 0 := by
  have along : Run.Along (step .release) Undisturbed ⟨oneVm, [], false⟩ overlapping := by
    refine ⟨trivial, trivial, ?_, ?_, trivial, trivial⟩ <;> rw [Undisturbed] <;> decide +kernel
  exact ⟨along, withinLimits_of_undisturbed .release oneVm _ withinLimits_oneVm along,
    by decide +kernel⟩

end QuotaSession

end Blixard
