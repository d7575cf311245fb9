/-
  The memory manager (`resource_managers/memory_manager.rs`), and calls that run at the same
  time.

  A request is validated against the usage last written down, recorded, and then the usage is
  computed anew: three steps, each under locks of its own.  The monitoring task writes the usage too,
  from a sum that it took before (`within_capacity_along`).
-/
import Blixard.CpuManager
import Blixard.Lib.Calls

namespace Blixard

/-! ## Types -/

/-- Limits in MB; the ratio is an `f64`, kept as its bits. -/
structure ResourceLimits where
  hardLimit : ℕ
  softLimit : ℕ
  allowOvercommit : Bool
  overcommitRatio : BitVec 64
  systemReserve : ℕ
  hardLimit_lt : hardLimit < 2 ^ 64

structure MemoryPlatform extends Platform where
  /-- `((limit as f64) * ratio) as u64`. -/
  overcommitted : (ratio : BitVec 64) → (limit : ℕ) → ℕ
  overcommitted_lt : ∀ ratio limit, overcommitted ratio limit < 2 ^ 64

structure MemoryEnv where
  now : ℕ → ℤ
  /-- `Utc::now().timestamp_nanos_opt().unwrap_or(0)`. -/
  nanos : ℤ
  elapsed : Option ℕ
  estimateActualUsage : ℕ → ℕ

structure MemoryResourceManager where
  limits : ResourceLimits
  allocations : Table String ResourceAllocation
  usage : ResourceUsage
  state : ManagerState

def ResourceAllocation.isLive (a : ResourceAllocation) : Bool :=
  a.status = .active ∨ a.status = .reserved

def Platform.sumUnsigned (pf : Platform) (w : ℕ) (amounts : List ℕ) : Except Failure ℕ :=
  amounts.foldlM (pf.addUnsigned w) 0

namespace MemoryResourceManager

def new (limits : ResourceLimits) (now : ℤ) : MemoryResourceManager where
  limits
  allocations := ∅
  usage := ⟨.memory, limits.hardLimit, 0, 0, 0, now⟩
  state := ⟨.stopped, now, 0, 0, []⟩

variable (pf : MemoryPlatform) (env : MemoryEnv) (m : MemoryResourceManager)

/-! ## Calls -/

def effectiveCapacity : ℕ :=
  if m.limits.allowOvercommit then pf.overcommitted m.limits.overcommitRatio m.limits.hardLimit
  else m.limits.hardLimit

def availableCapacity (currentAllocated : ℕ) : ℕ :=
  m.effectiveCapacity pf - currentAllocated - m.limits.systemReserve

def validateAllocationRequest (request : ResourceAllocationRequest) : Except Failure Unit :=
  if request.resourceType ≠ .memory then
    .error (.error (.configurationError "memory_manager.allocation.resource_type"
      "Memory manager can only ha memory resources"))
  else
    let available := m.availableCapacity pf m.usage.allocatedAmount
    if available < request.amount then
      .error (.error (.insufficientResources s!"{request.amount}MB memory"
        s!"{available}MB available"))
    else
      -- beyond the soft limit there is only a warning
      (pf.addUnsigned 64 m.usage.allocatedAmount request.amount).map fun _ => ()

def liveAllocations : List ResourceAllocation :=
  (m.allocations.toList.map Prod.snd).filter (·.isLive)

def updateUsageStats : MemoryResourceManager × Except Failure Unit :=
  match pf.sumUnsigned 64 (m.liveAllocations.map (·.allocatedAmount)) with
  | .error failure => (m, .error failure)
  | .ok totalAllocated =>
    ({ m with usage := { m.usage with
        allocatedAmount := totalAllocated
        allocationCount := m.liveAllocations.length
        updatedAt := env.now 2
        usedAmount := env.estimateActualUsage totalAllocated } }, .ok ())

def memoryAllocation (request : ResourceAllocationRequest) : ResourceAllocation where
  allocationId := s!"mem-{request.tenantId}-{env.nanos}"
  request
  allocatedAmount := request.amount
  allocatedOn := some "memory"
  allocatedAt := env.now 1
  status := .active

def storeAllocation (a : ResourceAllocation) : MemoryResourceManager :=
  { m with allocations := m.allocations.insert a.allocationId a }

def finishAllocate : MemoryResourceManager × Except Failure Unit :=
  match m.updateUsageStats pf env with
  | (m, .error failure) => (m, .error failure)
  | (m, .ok ()) =>
    ({ m with state := { m.state with
        totalAllocations := m.state.totalAllocations + 1
        allocationTimes :=
          CpuResourceManager.recordTime m.state.allocationTimes env.elapsed } }, .ok ())

def finishDeallocate : MemoryResourceManager × Except Failure Unit :=
  match m.updateUsageStats pf env with
  | (m, .error failure) => (m, .error failure)
  | (m, .ok ()) =>
    ({ m with state := { m.state with totalDeallocations := m.state.totalDeallocations + 1 } },
      .ok ())

def allocate (request : ResourceAllocationRequest) :
    MemoryResourceManager × Except Failure ResourceAllocation :=
  match m.validateAllocationRequest pf request with
  | .error failure => (m, .error failure)
  | .ok () =>
    let allocation := memoryAllocation env request
    match (m.storeAllocation allocation).finishAllocate pf env with
    | (m, .error failure) => (m, .error failure)
    | (m, .ok ()) => (m, .ok allocation)

def deallocate (allocationId : String) : MemoryResourceManager × Except Failure Unit :=
  if allocationId ∈ m.allocations then
    { m with allocations := m.allocations.erase allocationId }.finishDeallocate pf env
  else
    (m, .error (.error (.resourceUnavailable "memory" s!"Allocation {allocationId} not found")))

/-! ## Steps of calls -/

/-- How far a call is, or a round of the monitoring task, which starts over when it has written the
    usage and ends when its sum overflows. -/
inductive MemoryCall where
  | notBegun
  | validated (request : ResourceAllocationRequest)
  | recorded (allocation : ResourceAllocation)
  | removed
  | allocated (result : Except Failure ResourceAllocation)
  | deallocated (result : Except Failure Unit)
  | summed (allocated : ℕ)
  | stopped

/-- The steps of the calls, and the two of a round of the monitoring task: `sum` and `write`. -/
inductive MemoryStep where
  | validate (request : ResourceAllocationRequest)
  | record (env : MemoryEnv)
  | remove (allocationId : String)
  | update (env : MemoryEnv)
  | sum
  | write (env : MemoryEnv)

/-- What a step of a call does. -/
def memoryAct : MemoryCall → MemoryStep → MemoryResourceManager × MemoryCall
  | .notBegun, .validate request =>
    match m.validateAllocationRequest pf request with
    | .error failure => (m, .allocated (.error failure))
    | .ok () => (m, .validated request)
  | .validated request, .record env =>
    let allocation := memoryAllocation env request
    (m.storeAllocation allocation, .recorded allocation)
  | .recorded allocation, .update env =>
    let r := m.finishAllocate pf env
    (r.1, .allocated (r.2.map fun _ => allocation))
  | .notBegun, .remove allocationId =>
    if allocationId ∈ m.allocations then
      ({ m with allocations := m.allocations.erase allocationId }, .removed)
    else
      (m, .deallocated (.error (.error (.resourceUnavailable "memory"
        s!"Allocation {allocationId} not found"))))
  | .removed, .update env =>
    let r := m.finishDeallocate pf env
    (r.1, .deallocated r.2)
  | .notBegun, .sum =>
    match pf.sumUnsigned 64 (m.liveAllocations.map (·.allocatedAmount)) with
    | .error _ => (m, .stopped)
    | .ok allocated => (m, .summed allocated)
  | .summed allocated, .write env =>
    -- the count is of all allocations, unlike that of `update_usage_stats`
    ({ m with usage := { m.usage with
        allocatedAmount := allocated
        allocationCount := m.allocations.size
        updatedAt := env.now 2
        usedAmount := env.estimateActualUsage allocated } }, .notBegun)
  | call, _ => (m, call)

def beginCalls : Calls.System MemoryResourceManager MemoryCall := .start m .notBegun

/-- A call whose steps no other call comes between is `allocate`. -/
theorem foldl_allocate (s : Calls.System MemoryResourceManager MemoryCall) {i : ℕ}
    (hi : s.calls i = .notBegun) (req : ResourceAllocationRequest) :
    let s' := ([.validate req, .record env, .update env].map fun step => (i, step)).foldl
      (Calls.System.step (memoryAct pf)) s
    (s'.shared, s'.calls i) = Prod.map id .allocated (s.shared.allocate pf env req) := by
  refine (Calls.foldl_step_alone _ s i).trans ?_
  rw [hi]
  simp only [List.foldl_cons, List.foldl_nil]
  cases hv : s.shared.validateAllocationRequest pf req with
  | error fail =>
    simp only [memoryAct, allocate, hv]
    rfl
  | ok =>
    simp only [memoryAct, allocate, hv]
    rcases (s.shared.storeAllocation (memoryAllocation env req)).finishAllocate pf env with
      ⟨m', _ | _⟩ <;> rfl

/-- A call whose steps no other call comes between is `deallocate`. -/
theorem foldl_deallocate (s : Calls.System MemoryResourceManager MemoryCall) {i : ℕ}
    (hi : s.calls i = .notBegun) (allocationId : String) :
    let s' := ([.remove allocationId, .update env].map fun step => (i, step)).foldl
      (Calls.System.step (memoryAct pf)) s
    (s'.shared, s'.calls i) =
      Prod.map id .deallocated (s.shared.deallocate pf env allocationId) := by
  refine (Calls.foldl_step_alone _ s i).trans ?_
  rw [hi]
  simp only [List.foldl_cons, List.foldl_nil, memoryAct, deallocate]
  split_ifs <;> rfl

def liveTotal (m : MemoryResourceManager) : ℕ :=
  Table.sumOf (fun _ a => if a.isLive then a.allocatedAmount else 0) m.allocations

/-- The live allocations and the reserve are within the effective capacity. -/
def WithinCapacity (m : MemoryResourceManager) : Prop :=
  m.liveTotal + m.limits.systemReserve ≤ m.effectiveCapacity pf

/-- Whether the call is between the validation of a request and its update of the usage. -/
def MemoryCall.isAllocating : MemoryCall → Bool
  | validated _ | recorded _ => true
  | _ => false

/-- Whether the monitoring task is between its sum and its writing. -/
def MemoryCall.isSummed : MemoryCall → Bool
  | summed _ => true
  | _ => false

/-- A request is validated while no other call of `allocate` is under way, and no allocation is
    recorded while a sum waits to be written. -/
def Serial (s : Calls.System MemoryResourceManager MemoryCall) : ℕ × MemoryStep → Prop
  | (i, .validate _) => ∀ j, j ≠ i → (s.calls j).isAllocating = false
  | (i, .record _) => ∀ j, j ≠ i → (s.calls j).isSummed = false
  | _ => True

/-! ## What the steps do to the records -/

theorem sumUnsigned_eq (pf : Platform) (w : ℕ) {amts : List ℕ} (h : amts.sum < 2 ^ w) :
    pf.sumUnsigned w amts = .ok amts.sum := by
  have hfrom : ∀ (amts : List ℕ) (start : ℕ), start + amts.sum < 2 ^ w →
      amts.foldlM (pf.addUnsigned w) start = .ok (start + amts.sum) := by
    intro amts
    induction amts with
    | nil =>
      intro start _
      rfl
    | cons a amts ih =>
      intro start hs
      rw [List.sum_cons, ← Nat.add_assoc] at hs
      have hadd := pf.addUnsigned_of_lt (Nat.lt_of_le_of_lt (Nat.le_add_right _ _) hs)
      rw [List.foldlM_cons, hadd, List.sum_cons, ← Nat.add_assoc]
      exact ih (start + a) hs
  have hzero := hfrom amts 0 (by rwa [Nat.zero_add])
  rwa [Nat.zero_add] at hzero

variable {pf env m}

theorem sum_liveAllocations : (m.liveAllocations.map (·.allocatedAmount)).sum = m.liveTotal := by
  rw [liveAllocations, liveTotal, Table.sumOf]
  induction m.allocations.toList with
  | nil => rfl
  | cons row rows ih =>
    by_cases hlive : row.2.isLive <;> simp [hlive, ih]

theorem effectiveCapacity_lt : m.effectiveCapacity pf < 2 ^ 64 := by
  unfold effectiveCapacity
  split_ifs
  · exact pf.overcommitted_lt _ _
  · exact m.limits.hardLimit_lt

theorem liveTotal_erase_le (id : String) :
    ({ m with allocations := m.allocations.erase id } : MemoryResourceManager).liveTotal ≤
      m.liveTotal := Table.sumOf_erase_le _ _ _

theorem liveTotal_storeAllocation_le (a : ResourceAllocation) :
    (m.storeAllocation a).liveTotal ≤ m.liveTotal + a.allocatedAmount := by
  have hrest := @liveTotal_erase_le m a.allocationId
  have hins : (m.storeAllocation a).liveTotal =
      (if a.isLive then a.allocatedAmount else 0) +
        ({ m with allocations := m.allocations.erase a.allocationId } :
          MemoryResourceManager).liveTotal := Table.sumOf_insert ..
  rw [hins]
  split_ifs <;> omega

theorem sumUnsigned_live (h : m.WithinCapacity pf) :
    pf.sumUnsigned 64 (m.liveAllocations.map (·.allocatedAmount)) = .ok m.liveTotal := by
  have hlt : (m.liveAllocations.map (·.allocatedAmount)).sum < 2 ^ 64 := by
    have hcap := @effectiveCapacity_lt pf m
    unfold WithinCapacity at h
    rw [sum_liveAllocations]
    omega
  rw [sumUnsigned_eq pf.toPlatform 64 hlt, sum_liveAllocations]

theorem updateUsageStats_eq (h : m.WithinCapacity pf) :
    ∃ usage, m.updateUsageStats pf env = ({ m with usage }, .ok ()) ∧
      usage.allocatedAmount = m.liveTotal := by
  rw [updateUsageStats, sumUnsigned_live h]
  exact ⟨_, rfl, rfl⟩

structure Refreshed (m m' : MemoryResourceManager) : Prop where
  limits : m'.limits = m.limits
  allocations : m'.allocations = m.allocations
  usage : m'.usage.allocatedAmount = m'.liveTotal

theorem refreshed_finishAllocate (h : m.WithinCapacity pf) :
    m.Refreshed (m.finishAllocate pf env).1 := by
  obtain ⟨usage, heq, htot⟩ := @updateUsageStats_eq pf env m h
  simp only [finishAllocate, heq]
  exact ⟨rfl, rfl, htot⟩

theorem refreshed_finishDeallocate (h : m.WithinCapacity pf) :
    m.Refreshed (m.finishDeallocate pf env).1 := by
  obtain ⟨usage, heq, htot⟩ := @updateUsageStats_eq pf env m h
  simp only [finishDeallocate, heq]
  exact ⟨rfl, rfl, htot⟩

variable {call : MemoryCall} {m' : MemoryResourceManager} {req : ResourceAllocationRequest}

theorem le_of_validated (h : m.validateAllocationRequest pf req = .ok ()) :
    req.amount ≤ m.availableCapacity pf m.usage.allocatedAmount := by
  by_contra hless
  have hlt := Nat.lt_of_not_le hless
  unfold validateAllocationRequest at h
  split_ifs at h
  simp [hlt] at h

/-! ## Every interleaving -/

def NotBoth (call call' : MemoryCall) : Prop := ¬ (call.isAllocating ∧ call'.isAllocating)

/-- What a call knows is enough: there is room for a validated request, and a sum that waits to be
    written covers the live allocations. -/
def CallFits (pf : MemoryPlatform) (m : MemoryResourceManager) : MemoryCall → Prop
  | .validated request =>
    m.liveTotal + request.amount + m.limits.systemReserve ≤ m.effectiveCapacity pf
  | .summed allocated => m.liveTotal ≤ allocated
  | _ => True

/-- What every step keeps, if requests are validated one after another. -/
structure Bounded (pf : MemoryPlatform) (s : Calls.System MemoryResourceManager MemoryCall) :
    Prop where
  within : s.shared.WithinCapacity pf
  fits : ∀ i, s.shared.CallFits pf (s.calls i)
  /-- The usage may be behind only while a call has recorded its allocation. -/
  known : (∀ i a, s.calls i ≠ .recorded a) → s.shared.liveTotal ≤ s.shared.usage.allocatedAmount
  alone : ∀ i j, i ≠ j → NotBoth (s.calls i) (s.calls j)

variable {s : Calls.System MemoryResourceManager MemoryCall} {i : ℕ}

theorem NotBoth.symm {call' : MemoryCall} (h : NotBoth call call') : NotBoth call' call :=
  fun hboth => h hboth.symm

theorem Bounded.after (h : Bounded pf s) {m : MemoryResourceManager}
    (hw : m.WithinCapacity pf) (hself : m.CallFits pf call)
    (ho : ∀ j, j ≠ i → m.CallFits pf (s.calls j))
    (hk : (∀ a, call ≠ .recorded a) → (∀ j, j ≠ i → ∀ a, s.calls j ≠ .recorded a) →
      m.liveTotal ≤ m.usage.allocatedAmount)
    (ha : ∀ j, j ≠ i → NotBoth call (s.calls j)) : Bounded pf (s.put i (m, call)) where
  within := hw
  fits := Calls.forall_calls_put hself ho
  known hnone := by
    refine hk (fun a heq => hnone i a ?_) fun j hj a heq => hnone j a ?_
    · rw [Calls.put_calls_self, heq]
    · rw [Calls.put_calls_of_ne hj, heq]
  alone _ _ hjk :=
    Calls.pairwise_calls_put (R := NotBoth) (fun _ _ => NotBoth.symm) ha h.alone hjk

theorem not_recorded (hi : ∀ a, s.calls i ≠ .recorded a)
    (ho : ∀ j, j ≠ i → ∀ a, s.calls j ≠ .recorded a) (j : ℕ) (a : ResourceAllocation) :
    s.calls j ≠ .recorded a := by
  by_cases hj : j = i
  · exact hj ▸ hi a
  · exact ho j hj a

theorem CallFits.of_le {m : MemoryResourceManager}
    (h : m.CallFits pf call) (hl : m'.limits = m.limits) (hle : m'.liveTotal ≤ m.liveTotal) :
    m'.CallFits pf call := by
  cases call with
  | validated request =>
    simp only [CallFits, effectiveCapacity] at h ⊢
    rw [hl]
    omega
  | summed allocated => exact hle.trans h
  | _ => trivial

theorem WithinCapacity.of_le {m : MemoryResourceManager} (h : m.WithinCapacity pf)
    (hl : m'.limits = m.limits) (hle : m'.liveTotal ≤ m.liveTotal) : m'.WithinCapacity pf := by
  unfold WithinCapacity effectiveCapacity at h ⊢
  rw [hl]
  omega

theorem Bounded.aside (h : Bounded pf s) {m : MemoryResourceManager}
    (hl : m.limits = s.shared.limits) (hle : m.liveTotal ≤ s.shared.liveTotal)
    (hk : (∀ j, j ≠ i → ∀ a, s.calls j ≠ .recorded a) → m.liveTotal ≤ m.usage.allocatedAmount)
    (hcall : call.isAllocating = false) (hself : m.CallFits pf call) :
    Bounded pf (s.put i (m, call)) := by
  refine h.after (h.within.of_le hl hle) hself (fun j _ => (h.fits j).of_le hl hle)
    (fun _ => hk) ?_
  · intro j _ hboth
    rw [hcall] at hboth
    exact absurd hboth.1 (by simp)

theorem bounded_record (h : Bounded pf s) (hi : s.calls i = .validated req) (env : MemoryEnv)
    (hsums : ∀ j, j ≠ i → (s.calls j).isSummed = false) :
    Bounded pf (s.put i (s.shared.storeAllocation (memoryAllocation env req),
      .recorded (memoryAllocation env req))) := by
  have hle := @liveTotal_storeAllocation_le s.shared (memoryAllocation env req)
  have hfits := h.fits i
  rw [hi, CallFits] at hfits
  -- no other call waits to be recorded
  have hidle : ∀ j, j ≠ i → (s.calls j).isAllocating = false := by
    intro j hj
    have hboth := h.alone i j hj.symm
    rw [NotBoth, hi] at hboth
    simpa [MemoryCall.isAllocating] using hboth
  refine h.after ?_ trivial ?_ ?_ ?_
  · have ha : (memoryAllocation env req).allocatedAmount = req.amount := rfl
    show (s.shared.storeAllocation (memoryAllocation env req)).liveTotal +
      s.shared.limits.systemReserve ≤ s.shared.effectiveCapacity pf
    omega
  · intro j hj
    have hnot := hidle j hj
    have hsum := hsums j hj
    generalize s.calls j = other at hnot hsum
    cases other with
    | validated | summed => contradiction
    | _ => trivial
  · intro hnot
    exact absurd rfl (hnot _)
  · intro j hj hboth
    rw [hidle j hj] at hboth
    exact absurd hboth.2 (by simp)

theorem Bounded.after_update (h : Bounded pf s) {m : MemoryResourceManager}
    (hr : s.shared.Refreshed m) (hdone : call.isAllocating = false) (hself : m.CallFits pf call) :
    Bounded pf (s.put i (m, call)) := by
  have hsame : m.liveTotal = s.shared.liveTotal := by
    rw [liveTotal, hr.allocations, liveTotal]
  exact h.aside hr.limits hsame.le (fun _ => hr.usage.ge) hdone hself

theorem bounded_step (s : Calls.System MemoryResourceManager MemoryCall) (x : ℕ × MemoryStep)
    (h : Bounded pf s) (hs : Serial s x) : Bounded pf (s.step (memoryAct pf) x) := by
  obtain ⟨i, step⟩ := x
  have ho (hi : ∀ a, s.calls i ≠ .recorded a)
      (hnone : ∀ j, j ≠ i → ∀ a, s.calls j ≠ .recorded a) := h.known (not_recorded hi hnone)
  have hself : Bounded pf (s.put i (s.shared, s.calls i)) := by rwa [Calls.put_self]
  rw [Calls.step_eq_put]
  generalize hi : s.calls i = call at ho hself
  -- the cases are those of `memoryAct`, in its order
  fun_cases memoryAct pf s.shared call step with
  | case1 | case6 | case8 => exact h.aside rfl le_rfl (ho (by simp)) rfl trivial
  | case2 req hval =>
    have hidle : ∀ j, j ≠ i → (s.calls j).isAllocating = false := hs
    have hk := ho (by simp) fun j hj a heq => by
      have hnot := hidle j hj
      rw [heq] at hnot
      cases hnot
    refine h.after h.within ?_ (fun j _ => h.fits j) (fun _ _ => hk) ?_
    · have hle := le_of_validated hval
      have hw := h.within
      unfold availableCapacity at hle
      unfold WithinCapacity at hw
      unfold CallFits
      omega
    · intro j hj hboth
      rw [hidle j hj] at hboth
      exact absurd hboth.2 (by simp)
  | case3 req env => exact bounded_record h hi env hs
  | case4 => exact h.after_update (refreshed_finishAllocate h.within) rfl trivial
  | case5 id =>
    have hle := @liveTotal_erase_le s.shared id
    exact h.aside rfl hle (fun hnone => hle.trans (ho (by simp) hnone)) rfl trivial
  | case7 => exact h.after_update (refreshed_finishDeallocate h.within) rfl trivial
  | case9 allocated hsum =>
    rw [sumUnsigned_live h.within] at hsum
    exact h.aside rfl le_rfl (ho (by simp)) rfl (Except.ok.inj hsum).le
  | case10 allocated env =>
    -- nothing was recorded since the sum was taken
    have hc := h.fits i
    rw [hi] at hc
    exact h.aside rfl le_rfl (fun _ => hc) rfl trivial
  | case11 => exact hself

/-- **Memory stays within the capacity**: in every interleaving of calls and rounds of the monitoring
    task in which requests are validated one after another and no allocation is recorded between a
    sum and its writing, and with a reserve that fits. -/
theorem within_capacity_along (pf : MemoryPlatform) (limits : ResourceLimits) (now : ℤ)
    (hreserve : limits.systemReserve ≤ (new limits now).effectiveCapacity pf)
    (run : List (ℕ × MemoryStep))
    (hserial : Run.Along (Calls.System.step (memoryAct pf)) Serial (new limits now).beginCalls
      run) :
    ∀ s ∈ run.scanl (Calls.System.step (memoryAct pf)) (new limits now).beginCalls,
      s.shared.WithinCapacity pf := by
  have hnone : (new limits now).liveTotal = 0 := by
    rw [liveTotal, new, Table.sumOf, Table.toList_empty]
    rfl
  have hstart : Bounded pf (new limits now).beginCalls := by
    refine ⟨?_, ?_, fun _ => ?_, ?_⟩
    · show (new limits now).liveTotal + limits.systemReserve ≤ _
      rw [hnone, Nat.zero_add]
      exact hreserve
    · exact fun i => trivial
    · exact hnone.le
    · rintro i j - ⟨⟨⟩, -⟩
  exact fun s hs => (Run.invariant bounded_step hstart hserial s hs).within

def plain : MemoryPlatform where
  toPlatform := .release
  overcommitted _ limit := limit % 2 ^ 64
  overcommitted_lt _ _ := Nat.mod_lt _ (Nat.two_pow_pos 64)

def oneGigabyte : ResourceLimits where
  hardLimit := 1000
  softLimit := 1000
  allowOvercommit := false
  overcommitRatio := 0
  systemReserve := 100
  hardLimit_lt := by decide

def memoryFor (amount : ℕ) : ResourceAllocationRequest :=
  ⟨"request", "a", .memory, amount, 100, false, none, []⟩

def atNanos (nanos : ℤ) : MemoryEnv := ⟨fun _ => 0, nanos, some 0, id⟩

/-- An allocation overlaps with a release and with a round of the monitoring task. -/
def overlapping : List (ℕ × MemoryStep) :=
  [(0, .validate (memoryFor 600)), (0, .record (atNanos 1)), (3, .sum), (0, .update (atNanos 1)),
    (1, .validate (memoryFor 300)), (2, .remove "mem-a-1"), (3, .write (atNanos 2)),
    (1, .record (atNanos 3)), (2, .update (atNanos 4)), (1, .update (atNanos 5))]

/-- Only calls that took a step can be under way. -/
theorem idle_of_few {i : ℕ} {p : MemoryCall → Bool} (xs : List (ℕ × MemoryStep))
    (hxs : ∀ x ∈ xs, x.1 < 4) (hp : p .notBegun = false)
    (hfew : ∀ j < 4, j ≠ i → p ((xs.foldl (Calls.System.step (memoryAct plain))
      (new oneGigabyte 0).beginCalls).calls j) = false) :
    ∀ j, j ≠ i → p ((xs.foldl (Calls.System.step (memoryAct plain))
      (new oneGigabyte 0).beginCalls).calls j) = false := by
  intro j hj
  by_cases hlt : j < 4
  · exact hfew j hlt hj
  · have ho : ∀ x ∈ xs, x.1 ≠ j := fun x hx heq => hlt (heq ▸ hxs x hx)
    rw [Calls.foldl_calls_of_notMem ho]
    exact hp

theorem within_capacity_overlapping :
    oneGigabyte.systemReserve ≤ (new oneGigabyte 0).effectiveCapacity plain ∧
    Run.Along (Calls.System.step (memoryAct plain)) Serial (new oneGigabyte 0).beginCalls
      overlapping ∧
    (∀ s ∈ overlapping.scanl (Calls.System.step (memoryAct plain)) (new oneGigabyte 0).beginCalls,
      s.shared.WithinCapacity plain) ∧
    (overlapping.scanl (Calls.System.step (memoryAct plain)) (new oneGigabyte 0).beginCalls).map
      (·.shared.liveTotal) = [0, 0, 600, 600, 600, 600, 0, 0, 300, 300, 300] := by
  have hreserve : oneGigabyte.systemReserve ≤ (new oneGigabyte 0).effectiveCapacity plain := by
    decide
  have hserial : Run.Along (Calls.System.step (memoryAct plain)) Serial
      (new oneGigabyte 0).beginCalls overlapping := by
    refine ⟨?_, ?_, trivial, trivial, ?_, trivial, trivial, ?_, trivial, trivial, trivial⟩
    · exact fun j _ => rfl
    · exact idle_of_few (overlapping.take 1) (by decide) rfl (by decide +kernel)
    · exact idle_of_few (overlapping.take 4) (by decide) rfl (by decide +kernel)
    · exact idle_of_few (overlapping.take 7) (by decide) rfl (by decide +kernel)
  exact ⟨hreserve, hserial, within_capacity_along plain oneGigabyte 0 hreserve overlapping hserial,
    by decide +kernel⟩

def bothValidated : List (ℕ × MemoryStep) :=
  [(0, .validate (memoryFor 600)), (1, .validate (memoryFor 600)), (0, .record (atNanos 1)),
    (1, .record (atNanos 2)), (0, .update (atNanos 3)), (1, .update (atNanos 4))]

/-- **More memory than there is**: two allocations of 600 MB from 1000. -/
theorem allocated_beyond_capacity :
    ¬ ∀ (pf : MemoryPlatform) (limits : ResourceLimits) (now : ℤ),
      limits.systemReserve ≤ (new limits now).effectiveCapacity pf →
      ∀ run : List (ℕ × MemoryStep),
        ∀ s ∈ run.scanl (Calls.System.step (memoryAct pf)) (new limits now).beginCalls,
          s.shared.WithinCapacity pf := by
  intro h
  have hlast := h plain oneGigabyte 0 (by decide) bothValidated _ (Run.foldl_mem_scanl _ _)
  have htotal : (bothValidated.foldl (Calls.System.step (memoryAct plain))
      (new oneGigabyte 0).beginCalls).shared.liveTotal = 1200 := by decide +kernel
  have hlimits : (bothValidated.foldl (Calls.System.step (memoryAct plain))
      (new oneGigabyte 0).beginCalls).shared.effectiveCapacity plain = 1000 := by decide +kernel
  rw [WithinCapacity, htotal, hlimits] at hlast
  omega

end MemoryResourceManager

end Blixard
