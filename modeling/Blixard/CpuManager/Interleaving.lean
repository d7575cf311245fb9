/-
  CPU allocations that run at the same time.

  `allocate` finds its cores, marks them and records the allocation under one lock each.  Two
  exclusive calls that find cores before either marks them get the same ones
  (`core_given_twice`).
-/
import Blixard.CpuManager.Accounting
import Blixard.Lib.Calls
import Mathlib.Algebra.Order.BigOperators.Group.List

namespace Blixard

open Calls CoreUsage List Table

namespace CpuResourceManager

/-! ## Calls -/

inductive AllocateCall where
  | notBegun
  | found (request : ResourceAllocationRequest) (cores : List ℕ)
  | marked (allocation : CpuAllocation)
  | returned (result : Except Failure ResourceAllocation)
  deriving DecidableEq

inductive AllocateStep where
  | find (request : ResourceAllocationRequest) (env : CpuEnv)
  | mark (env : CpuEnv)
  | record (env : CpuEnv)

structure Granting where
  manager : CpuResourceManager
  given : List CpuAllocation

def recordAllocation (env : CpuEnv) (m : CpuResourceManager) (allocation : CpuAllocation) :
    CpuResourceManager :=
  let m := updateUsageStats env { m with
    allocations := m.allocations.insert allocation.base.allocationId allocation }
  { m with state := { m.state with
      totalAllocations := m.state.totalAllocations + 1
      allocationTimes := recordTime m.state.allocationTimes env.elapsed } }

def allocateAct (pf : Platform) (g : Granting) :
    AllocateCall → AllocateStep → Granting × AllocateCall
  | .notBegun, .find request env =>
    if request.resourceType ≠ .cpu then
      (g, .returned (.error (.error (.configurationError "cpu_manager.allocation.resource_type"
        "CPU manager can only ha CPU resources"))))
    else
      match g.manager.findAvailableCores env (request.amount % 2 ^ 32) request.isExclusive with
      | .error e => (g, .returned (.error (.error e)))
      | .ok cores => (g, .found request cores)
  | .found request cores, .mark env =>
    let allocation := g.manager.cpuAllocation env request cores
    match allocateCores pf request.isExclusive request.tenantId g.manager.coreUsage cores with
    | (coreUsage, .error failure) =>
      ({ g with manager := { g.manager with coreUsage } }, .returned (.error failure))
    | (coreUsage, .ok ()) =>
      (⟨{ g.manager with coreUsage }, allocation :: g.given⟩, .marked allocation)
  | .marked allocation, .record env =>
    ({ g with manager := g.manager.recordAllocation env allocation },
      .returned (.ok allocation.base))
  | call, _ => (g, call)

def beginCalls (m : CpuResourceManager) : Calls.System Granting AllocateCall :=
  .start ⟨m, m.allocations.toList.map Prod.snd⟩ .notBegun

variable {pf : Platform}

/-- A call whose steps no other call comes between is `allocate`. -/
theorem foldl_allocate (s : Calls.System Granting AllocateCall) {i : ℕ}
    (hi : s.calls i = .notBegun) (req : ResourceAllocationRequest) (env : CpuEnv) :
    let s' := ([.find req env, .mark env, .record env].map fun step => (i, step)).foldl
      (Calls.System.step (allocateAct pf)) s
    (s'.shared.manager, s'.calls i) =
      Prod.map id .returned (s.shared.manager.allocate pf env req) := by
  intro s'
  have ha := @Calls.foldl_step_alone _ _ _ (allocateAct pf)
    [.find req env, .mark env, .record env] s i
  show Prod.map Granting.manager id (s'.shared, s'.calls i) = _
  rw [ha, hi, foldl_cons, foldl_cons, foldl_cons, foldl_nil]
  by_cases htype : req.resourceType = .cpu
  · cases hfind : s.shared.manager.findAvailableCores env (req.amount % 2 ^ 32)
      req.isExclusive with
    | error e =>
      simp only [allocateAct, allocate, htype, ne_eq, not_true_eq_false, if_false, hfind]
      rfl
    | ok cores =>
      simp only [allocateAct, allocate, htype, ne_eq, not_true_eq_false, if_false, hfind]
      rcases allocateCores pf req.isExclusive req.tenantId s.shared.manager.coreUsage
        cores with ⟨coreUsage, _ | _⟩ <;> rfl
  · simp only [allocateAct, allocate, ne_eq, htype, not_false_eq_true, if_true]
    rfl

def usableCores (m : CpuResourceManager) (exclusive : Bool) : ℕ :=
  (m.coreUsage.toList.filter fun row => row.2.mayUse exclusive).length

/-- An exclusively held core was given to no newer allocation, and an exclusive allocation only
    cores that no older one holds, as long as the 32-bit counts have room. -/
structure Granting.Exclusive (g : Granting) : Prop where
  kept : g.given.Pairwise fun newer older =>
    older.exclusive → newer.assignedCores.Disjoint older.assignedCores
  idle : g.given.length + 1 < 2 ^ 32 → g.given.Pairwise fun newer older =>
    newer.exclusive → newer.assignedCores.Disjoint older.assignedCores

/-- A call looks for cores while no other call stands between finding and marking its cores,
    unless both are for shared cores. -/
def Serial (s : Calls.System Granting AllocateCall) (x : ℕ × AllocateStep) : Prop :=
  ∀ request env, x.2 = .find request env → ∀ j request' cores, j ≠ x.1 →
    s.calls j = .found request' cores →
      request.isExclusive = false ∧ request'.isExclusive = false

/-! ## Marking cores -/

variable {exclusive : Bool} {tenantId : String}

theorem get_allocateCores_of_not_mem {cores : List ℕ} {id : ℕ} (hid : id ∉ cores)
    (t : Table ℕ CoreUsage) : (allocateCores pf exclusive tenantId t cores).1[id]? = t[id]? := by
  induction cores generalizing t with
  | nil => rfl
  | cons c cores ih =>
    obtain ⟨hne, hrest⟩ := ne_and_not_mem_of_not_mem_cons hid
    rw [allocateCores]
    cases t[c]? with
    | none => exact ih hrest t
    | some core =>
      dsimp only
      split
      · rfl
      · rw [ih hrest, get_insert, if_neg hne.symm]

theorem flag_allocateCores (cores : List ℕ) (t : Table ℕ CoreUsage) (id : ℕ) :
    (allocateCores pf false tenantId t cores).1[id]?.map (·.exclusive) =
      t[id]?.map (·.exclusive) := by
  induction cores generalizing t with
  | nil => rfl
  | cons c cores ih =>
    rw [allocateCores]
    cases hcore : t[c]? with
    | none => exact ih t
    | some core =>
      dsimp only
      split
      · rfl
      · rename_i core' htake
        obtain ⟨vcpus, -, rfl⟩ := map_eq_ok htake
        rw [ih, get_insert]
        split_ifs with hid
        · rw [← hid, hcore]
          rfl
        · rfl

structure Ready (m : CpuResourceManager) (request : ResourceAllocationRequest)
    (cores : List ℕ) : Prop where
  choice : m.Choice request.isExclusive cores
  enough : request.amount % 2 ^ 32 ≤ cores.length

structure Granting.Guarded (g : Granting) : Prop where
  exclusive : g.Exclusive
  held : ∀ a ∈ g.given, a.exclusive → ∀ id ∈ a.assignedCores, ∀ core,
    g.manager.coreUsage[id]? = some core → core.exclusive ∧ core.allocatedVcpus ≠ 0
  counted : g.given.length + 1 < 2 ^ 32 → ∀ id core,
    g.manager.coreUsage[id]? = some core →
      core.allocatedVcpus = (g.given.map (holds id)).sum

variable {m : CpuResourceManager} {g : Granting} {request : ResourceAllocationRequest}
  {cores : List ℕ}

variable {call : AllocateCall} {core : CoreUsage} {a : CpuAllocation}
  {coreUsage : Table ℕ CoreUsage} {id needed : ℕ}

theorem le_length_of_sufficient {cores chosen : List ℕ}
    (h : sufficient needed cores = .ok chosen) : needed ≤ chosen.length := by
  unfold sufficient at h
  split_ifs at h with hless
  cases h
  exact Nat.le_of_not_lt hless

theorem le_length_of_find {env : CpuEnv}
    (h : m.findAvailableCores env needed exclusive = .ok cores) : needed ≤ cores.length := by
  unfold findAvailableCores at h
  cases hp : m.schedulingPolicy with
  | firstFit | bestFit | roundRobin => simp only [hp] at h; exact le_length_of_sufficient h
  | affinityAware =>
    simp only [hp] at h
    split_ifs at h with he
    · cases h
      rw [length_take]
      omega
    · exact le_length_of_sufficient h

theorem Choice.length_le (h : m.Choice exclusive cores) :
    cores.length ≤ m.usableCores exclusive := by
  have hsub : cores ⊆ (m.coreUsage.toList.filter fun row => row.2.mayUse exclusive).map
      Prod.fst := by
    intro id hid
    obtain ⟨core, hcore, huse⟩ := h.usable id hid
    refine mem_map.2 ⟨(id, core), mem_filter.2 ⟨?_, huse⟩, rfl⟩
    exact Std.ExtTreeMap.mem_toList_iff_getElem?_eq_some.2 hcore
  have hle := (subperm_of_subset h.nodup hsub).length_le
  rwa [length_map] at hle

theorem Granting.Guarded.not_held (h : g.Guarded) (hrdy : g.manager.Ready request cores)
    (ha : a ∈ g.given) (he : a.exclusive) : cores.Disjoint a.assignedCores := by
  intro id hid hheld
  obtain ⟨core, hcore, huse⟩ := hrdy.choice.usable id hid
  obtain ⟨hflag, hc⟩ := h.held a ha he id hheld core hcore
  unfold mayUse at huse
  split_ifs at huse <;> simp_all

theorem Granting.Guarded.sum_eq_zero (h : g.Guarded) (hroom : g.given.length + 1 < 2 ^ 32)
    (hrdy : g.manager.Ready request cores) (he : request.isExclusive)
    (hid : id ∈ cores) : (g.given.map (holds id)).sum = 0 := by
  obtain ⟨core, hcore, huse⟩ := hrdy.choice.usable id hid
  rw [← h.counted hroom id core hcore]
  simpa [mayUse, he] using huse

theorem sum_holds_le_length (id : ℕ) (given : List CpuAllocation) :
    (given.map (holds id)).sum ≤ given.length := by
  induction given with
  | nil => simp
  | cons a given ih =>
    simp only [map_cons, sum_cons, length_cons, holds]
    split_ifs <;> omega

theorem Granting.Guarded.allocateCores_eq (h : g.Guarded)
    (hroom : request.isExclusive = false → g.given.length + 1 < 2 ^ 32)
    (hrdy : g.manager.Ready request cores) :
    allocateCores pf request.isExclusive request.tenantId g.manager.coreUsage cores =
      (modifyAll g.manager.coreUsage cores (taken request.isExclusive request.tenantId),
        .ok ()) := by
  refine CpuResourceManager.allocateCores_eq _ _ hrdy.choice.nodup ?_
  intro hs id _ core hcore
  have hle := sum_holds_le_length id g.given
  rw [h.counted (hroom hs) id core hcore]
  have := hroom hs
  omega

def Granting.mark (g : Granting) (coreUsage : Table ℕ CoreUsage) (a : CpuAllocation) : Granting :=
  ⟨{ g.manager with coreUsage }, a :: g.given⟩

theorem exclusive_mark (h : g.Guarded) (hrdy : g.manager.Ready request cores) (env : CpuEnv)
    (coreUsage : Table ℕ CoreUsage) :
    (g.mark coreUsage (g.manager.cpuAllocation env request cores)).Exclusive := by
  refine ⟨pairwise_cons.2 ⟨fun a ha he => h.not_held hrdy ha he,
    h.exclusive.kept⟩, fun hroom => pairwise_cons.2 ⟨?_, ?_⟩⟩
  · intro a ha he id hid hheld
    have hroom' : g.given.length + 1 < 2 ^ 32 := Nat.lt_of_succ_lt hroom
    have hzero := h.sum_eq_zero hroom' hrdy he hid
    have hone : holds id a = 0 := sum_eq_zero_iff.1 hzero _ (mem_map_of_mem ha)
    simp [holds, hheld] at hone
  · exact h.exclusive.idle (Nat.lt_of_succ_lt hroom)

theorem held_mark (h : g.Guarded) (hrdy : g.manager.Ready request cores) (env : CpuEnv)
    (ha : a ∈ g.manager.cpuAllocation env request cores :: g.given)
    (he : a.exclusive) (hid : id ∈ a.assignedCores)
    (hcore : (allocateCores pf request.isExclusive request.tenantId g.manager.coreUsage
      cores).1[id]? = some core) : core.exclusive ∧ core.allocatedVcpus ≠ 0 := by
  rcases mem_cons.1 ha with rfl | ha
  · -- an exclusive call has flagged its cores
    have hreq : request.isExclusive = true := he
    have hmem : id ∈ cores := hid
    rw [h.allocateCores_eq (by simp [hreq]) hrdy, get_modifyAll hrdy.choice.nodup,
      if_pos hmem, Option.map_eq_some_iff] at hcore
    obtain ⟨old, -, rfl⟩ := hcore
    simp [taken, hreq]
  · have hnot : id ∉ cores := fun hmem => h.not_held hrdy ha he hmem hid
    rw [get_allocateCores_of_not_mem hnot] at hcore
    exact h.held a ha he id hid core hcore

theorem counted_mark (h : g.Guarded) (hrdy : g.manager.Ready request cores) (env : CpuEnv)
    (hroom : g.given.length + 1 < 2 ^ 32)
    (hcore : (allocateCores pf request.isExclusive request.tenantId g.manager.coreUsage
      cores).1[id]? = some core) : core.allocatedVcpus =
      ((g.manager.cpuAllocation env request cores :: g.given).map (holds id)).sum := by
  rw [h.allocateCores_eq (fun _ => hroom) hrdy, get_modifyAll hrdy.choice.nodup] at hcore
  simp only [map_cons, sum_cons, holds, cpuAllocation]
  split_ifs at hcore with hid
  · obtain ⟨old, hold, rfl⟩ := Option.map_eq_some_iff.1 hcore
    rw [if_pos hid]
    have hc := h.counted hroom id old hold
    cases he : request.isExclusive with
    | true => simp [taken, h.sum_eq_zero hroom hrdy he hid]
    | false =>
      simp only [taken, Bool.false_eq_true, if_false, hc]
      omega
  · rw [if_neg hid, Nat.zero_add]
    exact h.counted hroom id core hcore

theorem guarded_mark (h : g.Guarded) (hrdy : g.manager.Ready request cores) (env : CpuEnv) :
    (g.mark (allocateCores pf request.isExclusive request.tenantId g.manager.coreUsage cores).1
      (g.manager.cpuAllocation env request cores)).Guarded := by
  refine ⟨exclusive_mark h hrdy env _, ?_, ?_⟩
  · exact fun _ ha he _ hid _ => held_mark h hrdy env ha he hid
  · exact fun hroom _ _ => counted_mark h hrdy env (Nat.lt_of_succ_lt hroom)

theorem guarded_fail (h : g.Guarded) (hrdy : g.manager.Ready request cores) {fail : Failure}
    (hfail : allocateCores pf request.isExclusive request.tenantId g.manager.coreUsage cores =
      (coreUsage, .error fail)) :
    ({ g with manager := { g.manager with coreUsage } } : Granting).Guarded := by
  refine ⟨⟨h.exclusive.kept, h.exclusive.idle⟩, fun a ha he id hid core hcore => ?_,
    fun hroom => ?_⟩
  · have hnot : id ∉ cores := fun hmem => h.not_held hrdy ha he hmem hid
    have hsame := @get_allocateCores_of_not_mem pf request.isExclusive request.tenantId cores id
      hnot g.manager.coreUsage
    rw [hfail] at hsame
    exact h.held a ha he id hid core (hsame ▸ hcore)
  · -- with room in the counts nothing panics
    rw [h.allocateCores_eq (fun _ => hroom) hrdy] at hfail
    cases hfail

/-! ## Every interleaving -/

def CallReady (m : CpuResourceManager) (call : AllocateCall) : Prop :=
  ∀ request cores, call = .found request cores → m.Ready request cores

def BothShared (call call' : AllocateCall) : Prop :=
  ∀ request cores request' cores', call = .found request cores → call' = .found request' cores' →
    request.isExclusive = false ∧ request'.isExclusive = false

structure Orderly (s : Calls.System Granting AllocateCall) : Prop where
  guarded : s.shared.Guarded
  ready : ∀ i, s.shared.manager.CallReady (s.calls i)
  apart : ∀ i j, i ≠ j → BothShared (s.calls i) (s.calls j)

theorem BothShared.symm {call' : AllocateCall} (h : BothShared call call') :
    BothShared call' call :=
  fun _ _ _ _ hcall hcall' => (h _ _ _ _ hcall' hcall).symm

theorem Ready.of_shared (h : m.Ready request cores) (hs : request.isExclusive = false)
    (hf : ∀ id : ℕ, coreUsage[id]?.map (·.exclusive) = m.coreUsage[id]?.map (·.exclusive)) :
    ({ m with coreUsage } : CpuResourceManager).Ready request cores := by
  refine ⟨⟨h.choice.nodup, fun id hid => ?_⟩, h.enough⟩
  obtain ⟨core, hcore, huse⟩ := h.choice.usable id hid
  have hflag := hf id
  rw [hcore] at hflag
  obtain ⟨core', hcore', hsame⟩ := Option.map_eq_some_iff.1 hflag
  refine ⟨core', hcore', ?_⟩
  rw [hs] at huse ⊢
  simpa [mayUse, hsame] using huse

variable {s : Calls.System Granting AllocateCall} {i : ℕ}

theorem Orderly.after (h : Orderly s) {g : Granting} (hg : g.Guarded)
    (hself : g.manager.CallReady call) (ho : ∀ j, j ≠ i → g.manager.CallReady (s.calls j))
    (ha : ∀ j, j ≠ i → BothShared call (s.calls j)) : Orderly (s.put i (g, call)) where
  guarded := hg
  ready := forall_calls_put hself ho
  apart _ _ hjk :=
    pairwise_calls_put (R := BothShared) (fun _ _ => BothShared.symm) ha h.apart hjk

theorem Orderly.after_of_not_found (h : Orderly s) {g : Granting}
    (hcall : ∀ req cores, call ≠ .found req cores) (hg : g.Guarded)
    (ho : ∀ j, j ≠ i → g.manager.CallReady (s.calls j)) : Orderly (s.put i (g, call)) :=
  h.after hg (fun req cores heq => absurd heq (hcall req cores)) ho
    fun _ _ req cores _ _ heq => absurd heq (hcall req cores)

theorem Orderly.ready_mark (h : Orderly s) (hi : s.calls i = .found request cores) {j : ℕ}
    (hj : j ≠ i) : CallReady { s.shared.manager with
      coreUsage := (allocateCores pf request.isExclusive request.tenantId
        s.shared.manager.coreUsage cores).1 } (s.calls j) := by
  intro req' cores' ho
  obtain ⟨hs, hs'⟩ := h.apart i j hj.symm _ _ _ _ hi ho
  rw [hs]
  exact (h.ready j req' cores' ho).of_shared hs' (flag_allocateCores cores _)

theorem orderly_step (s : Calls.System Granting AllocateCall) (x : ℕ × AllocateStep)
    (h : Orderly s) (hs : Serial s x) : Orderly (s.step (allocateAct pf) x) := by
  obtain ⟨i, step⟩ := x
  have hself : Orderly (s.put i (s.shared, s.calls i)) := by rwa [put_self]
  rw [step_eq_put]
  generalize hi : s.calls i = call at hself
  -- the cases are those of `allocateAct`, in its order
  fun_cases allocateAct pf s.shared call step with
  | case1 | case2 => exact h.after_of_not_found (by simp) h.guarded fun j _ => h.ready j
  | case3 req env htype cores hfind =>
    refine h.after h.guarded ?_ (fun j _ => h.ready j) ?_
    · rintro _ _ ⟨⟩
      exact ⟨findAvailableCores_ok hfind, le_length_of_find hfind⟩
    · rintro j hj _ _ request' cores' ⟨⟩ ht
      exact hs req env rfl j request' cores' hj ht
  | case4 req cores env coreUsage fail htake =>
    have ho {j : ℕ} := @Orderly.ready_mark pf req cores s i h hi j
    rw [htake] at ho
    exact h.after_of_not_found (by simp)
      (guarded_fail h.guarded (h.ready i req cores hi) htake) fun _ => ho
  | case5 req cores env alloc coreUsage htake =>
    have ho {j : ℕ} := @Orderly.ready_mark pf req cores s i h hi j
    have hg :=
      @guarded_mark pf s.shared req cores h.guarded (h.ready i req cores hi) env
    rw [htake] at ho hg
    exact h.after_of_not_found (by simp) hg fun _ => ho
  | case6 alloc env =>
    exact h.after_of_not_found (by simp)
      ⟨⟨h.guarded.exclusive.kept, h.guarded.exclusive.idle⟩, h.guarded.held, h.guarded.counted⟩
      fun j _ req cores heq => ⟨⟨(h.ready j _ _ heq).choice.nodup,
        (h.ready j _ _ heq).choice.usable⟩, (h.ready j _ _ heq).enough⟩
  | case7 => exact hself

/-! ## The start -/

theorem Balanced.disjoint (h : m.Balanced) {id id' : String} {b : CpuAllocation} (hne : id ≠ id')
    (ha : m.allocations[id]? = some a) (hb : m.allocations[id']? = some b) (he : b.exclusive) :
    a.assignedCores.Disjoint b.assignedCores := by
  intro cid hm hb1
  have hone := (h.alone id' b hb he cid hb1).1
  have htwo := two_le_holders hne ha hb hm hb1
  omega

end CpuResourceManager

end Blixard
