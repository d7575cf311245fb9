/-
  Do the cores count the allocations that hold them?

  Every call keeps the cores `Balanced` as long as the ids of live allocations differ and the
  32-bit count of a core has room for one more (`accounted_along`).
-/
import Blixard.CpuManager
import Blixard.Lib.Run
import Std.Data.String.ToNat

namespace Blixard

open List Std.ExtTreeMap Table

namespace CpuResourceManager

def holds (coreId : ℕ) (a : CpuAllocation) : ℕ := if coreId ∈ a.assignedCores then 1 else 0

def holders (m : CpuResourceManager) (coreId : ℕ) : ℕ :=
  Table.sumOf (fun _ => holds coreId) m.allocations

inductive Call where
  | initializeManager
  | allocate (request : ResourceAllocationRequest)
  | deallocate (allocationId : String)

def call (pf : Platform) (m : CpuResourceManager) (x : Call × CpuEnv) : CpuResourceManager :=
  match x.1 with
  | .initializeManager => (m.initializeManager x.2).1
  | .allocate request => (m.allocate pf x.2 request).1
  | .deallocate allocationId => (m.deallocate x.2 allocationId).1

/-- An allocation gets an id that no live allocation has. -/
def FreshId (m : CpuResourceManager) (x : Call × CpuEnv) : Prop :=
  ∀ request, x.1 = .allocate request → x.2.allocationId request.tenantId ∉ m.allocations

/-- When an allocation is made, every core can count one more. -/
def HasRoom (m : CpuResourceManager) (x : Call × CpuEnv) : Prop :=
  ∀ request, x.1 = .allocate request → ∀ coreId, m.holders coreId + 1 < 2 ^ 32

def deallocateAll (m : CpuResourceManager) (ids : List (String × CpuEnv)) : CpuResourceManager :=
  ids.foldl (fun m x => (m.deallocate x.2 x.1).1) m

/-- Cores count the live allocations that hold them, an exclusive core is held by one, and
    when all are returned, in whatever order, every core is as it was created. -/
structure Accounted (m : CpuResourceManager) : Prop where
  counted : ∀ (coreId : ℕ) core, m.coreUsage[coreId]? = some core →
    core.allocatedVcpus = m.holders coreId
  flagged : ∀ (coreId : ℕ) core, m.coreUsage[coreId]? = some core → core.exclusive →
    m.holders coreId = 1
  alone : ∀ (id : String) a, m.allocations[id]? = some a → a.exclusive →
    ∀ coreId ∈ a.assignedCores, m.holders coreId = 1
  restored : ∀ ids, (∀ id ∈ m.allocations, id ∈ ids.map Prod.fst) → ∀ policy now,
    (m.deallocateAll ids).coreUsage = (new policy m.totalCores now).coreUsage

/-! ## The invariant -/

structure Balanced (m : CpuResourceManager) : Prop where
  cores : ∀ coreId, coreId ∈ m.coreUsage ↔ coreId < m.totalCores
  row : ∀ (coreId : ℕ) core, m.coreUsage[coreId]? = some core →
    core.coreId = coreId ∧ core.utilizationPercent = 0 ∧
      core.allocatedVcpus = m.holders coreId ∧
      (core.exclusive = false → core.exclusiveTenant = none)
  flagged : ∀ (coreId : ℕ) core, m.coreUsage[coreId]? = some core → core.exclusive →
    ∃ (id : String) (a : CpuAllocation), m.allocations[id]? = some a ∧ a.exclusive ∧
      coreId ∈ a.assignedCores
  alone : ∀ (id : String) a, m.allocations[id]? = some a → a.exclusive →
    ∀ coreId ∈ a.assignedCores, m.holders coreId = 1 ∧
      ∀ core, m.coreUsage[coreId]? = some core → core.exclusive
  nodup : ∀ (id : String) a, m.allocations[id]? = some a → a.assignedCores.Nodup

variable {pf : Platform} {env : CpuEnv} {m : CpuResourceManager}

theorem get_new (policy : CpuSchedulingPolicy) (totalCores : ℕ) (now : ℤ) (coreId : ℕ) :
    (new policy totalCores now).coreUsage[coreId]? =
      if coreId < totalCores then some (.idle coreId) else none := by
  have hrow : ∀ core, (new policy totalCores now).coreUsage[coreId]? = some core →
      coreId < totalCores ∧ core = .idle coreId := by
    intro core hcore
    obtain ⟨id, hid, heq⟩ := mem_map.1 (mem_of_get_putAll hcore)
    cases heq
    exact ⟨mem_range.1 hid, rfl⟩
  split_ifs with hlt
  · have hmem : coreId ∈ (new policy totalCores now).coreUsage := by
      rw [new, mem_putAll]
      simp [hlt]
    obtain ⟨core, hcore⟩ := (mem_iff _ _).1 hmem
    rw [hcore, (hrow core hcore).2]
  · cases hcore : (new policy totalCores now).coreUsage[coreId]? with
    | none => rfl
    | some core => exact absurd (hrow core hcore).1 hlt

theorem balanced_new (pol : CpuSchedulingPolicy) (totalCores : ℕ) (now : ℤ) :
    (new pol totalCores now).Balanced := by
  have hnone : ∀ (id : String) a, ¬ (new pol totalCores now).allocations[id]? = some a := by
    intro id a h
    simp [new] at h
  refine ⟨fun cid => ?_, ?_, ?_, fun id a h => absurd h (hnone id a),
    fun id a h => absurd h (hnone id a)⟩
  · rw [mem_iff, get_new]
    show _ ↔ cid < totalCores
    split_ifs with hlt <;> simp [hlt]
  · intro cid core hcore
    rw [get_new] at hcore
    split_ifs at hcore
    cases hcore
    refine ⟨rfl, rfl, ?_, fun _ => rfl⟩
    rw [holders, sumOf, new, toList_empty]
    rfl
  · intro cid core hcore he
    rw [get_new] at hcore
    split_ifs at hcore
    cases hcore
    cases he

/-! ## What the calls do -/

def taken (exclusive : Bool) (tenantId : String) (core : CoreUsage) : CoreUsage :=
  if exclusive then
    { core with exclusive := true, exclusiveTenant := some tenantId, allocatedVcpus := 1 }
  else { core with allocatedVcpus := core.allocatedVcpus + 1 }

theorem allocateCores_eq (excl : Bool) (tid : String) {cores : List ℕ}
    (hc : cores.Nodup) {t : Table ℕ CoreUsage}
    (hroom : excl = false → ∀ id ∈ cores, ∀ core, t[id]? = some core →
      core.allocatedVcpus + 1 < 2 ^ 32) : allocateCores pf excl tid t cores =
      (modifyAll t cores (taken excl tid), .ok ()) := by
  induction cores generalizing t with
  | nil => rfl
  | cons id cores ih =>
    obtain ⟨hid, hc⟩ := nodup_cons.1 hc
    show allocateCores pf excl tid t (id :: cores) =
      (modifyAll (t.modify id (taken excl tid)) cores (taken excl tid),
        .ok ())
    rw [allocateCores]
    cases hcore : t[id]? with
    | none =>
      rw [modify_of_get_none hcore]
      exact ih hc fun hs id' hid' => hroom hs id' (mem_cons_of_mem id hid')
    | some core =>
      have ht : allocateCore pf excl tid core =
          .ok (taken excl tid core) := by
        cases excl with
        | true => rfl
        | false =>
          have hlt := hroom rfl id mem_cons_self core hcore
          simp only [allocateCore, taken, pf.addUnsigned_of_lt hlt, Bool.false_eq_true, if_false]
          rfl
      rw [modify_of_get hcore]
      simp only [ht]
      refine ih hc fun hs id' hid' core' hcore' => ?_
      have hne : id ≠ id' := fun h => hid (h ▸ hid')
      rw [get_insert, if_neg hne] at hcore'
      exact hroom hs id' (mem_cons_of_mem id hid') core' hcore'

structure SameCores (m m' : CpuResourceManager) : Prop where
  allocations : m'.allocations = m.allocations
  coreUsage : m'.coreUsage = m.coreUsage
  totalCores : m'.totalCores = m.totalCores

structure Takes (m m' : CpuResourceManager) (id tenantId : String) (a : CpuAllocation) :
    Prop where
  choice : m.Choice a.exclusive a.assignedCores
  allocations : m'.allocations = m.allocations.insert id a
  coreUsage : m'.coreUsage =
    Table.modifyAll m.coreUsage a.assignedCores (taken a.exclusive tenantId)
  totalCores : m'.totalCores = m.totalCores

structure Returns (m m' : CpuResourceManager) (id : String) (a : CpuAllocation) : Prop where
  live : m.allocations[id]? = some a
  allocations : m'.allocations = m.allocations.erase id
  coreUsage : m'.coreUsage = deallocateCores a.exclusive m.coreUsage a.assignedCores
  totalCores : m'.totalCores = m.totalCores

theorem allocate_of_found {req : ResourceAllocationRequest} {cores : List ℕ}
    {coreUsage : Table ℕ CoreUsage} (htype : req.resourceType = .cpu)
    (hfind : m.findAvailableCores env (req.amount % 2 ^ 32) req.isExclusive = .ok cores)
    (htake : allocateCores pf req.isExclusive req.tenantId m.coreUsage cores =
      (coreUsage, .ok ())) :
    ∃ usage state, (m.allocate pf env req).1 =
      { m with
        allocations := m.allocations.insert (env.allocationId req.tenantId)
          (m.cpuAllocation env req cores)
        coreUsage
        usage
        state } := by
  simp only [allocate, htype, ne_eq, not_true_eq_false, if_false, hfind, htake]
  exact ⟨_, _, rfl⟩

/-- **What an allocation does**, if the counts have room: nothing, or it takes cores that
    may be used. -/
theorem allocate_cases (req : ResourceAllocationRequest)
    (hroom : ∀ (id : ℕ) core, m.coreUsage[id]? = some core → core.allocatedVcpus + 1 < 2 ^ 32) :
    m.SameCores (m.allocate pf env req).1 ∨
      ∃ a, m.Takes (m.allocate pf env req).1 (env.allocationId req.tenantId) req.tenantId a := by
  by_cases htype : req.resourceType = .cpu
  · cases hfind : m.findAvailableCores env (req.amount % 2 ^ 32) req.isExclusive with
    | error e =>
      simp only [allocate, htype, ne_eq, not_true_eq_false, if_false, hfind]
      exact .inl ⟨rfl, rfl, rfl⟩
    | ok cores =>
      have hc := findAvailableCores_ok hfind
      obtain ⟨usage, state, heq⟩ := allocate_of_found htype hfind
        (@allocateCores_eq pf _ req.tenantId _ hc.nodup _ fun _ id _ => hroom id)
      rw [heq]
      exact .inr ⟨m.cpuAllocation env req cores, hc, rfl, rfl, rfl⟩
  · simp only [allocate, ne_eq, htype, not_false_eq_true, if_true]
    exact .inl ⟨rfl, rfl, rfl⟩

theorem deallocate_cases (id : String) :
    (m.allocations[id]? = none ∧ m.SameCores (m.deallocate env id).1) ∨
      ∃ a, m.Returns (m.deallocate env id).1 id a := by
  unfold deallocate
  cases hlive : m.allocations[id]? with
  | none => exact .inl ⟨rfl, rfl, rfl, rfl⟩
  | some a => exact .inr ⟨a, hlive, rfl, rfl, rfl⟩

/-! ## Every call keeps the balance -/

variable {m' : CpuResourceManager} {id tenantId : String} {a : CpuAllocation}

theorem Balanced.of_same (h : m.Balanced) (hsame : m.SameCores m') : m'.Balanced := by
  have hl : m'.holders = m.holders := by
    funext coreId
    rw [holders, holders, hsame.allocations]
  constructor
  · rw [hsame.coreUsage, hsame.totalCores]
    exact h.cores
  · rw [hsame.coreUsage, hl]
    exact h.row
  · rw [hsame.coreUsage, hsame.allocations]
    exact h.flagged
  · rw [hsame.coreUsage, hsame.allocations, hl]
    exact h.alone
  · rw [hsame.allocations]
    exact h.nodup

theorem holders_takes (h : m.Takes m' id tenantId a) (hf : id ∉ m.allocations) (coreId : ℕ) :
    m'.holders coreId = holds coreId a + m.holders coreId := by
  have hnone : m.allocations[id]? = none := getElem?_eq_none hf
  rw [holders, h.allocations, sumOf_insert, erase_of_get_none hnone, holders]

theorem holders_returns (h : m.Returns m' id a) (coreId : ℕ) :
    m.holders coreId = holds coreId a + m'.holders coreId := by
  rw [holders, sumOf_of_get _ h.live, holders, h.allocations]

theorem get_takes (h : m.Takes m' id tenantId a) (cid : ℕ) :
    m'.coreUsage[cid]? = m.coreUsage[cid]?.map fun core =>
      if cid ∈ a.assignedCores then taken a.exclusive tenantId core else core := by
  rw [h.coreUsage, get_modifyAll h.choice.nodup]
  split_ifs <;> simp

theorem get_returns (h : m.Returns m' id a) (hn : a.assignedCores.Nodup) (cid : ℕ) :
    m'.coreUsage[cid]? = m.coreUsage[cid]?.map fun core =>
      if cid ∈ a.assignedCores then deallocateCore a.exclusive core else core := by
  rw [h.coreUsage, deallocateCores, get_modifyAll hn]
  split_ifs <;> simp

variable {core : CoreUsage} {b : CpuAllocation} {id' : String} {cid coreId : ℕ}

theorem Balanced.of_choice (h : m.Balanced) {excl : Bool} {cores : List ℕ}
    (hc : m.Choice excl cores) (hid : cid ∈ cores) (hcore : m.coreUsage[cid]? = some core) :
    core.exclusive = false ∧ (excl → m.holders cid = 0) := by
  obtain ⟨core', hcore', huse⟩ := hc.usable cid hid
  rw [hcore] at hcore'
  cases hcore'
  unfold CoreUsage.mayUse at huse
  cases excl with
  | false => exact ⟨by simpa using huse, by simp⟩
  | true =>
    have hzero : m.holders cid = 0 := by
      rw [← (h.row cid core hcore).2.2.1]
      simpa using huse
    refine ⟨?_, fun _ => hzero⟩
    -- an exclusive core has a holder
    cases he : core.exclusive with
    | false => rfl
    | true =>
      obtain ⟨id, a, hlive, ha, hmem⟩ := h.flagged cid core hcore he
      have hone := (h.alone id a hlive ha cid hmem).1
      rw [hzero] at hone
      cases hone

theorem not_taken_of_exclusive (h : m.Balanced) (ht : m.Takes m' id tenantId a)
    (hb : m.allocations[id']? = some b) (he : b.exclusive)
    (hmem : cid ∈ b.assignedCores) : cid ∉ a.assignedCores := by
  intro hin
  obtain ⟨core, hcore, -⟩ := ht.choice.usable cid hin
  have hs := (h.of_choice ht.choice hin hcore).1
  rw [(h.alone id' b hb he cid hmem).2 core hcore] at hs
  cases hs

theorem row_takes (h : m.Balanced) (hk : m.Takes m' id tenantId a) (hf : id ∉ m.allocations)
    (hcore : m'.coreUsage[coreId]? = some core) :
    core.coreId = coreId ∧ core.utilizationPercent = 0 ∧
      core.allocatedVcpus = m'.holders coreId ∧
      (core.exclusive = false → core.exclusiveTenant = none) := by
  rw [get_takes hk, Option.map_eq_some_iff] at hcore
  obtain ⟨core, hcore, rfl⟩ := hcore
  obtain ⟨hid, hidle, hc, ht⟩ := h.row coreId core hcore
  rw [holders_takes hk hf]
  by_cases hmem : coreId ∈ a.assignedCores
  · obtain ⟨hs, hnone⟩ := h.of_choice hk.choice hmem hcore
    simp only [hmem, if_true, holds, taken]
    cases he : a.exclusive with
    | true => simp [hid, hidle, hnone he]
    | false => simp [hid, hidle, hc, ht hs, Nat.add_comm]
  · simp only [hmem, if_false, holds, Nat.zero_add]
    exact ⟨hid, hidle, hc, ht⟩

theorem flag_takes (ht : m.Takes m' id tenantId a)
    (hcore : m'.coreUsage[cid]? = some core) (he : core.exclusive) :
    (a.exclusive ∧ cid ∈ a.assignedCores) ∨
      ∃ old, m.coreUsage[cid]? = some old ∧ old.exclusive := by
  rw [get_takes ht, Option.map_eq_some_iff] at hcore
  obtain ⟨old, hold, rfl⟩ := hcore
  by_cases hmem : cid ∈ a.assignedCores
  · cases ha : a.exclusive with
    | true => exact .inl ⟨rfl, hmem⟩
    | false =>
      simp only [hmem, if_true, taken, ha, Bool.false_eq_true, if_false] at he
      exact .inr ⟨old, hold, he⟩
  · simp only [hmem, if_false] at he
    exact .inr ⟨old, hold, he⟩

theorem alone_takes (h : m.Balanced) (ht : m.Takes m' id tenantId a) (hf : id ∉ m.allocations)
    (hb : m'.allocations[id']? = some b) (he : b.exclusive) (hmem : cid ∈ b.assignedCores) :
    m'.holders cid = 1 ∧ ∀ core, m'.coreUsage[cid]? = some core → core.exclusive := by
  rw [ht.allocations] at hb
  rw [holders_takes ht hf]
  rcases get_insert_eq_some.1 hb with ⟨-, rfl⟩ | ⟨-, hb⟩
  · obtain ⟨core, hcore, -⟩ := ht.choice.usable cid hmem
    rw [(h.of_choice ht.choice hmem hcore).2 he]
    refine ⟨by simp [holds, hmem], fun core' hcore' => ?_⟩
    rw [get_takes ht, hcore] at hcore'
    simp only [Option.map_some, hmem, if_true, taken, he, Option.some.injEq] at hcore'
    rw [← hcore']
  · have hnot := not_taken_of_exclusive h ht hb he hmem
    obtain ⟨hone, hflag⟩ := h.alone id' b hb he cid hmem
    refine ⟨by simp [holds, hnot, hone], fun core' hcore' => ?_⟩
    rw [get_takes ht, Option.map_eq_some_iff] at hcore'
    obtain ⟨core, hcore, rfl⟩ := hcore'
    simp only [hnot, if_false]
    exact hflag core hcore

theorem balanced_takes (h : m.Balanced) (ht : m.Takes m' id tenantId a)
    (hf : id ∉ m.allocations) : m'.Balanced := by
  constructor
  · intro cid
    rw [ht.totalCores, ← h.cores, mem_iff, mem_iff, get_takes ht]
    simp
  · exact fun cid core hcore => row_takes h ht hf hcore
  · intro cid core hcore he
    rcases flag_takes ht hcore he with ⟨ha, hmem⟩ | ⟨old, hold, hflag⟩
    · exact ⟨id, a, by rw [ht.allocations, get_insert, if_pos rfl], ha, hmem⟩
    obtain ⟨id', b, hb, hx, hm⟩ := h.flagged cid old hold hflag
    have hne : id ≠ id' := by
      rintro rfl
      exact hf ((mem_iff _ _).2 ⟨b, hb⟩)
    exact ⟨id', b, by rw [ht.allocations, get_insert, if_neg hne, hb], hx, hm⟩
  · exact fun id' b hb hx cid hmem => alone_takes h ht hf hb hx hmem
  · intro id' b hb
    rw [ht.allocations] at hb
    rcases get_insert_eq_some.1 hb with ⟨-, rfl⟩ | ⟨-, hb⟩
    · exact ht.choice.nodup
    · exact h.nodup id' b hb

theorem two_le_holders {id : String} (hne : id ≠ id')
    (ha : m.allocations[id]? = some a) (hb : m.allocations[id']? = some b)
    (hm : coreId ∈ a.assignedCores) (he : coreId ∈ b.assignedCores) :
    2 ≤ m.holders coreId := by
  have hrest : (m.allocations.erase id)[id']? = some b := by
    rw [get_erase, if_neg hne, hb]
  rw [holders, sumOf_of_get _ ha, sumOf_of_get _ hrest]
  simp only [holds, hm, he, if_true]
  omega

theorem row_returns (h : m.Balanced) (hr : m.Returns m' id a)
    (hcore : m'.coreUsage[coreId]? = some core) :
    core.coreId = coreId ∧ core.utilizationPercent = 0 ∧
      core.allocatedVcpus = m'.holders coreId ∧
      (core.exclusive = false → core.exclusiveTenant = none) := by
  rw [get_returns hr (h.nodup id a hr.live), Option.map_eq_some_iff] at hcore
  obtain ⟨core, hcore, rfl⟩ := hcore
  obtain ⟨hid, hidle, hc, ht⟩ := h.row coreId core hcore
  have hl := holders_returns hr coreId
  by_cases hmem : coreId ∈ a.assignedCores
  · simp only [holds, hmem, if_true] at hl ⊢
    simp only [deallocateCore]
    cases he : a.exclusive with
    | true =>
      have hone := (h.alone id a hr.live he coreId hmem).1
      have hzero : m'.holders coreId = 0 := by omega
      simp [hid, hidle, hzero]
    | false =>
      have hless : m.holders coreId - 1 = m'.holders coreId := by omega
      simp only [Bool.false_eq_true, if_false, hc, hless]
      exact ⟨hid, hidle, trivial, ht⟩
  · simp only [holds, hmem, if_false, Nat.zero_add] at hl ⊢
    rw [← hl]
    exact ⟨hid, hidle, hc, ht⟩

theorem flag_returns (h : m.Balanced) (hret : m.Returns m' id a)
    (hcore : m'.coreUsage[cid]? = some core) (he : core.exclusive) :
    ¬ (a.exclusive ∧ cid ∈ a.assignedCores) ∧
      ∃ old, m.coreUsage[cid]? = some old ∧ old.exclusive := by
  rw [get_returns hret (h.nodup id a hret.live), Option.map_eq_some_iff] at hcore
  obtain ⟨old, hold, rfl⟩ := hcore
  by_cases hmem : cid ∈ a.assignedCores
  · cases ha : a.exclusive with
    | true => simp [hmem, deallocateCore, ha] at he
    | false => exact ⟨by simp, old, hold, by simpa [hmem, deallocateCore, ha] using he⟩
  · exact ⟨fun h => hmem h.2, old, hold, by simpa [hmem] using he⟩

theorem alone_returns (h : m.Balanced) (hr : m.Returns m' id a)
    (hne : id ≠ id') (hb : m.allocations[id']? = some b) (he : b.exclusive)
    (hmem : coreId ∈ b.assignedCores) :
    m'.holders coreId = 1 ∧ ∀ core, m'.coreUsage[coreId]? = some core → core.exclusive := by
  obtain ⟨hone, hflag⟩ := h.alone id' b hb he coreId hmem
  have hnot : coreId ∉ a.assignedCores := by
    intro hin
    have htwo := two_le_holders hne hr.live hb hin hmem
    omega
  have hl := holders_returns hr coreId
  simp only [holds, hnot, if_false, Nat.zero_add] at hl
  refine ⟨hl ▸ hone, fun core' hcore' => ?_⟩
  rw [get_returns hr (h.nodup id a hr.live), Option.map_eq_some_iff] at hcore'
  obtain ⟨core, hcore, rfl⟩ := hcore'
  simp only [hnot, if_false]
  exact hflag core hcore

theorem balanced_returns (h : m.Balanced) (hret : m.Returns m' id a) : m'.Balanced := by
  have hkept : ∀ (id' : String) b, m'.allocations[id']? = some b →
      id ≠ id' ∧ m.allocations[id']? = some b := by
    intro id' b hb
    rw [hret.allocations, get_erase] at hb
    split_ifs at hb with hid
    exact ⟨hid, hb⟩
  constructor
  · intro cid
    rw [hret.totalCores, ← h.cores, mem_iff, mem_iff,
      get_returns hret (h.nodup id a hret.live)]
    simp
  · exact fun cid core hcore => row_returns h hret hcore
  · intro cid core hcore he
    obtain ⟨hnot, old, hold, hflag⟩ := flag_returns h hret hcore he
    obtain ⟨id', b, hb, hx, hm⟩ := h.flagged cid old hold hflag
    have hne : id ≠ id' := by
      rintro rfl
      rw [hret.live] at hb
      cases hb
      exact hnot ⟨hx, hm⟩
    exact ⟨id', b, by rw [hret.allocations, get_erase, if_neg hne, hb], hx, hm⟩
  · intro id' b hb hx cid hmem
    obtain ⟨hne, hb⟩ := hkept id' b hb
    exact alone_returns h hret hne hb hx hmem
  · intro id' b hb
    exact h.nodup id' b (hkept id' b hb).2

theorem balanced_deallocate (h : m.Balanced) (env : CpuEnv) (id : String) :
    (m.deallocate env id).1.Balanced := by
  rcases @deallocate_cases env m id with ⟨-, hsame⟩ | ⟨a, hret⟩
  · exact h.of_same hsame
  · exact balanced_returns h hret

theorem balanced_call (m : CpuResourceManager) (x : Call × CpuEnv) (h : m.Balanced)
    (hx : m.FreshId x ∧ m.HasRoom x) : (m.call pf x).Balanced := by
  obtain ⟨c, env⟩ := x
  cases c with
  | initializeManager => exact h.of_same ⟨rfl, rfl, rfl⟩
  | deallocate id => exact balanced_deallocate h env id
  | allocate req =>
    have hroom : ∀ (id : ℕ) core, m.coreUsage[id]? = some core →
        core.allocatedVcpus + 1 < 2 ^ 32 := by
      intro id core hcore
      rw [(h.row id core hcore).2.2.1]
      exact hx.2 req rfl id
    rcases @allocate_cases pf env m req hroom with hsame | ⟨a, ht⟩
    · exact h.of_same hsame
    · exact balanced_takes h ht (hx.1 req rfl)

/-! ## Returning everything -/

theorem deallocate_allocations (id : String) :
    (m.deallocate env id).1.allocations = m.allocations.erase id ∧
      (m.deallocate env id).1.totalCores = m.totalCores := by
  rcases @deallocate_cases env m id with ⟨hnone, hsame⟩ | ⟨a, hret⟩
  · rw [hsame.allocations, erase_of_get_none hnone]
    exact ⟨rfl, hsame.totalCores⟩
  · exact ⟨hret.allocations, hret.totalCores⟩

theorem deallocateAll_eq (ids : List (String × CpuEnv)) (m : CpuResourceManager) :
    (m.deallocateAll ids).allocations = eraseAll m.allocations (ids.map Prod.fst) ∧
      (m.deallocateAll ids).totalCores = m.totalCores ∧
      (m.Balanced → (m.deallocateAll ids).Balanced) := by
  induction ids generalizing m with
  | nil => exact ⟨rfl, rfl, id⟩
  | cons x ids ih =>
    obtain ⟨ha, htot, hb⟩ := ih (m.deallocate x.2 x.1).1
    obtain ⟨he, hsame⟩ := @deallocate_allocations x.2 m x.1
    refine ⟨?_, htot.trans hsame, fun h => hb (balanced_deallocate h x.2 x.1)⟩
    rw [he] at ha
    exact ha

theorem Balanced.coreUsage_of_empty (h : m.Balanced) (he : m.allocations = ∅)
    (pol : CpuSchedulingPolicy) (now : ℤ) : m.coreUsage = (new pol m.totalCores now).coreUsage := by
  apply Std.ExtTreeMap.ext_getElem?
  intro cid
  rw [get_new]
  cases hcore : m.coreUsage[cid]? with
  | none =>
    rw [if_neg]
    intro hlt
    obtain ⟨core, hcore'⟩ := (Table.mem_iff _ _).1 ((h.cores cid).2 hlt)
    rw [hcore] at hcore'
    cases hcore'
  | some core =>
    rw [if_pos ((h.cores cid).1 ((Table.mem_iff _ _).2 ⟨core, hcore⟩))]
    obtain ⟨hid, hidle, hc, hten⟩ := h.row cid core hcore
    have hzero : m.holders cid = 0 := by
      rw [holders, he, Table.sumOf, Table.toList_empty]
      rfl
    have hs : core.exclusive = false := by
      cases hx : core.exclusive with
      | false => rfl
      | true =>
        obtain ⟨id, a, ha, -⟩ := h.flagged cid core hcore hx
        simp [he] at ha
    obtain ⟨id, vcpus, percent, excl, tn⟩ := core
    simp only at hid hidle hc hs hten
    rw [CoreUsage.idle, hid, hidle, hc, hzero, hs, hten hs]

theorem Balanced.accounted (h : m.Balanced) : m.Accounted := by
  refine ⟨fun cid core hcore => (h.row cid core hcore).2.2.1, ?_, ?_, ?_⟩
  · intro cid core hcore he
    obtain ⟨id, a, ha, hx, hmem⟩ := h.flagged cid core hcore he
    exact (h.alone id a ha hx cid hmem).1
  · intro id a ha hx cid hmem
    exact (h.alone id a ha hx cid hmem).1
  intro ids hids pol now
  obtain ⟨hl, htot, hb⟩ := deallocateAll_eq ids m
  have hm : (m.deallocateAll ids).allocations = ∅ := by
    rw [hl]
    apply Std.ExtTreeMap.ext_getElem?
    intro id
    rw [Table.get_eraseAll, Std.ExtTreeMap.getElem?_empty]
    split_ifs with hid
    · rfl
    · exact Std.ExtTreeMap.getElem?_eq_none fun hmem => hid (hids id hmem)
  rw [(hb h).coreUsage_of_empty hm pol now, htot]

/-- **Accounting of cores**: in every run of a new manager in which ids of live allocations differ
    and no count of a core runs out of 32 bits. -/
theorem accounted_along (pf : Platform) (policy : CpuSchedulingPolicy) (totalCores : ℕ) (now : ℤ)
    (run : List (Call × CpuEnv))
    (hfresh : Run.Along (call pf) FreshId (new policy totalCores now) run)
    (hroom : Run.Along (call pf) HasRoom (new policy totalCores now) run) :
    ∀ m ∈ run.scanl (call pf) (new policy totalCores now), m.Accounted := by
  intro m hm
  have hbalanced := Run.invariant balanced_call (balanced_new policy totalCores now)
    (Run.along_and hfresh hroom) m hm
  exact hbalanced.accounted

/-! ## Examples -/

def atNanos (nanos : ℤ) : CpuEnv where
  order ids := ids
  order_perm := List.Perm.refl
  now _ := 0
  nanos
  elapsed := some 0
  coresUsed _ := 0

def coresFor (amount : ℕ) (metadata : List (String × String)) : ResourceAllocationRequest :=
  ⟨"request", "a", .cpu, amount, 100, false, none, metadata⟩

def mixedRun : List (Call × CpuEnv) :=
  [(.initializeManager, atNanos 0), (.allocate (coresFor 2 [("exclusive", "true")]), atNanos 1),
    (.allocate (coresFor 1 []), atNanos 2), (.deallocate "cpu-a-1", atNanos 3)]

theorem holders_le_size (m : CpuResourceManager) (cid : ℕ) :
    m.holders cid ≤ m.allocations.size := by
  refine (sumOf_eq_size_iff (fun _ a => ?_) m.allocations).1
  unfold holds
  split_ifs
  · exact Nat.le_refl 1
  · exact Nat.zero_le 1

theorem accounted_mixedRun :
    (∀ m ∈ mixedRun.scanl (call .release) (new .affinityAware 4 0), m.Accounted) ∧
    (mixedRun.scanl (call .release) (new .affinityAware 4 0)).map (fun m =>
        m.coreUsage.toList.map fun r => (r.2.allocatedVcpus, r.2.exclusive)) =
      [[(0, false), (0, false), (0, false), (0, false)],
        [(0, false), (0, false), (0, false), (0, false)],
        [(1, true), (1, true), (0, false), (0, false)],
        [(1, true), (1, true), (1, false), (0, false)],
        [(0, false), (0, false), (1, false), (0, false)]] := by
  refine ⟨accounted_along .release .affinityAware 4 0 mixedRun ?_ ?_, by decide +kernel⟩
  · refine ⟨?_, ?_, ?_, ?_, trivial⟩ <;> rintro request ⟨⟩ <;> decide +kernel
  have hroom : ∀ (m : CpuResourceManager) x, m.allocations.size < 2 → m.HasRoom x := by
    intro m x hsize request _ coreId
    have hle := holders_le_size m coreId
    omega
  refine ⟨hroom _ _ ?_, hroom _ _ ?_, hroom _ _ ?_, ?_, trivial⟩
  · decide +kernel
  · decide +kernel
  · decide +kernel
  · rintro request ⟨⟩

structure SharedBy (n : ℕ) (m : CpuResourceManager) : Prop where
  policy : m.schedulingPolicy = .firstFit
  totalCores : m.totalCores = 1
  core : ∃ core, m.coreUsage[0]? = some core ∧ core.exclusive = false ∧
    core.allocatedVcpus = n % 2 ^ 32
  holders : m.holders 0 = n
  ids : ∀ id ∈ m.allocations, ∃ i < n, id = (atNanos i).allocationId "a"

def sharing (n : ℕ) : List (Call × CpuEnv) :=
  (List.range n).map fun (i : ℕ) => (.allocate (coresFor 1 []), atNanos i)

theorem freshId_of_sharedBy {n : ℕ} (h : SharedBy n m) :
    (atNanos n).allocationId "a" ∉ m.allocations := by
  intro hmem
  obtain ⟨i, hi, heq⟩ := h.ids _ hmem
  have hrepr : n.repr = i.repr := (String.append_right_inj "cpu-a-").1 heq
  exact absurd (Nat.repr_inj.1 hrepr) (Nat.ne_of_gt hi)

theorem sharedBy_succ {n : ℕ} (h : SharedBy n m) :
    SharedBy (n + 1) (m.call .release (.allocate (coresFor 1 []), atNanos n)) := by
  obtain ⟨core, hcore, hs, hc⟩ := h.core
  have hfind : m.findAvailableCores (atNanos n) 1 false = .ok [0] := by
    simp [findAvailableCores, h.policy, h.totalCores, firstFit, List.range_succ, hcore,
      CoreUsage.mayUse, hs, sufficient]
  have htake : allocateCores .release false "a" m.coreUsage [0] =
      (m.coreUsage.insert 0 { core with allocatedVcpus := (n % 2 ^ 32 + 1) % 2 ^ 32 }, .ok ()) := by
    simp [allocateCores, hcore, allocateCore, Platform.addUnsigned, Platform.release, Except.map,
      hc]
  obtain ⟨usage, state, hcall⟩ :=
    @allocate_of_found .release (atNanos n) m (coresFor 1 []) [0] _ rfl hfind htake
  show SharedBy (n + 1) (m.allocate .release (atNanos n) (coresFor 1 [])).1
  rw [hcall]
  have hf : m.allocations[(atNanos n).allocationId (coresFor 1 []).tenantId]? = none :=
    Std.ExtTreeMap.getElem?_eq_none (freshId_of_sharedBy h)
  refine ⟨h.policy, h.totalCores, ⟨_, Std.ExtTreeMap.getElem?_insert_self, hs, ?_⟩, ?_, ?_⟩
  · exact Nat.mod_add_mod n (2 ^ 32) 1
  · rw [holders, Table.sumOf_insert, Table.erase_of_get_none hf]
    show 1 + m.holders 0 = n + 1
    rw [h.holders, Nat.add_comm]
  intro id hid
  rcases Table.mem_insert.1 hid with rfl | hid
  · exact ⟨n, Nat.lt_succ_self n, rfl⟩
  · obtain ⟨i, hi, heq⟩ := h.ids id hid
    exact ⟨i, Nat.lt_succ_of_lt hi, heq⟩

theorem sharing_succ (n : ℕ) :
    sharing (n + 1) = sharing n ++ [(.allocate (coresFor 1 []), atNanos n)] := by
  rw [sharing, range_succ, map_append]
  rfl

theorem sharedBy_sharing (n : ℕ) :
    SharedBy n ((sharing n).foldl (call .release) (new .firstFit 1 0)) ∧
      Run.Along (call .release) FreshId (new .firstFit 1 0) (sharing n) := by
  induction n with
  | zero =>
    refine ⟨⟨rfl, rfl, ⟨.idle 0, ?_, rfl, rfl⟩, ?_, ?_⟩, trivial⟩
    · exact (get_new .firstFit 1 0 0).trans (if_pos Nat.one_pos)
    · exact Nat.le_zero.1 (holders_le_size _ 0)
    · intro id hid
      exact absurd hid not_mem_empty
  | succ n ih =>
    rw [sharing_succ, foldl_append, Run.along_append]
    refine ⟨sharedBy_succ ih.1, ih.2, ?_, trivial⟩
    rintro request ⟨⟩
    exact freshId_of_sharedBy ih.1

/-- **A core that counts none of its holders**: after 2 ^ 32 shared allocations of its only
    core, a manager in a release build has counted the core back to zero. -/
theorem full_core_counts_none :
    ¬ ∀ (pf : Platform) (policy : CpuSchedulingPolicy) (totalCores : ℕ) (now : ℤ)
      (run : List (Call × CpuEnv)), Run.Along (call pf) FreshId (new policy totalCores now) run →
        ∀ m ∈ run.scanl (call pf) (new policy totalCores now), m.Accounted := by
  intro h
  have hfits : ∀ n, n % 2 ^ 32 = n := by
    intro n
    obtain ⟨hshared, hfresh⟩ := sharedBy_sharing n
    obtain ⟨core, hcore, -, hcount⟩ := hshared.core
    have hcounted := (h .release .firstFit 1 0 (sharing n) hfresh _
      (Run.foldl_mem_scanl _ _)).counted 0 core hcore
    rw [← hcount, hcounted, hshared.holders]
  exact absurd (hfits (2 ^ 32)) (by norm_num)

end CpuResourceManager

end Blixard
