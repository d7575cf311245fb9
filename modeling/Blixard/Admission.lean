/-
  Admission of virtual machines to nodes (`resource_admission.rs`).

  The check sees what was rebuilt from the database, without the machines that do not fit any
  more.  What it approves is within bounds exactly if the recorded machines fit
  (`approved_within_bounds`).
-/
import Blixard.Lib.Run
import Blixard.Resources
import Blixard.Storage.Database

namespace Blixard

open Bytes Greedy NodeResourceState Run Std.ExtTreeMap Table

structure AdmissionControlConfig where
  strictMode : Bool
  preemptibleDiscount : BitVec 64

/-- What a machine takes from its node: preemptible machines count at a discount. -/
def AdmissionControlConfig.required (rp : ResourcePlatform) (config : AdmissionControlConfig)
    (vm : VmConfig) : Amounts :=
  if vm.preemptible then
    (rp.discounted 32 config.preemptibleDiscount vm.vcpus,
      rp.discounted 64 config.preemptibleDiscount vm.memory, 5)
  else (vm.vcpus, vm.memory, 5)

def WorkerCapabilities.amounts (capabilities : WorkerCapabilities) : Amounts :=
  (capabilities.cpuCores, capabilities.memoryMb, capabilities.diskGb)

structure ResourceAdmissionController where
  database : Database
  config : AdmissionControlConfig
  resourceManager : ClusterResourceManager

namespace ResourceAdmissionController

variable (rp : ResourcePlatform) (c : ResourceAdmissionController)

abbrev Synced := ClusterResourceManager × Except Failure Unit

/-- A row of the worker table. -/
abbrev WorkerRow := Bytes × Encoded (String × WorkerCapabilities)

/-- The node of a row and its resources. -/
def decodeRow (row : WorkerRow) : Except Failure (ℕ × Amounts) :=
  if row.1.length ≠ 8 then
    .error (.error (.serialization "convert node_id key to 8-byte array"
      "Invalid byte format for node_id key"))
  else
    match row.2 with
    | .junk bytes => .error (.error (.serialization "deserialize worker capabilities"
        (rp.decodeError bytes)))
    | .value (_, capabilities) => .ok (Bytes.ofLe row.1, capabilities.amounts)

/-- One round of the loop over the worker table. -/
def registerRow (m : ClusterResourceManager) (row : WorkerRow) : Synced :=
  match decodeRow rp row with
  | .error failure => (m, .error failure)
  | .ok worker => (m.registerNode worker.1 worker.2, .ok ())

def clearAllocations (m : ClusterResourceManager) : ClusterResourceManager :=
  { m with nodeStates := m.nodeStates.map fun _ state =>
      { state with allocatedResources := 0, reservations := ∅ } }

/-- A row of the machine table: allocate what its machine takes.  A machine that does not
    fit is passed over. -/
def countRow (m : ClusterResourceManager) (row : String × Encoded VmState) : Synced :=
  match row.2 with
  | .junk _ => (m, .ok ())
  | .value vm =>
    if ¬ vm.status.isActive then (m, .ok ())
    else
      match m.nodeStates[vm.nodeId]? with
      | none => (m, .ok ())
      | some state =>
        match state.allocate rp (c.config.required rp vm.config) with
        | .ok state => ({ m with nodeStates := m.nodeStates.insert vm.nodeId state }, .ok ())
        | .error (.error _) => (m, .ok ())
        | .error failure => (m, .error failure)

def syncResourceState : Synced :=
  match Run.attempt (registerRow rp) c.resourceManager c.database.workers.toList with
  | (m, .error failure) => (m, .error failure)
  | (m, .ok ()) =>
    Run.attempt (c.countRow rp) (clearAllocations m) c.database.vmStates.toList

def getWorkerCapabilities (nodeId : ℕ) : Except Failure WorkerCapabilities :=
  match c.database.workers[Bytes.leBytes 8 nodeId]? with
  | none => .error (.error (.nodeNotFound nodeId))
  | some (.junk bytes) =>
    .error (.error (.serialization "deserialize worker capabilities" (rp.decodeError bytes)))
  | some (.value (_, capabilities)) => .ok capabilities

def checkStrict (state : NodeResourceState) (required : Amounts) : Except Failure Unit := do
  let physical := state.physicalResources
  let allocated := state.allocatedResources
  let cpu ← rp.addUnsigned 32 allocated.1 required.1
  if physical.1 < cpu then
    throw (.error (.insufficientResources s!"{required.1}vCPU"
      s!"{physical.1 - allocated.1}vCPU available (strict mode)"))
  let memory ← rp.addUnsigned 64 allocated.2.1 required.2.1
  if physical.2.1 < memory then
    throw (.error (.insufficientResources s!"{required.2.1}MB memory"
      s!"{physical.2.1 - allocated.2.1}MB available (strict mode)"))

def checkRoom (state : NodeResourceState) (required : Amounts) : Except Failure Unit :=
  if c.config.strictMode then checkStrict rp state required
  else if state.canAllocate rp required then .ok ()
  else .error (.error (.insufficientResources (describe required)
    (describe (state.availableResources rp) ++ " (with overcommit)")))

def checkNode (m : ClusterResourceManager) (config : VmConfig) (targetNodeId : ℕ) :
    Except Failure Unit :=
  match m.nodeStates[targetNodeId]? with
  | none => .error (.error (.nodeNotFound targetNodeId))
  | some state => do
    c.checkRoom rp state (c.config.required rp config)
    let capabilities ← c.getWorkerCapabilities rp targetNodeId
    if "microvm" ∉ capabilities.features then
      throw (.error (.schedulingError
        s!"Node {targetNodeId} does not support required feature: microvm"))

def validateVmAdmission (config : VmConfig) (targetNodeId : ℕ) : Synced :=
  match c.syncResourceState rp with
  | (m, .error failure) => (m, .error failure)
  | (m, .ok ()) => (m, c.checkNode rp m config targetNodeId)

/-! ## What the synchronisation counts -/

def requiredOn (nodeId : ℕ) : Encoded VmState → Amounts
  | .junk _ => 0
  | .value vm =>
    if vm.status.isActive ∧ vm.nodeId = nodeId then c.config.required rp vm.config else 0

/-- What all recorded machines of the node take together, those that are stopped or
    failed apart. -/
def recorded (nodeId : ℕ) : Amounts :=
  Table.sumOf (fun _ row => c.requiredOn rp nodeId row) c.database.vmStates

def effective (capabilities : WorkerCapabilities) : Amounts :=
  NodeResourceState.effectiveCapacity rp (.new capabilities.amounts c.resourceManager.defaultPolicy)

variable {rp c} {m m' : ClusterResourceManager} {nodeId : ℕ}

variable {caps : WorkerCapabilities}

theorem attempt_registerRow (hnode : nodeId < 2 ^ 64) (addr : String)
    {rows : List WorkerRow}
    (hrows : ∀ row ∈ rows, row.1 = leBytes 8 nodeId → row.2 = .value (addr, caps))
    (hs : m.nodeStates[nodeId]? = some (.new caps.amounts m.defaultPolicy) ∨
      ∃ row ∈ rows, row.1 = leBytes 8 nodeId)
    (hok : attempt (registerRow rp) m rows = (m', .ok ())) :
    m'.nodeStates[nodeId]? = some (.new caps.amounts m.defaultPolicy) := by
  induction rows generalizing m with
  | nil =>
    cases hok
    simpa using hs
  | cons row rows ih =>
    obtain ⟨key, value⟩ := row
    rw [attempt, registerRow, decodeRow] at hok
    split_ifs at hok with hlen
    · cases hok
    push Not at hlen
    cases value with
    | junk bytes => cases hok
    | value wk =>
      obtain ⟨address', capabilities'⟩ := wk
      refine ih (m := m.registerNode (ofLe key) capabilities'.amounts)
        (fun row hrow => hrows row (List.mem_cons_of_mem _ hrow)) ?_ hok
      -- the node of the row is `nodeId` exactly if its key is
      have hkey : ofLe key = nodeId ↔ key = leBytes 8 nodeId := by
        constructor
        · rintro rfl
          rw [← hlen]
          exact (leBytes_ofLe key).symm
        · rintro rfl
          rw [ofLe_leBytes]
          exact Nat.mod_eq_of_lt hnode
      simp only [ClusterResourceManager.registerNode, get_insert, hkey]
      by_cases hhere : key = leBytes 8 nodeId
      · left
        cases hrows _ List.mem_cons_self hhere
        rw [if_pos hhere]
      rw [if_neg hhere]
      rcases hs with hs | ⟨row, hrow, hat⟩
      · exact Or.inl hs
      · rcases List.mem_cons.1 hrow with rfl | hrow
        · exact absurd hat hhere
        · exact Or.inr ⟨row, hrow, hat⟩

/-- No node has more allocated than its policy allows. -/
def Sound (rp : ResourcePlatform) (m : ClusterResourceManager) : Prop :=
  ∀ (id : ℕ) (state : NodeResourceState), m.nodeStates[id]? = some state → state.Sound rp

theorem sound_clearAllocations (m : ClusterResourceManager) : Sound rp (clearAllocations m) := by
  intro id state hs
  simp only [clearAllocations, getElem?_map, Option.map_eq_some_iff] at hs
  obtain ⟨old, -, rfl⟩ := hs
  exact zero_le

theorem countRow_eq (hm : Sound rp m) (nodeId : ℕ) (row : String × Encoded VmState) :
    ∃ m', c.countRow rp m row = (m', .ok ()) ∧ Sound rp m' ∧
      ∀ state : NodeResourceState, m.nodeStates[nodeId]? = some state →
        m'.nodeStates[nodeId]? = some (state.taken rp (c.requiredOn rp nodeId row.2)) := by
  obtain ⟨name, vm | bytes⟩ := row
  swap
  · exact ⟨m, rfl, hm, by simp [requiredOn, taken]⟩
  unfold countRow requiredOn
  by_cases ha : vm.status.isActive
  swap
  · exact ⟨m, by simp [ha], hm, by simp [ha, taken]⟩
  rcases hp : m.nodeStates[vm.nodeId]? with _ | state
  · refine ⟨m, by simp [ha, hp], hm, ?_⟩
    intro state hs
    have ho : vm.nodeId ≠ nodeId := by
      rintro rfl
      cases hp.symm.trans hs
    simp [ho, hs, taken]
  · have hn := hm _ _ hp
    rcases allocate_eq hn (c.config.required rp vm.config) with
      hok | ⟨⟨e, he⟩, hsame⟩
    · let state₁ := state.taken rp (c.config.required rp vm.config)
      refine ⟨{ m with nodeStates := m.nodeStates.insert vm.nodeId state₁ },
        by simp [ha, hp, hok, state₁], ?_, ?_⟩
      · intro id state' hs'
        rcases get_insert_eq_some.1 hs' with ⟨-, rfl⟩ | ⟨-, hold⟩
        · exact hn.taken _
        · exact hm id state' hold
      intro state' hs'
      simp only [get_insert]
      by_cases hhere : vm.nodeId = nodeId
      · subst hhere
        cases hp.symm.trans hs'
        simp [ha, state₁]
      · simp [hhere, hs', taken]
    · refine ⟨m, by simp [ha, hp, he], hm, ?_⟩
      intro state' hs'
      by_cases hhere : vm.nodeId = nodeId
      · subst hhere
        cases hp.symm.trans hs'
        simp [ha, hsame, hp]
      · simp [hhere, hs', taken]

theorem attempt_countRow (hm : Sound rp m) (nid : ℕ) (rows : List (String × Encoded VmState)) :
    ∃ m', attempt (c.countRow rp) m rows = (m', .ok ()) ∧
      ∀ state : NodeResourceState, m.nodeStates[nid]? = some state →
        m'.nodeStates[nid]? = some { state with
          allocatedResources := fill (state.effectiveCapacity rp) state.allocatedResources
            (rows.map fun row => c.requiredOn rp nid row.2) } := by
  induction rows generalizing m with
  | nil => exact ⟨m, rfl, fun state hs => hs⟩
  | cons row rows ih =>
    obtain ⟨m₁, hrow, hn, ht⟩ := countRow_eq (c := c) hm nid row
    obtain ⟨m₂, hrows, hf⟩ := ih hn
    refine ⟨m₂, ?_, fun state hs => hf _ (ht state hs)⟩
    rw [attempt, hrow]
    exact hrows

/-- **What the check sees**: the resources of the node's row, and of what is recorded on
    it as much as fits. -/
theorem syncResourceState_node (hnode : nodeId < 2 ^ 64) {addr : String}
    (hw : c.database.workers[leBytes 8 nodeId]? = some (.value (addr, caps)))
    (hok : c.syncResourceState rp = (m, .ok ())) : m.nodeStates[nodeId]? = some
      { new caps.amounts c.resourceManager.defaultPolicy with
        allocatedResources := fill (c.effective rp caps) 0
          (c.database.vmStates.toList.map fun row => c.requiredOn rp nodeId row.2) } := by
  unfold syncResourceState at hok
  rcases hr : attempt (registerRow rp) c.resourceManager c.database.workers.toList with
    ⟨m₁, failure | ⟨⟩⟩
  · rw [hr] at hok
    cases hok
  rw [hr] at hok
  have hn : m₁.nodeStates[nodeId]? =
      some (.new caps.amounts c.resourceManager.defaultPolicy) := by
    refine attempt_registerRow hnode addr ?_ (Or.inr ?_) hr
    · rintro ⟨key, value⟩ hrow rfl
      have hget := mem_toList_iff_getElem?_eq_some.1 hrow
      exact Option.some.inj (hget.symm.trans hw)
    · exact ⟨_, mem_toList_iff_getElem?_eq_some.2 hw, rfl⟩
  obtain ⟨m₂, hc, hf⟩ := attempt_countRow (c := c) (@sound_clearAllocations rp m₁)
    nodeId c.database.vmStates.toList
  obtain rfl : m₂ = m := congrArg Prod.fst (hc.symm.trans hok)
  refine hf (.new caps.amounts c.resourceManager.defaultPolicy) ?_
  simp [clearAllocations, hn, new]

/-! ## What an approval says -/

theorem checkStrict_eq_ok {state : NodeResourceState} {req : Amounts}
    (h : checkStrict rp state req = .ok ()) :
    (state.allocatedResources.1 + req.1) % 2 ^ 32 ≤ state.physicalResources.1 ∧
      (state.allocatedResources.2.1 + req.2.1) % 2 ^ 64 ≤ state.physicalResources.2.1 := by
  unfold checkStrict at h
  obtain ⟨cpu, hcpu, h⟩ := bind_eq_ok h
  dsimp only at h
  split_ifs at h with hc
  · cases h
  obtain ⟨memory, hmem, h⟩ := bind_eq_ok h
  split_ifs at h with hmry
  rw [(Platform.addUnsigned_eq_ok.1 hcpu).1, (Platform.addUnsigned_eq_ok.1 hmem).1]
  exact ⟨Nat.le_of_not_lt hc, Nat.le_of_not_lt hmry⟩

/-- An approved machine: the synchronisation went through, there was room beside what it
    counted, and the node's row is there. -/
theorem validateVmAdmission_eq_ok {cfg : VmConfig}
    (h : (c.validateVmAdmission rp cfg nodeId).2 = .ok ()) :
    ∃ m state addr caps, c.syncResourceState rp = (m, .ok ()) ∧
      m.nodeStates[nodeId]? = some state ∧
      c.checkRoom rp state (c.config.required rp cfg) = .ok () ∧
      c.database.workers[leBytes 8 nodeId]? = some (.value (addr, caps)) := by
  unfold validateVmAdmission at h
  rcases hsync : c.syncResourceState rp with ⟨m, fail | ⟨⟩⟩
  · rw [hsync] at h
    cases h
  rw [hsync] at h
  dsimp only at h
  unfold checkNode at h
  rcases hs : m.nodeStates[nodeId]? with _ | state
  · rw [hs] at h
    cases h
  rw [hs] at h
  obtain ⟨_, hroom, h⟩ := bind_eq_ok h
  obtain ⟨caps, hw, -⟩ := bind_eq_ok h
  unfold getWorkerCapabilities at hw
  rcases hrow : c.database.workers[leBytes 8 nodeId]? with _ | ⟨addr, found⟩ | bytes
  · rw [hrow] at hw
    cases hw
  · rw [hrow] at hw
    cases hw
    exact ⟨m, state, addr, caps, rfl, hs, hroom, rfl⟩
  · rw [hrow] at hw
    cases hw

variable (rp c) (capabilities : WorkerCapabilities) (config : VmConfig) (nodeId : ℕ)

def total : Amounts := c.recorded rp nodeId + c.config.required rp config

def WithinBounds : Prop :=
  if c.config.strictMode then
    (c.total rp config nodeId).1 ≤ capabilities.cpuCores ∧
      (c.total rp config nodeId).2.1 ≤ capabilities.memoryMb
  else c.total rp config nodeId ≤ c.effective rp capabilities

/-- The recorded machines are within the node's capacity, so that all of them are counted. -/
def AllCounted : Prop := c.recorded rp nodeId ≤ c.effective rp capabilities

def NoWrapAround : Prop :=
  c.config.strictMode →
    (c.total rp config nodeId).1 < 2 ^ 32 ∧ (c.total rp config nodeId).2.1 < 2 ^ 64

variable {rp c}

theorem fill_eq_recorded_iff : fill (c.effective rp capabilities) 0
        (c.database.vmStates.toList.map fun row => c.requiredOn rp nodeId row.2) =
      c.recorded rp nodeId ↔ c.AllCounted rp capabilities nodeId := by
  have hiff := fill_eq_add_sum_iff (zero_le : 0 ≤ c.effective rp capabilities)
    (c.database.vmStates.toList.map fun row => c.requiredOn rp nodeId row.2)
  rw [zero_add] at hiff
  exact hiff

/-- **What an approval is worth**: within the node's capacity and if no sum wraps around, approved
    machines are those within the bounds; strict mode may also pass over some that fit. -/
theorem approved_within_bounds (rp : ResourcePlatform) (c : ResourceAdmissionController)
    (config : VmConfig) (nodeId : ℕ) (hnode : nodeId < 2 ^ 64)
    (htyped : ∀ (address : String) (capabilities : WorkerCapabilities),
      c.database.workers[Bytes.leBytes 8 nodeId]? = some (.value (address, capabilities)) →
        capabilities.cpuCores < 2 ^ 32 ∧ capabilities.memoryMb < 2 ^ 64)
    (happroved : (c.validateVmAdmission rp config nodeId).2 = .ok ()) :
    ∃ address capabilities,
      c.database.workers[Bytes.leBytes 8 nodeId]? = some (.value (address, capabilities)) ∧
      (c.AllCounted rp capabilities nodeId ∧ c.NoWrapAround rp config nodeId →
        c.WithinBounds rp capabilities config nodeId) ∧
      (c.WithinBounds rp capabilities config nodeId →
        (c.config.strictMode = false → c.AllCounted rp capabilities nodeId) ∧
          c.NoWrapAround rp config nodeId) := by
  obtain ⟨m, state, address, capabilities, hsync, hstate, hroom, hworker⟩ :=
    validateVmAdmission_eq_ok happroved
  have hseen := syncResourceState_node hnode hworker hsync
  cases hstate.symm.trans hseen
  have hcounted := @fill_eq_recorded_iff rp c capabilities nodeId
  obtain ⟨hcpu, hmemory⟩ := htyped address capabilities hworker
  refine ⟨address, capabilities, hworker, ?_, ?_⟩
  · rintro ⟨hall, hnowrap⟩
    rw [hcounted.2 hall] at hroom
    unfold WithinBounds
    cases hmode : c.config.strictMode with
    | true =>
      simp only [checkRoom, hmode, if_true] at hroom ⊢
      obtain ⟨hcpuRoom, hmemoryRoom⟩ := checkStrict_eq_ok hroom
      obtain ⟨hcpuSum, hmemorySum⟩ := hnowrap hmode
      exact ⟨(Nat.mod_eq_of_lt hcpuSum).ge.trans hcpuRoom,
        (Nat.mod_eq_of_lt hmemorySum).ge.trans hmemoryRoom⟩
    | false =>
      simp only [checkRoom, hmode, Bool.false_eq_true, if_false] at hroom ⊢
      split_ifs at hroom with hcan
      exact (le_tsub_iff_left hall).1 (NodeResourceState.canAllocate_iff.1 hcan)
  · intro hwithin
    unfold WithinBounds at hwithin
    cases hmode : c.config.strictMode with
    | true =>
      simp only [hmode, if_true] at hwithin
      refine ⟨by simp, fun _ => ?_⟩
      exact ⟨hwithin.1.trans_lt hcpu, hwithin.2.trans_lt hmemory⟩
    | false =>
      simp only [hmode, Bool.false_eq_true, if_false] at hwithin
      refine ⟨fun _ => ?_, fun hstrict => by simp [hmode] at hstrict⟩
      exact le_self_add.trans hwithin

/-- The controller of a cluster with one node of 4 cores and a machine of the given size
    on it; preemptible machines count as three quarters. -/
def oneNode (vcpus : ℕ) : ResourceAdmissionController where
  database :=
    { workers := (∅ : Table Bytes _).insert (Bytes.leBytes 8 1)
        (.value ("n1:7001", ⟨4, 8192, 100, ["microvm"]⟩))
      vmStates := (∅ : Table String _).insert "vm1"
        (.value ⟨"vm1", { name := "vm1", vcpus, preemptible := false }, .running, 1, 0, 0⟩) }
  config := ⟨false, 0x3fe8000000000000⟩
  resourceManager := .new .moderate

def twoCores : VmConfig := { name := "vm2", vcpus := 2, preemptible := false }

theorem second_machine_within_bounds :
    ∃ address capabilities,
      (oneNode 2).database.workers[Bytes.leBytes 8 1]? = some (.value (address, capabilities)) ∧
      (oneNode 2).WithinBounds .exact capabilities twoCores 1 := by
  have hrow : (oneNode 2).database.workers[Bytes.leBytes 8 1]? =
      some (.value ("n1:7001", ⟨4, 8192, 100, ["microvm"]⟩)) := by decide +kernel
  obtain ⟨address, capabilities, hworker, hwithin, -⟩ :=
    approved_within_bounds .exact (oneNode 2) twoCores 1 (by decide)
      (by
        intro address capabilities hworker
        cases hrow.symm.trans hworker
        decide)
      (by decide +kernel)
  cases hrow.symm.trans hworker
  refine ⟨_, _, hrow, hwithin ⟨?_, ?_⟩⟩
  · show (oneNode 2).recorded .exact 1 ≤ (oneNode 2).effective .exact ⟨4, 8192, 100, ["microvm"]⟩
    decide +kernel
  · intro hstrict
    cases hstrict

/-- A machine with 64 vCPUs is recorded on the node: it is passed over, and a second
    machine is approved beside it. -/
theorem large_machine_is_passed_over :
    ¬ ∀ (rp : ResourcePlatform) (c : ResourceAdmissionController) (config : VmConfig) (nodeId : ℕ),
      nodeId < 2 ^ 64 → (c.validateVmAdmission rp config nodeId).2 = .ok () →
      ∀ (address : String) (capabilities : WorkerCapabilities),
        c.database.workers[Bytes.leBytes 8 nodeId]? = some (.value (address, capabilities)) →
          c.WithinBounds rp capabilities config nodeId := by
  intro h
  have hwithin := h .exact (oneNode 64) twoCores 1 (by decide) (by decide +kernel) "n1:7001"
    ⟨4, 8192, 100, ["microvm"]⟩ (by decide +kernel)
  have htotal : (oneNode 64).total .exact twoCores 1 ≤
      (oneNode 64).effective .exact ⟨4, 8192, 100, ["microvm"]⟩ := hwithin
  revert htotal
  decide +kernel

end ResourceAdmissionController

end Blixard
