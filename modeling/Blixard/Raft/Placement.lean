/-
  Where machines are placed, and whether their nodes have room for them.

  The state machine keeps every registered node within its capacity exactly along the runs whose
  steps all find `Room` (`withinCapacity_iff_room`), and nothing looks for that room.
-/
import Blixard.Raft.Determinism
import Mathlib.Algebra.Order.Monoid.Prod

namespace Blixard

open Bytes Table

def VmConfig.demand (config : VmConfig) : ℕ × ℕ := (config.vcpus, config.memory)

/-! ## Loads -/

def Encoded.share (key : Bytes) : Encoded VmState → ℕ × ℕ
  | .value vm =>
    if vm.status.isActive ∧ Bytes.leBytes 8 vm.nodeId = key then vm.config.demand else 0
  | .junk _ => 0

def load (vms : Table String (Encoded VmState)) (key : Bytes) : ℕ × ℕ :=
  Table.sumOf (fun _ row => row.share key) vms

variable (vms : Table String (Encoded VmState))

theorem load_insert (name : String) (vm : VmState) (key : Bytes) :
    load (vms.insert name (.value vm)) key =
      (if vm.status.isActive ∧ leBytes 8 vm.nodeId = key then vm.config.demand else 0) +
        load (vms.erase name) key :=
  sumOf_insert _ vms name (.value vm)

theorem load_erase_le (name : String) (key : Bytes) : load (vms.erase name) key ≤ load vms key :=
  sumOf_erase_le _ vms name

section
variable (effective : WorkerCapabilities → ℕ × ℕ)

/-- Every registered node can carry the machines on it; `effective` is the capacity that
    the overcommit policy leaves of a node's resources. -/
def WithinCapacity (db : Database) : Prop :=
  ∀ (key : Bytes) (address : String) (capabilities : WorkerCapabilities),
    db.workers[key]? = some (.value (address, capabilities)) →
      load db.vmStates key ≤ effective capabilities

/-- The node, if it is registered, has room for the machine next to the others on it. -/
def Fits (db : Database) (name : String) (config : VmConfig) (nodeId : ℕ) : Prop :=
  ∀ (address : String) (capabilities : WorkerCapabilities),
    db.workers[Bytes.leBytes 8 nodeId]? = some (.value (address, capabilities)) →
      config.demand + load (db.vmStates.erase name) (Bytes.leBytes 8 nodeId) ≤
        effective capabilities

variable {effective} {db : Database}

theorem WithinCapacity.erase (h : WithinCapacity effective db) (name : String) :
    WithinCapacity effective { db with vmStates := db.vmStates.erase name } := by
  intro key addr caps hrow
  exact (load_erase_le db.vmStates name key).trans (h key addr caps hrow)

/-- A row that is written keeps the nodes within their capacity exactly if its machine
    fits, or is not active. -/
theorem withinCapacity_insert_iff (h : WithinCapacity effective db) (name : String) (vm : VmState) :
    WithinCapacity effective { db with vmStates := db.vmStates.insert name (.value vm) } ↔
      (vm.status.isActive → Fits effective db name vm.config vm.nodeId) := by
  constructor
  · intro ha hact addr caps hrow
    have hnode := ha _ addr caps hrow
    rwa [load_insert, if_pos ⟨hact, rfl⟩] at hnode
  intro hfits key addr caps hrow
  rw [load_insert]
  split_ifs with hhere
  · obtain ⟨hact, rfl⟩ := hhere
    exact hfits hact addr caps hrow
  · rw [zero_add]
    exact h.erase name key addr caps hrow

theorem withinCapacity_register_iff (h : WithinCapacity effective db) (key : Bytes)
    (address : String) (capabilities : WorkerCapabilities) :
    WithinCapacity effective { db with
        workers := db.workers.insert key (.value (address, capabilities)) } ↔
      load db.vmStates key ≤ effective capabilities := by
  constructor
  · intro ha
    exact ha key address capabilities (by rw [get_insert, if_pos rfl])
  intro hroom key' address' capabilities' hrow
  rcases get_insert_eq_some.1 hrow with ⟨rfl, hsame⟩ | ⟨-, hold⟩
  · cases hsame
    exact hroom
  · exact h key' address' capabilities' hold

theorem WithinCapacity.removeWorker (h : WithinCapacity effective db) (key : Bytes) :
    WithinCapacity effective { db with workers := db.workers.erase key } := by
  intro key' addr caps hrow
  simp only [get_erase] at hrow
  split_ifs at hrow
  exact h key' addr caps hrow

theorem withinCapacity_congr {db' : Database} (hvms : db'.vmStates = db.vmStates)
    (hw : db'.workers = db.workers) :
    WithinCapacity effective db' ↔ WithinCapacity effective db := by
  unfold WithinCapacity
  rw [hvms, hw]

end

/-! ## Proposals -/

namespace Machine

section
variable (effective : WorkerCapabilities → ℕ × ℕ) (d : Deployment) (env : Env) (m : Machine)

/-- The machine of that name, if there is one, fits on the node that `place` names. -/
def RoomToMove (name : String) (place : VmState → ℕ) : Prop :=
  ∀ vm : VmState, m.database.vmStates[name]? = some (.value vm) →
    Fits effective m.database name vm.config (place vm)

/-- What a proposal would have to find for the nodes to stay within their capacity. -/
def Room : ProposalData → Prop
  | .registerWorker nodeId _ capabilities _ =>
    load m.database.vmStates (Bytes.leBytes 8 nodeId) ≤ effective capabilities
  | .createVm (.create config nodeId) => m.validateVmAdmission d env config nodeId = .ok () →
      Fits effective m.database config.name config nodeId
  | .createVm (.start name) | .createVm (.stop name) => m.RoomToMove effective name (·.nodeId)
  | .createVm (.migrate task) => m.RoomToMove effective task.vmName fun _ => task.targetNodeId
  | .updateVmStatus vmName status nodeId =>
    status.isActive → m.RoomToMove effective vmName fun _ => nodeId
  | .migrateVm vmName _ toNode => m.RoomToMove effective vmName fun _ => toNode
  | _ => True

variable {effective d env m}

/-- A change of status or node keeps the nodes within their capacity exactly if the
    machine then fits, or is not active. -/
theorem withinCapacity_modifyVm_iff (h : WithinCapacity effective m.database) (name : String)
    {chg : VmState → VmState} (hc : ∀ vm, (chg vm).config = vm.config) :
    WithinCapacity effective (m.modifyVm d env name chg).1.database ↔
      ∀ vm : VmState, m.database.vmStates[name]? = some (.value vm) →
        (chg { vm with config := rehashConfig env vm.config }).status.isActive →
          Fits effective m.database name vm.config
            (chg { vm with config := rehashConfig env vm.config }).nodeId := by
  unfold modifyVm
  rcases hrow : m.database.vmStates[name]? with _ | vm | bytes
  · simp only [commit]
    exact iff_of_true h (by simp)
  · simp only [commit]
    rw [withinCapacity_insert_iff h, hc]
    constructor
    · intro hfits vm' hvm'
      cases hvm'
      exact hfits
    · intro hall
      exact hall vm rfl
  · simp only [abort]
    exact iff_of_true h (by simp)

theorem withinCapacity_applyVmCommand_iff (h : WithinCapacity effective m.database)
    (cmd : VmCommand) : WithinCapacity effective (m.applyVmCommand d env cmd).1.database ↔
      m.Room effective d env (.createVm cmd) := by
  cases cmd with
  | create cfg nid =>
    rw [applyVmCommand, Room]
    cases hc : m.validateVmAdmission d env cfg nid with
    | error fail => exact iff_of_true h (by simp)
    | ok _ =>
      refine (withinCapacity_insert_iff h _ _).trans ?_
      constructor
      · intro hfits _
        exact hfits rfl
      · intro hfits _
        exact hfits rfl
  | start | stop | migrate =>
    rw [applyVmCommand, withinCapacity_modifyVm_iff h]
    · simp [Room, RoomToMove, VmStatus.isActive]
    · intro vm
      rfl
  | delete name => exact iff_of_true (h.erase name) trivial
  | updateStatus name st => exact iff_of_true h trivial

theorem withinCapacity_applyOne_iff (h : WithinCapacity effective m.database) (p : ProposalData) :
    WithinCapacity effective (m.applyOne d env p).1.database ↔ m.Room effective d env p := by
  have kept : ∀ {db : Database}, db.vmStates = m.database.vmStates →
      db.workers = m.database.workers → (WithinCapacity effective db ↔ True) :=
    fun hvms hw => iff_true_intro ((withinCapacity_congr hvms hw).2 h)
  have ha := @applyOne_accounting d env m p
  cases p with
  | registerWorker nid addr caps topology =>
    exact (withinCapacity_congr rfl rfl).trans
      (withinCapacity_register_iff h (leBytes 8 nid) addr caps)
  | removeWorker nid =>
    refine iff_of_true ?_ trivial
    exact (withinCapacity_congr rfl rfl).2 (h.removeWorker (leBytes 8 nid))
  | createVm cmd => exact withinCapacity_applyVmCommand_iff h cmd
  | updateVmStatus vmName st nid =>
    rw [applyOne, applyUpdateVmStatus, withinCapacity_modifyVm_iff h]
    · constructor
      · intro hall hact vm hvm
        exact hall vm hvm hact
      · intro hroom vm hvm hact
        exact hroom hact vm hvm
    · intro vm
      rfl
  | migrateVm vmName fromNode toNode =>
    exact withinCapacity_applyVmCommand_iff h (.migrate ⟨vmName, fromNode, toNode, false, false⟩)
  | ipPoolCommand | allocateIp | releaseVmIps | setTenantQuota | updateTenantUsage
  | removeTenantQuota =>
    obtain ⟨allocations, mappings, quotas, usage, hdb, -⟩ := ha rfl
    rw [hdb]
    exact kept rfl rfl
  | _ => exact kept rfl rfl

end

/-! ## Runs -/

/-- A proposal is applied in its surroundings, whatever its result is; the members of a
    batch are applied by such steps too, each in a transaction of its own. -/
def placementStep (d : Deployment) (m : Machine) (x : Env × ProposalData) : Machine :=
  (m.applyOne d x.1 x.2).1

/-- **Capacity over whole runs**: nodes within their capacity stay so throughout exactly the runs
    whose proposals all find room. -/
theorem withinCapacity_iff_room (effective : WorkerCapabilities → ℕ × ℕ) (d : Deployment)
    (m : Machine) (hm : WithinCapacity effective m.database)
    (proposals : List (Env × ProposalData)) :
    (∀ s ∈ proposals.scanl (placementStep d) m, WithinCapacity effective s.database) ↔
      Run.Along (placementStep d) (fun s x => s.Room effective d x.1 x.2) m proposals := by
  have keep : ∀ (s : Machine) (x : Env × ProposalData), WithinCapacity effective s.database →
      s.Room effective d x.1 x.2 → WithinCapacity effective (placementStep d s x).database :=
    fun s x hs hroom => (withinCapacity_applyOne_iff hs x.2).2 hroom
  refine Run.holds_iff_along keep (fun s hs => hs) ?_ hm
  intro s x hs hroom hafter
  exact hroom ((withinCapacity_applyOne_iff hs x.2).1 hafter)

def defaultCapacity (capabilities : WorkerCapabilities) : ℕ × ℕ :=
  (capabilities.cpuCores * 9 / 10, capabilities.memoryMb * 9 / 10)

def admitting : Deployment :=
  { Deployment.raftManager with runtime := .blocking, admission := true }

def createOnWorkerOne (vcpus : ℕ) : List (Env × ProposalData) :=
  [(.still 0, registerWorkerOne), (.still 1, .createVm (.create { name := "vm1", vcpus } 1))]

theorem small_machine_stays_within_capacity : WithinCapacity defaultCapacity Machine.new.database ∧
    ∀ s ∈ (createOnWorkerOne 2).scanl (placementStep admitting) .new,
      WithinCapacity defaultCapacity s.database := by
  have hnew : WithinCapacity defaultCapacity Machine.new.database := by
    intro key address capabilities hrow
    simp [Machine.new] at hrow
  refine ⟨hnew, (withinCapacity_iff_room defaultCapacity admitting .new hnew _).2 ⟨?_, ?_, trivial⟩⟩
  · show load ∅ (Bytes.leBytes 8 1) ≤ defaultCapacity ⟨4, 8192, 100, []⟩
    decide +kernel
  intro _ address capabilities hrow
  have hworker : (placementStep admitting .new (Env.still 0, registerWorkerOne)).database.workers[
      Bytes.leBytes 8 1]? = some (.value ("n1:7001", ⟨4, 8192, 100, []⟩)) := by decide +kernel
  cases hworker.symm.trans hrow
  decide +kernel

/-- A machine with 64 vCPUs is created on worker 1 all the same. -/
theorem large_machine_exceeds_capacity :
    ¬ ∀ (d : Deployment) (proposals : List (Env × ProposalData)), d.admission = true →
      ∀ s ∈ proposals.scanl (placementStep d) .new, WithinCapacity defaultCapacity s.database := by
  intro h
  have hload := h admitting (createOnWorkerOne 64) rfl _ (Run.foldl_mem_scanl _ _)
    (Bytes.leBytes 8 1) "n1:7001" ⟨4, 8192, 100, []⟩ (by decide +kernel)
  revert hload
  decide +kernel

end Machine

end Blixard
