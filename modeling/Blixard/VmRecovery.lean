/-
  Recovery of virtual machines after a restart (`vm_state_persistence.rs`, and
  `recover_persisted_vms` of `vm_backend.rs`).

  The id of the node is not part of the procedure: it starts machines wherever they are recorded
  (`startedWhereRecorded_iff`).
-/
import Blixard.Storage.Database

namespace Blixard

open List

/-! ## The procedure -/

structure VmPersistenceConfig where
  autoRecoveryEnabled : Bool := true
  maxParallelRecovery : ℕ := 5
  recoveryDelaySecs : ℕ := 2
  skipFailedVms : Bool := true

structure RecoveryReport where
  totalVms : ℕ := 0
  recoveredVms : List String := []
  failedRecoveries : List (String × String) := []
  skippedVms : List (String × String) := []

/-- What the backend of a node answers while it recovers its machines. The answers are arbitrary, so
    that it does not matter how the attempts of a batch interleave. -/
structure VmBackend where
  createVm : VmConfig → ℕ → Except String Unit
  startVm : String → Except String Unit

structure RecoveryAttempt where
  vm : VmState
  created : Except String Unit
  started : Except String Unit

def VmStatus.debug : VmStatus → String
  | creating => "Creating"
  | starting => "Starting"
  | running => "Running"
  | stopping => "Stopping"
  | stopped => "Stopped"
  | failed => "Failed"

/-- `chunks`, with the part of the current chunk that was seen. -/
def chunksFrom {α : Type} (size : ℕ) : List α → List α → List (List α)
  | [], [] => []
  | chunk, [] => [chunk]
  | chunk, x :: xs =>
    if chunk.length + 1 = size then (chunk ++ [x]) :: chunksFrom size [] xs
    else chunksFrom size (chunk ++ [x]) xs

namespace VmPersistenceConfig

variable (config : VmPersistenceConfig) (backend : VmBackend)

def loadPersistedVms (table : Table String (Encoded VmState)) : List VmState :=
  table.toList.filterMap fun row => row.2.decode

def skipReason (vm : VmState) : Option String :=
  if vm.status ≠ .running ∧ vm.status ≠ .starting then
    some s!"VM was in {vm.status.debug} state"
  else if config.skipFailedVms ∧ vm.status = .failed then
    some "Skipping failed VM as per configuration"
  else none

/-- The configuration is created again, and then the machine is started, also if the
    backend refused to create it. -/
def attempt (vm : VmState) : RecoveryAttempt :=
  ⟨vm, backend.createVm vm.config vm.nodeId, backend.startVm vm.name⟩

def report (r : RecoveryReport) (a : RecoveryAttempt) : RecoveryReport :=
  match a.started with
  | .ok () => { r with recoveredVms := r.recoveredVms ++ [a.vm.name] }
  | .error e => { r with failedRecoveries := r.failedRecoveries ++ [(a.vm.name, e)] }

/-- The batches in order; the pause after a full batch is left out. -/
def recoverVms (table : Table String (Encoded VmState)) :
    Except Failure (List RecoveryAttempt × RecoveryReport) :=
  if ¬ config.autoRecoveryEnabled then .ok ([], {})
  else if config.maxParallelRecovery = 0 then .error (.panic "chunk size must be non-zero")
  else
    let persistedVms := loadPersistedVms table
    let skippedVms := persistedVms.filterMap fun vm => (config.skipReason vm).map (vm.name, ·)
    let vmsToRecover := persistedVms.filter fun vm => (config.skipReason vm).isNone
    let attempts := (chunksFrom config.maxParallelRecovery [] vmsToRecover).flatMap fun chunk =>
      chunk.map (attempt backend)
    .ok (attempts, attempts.foldl report { totalVms := persistedVms.length, skippedVms })

end VmPersistenceConfig

def recoverPersistedVms (backend : VmBackend) (table : Table String (Encoded VmState)) :
    Except Failure (List RecoveryAttempt × RecoveryReport) :=
  ({} : VmPersistenceConfig).recoverVms backend table

/-! ## What is started -/

variable {backend : VmBackend} {table : Table String (Encoded VmState)} {vm : VmState}

def VmState.WasRunning (vm : VmState) : Prop := vm.status = .running ∨ vm.status = .starting

def Recorded (table : Table String (Encoded VmState)) (vm : VmState) : Prop :=
  ∃ key : String, table[key]? = some (.value vm)

/-- The recovery of a node starts the machine, and the backend does so. -/
def Started (backend : VmBackend) (table : Table String (Encoded VmState)) (vm : VmState) : Prop :=
  ∃ attempts report, recoverPersistedVms backend table = .ok (attempts, report) ∧
    ∃ a ∈ attempts, a.vm = vm ∧ a.started = .ok ()

theorem flatten_chunksFrom {α : Type} (size : ℕ) (chunk xs : List α) :
    (chunksFrom size chunk xs).flatten = chunk ++ xs := by
  induction xs generalizing chunk with
  | nil => cases chunk <;> simp [chunksFrom]
  | cons x xs ih =>
    rw [chunksFrom]
    split_ifs
    · rw [flatten_cons, ih, nil_append, append_assoc, singleton_append]
    · rw [ih, append_assoc, singleton_append]

theorem mem_loadPersistedVms :
    vm ∈ VmPersistenceConfig.loadPersistedVms table ↔ Recorded table vm := by
  rw [VmPersistenceConfig.loadPersistedVms, mem_filterMap]
  constructor
  · rintro ⟨⟨key, row⟩, hrow, hvm⟩
    cases row with
    | value a =>
      obtain rfl : a = vm := Option.some.inj hvm
      exact ⟨key, Std.ExtTreeMap.mem_toList_iff_getElem?_eq_some.1 hrow⟩
    | junk bytes => cases hvm
  · rintro ⟨key, hkey⟩
    exact ⟨(key, .value vm), Std.ExtTreeMap.mem_toList_iff_getElem?_eq_some.2 hkey, rfl⟩

theorem skipReason_isNone (cfg : VmPersistenceConfig) (vm : VmState) :
    (cfg.skipReason vm).isNone ↔ vm.WasRunning := by
  unfold VmPersistenceConfig.skipReason VmState.WasRunning
  cases vm.status <;> simp

/-- **A recovery starts every machine that was running or starting**, on whatever node it
    is recorded. -/
theorem started_iff : Started backend table vm ↔
    Recorded table vm ∧ vm.WasRunning ∧ backend.startVm vm.name = .ok () := by
  have ht : ∀ vms : List VmState, (chunksFrom 5 [] vms).flatMap
      (fun chunk => chunk.map (VmPersistenceConfig.attempt backend)) =
        vms.map (VmPersistenceConfig.attempt backend) := by
    intro vms
    rw [flatMap_def, ← map_flatten, flatten_chunksFrom, nil_append]
  constructor
  · rintro ⟨attempts, report, hr, a, ha, rfl, hs⟩
    cases hr
    rw [ht, mem_map] at ha
    obtain ⟨vm, hvm, rfl⟩ := ha
    obtain ⟨hload, hskip⟩ := mem_filter.1 hvm
    exact ⟨mem_loadPersistedVms.1 hload, (skipReason_isNone _ vm).1 hskip, hs⟩
  · rintro ⟨hc, hrun, hs1⟩
    refine ⟨_, _, rfl, VmPersistenceConfig.attempt backend vm, ?_, rfl, hs1⟩
    rw [ht]
    apply mem_map_of_mem
    rw [mem_filter]
    exact ⟨mem_loadPersistedVms.2 hc, (skipReason_isNone _ vm).2 hrun⟩

/-! ## Several nodes -/

/-- The nodes start a machine only where it is recorded, hence on at most one of them, and
    only if it was running or starting. -/
def StartedWhereRecorded (table : Table String (Encoded VmState)) (nodes : Set ℕ)
    (backends : ℕ → VmBackend) : Prop :=
  (∀ n ∈ nodes, ∀ vm, Started (backends n) table vm → vm.nodeId = n ∧ vm.WasRunning) ∧
  ∀ n ∈ nodes, ∀ n' ∈ nodes, ∀ vm, Started (backends n) table vm → Started (backends n') table vm →
    n = n'

/-- **When a recovery is right**: exactly if every machine that was running or starting, and that a
    restarting node is able to start, is recorded on that node. -/
theorem startedWhereRecorded_iff (table : Table String (Encoded VmState)) (nodes : Set ℕ)
    (backends : ℕ → VmBackend) : StartedWhereRecorded table nodes backends ↔
      ∀ n ∈ nodes, ∀ vm, Recorded table vm → vm.WasRunning →
        (backends n).startVm vm.name = .ok () → vm.nodeId = n := by
  constructor
  · rintro ⟨hwhere, -⟩ n hn vm hrecorded hrunning hstart
    exact (hwhere n hn vm (started_iff.2 ⟨hrecorded, hrunning, hstart⟩)).1
  intro h
  have hwhere : ∀ n ∈ nodes, ∀ vm, Started (backends n) table vm → vm.nodeId = n := by
    intro n hn vm hvm
    obtain ⟨hrecorded, hrunning, hstart⟩ := started_iff.1 hvm
    exact h n hn vm hrecorded hrunning hstart
  refine ⟨fun n hn vm hvm => ⟨hwhere n hn vm hvm, (started_iff.1 hvm).2.1⟩, ?_⟩
  intro n hn n' hn' vm hvm hvm'
  rw [← hwhere n hn vm hvm, hwhere n' hn' vm hvm']

def runningOnOne : VmState := ⟨"vm1", { name := "vm1" }, .running, 1, 0, 0⟩

/-- Nodes 1 and 2 restart: both start the machine of node 1. -/
theorem both_nodes_start_vm :
    let table : Table String (Encoded VmState) := (∅ : Table _ _).insert "vm1" (.value runningOnOne)
    let backend : VmBackend := ⟨fun _ _ => .ok (), fun _ => .ok ()⟩
    ¬ StartedWhereRecorded table {1, 2} (fun _ => backend) ∧
      Started backend table runningOnOne ∧
      recoverPersistedVms backend table = .ok ([⟨runningOnOne, .ok (), .ok ()⟩],
        { totalVms := 1, recoveredVms := ["vm1"] }) := by
  intro table backend
  have hstarted : Started backend table runningOnOne :=
    started_iff.2 ⟨⟨"vm1", Std.ExtTreeMap.getElem?_insert_self⟩, .inl rfl, rfl⟩
  refine ⟨?_, hstarted, ?_⟩
  · rintro ⟨-, hone⟩
    have := hone 1 (.inl rfl) 2 (.inr rfl) runningOnOne hstarted hstarted
    cases this
  have hload : VmPersistenceConfig.loadPersistedVms table = [runningOnOne] := by
    rw [VmPersistenceConfig.loadPersistedVms, Table.toList_insert_empty]
    rfl
  simp only [recoverPersistedVms, VmPersistenceConfig.recoverVms, hload]
  rfl

end Blixard
