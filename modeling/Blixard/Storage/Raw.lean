/-
  The tables as the database library stores them: rows of bytes under strings, byte strings and
  numbers (`raft_storage.rs`), and the two functions that restore a snapshot (`restores_agree`).

  `RowEncoding.database_applySnapshot` relates this level to `Database`.
-/
import Blixard.Storage.RaftState

namespace Blixard

open Database Function Std.ExtTreeMap Table

/-! ## Tables -/

inductive StringTable where
  | vmState | clusterState | raftHardState | raftConfState | raftSnapshot | task
  | taskAssignment | taskResult | tenantQuota | tenantUsage | ipAllocation | vmIpMapping
  deriving DecidableEq

inductive BytesTable where
  | worker | workerStatus | nodeTopology | resourcePolicy
  deriving DecidableEq

inductive U64Table where
  | raftLog | ipPool
  deriving DecidableEq, Repr

@[ext] structure RawDatabase where
  strings : StringTable → Table String Bytes
  bytes : BytesTable → Table Bytes Bytes
  u64s : U64Table → Table ℕ Bytes

structure RawSnapshotData where
  vmStates : List (String × Bytes)
  clusterState : List (String × Bytes)
  tasks : List (String × Bytes)
  taskAssignments : List (String × Bytes)
  taskResults : List (String × Bytes)
  workers : List (Bytes × Bytes)
  workerStatus : List (Bytes × Bytes)
  ipPools : List (ℕ × Bytes)
  ipAllocations : List (String × Bytes)
  vmIpMappings : List (String × Bytes)

namespace RawSnapshotData

def strings (s : RawSnapshotData) : StringTable → Option (List (String × Bytes))
  | .vmState => some s.vmStates
  | .clusterState => some s.clusterState
  | .task => some s.tasks
  | .taskAssignment => some s.taskAssignments
  | .taskResult => some s.taskResults
  | .ipAllocation => some s.ipAllocations
  | .vmIpMapping => some s.vmIpMappings
  | .raftHardState | .raftConfState | .raftSnapshot | .tenantQuota | .tenantUsage => none

def bytes (s : RawSnapshotData) : BytesTable → Option (List (Bytes × Bytes))
  | .worker => some s.workers
  | .workerStatus => some s.workerStatus
  | .nodeTopology | .resourcePolicy => none

def u64s (s : RawSnapshotData) : U64Table → Option (List (ℕ × Bytes))
  | .ipPool => some s.ipPools
  | .raftLog => none

end RawSnapshotData

namespace RawDatabase

def setStrings (db : RawDatabase) (name : StringTable) (table : Table String Bytes) :
    RawDatabase :=
  { db with strings := Function.update db.strings name table }

def setBytes (db : RawDatabase) (name : BytesTable) (table : Table Bytes Bytes) : RawDatabase :=
  { db with bytes := Function.update db.bytes name table }

def setU64s (db : RawDatabase) (name : U64Table) (table : Table ℕ Bytes) : RawDatabase :=
  { db with u64s := Function.update db.u64s name table }

def restoreStringTable (db : RawDatabase) (name : StringTable) (data : List (String × Bytes)) :
    RawDatabase :=
  db.setStrings name (Table.refill (db.strings name) data)

def restoreBytesTable (db : RawDatabase) (name : BytesTable) (data : List (Bytes × Bytes)) :
    RawDatabase :=
  db.setBytes name (Table.refill (db.bytes name) data)

def restoreU64Table (db : RawDatabase) (name : U64Table) (data : List (ℕ × Bytes)) :
    RawDatabase :=
  db.setU64s name (Table.refill (db.u64s name) data)

def restoreTables (db : RawDatabase) (s : RawSnapshotData) : RawDatabase :=
  let db := db.restoreStringTable .vmState s.vmStates
  let db := db.restoreStringTable .clusterState s.clusterState
  let db := db.restoreStringTable .task s.tasks
  let db := db.restoreStringTable .taskAssignment s.taskAssignments
  let db := db.restoreStringTable .taskResult s.taskResults
  let db := db.restoreBytesTable .worker s.workers
  let db := db.restoreBytesTable .workerStatus s.workerStatus
  let db := db.restoreU64Table .ipPool s.ipPools
  let db := db.restoreStringTable .ipAllocation s.ipAllocations
  db.restoreStringTable .vmIpMapping s.vmIpMappings

variable (codec : Bytes → Except String RawSnapshotData)

def restoreFromSnapshot (db : RawDatabase) (data : Bytes) :
    RawDatabase × Except BlixardError Unit :=
  match codec data with
  | .error source => (db, .error (.serialization "deserialize snapshot data" source))
  | .ok snapshot => (db.restoreTables snapshot, .ok ())

/-- The body of the three `clear_and_restore` functions: collect the keys, remove them
    one by one, and insert the rows of the snapshot. -/
def clearAndRestore {K : Type} [Ord K] [Std.TransOrd K] (table : Table K Bytes)
    (snapshotData : List (K × Bytes)) : Table K Bytes :=
  let keysToRemove := table.toList.map fun entry => entry.1
  let cleared := keysToRemove.foldl (fun table key => table.erase key) table
  snapshotData.foldl (fun table row => table.insert row.1 row.2) cleared

def clearAndRestoreStringTable (db : RawDatabase) (name : StringTable)
    (snapshotData : List (String × Bytes)) : RawDatabase :=
  db.setStrings name (clearAndRestore (db.strings name) snapshotData)

def clearAndRestoreBinaryTable (db : RawDatabase) (name : BytesTable)
    (snapshotData : List (Bytes × Bytes)) : RawDatabase :=
  db.setBytes name (clearAndRestore (db.bytes name) snapshotData)

def clearAndRestoreU64Table (db : RawDatabase) (name : U64Table)
    (snapshotData : List (ℕ × Bytes)) : RawDatabase :=
  db.setU64s name (clearAndRestore (db.u64s name) snapshotData)

def clearAndRestoreTables (db : RawDatabase) (s : RawSnapshotData) : RawDatabase :=
  let db := db.clearAndRestoreStringTable .vmState s.vmStates
  let db := db.clearAndRestoreStringTable .clusterState s.clusterState
  let db := db.clearAndRestoreStringTable .task s.tasks
  let db := db.clearAndRestoreStringTable .taskAssignment s.taskAssignments
  let db := db.clearAndRestoreStringTable .taskResult s.taskResults
  let db := db.clearAndRestoreBinaryTable .worker s.workers
  let db := db.clearAndRestoreBinaryTable .workerStatus s.workerStatus
  let db := db.clearAndRestoreU64Table .ipPool s.ipPools
  let db := db.clearAndRestoreStringTable .ipAllocation s.ipAllocations
  db.clearAndRestoreStringTable .vmIpMapping s.vmIpMappings

def applySnapshotToStateMachine (db : RawDatabase) (snapshotData : Bytes) :
    RawDatabase × Except BlixardError Unit :=
  match codec snapshotData with
  | .error source => (db, .error (.serialization "deserialize snapshot" source))
  | .ok snapshot => (db.clearAndRestoreTables snapshot, .ok ())

def saveConfState (db : RawDatabase) (confState : ConfState) : RawDatabase :=
  db.setStrings .raftConfState
    ((db.strings .raftConfState).insert "conf_state" (serializeConfState confState))

def saveHardState (db : RawDatabase) (hardState : HardState) : RawDatabase :=
  db.setStrings .raftHardState
    ((db.strings .raftHardState).insert "hard_state" (serializeHardState hardState))

def compactLogBefore (db : RawDatabase) (index : ℕ) : RawDatabase :=
  if index = 0 then db
  else
    let log := db.u64s .raftLog
    db.setU64s .raftLog (Table.eraseAll log (log.keys.filter fun key => key < index))

def applySnapshot (db : RawDatabase) (snapshot : Snapshot) :
    RawDatabase × Except BlixardError Unit :=
  let db := db.saveConfState snapshot.metadata.confState
  let db := db.saveHardState
    { term := snapshot.metadata.term, vote := 0, commit := snapshot.metadata.index }
  let restored :=
    if snapshot.data = [] then (db, .ok ()) else db.restoreFromSnapshot codec snapshot.data
  match restored with
  | (db, .error e) => (db, .error e)
  | (db, .ok ()) => (db.compactLogBefore snapshot.metadata.index, .ok ())

/-- A `Ready` without a snapshot has an empty one. -/
def processSnapshotIfPresent (db : RawDatabase) (snapshot : Option Snapshot) :
    RawDatabase × Except BlixardError Unit :=
  match snapshot with
  | none => (db, .ok ())
  | some s =>
    match db.applySnapshot codec s with
    | (db, .error e) => (db, .error e)
    | (db, .ok ()) =>
      if s.data = [] then (db, .ok ()) else db.applySnapshotToStateMachine codec s.data

/-! ## What a restore leaves -/

variable {codec} {db : RawDatabase}

/-- The tables after a restore: those that the snapshot covers have its rows, the last
    one of each key, and the others are as before. -/
theorem restoreTables_eq (db : RawDatabase) (s : RawSnapshotData) : db.restoreTables s =
      { strings := fun t => (s.strings t).elim (db.strings t) (putAll ∅)
        bytes := fun t => (s.bytes t).elim (db.bytes t) (putAll ∅)
        u64s := fun t => (s.u64s t).elim (db.u64s t) (putAll ∅) } := by
  -- a table is refilled or left alone
  ext1 <;> funext t <;> cases t <;> first | rfl | exact refill_eq _ _

theorem clearAndRestore_eq {K : Type} [Ord K] [Std.TransOrd K] (table : Table K Bytes)
    (rows : List (K × Bytes)) : clearAndRestore table rows = refill table rows := by
  unfold clearAndRestore refill putAll eraseAll
  rw [← map_fst_toList_eq_keys]

theorem clearAndRestoreTables_eq (db : RawDatabase) (s : RawSnapshotData) :
    db.clearAndRestoreTables s = db.restoreTables s := by
  simp only [clearAndRestoreTables, clearAndRestoreStringTable, clearAndRestoreBinaryTable,
    clearAndRestoreU64Table, clearAndRestore_eq]
  rfl

theorem restoreTables_restoreTables (db : RawDatabase) (s : RawSnapshotData) :
    (db.restoreTables s).restoreTables s = db.restoreTables s := by
  simp only [restoreTables_eq]
  ext1 <;> funext t
  · cases h : s.strings t <;> simp [h]
  · cases h : s.bytes t <;> simp [h]
  · cases h : s.u64s t <;> simp [h]

theorem restoreTables_compactLogBefore (db : RawDatabase) (index : ℕ) (s : RawSnapshotData) :
    (db.compactLogBefore index).restoreTables s = (db.restoreTables s).compactLogBefore index := by
  simp only [restoreTables_eq, compactLogBefore, setU64s]
  split_ifs
  · rfl
  ext1
  · rfl
  · rfl
  · funext t
    cases t <;> simp [RawSnapshotData.u64s]

theorem processSnapshotIfPresent_eq (db : RawDatabase) (s : Snapshot) :
    db.processSnapshotIfPresent codec (some s) = db.applySnapshot codec s := by
  simp only [processSnapshotIfPresent, applySnapshot]
  by_cases hdata : s.data = []
  · simp only [hdata, if_true]
  simp only [hdata, if_false, restoreFromSnapshot, applySnapshotToStateMachine]
  cases hd : codec s.data with
  | error src => rfl
  | ok snap =>
    simp only [clearAndRestoreTables_eq, restoreTables_compactLogBefore,
      restoreTables_restoreTables]

/-- A table after a restore: as before if the snapshot does not cover it; otherwise each key of the
    snapshot has its last row, and there are no others. -/
def RestoredTable {K : Type} [Ord K] [Std.TransOrd K] [DecidableEq K] (before : Table K Bytes) :
    Option (List (K × Bytes)) → Table K Bytes → Prop
  | none, after => after = before
  | some rows, after => (∀ k v, after[k]? = some v → (k, v) ∈ rows) ∧
      ∀ k, after[k]? = (rows.reverse.find? fun row => row.1 = k).map Prod.snd

structure Restored (db : RawDatabase) (s : RawSnapshotData) (db' : RawDatabase) : Prop where
  strings : ∀ t, RestoredTable (db.strings t) (s.strings t) (db'.strings t)
  bytes : ∀ t, RestoredTable (db.bytes t) (s.bytes t) (db'.bytes t)
  u64s : ∀ t, RestoredTable (db.u64s t) (s.u64s t) (db'.u64s t)

theorem restoredTable_elim {K : Type} [Ord K] [Std.TransOrd K] [Std.LawfulEqOrd K] [DecidableEq K]
    (pre : Table K Bytes) (rows : Option (List (K × Bytes))) :
    RestoredTable pre rows (rows.elim pre (putAll ∅)) := by
  cases rows with
  | none => exact rfl
  | some rows =>
    refine ⟨fun k v h => mem_of_get_putAll h, fun k => ?_⟩
    rw [Option.elim_some, get_putAll, getElem?_empty, Option.or_none]

theorem restored_restoreTables (db : RawDatabase) (s : RawSnapshotData) :
    Restored db s (db.restoreTables s) := by
  rw [restoreTables_eq]
  exact ⟨fun t => restoredTable_elim _ _, fun t => restoredTable_elim _ _,
    fun t => restoredTable_elim _ _⟩

/-- **The two restores agree**: they leave the same tables and succeed on the same data, one after
    the other is one of them once, and of the covered tables only the rows of the snapshot are left,
    of the others all. -/
theorem restores_agree (codec : Bytes → Except String RawSnapshotData) (db : RawDatabase)
    (data : Bytes) :
    (db.applySnapshotToStateMachine codec data).1 = (db.restoreFromSnapshot codec data).1 ∧
    ((db.applySnapshotToStateMachine codec data).2 = .ok () ↔
      (db.restoreFromSnapshot codec data).2 = .ok ()) ∧
    ((db.restoreFromSnapshot codec data).1.applySnapshotToStateMachine codec data).1 =
      (db.restoreFromSnapshot codec data).1 ∧
    ((db.applySnapshotToStateMachine codec data).1.restoreFromSnapshot codec data).1 =
      (db.restoreFromSnapshot codec data).1 ∧
    (∀ s : Snapshot, db.processSnapshotIfPresent codec (some s) = db.applySnapshot codec s) ∧
    ∀ s, codec data = .ok s → Restored db s (db.restoreFromSnapshot codec data).1 := by
  refine ⟨?_, ?_, ?_, ?_, processSnapshotIfPresent_eq db, ?_⟩
  all_goals
    simp only [applySnapshotToStateMachine, restoreFromSnapshot]
    cases hdecode : codec data with
    | error source => simp
    | ok s =>
      simp [clearAndRestoreTables_eq, restoreTables_restoreTables, restored_restoreTables]

end RawDatabase

/-! ## The level of values -/

structure RowEncoding where
  vmState : Encoded VmState → Bytes
  clusterState : Encoded ConfState → Bytes
  task : Encoded TaskSpec → Bytes
  taskResult : Encoded TaskResult → Bytes
  worker : Encoded (String × WorkerCapabilities) → Bytes
  nodeTopology : Encoded NodeTopology → Bytes
  tenantQuota : Encoded TenantQuota → Bytes
  tenantUsage : Encoded TenantUsage → Bytes
  ipPool : Encoded IpPoolConfig → Bytes
  ipAllocation : Encoded IpAllocation → Bytes
  vmIpMapping : Encoded (List IpAddr) → Bytes
  allocationKey : IpAllocationKey → String
  allocationKey_injective : allocationKey.Injective
  vmKey : VmId → String
  vmKey_injective : vmKey.Injective

namespace RowEncoding

variable (enc : RowEncoding)

def database (db : Database) : RawDatabase where
  strings
    | .vmState => Table.mapRows id enc.vmState db.vmStates
    | .clusterState => Table.mapRows id enc.clusterState db.clusterState
    | .raftHardState => db.raftHardState
    | .raftConfState => db.raftConfState
    | .raftSnapshot => ∅
    | .task => Table.mapRows id enc.task db.tasks
    | .taskAssignment => db.taskAssignments
    | .taskResult => Table.mapRows id enc.taskResult db.taskResults
    | .tenantQuota => Table.mapRows id enc.tenantQuota db.tenantQuotas
    | .tenantUsage => Table.mapRows id enc.tenantUsage db.tenantUsage
    | .ipAllocation => Table.mapRows enc.allocationKey enc.ipAllocation db.ipAllocations
    | .vmIpMapping => Table.mapRows enc.vmKey enc.vmIpMapping db.vmIpMappings
  bytes
    | .worker => Table.mapRows id enc.worker db.workers
    | .workerStatus => db.workerStatus
    | .nodeTopology => Table.mapRows id enc.nodeTopology db.nodeTopology
    | .resourcePolicy => ∅
  u64s
    | .raftLog => db.raftLog
    | .ipPool => Table.mapRows id enc.ipPool db.ipPools

def snapshotData (s : SnapshotData) : RawSnapshotData where
  vmStates := s.vmStates.map (Prod.map id enc.vmState)
  clusterState := s.clusterState.map (Prod.map id enc.clusterState)
  tasks := s.tasks.map (Prod.map id enc.task)
  taskAssignments := s.taskAssignments
  taskResults := s.taskResults.map (Prod.map id enc.taskResult)
  workers := s.workers.map (Prod.map id enc.worker)
  workerStatus := s.workerStatus
  ipPools := s.ipPools.map (Prod.map id enc.ipPool)
  ipAllocations := s.ipAllocations.map (Prod.map enc.allocationKey enc.ipAllocation)
  vmIpMappings := s.vmIpMappings.map (Prod.map enc.vmKey enc.vmIpMapping)

def decoder (codec : SnapshotCodec) (data : Bytes) : Except String RawSnapshotData :=
  (codec.deserialize data).map enc.snapshotData

variable (db : Database)

theorem database_restoreTables (s : SnapshotData) :
    enc.database (db.restoreTables s) = (enc.database db).restoreTables (enc.snapshotData s) := by
  rw [RawDatabase.restoreTables_eq]
  ext1 <;> funext t
  · cases t with
    | ipAllocation => exact mapRows_refill _ enc.allocationKey_injective _ _
    | vmIpMapping => exact mapRows_refill _ enc.vmKey_injective _ _
    | _ => first
      | rfl
      | exact refill_eq _ _
      | exact mapRows_refill _ injective_id _ _
  · cases t with
    | worker => exact mapRows_refill _ injective_id _ _
    | workerStatus => exact refill_eq _ _
    | _ => rfl
  · cases t with
    | ipPool => exact mapRows_refill _ injective_id _ _
    | _ => rfl

theorem database_saveConfState (confState : ConfState) :
    enc.database (db.saveConfState confState) = (enc.database db).saveConfState confState := by
  ext1
  · funext t
    cases t <;> rfl
  · rfl
  · rfl

theorem database_saveHardState (hardState : HardState) :
    enc.database (db.saveHardState hardState) = (enc.database db).saveHardState hardState := by
  ext1
  · funext t
    cases t <;> rfl
  · rfl
  · rfl

theorem database_compactLogBefore (index : ℕ) :
    enc.database (db.compactLogBefore index) = (enc.database db).compactLogBefore index := by
  unfold compactLogBefore RawDatabase.compactLogBefore
  split_ifs
  · rfl
  ext1
  · rfl
  · rfl
  · funext t
    cases t <;> rfl

/-- **A snapshot of values is applied as its bytes are**: `Database.applySnapshot` does to values
    what `RawDatabase.applySnapshot` does to their rows. -/
theorem database_applySnapshot (codec : SnapshotCodec) (db : Database) (s : Snapshot) :
    (enc.database db).applySnapshot (enc.decoder codec) s =
      Prod.map enc.database id (db.applySnapshot codec s) := by
  simp only [RawDatabase.applySnapshot, applySnapshot, ← database_saveConfState,
    ← database_saveHardState]
  by_cases hdata : s.data = []
  · simp only [hdata, if_true, ← database_compactLogBefore]
    rfl
  simp only [hdata, if_false, RawDatabase.restoreFromSnapshot, restoreFromSnapshot,
    decoder]
  cases codec.deserialize s.data with
  | error src => rfl
  | ok snap =>
    simp only [Except.map, ← database_restoreTables, ← database_compactLogBefore]
    rfl

end RowEncoding

end Blixard
