/-
  The report of the scheduler about the nodes of the cluster
  (`vm_scheduler_modules/resource_analysis.rs`), over the rows that the state machine writes
  about workers.

  Writer and reader fix the format of these rows independently (`registrations_reported_iff`).
  Of the serialisation library it is only needed that the number of a variant takes four bytes
  (`TagsTakeFourBytes`).
-/
import Blixard.Lib.Bincode
import Blixard.Raft.Replicated
import Blixard.Storage.Raw

namespace Blixard

open Bytes Function Table

/-! ## The report -/

/-- A node of the report.  Topology and costs are always absent, and the percentages are
    computed from the other fields. -/
structure NodeResourceUsage where
  nodeId : ℕ
  isHealthy : Bool
  capabilities : WorkerCapabilities
  usedVcpus : ℕ
  usedMemoryMb : ℕ
  usedDiskGb : ℕ
  runningVms : ℕ

/-- What machines use: `(used_vcpus, used_memory_mb, used_disk_gb, running_vms)`. -/
structure VmUsage where
  vcpus : ℕ := 0
  memoryMb : ℕ := 0
  diskGb : ℕ := 0
  runningVms : ℕ := 0
  deriving DecidableEq

structure SchedulerEnv where
  platform : Platform
  serializeWorker : String × WorkerCapabilities → Bytes
  serializeCapabilities : WorkerCapabilities → Bytes
  deserializeCapabilities : Bytes → Except String WorkerCapabilities
  deserializeStatus : Bytes → Except String WorkerStatus
  deserializeVmConfig : Bytes → Except String VmConfig

def decoded {α : Type} (operation : String) : Except String α → Except Failure α
  | .ok a => .ok a
  | .error source => .error (.error (.serialization operation source))

namespace SchedulerEnv

variable (env : SchedulerEnv)

/-- The library writes the number of a variant in four bytes, so that it reads no status
    from fewer. -/
def TagsTakeFourBytes : Prop :=
  ∀ bytes : Bytes, bytes.length < 4 → ∃ source, env.deserializeStatus bytes = .error source

def workerRow : Encoded (String × WorkerCapabilities) → Bytes
  | .value worker => env.serializeWorker worker
  | .junk bytes => bytes

/-- The encoding with the rows of workers as the state machine serialises them. -/
def rows (enc : RowEncoding) : RowEncoding := { enc with worker := env.workerRow }

def addVm (used : VmUsage) (entry : String × Bytes) : Except Failure VmUsage := do
  let config ← decoded "deserialize VM config" (env.deserializeVmConfig entry.2)
  let vcpus ← env.platform.addUnsigned 32 used.vcpus config.vcpus
  let memoryMb ← env.platform.addUnsigned 64 used.memoryMb config.memory
  let diskGb ← env.platform.addUnsigned 64 used.diskGb 5
  let runningVms ← env.platform.addUnsigned 32 used.runningVms 1
  .ok ⟨vcpus, memoryMb, diskGb, runningVms⟩

/-- Every machine counts, whichever node it is on. -/
def calculateNodeResourceUsage (vmTable : Table String Bytes) : Except Failure VmUsage :=
  vmTable.toList.foldlM env.addVm {}

def isHealthy (statusTable : Table Bytes Bytes) (nodeId : ℕ) : Except Failure Bool :=
  match statusTable[Bytes.beBytes 8 nodeId]? with
  | none => .ok false
  | some statusData => do
    let status ← decoded "deserialize worker status" (env.deserializeStatus statusData)
    .ok (status = .online)

def nodeUsage (db : RawDatabase) (entry : Bytes × Bytes) : Except Failure NodeResourceUsage :=
  if entry.1.length ≠ 8 then
    .error (.error (.serialization "parse node ID" "Invalid node ID format"))
  else do
    let nodeId := Bytes.ofBe entry.1
    let capabilities ← decoded "deserialize worker capabilities"
      (env.deserializeCapabilities entry.2)
    let isHealthy ← env.isHealthy (db.bytes .workerStatus) nodeId
    let used ← env.calculateNodeResourceUsage (db.strings .vmState)
    .ok ⟨nodeId, isHealthy, capabilities, used.vcpus, used.memoryMb, used.diskGb, used.runningVms⟩

def getClusterResourceUsage (db : RawDatabase) : Except Failure (List NodeResourceUsage) :=
  (db.bytes .worker).toList.mapM (env.nodeUsage db)

variable {env}

variable {key : Bytes} {db : RawDatabase} {b : UInt8}

theorem isHealthy_of_byte (htags : env.TagsTakeFourBytes) {statusTable : Table Bytes Bytes}
    (hkey : key.length = 8) (hs : statusTable[key]? = some [b]) :
    ∃ src, env.isHealthy statusTable (ofBe key) =
      .error (.error (.serialization "deserialize worker status" src)) := by
  obtain ⟨src, hr⟩ := htags [b] (by simp)
  refine ⟨src, ?_⟩
  -- the reader turns the key into a number and back, and looks under the same bytes
  simp only [isHealthy, beBytes_ofBe hkey, hs, hr, decoded, bind, Except.bind]

theorem nodeUsage_of_byte (htags : env.TagsTakeFourBytes)
    (hkey : key.length = 8) (hs : (db.bytes .workerStatus)[key]? = some [b])
    (data : Bytes) : ∃ failure, env.nodeUsage db (key, data) = .error failure := by
  obtain ⟨source, hr⟩ := isHealthy_of_byte htags hkey hs
  simp only [nodeUsage, hkey, hr]
  cases env.deserializeCapabilities data with
  | error | ok => exact ⟨_, rfl⟩

theorem getClusterResourceUsage_of_bytes (htags : env.TagsTakeFourBytes)
    (hw : db.bytes .worker ≠ ∅)
    (hs : ∀ key data : Bytes, (db.bytes .worker)[key]? = some data →
      key.length = 8 ∧ ∃ b, (db.bytes .workerStatus)[key]? = some [b]) :
    ∃ failure, env.getClusterResourceUsage db = .error failure := by
  cases hrows : (db.bytes .worker).toList with
  | nil =>
    refine absurd ?_ hw
    rw [← putAll_toList (db.bytes .worker), hrows]
    rfl
  | cons row rows =>
    have hrow : (db.bytes .worker)[row.1]? = some row.2 :=
      Std.ExtTreeMap.mem_toList_iff_getElem?_eq_some.1 (hrows ▸ List.mem_cons_self)
    obtain ⟨hkey, b, hb⟩ := hs row.1 row.2 hrow
    obtain ⟨failure, hf⟩ := nodeUsage_of_byte htags hkey hb row.2
    refine ⟨failure, ?_⟩
    rw [getClusterResourceUsage, hrows, List.mapM_cons, hf]
    rfl

end SchedulerEnv

/-! ## Registrations -/

inductive WorkerProposal where
  | register (nodeId : UInt64) (address : String) (capabilities : WorkerCapabilities)
      (topology : NodeTopology)
  | updateStatus (nodeId : UInt64) (status : WorkerStatus)
  | remove (nodeId : UInt64)

/-- The nodes that are registered and not removed, with the capabilities and the status
    that the proposals last set. -/
abbrev Registry := UInt64 → Option (WorkerCapabilities × WorkerStatus)

namespace WorkerProposal

def proposal : WorkerProposal → ProposalData
  | register nodeId address capabilities topology =>
    .registerWorker nodeId.toNat address capabilities topology
  | updateStatus nodeId status => .updateWorkerStatus nodeId.toNat status
  | remove nodeId => .removeWorker nodeId.toNat

def record (registry : Registry) : WorkerProposal → Registry
  | register nodeId _ capabilities _ =>
    Function.update registry nodeId (some (capabilities, .online))
  | updateStatus nodeId status =>
    Function.update registry nodeId ((registry nodeId).map fun node => (node.1, status))
  | remove nodeId => Function.update registry nodeId none

end WorkerProposal

namespace Registry

def key (nodeId : UInt64) : Bytes := Bytes.leBytes 8 nodeId.toNat

variable {db : Database} {i : UInt64}

theorem key_inj {j : UInt64} : key i = key j ↔ i = j := by
  refine ⟨fun h => UInt64.toNat_inj.1 (leBytes_inj ?_ ?_ h), congrArg key⟩
  · exact i.toNat_lt
  · exact j.toNat_lt

def capabilitiesOf (row : Encoded (String × WorkerCapabilities)) : Option WorkerCapabilities :=
  row.decode.map Prod.snd

/-- The tables have the registered nodes, and no other worker. -/
structure Stored (registry : Registry) (db : Database) : Prop where
  worker : ∀ nodeId, db.workers[key nodeId]?.map capabilitiesOf =
    (registry nodeId).map fun node => some node.1
  status : ∀ nodeId node, registry nodeId = some node →
    db.workerStatus[key nodeId]? = some [node.2.toByte]
  keys : ∀ k row, db.workers[k]? = some row → ∃ nodeId, k = key nodeId

def withoutWorkers (m : Machine) : Machine :=
  { m with database := { m.database with workers := ∅, workerStatus := ∅ } }

theorem stored_withoutWorkers (m : Machine) :
    Stored (fun _ => none) (withoutWorkers m).database where
  worker _ := by simp [withoutWorkers]
  status _ _ h := by simp at h
  keys _ _ h := by simp [withoutWorkers] at h

variable {registry : Registry} {m : Machine} (d : Deployment)

section

variable {V : Type} (t : Table Bytes V) (i j : UInt64)

theorem get_insert_key (v : V) :
    (t.insert (key i) v)[key j]? = if j = i then some v else t[key j]? := by
  simp only [get_insert, key_inj, eq_comm]

theorem get_erase_key : (t.erase (key i))[key j]? = if j = i then none else t[key j]? := by
  simp only [get_erase, key_inj, eq_comm]

end

theorem stored_register (h : Stored registry m.database) (nid : UInt64) (addr : String)
    (caps : WorkerCapabilities) (topology : NodeTopology) :
    Stored (update registry nid (some (caps, .online)))
      (m.applyRegisterWorker nid.toNat addr caps topology).1.database where
  worker i := by
    change ((m.database.workers.insert (key nid) _)[key i]?).map _ = _
    rw [get_insert_key, update_apply]
    split_ifs
    · rfl
    · exact h.worker i
  status i node hi := by
    change (m.database.workerStatus.insert (key nid) _)[key i]? = _
    rw [update_apply] at hi
    rw [get_insert_key]
    split_ifs at hi ⊢
    · rw [← Option.some.inj hi]
    · exact h.status i node hi
  keys k row hk := by
    rcases get_insert_eq_some.1 hk with ⟨rfl, -⟩ | ⟨-, hk⟩
    · exact ⟨nid, rfl⟩
    · exact h.keys k row hk

theorem stored_updateStatus (h : Stored registry m.database) (nodeId : UInt64)
    (status : WorkerStatus) : Stored
      (update registry nodeId ((registry nodeId).map fun node => (node.1, status)))
      (m.applyUpdateWorkerStatus nodeId.toNat status).1.database where
  worker i := by
    refine (h.worker i).trans ?_
    rw [update_apply]
    split_ifs with hi
    · rw [hi, Option.map_map]
      rfl
    · rfl
  status i node hi := by
    change (m.database.workerStatus.insert (key nodeId) _)[key i]? = _
    rw [update_apply] at hi
    rw [get_insert_key]
    split_ifs at hi ⊢
    · obtain ⟨old, -, rfl⟩ := Option.map_eq_some_iff.1 hi
      rfl
    · exact h.status i node hi
  keys := h.keys

theorem stored_remove (h : Stored registry m.database) (nid : UInt64) :
    Stored (update registry nid none) (m.applyRemoveWorker nid.toNat).1.database where
  worker i := by
    change ((m.database.workers.erase (key nid))[key i]?).map _ = _
    rw [get_erase_key, update_apply]
    split_ifs
    · rfl
    · exact h.worker i
  status i node hi := by
    change (m.database.workerStatus.erase (key nid))[key i]? = _
    rw [update_apply] at hi
    rw [get_erase_key]
    split_ifs at hi ⊢
    exact h.status i node hi
  keys k row hk := by
    change (m.database.workers.erase (key nid))[k]? = some row at hk
    rw [get_erase] at hk
    split_ifs at hk
    exact h.keys k row hk

def apply (m : Machine) (event : Env × WorkerProposal) : Machine :=
  (m.applyOne d event.1 event.2.proposal).1

theorem stored_apply (h : Stored registry m.database) (event : Env × WorkerProposal) :
    Stored (event.2.record registry) (apply d m event).database := by
  obtain ⟨env, p⟩ := event
  cases p with
  | register nid addr caps topology =>
    exact stored_register h nid addr caps topology
  | updateStatus nid st => exact stored_updateStatus h nid st
  | remove nid => exact stored_remove h nid

def ofProposals (events : List (Env × WorkerProposal)) : Registry :=
  events.foldl (fun registry event => event.2.record registry) fun _ => none

/-- **The tables have the registered nodes**, after every sequence of proposals. -/
theorem stored_run (m : Machine) (evs : List (Env × WorkerProposal)) :
    Stored (ofProposals evs) (evs.foldl (apply d) (withoutWorkers m)).database := by
  suffices hrun : ∀ (reg : Registry) (m : Machine), Stored reg m.database →
      Stored (evs.foldl (fun reg event => event.2.record reg) reg)
        (evs.foldl (apply d) m).database from
    hrun _ _ (stored_withoutWorkers m)
  induction evs with
  | nil => exact fun _ _ h => h
  | cons event evs ih => exact fun _ _ h => ih _ _ (stored_apply d h event)

/-! ## The report about registrations -/

/-- The report has exactly the registered nodes, each once, with their capabilities and
    whether they are online. -/
def Reports (registry : Registry) (nodes : List NodeResourceUsage) : Prop :=
  (nodes.map NodeResourceUsage.nodeId).Nodup ∧
  ∀ nodeId capabilities healthy,
    (∃ node ∈ nodes, node.nodeId = nodeId ∧ node.capabilities = capabilities ∧
      node.isHealthy = healthy) ↔
    ∃ (i : UInt64) (status : WorkerStatus), i.toNat = nodeId ∧
      registry i = some (capabilities, status) ∧ healthy = decide (status = .online)

variable (enc : RowEncoding) (reader : SchedulerEnv)

def report (db : Database) : Except Failure (List NodeResourceUsage) :=
  reader.getClusterResourceUsage ((reader.rows enc).database db)

theorem worker_row {k data : Bytes} :
    (((reader.rows enc).database db).bytes .worker)[k]? = some data ↔
      ∃ row, db.workers[k]? = some row ∧ reader.workerRow row = data := by
  refine (get_mapRows reader.workerRow injective_id db.workers).trans ?_
  simp

theorem report_of_empty (h : Stored registry db) (hnone : ∀ i, registry i = none) :
    report enc reader db = .ok [] := by
  have hw : ((reader.rows enc).database db).bytes .worker = ∅ := by
    ext k data
    rw [worker_row]
    refine ⟨?_, fun hk => by simp at hk⟩
    rintro ⟨row, hk, -⟩
    obtain ⟨i, rfl⟩ := h.keys k row hk
    have hr := h.worker i
    rw [hk, hnone] at hr
    cases hr
  rw [report, SchedulerEnv.getClusterResourceUsage, hw]
  rfl

variable {reader}

/-- **With a registered node the report is an error.** -/
theorem report_of_registered (htags : reader.TagsTakeFourBytes)
    (h : Stored registry db) (hi : registry i ≠ none) :
    ∃ failure, report enc reader db = .error failure := by
  apply SchedulerEnv.getClusterResourceUsage_of_bytes htags
  · intro he
    obtain ⟨node, hnode⟩ := Option.ne_none_iff_exists'.1 hi
    have hw := h.worker i
    rw [hnode, Option.map_some, Option.map_eq_some_iff] at hw
    obtain ⟨row, hrow, -⟩ := hw
    have hdata := (worker_row enc reader).2 ⟨row, hrow, rfl⟩
    rw [he] at hdata
    simp at hdata
  · intro k data hk
    obtain ⟨row, hrow, -⟩ := (worker_row enc reader).1 hk
    obtain ⟨j, rfl⟩ := h.keys k row hrow
    have hw := h.worker j
    rw [hrow, Option.map_some, eq_comm, Option.map_eq_some_iff] at hw
    obtain ⟨node, hnode, -⟩ := hw
    exact ⟨length_leBytes 8 _, node.2.toByte, h.status j node hnode⟩

/-- **When the report is right**: after every sequence of proposals, the scheduler reports
    the registered nodes exactly if there are none. -/
theorem registrations_reported_iff (enc : RowEncoding) (reader : SchedulerEnv)
    (htags : reader.TagsTakeFourBytes) (d : Deployment) (m : Machine)
    (events : List (Env × WorkerProposal)) :
    (∃ nodes, report enc reader (events.foldl (apply d) (withoutWorkers m)).database = .ok nodes ∧
        Reports (ofProposals events) nodes) ↔
      ∀ i, ofProposals events i = none := by
  have hstored := stored_run d m events
  constructor
  · rintro ⟨nodes, hreport, -⟩ i
    by_contra hi
    obtain ⟨failure, hfailure⟩ := report_of_registered enc htags hstored hi
    rw [hfailure] at hreport
    cases hreport
  · intro hnone
    refine ⟨[], report_of_empty enc reader hstored hnone, List.nodup_nil, ?_⟩
    simp [hnone]

end Registry

/-! ## The format of the library -/

open Bincode

def WorkerCapabilities.codec : Codec WorkerCapabilities :=
  ((Codec.uint 4).pair ((Codec.uint 8).pair ((Codec.uint 8).pair Codec.string.seq))).iso
    (fun x => ⟨x.1, x.2.1, x.2.2.1, x.2.2.2⟩)
    (fun c => (c.cpuCores, c.memoryMb, c.diskGb, c.features))
    (fun _ => rfl)

def WorkerStatus.ofTag : ℕ → Option WorkerStatus
  | 0 => some online
  | 1 => some busy
  | 2 => some offline
  | 3 => some failed
  | _ => none

def WorkerStatus.codec : Codec WorkerStatus :=
  .variant (fun status => status.toByte.toNat) ofTag (by rintro (_ | _ | _ | _) <;> rfl)

namespace SchedulerEnv

variable (platform : Platform) (text : Error → String)
  (deserializeVmConfig : Bytes → Except String VmConfig)

/-- The library with fixed-width numbers; `text` are its error texts. -/
def bincode : SchedulerEnv where
  platform := platform
  serializeWorker := (Codec.string.pair WorkerCapabilities.codec).encode
  serializeCapabilities := WorkerCapabilities.codec.encode
  deserializeCapabilities bytes := (WorkerCapabilities.codec.deserialize bytes).mapError text
  deserializeStatus bytes := (WorkerStatus.codec.deserialize bytes).mapError text
  deserializeVmConfig := deserializeVmConfig

theorem bincode_tagsTakeFourBytes :
    (bincode platform text deserializeVmConfig).TagsTakeFourBytes := by
  intro bytes hs
  refine ⟨text .unexpectedEof, ?_⟩
  have hd : WorkerStatus.codec.deserialize bytes = .error .unexpectedEof :=
    Codec.deserialize_variant_of_short hs
  simp only [bincode, hd, Except.mapError]

end SchedulerEnv

namespace Registry

def workerOne : WorkerProposal := .register 1 "n1:7001" ⟨4, 8192, 100, []⟩ {}

def format : SchedulerEnv := .bincode .release (fun _ => "unexpected end of file") fun _ => .ok {}

theorem removed_worker_is_not_reported : format.TagsTakeFourBytes ∧ ∀ enc : RowEncoding, ∃ nodes,
      report enc format
        (([(.still 0, workerOne), (.still 1, .remove 1)] : List (Env × WorkerProposal)).foldl
          (apply .raftManager) (withoutWorkers .new)).database = .ok nodes ∧
      Reports (ofProposals [(.still 0, workerOne), (.still 1, .remove 1)]) nodes := by
  have htags : format.TagsTakeFourBytes := SchedulerEnv.bincode_tagsTakeFourBytes _ _ _
  refine ⟨htags, fun enc => ?_⟩
  refine (registrations_reported_iff enc format htags .raftManager .new
    [(.still 0, workerOne), (.still 1, .remove 1)]).2 fun i => ?_
  simp only [ofProposals, List.foldl_cons, List.foldl_nil, workerOne, WorkerProposal.record,
    Function.update_idem]
  by_cases hi : i = 1
  · rw [hi, Function.update_self]
  · rw [Function.update_of_ne hi]

/-- Worker 1 is registered: the length of its address is read as its cores, and the bytes
    end within the features. -/
theorem registered_worker_is_not_reported :
    ofProposals [(.still 0, workerOne)] 1 = some (⟨4, 8192, 100, []⟩, .online) ∧
    ∀ enc : RowEncoding, report enc format
        (([(.still 0, workerOne)] : List (Env × WorkerProposal)).foldl
          (apply .raftManager) (withoutWorkers .new)).database =
        .error (.error (.serialization "deserialize worker capabilities"
          "unexpected end of file")) := by
  refine ⟨rfl, fun enc => ?_⟩
  have hrows : (Table.mapRows id (format.rows enc).worker
      ((∅ : Table Bytes _).insert (key 1) (.value ("n1:7001", ⟨4, 8192, 100, []⟩)))).toList =
      [(key 1, format.serializeWorker ("n1:7001", ⟨4, 8192, 100, []⟩))] := by
    rw [Table.mapRows_insert _ Function.injective_id, Table.mapRows, Table.toList_empty]
    exact Table.toList_insert_empty _ _
  have hread : format.deserializeCapabilities
      (format.serializeWorker ("n1:7001", ⟨4, 8192, 100, []⟩)) =
        .error "unexpected end of file" := by
    decide +kernel
  have hkey : (key 1).length = 8 := Bytes.length_leBytes 8 _
  change (Table.mapRows id _ ((∅ : Table Bytes _).insert (key 1) _)).toList.mapM _ = _
  rw [hrows, List.mapM_cons]
  simp only [SchedulerEnv.nodeUsage, hkey, hread, decoded, ne_eq, not_true, if_false, bind,
    Except.bind]

end Registry

end Blixard
