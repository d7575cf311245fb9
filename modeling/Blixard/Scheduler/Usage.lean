/-
  The use of a node in the report of the scheduler, over the rows that the state machine writes
  about machines (`resource_analysis.rs`).

  The loop adds up all rows, whichever node they are for, and reads each as a configuration,
  where the length of the path becomes the two sizes (`reports_recorded_iff`).
-/
import Mathlib.Data.Nat.ModEq
import Blixard.Scheduler

namespace Blixard

open Bytes Function List Platform Std.ExtTreeMap Table VmConfig

/-- The amount as unsigned arithmetic of `w` bits ends up with it: a build with overflow
    checks does so only if it fits. -/
def Platform.Totals (pf : Platform) (w amount total : ℕ) : Prop :=
  amount % 2 ^ w = total ∧ (pf.overflowChecks → amount < 2 ^ w)

namespace Platform

variable {pf : Platform} {w a b c s r : ℕ}

theorem addUnsigned_ok : pf.addUnsigned w a b = .ok c ↔ pf.Totals w (a + b) c :=
  addUnsigned_eq_ok

theorem Totals.add (h : pf.Totals w a c) : pf.Totals w (c + s) r ↔ pf.Totals w (a + s) r := by
  obtain ⟨rfl, hfits⟩ := h
  unfold Totals
  rw [Nat.mod_add_mod]
  refine and_congr_right fun _ => forall_congr' fun hc => ?_
  rw [Nat.mod_eq_of_lt (hfits hc)]

theorem Totals.of_add (h : pf.Totals w (a + s) r) : pf.Totals w a (a % 2 ^ w) :=
  ⟨rfl, fun hc => Nat.lt_of_le_of_lt (Nat.le_add_right a s) (h.2 hc)⟩

theorem totals_of_lt (h : a < 2 ^ w) : pf.Totals w a c ↔ a = c := by
  unfold Totals
  rw [Nat.mod_eq_of_lt h]
  exact and_iff_left fun _ => h

theorem eq_of_totals_five (ha : a < 2 ^ 64) (hc : c ≤ a) (h : pf.Totals 64 (5 * a) (5 * c)) :
    c = a := by
  have hmod : Nat.ModEq (2 ^ 64) (5 * a) (5 * c) := by
    unfold Nat.ModEq
    rw [h.1, ← h.1, Nat.mod_mod]
  have hn : Nat.ModEq (2 ^ 64) a c := hmod.cancel_left_of_coprime (by decide)
  exact (hn.eq_of_lt_of_lt ha (Nat.lt_of_le_of_lt hc ha)).symm

end Platform

namespace SchedulerEnv

/-! ## The loop -/

variable (env : SchedulerEnv)

def Readable (bytes : Bytes) : Prop := ∃ config, env.deserializeVmConfig bytes = .ok config

def readConfig (bytes : Bytes) : VmConfig :=
  match env.deserializeVmConfig bytes with
  | .ok config => config
  | .error _ => {}

structure Adds (used : VmUsage) (vcpus memory count : ℕ) (r : VmUsage) : Prop where
  vcpus : env.platform.Totals 32 (used.vcpus + vcpus) r.vcpus
  memoryMb : env.platform.Totals 64 (used.memoryMb + memory) r.memoryMb
  diskGb : env.platform.Totals 64 (used.diskGb + 5 * count) r.diskGb
  runningVms : env.platform.Totals 32 (used.runningVms + count) r.runningVms

variable {env} {used mid r : VmUsage} {v v' m m' k k' : ℕ}

theorem Adds.trans (h : env.Adds used v m k mid) :
    env.Adds mid v' m' k' r ↔ env.Adds used (v + v') (m + m') (k + k') r := by
  constructor
  · intro h'
    constructor
    · rw [← Nat.add_assoc, ← h.vcpus.add]
      exact h'.vcpus
    · rw [← Nat.add_assoc, ← h.memoryMb.add]
      exact h'.memoryMb
    · rw [Nat.mul_add, ← Nat.add_assoc, ← h.diskGb.add]
      exact h'.diskGb
    · rw [← Nat.add_assoc, ← h.runningVms.add]
      exact h'.runningVms
  · rintro ⟨hv, hm, hd, hr⟩
    constructor
    · rwa [h.vcpus.add, Nat.add_assoc]
    · rwa [h.memoryMb.add, Nat.add_assoc]
    · rwa [h.diskGb.add, Nat.add_assoc, ← Nat.mul_add]
    · rwa [h.runningVms.add, Nat.add_assoc]

theorem Adds.first (h : env.Adds used (v + v') (m + m') (k + k') r) :
    ∃ mid, env.Adds used v m k mid := by
  obtain ⟨hv, hm, hd, hr⟩ := h
  rw [← Nat.add_assoc] at hv hm hr
  rw [Nat.mul_add, ← Nat.add_assoc] at hd
  exact ⟨⟨_, _, _, _⟩, hv.of_add, hm.of_add, hd.of_add, hr.of_add⟩

theorem adds_zero : env.Adds {} v m k r ↔ env.platform.Totals 32 v r.vcpus ∧
    env.platform.Totals 64 m r.memoryMb ∧ env.platform.Totals 64 (5 * k) r.diskGb ∧
    env.platform.Totals 32 k r.runningVms := by
  constructor
  · rintro ⟨hv, hm, hd, hr⟩
    rw [Nat.zero_add] at hv hm hd hr
    exact ⟨hv, hm, hd, hr⟩
  · rintro ⟨hv, hm, hd, hr⟩
    constructor <;> rwa [Nat.zero_add]

theorem addVm_ok {row : String × Bytes} : env.addVm used row = .ok r ↔
    env.Readable row.2 ∧
      env.Adds used (env.readConfig row.2).vcpus (env.readConfig row.2).memory 1 r := by
  unfold addVm Readable readConfig
  cases env.deserializeVmConfig row.2 with
  | error src => simp [decoded, bind, Except.bind]
  | ok cfg =>
    rw [and_iff_right ⟨cfg, rfl⟩]
    constructor
    · intro h
      obtain ⟨_, ⟨⟩, h⟩ := bind_eq_ok h
      obtain ⟨vcpus, hv, h⟩ := bind_eq_ok h
      obtain ⟨mem, hm, h⟩ := bind_eq_ok h
      obtain ⟨diskGb, hd, h⟩ := bind_eq_ok h
      obtain ⟨runningVms, hr, h⟩ := bind_eq_ok h
      obtain rfl : (⟨vcpus, mem, diskGb, runningVms⟩ : VmUsage) = r := Except.ok.inj h
      exact ⟨addUnsigned_ok.1 hv, addUnsigned_ok.1 hm,
        addUnsigned_ok.1 hd, addUnsigned_ok.1 hr⟩
    · rintro ⟨hv, hm, hd, hr⟩
      rw [← addUnsigned_ok] at hv hm hd hr
      simp only [decoded, bind, Except.bind, hv, hm, hr]
      simp only [Nat.mul_one] at hd
      simp only [hd]

theorem foldlM_addVm_ok {rows : List (String × Bytes)} (hused : env.Adds used 0 0 0 used) :
    rows.foldlM env.addVm used = .ok r ↔ (∀ row ∈ rows, env.Readable row.2) ∧
      env.Adds used (rows.map fun row => (env.readConfig row.2).vcpus).sum
        (rows.map fun row => (env.readConfig row.2).memory).sum rows.length r := by
  induction rows generalizing used with
  | nil =>
    simp only [foldlM_nil, map_nil, sum_nil, length_nil]
    constructor
    · intro h
      obtain rfl : used = r := Except.ok.inj h
      exact ⟨by simp, hused⟩
    rintro ⟨-, hv, hm, hd, hr⟩
    have heq : used = r := by
      cases used
      cases r
      simp only [VmUsage.mk.injEq]
      exact ⟨hused.vcpus.1.symm.trans hv.1, hused.memoryMb.1.symm.trans hm.1,
        hused.diskGb.1.symm.trans hd.1, hused.runningVms.1.symm.trans hr.1⟩
    exact congrArg Except.ok heq
  | cons row rows ih =>
    rw [foldlM_cons, forall_mem_cons, map_cons, map_cons, sum_cons,
      sum_cons, length_cons, Nat.add_comm rows.length 1]
    constructor
    · intro h
      obtain ⟨mid, hmid, h⟩ := bind_eq_ok h
      obtain ⟨hread, hadds⟩ := addVm_ok.1 hmid
      obtain ⟨hrest, h⟩ := (ih (hadds.trans.2 hadds)).1 h
      exact ⟨⟨hread, hrest⟩, hadds.trans.1 h⟩
    rintro ⟨⟨hread, hrest⟩, h⟩
    obtain ⟨mid, hadds⟩ := h.first
    rw [addVm_ok.2 ⟨hread, hadds⟩]
    exact (ih (hadds.trans.2 hadds)).2 ⟨hrest, hadds.trans.2 h⟩

theorem calculateNodeResourceUsage_ok {vmTable : Table String Bytes} :
    env.calculateNodeResourceUsage vmTable = .ok r ↔
      (∀ (key : String) bytes, vmTable[key]? = some bytes → env.Readable bytes) ∧
      env.Adds {} (sumOf (fun _ bytes => (env.readConfig bytes).vcpus) vmTable)
        (sumOf (fun _ bytes => (env.readConfig bytes).memory) vmTable) vmTable.size r := by
  have hs : env.Adds {} 0 0 0 {} := by
    constructor <;> exact (totals_of_lt (by decide)).2 rfl
  rw [calculateNodeResourceUsage, foldlM_addVm_ok hs, length_toList,
    Prod.forall]
  simp only [mem_toList_iff_getElem?_eq_some]
  rfl

end SchedulerEnv

/-! ## What is recorded -/

def shareOf (nodeId : ℕ) (amount : VmState → ℕ) : Encoded VmState → ℕ
  | .value vm => if vm.nodeId = nodeId then amount vm else 0
  | .junk _ => 0

def recordedUsage (vms : Table String (Encoded VmState)) (nodeId : ℕ) : VmUsage where
  vcpus := Table.sumOf (fun _ => shareOf nodeId (·.config.vcpus)) vms
  memoryMb := Table.sumOf (fun _ => shareOf nodeId (·.config.memory)) vms
  diskGb := 5 * Table.sumOf (fun _ => shareOf nodeId fun _ => 1) vms
  runningVms := Table.sumOf (fun _ => shareOf nodeId fun _ => 1) vms

theorem shareOf_one {nid : ℕ} (row : Encoded VmState) : shareOf nid (fun _ => 1) row ≤ 1 ∧
      (shareOf nid (fun _ => 1) row = 1 ↔ ∃ vm, row = .value vm ∧ vm.nodeId = nid) := by
  cases row with
  | junk bytes => simp [shareOf]
  | value vm =>
    by_cases h : vm.nodeId = nid
    · simp [shareOf, h]
    · simp [shareOf, h]

def pathLength : Encoded VmState → ℕ
  | .value vm => vm.config.configPath.utf8ByteSize
  | .junk _ => 0

namespace SchedulerEnv

variable (env : SchedulerEnv) (rowBytes : Encoded VmState → Bytes)

/-- Read as a configuration, a machine state has the length of its path as its sizes: the
    length takes the eight bytes in which a configuration has them. -/
def PathAsSizes (vm : VmState) : Prop :=
  ∀ config, env.deserializeVmConfig (rowBytes (.value vm)) = .ok config →
    config.vcpus = vm.config.configPath.utf8ByteSize % 2 ^ 32 ∧
    config.memory = vm.config.configPath.utf8ByteSize / 2 ^ 32

/-- All rows can be read, are of machines on the node, and the lengths of their paths add
    up to what the machines use. -/
structure OnlyHere (vms : Table String (Encoded VmState)) (nodeId : ℕ) : Prop where
  readable : ∀ (key : String) row, vms[key]? = some row → env.Readable (rowBytes row)
  here : ∀ (key : String) row, vms[key]? = some row → ∃ vm, row = .value vm ∧ vm.nodeId = nodeId
  few : vms.size < 2 ^ 32
  vcpus : env.platform.Totals 32 (Table.sumOf (fun _ row => pathLength row % 2 ^ 32) vms)
    (recordedUsage vms nodeId).vcpus
  memory : env.platform.Totals 64 (Table.sumOf (fun _ row => pathLength row / 2 ^ 32) vms)
    (recordedUsage vms nodeId).memoryMb

variable {env rowBytes} {vms : Table String (Encoded VmState)} {nodeId : ℕ}

theorem sumOf_readConfig
    (hpath : ∀ (key : String) vm, vms[key]? = some (.value vm) → env.PathAsSizes rowBytes vm)
    (hread : ∀ (key : String) row, vms[key]? = some row → env.Readable (rowBytes row))
    (hhere : ∀ (key : String) row, vms[key]? = some row →
      ∃ vm, row = .value vm ∧ vm.nodeId = nodeId) :
    sumOf (fun _ row => (env.readConfig (rowBytes row)).vcpus) vms =
      sumOf (fun _ row => pathLength row % 2 ^ 32) vms ∧
    sumOf (fun _ row => (env.readConfig (rowBytes row)).memory) vms =
      sumOf (fun _ row => pathLength row / 2 ^ 32) vms := by
  have hrow : ∀ (key : String) row, vms[key]? = some row →
      (env.readConfig (rowBytes row)).vcpus = pathLength row % 2 ^ 32 ∧
      (env.readConfig (rowBytes row)).memory = pathLength row / 2 ^ 32 := by
    intro key row hkey
    obtain ⟨cfg, hc⟩ := hread key row hkey
    obtain ⟨vm, rfl, -⟩ := hhere key row hkey
    rw [readConfig, hc]
    exact hpath key vm hkey cfg hc
  exact ⟨sumOf_congr fun key row hkey => (hrow key row hkey).1,
    sumOf_congr fun key row hkey => (hrow key row hkey).2⟩

theorem calculate_mapRows : env.calculateNodeResourceUsage (mapRows id rowBytes vms) =
    .ok (recordedUsage vms nodeId) ↔
      (∀ (key : String) row, vms[key]? = some row → env.Readable (rowBytes row)) ∧
      env.Adds {} (sumOf (fun _ row => (env.readConfig (rowBytes row)).vcpus) vms)
        (sumOf (fun _ row => (env.readConfig (rowBytes row)).memory) vms) vms.size
        (recordedUsage vms nodeId) := by
  rw [calculateNodeResourceUsage_ok, sumOf_mapRows injective_id,
    sumOf_mapRows injective_id, size_mapRows injective_id]
  refine and_congr_left fun _ => ?_
  constructor
  · intro h key row hkey
    exact h key _ ((get_mapRows rowBytes injective_id vms).2
      ⟨key, row, hkey, rfl, rfl⟩)
  intro h key bytes hkey
  obtain ⟨k, row, hrow, -, rfl⟩ :=
    (get_mapRows rowBytes injective_id vms).1 hkey
  exact h k row hrow

/-- **When the use of a node is right**: exactly if all machines are recorded on it, and reading
    their states as configurations does no harm. -/
theorem reports_recorded_iff (env : SchedulerEnv) (rowBytes : Encoded VmState → Bytes)
    (vms : Table String (Encoded VmState)) (nodeId : ℕ) (hsize : vms.size < 2 ^ 64)
    (hpath : ∀ (key : String) vm, vms[key]? = some (.value vm) → env.PathAsSizes rowBytes vm) :
    env.calculateNodeResourceUsage (Table.mapRows id rowBytes vms) =
      .ok (recordedUsage vms nodeId) ↔ env.OnlyHere rowBytes vms nodeId := by
  obtain ⟨hle, hall⟩ := Table.sumOf_eq_size_iff
    (f := fun _ : String => shareOf nodeId fun _ => 1) (fun _ row => (shareOf_one row).1) vms
  simp only [(shareOf_one _).2] at hall
  rw [calculate_mapRows, adds_zero]
  constructor
  · rintro ⟨hread, hv, hm, hd, hr⟩
    -- the disks are counted in 64 bits, so all rows count for the node
    have hcount : Table.sumOf (fun _ => shareOf nodeId fun _ => 1) vms = vms.size :=
      Platform.eq_of_totals_five hsize hle hd
    have hhere := hall.1 hcount
    obtain ⟨hvcpus, hmemory⟩ := sumOf_readConfig hpath hread hhere
    refine ⟨hread, hhere, ?_, hvcpus ▸ hv, hmemory ▸ hm⟩
    have hrunning := hr.1
    simp only [recordedUsage, hcount] at hrunning
    omega
  · rintro ⟨hread, hhere, hfew, hv, hm⟩
    have hcount := hall.2 hhere
    obtain ⟨hvcpus, hmemory⟩ := sumOf_readConfig hpath hread hhere
    refine ⟨hread, hvcpus ▸ hv, hmemory ▸ hm, ?_, ?_⟩
    · have hdisk : 5 * vms.size < 2 ^ 64 := by omega
      rw [@Platform.totals_of_lt _ 64 _ _ hdisk, recordedUsage, hcount]
    · rw [@Platform.totals_of_lt _ 32 _ _ hfew, recordedUsage, hcount]

end SchedulerEnv

/-! ## The format of the library -/

open Bincode

def AntiAffinityType.codec : Codec AntiAffinityType :=
  (Codec.unit.sum (Codec.uint 8)).iso
    (fun x => x.elim (fun _ => .hard) fun weight => .soft (BitVec.ofNat 64 weight))
    (fun t => match t with
      | .hard => .inl ()
      | .soft weight => .inr weight.toNat)
    (fun t => by cases t <;> simp)

def AntiAffinityRule.codec : Codec AntiAffinityRule :=
  (AntiAffinityType.codec.pair (Codec.string.pair ((Codec.uint 8).pair Codec.string.option))).iso
    (fun x => ⟨x.1, x.2.1, x.2.2.1, x.2.2.2⟩)
    (fun r => (r.ruleType, r.groupKey, r.maxPerNode, r.scope))
    (fun _ => rfl)

def LocalityPreference.codec : Codec LocalityPreference :=
  (Codec.string.option.pair (Codec.string.option.pair (Codec.bool.pair (Codec.bool.pair
    ((Codec.uint 4).option.pair Codec.string.seq))))).iso
    (fun x => ⟨x.1, x.2.1, x.2.2.1, x.2.2.2.1, x.2.2.2.2.1, x.2.2.2.2.2⟩)
    (fun l => (l.preferredDatacenter, l.preferredZone, l.enforceSameDatacenter,
      l.spreadAcrossZones, l.maxLatencyMs, l.excludedDatacenters))
    (fun _ => rfl)

namespace VmConfig

def tailCodec : Codec (String × Option String × Option (List (String × String)) ×
    Option (List AntiAffinityRule) × ℕ × Bool × LocalityPreference × Option Empty) :=
  Codec.string.pair (Codec.string.option.pair ((Codec.string.pair Codec.string).seq.option.pair
    (AntiAffinityRule.codec.seq.option.pair ((Codec.uint 4).pair (Codec.bool.pair
      (LocalityPreference.codec.pair Codec.never.option))))))

def codec : Codec VmConfig :=
  (Codec.string.pair (Codec.string.pair ((Codec.uint 4).pair ((Codec.uint 4).pair tailCodec)))).iso
    (fun x =>
      { name := x.1, configPath := x.2.1, vcpus := x.2.2.1, memory := x.2.2.2.1,
        tenantId := x.2.2.2.2.1, ipAddress := x.2.2.2.2.2.1, metadata := x.2.2.2.2.2.2.1,
        antiAffinity := x.2.2.2.2.2.2.2.1, priority := x.2.2.2.2.2.2.2.2.1,
        preemptible := x.2.2.2.2.2.2.2.2.2.1, localityPreference := x.2.2.2.2.2.2.2.2.2.2.1 })
    (fun c => (c.name, c.configPath, c.vcpus, c.memory, c.tenantId, c.ipAddress, c.metadata,
      c.antiAffinity, c.priority, c.preemptible, c.localityPreference, none))
    (fun _ => rfl)

end VmConfig

namespace VmState

def statusTag : VmStatus → ℕ
  | .creating => 0
  | .starting => 1
  | .running => 2
  | .stopping => 3
  | .stopped => 4
  | .failed => 5

def row (date : ℤ → String) (vm : VmState) : Bytes :=
  Codec.string.encode vm.name ++ (VmConfig.codec.encode vm.config ++
    (Bytes.leBytes 4 (statusTag vm.status) ++ (Bytes.leBytes 8 vm.nodeId ++
      (Codec.string.encode (date vm.createdAt) ++ Codec.string.encode (date vm.updatedAt)))))

end VmState

namespace SchedulerEnv

def machineFormat (platform : Platform) (text : Error → String) : SchedulerEnv :=
  bincode platform text fun bytes => (VmConfig.codec.deserialize bytes).mapError text

def machineRow (date : ℤ → String) : Encoded VmState → Bytes
  | .value vm => vm.row date
  | .junk bytes => bytes

theorem pathAsSizes_machineFormat (platform : Platform) (text : Error → String)
    (date : ℤ → String) {vm : VmState} (hname : Codec.string.Fits vm.name)
    (hc : Codec.string.Fits vm.config.name) (hpath : Codec.string.Fits vm.config.configPath) :
    (machineFormat platform text).PathAsSizes (machineRow date) vm := by
  intro cfg hread
  have hlen : vm.config.configPath.utf8ByteSize / 256 ^ 4 < 256 ^ 4 := Nat.div_lt_of_lt_mul hpath
  -- what follows the length of the path does not matter
  obtain ⟨rest, hrow⟩ : ∃ rest, vm.row date = Codec.string.encode vm.name ++
      (Codec.string.encode vm.config.name ++
        (leBytes 4 vm.config.configPath.utf8ByteSize ++
          (leBytes 4 (vm.config.configPath.utf8ByteSize / 256 ^ 4) ++ rest))) := by
    have hs : ∀ bytes, Codec.string.encode vm.config.configPath ++ bytes =
        leBytes 4 vm.config.configPath.utf8ByteSize ++
          (leBytes 4 (vm.config.configPath.utf8ByteSize / 256 ^ 4) ++
            (vm.config.configPath.toUTF8.data.toList ++ bytes)) := by
      intro bytes
      rw [← append_assoc, ← leBytes_add, ← append_assoc]
      rfl
    simp only [VmState.row, codec, Codec.iso, Codec.pair, append_assoc, hs]
    exact ⟨_, rfl⟩
  have hlow := takeLe_append 4 vm.config.configPath.utf8ByteSize
  have hhigh := takeLe_of_lt hlen
  simp only [machineFormat, bincode, machineRow, Codec.deserialize, codec, Codec.iso,
    Codec.pair, hrow, Codec.string.decode_encode hname, Codec.string.decode_encode hc,
    Codec.uint, hlow, hhigh, Option.elim_some, bind, Except.bind] at hread
  cases htail : tailCodec.decode rest with
  | error e =>
    rw [htail] at hread
    cases hread
  | ok tail =>
    rw [htail] at hread
    cases hread
    exact ⟨rfl, rfl⟩

def formatOne : SchedulerEnv := machineFormat .release fun _ => "unexpected end of file"

def rowsOne : Encoded VmState → Bytes := machineRow fun _ => "1970-01-01T00:00:00Z"

def zeroPath : String := String.ofList (List.replicate 30 (Char.ofNat 0))

def onNodeOne (config : VmConfig) : VmState := ⟨config.name, config, .running, 1, 0, 0⟩

def oneMachine (config : VmConfig) : Table String (Encoded VmState) :=
  (∅ : Table _ _).insert "vm1" (.value (onNodeOne config))

variable (cfg : VmConfig)

theorem calculate_oneMachine :
    formatOne.calculateNodeResourceUsage (mapRows id rowsOne (oneMachine cfg)) =
      formatOne.addVm {} ("vm1", rowsOne (.value (onNodeOne cfg))) := by
  have hrows : (mapRows id rowsOne (oneMachine cfg)).toList =
      [("vm1", rowsOne (.value (onNodeOne cfg)))] := by
    rw [oneMachine, mapRows_insert _ injective_id, mapRows, toList_empty]
    exact toList_insert_empty _ _
  rw [calculateNodeResourceUsage, hrows, foldlM_cons]
  cases formatOne.addVm {} ("vm1", rowsOne (.value (onNodeOne cfg))) <;> rfl

theorem sumOf_oneMachine (f : String → Encoded VmState → ℕ) :
    sumOf f (oneMachine cfg) = f "vm1" (.value (onNodeOne cfg)) := by
  rw [sumOf, oneMachine, toList_insert_empty]
  rfl

/-- A machine with 30 cores, no memory and a path of 30 zero bytes is counted right on its
    node. -/
theorem zero_path_is_counted :
    let config : VmConfig := { name := "vm1", configPath := zeroPath, vcpus := 30, memory := 0 }
    formatOne.calculateNodeResourceUsage (Table.mapRows id rowsOne (oneMachine config)) =
      .ok (recordedUsage (oneMachine config) 1) := by
  intro config
  have hrow : ∀ (key : String) row, (oneMachine config)[key]? = some row →
      row = .value (onNodeOne config) := by
    intro key row hkey
    rcases Table.get_insert_eq_some.1 hkey with ⟨-, rfl⟩ | ⟨-, hempty⟩
    · rfl
    · simp at hempty
  have hsize : (oneMachine config).size = 1 := by
    rw [← Std.ExtTreeMap.length_toList, oneMachine, Table.toList_insert_empty]
    rfl
  refine (reports_recorded_iff formatOne rowsOne (oneMachine config) 1 ?_ ?_).2
    ⟨?_, ?_, ?_, ?_, ?_⟩
  · rw [hsize]
    decide
  · intro key vm hkey
    obtain rfl : vm = onNodeOne config := Encoded.value.inj (hrow key _ hkey)
    refine pathAsSizes_machineFormat _ _ _ ?_ ?_ ?_
    · exact show (3 : ℕ) < 256 ^ 8 by decide
    · exact show (3 : ℕ) < 256 ^ 8 by decide
    · exact show zeroPath.toUTF8.data.toList.length < 256 ^ 8 by decide +kernel
  · intro key row hkey
    obtain rfl := hrow key row hkey
    have hread : (formatOne.deserializeVmConfig (rowsOne (.value (onNodeOne config)))).isOk := by
      decide +kernel
    cases hconfig : formatOne.deserializeVmConfig (rowsOne (.value (onNodeOne config))) with
    | ok c => exact ⟨c, hconfig⟩
    | error e =>
      rw [hconfig] at hread
      cases hread
  · intro key row hkey
    exact ⟨_, hrow key row hkey, rfl⟩
  · rw [hsize]
    decide
  · rw [sumOf_oneMachine, recordedUsage, sumOf_oneMachine]
    exact ⟨by decide +kernel, fun h => by cases h⟩
  · rw [sumOf_oneMachine, recordedUsage, sumOf_oneMachine]
    exact ⟨by decide +kernel, fun h => by cases h⟩

/-- With a machine of the default configuration the report is an error for every node; one with a
    path of zero bytes counts 30 cores and no memory on all of them. -/
theorem machine_is_not_counted :
    let ordinary : VmConfig := { name := "vm1" }
    let zeros : VmConfig := { name := "vm1", configPath := zeroPath }
    formatOne.calculateNodeResourceUsage (Table.mapRows id rowsOne (oneMachine ordinary)) =
        .error (.error (.serialization "deserialize VM config" "unexpected end of file")) ∧
      formatOne.calculateNodeResourceUsage (Table.mapRows id rowsOne (oneMachine zeros)) =
        .ok ⟨30, 0, 5, 1⟩ ∧
      recordedUsage (oneMachine zeros) 1 = ⟨1, 1024, 5, 1⟩ ∧
      recordedUsage (oneMachine zeros) 2 = ⟨0, 0, 0, 0⟩ := by
  intro ordinary zeros
  refine ⟨?_, ?_, ?_, ?_⟩
  · rw [calculate_oneMachine]
    decide +kernel
  · rw [calculate_oneMachine]
    decide +kernel
  · simp only [recordedUsage, sumOf_oneMachine]
    rfl
  · simp only [recordedUsage, sumOf_oneMachine]
    rfl

end SchedulerEnv

end Blixard
