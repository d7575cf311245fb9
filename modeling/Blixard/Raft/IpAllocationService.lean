/-
  The service that handles pending IP allocations (`ip_allocation_service.rs`), next to the
  entries that a node applies.

  No code writes a pending status, and a record is never read as one (`round_of_records`), so the
  rows of a node are records.  But a record holds the time of the node that wrote it
  (`table_of_log`).
-/
import Blixard.Lib.Bincode
import Blixard.Raft.Clocks

namespace Blixard

open Bincode.Codec Machine Std.ExtTreeMap Table

/-! ## What an entry inserts -/

namespace Machine

/-- The machine with its address rows written over the given ones. -/
def onto (rows : Table IpAllocationKey (Encoded IpAllocation)) (m : Machine) : Machine :=
  { m with database := { m.database with
      ipAllocations := Table.putAll rows m.database.ipAllocations.toList } }

section
variable {d : Deployment} (rows : Table IpAllocationKey (Encoded IpAllocation)) (m : Machine)

theorem tellQuotaManager_onto
    {chg : QuotaManager → Database → Except Failure (QuotaManager × Database)}
    (h : ∀ q, chg q (m.onto rows).database = (chg q m.database).map fun r =>
      (r.1, { r.2 with ipAllocations := putAll rows r.2.ipAllocations.toList })) :
    (m.onto rows).tellQuotaManager d chg =
      Prod.map (onto rows) id (m.tellQuotaManager d chg) := by
  have hm : (m.onto rows).quotaManager = m.quotaManager := rfl
  unfold tellQuotaManager
  by_cases ha : d.sharedAlive
  · simp only [ha, not_true, if_false]
    cases d.runtime with
    | absent => rfl
    | driving => rfl
    | blocking =>
      simp only [hm]
      cases m.quotaManager with
      | none => rfl
      | some q =>
        simp only [h]
        cases chg q m.database <;> rfl
  · rw [if_pos ha, if_pos ha]
    rfl

variable (env : Env)

theorem modifyVm_onto (name : String) (chg : VmState → VmState) :
    (m.onto rows).modifyVm d env name chg =
      Prod.map (onto rows) id (m.modifyVm d env name chg) := by
  have hrow : (m.onto rows).database.vmStates[name]? = m.database.vmStates[name]? := rfl
  simp only [modifyVm, hrow]
  cases m.database.vmStates[name]? with
  | none => rfl
  | some row => cases row <;> rfl

theorem applyVmCommand_onto (command : VmCommand) : (m.onto rows).applyVmCommand d env command =
      Prod.map (onto rows) id (m.applyVmCommand d env command) := by
  cases command with
  | create config nodeId =>
    have hsame : (m.onto rows).validateVmAdmission d env config nodeId =
        m.validateVmAdmission d env config nodeId := rfl
    simp only [applyVmCommand, hsame]
    cases m.validateVmAdmission d env config nodeId <;> rfl
  | start | stop | migrate => simp only [applyVmCommand, modifyVm_onto]
  | delete name => rfl
  | updateStatus name status => rfl

theorem blockOn_onto {run run' : Unit → Applied} (h : run' () = Prod.map (onto rows) id (run ())) :
    (m.onto rows).blockOn d run' = Prod.map (onto rows) id (m.blockOn d run) := by
  unfold blockOn
  cases d.runtime with
  | absent => rfl
  | driving => rfl
  | blocking => exact h

theorem applyAllocateIp_onto (req : IpAllocationRequest) : (m.onto rows).applyAllocateIp d env req =
      Prod.map (onto rows) id (m.applyAllocateIp d env req) := by
  have hm : (m.onto rows).ipPoolManager = m.ipPoolManager := rfl
  apply blockOn_onto
  simp only [hm]
  rcases m.ipPoolManager.allocateIp d.toPlatform env.toPoolEnv req with ⟨mgr, e | r⟩
  · rfl
  · simp only [commit, storeAllocation, Prod.map_apply, onto, putAll_insert]
    rfl

theorem applyReleaseVmIps_onto (vmId : VmId) : (m.onto rows).applyReleaseVmIps d vmId =
      Prod.map (onto rows) id (m.applyReleaseVmIps d vmId) := by
  have hips : (m.onto rows).mappedIps vmId = m.mappedIps vmId := rfl
  simp only [applyReleaseVmIps, hips]
  cases d.runtime with
  | absent => rfl
  | driving => by_cases h : m.mappedIps vmId = [] <;> simp only [h, if_true, if_false] <;> rfl
  | blocking => rfl

theorem applyUpdateTenantUsage_onto (tid : String) (delta : ResourceUsageDelta) :
    (m.onto rows).applyUpdateTenantUsage d env tid delta =
      Prod.map (onto rows) id (m.applyUpdateTenantUsage d env tid delta) := by
  have hupd : (m.onto rows).updatedUsage d env tid delta =
      m.updatedUsage d env tid delta := rfl
  simp only [applyUpdateTenantUsage, hupd]
  cases m.updatedUsage d env tid delta with
  | error fail => rfl
  | ok usage =>
    refine @tellQuotaManager_onto d rows { m with database := { m.database with
      tenantUsage := m.database.tenantUsage.insert tid (.value usage) } } _ fun q => ?_
    cases q.updateResourceUsage d.toPlatform tid delta.vcpuDelta delta.memoryMbDelta
      delta.diskGbDelta 1 (env.now 5) <;> rfl

theorem applyOne_onto (p : ProposalData) :
    (m.onto rows).applyOne d env p = Prod.map (onto rows) id (m.applyOne d env p) := by
  cases p with
  | createVm cmd => exact applyVmCommand_onto rows m env cmd
  | updateVmStatus vm st nid =>
    simp only [applyOne, applyUpdateVmStatus, modifyVm_onto]
  | migrateVm vm fromNode toNode => simp only [applyOne, applyVmCommand_onto]
  | ipPoolCommand cmd =>
    simp only [applyOne, applyIpPoolCommand]
    exact blockOn_onto rows m rfl
  | allocateIp req => exact applyAllocateIp_onto rows m env req
  | releaseVmIps vmId => exact applyReleaseVmIps_onto rows m vmId
  | setTenantQuota quota =>
    simp only [applyOne, applySetTenantQuota]
    refine @tellQuotaManager_onto d rows
      { m with database := saveTenantQuota m.database quota } _ ?_
    intro q
    rfl
  | updateTenantUsage tid delta oid =>
    exact applyUpdateTenantUsage_onto rows m env tid delta
  | removeTenantQuota tid =>
    simp only [applyOne, applyRemoveTenantQuota]
    refine @tellQuotaManager_onto d rows { m with
      database := { deleteTenantQuota m.database tid with
        tenantUsage := m.database.tenantUsage.erase tid } } _ ?_
    intro q
    rfl
  | _ => rfl

theorem applyBatch_onto (envs : ℕ → Env) (ps : List ProposalData) (i : ℕ) :
    applyBatch d envs i (m.onto rows) ps = Prod.map (onto rows) id (applyBatch d envs i m ps) := by
  induction ps generalizing i m with
  | nil => rfl
  | cons p ps ih =>
    rw [applyBatch, applyBatch, applyOne_onto]
    rcases m.applyOne d (envs i) p with ⟨m', _ | _⟩
    · rfl
    · exact ih m' (i + 1)

/-- **Entries do not read the address rows**: an entry inserts the same rows over any. -/
theorem applyEntry_onto (decode : Bytes → Except String ProposalData) (envs : ℕ → Env)
    (entry : Entry) : (m.onto rows).applyEntry d decode envs entry =
      Prod.map (onto rows) id (m.applyEntry d decode envs entry) := by
  unfold applyEntry
  split_ifs
  · rfl
  cases decode entry.data with
  | error src => rfl
  | ok p =>
    show (m.onto rows).applyProposal d envs p = Prod.map (onto rows) id (m.applyProposal d envs p)
    unfold applyProposal
    split
    · exact applyBatch_onto rows m envs _ 0
    · exact applyOne_onto rows m (envs 0) _

end

end Machine

/-! ## The service -/

def VmId.fromString (hash : String → BitVec 64) (name : String) : VmId :=
  let h := (hash name).toNat
  let byte (shift : ℕ) := UInt8.ofNat (h >>> shift)
  ⟨.ofNat 128 (Bytes.ofBe [byte 56, byte 48, byte 40, byte 32, byte 24, byte 16,
    0x40 ||| (byte 12 &&& 0x0f), byte 8, 0x80 ||| (byte 4 &&& 0x3f), byte 0,
    byte 32, byte 24, byte 16, byte 8, byte 0, byte 56])⟩

/-- How the serialisation library reads and writes a status, a pair of a text and a node. -/
structure StatusFormat where
  readStatus : Encoded IpAllocation → Option (String × ℕ)
  writeStatus : String × ℕ → Bytes

def IpAddr.variant : IpAddr → ℕ
  | v4 _ => 0
  | v6 _ => 1

/-- A record begins with the variant of its address in four bytes, a text with its length in eight:
    read as a text, a record has a length with the variant in its low bytes. -/
def StatusFormat.LengthFromVariant (format : StatusFormat) : Prop :=
  ∀ a status nodeId, format.readStatus (.value a) = some (status, nodeId) →
    status.utf8ByteSize % 2 ^ 32 = a.ip.variant

def IpAllocationKey.display (key : IpAllocationKey) : String :=
  s!"{key.poolId.display}:{key.ip.display}"

/-- A node that applies entries and runs the service.  The table is keyed by text, since the
    service writes under names of machines; a row that is not a record is junk. -/
structure AllocationNode where
  nodeId : ℕ
  replica : Replica
  table : Table String (Encoded IpAllocation)
  proposals : List IpAllocationRequest

namespace AllocationNode

section
variable (d : Deployment) (format : StatusFormat) (hash : String → BitVec 64)
  (n : AllocationNode)

def findPendingAllocations : List (String × ℕ) :=
  n.table.toList.filterMap fun row =>
    match format.readStatus row.2 with
    | some (status, nodeId) => if status = "pending" then some (row.1, nodeId) else none
    | none => none

def getVmState (vmName : String) : Except BlixardError (Option VmState) :=
  match n.replica.machine.database.vmStates[vmName]? with
  | none => .ok none
  | some (.value vm) => .ok (some vm)
  | some (.junk bytes) => .error (.serialization "deserialize vm state" (d.decodeError bytes))

def updateAllocationStatus (vmName status : String) : AllocationNode :=
  let nodeId := ((n.table[vmName]?.bind format.readStatus).map Prod.snd).getD n.nodeId
  { n with table := n.table.insert vmName (.junk (format.writeStatus (status, nodeId))) }

def macByte : String :=
  String.ofList [(n.nodeId % 256 / 16).digitChar, (n.nodeId % 16).digitChar]

def allocationRequest (vmName : String) : IpAllocationRequest where
  vmId := .fromString hash vmName
  preferredPool := none
  requiredTags := []
  topologyHint := some s!"node-{n.nodeId}"
  selectionStrategy := .roundRobin
  macAddress := s!"02:00:00:00:{n.macByte}:01"

/-- One pending allocation; `connected` is whether the Raft manager still takes proposals. -/
def processPending (connected : Bool) (n : AllocationNode) (pending : String × ℕ) :
    AllocationNode × Except BlixardError Unit :=
  if pending.2 ≠ n.nodeId then (n, .ok ())
  else
    match n.getVmState d pending.1 with
    | .error e => (n, .error e)
    | .ok none => (n, .ok ())
    | .ok (some vm) =>
      if vm.config.ipAddress.isSome then
        if connected then
          let n := { n with proposals := n.proposals ++ [n.allocationRequest hash pending.1] }
          (n.updateAllocationStatus format pending.1 "processing", .ok ())
        else (n, .ok ())
      else (n.updateAllocationStatus format pending.1 "processing", .ok ())

/-- A round of the service; the first error ends it. -/
def processPendingAllocations (connected : Bool) : AllocationNode × Except BlixardError Unit :=
  Run.attempt (processPending d format hash connected) n (n.findPendingAllocations format)

end

/-! ## Entries and rounds -/

section
variable (d : Deployment) (decode : Bytes → Except String ProposalData)

def cleared (r : Replica) : Replica :=
  { r with machine := { r.machine with
      database := { r.machine.database with ipAllocations := ∅ } } }

theorem step_eq_onto (r : Replica) (entry : Entry) (envs : ℕ → Env) : r.step d decode entry envs =
      { (cleared r).step d decode entry envs with
        machine := ((cleared r).step d decode entry envs).machine.onto
          r.machine.database.ipAllocations } := by
  have honto : (cleared r).machine.onto r.machine.database.ipAllocations = r.machine := by
    simp only [onto, cleared, toList_empty]
    rfl
  have hrun : (cleared r).running = r.running := rfl
  unfold Replica.step
  rw [hrun]
  split_ifs
  · have ha := @Machine.applyEntry_onto d r.machine.database.ipAllocations
      (cleared r).machine decode envs entry
    rw [honto] at ha
    simp only [ha, Prod.map_fst, Prod.map_snd, id_eq]
  · show r = _
    rw [honto]
    rfl

/-- The next entry inserts its rows into the table, which it does not read
    (`step_eq_onto`). -/
def apply (n : AllocationNode) (entry : Entry) (envs : ℕ → Env) : AllocationNode :=
  let replica := (cleared n.replica).step d decode entry envs
  { n with
    replica
    table := Table.putAll n.table
      (replica.machine.database.ipAllocations.toList.map
        (Prod.map IpAllocationKey.display id)) }

/-- What happens on a node: it applies an entry, or the service makes a round, whose error is
    only logged. -/
inductive Event where
  | apply (entry : Entry) (envs : ℕ → Env)
  | round (connected : Bool)

variable (format : StatusFormat) (hash : String → BitVec 64)

def step (n : AllocationNode) : Event → AllocationNode
  | .apply entry envs => n.apply d decode entry envs
  | .round connected => (n.processPendingAllocations d format hash connected).1

def applied (events : List Event) : List (Entry × (ℕ → Env)) :=
  events.filterMap fun
    | .apply entry envs => some (entry, envs)
    | .round _ => none

end

/-! ## Records -/

def Records {K : Type} [Ord K] [Std.TransOrd K] (table : Table K (Encoded IpAllocation)) : Prop :=
  ∀ (key : K) row, table[key]? = some row → ∃ a, row = .value a

section
variable {d : Deployment} {decode : Bytes → Except String ProposalData} {m : Machine}

theorem applyOne_ipAllocations (m : Machine) (env : Env) (p : ProposalData) :
    (m.applyOne d env p).1.database.ipAllocations = m.database.ipAllocations ∨
      ∃ key a, (m.applyOne d env p).1.database.ipAllocations =
        m.database.ipAllocations.insert key (.value a) := by
  have written : ∀ {m' : Machine}, (∃ vms, m' = { m with database := { m.database with
      vmStates := vms } }) → m'.database.ipAllocations = m.database.ipAllocations := by
    rintro _ ⟨vms, rfl⟩
    rfl
  have ha := @Machine.applyOne_accounting d env m p
  cases p with
  | createVm cmd => exact .inl (written (applyVmCommand_vms d env m cmd))
  | updateVmStatus vm st nid => exact .inl (written (modifyVm_vms d env m _ _))
  | migrateVm vm fromNode toNode => exact .inl (written (applyVmCommand_vms d env m _))
  | ipPoolCommand | allocateIp | releaseVmIps | setTenantQuota | updateTenantUsage
  | removeTenantQuota =>
    obtain ⟨allocs, mappings, quotas, usage, hdb, hrows⟩ := ha rfl
    rw [hdb]
    exact hrows
  | _ => exact .inl rfl

theorem records_applyOne (h : Records m.database.ipAllocations) (env : Env) (p : ProposalData) :
    Records (m.applyOne d env p).1.database.ipAllocations := by
  rcases applyOne_ipAllocations (d := d) m env p with hrows | ⟨key, a, hrows⟩ <;> rw [hrows]
  · exact h
  intro key' row hrow
  rcases get_insert_eq_some.1 hrow with ⟨-, rfl⟩ | ⟨-, hrow⟩
  · exact ⟨a, rfl⟩
  · exact h key' row hrow

theorem records_step {r : Replica} (h : Records r.machine.database.ipAllocations) (entry : Entry)
    (envs : ℕ → Env) : Records (r.step d decode entry envs).machine.database.ipAllocations := by
  unfold Replica.step
  split_ifs
  · exact Machine.applyEntry_keeps d (P := fun m => Records m.database.ipAllocations)
      (fun _ env p h => records_applyOne h env p) decode envs entry h
  · exact h

variable {n : AllocationNode}

theorem records_apply (h : Records n.table) (entry : Entry) (envs : ℕ → Env) :
    Records (n.apply d decode entry envs).table := by
  have he : Records (cleared n.replica).machine.database.ipAllocations := by
    intro key row hrow
    simp [cleared] at hrow
  have hnew := @records_step d decode _ he entry envs
  intro key row hrow
  rcases get_putAll_cases hrow with hmem | hold
  · obtain ⟨r, hr, heq⟩ := List.mem_map.1 hmem
    obtain ⟨a, ha⟩ := hnew r.1 r.2 (mem_toList_iff_getElem?_eq_some.1 hr)
    exact ⟨a, (congrArg Prod.snd heq).symm.trans ha⟩
  · exact h key row hold

variable {format : StatusFormat} {hash : String → BitVec 64}

/-- **The service finds nothing among records.** -/
theorem round_of_records (hf : format.LengthFromVariant) (h : Records n.table)
    (conn : Bool) : n.processPendingAllocations d format hash conn = (n, .ok ()) := by
  have hnone : n.findPendingAllocations format = [] := by
    unfold findPendingAllocations
    rw [List.filterMap_eq_nil_iff]
    rintro ⟨key, row⟩ hmem
    obtain ⟨a, rfl⟩ := h key row (mem_toList_iff_getElem?_eq_some.1 hmem)
    cases hread : format.readStatus (.value a) with
    | none => rfl
    | some pair =>
      obtain ⟨st, nid⟩ := pair
      dsimp only
      -- the word has seven bytes
      rw [if_neg]
      rintro rfl
      have hlen := hf a "pending" nid hread
      have hs : "pending".utf8ByteSize % 2 ^ 32 = 7 := by decide
      rw [hs] at hlen
      cases hip : a.ip <;> rw [hip] at hlen <;> cases hlen
  rw [processPendingAllocations, hnone]
  rfl

/-! ## Runs -/

theorem records_event (hf : format.LengthFromVariant) (n : AllocationNode) (event : Event)
    (h : Records n.table) : Records (n.step d decode format hash event).table := by
  cases event with
  | apply entry envs => exact records_apply h entry envs
  | round conn =>
    show Records (n.processPendingAllocations d format hash conn).1.table
    rw [round_of_records hf h]
    exact h

theorem foldl_step (hf : format.LengthFromVariant) (h : Records n.table)
    (evs : List Event) : evs.foldl (step d decode format hash) n =
      (applied evs).foldl (fun n x => n.apply d decode x.1 x.2) n := by
  induction evs generalizing n with
  | nil => rfl
  | cons event evs ih =>
    rw [List.foldl_cons, ih (records_event hf n event h)]
    cases event with
    | apply entry envs => rfl
    | round conn =>
      have hr : n.step d decode format hash (.round conn) = n :=
        congrArg Prod.fst (round_of_records hf h conn)
      rw [hr]
      rfl

/-- The nodes are alike up to times, and have the same table. -/
structure Alike (n n' : AllocationNode) : Prop where
  machine : n.replica.machine.Alike n'.replica.machine
  running : n.replica.running = n'.replica.running
  table : n.table = n'.table

variable {n' : AllocationNode}

/-- **An entry keeps two nodes alike**, if its allocations are applied in the same
    surroundings. -/
theorem Alike.apply (h : n.Alike n') {entry : Entry} {envs envs' : ℕ → Env}
    (henvs : Machine.EntrySurroundings d decode entry envs envs') :
    (n.apply d decode entry envs).Alike (n'.apply d decode entry envs') := by
  have hc : (cleared n.replica).machine.Alike (cleared n'.replica).machine :=
    ⟨h.machine.pools, rfl, h.machine.mappings, h.machine.unreadable, h.machine.stored,
      h.machine.figures⟩
  have hstep : ((cleared n.replica).step d decode entry envs).machine.Alike
        ((cleared n'.replica).step d decode entry envs').machine ∧
      ((cleared n.replica).step d decode entry envs).running =
        ((cleared n'.replica).step d decode entry envs').running := by
    unfold Replica.step
    have hr : (cleared n.replica).running = (cleared n'.replica).running := h.running
    rw [← hr]
    split_ifs with hrun
    · obtain ⟨ha, hres⟩ := Machine.applyEntry_alike hc henvs
      exact ⟨ha, congrArg (fun res => !endsTask res) hres⟩
    · exact ⟨hc, hr⟩
  refine ⟨hstep.1, hstep.2, ?_⟩
  simp only [AllocationNode.apply, h.table, hstep.1.allocations]

def SameEntry (d : Deployment) (decode : Bytes → Except String ProposalData)
    (x y : Entry × (ℕ → Env)) : Prop :=
  x.1 = y.1 ∧ Machine.EntrySurroundings d decode x.1 x.2 y.2

theorem Alike.foldl_apply {xs ys : List (Entry × (ℕ → Env))}
    (hlog : List.Forall₂ (SameEntry d decode) xs ys) {n : AllocationNode} (h : n.Alike n') :
    (xs.foldl (fun n x => n.apply d decode x.1 x.2) n).Alike
      (ys.foldl (fun n x => n.apply d decode x.1 x.2) n') := by
  induction hlog generalizing n n' with
  | nil => exact h
  | @cons x y xs ys hxy _ ih =>
    obtain ⟨entry, envs⟩ := x
    obtain ⟨entry', envs'⟩ := y
    obtain ⟨rfl, henvs⟩ := hxy
    exact ih (h.apply henvs)

end

/-- **The allocation table and the log**: whatever rounds of the service lie between the entries,
    every row is a record, and two nodes that start alike and apply the same log in the same
    surroundings have the same table. -/
theorem table_of_log (d : Deployment) (decode : Bytes → Except String ProposalData)
    (format : StatusFormat) (hash : String → BitVec 64) (hformat : format.LengthFromVariant)
    {n n' : AllocationNode} (hstart : n.Alike n') (hrecords : Records n.table)
    (events events' : List Event) : Records (events.foldl (step d decode format hash) n).table ∧
    (List.Forall₂ (SameEntry d decode) (applied events) (applied events') →
      (events.foldl (step d decode format hash) n).table =
        (events'.foldl (step d decode format hash) n').table) := by
  refine ⟨?_, fun hlog => ?_⟩
  · exact List.foldlRecOn events _ (motive := fun n => Records n.table) hrecords
      fun n hn event _ => records_event hformat n event hn
  · have hrecords' : Records n'.table := hstart.table ▸ hrecords
    rw [foldl_step hformat hrecords, foldl_step hformat hrecords']
    exact (hstart.foldl_apply hlog).table

/-! ## Two nodes -/

def allocationBytes (a : IpAllocation) : Bytes :=
  Bytes.leBytes 4 a.ip.variant ++
  ((match a.ip with
    | .v4 bits => Bytes.beBytes 4 bits.toNat
    | .v6 bits => Bytes.beBytes 16 bits.toNat) ++
  Bytes.leBytes 8 a.poolId.id ++
  (Bytes.leBytes 8 16 ++ Bytes.beBytes 16 a.vmId.uuid.toNat) ++
  Bincode.Codec.string.encode a.macAddress ++
  Bytes.leBytes 8 (a.allocatedAt % 2 ^ 64).toNat ++
  (match a.expiresAt with
    | none => [0]
    | some time => 1 :: Bytes.leBytes 8 (time % 2 ^ 64).toNat))

def statusCodec : Bincode.Codec (String × ℕ) := .pair .string (.uint 8)

def bincodeStatus : StatusFormat where
  readStatus
    | .value a => (statusCodec.deserialize (allocationBytes a)).toOption
    | .junk bytes => (statusCodec.deserialize bytes).toOption
  writeStatus := statusCodec.encode

theorem lengthFromVariant_bincodeStatus : bincodeStatus.LengthFromVariant := by
  intro a status nodeId hread
  have hv : a.ip.variant < 256 ^ 4 := by
    cases a.ip with
    | v4 bits => exact (by decide : 0 < 256 ^ 4)
    | v6 bits => exact (by decide : 1 < 256 ^ 4)
  cases hd : string.decode (allocationBytes a) with
  | error e =>
    simp [bincodeStatus, statusCodec, deserialize, pair, hd, bind,
      Except.bind, Except.map, Except.toOption] at hread
  | ok x =>
    obtain ⟨text, rest⟩ := x
    have htext : text = status := by
      simp only [bincodeStatus, statusCodec, deserialize, pair, hd,
        bind, Except.bind] at hread
      cases hnode : (uint 8).decode rest with
      | error e => simp [hnode, Except.map, Except.toOption] at hread
      | ok y =>
        rw [hnode] at hread
        exact congrArg Prod.fst (Option.some.inj hread)
    obtain ⟨rest', hl⟩ := takeLe_of_decode_string hd
    have hmod := Bytes.takeLe_mod (by decide) hl
    rw [Nat.mod_eq_of_lt hv, htext] at hmod
    exact hmod

def asked : Bytes → Except String ProposalData :=
  decodeOnly (.allocateIp (IpPoolManager.requestFrom 1 1)) [1]

def asking : Entry := { entryType := 0, term := 1, index := 1, data := [1] }

def poolNode (nodeId : ℕ) : AllocationNode := ⟨nodeId, ⟨Machine.onePool, true⟩, ∅, []⟩

theorem alike_poolNode (i j : ℕ) : (poolNode i).Alike (poolNode j) := ⟨.refl _, rfl, rfl⟩

theorem records_poolNode (i : ℕ) : Records (poolNode i).table := by
  intro key row hrow
  simp [poolNode] at hrow

def asksAt (time : ℤ) : Event := .apply asking fun _ => .still time

def rowTimes (table : Table String (Encoded IpAllocation)) : List (Option ℤ) :=
  table.toList.map fun row => row.2.decode.map (·.allocatedAt)

/-- Two nodes allocate the address in the same second; one of them runs the service before
    and after that. -/
theorem rounds_leave_row :
    let busy := [.round true, asksAt 5, .round true].foldl
      (step Machine.blockingNode asked bincodeStatus fun _ => 0) (poolNode 1)
    let idle := [asksAt 5].foldl (step Machine.blockingNode asked bincodeStatus fun _ => 0)
      (poolNode 2)
    Records busy.table ∧ busy.table = idle.table ∧ rowTimes idle.table = [some 5] := by
  obtain ⟨hrecords, htable⟩ := table_of_log Machine.blockingNode asked bincodeStatus (fun _ => 0)
    lengthFromVariant_bincodeStatus (alike_poolNode 1 2) (records_poolNode 1)
    [.round true, asksAt 5, .round true] [asksAt 5]
  refine ⟨hrecords, htable (.cons ⟨rfl, ?_⟩ .nil), by decide +kernel⟩
  intro _ p _ i q _ request _ _
  rfl

/-- Two nodes apply the entry in different seconds. -/
theorem allocation_times_differ :
    ¬ ∀ (d : Deployment) (decode : Bytes → Except String ProposalData) (format : StatusFormat)
      (hash : String → BitVec 64), format.LengthFromVariant → ∀ n n' : AllocationNode,
      n.Alike n' → Records n.table → ∀ events events' : List Event,
        (applied events).map Prod.fst = (applied events').map Prod.fst →
        Records (events.foldl (step d decode format hash) n).table ∧
        (events.foldl (step d decode format hash) n).table =
          (events'.foldl (step d decode format hash) n').table := by
  intro h
  have htable := (h Machine.blockingNode asked bincodeStatus (fun _ => 0)
    lengthFromVariant_bincodeStatus (poolNode 1) (poolNode 2) (alike_poolNode 1 2)
    (records_poolNode 1) [asksAt 0] [asksAt 1] rfl).2
  exact absurd (congrArg rowTimes htable) (by decide +kernel)

end AllocationNode

end Blixard
