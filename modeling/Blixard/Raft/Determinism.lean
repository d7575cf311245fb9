/-
  Do replicas that apply the same entries keep the same tables?

  Entries that are `SettledEntry` write the same rows on both (`replicas_agree`).  The others let
  the clock, the order of a map or the pools in memory reach a table.
-/
import Blixard.Raft.Replicated

namespace Blixard

open IpPoolManager

/-- A replica: its machine, and whether the task that applies entries still runs. -/
structure Replica where
  machine : Machine
  running : Bool

variable (d : Deployment) (decode : Bytes → Except String ProposalData)

/-- The next entry.  An error value is only reported to the client; a panic ends the
    task. -/
def Replica.step (r : Replica) (entry : Entry) (envs : ℕ → Env) : Replica :=
  if r.running then
    let applied := r.machine.applyEntry d decode envs entry
    ⟨applied.1, !endsTask applied.2⟩
  else r

def pairStep (s : Replica × Replica) (x : Entry × (ℕ → Env) × (ℕ → Env)) : Replica × Replica :=
  (s.1.step d decode x.1 x.2.1, s.2.step d decode x.1 x.2.2)

/-- The row of the machine, if any, has one order of its metadata only. -/
def OneOrder (db : Database) (name : String) : Prop :=
  ∀ vm metadata, db.vmStates[name]? = some (.value vm) → vm.config.metadata = some metadata →
    metadata.length ≤ 1

/-- The proposal writes the same rows whatever the clock, the order of maps and the
    managers in memory are. -/
def Settled (db : Database) : ProposalData → Prop
  | .createVm (.create _ _) => False
  | .createVm (.start name) | .createVm (.stop name) => OneOrder db name
  | .createVm (.migrate task) => OneOrder db task.vmName
  | .updateVmStatus vmName _ _ | .migrateVm vmName _ _ => OneOrder db vmName
  | .allocateIp _ | .updateTenantUsage _ _ _ => False
  -- a pool that is too large to be built panics, unless its id is taken
  | .ipPoolCommand (.createPool config) => config.validate d.toPlatform = .ok () →
      ∃ p, EnhancedIpPoolState.new d.toPlatform config = .ok p
  | _ => True

def ProposalData.isPoolCommand : ProposalData → Bool
  | .ipPoolCommand _ => true
  | _ => false

/-- Whether a pool command fails depends on the pools in memory, and a batch stops at
    a failure: only the last member may be one. -/
def SettledProposal (db : Database) : ProposalData → Prop
  | .batch ps => (∀ p ∈ ps, Settled d db p) ∧ ∀ p ∈ ps.dropLast, p.isPoolCommand = false
  | p => Settled d db p

def SettledEntry (db : Database) (entry : Entry) : Prop :=
  entry.data ≠ [] → ∀ p, decode entry.data = .ok p → SettledProposal d db p

/-! ## One proposal -/

namespace Machine

variable {d decode} {a b m : Machine} {env env' : Env}

def Agree (x y : Applied) : Prop := x.1.database = y.1.database ∧ x.2 = y.2

theorem rehashConfig_of_length_le_one {config : VmConfig}
    (h : ∀ metadata, config.metadata = some metadata → metadata.length ≤ 1) :
    rehashConfig env config = config := by
  have hmap : config.metadata.map env.rehash = config.metadata := by
    cases hmeta : config.metadata with
    | none => rfl
    | some metadata =>
      have hperm := env.rehash_perm metadata
      match metadata, h metadata hmeta with
      | [], _ => rw [Option.map_some, hperm.eq_nil]
      | [x], _ => rw [Option.map_some, List.perm_singleton.1 hperm]
  rw [rehashConfig, hmap]

variable {db db' : Database} {cmd : IpPoolCommand} {p : ProposalData} {name : String}

theorem modifyVm_agree (hdb : a.database = b.database)
    (h : OneOrder a.database name) (change : VmState → VmState) :
    Agree (a.modifyVm d env name change) (b.modifyVm d env' name change) := by
  unfold modifyVm
  rw [← hdb]
  cases hrow : a.database.vmStates[name]? with
  | none => exact ⟨rfl, rfl⟩
  | some row =>
    cases row with
    | junk bytes => exact ⟨hdb, rfl⟩
    | value vm =>
      have hvm := fun metadata => h vm metadata hrow
      simp only [rehashConfig_of_length_le_one hvm]
      exact ⟨by simp only [commit], rfl⟩

theorem applyReleaseVmIps_agree (hdb : a.database = b.database) (vmId : VmId) :
    Agree (a.applyReleaseVmIps d vmId) (b.applyReleaseVmIps d vmId) := by
  have hips : a.mappedIps vmId = b.mappedIps vmId := by unfold mappedIps; rw [hdb]
  unfold applyReleaseVmIps
  simp only [hips, hdb]
  cases d.runtime with
  | absent => exact ⟨hdb, rfl⟩
  | driving =>
    by_cases h : b.mappedIps vmId = []
    · simp only [h, if_true]; exact ⟨rfl, rfl⟩
    · simp only [h, if_false]; exact ⟨hdb, rfl⟩
  | blocking => exact ⟨rfl, rfl⟩

theorem applyVmCommand_agree (hdb : a.database = b.database) {cmd : VmCommand}
    (h : Settled d a.database (.createVm cmd)) :
    Agree (a.applyVmCommand d env cmd) (b.applyVmCommand d env' cmd) := by
  cases cmd with
  | create cfg nid => exact h.elim
  | start | stop | migrate => exact modifyVm_agree hdb h _
  | delete name => exact ⟨by simp only [applyVmCommand, commit, hdb], rfl⟩
  | updateStatus name st => exact ⟨hdb, rfl⟩

theorem applyOne_agree (env env' : Env) (hdb : a.database = b.database)
    (h : Settled d a.database p) (hpool : p.isPoolCommand = false) :
    Agree (a.applyOne d env p) (b.applyOne d env' p) := by
  cases p with
  | createVm cmd => exact applyVmCommand_agree hdb h
  | updateVmStatus | migrateVm => exact modifyVm_agree hdb h _
  | ipPoolCommand cmd => cases hpool
  | allocateIp | updateTenantUsage => exact h.elim
  | releaseVmIps vmId => exact applyReleaseVmIps_agree hdb vmId
  | setTenantQuota quota =>
    obtain ⟨ha, hra⟩ := @applySetTenantQuota_eq d a quota
    obtain ⟨hb, hrb⟩ := @applySetTenantQuota_eq d b quota
    exact ⟨ha.trans (by rw [hdb, ← hb]; rfl), hra.trans hrb.symm⟩
  | removeTenantQuota tid =>
    obtain ⟨ha, hra⟩ := @applyRemoveTenantQuota_eq d a tid
    obtain ⟨hb, hrb⟩ := @applyRemoveTenantQuota_eq d b tid
    exact ⟨ha.trans (by rw [hdb, ← hb]; rfl), hra.trans hrb.symm⟩
  | batch ps => exact ⟨hdb, rfl⟩
  | _ =>
    -- the tables of tasks and workers
    refine ⟨?_, rfl⟩
    simp only [applyOne, applyAssignTask, applyCompleteTask, applyReassignTask,
      applyRegisterWorker, applyUpdateWorkerStatus, applyRemoveWorker, commit, hdb]

theorem processCommand_not_fatal {mgr : IpPoolManager}
    (h : Settled d m.database (.ipPoolCommand cmd)) :
    endsTask (mgr.processCommand d.toPlatform cmd).2 = false := by
  have withPool : ∀ id f, endsTask (mgr.withPool id f).2 = false := by
    intro id f
    unfold withPool
    split
    · rfl
    · split <;> rfl
  cases cmd with
  | createPool cfg =>
    simp only [processCommand, createPool]
    cases hv : cfg.validate d.toPlatform with
    | error e => rfl
    | ok _ =>
      obtain ⟨p, hp⟩ := h hv
      simp only [hp]
      split <;> rfl
  | updatePool cfg =>
    simp only [processCommand, updatePool]
    split
    · rfl
    · exact withPool _ _
  | deletePool id =>
    simp only [processCommand, deletePool]
    split
    · rfl
    · split <;> rfl
  | setPoolEnabled | reserveIps | releaseReservedIps => exact withPool _ _

theorem applyIpPoolCommand_endsTask (h : Settled d m.database (.ipPoolCommand cmd)) :
    endsTask (m.applyIpPoolCommand d cmd).2 = decide (d.runtime = .driving) := by
  unfold applyIpPoolCommand blockOn
  cases d.runtime with
  | absent => rfl
  | driving => rfl
  | blocking => exact processCommand_not_fatal h

/-- The databases after the calls are equal, and the task goes on after both or
    after none. -/
def SameCourse (x y : Applied) : Prop :=
  x.1.database = y.1.database ∧ endsTask x.2 = endsTask y.2

theorem Agree.sameCourse {x y : Applied} (h : Agree x y) : SameCourse x y :=
  ⟨h.1, congrArg endsTask h.2⟩

theorem applyOne_sameCourse (env env' : Env) (hdb : a.database = b.database)
    (h : Settled d a.database p) : SameCourse (a.applyOne d env p) (b.applyOne d env' p) := by
  cases hpool : p.isPoolCommand with
  | false => exact (applyOne_agree env env' hdb h hpool).sameCourse
  | true =>
    cases p with
    | ipPoolCommand cmd =>
      refine ⟨?_, ?_⟩
      · exact (applyIpPoolCommand_database d a cmd).trans
          (hdb.trans (applyIpPoolCommand_database d b cmd).symm)
      · exact (applyIpPoolCommand_endsTask h).trans
          (applyIpPoolCommand_endsTask (m := b) (hdb ▸ h)).symm
    | _ => cases hpool

/-! ## Batches -/

/-- No row of a machine is new, and none has more metadata than before. -/
def MetadataKept (db db' : Database) : Prop :=
  ∀ (name : String) (vm' : VmState), db'.vmStates[name]? = some (.value vm') → ∃ vm : VmState,
    db.vmStates[name]? = some (.value vm) ∧
    vm'.config.metadata.map List.length = vm.config.metadata.map List.length

theorem MetadataKept.of_eq (h : db'.vmStates = db.vmStates) :
    MetadataKept db db' := fun _ vm' hrow => ⟨vm', h ▸ hrow, rfl⟩

theorem MetadataKept.oneOrder (h : MetadataKept db db')
    (hone : OneOrder db name) : OneOrder db' name := by
  intro vm' metadata hrow hmeta
  obtain ⟨vm, hvm, hlen⟩ := h name vm' hrow
  rw [hmeta, Option.map_some] at hlen
  obtain ⟨old, hold, hlen⟩ := Option.map_eq_some_iff.1 hlen.symm
  exact hlen ▸ hone vm old hvm hold

theorem MetadataKept.settled (h : MetadataKept db db') (hp : Settled d db p) : Settled d db' p := by
  cases p with
  | createVm cmd =>
    cases cmd with
    | create | delete | updateStatus => exact hp
    | start | stop | migrate => exact h.oneOrder hp
  | updateVmStatus | migrateVm => exact h.oneOrder hp
  | ipPoolCommand cmd => cases cmd <;> exact hp
  | _ => exact hp

theorem metadataKept_modifyVm (name : String) {change : VmState → VmState}
    (hc : ∀ vm, (change vm).config = vm.config) :
    MetadataKept m.database (m.modifyVm d env name change).1.database := by
  unfold modifyVm
  cases hrow : m.database.vmStates[name]? with
  | none => exact .of_eq rfl
  | some row =>
    cases row with
    | junk bytes => exact .of_eq rfl
    | value vm =>
      intro name' vm' h
      simp only [commit, Table.get_insert] at h
      split_ifs at h with hname
      · cases h
        refine ⟨vm, hname ▸ hrow, ?_⟩
        rw [hc]
        cases hmeta : vm.config.metadata with
        | none => simp only [rehashConfig, hmeta]; rfl
        | some metadata =>
          simp only [rehashConfig, hmeta, Option.map_some, (env.rehash_perm metadata).length_eq]
      · exact ⟨vm', h, rfl⟩

theorem metadataKept_applyOne (env : Env) (h : Settled d m.database p) :
    MetadataKept m.database (m.applyOne d env p).1.database := by
  have ha := @applyOne_accounting d env m p
  cases p with
  | createVm cmd =>
    cases cmd with
    | create cfg nid => exact h.elim
    | start name | stop name => exact metadataKept_modifyVm name fun _ => rfl
    | delete name =>
      intro name' vm' h
      simp only [applyOne, applyVmCommand, commit, Table.get_erase] at h
      split_ifs at h
      exact ⟨vm', h, rfl⟩
    | migrate task => exact metadataKept_modifyVm task.vmName fun _ => rfl
    | updateStatus name st => exact .of_eq rfl
  | updateVmStatus vm st nid | migrateVm vm fromNode toNode =>
    exact metadataKept_modifyVm vm fun _ => rfl
  | ipPoolCommand | allocateIp | releaseVmIps | setTenantQuota | updateTenantUsage
  | removeTenantQuota =>
    obtain ⟨allocations, mappings, quotas, usage, hdb, -⟩ := ha rfl
    exact .of_eq (congrArg (·.vmStates) hdb)
  | _ => exact .of_eq rfl

theorem applyBatch_sameCourse {envs envs' : ℕ → Env} : ∀ (ps : List ProposalData) (i : ℕ)
    (a b : Machine), a.database = b.database → (∀ p ∈ ps, Settled d a.database p) →
    (∀ p ∈ ps.dropLast, p.isPoolCommand = false) →
    SameCourse (applyBatch d envs i a ps) (applyBatch d envs' i b ps)
  | [], _, _, _, hdb, _, _ => ⟨hdb, rfl⟩
  | [p], i, a, b, hdb, h, _ => by
    -- the last member may be a pool command: only the course is the same
    have hp := applyOne_sameCourse (envs i) (envs' i) hdb (h p (by simp))
    have last : ∀ (envs : ℕ → Env) m, applyBatch d envs i m [p] = m.applyOne d (envs i) p := by
      intro envs m
      rw [applyBatch]
      rcases m.applyOne d (envs i) p with ⟨m', _ | _⟩ <;> rfl
    rwa [last, last]
  | p :: q :: ps, i, a, b, hdb, h, hpool => by
    have hp := h p (by simp)
    obtain ⟨hdb', hres⟩ := applyOne_agree (envs i) (envs' i) hdb hp
      (hpool p (by simp))
    have hkept := metadataKept_applyOne (envs i) hp
    rw [applyBatch, applyBatch]
    rcases ha : a.applyOne d (envs i) p with ⟨a', e | ⟨⟩⟩ <;>
      rcases hb : b.applyOne d (envs' i) p with ⟨b', e' | ⟨⟩⟩ <;>
      rw [ha] at hdb' hres hkept <;> rw [hb] at hdb' hres
    · exact ⟨hdb', congrArg endsTask hres⟩
    · cases hres
    · cases hres
    · refine applyBatch_sameCourse (q :: ps) (i + 1) a' b' hdb' ?_ ?_
      · exact fun r hr => hkept.settled (h r (List.mem_cons_of_mem p hr))
      · exact fun r hr => hpool r (List.mem_cons_of_mem p hr)

theorem applyEntry_sameCourse (hdb : a.database = b.database) {entry : Entry}
    (h : SettledEntry d decode a.database entry) (envs envs' : ℕ → Env) :
    SameCourse (a.applyEntry d decode envs entry) (b.applyEntry d decode envs' entry) := by
  unfold applyEntry
  by_cases hdata : entry.data = []
  · simp only [hdata, if_true]
    exact ⟨hdb, rfl⟩
  simp only [hdata, if_false]
  cases hp : decode entry.data with
  | error src => exact ⟨hdb, rfl⟩
  | ok p =>
    have hs := h hdata p hp
    cases p with
    | batch ps => exact applyBatch_sameCourse ps 0 a b hdb hs.1 hs.2
    | _ => exact applyOne_sameCourse (envs 0) (envs' 0) hdb hs

end Machine

/-! ## Runs -/

open Machine

def InStep (s : Replica × Replica) : Prop :=
  s.1.machine.database = s.2.machine.database ∧ s.1.running = s.2.running

theorem inStep_pairStep {s : Replica × Replica} {x : Entry × (ℕ → Env) × (ℕ → Env)}
    (hs : InStep s) (h : SettledEntry d decode s.1.machine.database x.1) :
    InStep (pairStep d decode s x) := by
  obtain ⟨⟨a, running⟩, b, running'⟩ := s
  obtain ⟨entry, envs, envs'⟩ := x
  obtain ⟨hdb, hrun⟩ := hs
  obtain rfl : running = running' := hrun
  cases running with
  | false => exact ⟨hdb, rfl⟩
  | true =>
    obtain ⟨hdb', hends⟩ := applyEntry_sameCourse hdb h envs envs'
    exact ⟨hdb', congrArg (!·) hends⟩

/-- **Replica determinism**: in a run of settled entries two replicas that start with
    equal tables have equal tables in every state they pass through. -/
theorem replicas_agree (d : Deployment) (decode : Bytes → Except String ProposalData)
    (a b : Machine) (hdb : a.database = b.database) (log : List (Entry × (ℕ → Env) × (ℕ → Env)))
    (hlog : Run.Along (pairStep d decode)
      (fun s x => SettledEntry d decode s.1.machine.database x.1) (⟨a, true⟩, ⟨b, true⟩) log) :
    ∀ s ∈ log.scanl (pairStep d decode) (⟨a, true⟩, ⟨b, true⟩),
      s.1.machine.database = s.2.machine.database := by
  have hstart : InStep (⟨a, true⟩, ⟨b, true⟩) := ⟨hdb, rfl⟩
  intro s hs
  exact (Run.invariant (fun s x => inStep_pairStep d decode) hstart hlog s hs).1

def encodeString (s : String) : Bytes :=
  Bytes.leBytes 8 s.toUTF8.toList.length ++ s.toUTF8.toList

def workerBatch : ProposalData := .batch [.removeWorker 2, .updateWorkerStatus 1 .busy]

def workerBatchEntry : Entry where
  entryType := 0
  term := 1
  index := 1
  data := Bytes.leBytes 4 15 ++ Bytes.leBytes 8 2 ++ (Bytes.leBytes 4 5 ++ Bytes.leBytes 8 2) ++
    (Bytes.leBytes 4 4 ++ Bytes.leBytes 8 1 ++ Bytes.leBytes 4 1)

theorem replicas_agree_on_workers :
    let b : Machine := { Machine.new with quotaManager := some ⟨∅, ∅⟩ }
    let log := [(workerBatchEntry, (fun _ => Env.still 0), fun _ => Env.still 1)]
    ∀ s ∈ log.scanl (pairStep .raftManager (decodeOnly workerBatch workerBatchEntry.data))
      (⟨.new, true⟩, ⟨b, true⟩), s.1.machine.database = s.2.machine.database := by
  intro b log
  refine replicas_agree .raftManager _ .new b rfl log ⟨?_, trivial⟩
  intro _ p hp
  cases (show Except.ok workerBatch = Except.ok p from hp)
  exact ⟨by simp [Settled], by simp [ProposalData.isPoolCommand]⟩

def createVmOne : ProposalData := .createVm (.create { name := "vm1" } 1)

def createVmOneEntry : Entry where
  entryType := 0
  term := 1
  index := 1
  data := Bytes.leBytes 4 6 ++ Bytes.leBytes 4 0 ++ encodeString "vm1" ++ encodeString "" ++
    Bytes.leBytes 4 1 ++ Bytes.leBytes 4 1024 ++ encodeString "default" ++ [0, 0, 0] ++
    Bytes.leBytes 4 500 ++ [1] ++ [0, 0, 0, 0, 0] ++ Bytes.leBytes 8 0 ++ [0] ++ Bytes.leBytes 8 1

/-- Two new replicas create a machine, one of them a moment later: its row has another
    creation time. -/
theorem creation_times_differ :
    ¬ ∀ (d : Deployment) (decode : Bytes → Except String ProposalData) (a b : Machine)
      (log : List (Entry × (ℕ → Env) × (ℕ → Env))), a.database = b.database →
      ∀ s ∈ log.scanl (pairStep d decode) (⟨a, true⟩, ⟨b, true⟩),
        s.1.machine.database = s.2.machine.database := by
  intro h
  have hrows := h .raftManager (decodeOnly createVmOne createVmOneEntry.data) .new .new
    [(createVmOneEntry, (fun _ => Env.still 0), fun _ => Env.still 1)] rfl _
    (Run.foldl_mem_scanl _ _)
  have hvm := congrArg (fun db => db.vmStates["vm1"]?) hrows
  revert hvm
  decide +kernel

end Blixard
