/-
  The settings of nodes over synchronisations with the database (`resource_admission.rs`,
  `resource_management.rs`).

  A synchronisation puts the default policy in place of the one that was set and clears all
  reservations (`settings_kept_iff`).
-/
import Blixard.Admission

namespace Blixard

open NodeResourceState Run Std.ExtTreeMap Table

/-- A node without its allocations: its resources, its reservations and its policy. -/
def NodeResourceState.settings (s : NodeResourceState) : NodeResourceState :=
  { s with allocatedResources := 0 }

inductive SettingsCall where
  | registerNode (nodeId : ℕ) (physical : Amounts)
  | updateNodePolicy (nodeId : ℕ) (policy : OvercommitPolicy)
  | addReservation (nodeId : ℕ) (reservation : ResourceReservation)
  | removeReservation (nodeId : ℕ) (reservationId : String)
  | cleanupExpiredReservations (nodeId : ℕ) (now : ℤ)

namespace ClusterResourceManager

variable (rp : ResourcePlatform) (m : ClusterResourceManager)

def onNode (nodeId : ℕ) (change : NodeResourceState → NodeResourceState) :
    ClusterResourceManager :=
  match m.nodeStates[nodeId]? with
  | none => m
  | some state => { m with nodeStates := m.nodeStates.insert nodeId (change state) }

def set : SettingsCall → ClusterResourceManager
  | .registerNode nodeId physical => m.registerNode nodeId physical
  | .updateNodePolicy nodeId policy =>
    match m.updateNodePolicy nodeId policy with
    | .error _ => m
    | .ok m => m
  | .addReservation nodeId reservation =>
    m.onNode nodeId fun state =>
      match state.addReservation rp reservation with
      | .error _ => state
      | .ok state => state
  | .removeReservation nodeId reservationId =>
    m.onNode nodeId fun state => (state.removeReservation reservationId).1
  | .cleanupExpiredReservations nodeId now =>
    m.onNode nodeId fun state => state.cleanupExpiredReservations now

def settingsOf (id : ℕ) : Option NodeResourceState :=
  m.nodeStates[id]?.map NodeResourceState.settings

def SettingsKept (m' : ClusterResourceManager) : Prop :=
  ∀ id state, m.settingsOf id = some state → m'.settingsOf id = some state

variable {m}

theorem settingsOf_registerNode (nid : ℕ) (phys : Amounts) (id : ℕ) :
    (m.registerNode nid phys).settingsOf id =
      if nid = id then some (.new phys m.defaultPolicy) else m.settingsOf id := by
  simp only [settingsOf, registerNode, get_insert]
  split_ifs <;> rfl

end ClusterResourceManager

namespace ResourceAdmissionController

open ClusterResourceManager

variable (rp : ResourcePlatform)

/-! ## Which nodes are registered -/

/-- The nodes of the rows before the first one that cannot be read. -/
def readable : List WorkerRow → List (ℕ × Amounts)
  | [] => []
  | row :: rows =>
    match decodeRow rp row with
    | .error _ => []
    | .ok worker => worker :: readable rows

/-- The nodes that the synchronisation registers. -/
def registered (database : Database) : Table ℕ Amounts :=
  Table.putAll ∅ (readable rp database.workers.toList)

def AllReadable (rows : List WorkerRow) : Prop :=
  ∀ row ∈ rows, (decodeRow rp row).isOk

instance (rows : List WorkerRow) :
    Decidable (AllReadable rp rows) :=
  List.decidableBAll _ _

variable {rp} {m m' : ClusterResourceManager}

/-- **The first loop**: the nodes that are registered have nothing but their resources and
    the default policy, the others are as they were. -/
theorem attempt_registerRow_settings
    (rows : List WorkerRow) (m : ClusterResourceManager) :
    (∀ id, (attempt (registerRow rp) m rows).1.settingsOf id =
      ((putAll ∅ (readable rp rows))[id]?.map fun phys =>
        .new phys m.defaultPolicy).or (m.settingsOf id)) ∧
    (attempt (registerRow rp) m rows).1.defaultPolicy = m.defaultPolicy ∧
    ((attempt (registerRow rp) m rows).2 = .ok () ↔ AllReadable rp rows) := by
  induction rows generalizing m with
  | nil => simp [attempt, readable, putAll, AllReadable]
  | cons row rows ih =>
    rw [attempt, registerRow, readable]
    cases hrow : decodeRow rp row with
    | error fail => simp [AllReadable, hrow, Except.isOk, Except.toBool, putAll]
    | ok wk =>
      obtain ⟨hs, hp, hok⟩ := ih (m.registerNode wk.1 wk.2)
      refine ⟨fun id => ?_, hp, ?_⟩
      · have hf : putAll ∅ (wk :: readable rp rows) =
            putAll ((∅ : Table ℕ Amounts).insert wk.1 wk.2) (readable rp rows) := rfl
        simp only [hs, settingsOf_registerNode]
        rw [hf, get_putAll_eq_or (insert _ _ _), get_insert]
        cases (putAll ∅ (readable rp rows))[id]? with
        | some phys => rfl
        | none => split_ifs <;> simp
      · rw [hok]
        simp [AllReadable, hrow, Except.isOk, Except.toBool]

/-! ## What is kept by the other loops -/

theorem settingsOf_clearAllocations (m : ClusterResourceManager) (id : ℕ) :
    (clearAllocations m).settingsOf id =
      (m.settingsOf id).map fun state => { state with reservations := ∅ } := by
  simp only [settingsOf, clearAllocations, getElem?_map, Option.map_map]
  rfl

theorem allocate_settings {s s' : NodeResourceState} {req : Amounts}
    (h : s.allocate rp req = .ok s') : s'.settings = s.settings := by
  unfold allocate at h
  split_ifs at h
  obtain ⟨cpu, -, h⟩ := bind_eq_ok h
  obtain ⟨memory, -, h⟩ := bind_eq_ok h
  obtain ⟨disk, -, h⟩ := bind_eq_ok h
  cases h
  rfl

theorem countRow_cases (c : ResourceAdmissionController) (m : ClusterResourceManager)
    (row : String × Encoded VmState) : (c.countRow rp m row).1 = m ∨
      ∃ (id : ℕ) (state state' : NodeResourceState), m.nodeStates[id]? = some state ∧
        state'.settings = state.settings ∧
        (c.countRow rp m row).1 = { m with nodeStates := m.nodeStates.insert id state' } := by
  fun_cases countRow rp c m row with
  | case4 vm hrow hact state hp state' ha =>
    exact .inr ⟨_, state, state', hp, allocate_settings ha, rfl⟩
  | _ => exact .inl rfl

variable (c : ResourceAdmissionController) {call : AdmissionCall} {m₀ : ClusterResourceManager}

theorem settingsOf_countRow (m : ClusterResourceManager) (row : String × Encoded VmState) (id : ℕ) :
    (c.countRow rp m row).1.settingsOf id = m.settingsOf id := by
  rcases @countRow_cases rp c m row with hsame | ⟨id', state, state', hs, ht, heq⟩
  · rw [hsame]
  rw [heq]
  simp only [settingsOf, get_insert]
  split_ifs with hid
  · rw [← hid, hs, Option.map_some, Option.map_some, ht]
  · rfl

theorem defaultPolicy_countRow (m : ClusterResourceManager) (row : String × Encoded VmState) :
    (c.countRow rp m row).1.defaultPolicy = m.defaultPolicy := by
  rcases @countRow_cases rp c m row with hsame | ⟨_, _, _, -, -, heq⟩
  · rw [hsame]
  · rw [heq]

theorem settingsOf_syncResourceState (id : ℕ) : (c.syncResourceState rp).1.settingsOf id =
      let found := ((registered rp c.database)[id]?.map fun phys =>
        .new phys c.resourceManager.defaultPolicy).or (c.resourceManager.settingsOf id)
      if AllReadable rp c.database.workers.toList then
        found.map fun state => { state with reservations := ∅ }
      else found := by
  obtain ⟨hs, -, hok⟩ :=
    @attempt_registerRow_settings rp c.database.workers.toList c.resourceManager
  unfold syncResourceState
  rcases hr : attempt (registerRow rp) c.resourceManager c.database.workers.toList with
    ⟨m, failure | ⟨⟩⟩
  · rw [hr] at hs hok
    rw [if_neg (by simpa using hok)]
    exact hs id
  rw [hr] at hs hok
  rw [if_pos (by simpa using hok)]
  have hc := attempt_keeps (c.countRow rp)
    (P := fun m' => m'.settingsOf id = (clearAllocations m).settingsOf id)
    (fun m' row h => (settingsOf_countRow c m' row id).trans h) rfl c.database.vmStates.toList
  dsimp only
  rw [hc, settingsOf_clearAllocations, hs id]
  rfl

theorem defaultPolicy_syncResourceState :
    (c.syncResourceState rp).1.defaultPolicy = c.resourceManager.defaultPolicy := by
  obtain ⟨-, hp, -⟩ :=
    @attempt_registerRow_settings rp c.database.workers.toList c.resourceManager
  unfold syncResourceState
  rcases hr : attempt (registerRow rp) c.resourceManager c.database.workers.toList with
    ⟨m, failure | ⟨⟩⟩ <;> rw [hr] at hp
  · exact hp
  exact attempt_keeps (c.countRow rp)
    (P := fun m' => m'.defaultPolicy = c.resourceManager.defaultPolicy)
    (fun m' row h => (defaultPolicy_countRow c m' row).trans h)
    (s := clearAllocations m) hp c.database.vmStates.toList

/-! ## Synchronisations after a history -/

inductive AdmissionCall where
  | syncResourceState (database : Database)
  | validateVmAdmission (database : Database) (vm : VmConfig) (targetNodeId : ℕ)

def AdmissionCall.database : AdmissionCall → Database
  | syncResourceState database | validateVmAdmission database _ _ => database

variable (rp) in
def afterCall (config : AdmissionControlConfig) (m : ClusterResourceManager) :
    AdmissionCall → ClusterResourceManager
  | .syncResourceState database => (syncResourceState rp ⟨database, config, m⟩).1
  | .validateVmAdmission database vm targetNodeId =>
    (validateVmAdmission rp ⟨database, config, m⟩ vm targetNodeId).1

theorem afterCall_eq (cfg : AdmissionControlConfig) (m : ClusterResourceManager)
    (call : AdmissionCall) :
    afterCall rp cfg m call = (syncResourceState rp ⟨call.database, cfg, m⟩).1 := by
  cases call with
  | syncResourceState db => rfl
  | validateVmAdmission db vm targetNodeId =>
    simp only [afterCall, AdmissionCall.database, validateVmAdmission]
    rcases syncResourceState rp ⟨db, cfg, m⟩ with ⟨m', fail | ⟨⟩⟩ <;> rfl

variable (rp) in
/-- Nothing to undo: the nodes registered again have the same resources, the default policy and no
    reservations; if no row fails, no node has reservations. -/
def Harmless (m : ClusterResourceManager) (database : Database) : Prop :=
  (∀ (id : ℕ) physical state, (registered rp database)[id]? = some physical →
    m.settingsOf id = some state → state = .new physical m.defaultPolicy) ∧
  (AllReadable rp database.workers.toList →
    ∀ id state, m.settingsOf id = some state → state.reservations = ∅)

structure Settled (m₀ m : ClusterResourceManager) : Prop where
  kept : m₀.SettingsKept m
  policy : m.defaultPolicy = m₀.defaultPolicy

theorem Settled.afterCall (h : Settled m₀ m)
    (cfg : AdmissionControlConfig) (hcall : Harmless rp m₀ call.database) :
    Settled m₀ (afterCall rp cfg m call) := by
  rw [afterCall_eq]
  refine ⟨fun id state hs => ?_, (defaultPolicy_syncResourceState _).trans h.policy⟩
  have hf : ((registered rp call.database)[id]?.map fun phys =>
      new phys m.defaultPolicy).or (m.settingsOf id) = some state := by
    cases hr : (registered rp call.database)[id]? with
    | none => exact h.kept id state hs
    | some phys =>
      rw [hcall.1 id phys state hr hs, h.policy]
      rfl
  rw [settingsOf_syncResourceState]
  dsimp only
  rw [hf]
  split_ifs with hall
  · rw [Option.map_some, ← hcall.2 hall id state hs]
  · rfl

theorem Settled.not_kept (h : Settled m₀ m) (cfg : AdmissionControlConfig)
    (hcall : ¬ Harmless rp m₀ call.database) :
    ¬ m₀.SettingsKept (ResourceAdmissionController.afterCall rp cfg m call) := by
  rw [afterCall_eq]
  intro hkept
  refine hcall ⟨fun id phys state hr hs => ?_, fun hall id state hs => ?_⟩
  · have ha := hkept id state hs
    rw [settingsOf_syncResourceState] at ha
    simp only [hr, h.policy] at ha
    split_ifs at ha
    · exact (Option.some.inj ha).symm
    · exact (Option.some.inj ha).symm
  · have ha := hkept id state hs
    rw [settingsOf_syncResourceState] at ha
    dsimp only at ha
    rw [if_pos hall] at ha
    obtain ⟨found, -, rfl⟩ := Option.map_eq_some_iff.1 ha
    rfl

/-- **When the settings survive** a history of explicit calls: exactly if no synchronisation finds
    anything to undo. -/
theorem settings_kept_iff (rp : ResourcePlatform) (defaultPolicy : OvercommitPolicy)
    (config : AdmissionControlConfig) (history : List SettingsCall) (calls : List AdmissionCall) :
    (∀ m ∈ calls.scanl (afterCall rp config)
        (history.foldl (ClusterResourceManager.set rp) (.new defaultPolicy)),
      (history.foldl (ClusterResourceManager.set rp) (.new defaultPolicy)).SettingsKept m) ↔
    ∀ call ∈ calls, Harmless rp (history.foldl (ClusterResourceManager.set rp) (.new defaultPolicy))
        call.database := by
  generalize history.foldl (ClusterResourceManager.set rp) (.new defaultPolicy) = m₀
  have hstart : Settled m₀ m₀ := ⟨fun _ _ h => h, rfl⟩
  refine (Run.holds_iff_along (C := fun _ call => Harmless rp m₀ call.database)
    (fun m call (h : Settled m₀ m) hcall => h.afterCall config hcall) (fun m h => h.kept)
    (fun m call h hcall => h.not_kept config hcall) hstart).trans ?_
  exact Run.along_iff_forall_mem

def fourCores : List SettingsCall := [.registerNode 1 (4, 8192, 100)]

/-- A node with a policy of its own; the first synchronisation puts the default back. -/
theorem policy_reset_by_sync :
    ¬ ∀ (rp : ResourcePlatform) (defaultPolicy : OvercommitPolicy)
      (config : AdmissionControlConfig) (history : List SettingsCall) (calls : List AdmissionCall),
      ∀ m ∈ calls.scanl (afterCall rp config)
          (history.foldl (ClusterResourceManager.set rp) (.new defaultPolicy)),
        (history.foldl (ClusterResourceManager.set rp) (.new defaultPolicy)).SettingsKept m := by
  intro h
  let strict : OvercommitPolicy := { OvercommitPolicy.moderate with cpuOvercommitRatio := 0 }
  have hkept := h .exact .moderate (oneNode 2).config
    (fourCores ++ [.updateNodePolicy 1 strict]) [.syncResourceState (oneNode 2).database] _
    (Run.foldl_mem_scanl _ _) 1 (.new (4, 8192, 100) strict) (by decide +kernel)
  revert hkept
  decide +kernel

end ResourceAdmissionController

end Blixard
