/-
  Stored health statuses and their cleanup (`vm_health_state_manager.rs`).

  The task that `start_cleanup_task` spawns makes a manager of its own.  Its map is empty and stays
  so, and the statuses of the manager that spawned it stay for ever, however old they are.
-/
import Blixard.Lib.Run
import Blixard.VmHealth

namespace Blixard

/-- The two durations are in nanoseconds. -/
structure HealthStateManagerConfig where
  maxStateAge : ℕ
  cleanupInterval : ℕ
  maxResultsPerVm : ℕ

structure HealthStateManager where
  config : HealthStateManagerConfig
  healthStatuses : Table String VmHealthStatus
  isRunning : Bool

/-- The age of a status at the time `now` (in nanoseconds), by its last healthy time.  A negative
    one is a time that `SystemTime` cannot hold, and the addition panics. -/
def VmHealthStatus.age (now : ℤ) (status : VmHealthStatus) : Option ℕ :=
  match status.lastHealthyAtSecs with
  | some secs => if secs < 0 then none else some (now - secs * 10 ^ 9).toNat
  | none => some ((2 ^ 64 - 1) / 2 * 10 ^ 9)

namespace HealthStateManager

def new (config : HealthStateManagerConfig) : HealthStateManager := ⟨config, ∅, false⟩

def updateHealthStatus (m : HealthStateManager) (vmName : String) (status : VmHealthStatus) :
    HealthStateManager :=
  if vmName ∈ m.healthStatuses ∧
      m.config.maxResultsPerVm ≤ m.healthStatuses.size ∧ vmName ∉ m.healthStatuses then m
  else { m with healthStatuses := m.healthStatuses.insert vmName status }

def cleanupOldEntries (m : HealthStateManager) (now : ℤ) : Option HealthStateManager := do
  let ages ← m.healthStatuses.toList.mapM fun row => (row.1, ·) <$> row.2.age now
  let toRemove := (ages.filter fun row => m.config.maxStateAge < row.2).map Prod.fst
  return { m with healthStatuses := Table.eraseAll m.healthStatuses toRemove }

theorem cleanupOldEntries_new (cfg : HealthStateManagerConfig) (now : ℤ) :
    (new cfg).cleanupOldEntries now = some (new cfg) := by
  simp [cleanupOldEntries, new, Table.eraseAll, Table.toList_empty]

end HealthStateManager

inductive HealthStateStep where
  | update (vmName : String) (status : VmHealthStatus) (now : ℤ)
  | start
  | stop
  | round (now : ℤ)

/-- A manager, the one of its cleanup task while that runs, and when each status was stored. -/
structure HealthStateRun where
  manager : HealthStateManager
  task : Option HealthStateManager
  storedAt : String → ℤ

namespace HealthStateRun

def init (config : HealthStateManagerConfig) : HealthStateRun :=
  ⟨HealthStateManager.new config, none, fun _ => 0⟩

def step (s : HealthStateRun) : HealthStateStep → HealthStateRun
  | .update vmName status now =>
    { s with
      manager := s.manager.updateHealthStatus vmName status
      storedAt := Function.update s.storedAt vmName now }
  | .start =>
    if s.manager.isRunning then s
    else
      { s with
        manager := { s.manager with isRunning := true }
        task := if 0 < s.manager.config.cleanupInterval / 10 ^ 9 then
            some (HealthStateManager.new s.manager.config)
          else s.task }
  | .stop => { s with manager := { s.manager with isRunning := false }, task := none }
  | .round now => { s with task := s.task.bind fun own => own.cleanupOldEntries now }

/-- The last healthy time of a stored status is older than the configuration allows. -/
def HasOld (s : HealthStateRun) (now : ℤ) : Prop :=
  ∃ (vmName : String) (status : VmHealthStatus) (secs : ℤ),
    s.manager.healthStatuses[vmName]? = some status ∧ status.lastHealthyAtSecs = some secs ∧
    s.manager.config.maxStateAge < now - secs * 10 ^ 9

/-- After a round no status is older than allowed, and the ones stored since then are there. -/
def RoundCleans (s : HealthStateRun) : HealthStateStep → Prop
  | .round now => s.task.isSome →
      ¬ (s.step (.round now)).HasOld now ∧
      ∀ vmName status, s.manager.healthStatuses[vmName]? = some status →
        now - s.storedAt vmName ≤ s.manager.config.maxStateAge →
        (s.step (.round now)).manager.healthStatuses[vmName]? = some status
  | _ => True

/-- A round finds no status that is older than allowed. -/
def NothingOld (s : HealthStateRun) : HealthStateStep → Prop
  | .round now => s.task.isSome → ¬ s.HasOld now
  | _ => True

theorem roundCleans_iff (s : HealthStateRun) (e : HealthStateStep) :
    s.RoundCleans e ↔ s.NothingOld e := by
  cases e with
  | round now =>
    -- a round changes the manager of the task only
    exact imp_congr_right fun _ => and_iff_left fun _ _ h _ => h
  | _ => exact Iff.rfl

theorem task_eq_new (config : HealthStateManagerConfig) (es : List HealthStateStep) :
    ∀ t ∈ es.scanl step (init config), t.manager.config = config ∧
      ∀ own ∈ t.task, own = HealthStateManager.new config := by
  refine Run.invariant ?_ ⟨rfl, by simp [init]⟩ (Run.along_true _ _)
  rintro s e ⟨hc, hown⟩ -
  cases e with
  | update vmName status now =>
    refine ⟨?_, hown⟩
    simp only [step, HealthStateManager.updateHealthStatus]
    split_ifs <;> exact hc
  | start =>
    simp only [step]
    split_ifs with hr hi
    · exact ⟨hc, hown⟩
    · exact ⟨hc, by simp [hc]⟩
    · exact ⟨hc, hown⟩
  | stop => exact ⟨hc, by simp [step]⟩
  | round now =>
    refine ⟨hc, fun own h => ?_⟩
    obtain ⟨own', hown', h⟩ := Option.bind_eq_some_iff.1 h
    rw [hown own' hown', HealthStateManager.cleanupOldEntries_new] at h
    exact (Option.some.inj h).symm

/-- The rounds of a run clean up exactly if none has anything to clean up.  The task has an empty
    map in every state, and no round ends it. -/
theorem rounds_clean_iff (config : HealthStateManagerConfig) (es : List HealthStateStep) :
    (Run.Along step RoundCleans (init config) es ↔ Run.Along step NothingOld (init config) es) ∧
    ∀ t ∈ es.scanl step (init config), ∀ now, (t.step (.round now)).task = t.task ∧
      ∀ own ∈ t.task, own.healthStatuses = ∅ := by
  have heq : RoundCleans = NothingOld := by
    funext s e
    exact propext (roundCleans_iff s e)
  refine ⟨by rw [heq], fun t ht now => ?_⟩
  have hown := (task_eq_new config es t ht).2
  refine ⟨?_, fun own h => by rw [hown own h]; rfl⟩
  cases htask : t.task with
  | none => simp [step, htask]
  | some own =>
    rw [hown own htask]
    simp [step, htask, hown own htask, HealthStateManager.cleanupOldEntries_new]

/-- A status of the first second is there after the round of the third day. -/
theorem old_status_stays :
    let config : HealthStateManagerConfig := ⟨24 * 60 * 60 * 10 ^ 9, 60 * 60 * 10 ^ 9, 50⟩
    let status : VmHealthStatus := { VmHealthStatus.default with lastHealthyAtSecs := some 0 }
    let now : ℤ := 2 * 24 * 60 * 60 * 10 ^ 9
    let t := [.start, .update "vm" status 0, .round now].foldl step (init config)
    t.task.isSome ∧ t.HasOld now := by
  refine ⟨rfl, "vm", { VmHealthStatus.default with lastHealthyAtSecs := some 0 }, 0, ?_, rfl, ?_⟩
  · decide +kernel
  · decide

end HealthStateRun

end Blixard
