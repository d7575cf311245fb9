/-
  Coordination of recoveries (`vm_health_recovery_coordinator.rs`).

  Looking whether a recovery is under way and noting a new one are two steps, so two triggers can
  spawn a task each (`one_task_along`).  The permits bound the tasks in any case.  The migration
  after a recovery that failed only says that there is none.
-/
import Blixard.Lib.Calls
import Blixard.IpPool.Config

namespace Blixard

open Calls Table

/-! ## Types -/

inductive RecoveryStatus where
  | pending | inProgress | completed | failed | timedOut

structure RecoveryOperation where
  vmName : String
  startedAt : ℤ
  status : RecoveryStatus
  attempts : ℕ
  lastError : Option String

structure RecoveryCoordinatorConfig where
  maxConcurrentRecoveries : ℕ
  enableAutoRecovery : Bool

structure RecoveryCoordinator where
  config : RecoveryCoordinatorConfig
  permits : ℕ
  activeRecoveries : Table String RecoveryOperation

inductive RecoveryEnd where
  | completed
  | failed (error : String)
  | timedOut
  deriving DecidableEq

/-- A call of `trigger_recovery` and then the task that it spawns, or a cleanup. -/
inductive CoordinatorCall where
  | notBegun
  | looked (vmName : String)
  | inserted (vmName : String)
  | spawned (vmName : String)
  | queued (vmName : String)
  | permitted (vmName : String)
  | recovering (vmName : String)
  | ending (vmName : String) (result : RecoveryEnd) (permit : Bool)
  | marked (vmName : String) (permit : Bool)
  | finished
  deriving DecidableEq

inductive CoordinatorStep where
  | trigger (vmName : String)
  | insert (now : ℤ)
  | spawn
  | start
  | acquire
  | semaphoreClosed
  | waitTimeout
  | updateStatus
  | recovered (result : Option (Except BlixardError Unit))
  | panic
  | mark
  | finish
  | cleanup
  deriving DecidableEq

namespace RecoveryStatus

def isUnderWay : RecoveryStatus → Bool
  | pending | inProgress => true
  | completed | failed | timedOut => false

end RecoveryStatus

namespace RecoveryCoordinator

variable (c : RecoveryCoordinator)

def idle (config : RecoveryCoordinatorConfig) : RecoveryCoordinator :=
  ⟨config, config.maxConcurrentRecoveries, ∅⟩

/-! ## Steps -/

def isUnderWay (vmName : String) : Bool :=
  (c.activeRecoveries[vmName]?.map (·.status.isUnderWay)).getD false

def insertRecovery (vmName : String) (now : ℤ) : RecoveryCoordinator :=
  { c with activeRecoveries := c.activeRecoveries.insert vmName ⟨vmName, now, .pending, 0, none⟩ }

def updateRecoveryStatus (vmName : String) (status : RecoveryStatus) : RecoveryCoordinator :=
  { c with activeRecoveries := c.activeRecoveries.modify vmName fun op =>
      { op with status, attempts := op.attempts + 1 } }

def markRecovery (vmName : String) (result : RecoveryEnd) : RecoveryCoordinator :=
  { c with activeRecoveries := c.activeRecoveries.modify vmName fun op =>
      match result with
      | .completed => { op with status := .completed }
      | .failed error => { op with status := .failed, lastError := some error }
      | .timedOut =>
        { op with status := .timedOut, lastError := some "Recovery operation timed out" } }

def cleanupCompletedRecoveries : RecoveryCoordinator :=
  { c with activeRecoveries := c.activeRecoveries.filter fun _ op => op.status.isUnderWay }

def takePermit : RecoveryCoordinator := { c with permits := c.permits - 1 }

def dropPermit (permit : Bool) : RecoveryCoordinator :=
  if permit then { c with permits := c.permits + 1 } else c

def act : CoordinatorCall → CoordinatorStep → RecoveryCoordinator × CoordinatorCall
  | .notBegun, .trigger vmName =>
    if !c.config.enableAutoRecovery || c.isUnderWay vmName then (c, .finished)
    else (c, .looked vmName)
  | .looked vmName, .insert now => (c.insertRecovery vmName now, .inserted vmName)
  | .inserted vmName, .spawn => (c, .spawned vmName)
  | .spawned vmName, .start =>
    if 0 < c.permits then (c.takePermit, .permitted vmName) else (c, .queued vmName)
  | .queued vmName, .acquire =>
    if 0 < c.permits then (c.takePermit, .permitted vmName) else (c, .queued vmName)
  | .queued vmName, .semaphoreClosed =>
    (c, .ending vmName (.failed "Recovery semaphore closed") false)
  | .queued vmName, .waitTimeout =>
    (c, .ending vmName (.failed "Timeout waiting for recovery slot") false)
  | .permitted vmName, .updateStatus =>
    (c.updateRecoveryStatus vmName .inProgress, .recovering vmName)
  | .recovering vmName, .recovered (some (.ok ())) => (c, .ending vmName .completed true)
  | .recovering vmName, .recovered (some (.error e)) =>
    (c, .ending vmName (.failed e.display) true)
  | .recovering vmName, .recovered none => (c, .ending vmName .timedOut true)
  | .recovering _, .panic => (c.dropPermit true, .finished)
  | .ending vmName result permit, .mark => (c.markRecovery vmName result, .marked vmName permit)
  | .marked _ permit, .finish => (c.dropPermit permit, .finished)
  | .notBegun, .cleanup => (c.cleanupCompletedRecoveries, .finished)
  | call, _ => (c, call)

inductive Does (c : RecoveryCoordinator) :
    CoordinatorStep → CoordinatorCall → RecoveryCoordinator → CoordinatorCall → Prop where
  | nothing {step call} : Does c step call c call
  | look {v} (h : c.isUnderWay v = false) : Does c (.trigger v) .notBegun c (.looked v)
  | refuse {step} : Does c step .notBegun c .finished
  | insert {step v} (now : ℤ) : Does c step (.looked v) (c.insertRecovery v now) (.inserted v)
  | spawn {step v} : Does c step (.inserted v) c (.spawned v)
  | queue {step v} : Does c step (.spawned v) c (.queued v)
  | permit {step call v} (hcall : call = .spawned v ∨ call = .queued v) (h : 0 < c.permits) :
    Does c step call c.takePermit (.permitted v)
  | giveUp {step v} (error : String) :
    Does c step (.queued v) c (.ending v (.failed error) false)
  | begins {step v} :
    Does c step (.permitted v) (c.updateRecoveryStatus v .inProgress) (.recovering v)
  | returns {step v} (result : RecoveryEnd) : Does c step (.recovering v) c (.ending v result true)
  | panics {step v} : Does c step (.recovering v) (c.dropPermit true) .finished
  | mark {step v result permit} :
    Does c step (.ending v result permit) (c.markRecovery v result) (.marked v permit)
  | finish {step v permit} : Does c step (.marked v permit) (c.dropPermit permit) .finished
  | cleanup {step} : Does c step .notBegun c.cleanupCompletedRecoveries .finished

theorem does_act (call : CoordinatorCall) (step : CoordinatorStep) :
    Does c step call (c.act call step).1 (c.act call step).2 := by
  fun_cases act c call step with
  | case1 => exact .refuse
  | case2 v h => exact .look (by simp at h; exact h.2)
  | case3 v now => exact .insert now
  | case4 => exact .spawn
  | case5 v h => exact .permit (.inl rfl) h
  | case6 => exact .queue
  | case7 v h => exact .permit (.inr rfl) h
  | case9 | case10 => exact .giveUp _
  | case11 => exact .begins
  | case12 | case13 | case14 => exact .returns _
  | case15 => exact .panics
  | case16 => exact .mark
  | case17 => exact .finish
  | case18 => exact .cleanup
  | case8 | case19 => exact .nothing

variable {c} {v v' : String}

theorem isUnderWay_insertRecovery (now : ℤ) :
    (c.insertRecovery v now).isUnderWay v' = if v = v' then true else c.isUnderWay v' := by
  unfold isUnderWay insertRecovery
  rw [get_insert]
  split_ifs <;> rfl

theorem isUnderWay_updateRecoveryStatus (h : c.isUnderWay v' = true) :
    (c.updateRecoveryStatus v .inProgress).isUnderWay v' = true := by
  unfold isUnderWay updateRecoveryStatus at *
  rw [get_modify]
  split_ifs
  · cases hop : c.activeRecoveries[v']? with
    | none => simp [hop] at h
    | some op => rfl
  · exact h

theorem isUnderWay_markRecovery (h : v ≠ v') (res : RecoveryEnd) :
    (c.markRecovery v res).isUnderWay v' = c.isUnderWay v' := by
  unfold isUnderWay markRecovery
  rw [get_modify, if_neg h]

theorem isUnderWay_cleanup : c.cleanupCompletedRecoveries.isUnderWay v = c.isUnderWay v := by
  unfold isUnderWay cleanupCompletedRecoveries
  rw [get_filter]
  cases c.activeRecoveries[v]? with
  | none => rfl
  | some op => cases h : op.status.isUnderWay <;> simp [Option.filter, h]

theorem isUnderWay_dropPermit (pm : Bool) : (c.dropPermit pm).isUnderWay v = c.isUnderWay v := by
  cases pm <;> rfl

end RecoveryCoordinator

/-! ## Properties -/

namespace CoordinatorCall

/-- The machine whose recovery the call is about to note, or has noted. -/
def activeFor : CoordinatorCall → Option String
  | looked v | inserted v | spawned v | queued v | permitted v | recovering v | ending v _ _
  | marked v _ => some v
  | notBegun | finished => none

def notedFor : CoordinatorCall → Option String
  | inserted v | spawned v | queued v | permitted v | recovering v | ending v _ _ => some v
  | notBegun | looked _ | marked _ _ | finished => none

def NotBoth (call call' : CoordinatorCall) : Prop :=
  ∀ vmName, call.activeFor = some vmName → call'.activeFor ≠ some vmName

/-- The machine that is looked at, or whose recovery is over, with no task to be seen. -/
def unnotedFor : CoordinatorCall → Option String
  | looked v | marked v _ => some v
  | _ => none

def runsFor : CoordinatorCall → Option String
  | queued v | permitted v | recovering v | ending v _ _ | marked v _ => some v
  | notBegun | looked _ | inserted _ | spawned _ | finished => none

def holdsPermit : CoordinatorCall → Bool
  | permitted _ | recovering _ => true
  | ending _ _ permit | marked _ permit => permit
  | _ => false

end CoordinatorCall

abbrev CoordinatorSystem := Calls.System RecoveryCoordinator CoordinatorCall

namespace CoordinatorSystem

open CoordinatorCall

def step : CoordinatorSystem → ℕ × CoordinatorStep → CoordinatorSystem :=
  Calls.System.step RecoveryCoordinator.act

def begin (config : RecoveryCoordinatorConfig) : CoordinatorSystem :=
  .start (.idle config) .notBegun

def OneTaskPerVm (s : CoordinatorSystem) : Prop :=
  ∀ i j vmName, (s.calls i).runsFor = some vmName → (s.calls j).runsFor = some vmName → i = j

def WithinLimit (s : CoordinatorSystem) : Prop :=
  ∀ is : List ℕ, is.Nodup → (∀ i ∈ is, (s.calls i).holdsPermit) →
    is.length ≤ s.shared.config.maxConcurrentRecoveries

/-- A trigger that finds no recovery under way looks while no other has looked at the machine and
    not noted its recovery, and no task has noted its result and not ended. -/
def Clear (c : RecoveryCoordinator) (x : ℕ × CoordinatorStep) (call : CoordinatorCall) : Prop :=
  match x.2 with
  | .trigger vmName => c.isUnderWay vmName = false → call.unnotedFor ≠ some vmName
  | _ => True

instance (c : RecoveryCoordinator) (x : ℕ × CoordinatorStep) (call : CoordinatorCall) :
    Decidable (Clear c x call) := by
  unfold Clear
  split <;> infer_instance

/-! ## Permits -/

/-- The permits that are free and those that tasks hold are as many as configured. -/
def PermitsCounted (s : CoordinatorSystem) : Prop :=
  ∃ n, Calls.Count holdsPermit s.calls n ∧ n + s.shared.permits =
    s.shared.config.maxConcurrentRecoveries

variable {s : CoordinatorSystem} {i : ℕ} {a : CoordinatorStep}

theorem permitsCounted_step (h : PermitsCounted s) : PermitsCounted (s.step (i, a)) := by
  obtain ⟨n, hc, hsum⟩ := h
  obtain ⟨n', hc', hsum'⟩ : ∃ n', Calls.Count holdsPermit (s.step (i, a)).calls n' ∧ _ :=
    count_step hc
  refine ⟨n', hc', ?_⟩
  have hdoes := s.shared.does_act (s.calls i) a
  rw [step, step_shared]
  generalize s.shared.act (s.calls i) a = r at hdoes hsum' ⊢
  generalize s.calls i = before at hdoes hsum'
  obtain ⟨c, after⟩ := r
  simp only at hdoes hsum' ⊢
  cases hdoes with
  | nothing | look | refuse | insert | spawn | queue | giveUp | begins | returns | mark | cleanup =>
    rw [Nat.add_right_cancel hsum']
    exact hsum
  | permit hcall hp =>
    have hent : n' = n + 1 := by rcases hcall with rfl | rfl <;> exact hsum'
    show n' + (s.shared.permits - 1) = s.shared.config.maxConcurrentRecoveries
    omega
  | panics =>
    have hleft : n' + 1 = n := hsum'
    show n' + (s.shared.permits + 1) = s.shared.config.maxConcurrentRecoveries
    omega
  | @finish _ v permit =>
    cases permit with
    | false =>
      rw [Nat.add_right_cancel hsum']
      exact hsum
    | true =>
      have hleft : n' + 1 = n := hsum'
      show n' + (s.shared.permits + 1) = s.shared.config.maxConcurrentRecoveries
      omega

variable (cfg : RecoveryCoordinatorConfig) {call : CoordinatorCall} {v : String}

theorem permitsCounted_begin : PermitsCounted (begin cfg) :=
  ⟨0, count_zero fun _ => rfl, Nat.zero_add _⟩

theorem withinLimit_always (run : List (ℕ × CoordinatorStep)) :
    ∀ s ∈ run.scanl step (begin cfg), WithinLimit s := by
  intro s hs is hn hl
  have hc : PermitsCounted s :=
    Run.invariant (fun _ _ h _ => permitsCounted_step h) (permitsCounted_begin cfg)
      (Run.along_true _ run) s hs
  obtain ⟨n, ho, hsum⟩ := hc
  exact (ho.length_le hn hl).trans (by omega)

/-! ## Tasks for a machine -/

/-- At most one call is active for a machine, and a task that is not over is noted. -/
structure Single (s : CoordinatorSystem) : Prop where
  alone : ∀ i j, i ≠ j → (s.calls i).NotBoth (s.calls j)
  noted : ∀ i v, (s.calls i).notedFor = some v → s.shared.isUnderWay v = true

theorem activeFor_of_notedFor (h : call.notedFor = some v) : call.activeFor = some v := by
  cases call <;> simp_all [notedFor, activeFor]

theorem activeFor_of_runsFor (h : call.runsFor = some v) : call.activeFor = some v := by
  cases call <;> simp_all [runsFor, activeFor]

/-- What a step has to leave for the invariant: no machine that another call is active for,
    and the notes for all machines but its own. -/
theorem Single.after (h : Single s) {c : RecoveryCoordinator}
    (hact : ∀ v, call.activeFor = some v → ∀ j, j ≠ i → (s.calls j).activeFor ≠ some v)
    (hn : ∀ v, call.notedFor = some v → c.isUnderWay v = true)
    (hf : ∀ v, (s.calls i).activeFor ≠ some v → s.shared.isUnderWay v = true →
      c.isUnderWay v = true) : Single (s.put i (c, call)) where
  alone _ _ hjk := pairwise_calls_put (R := NotBoth)
    (fun _ _ hnot v hv hv' => hnot v hv' hv) (fun j hj v hv => hact v hv j hj) h.alone hjk
  noted := by
    refine forall_calls_put
      (P := fun _ (call : CoordinatorCall) => ∀ v, call.notedFor = some v → c.isUnderWay v = true)
      hn fun j hj v hv => ?_
    exact hf v (fun hi => h.alone i j hj.symm v hi (activeFor_of_notedFor hv)) (h.noted j v hv)

theorem Single.after_active (h : Single s) {c : RecoveryCoordinator} {call : CoordinatorCall}
    (hact : ∀ v, call.activeFor = some v → (s.calls i).activeFor = some v)
    (hn : ∀ v, call.notedFor = some v → c.isUnderWay v = true)
    (hf : ∀ v, (s.calls i).activeFor ≠ some v → s.shared.isUnderWay v = true →
      c.isUnderWay v = true) : Single (s.put i (c, call)) :=
  h.after (fun v hv j hj => h.alone i j hj.symm v (hact v hv)) hn hf

theorem notedFor_or_unnotedFor
    (h : call.activeFor = some v) : call.notedFor = some v ∨ call.unnotedFor = some v := by
  cases call <;> simp_all [activeFor, notedFor, unnotedFor]

theorem single_look (h : Single s) (hf : s.shared.isUnderWay v = false)
    (hc : ∀ j, j ≠ i → (s.calls j).unnotedFor ≠ some v) :
    Single (s.put i (s.shared, .looked v)) := by
  refine h.after (fun v' hv' j hj hact => ?_) nofun fun _ _ hu => hu
  obtain rfl : v = v' := Option.some.inj hv'
  rcases notedFor_or_unnotedFor hact with ht | hn
  · exact absurd ((h.noted j v ht).symm.trans hf) nofun
  · exact hc j hj hn

theorem single_step (s : CoordinatorSystem) (x : ℕ × CoordinatorStep) (h : Single s)
    (hc : Calls.Others Clear s x) : Single (s.step x) := by
  obtain ⟨i, a⟩ := x
  have hdoes := s.shared.does_act (s.calls i) a
  have hn := h.noted i
  have ha := @Single.after_active s i h
  rw [step, step_eq_put]
  generalize s.shared.act (s.calls i) a = r at hdoes ⊢
  obtain ⟨c, after⟩ := r
  generalize s.calls i = before at hdoes hn ha
  simp only at hdoes
  cases hdoes with
  | look hf => exact single_look h hf fun j hj => hc j hj hf
  | nothing | refuse | spawn | queue | giveUp | returns =>
    exact ha (fun _ hv => hv) hn fun _ _ hu => hu
  | permit hcall =>
    rcases hcall with rfl | rfl <;>
      exact ha (fun _ hv => hv) hn fun _ _ hu => hu
  | @insert _ v now =>
    refine ha (fun _ hv => hv) (fun v' hv' => ?_) fun v' hv' hu => ?_
    · rw [RecoveryCoordinator.isUnderWay_insertRecovery, if_pos (Option.some.inj hv')]
    · rw [RecoveryCoordinator.isUnderWay_insertRecovery, hu, ite_self]
  | begins =>
    exact ha (fun _ hv => hv)
      (fun v hv => RecoveryCoordinator.isUnderWay_updateRecoveryStatus (hn v hv))
      fun _ _ hu => RecoveryCoordinator.isUnderWay_updateRecoveryStatus hu
  | @mark _ v result permit =>
    refine ha (fun _ hv => hv) nofun fun v' hv' hu => ?_
    have hne : v ≠ v' := fun heq => hv' (congrArg some heq)
    rw [RecoveryCoordinator.isUnderWay_markRecovery hne, hu]
  | panics | finish =>
    refine ha nofun nofun fun v hv hu => ?_
    rw [RecoveryCoordinator.isUnderWay_dropPermit, hu]
  | cleanup =>
    refine ha nofun nofun fun v hv hu => ?_
    rw [RecoveryCoordinator.isUnderWay_cleanup, hu]

theorem single_begin : Single (begin cfg) :=
  ⟨fun _ _ _ => nofun, nofun⟩

/-- **One task for a machine at a time**, and no more past the semaphore than configured, if no
    trigger that finds nothing looks between another look and its note, or between a task's result
    and its end. -/
theorem one_task_along (config : RecoveryCoordinatorConfig) (run : List (ℕ × CoordinatorStep))
    (hclear : Run.Along step (Calls.Others Clear) (begin config) run) :
    ∀ s ∈ run.scanl step (begin config), OneTaskPerVm s ∧ WithinLimit s := by
  intro s hs
  have hsingle := Run.invariant single_step (single_begin config) hclear s hs
  refine ⟨fun i j v hi hj => ?_, withinLimit_always config run s hs⟩
  by_contra hne
  exact hsingle.alone i j hne v (activeFor_of_runsFor hi) (activeFor_of_runsFor hj)

/-! ## Two triggers -/

def twoAtOnce : RecoveryCoordinatorConfig := ⟨2, true⟩

/-- A trigger whose task fails, a cleanup, and another trigger, while a recovery of another
    machine goes on. -/
def oneAfterAnother : List (ℕ × CoordinatorStep) :=
  [(0, .trigger "web"), (0, .insert 0), (0, .spawn), (0, .start), (1, .trigger "db"),
    (2, .trigger "web"), (1, .insert 1), (1, .spawn), (0, .updateStatus),
    (0, .recovered (some (.error (.vmOperationFailed "start" "exit status 1")))), (0, .mark),
    (0, .finish), (3, .cleanup), (4, .trigger "web"), (4, .insert 2), (4, .spawn), (1, .start),
    (4, .start)]

def callStates (run : List (ℕ × CoordinatorStep)) : List CoordinatorCall :=
  (List.range 5).map (run.foldl step (begin twoAtOnce)).calls

theorem one_task_oneAfterAnother :
    Run.Along step (Calls.Others Clear) (begin twoAtOnce) oneAfterAnother ∧
      (∀ s ∈ oneAfterAnother.scanl step (begin twoAtOnce), OneTaskPerVm s ∧ WithinLimit s) ∧
      callStates oneAfterAnother =
        [.finished, .permitted "db", .finished, .finished, .permitted "web"] := by
  have hclear : Run.Along step (Calls.Others Clear) (begin twoAtOnce) oneAfterAnother := by
    refine Calls.along_others .notBegun (fun c x => ?_) (List.range 5) (by decide)
      (fun _ _ => rfl) (by decide +kernel)
    unfold Clear
    split
    · exact fun _ => nofun
    · trivial
  exact ⟨hclear, one_task_along twoAtOnce oneAfterAnother hclear, by decide +kernel⟩

def bothLook : List (ℕ × CoordinatorStep) :=
  [(0, .trigger "web"), (1, .trigger "web"), (0, .insert 0), (1, .insert 1), (0, .spawn),
    (1, .spawn), (0, .start), (1, .start), (0, .updateStatus), (1, .updateStatus)]

/-- Two tasks recover one machine at the same time. -/
theorem two_tasks :
    (bothLook.foldl step (begin twoAtOnce)).calls 0 = .recovering "web" ∧
      (bothLook.foldl step (begin twoAtOnce)).calls 1 = .recovering "web" ∧
      ¬ ∀ s ∈ bothLook.scanl step (begin twoAtOnce), OneTaskPerVm s := by
  have hfirst : (bothLook.foldl step (begin twoAtOnce)).calls 0 = .recovering "web" := by
    decide +kernel
  have hsecond : (bothLook.foldl step (begin twoAtOnce)).calls 1 = .recovering "web" := by
    decide +kernel
  refine ⟨hfirst, hsecond, fun hone => ?_⟩
  have hsame := hone _ (Run.foldl_mem_scanl _ _) 0 1 "web" (by rw [hfirst]; rfl)
    (by rw [hsecond]; rfl)
  exact absurd hsame (by decide)

end CoordinatorSystem

end Blixard
