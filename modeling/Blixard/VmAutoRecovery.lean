/-
  Recovery of failed virtual machines (`vm_auto_recovery.rs`).

  When the last restart fails the lock of the states is held, and what follows asks for it again:
  the call waits for itself (`not_reacquires_iff`).  A migration that cannot even begin leaves no
  note, and the next trigger restarts the machine once more (`limited_iff`).
-/
import Blixard.Lib.Locks
import Blixard.Lib.Run
import Blixard.IpPool.Config

namespace Blixard

open Locks Std.ExtTreeMap

/-! ## Types -/

/-- Durations and instants are in nanoseconds; the multiplier is an `f64`, kept as its bits. -/
structure RecoveryPolicy where
  maxRestartAttempts : ℕ
  restartDelay : ℕ
  enableMigration : Bool
  backoffMultiplier : BitVec 64
  maxBackoffDelay : ℕ
  maxRestartAttempts_lt : maxRestartAttempts < 2 ^ 32

def RecoveryPolicy.default : RecoveryPolicy where
  maxRestartAttempts := 3
  restartDelay := 5 * 10 ^ 9
  enableMigration := true
  backoffMultiplier := 0x4000000000000000#64
  maxBackoffDelay := 300 * 10 ^ 9
  maxRestartAttempts_lt := by decide

structure VmRecoveryState where
  restartAttempts : ℕ
  lastAttempt : ℤ
  currentDelay : ℕ
  exhausted : Bool

structure RecoveryPlatform extends Platform where
  firstInstant : ℤ
  /-- The product of the delay and the multiplier, or the longest delay if that is less; what
      is no duration panics with the message. -/
  backoffDelay : (currentDelay : ℕ) → (multiplier : BitVec 64) → (maxBackoffDelay : ℕ) →
    Except String ℕ

def RecoveryPlatform.doubling : RecoveryPlatform :=
  { Platform.release with
    firstInstant := 0
    backoffDelay := fun currentDelay _ maxBackoffDelay =>
      .ok (min (2 * currentDelay) maxBackoffDelay) }

structure VmAutoRecovery where
  policy : RecoveryPolicy
  nodeId : ℕ
  recoveryStates : Table String VmRecoveryState
  blocked : Bool

inductive RecoveryLock where
  | recoveryStates
  deriving DecidableEq

/-- What other calls do while a call restarts the machine, without the lock: nothing, or one of them
    keeps the lock for ever, or they leave these states. -/
inductive Meanwhile where
  | nothing
  | blocked
  | changed (states : Table String VmRecoveryState)

/-- The surroundings of a call: clock readings, other calls, and what the rest of the node
    answers. -/
structure RecoveryEnv where
  now : ℕ → ℤ
  startVm : Except BlixardError Unit
  meanwhile : Meanwhile
  hasDatabase : Bool
  scheduleVmPlacement : VmConfig → Except BlixardError ℕ
  migrateVm : ℕ → Except BlixardError Unit

def RecoveryEnv.aloneAt (now : ℤ) : RecoveryEnv where
  now := fun _ => now
  startVm := .error (.vmOperationFailed "start" "exit status 1")
  meanwhile := .nothing
  hasDatabase := true
  scheduleVmPlacement := fun _ => .ok 1
  migrateVm := fun _ => .error (.vmOperationFailed "migrate" "no such node")

/-- What a call does: the states it leaves, the locks it takes, whether it tries a restart,
    and its result, which is a deadlock for a call that waits for ever. -/
structure RecoveryOutcome where
  states : Table String VmRecoveryState
  actions : List (Action RecoveryLock)
  restarted : Bool
  result : Except Failure Unit

def Meanwhile.found (states : Table String VmRecoveryState) :
    Meanwhile → Option (Table String VmRecoveryState)
  | .nothing => some states
  | .blocked => none
  | .changed states => some states

namespace VmAutoRecovery

def new (nodeId : ℕ) (policy : RecoveryPolicy) : VmAutoRecovery := ⟨policy, nodeId, ∅, false⟩

variable (pf : RecoveryPlatform) (env : RecoveryEnv) (r : VmAutoRecovery)
  (vmName : String) (vmConfig : VmConfig)

def getOrCreateRecoveryState : Except Failure VmRecoveryState :=
  match r.recoveryStates[vmName]? with
  | some state => .ok state
  | none =>
    let lastAttempt := env.now 0 - r.policy.restartDelay
    if lastAttempt < pf.firstInstant then
      .error (.panic "overflow when subtracting duration from instant")
    else .ok ⟨0, lastAttempt, r.policy.restartDelay, false⟩

def checkRecoveryExhausted (state : VmRecoveryState) : Except BlixardError Unit :=
  if state.exhausted then
    .error (.vmOperationFailed "auto_recovery"
      s!"Recovery exhausted after {r.policy.maxRestartAttempts} attempts")
  else .ok ()

/-- Whether less than the delay has passed; time that runs back counts as none. -/
def isInBackoffPeriod (state : VmRecoveryState) : Bool :=
  (env.now 1 - state.lastAttempt).toNat < state.currentDelay

/-- The first part of a call, under the lock: whether to try a restart, which is counted. -/
def beginAttempt : Table String VmRecoveryState × Except Failure Bool :=
  match r.getOrCreateRecoveryState pf env vmName with
  | .error failure => (r.recoveryStates, .error failure)
  | .ok state =>
    let states := r.recoveryStates.insert vmName state
    match r.checkRecoveryExhausted state with
    | .error e => (states, .error (.error e))
    | .ok () =>
      if isInBackoffPeriod env state then (states, .ok false)
      else
        match pf.addUnsigned 32 state.restartAttempts 1 with
        | .error failure => (states, .error failure)
        | .ok restartAttempts =>
          (states.insert vmName { state with restartAttempts, lastAttempt := env.now 2 }, .ok true)

/-! ## After a restart -/

/-- A change of the states by a function that takes their lock; `held` says that its caller
    has it already. -/
def writeStates (held : Bool)
    (change : Table String VmRecoveryState → Table String VmRecoveryState × Except Failure Unit) :
    RecoveryOutcome :=
  if held then ⟨r.recoveryStates, [.acquire .recoveryStates .write], true, .error .deadlock⟩
  else
    let changed := change r.recoveryStates
    ⟨changed.1, [.acquire .recoveryStates .write, .release .recoveryStates], true, changed.2⟩

def failWith (e : BlixardError) : RecoveryOutcome := ⟨r.recoveryStates, [], true, .error (.error e)⟩

def markExhausted (states : Table String VmRecoveryState) : Table String VmRecoveryState :=
  states.modify vmName fun state => { state with exhausted := true }

def attemptMigration (held : Bool) : RecoveryOutcome :=
  if env.hasDatabase then
    match env.scheduleVmPlacement vmConfig with
    | .error e => r.failWith e
    | .ok targetNodeId =>
      if targetNodeId = r.nodeId then
        r.failWith (.vmOperationFailed "auto_recovery_migration"
          "No alternative node available for migration")
      else
        match env.migrateVm targetNodeId with
        | .ok () => r.writeStates held fun states => (states.erase vmName, .ok ())
        | .error e =>
          r.writeStates held fun states => (markExhausted vmName states, .error (.error e))
  else r.failWith (.internal "Database not initialized")

def handleRestartExhausted (held : Bool) : RecoveryOutcome :=
  if r.policy.enableMigration then r.attemptMigration env vmName vmConfig held
  else
    r.writeStates held fun states =>
      (markExhausted vmName states, .error (.error (.vmOperationFailed "auto_recovery"
        s!"All {r.policy.maxRestartAttempts} restart attempts failed")))

/-- The states are those of the caller, who holds the lock. -/
def handleRestartFailure (error : BlixardError) : RecoveryOutcome :=
  match r.recoveryStates[vmName]? with
  | none =>
    r.failWith (.internal
      s!"Recovery state missing for VM '{vmName}' during failure ha")
  | some state =>
    if r.policy.maxRestartAttempts ≤ state.restartAttempts then
      r.handleRestartExhausted env vmName vmConfig true
    else
      match pf.backoffDelay state.currentDelay r.policy.backoffMultiplier
        r.policy.maxBackoffDelay with
      | .error message => ⟨r.recoveryStates, [], true, .error (.panic message)⟩
      | .ok currentDelay =>
        ⟨r.recoveryStates.insert vmName { state with currentDelay }, [], true,
          .error (.error error)⟩

def underLock (o : RecoveryOutcome) : RecoveryOutcome :=
  { o with actions := .acquire .recoveryStates .write ::
      (o.actions ++ if o.result = .error .deadlock then [] else [.release .recoveryStates]) }

def finishAttempt : RecoveryOutcome :=
  match env.startVm with
  | .ok () => ⟨r.recoveryStates.erase vmName, [], true, .ok ()⟩
  | .error error => r.handleRestartFailure pf env vmName vmConfig error

def triggerRecovery : RecoveryOutcome :=
  if r.blocked then
    ⟨r.recoveryStates, [.acquire .recoveryStates .write], false, .error .deadlock⟩
  else
    let begun : List (Action RecoveryLock) :=
      [.acquire .recoveryStates .write, .release .recoveryStates]
    match r.beginAttempt pf env vmName with
    | (states, .error failure) => ⟨states, begun, false, .error failure⟩
    | (states, .ok false) => ⟨states, begun, false, .ok ()⟩
    | (states, .ok true) =>
      match env.meanwhile.found states with
      | none => ⟨states, begun ++ [.acquire .recoveryStates .write], true, .error .deadlock⟩
      | some recoveryStates =>
        let o := underLock (finishAttempt pf env { r with recoveryStates } vmName vmConfig)
        { o with actions := begun ++ o.actions }

def after (o : RecoveryOutcome) : VmAutoRecovery :=
  { r with recoveryStates := o.states, blocked := r.blocked || o.result = .error .deadlock }

/-- `reset_recovery_state`, which waits for ever if the lock is not given back. -/
def resetRecoveryState : VmAutoRecovery :=
  if r.blocked then r else { r with recoveryStates := r.recoveryStates.erase vmName }

/-! ## What a trigger does -/

def Attempts (attempt : ℕ) : Prop :=
  ∃ state, r.getOrCreateRecoveryState pf env vmName = .ok state ∧ state.exhausted = false ∧
    isInBackoffPeriod env state = false ∧ pf.addUnsigned 32 state.restartAttempts 1 = .ok attempt

def MigrationBegins : Prop :=
  env.hasDatabase ∧ ∃ target, env.scheduleVmPlacement vmConfig = .ok target ∧ target ≠ r.nodeId

variable {pf env r vmName vmConfig}

variable (cfg : VmConfig) {state : VmRecoveryState} {att : ℕ}

theorem beginAttempt_of_attempts (h : r.Attempts pf env vmName att) :
    ∃ sts state, r.beginAttempt pf env vmName = (sts, .ok true) ∧
      sts[vmName]? = some state ∧ state.restartAttempts = att ∧ state.exhausted = false := by
  obtain ⟨state, hs, he, hb, hadd⟩ := h
  simp only [beginAttempt, hs, checkRecoveryExhausted, he, Bool.false_eq_true, if_false,
    hb, hadd]
  exact ⟨_, _, rfl, getElem?_insert_self, rfl, rfl⟩

theorem beginAttempt_of_not_attempts (h : ∀ att, ¬ r.Attempts pf env vmName att) :
    ∃ sts res, r.beginAttempt pf env vmName = (sts, res) ∧ res ≠ .ok true ∧
      res ≠ .error .deadlock ∧
      ((r.recoveryStates[vmName]? = none ∧ sts = r.recoveryStates) ∨
        ∃ state, r.getOrCreateRecoveryState pf env vmName = .ok state ∧
          sts[vmName]? = some state ∧
          (state.exhausted = false → ∀ e, res ≠ .error (.error e))) := by
  have hrow (state : VmRecoveryState) :
      (r.recoveryStates.insert vmName state)[vmName]? = some state :=
    getElem?_insert_self
  fun_cases beginAttempt pf env r vmName with
  | case1 fail hs =>
    unfold getOrCreateRecoveryState at hs
    cases hrow : r.recoveryStates[vmName]? with
    | some state => simp [hrow] at hs
    | none =>
      simp only [hrow] at hs
      split_ifs at hs
      cases hs
      exact ⟨_, _, rfl, by simp, by simp, .inl ⟨rfl, rfl⟩⟩
  | case2 state hs sts e hc =>
    have he : state.exhausted ≠ false := by
      intro hf
      simp [checkRecoveryExhausted, hf] at hc
    exact ⟨_, _, rfl, by simp, by simp,
      .inr ⟨state, hs, hrow state, fun hf => absurd hf he⟩⟩
  | case3 state hs =>
    exact ⟨_, _, rfl, by simp, by simp, .inr ⟨state, hs, hrow state, by simp⟩⟩
  | case4 state hs sts hc hb fail hadd =>
    unfold Platform.addUnsigned at hadd
    split_ifs at hadd
    cases hadd
    exact ⟨_, _, rfl, by simp, by simp, .inr ⟨state, hs, hrow state, by simp⟩⟩
  | case5 state hs sts hc hb att hadd =>
    refine absurd ⟨state, hs, ?_, by simpa using hb, hadd⟩ (h att)
    by_contra he
    simp [checkRecoveryExhausted, he] at hc

/-- **The second lock**: after the last restart the call waits for itself, or it fails since
    there is no node to migrate to. -/
theorem handleRestartExhausted_held (env : RecoveryEnv) (r : VmAutoRecovery) (vm : String)
    (cfg : VmConfig) : ((r.policy.enableMigration = false ∨ r.MigrationBegins env cfg) ∧
      r.handleRestartExhausted env vm cfg true =
        ⟨r.recoveryStates, [.acquire .recoveryStates .write], true, .error .deadlock⟩) ∨
    (r.policy.enableMigration = true ∧ ¬ r.MigrationBegins env cfg ∧
      ∃ e, r.handleRestartExhausted env vm cfg true = r.failWith e) := by
  unfold handleRestartExhausted attemptMigration MigrationBegins
  cases r.policy.enableMigration with
  | false => exact .inl ⟨.inl rfl, rfl⟩
  | true =>
    cases env.hasDatabase with
    | false => exact .inr ⟨rfl, by simp, _, rfl⟩
    | true =>
      cases env.scheduleVmPlacement cfg with
      | error e => exact .inr ⟨rfl, by simp, e, rfl⟩
      | ok tgt =>
        by_cases hsame : tgt = r.nodeId
        · exact .inr ⟨rfl, by simp [hsame], _, by simp [hsame]; rfl⟩
        · refine .inl ⟨.inr ⟨rfl, tgt, rfl, hsame⟩, ?_⟩
          cases hm : env.migrateVm tgt <;> simp [hsame, hm, writeStates]

theorem handleRestartFailure_of_left (pf : RecoveryPlatform) (env : RecoveryEnv)
    (cfg : VmConfig) (error : BlixardError) (hrow : r.recoveryStates[vmName]? = some state)
    (hleft : state.restartAttempts < r.policy.maxRestartAttempts) : ∃ sts state' res,
      r.handleRestartFailure pf env vmName cfg error = ⟨sts, [], true, res⟩ ∧
      res ≠ .error .deadlock ∧ sts[vmName]? = some state' ∧
      state'.restartAttempts = state.restartAttempts ∧ state'.exhausted = state.exhausted := by
  simp only [handleRestartFailure, hrow, Nat.not_le.2 hleft, if_false]
  cases pf.backoffDelay state.currentDelay r.policy.backoffMultiplier
    r.policy.maxBackoffDelay with
  | error msg => exact ⟨_, state, _, rfl, by simp, hrow, rfl, rfl⟩
  | ok delay =>
    exact ⟨_, _, _, rfl, by simp, getElem?_insert_self, rfl, rfl⟩

theorem handleRestartFailure_of_last {error : BlixardError}
    (hrow : r.recoveryStates[vmName]? = some state)
    (hlast : r.policy.maxRestartAttempts ≤ state.restartAttempts) :
    r.handleRestartFailure pf env vmName vmConfig error =
      r.handleRestartExhausted env vmName vmConfig true := by
  simp only [handleRestartFailure, hrow, hlast, if_true]

theorem Attempts.unique {attempt' : ℕ} (h : r.Attempts pf env vmName att)
    (h' : r.Attempts pf env vmName attempt') : att = attempt' := by
  obtain ⟨state, hs, -, -, hadd⟩ := h
  obtain ⟨state', hs', -, -, hadd'⟩ := h'
  rw [hs] at hs'
  cases hs'
  rw [hadd] at hadd'
  cases hadd'
  rfl

/-! ## Locks -/

def NoneLeft (pf : RecoveryPlatform) (env : RecoveryEnv) (r : VmAutoRecovery)
    (vmName : String) : Prop :=
  match env.meanwhile with
  | .nothing => ∃ attempt, r.Attempts pf env vmName attempt ∧ r.policy.maxRestartAttempts ≤ attempt
  | .blocked => False
  | .changed states => (∃ attempt, r.Attempts pf env vmName attempt) ∧
      ∃ state, states[vmName]? = some state ∧ r.policy.maxRestartAttempts ≤ state.restartAttempts

/-- The machine fails to restart for the last time, and is then given up, or migrated. -/
structure LastRestartFails (pf : RecoveryPlatform) (env : RecoveryEnv) (r : VmAutoRecovery)
    (vmName : String) (vmConfig : VmConfig) : Prop where
  notBlocked : r.blocked = false
  noneLeft : r.NoneLeft pf env vmName
  fails : ∃ error, env.startVm = .error error
  followed : r.policy.enableMigration = false ∨ r.MigrationBegins env vmConfig

theorem reacquires_finishAttempt :
    Reacquires [] (underLock (finishAttempt pf env r vmName vmConfig)).actions ↔
      (∃ error, env.startVm = .error error) ∧
      (∃ state, r.recoveryStates[vmName]? = some state ∧
        r.policy.maxRestartAttempts ≤ state.restartAttempts) ∧
      (r.policy.enableMigration = false ∨ r.MigrationBegins env vmConfig) := by
  unfold finishAttempt
  cases env.startVm with
  | ok _ => simp [underLock, Reacquires, perform]
  | error error =>
    cases hrow : r.recoveryStates[vmName]? with
    | none => simp [handleRestartFailure, hrow, failWith, underLock, Reacquires, perform]
    | some state =>
      by_cases hlast : r.policy.maxRestartAttempts ≤ state.restartAttempts
      · simp only [handleRestartFailure_of_last hrow hlast]
        rcases handleRestartExhausted_held env r vmName vmConfig with
          ⟨hf, heq⟩ | ⟨he, hb, e, heq⟩
        · simp [heq, hf, hlast, underLock, Reacquires, perform]
          exact ⟨.recoveryStates⟩
        · simp [heq, he, hb, failWith, underLock, Reacquires, perform]
      · obtain ⟨states, state', result, heq, hr, -⟩ :=
          handleRestartFailure_of_left pf env vmConfig error hrow (Nat.lt_of_not_le hlast)
        simp [heq, hr, hlast, underLock, Reacquires, perform]

theorem reacquires_begun (actions : List (Action RecoveryLock)) :
    Reacquires [] ([.acquire .recoveryStates .write, .release .recoveryStates] ++ actions) ↔
      Reacquires [] actions := by
  simp [Reacquires, perform]

theorem not_reacquires_acquire :
    ¬ Reacquires [] [Action.acquire RecoveryLock.recoveryStates Mode.write] := by
  simp [Reacquires]

theorem NoneLeft.attempts (h : r.NoneLeft pf env vmName) :
    ∃ attempt, r.Attempts pf env vmName attempt := by
  unfold NoneLeft at h
  split at h
  · exact ⟨_, h.choose_spec.1⟩
  · exact h.elim
  · exact h.1

theorem reacquires_triggerRecovery {attempt : ℕ} (hb : r.blocked = false)
    (ha : r.Attempts pf env vmName attempt) :
    Reacquires [] (r.triggerRecovery pf env vmName vmConfig).actions ↔
      (∃ error, env.startVm = .error error) ∧ r.NoneLeft pf env vmName ∧
      (r.policy.enableMigration = false ∨ r.MigrationBegins env vmConfig) := by
  obtain ⟨states, state, hg, hrow, hc, -⟩ := beginAttempt_of_attempts ha
  simp only [triggerRecovery, hb, Bool.false_eq_true, if_false, hg]
  cases hm : env.meanwhile with
  | nothing =>
    have hnone : r.NoneLeft pf env vmName ↔
        ∃ state, states[vmName]? = some state ∧
          r.policy.maxRestartAttempts ≤ state.restartAttempts := by
      simp only [NoneLeft, hm, hrow, Option.some.injEq, exists_eq_left', hc]
      exact ⟨fun ⟨_, ho, hle⟩ => ha.unique ho ▸ hle, fun hle => ⟨_, ha, hle⟩⟩
    rw [hnone]
    exact (reacquires_begun _).trans reacquires_finishAttempt
  | blocked =>
    have hnone : ¬ r.NoneLeft pf env vmName := by simp [NoneLeft, hm]
    exact iff_of_false (fun h => not_reacquires_acquire ((reacquires_begun _).1 h))
      fun h => hnone h.2.1
  | changed states =>
    have hnone : r.NoneLeft pf env vmName ↔
        ∃ state, states[vmName]? = some state ∧
          r.policy.maxRestartAttempts ≤ state.restartAttempts := by
      simp only [NoneLeft, hm]
      exact ⟨fun h => h.2, fun h => ⟨⟨_, ha⟩, h⟩⟩
    rw [hnone]
    exact (reacquires_begun _).trans reacquires_finishAttempt

/-- **No call waits for itself** unless the last restart of the machine fails and the machine
    is then given up, or migrated. -/
theorem not_reacquires_iff (pf : RecoveryPlatform) (env : RecoveryEnv) (r : VmAutoRecovery)
    (vmName : String) (vmConfig : VmConfig) :
    ¬ Reacquires [] (r.triggerRecovery pf env vmName vmConfig).actions ↔
      ¬ r.LastRestartFails pf env vmName vmConfig := by
  rw [not_iff_not]
  cases hblocked : r.blocked with
  | true =>
    simp only [triggerRecovery, hblocked, if_true]
    exact iff_of_false not_reacquires_acquire fun h => by simpa [hblocked] using h.notBlocked
  | false =>
    by_cases hattempts : ∃ attempt, r.Attempts pf env vmName attempt
    · obtain ⟨attempt, hattempt⟩ := hattempts
      rw [reacquires_triggerRecovery hblocked hattempt]
      exact ⟨fun ⟨hfails, hnone, hfollowed⟩ => ⟨hblocked, hnone, hfails, hfollowed⟩,
        fun h => ⟨h.fails, h.noneLeft, h.followed⟩⟩
    push Not at hattempts
    obtain ⟨states, result, hbegin, htrue, -⟩ := beginAttempt_of_not_attempts hattempts
    refine iff_of_false ?_ fun h => ?_
    · simp only [triggerRecovery, hblocked, Bool.false_eq_true, if_false, hbegin]
      rcases result with failure | _ | _
      · simp [Reacquires, perform]
      · simp [Reacquires, perform]
      · exact absurd rfl htrue
    · obtain ⟨attempt, hattempt⟩ := h.noneLeft.attempts
      exact hattempts attempt hattempt

/-- **The call that waits for itself**: without migration, a machine that may be restarted
    once fails to start, and the next call waits as well. -/
theorem waits_for_itself :
    let r := new 1 { RecoveryPolicy.default with
      maxRestartAttempts := 1, enableMigration := false, maxRestartAttempts_lt := by decide }
    let o := r.triggerRecovery .doubling (.aloneAt (60 * 10 ^ 9)) "web" {}
    Reacquires [] o.actions ∧ o.result = .error .deadlock ∧
      ((r.after o).triggerRecovery .doubling (.aloneAt (120 * 10 ^ 9)) "db" {}).result =
        .error .deadlock := by
  refine ⟨.inr (.inr (.inr (.inl ⟨.recoveryStates, .write, ?_, ?_⟩))), ?_, ?_⟩
  all_goals decide +kernel

/-! ## Restarts -/

def migrates (env : RecoveryEnv) (r : VmAutoRecovery) (vmConfig : VmConfig) : Bool :=
  r.policy.enableMigration && env.hasDatabase &&
    match env.scheduleVmPlacement vmConfig with
    | .error _ => false
    | .ok targetNodeId => targetNodeId ≠ r.nodeId && (env.migrateVm targetNodeId).isOk

theorem triggerRecovery_of_blocked (pf : RecoveryPlatform) (env : RecoveryEnv) (vm : String)
    (cfg : VmConfig) (hb : r.blocked = true) : r.triggerRecovery pf env vm cfg =
      ⟨r.recoveryStates, [.acquire .recoveryStates .write], false, .error .deadlock⟩ := by
  simp only [triggerRecovery, hb, if_true]

theorem triggerRecovery_of_not_attempts (hb : r.blocked = false)
    (h : ∀ att, ¬ r.Attempts pf env vmName att) : let o := r.triggerRecovery pf env vmName cfg
    o.restarted = false ∧ o.result ≠ .error .deadlock ∧
      ((r.recoveryStates[vmName]? = none ∧ o.states = r.recoveryStates) ∨
        ∃ state, r.getOrCreateRecoveryState pf env vmName = .ok state ∧
          o.states[vmName]? = some state ∧
          (state.exhausted = false → ∀ e, o.result ≠ .error (.error e))) := by
  obtain ⟨sts, res, hg, htrue, hd, hs⟩ := beginAttempt_of_not_attempts h
  simp only [triggerRecovery, hb, Bool.false_eq_true, if_false, hg]
  rcases res with failure | _ | _
  · exact ⟨rfl, by simpa using hd, by simpa using hs⟩
  · exact ⟨rfl, by simp, by simpa using hs⟩
  · exact absurd rfl htrue

theorem handleRestartFailure_counted (pf : RecoveryPlatform) (env : RecoveryEnv)
    (cfg : VmConfig) (error : BlixardError) (hrow : r.recoveryStates[vmName]? = some state) :
    let o := r.handleRestartFailure pf env vmName cfg error
    o.restarted = true ∧
      (o.result = .error .deadlock → r.policy.maxRestartAttempts ≤ state.restartAttempts) ∧
      ∃ state', o.states[vmName]? = some state' ∧
        state'.restartAttempts = state.restartAttempts ∧ state'.exhausted = state.exhausted := by
  by_cases hlast : r.policy.maxRestartAttempts ≤ state.restartAttempts
  · rw [handleRestartFailure_of_last hrow hlast]
    rcases handleRestartExhausted_held env r vmName cfg with ⟨-, heq⟩ | ⟨-, -, e, heq⟩
    · rw [heq]
      exact ⟨rfl, fun _ => hlast, state, hrow, rfl, rfl⟩
    · rw [heq]
      exact ⟨rfl, fun _ => hlast, state, hrow, rfl, rfl⟩
  · obtain ⟨states', state', res, heq, hres, hrow', hsame⟩ :=
      handleRestartFailure_of_left pf env cfg error hrow (Nat.lt_of_not_le hlast)
    rw [heq]
    exact ⟨rfl, fun hd => absurd hd hres, state', hrow', hsame⟩

theorem triggerRecovery_of_attempts {error : BlixardError}
    (hb : r.blocked = false) (hs : env.startVm = .error error)
    (hm : env.meanwhile = .nothing) (hatt : r.Attempts pf env vmName att) :
    let o := r.triggerRecovery pf env vmName cfg
    o.restarted = true ∧
      (o.result = .error .deadlock → r.policy.maxRestartAttempts ≤ att) ∧
      ∃ state, o.states[vmName]? = some state ∧ state.restartAttempts = att ∧
        state.exhausted = false := by
  obtain ⟨sts, state, hg, hrow, hc, he⟩ := beginAttempt_of_attempts hatt
  simp only [triggerRecovery, hb, Bool.false_eq_true, if_false, hg, hm,
    Meanwhile.found, finishAttempt, hs, underLock]
  obtain ⟨hr, hd, state', hrow', hc', he'⟩ :=
    handleRestartFailure_counted (r := ⟨r.policy, r.nodeId, sts, false⟩) pf env cfg error
      hrow
  exact ⟨hr, fun h => hc ▸ hd h, state', hrow', hc'.trans hc,
    he'.trans he⟩

end VmAutoRecovery

/-- How far the recovery of a machine has got: restarts are left, or the last one failed and
    the machine was migrated, or recovery failed for good. -/
inductive RecoveryStage where
  | trying | migrated | lost
  deriving DecidableEq

/-- A recovery with what happened to one machine since its state was last reset; `late` are
    the calls after recovery failed for good. -/
structure WatchedRecovery where
  recovery : VmAutoRecovery
  restarts : ℕ
  stage : RecoveryStage
  late : List RecoveryOutcome

/-- A trigger whose restart fails, a caller that waits no longer for a call without an end,
    or a reset by hand. -/
inductive RecoveryEvent where
  | trigger (env : RecoveryEnv) (error : BlixardError)
  | abandon
  | reset

def RecoveryOutcome.Rejected (o : RecoveryOutcome) : Prop :=
  o.restarted = false ∧ ∃ e, o.result = .error (.error e)

namespace WatchedRecovery

variable (pf : RecoveryPlatform) (vmName : String) (vmConfig : VmConfig)

def start (recovery : VmAutoRecovery) : WatchedRecovery := ⟨recovery, 0, .trying, []⟩

/-- The count begins anew when the machine has no state. -/
def settle (s : WatchedRecovery) : WatchedRecovery :=
  if s.recovery.recoveryStates[vmName]? = none then start s.recovery else s

def failing (env : RecoveryEnv) (error : BlixardError) : RecoveryEnv :=
  { env with startVm := .error error, meanwhile := .nothing }

def stageAfter (s : WatchedRecovery) (env : RecoveryEnv) (restarts : ℕ) : RecoveryStage :=
  if restarts < s.recovery.policy.maxRestartAttempts then .trying
  else if s.recovery.migrates env vmConfig then .migrated
  else .lost

def watch (s : WatchedRecovery) : RecoveryEvent → WatchedRecovery
  | .trigger env error =>
    let o := s.recovery.triggerRecovery pf (failing env error) vmName vmConfig
    settle vmName
      { recovery := s.recovery.after o
        restarts := s.restarts + o.restarted.toNat
        stage := if o.restarted then s.stageAfter vmConfig env (s.restarts + 1) else s.stage
        late := if s.stage = .lost then o :: s.late else s.late }
  | .abandon => settle vmName { s with recovery := { s.recovery with blocked := false } }
  | .reset => settle vmName { s with recovery := s.recovery.resetRecoveryState vmName }

/-- What recovery promises: no restart beyond the limit, and none once it has failed. -/
structure Limited (s : WatchedRecovery) : Prop where
  restarts_le : s.restarts ≤ max 1 s.recovery.policy.maxRestartAttempts
  late_rejected : ∀ o ∈ s.late, o.Rejected

/-- No trigger comes after recovery has failed for good, nor one that tries a restart after
    the machine was migrated. -/
def InTime (s : WatchedRecovery) : RecoveryEvent → Prop
  | .trigger env error =>
    match s.stage with
    | .trying => True
    | .migrated => s.recovery.blocked = true ∨
        ∀ attempt, ¬ s.recovery.Attempts pf (failing env error) vmName attempt
    | .lost => False
  | .abandon | .reset => True

/-- While restarts are left the count is that of the state; then the state is there, and
    nothing notes that no other restart is to be made. -/
structure Counted (s : WatchedRecovery) : Prop where
  late : s.late = []
  fresh : s.recovery.recoveryStates[vmName]? = none → s.restarts = 0 ∧ s.stage = .trying
  trying : s.stage = .trying →
    s.recovery.blocked = false ∧ s.restarts < max 1 s.recovery.policy.maxRestartAttempts
  unmarked : ∀ state, s.recovery.recoveryStates[vmName]? = some state →
    state.exhausted = false ∧ (s.stage = .trying → state.restartAttempts = s.restarts)
  usedUp : s.stage ≠ .trying → s.restarts = max 1 s.recovery.policy.maxRestartAttempts

variable {pf vmName vmConfig} {s : WatchedRecovery}

theorem counted_start {recovery : VmAutoRecovery} (hb : recovery.blocked = false)
    (hrow : recovery.recoveryStates[vmName]? = none) : (start recovery).Counted vmName := by
  refine ⟨rfl, fun _ => ⟨rfl, rfl⟩, fun _ => ⟨hb, by simp [start]⟩, fun state h => ?_,
    fun h => absurd rfl h⟩
  have hsome : recovery.recoveryStates[vmName]? = some state := h
  simp [hrow] at hsome

variable {error : BlixardError} {env : RecoveryEnv} {state : VmRecoveryState} {att : ℕ}

theorem settle_of_some
    (hrow : s.recovery.recoveryStates[vmName]? = some state) : s.settle vmName = s := by
  simp only [settle, hrow, reduceCtorEq, if_false]

theorem counted_settle (hnone : s.recovery.recoveryStates[vmName]? = none →
      s.recovery.blocked = false)
    (hsome : ∀ state, s.recovery.recoveryStates[vmName]? = some state → s.Counted vmName) :
    (s.settle vmName).Counted vmName := by
  cases hrow : s.recovery.recoveryStates[vmName]? with
  | none =>
    rw [settle, if_pos hrow]
    exact counted_start (hnone hrow) hrow
  | some state =>
    rw [settle_of_some hrow]
    exact hsome state hrow

theorem Counted.not_blocked (h : s.Counted vmName)
    (hnone : s.recovery.recoveryStates[vmName]? = none) : s.recovery.blocked = false :=
  (h.trying (h.fresh hnone).2).1

theorem counted_abandon (h : s.Counted vmName) : (s.watch pf vmName vmConfig .abandon).Counted
    vmName := by
  refine counted_settle (fun _ => rfl) fun state _ => ?_
  exact ⟨h.late, h.fresh, fun htry => ⟨rfl, (h.trying htry).2⟩, h.unmarked, h.usedUp⟩

theorem counted_reset (h : s.Counted vmName) : (s.watch pf vmName vmConfig .reset).Counted
    vmName := by
  unfold watch VmAutoRecovery.resetRecoveryState
  cases hb : s.recovery.blocked with
  | true =>
    refine counted_settle (fun hnone => ?_) fun state _ => h
    exact h.not_blocked hnone
  | false =>
    refine counted_settle (fun _ => ?_) fun state hrow => ?_
    · simp
    · have he : (s.recovery.recoveryStates.erase vmName)[vmName]? = some state := hrow
      rw [getElem?_erase_self] at he
      cases he

theorem Counted.of_getOrCreate (h : s.Counted vmName)
    (hs : s.recovery.getOrCreateRecoveryState pf env vmName = .ok state) :
    state.exhausted = false ∧ (s.stage = .trying → state.restartAttempts = s.restarts) := by
  unfold VmAutoRecovery.getOrCreateRecoveryState at hs
  cases hrow : s.recovery.recoveryStates[vmName]? with
  | some state' =>
    rw [hrow] at hs
    cases hs
    exact h.unmarked state hrow
  | none =>
    simp only [hrow] at hs
    split_ifs at hs
    cases hs
    exact ⟨rfl, fun _ => (h.fresh hrow).1.symm⟩

theorem Counted.attempt_eq (h : s.Counted vmName) (htry : s.stage = .trying)
    (hatt : s.recovery.Attempts pf env vmName att) : att = s.restarts + 1 := by
  obtain ⟨state, hs, -, -, hadd⟩ := hatt
  have hc := (h.of_getOrCreate hs).2 htry
  have hless := (h.trying htry).2
  have hmax := s.recovery.policy.maxRestartAttempts_lt
  have hroom : s.restarts + 1 < 2 ^ 32 := by
    have hone : 1 < 2 ^ 32 := by decide
    omega
  rw [hc, pf.addUnsigned_of_lt hroom] at hadd
  cases hadd
  rfl

theorem counted_restart (h : s.Counted vmName) (htry : s.stage = .trying)
    (hatt : s.recovery.Attempts pf (failing env error) vmName att) :
    (s.watch pf vmName vmConfig (.trigger env error)).Counted vmName := by
  have hnext := h.attempt_eq htry hatt
  obtain ⟨hb, hless⟩ := h.trying htry
  obtain ⟨hr, hd, state, hrow, hc, he⟩ :=
    VmAutoRecovery.triggerRecovery_of_attempts vmConfig hb rfl rfl hatt
  refine counted_settle (fun hnone => ?_) fun _ _ => ?_
  · simp [VmAutoRecovery.after, hrow] at hnone
  simp only [htry, reduceCtorEq, if_false, hr, if_true, Bool.toNat_true]
  refine ⟨h.late, fun hnone => ?_, fun hleft => ?_, fun state' hrow' => ?_, fun hover => ?_⟩
  · simp [VmAutoRecovery.after, hrow] at hnone
  · unfold stageAfter at hleft
    split_ifs at hleft with hlt
    refine ⟨?_, lt_of_lt_of_le hlt (le_max_right _ _)⟩
    have hends : (s.recovery.triggerRecovery pf (failing env error) vmName vmConfig).result ≠
        .error .deadlock := fun h => Nat.not_le.2 hlt (hnext ▸ hd h)
    simp [VmAutoRecovery.after, hb, hends]
  · simp only [VmAutoRecovery.after, hrow, Option.some.injEq] at hrow'
    subst hrow'
    exact ⟨he, fun _ => hc.trans hnext⟩
  · unfold stageAfter at hover
    split_ifs at hover with hlt
    · exact absurd rfl hover
    all_goals
      simp only [VmAutoRecovery.after]
      omega

theorem counted_idle (h : s.Counted vmName) (hs : s.stage ≠ .lost)
    (hb : s.recovery.blocked = false)
    (hidle : ∀ att, ¬ s.recovery.Attempts pf (failing env error) vmName att) :
    (s.watch pf vmName vmConfig (.trigger env error)).Counted vmName := by
  obtain ⟨hr, hends, ht⟩ :=
    VmAutoRecovery.triggerRecovery_of_not_attempts vmConfig hb hidle
  have hb' : (s.recovery.after (s.recovery.triggerRecovery pf (failing env error) vmName
      vmConfig)).blocked = false := by
    simp [VmAutoRecovery.after, hb, hends]
  refine counted_settle (fun _ => hb') fun state hrow => ?_
  simp only [hs, if_false, hr, Bool.false_eq_true, Bool.toNat_false, Nat.add_zero]
  rcases ht with ⟨hnone, hsame⟩ | ⟨state', hs1, hrow', -⟩
  · simp [VmAutoRecovery.after, hsame, hnone] at hrow
  refine ⟨h.late, fun hnone => ?_, fun htry => ⟨hb', (h.trying htry).2⟩,
    fun other ho => ?_, h.usedUp⟩
  · simp [VmAutoRecovery.after, hrow'] at hnone
  · simp only [VmAutoRecovery.after, hrow', Option.some.injEq] at ho
    exact ho ▸ h.of_getOrCreate hs1

theorem counted_trigger (h : s.Counted vmName) (hin : s.InTime pf vmName (.trigger env error)) :
    (s.watch pf vmName vmConfig (.trigger env error)).Counted vmName := by
  unfold InTime at hin
  cases hs : s.stage with
  | trying =>
    by_cases ha : ∃ att, s.recovery.Attempts pf (failing env error) vmName att
    · exact counted_restart h hs ha.choose_spec
    · exact counted_idle h (by simp [hs]) (h.trying hs).1 (not_exists.1 ha)
  | migrated =>
    rw [hs] at hin
    cases hb : s.recovery.blocked with
    | true =>
      refine counted_settle (fun hnone => ?_) fun state hrow => ?_
      · rw [VmAutoRecovery.triggerRecovery_of_blocked _ _ _ _ hb] at hnone
        simp [(h.fresh hnone).2] at hs
      simp only [VmAutoRecovery.triggerRecovery_of_blocked _ _ _ _ hb]
      refine ⟨?_, h.fresh, ?_, h.unmarked, h.usedUp⟩
      · simpa [hs] using h.late
      · simp [hs]
    | false =>
      exact counted_idle h (by simp [hs]) hb (hin.resolve_left (by simp [hb]))
  | lost =>
    rw [hs] at hin
    exact hin.elim

theorem counted_watch (s : WatchedRecovery) (event : RecoveryEvent) (h : s.Counted vmName)
    (hin : s.InTime pf vmName event) : (s.watch pf vmName vmConfig event).Counted vmName := by
  cases event with
  | trigger env error => exact counted_trigger h hin
  | abandon => exact counted_abandon h
  | reset => exact counted_reset h

theorem Counted.limited (h : s.Counted vmName) : s.Limited := by
  refine ⟨?_, by simp [h.late]⟩
  by_cases ht : s.stage = .trying
  · exact (h.trying ht).2.le
  · exact (h.usedUp ht).le

theorem watch_trigger
    (hrow : (s.recovery.triggerRecovery pf (failing env error) vmName vmConfig).states[vmName]? =
      some state) : (s.watch pf vmName vmConfig (.trigger env error)).restarts = s.restarts +
        (s.recovery.triggerRecovery pf (failing env error) vmName vmConfig).restarted.toNat ∧
    (s.stage = .lost → s.recovery.triggerRecovery pf (failing env error) vmName vmConfig ∈
      (s.watch pf vmName vmConfig (.trigger env error)).late) ∧
    (s.watch pf vmName vmConfig (.trigger env error)).recovery.policy = s.recovery.policy := by
  simp only [watch]
  rw [settle_of_some hrow]
  exact ⟨rfl, fun hlost => by simp [hlost], rfl⟩

theorem not_limited_of_lost (h : s.Counted vmName) (hlost : s.stage = .lost) (env : RecoveryEnv)
    (error : BlixardError) : ¬ (s.watch pf vmName vmConfig (.trigger env error)).Limited := by
  intro hl
  have hn : s.stage ≠ .trying := by simp [hlost]
  obtain ⟨state, hrow⟩ : ∃ state, s.recovery.recoveryStates[vmName]? = some state := by
    rw [← Option.ne_none_iff_exists']
    exact fun hnone => hn (h.fresh hnone).2
  cases hb : s.recovery.blocked with
  | true =>
    have heq :=
      VmAutoRecovery.triggerRecovery_of_blocked pf (failing env error) vmName vmConfig hb
    have hsame : (s.recovery.triggerRecovery pf (failing env error) vmName
        vmConfig).states[vmName]? = some state := by
      rw [heq]
      exact hrow
    obtain ⟨-, e, he⟩ := hl.late_rejected _ ((watch_trigger hsame).2.1 hlost)
    simp [heq] at he
  | false =>
    by_cases ha : ∃ att, s.recovery.Attempts pf (failing env error) vmName att
    · obtain ⟨hr, -, state', hrow', -⟩ :=
        VmAutoRecovery.triggerRecovery_of_attempts vmConfig hb rfl rfl
          ha.choose_spec
      obtain ⟨hnot, -⟩ := hl.late_rejected _ ((watch_trigger hrow').2.1 hlost)
      simp [hr] at hnot
    obtain ⟨-, -, ⟨hnone, -⟩ | ⟨state', ht, hrow', hs⟩⟩ :=
      VmAutoRecovery.triggerRecovery_of_not_attempts vmConfig hb (not_exists.1 ha)
    · simp [hrow] at hnone
    · obtain ⟨-, e, he⟩ := hl.late_rejected _ ((watch_trigger hrow').2.1 hlost)
      exact hs (h.of_getOrCreate ht).1 e he

theorem not_limited_of_migrated (h : s.Counted vmName) (hs : s.stage ≠ .trying)
    (hb : s.recovery.blocked = false)
    (hatt : s.recovery.Attempts pf (failing env error) vmName att) :
    ¬ (s.watch pf vmName vmConfig (.trigger env error)).Limited := by
  intro hl
  obtain ⟨hr, -, state, hrow, -⟩ :=
    VmAutoRecovery.triggerRecovery_of_attempts vmConfig hb rfl rfl hatt
  obtain ⟨hc, -, hp⟩ := watch_trigger hrow
  have hle := hl.restarts_le
  rw [hc, hp, hr, h.usedUp hs, Bool.toNat_true] at hle
  omega

theorem not_limited_watch (s : WatchedRecovery) (event : RecoveryEvent) (h : s.Counted vmName)
    (hlate : ¬ s.InTime pf vmName event) : ¬ (s.watch pf vmName vmConfig event).Limited := by
  cases event with
  | trigger env error =>
    unfold InTime at hlate
    cases hs : s.stage with
    | trying => simp [hs] at hlate
    | migrated =>
      simp only [hs, not_or, not_forall, not_not, Bool.not_eq_true] at hlate
      obtain ⟨hb, att, hatt⟩ := hlate
      exact not_limited_of_migrated h (by simp [hs]) hb hatt
    | lost => exact not_limited_of_lost h hs env error
  | abandon => exact absurd trivial hlate
  | reset => exact absurd trivial hlate

/-- **Restarts are limited, and end with recovery**, exactly if no trigger comes after recovery has
    failed for good, and none restarts a migrated machine. -/
theorem limited_iff (pf : RecoveryPlatform) (nodeId : ℕ) (policy : RecoveryPolicy)
    (vmName : String) (vmConfig : VmConfig) (events : List RecoveryEvent) :
    (∀ s ∈ events.scanl (watch pf vmName vmConfig) (start (.new nodeId policy)), s.Limited) ↔
      Run.Along (watch pf vmName vmConfig) (InTime pf vmName) (start (.new nodeId policy))
        events := by
  have hstart : (start (.new nodeId policy)).Counted vmName :=
    counted_start rfl Std.ExtTreeMap.getElem?_empty
  exact Run.holds_iff_along counted_watch (fun _ h => h.limited) not_limited_watch hstart

def fourTriggers : List RecoveryEvent :=
  [60, 70, 90, 130].map fun seconds =>
    .trigger (.aloneAt (seconds * 10 ^ 9)) (.vmOperationFailed "start" "exit status 1")

/-- **A fourth restart**: with the default policy there is no node to migrate to after the third
    restart, and the next trigger restarts the machine once more. -/
theorem restarted_after_failure :
    ∃ s ∈ fourTriggers.scanl (watch .doubling "web" {}) (start (.new 1 .default)),
      max 1 s.recovery.policy.maxRestartAttempts < s.restarts ∧
        ∃ o ∈ s.late, o.restarted = true := by
  refine ⟨_, Run.foldl_mem_scanl _ _, ?_⟩
  decide +kernel

end WatchedRecovery

end Blixard
