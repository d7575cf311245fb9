/-
  The circuit breaker (`patterns/circuit_breaker.rs`), and calls through it that overlap.

  The first call after the reset timeout is admitted but not counted against
  `half_open_max_calls` (`period_le_iff`).  A breaker can also get stuck; `admits_later` is the
  condition under which it does not.  Ratios of counters are exact, where the source divides
  floats.
-/
import Blixard.IpPool.Config
import Blixard.Lib.Run

namespace Blixard

/-! ## The breaker -/

inductive CircuitBreakerState where
  | closed | opened | halfOpen
  deriving DecidableEq

/-- The part of the configuration that decides about calls; durations and instants are in
    nanoseconds. -/
structure CircuitBreakerConfig where
  failureThreshold : ℕ
  resetTimeout : ℕ
  halfOpenMaxCalls : ℕ
  minimumRequestThreshold : ℕ
  successThresholdRatio : ℚ
  isCircuitBreakingError : BlixardError → Bool

def defaultCircuitBreakingErrorCheck : BlixardError → Bool
  | .networkError _ | .connectionError _ _ | .timeout _ _ | .temporaryFailure _
  | .resourceExhausted _ | .resourceUnavailable _ _ => true
  | _ => false

def CircuitBreakerConfig.default : CircuitBreakerConfig where
  failureThreshold := 5
  resetTimeout := 60 * 10 ^ 9
  halfOpenMaxCalls := 3
  minimumRequestThreshold := 10
  successThresholdRatio := 4 / 5
  isCircuitBreakingError := defaultCircuitBreakingErrorCheck

structure CircuitBreaker where
  name : String
  config : CircuitBreakerConfig
  state : CircuitBreakerState
  consecutiveFailures : ℕ
  halfOpenCalls : ℕ
  lastOpenedAt : Option ℕ
  lastClosedAt : Option ℕ
  lastFailureAt : Option ℕ
  lastSuccessAt : Option ℕ
  totalCalls : ℕ
  successfulCalls : ℕ
  failedCalls : ℕ
  rejectedCalls : ℕ

namespace CircuitBreaker

def new (name : String) (config : CircuitBreakerConfig) : CircuitBreaker :=
  ⟨name, config, .closed, 0, 0, none, none, none, none, 0, 0, 0, 0⟩

def bump (counter : ℕ) : ℕ := (counter + 1) % 2 ^ 64

variable (pf : Platform) (b : CircuitBreaker)

def resetTimeoutPassed (now : ℕ) : Bool :=
  match b.lastOpenedAt with
  | some openedAt => b.config.resetTimeout ≤ now - openedAt
  | none => false

def shouldAllowRequest (now : ℕ) : CircuitBreaker × Bool :=
  match b.state with
  | .closed => (b, true)
  | .opened =>
    if b.resetTimeoutPassed now then ({ b with state := .halfOpen, halfOpenCalls := 0 }, true)
    else (b, false)
  | .halfOpen =>
    if b.halfOpenCalls < b.config.halfOpenMaxCalls then
      ({ b with halfOpenCalls := b.halfOpenCalls + 1 }, true)
    else (b, false)

/-- Whether the successful calls are a large enough part of all.  A quotient by zero is
    infinite, or not a number. -/
def successRatioMet : Bool :=
  if b.totalCalls = 0 then 0 < b.successfulCalls
  else b.config.successThresholdRatio ≤ (b.successfulCalls : ℚ) / b.totalCalls

def closesOnSuccess : Bool :=
  b.config.minimumRequestThreshold ≤ b.totalCalls && b.successRatioMet

/-- The part of `on_success` under the lock; `clock` has its readings in their order. -/
def onSuccess (clock : ℕ → ℕ) : CircuitBreaker :=
  let b := { b with consecutiveFailures := 0, lastSuccessAt := some (clock 0) }
  if b.state = .halfOpen ∧ b.closesOnSuccess then
    { b with state := .closed, lastClosedAt := some (clock 1) }
  else b

def onFailure (clock : ℕ → ℕ) : CircuitBreaker × Except Failure Unit :=
  match pf.addUnsigned 32 b.consecutiveFailures 1 with
  | .error failure => (b, .error failure)
  | .ok consecutiveFailures =>
    let b := { b with consecutiveFailures, lastFailureAt := some (clock 0) }
    let b :=
      if b.config.failureThreshold ≤ b.consecutiveFailures ∧ b.state ≠ .opened then
        { b with state := .opened, lastOpenedAt := some (clock 1) }
      else b
    if b.state = .halfOpen then
      ({ b with state := .opened, lastOpenedAt := some (clock 2), halfOpenCalls := 0 }, .ok ())
    else (b, .ok ())

def countOutcome : Except BlixardError Unit → CircuitBreaker
  | .ok () => { b with successfulCalls := bump b.successfulCalls }
  | .error e =>
    if b.config.isCircuitBreakingError e then { b with failedCalls := bump b.failedCalls } else b

/-- A call that no other call interrupts; `result` is what the operation came to, which may
    be a timeout. -/
def call (now : ℕ) (clock : ℕ → ℕ) (result : Except BlixardError Unit) :
    CircuitBreaker × Except Failure Unit :=
  match b.shouldAllowRequest now with
  | (b, false) =>
    ({ b with rejectedCalls := bump b.rejectedCalls },
      .error (.error (.temporaryFailure s!"Circuit breaker '{b.name}' is open")))
  | (b, true) =>
    let b := { b with totalCalls := bump b.totalCalls }.countOutcome result
    match result with
    | .ok () => (b.onSuccess clock, .ok ())
    | .error e =>
      if b.config.isCircuitBreakingError e then
        match b.onFailure pf clock with
        | (b, .error failure) => (b, .error failure)
        | (b, .ok ()) => (b, .error (.error e))
      else (b, .error (.error e))

def forceOpen (now : ℕ) : CircuitBreaker := { b with state := .opened, lastOpenedAt := some now }

def forceClose (now : ℕ) : CircuitBreaker :=
  { b with state := .closed, consecutiveFailures := 0, lastClosedAt := some now }

def resetStats : CircuitBreaker :=
  { new b.name b.config with state := b.state }

end CircuitBreaker

/-! ## Calls that overlap -/

/-- A breaker with the calls in flight, by how far they are. -/
structure BreakerTraffic where
  breaker : CircuitBreaker
  admitted : ℕ
  running : ℕ
  /-- The operation succeeded, and `on_success` waits for the lock. -/
  succeeding : ℕ
  /-- The operation failed with a breaking error, and `on_failure` waits for the lock. -/
  failing : ℕ

inductive CallStep where
  | request (now : ℕ)
  | count
  | outcome (result : Except BlixardError Unit)
  | onSuccess (clock : ℕ → ℕ)
  | onFailure (clock : ℕ → ℕ)

inductive BreakerEvent where
  | call (step : CallStep)
  | forceOpen (now : ℕ)
  | forceClose (now : ℕ)
  | resetStats

namespace BreakerTraffic

def idle (breaker : CircuitBreaker) : BreakerTraffic := ⟨breaker, 0, 0, 0, 0⟩

variable (pf : Platform) (t : BreakerTraffic)

def inFlight : ℕ := t.admitted + t.running + t.succeeding + t.failing

def callStep : CallStep → BreakerTraffic
  | .request now =>
    match t.breaker.shouldAllowRequest now with
    | (breaker, true) => { t with breaker, admitted := t.admitted + 1 }
    | (breaker, false) =>
      { t with breaker :=
          { breaker with rejectedCalls := CircuitBreaker.bump breaker.rejectedCalls } }
  | .count =>
    if t.admitted = 0 then t
    else { t with
      breaker := { t.breaker with totalCalls := CircuitBreaker.bump t.breaker.totalCalls }
      admitted := t.admitted - 1
      running := t.running + 1 }
  | .outcome result =>
    if t.running = 0 then t
    else
      let breaker := t.breaker.countOutcome result
      let t := { t with breaker, running := t.running - 1 }
      match result with
      | .ok () => { t with succeeding := t.succeeding + 1 }
      | .error e =>
        if breaker.config.isCircuitBreakingError e then { t with failing := t.failing + 1 } else t
  | .onSuccess clock =>
    if t.succeeding = 0 then t
    else { t with breaker := t.breaker.onSuccess clock, succeeding := t.succeeding - 1 }
  | .onFailure clock =>
    if t.failing = 0 then t
    else { t with breaker := (t.breaker.onFailure pf clock).1, failing := t.failing - 1 }

def step : BreakerEvent → BreakerTraffic
  | .call s => t.callStep pf s
  | .forceOpen now => { t with breaker := t.breaker.forceOpen now }
  | .forceClose now => { t with breaker := t.breaker.forceClose now }
  | .resetStats => { t with breaker := t.breaker.resetStats }

def stepsOf (now : ℕ) (clock : ℕ → ℕ) : Except BlixardError Unit → List CallStep
  | .ok () => [.request now, .count, .outcome (.ok ()), .onSuccess clock]
  | .error e => [.request now, .count, .outcome (.error e), .onFailure clock]

/-- A call whose steps no other call comes between is `call`. -/
theorem foldl_stepsOf (b : CircuitBreaker) (now : ℕ) (clock : ℕ → ℕ)
    (res : Except BlixardError Unit) : (stepsOf now clock res).foldl (callStep pf) (idle b) =
      idle (b.call pf now clock res).1 := by
  rcases ha : b.shouldAllowRequest now with ⟨b', _ | _⟩
  · cases res <;> simp [stepsOf, CircuitBreaker.call, callStep, idle, ha]
  cases res with
  | ok => simp [stepsOf, CircuitBreaker.call, callStep, idle, ha]
  | error e =>
    by_cases hb : b'.config.isCircuitBreakingError e
    · rcases hfail : ({ b' with
          totalCalls := CircuitBreaker.bump b'.totalCalls
          failedCalls := CircuitBreaker.bump b'.failedCalls } : CircuitBreaker).onFailure pf clock
        with ⟨b'', _ | _⟩ <;>
      simp [stepsOf, CircuitBreaker.call, callStep, idle, ha, CircuitBreaker.countOutcome,
        hb, hfail]
    · simp [stepsOf, CircuitBreaker.call, callStep, idle, ha, CircuitBreaker.countOutcome,
        hb]

end BreakerTraffic

/-! ## What the steps do to the breaker -/

namespace CircuitBreaker

/-- The breaker is half-open after the step only if it was before, and then with the same
    count. -/
structure Quiet (b b' : CircuitBreaker) : Prop where
  config : b'.config = b.config
  halfOpen : b'.state = .halfOpen → b.state = .halfOpen ∧ b'.halfOpenCalls = b.halfOpenCalls

def KnowsOpening (b : CircuitBreaker) : Prop := b.state = .opened → b.lastOpenedAt.isSome

variable {pf : Platform} {b : CircuitBreaker} {clock : ℕ → ℕ}

theorem shouldAllowRequest_cases (b : CircuitBreaker) (now : ℕ) :
    (b.state = .closed ∧ b.shouldAllowRequest now = (b, true)) ∨
      (b.state = .opened ∧ b.resetTimeoutPassed now = true ∧
        b.shouldAllowRequest now = ({ b with state := .halfOpen, halfOpenCalls := 0 }, true)) ∨
      (b.state = .opened ∧ b.resetTimeoutPassed now = false ∧
        b.shouldAllowRequest now = (b, false)) ∨
      (b.state = .halfOpen ∧ b.halfOpenCalls < b.config.halfOpenMaxCalls ∧
        b.shouldAllowRequest now = ({ b with halfOpenCalls := b.halfOpenCalls + 1 }, true)) ∨
      (b.state = .halfOpen ∧ b.config.halfOpenMaxCalls ≤ b.halfOpenCalls ∧
        b.shouldAllowRequest now = (b, false)) := by
  unfold shouldAllowRequest
  cases hs : b.state with
  | closed => simp
  | opened => cases hp : b.resetTimeoutPassed now <;> simp
  | halfOpen =>
    rcases Nat.lt_or_ge b.halfOpenCalls b.config.halfOpenMaxCalls with hlt | hge
    · simp [hlt]
    · simp [hge, Nat.not_lt_of_le hge]

theorem quiet_onSuccess : b.Quiet (b.onSuccess clock) := by
  unfold onSuccess
  dsimp only
  split_ifs
  · exact ⟨rfl, by simp⟩
  · exact ⟨rfl, fun h => ⟨h, rfl⟩⟩

theorem quiet_onFailure : b.Quiet (b.onFailure pf clock).1 := by
  unfold onFailure
  split
  · exact ⟨rfl, fun h => ⟨h, rfl⟩⟩
  dsimp only
  split_ifs with hmany hopen hopen
  · exact ⟨rfl, by simp⟩
  · exact ⟨rfl, by simp⟩
  · exact ⟨rfl, by simp⟩
  · exact ⟨rfl, fun h => absurd h hopen⟩

theorem quiet_countOutcome (res : Except BlixardError Unit) : b.Quiet (b.countOutcome res) := by
  cases res with
  | ok => exact ⟨rfl, fun h => ⟨h, rfl⟩⟩
  | error e =>
    simp only [countOutcome]
    split_ifs <;> exact ⟨rfl, fun h => ⟨h, rfl⟩⟩

theorem knowsOpening_onSuccess (h : b.KnowsOpening) : (b.onSuccess clock).KnowsOpening := by
  unfold onSuccess
  dsimp only
  split_ifs
  · simp [KnowsOpening]
  · exact h

theorem knowsOpening_onFailure (h : b.KnowsOpening) : (b.onFailure pf clock).1.KnowsOpening := by
  unfold onFailure
  split
  · exact h
  dsimp only
  split_ifs
  · simp [KnowsOpening]
  · simp [KnowsOpening]
  · simp [KnowsOpening]
  · exact h

theorem onFailure_not_halfOpen (h : pf.overflowChecks → b.consecutiveFailures + 1 < 2 ^ 32) :
    (b.onFailure pf clock).1.state ≠ .halfOpen := by
  have hadd : pf.addUnsigned 32 b.consecutiveFailures 1 =
      .ok ((b.consecutiveFailures + 1) % 2 ^ 32) :=
    Platform.addUnsigned_eq_ok.2 ⟨rfl, h⟩
  simp only [onFailure, hadd]
  split_ifs <;> simp_all

end CircuitBreaker

/-! ## Half-open periods -/

/-- A breaker with the number of calls that were admitted in the current half-open period,
    counting the one that began it. -/
structure WatchedBreaker where
  traffic : BreakerTraffic
  period : ℕ

namespace WatchedBreaker

def start (name : String) (config : CircuitBreakerConfig) : WatchedBreaker :=
  ⟨.idle (.new name config), 0⟩

def admissions (t : BreakerTraffic) : CallStep → ℕ
  | .request now => (t.breaker.shouldAllowRequest now).2.toNat
  | _ => 0

def watch (pf : Platform) (w : WatchedBreaker) (s : CallStep) : WatchedBreaker :=
  let traffic := w.traffic.callStep pf s
  let before := if w.traffic.breaker.state = .halfOpen then w.period else 0
  ⟨traffic, if traffic.breaker.state = .halfOpen then before + admissions w.traffic s else 0⟩

/-- The step asks for no call beyond the permitted ones: a half-open breaker admits the call
    that began the period besides those that it counts. -/
def WithinPermits (w : WatchedBreaker) : CallStep → Prop
  | .request now =>
    let b := w.traffic.breaker
    (b.state = .opened → b.resetTimeoutPassed now → b.config.halfOpenMaxCalls ≠ 0) ∧
      (b.state = .halfOpen → b.halfOpenCalls + 1 ≠ b.config.halfOpenMaxCalls)
  | _ => True

structure Tallied (config : CircuitBreakerConfig) (w : WatchedBreaker) : Prop where
  config : w.traffic.breaker.config = config
  period : w.period =
    if w.traffic.breaker.state = .halfOpen then w.traffic.breaker.halfOpenCalls + 1 else 0

variable {pf : Platform} {config : CircuitBreakerConfig} {w : WatchedBreaker}

theorem tallied_of_quiet (h : w.Tallied config) {s : CallStep} (hnone : admissions w.traffic s = 0)
    (hq : w.traffic.breaker.Quiet (w.traffic.callStep pf s).breaker) :
    (w.watch pf s).Tallied config ∧ (w.watch pf s).period ≤ w.period := by
  have hc := hq.halfOpen
  have hp := h.period
  refine ⟨⟨hq.config.trans h.config, ?_⟩, ?_⟩
  · simp only [watch, hnone]
    split_ifs with ha hpre
    · rw [if_pos hpre] at hp
      rw [hp, (hc ha).2]
    · exact absurd (hc ha).1 hpre
    · rfl
  · simp only [watch, hnone]
    split_ifs <;> omega

theorem quiet_callStep {t : BreakerTraffic} {s : CallStep} (hs : ∀ now, s ≠ .request now) :
    t.breaker.Quiet (t.callStep pf s).breaker := by
  have hsame : t.breaker.Quiet t.breaker := ⟨rfl, fun h => ⟨h, rfl⟩⟩
  cases s with
  | request now => exact absurd rfl (hs now)
  | count =>
    simp only [BreakerTraffic.callStep]
    split_ifs
    · exact hsame
    · exact ⟨rfl, fun h => ⟨h, rfl⟩⟩
  | outcome res =>
    have hq := @CircuitBreaker.quiet_countOutcome t.breaker res
    simp only [BreakerTraffic.callStep]
    split_ifs
    · exact hsame
    cases res with
    | ok => exact hq
    | error e =>
      dsimp only
      split_ifs <;> exact hq
  | onSuccess clock =>
    simp only [BreakerTraffic.callStep]
    split_ifs
    · exact hsame
    · exact CircuitBreaker.quiet_onSuccess
  | onFailure clock =>
    simp only [BreakerTraffic.callStep]
    split_ifs
    · exact hsame
    · exact CircuitBreaker.quiet_onFailure

theorem watch_request (h : w.Tallied config) (now : ℕ) :
    (w.watch pf (.request now)).Tallied config ∧
      (w.period ≤ config.halfOpenMaxCalls →
        ((w.watch pf (.request now)).period ≤ config.halfOpenMaxCalls ↔
          w.WithinPermits (.request now))) := by
  obtain ⟨hc, hp⟩ := h
  rcases w.traffic.breaker.shouldAllowRequest_cases now with ⟨hs, ha⟩ |
    ⟨hs, hd, ha⟩ | ⟨hs, hd, ha⟩ | ⟨hs, hless, ha⟩ |
    ⟨hs, hmost, ha⟩
  · refine ⟨⟨?_, ?_⟩, fun _ => ?_⟩ <;>
      simp [watch, WithinPermits, BreakerTraffic.callStep, ha, hs, hc]
  · have hf : (w.watch pf (.request now)).period = 1 := by
      simp [watch, admissions, BreakerTraffic.callStep, ha, hs]
    have hm : w.WithinPermits (.request now) ↔ config.halfOpenMaxCalls ≠ 0 := by
      simp [WithinPermits, hs, hd, hc]
    refine ⟨⟨?_, ?_⟩, fun _ => ?_⟩
    · simp [watch, BreakerTraffic.callStep, ha, hc]
    · rw [hf]
      simp [watch, BreakerTraffic.callStep, ha]
    · rw [hf, hm]
      exact Nat.one_le_iff_ne_zero
  · refine ⟨⟨?_, ?_⟩, fun _ => ?_⟩ <;>
      simp [watch, WithinPermits, BreakerTraffic.callStep, ha, hs, hd, hc]
  · rw [if_pos hs] at hp
    rw [hc] at hless
    have hnext : (w.watch pf (.request now)).period = w.period + 1 := by
      simp [watch, admissions, BreakerTraffic.callStep, ha, hs]
    have hm : w.WithinPermits (.request now) ↔
        w.traffic.breaker.halfOpenCalls + 1 ≠ config.halfOpenMaxCalls := by
      simp [WithinPermits, hs, hc]
    refine ⟨⟨?_, ?_⟩, fun hw => ?_⟩
    · simp [watch, BreakerTraffic.callStep, ha, hc]
    · rw [hnext, hp]
      simp [watch, BreakerTraffic.callStep, ha, hs]
    · rw [hnext, hm, hp]
      omega
  · rw [if_pos hs] at hp
    rw [hc] at hmost
    refine ⟨⟨?_, ?_⟩, fun hw => ?_⟩
    · simp [watch, BreakerTraffic.callStep, ha, hc]
    · simp [watch, admissions, BreakerTraffic.callStep, ha, hs, hp]
    · omega

theorem watch_tallied (h : w.Tallied config) (s : CallStep) : (w.watch pf s).Tallied config ∧
      (w.period ≤ config.halfOpenMaxCalls →
        ((w.watch pf s).period ≤ config.halfOpenMaxCalls ↔ w.WithinPermits s)) := by
  by_cases hr : ∃ now, s = .request now
  · obtain ⟨now, rfl⟩ := hr
    exact watch_request h now
  have ho : ∀ now, s ≠ .request now := fun now hs => hr ⟨now, hs⟩
  have hnone : admissions w.traffic s = 0 := by
    cases s with
    | request now => exact absurd rfl (ho now)
    | _ => rfl
  have hfree : w.WithinPermits s := by
    cases s with
    | request now => exact absurd rfl (ho now)
    | _ => trivial
  obtain ⟨ht, hle⟩ := @tallied_of_quiet pf config w h s hnone (quiet_callStep ho)
  exact ⟨ht, fun hpre => ⟨fun _ => hfree, fun _ => hle.trans hpre⟩⟩

/-- **Calls of a half-open period**: at most `half_open_max_calls` are admitted in each of
    them, exactly if no step asks for one call more. -/
theorem period_le_iff (pf : Platform) (name : String) (config : CircuitBreakerConfig)
    (steps : List CallStep) :
    (∀ w ∈ steps.scanl (watch pf) (start name config), w.period ≤ config.halfOpenMaxCalls) ↔
      Run.Along (watch pf) WithinPermits (start name config) steps := by
  let Inv (w : WatchedBreaker) : Prop := w.Tallied config ∧ w.period ≤ config.halfOpenMaxCalls
  have hkeep : ∀ w s, Inv w → WithinPermits w s → Inv (w.watch pf s) := by
    intro w s hw hs
    obtain ⟨htallied, hiff⟩ := @watch_tallied pf config w hw.1 s
    exact ⟨htallied, (hiff hw.2).2 hs⟩
  have hbreaks : ∀ w s, Inv w → ¬ WithinPermits w s →
      ¬ (w.watch pf s).period ≤ config.halfOpenMaxCalls := by
    intro w s hw hs hle
    exact hs (((@watch_tallied pf config w hw.1 s).2 hw.2).1 hle)
  have hstart : Inv (start name config) := ⟨⟨rfl, rfl⟩, Nat.zero_le _⟩
  exact Run.holds_iff_along hkeep (fun w hw => hw.2) hbreaks hstart

/-- Five failures open a breaker, and a minute later calls are asked for again. -/
def probing (calls : ℕ) : List CallStep :=
  (List.replicate 5 (BreakerTraffic.stepsOf 0 (fun _ => 0)
    (.error (.networkError "connection refused")))).flatten ++
  List.replicate calls (.request (60 * 10 ^ 9))

/-- The default permits three calls, and four are admitted. -/
theorem four_calls_in_period :
    ¬ ∀ (pf : Platform) (name : String) (config : CircuitBreakerConfig) (steps : List CallStep),
      ∀ w ∈ steps.scanl (watch pf) (start name config), w.period ≤ config.halfOpenMaxCalls := by
  intro h
  have hle := h .release "api" .default (probing 4) _ (Run.foldl_mem_scanl _ _)
  have hfour : ((probing 4).foldl (watch .release) (start "api" .default)).period = 4 := by
    decide +kernel
  rw [hfour] at hle
  exact absurd hle (by decide)

end WatchedBreaker

/-! ## Stuck breakers -/

namespace BreakerTraffic

/-- The breaker is half-open with no call left to admit, and one call is in flight. -/
def AtLastCall (t : BreakerTraffic) : Prop :=
  t.breaker.state = .halfOpen ∧ t.breaker.config.halfOpenMaxCalls ≤ t.breaker.halfOpenCalls ∧
    t.inFlight = 1

/-- Statistics are not reset while the breaker is open, and the last call of a used-up half-open
    period fails with a breaking error or closes the breaker. -/
def EndsPeriod (pf : Platform) (t : BreakerTraffic) : BreakerEvent → Prop
  | .call (.outcome (.error e)) =>
    t.AtLastCall → 0 < t.running → t.breaker.config.isCircuitBreakingError e
  | .call (.onSuccess _) => t.AtLastCall → 0 < t.succeeding → t.breaker.closesOnSuccess
  | .call (.onFailure _) =>
    t.AtLastCall → 0 < t.failing → pf.overflowChecks →
      t.breaker.consecutiveFailures + 1 < 2 ^ 32
  | .resetStats => t.breaker.state ≠ .opened
  | _ => True

structure Unstuck (t : BreakerTraffic) : Prop where
  opening : t.breaker.KnowsOpening
  halfOpen : t.breaker.state = .halfOpen →
    t.breaker.config.halfOpenMaxCalls ≤ t.breaker.halfOpenCalls → 0 < t.inFlight

variable {pf : Platform} {t t' : BreakerTraffic}

theorem Unstuck.of_quiet (h : t.Unstuck) (ho : t'.breaker.KnowsOpening)
    (hq : t.breaker.Quiet t'.breaker)
    (hc : t'.breaker.state = .halfOpen → t.inFlight ≤ t'.inFlight ∨
      t.inFlight ≤ t'.inFlight + 1 ∧ ¬ t.AtLastCall) : t'.Unstuck := by
  refine ⟨ho, fun hs hmost => ?_⟩
  obtain ⟨hpre, hn⟩ := hq.halfOpen hs
  rw [hq.config, hn] at hmost
  have hpos := h.halfOpen hpre hmost
  rcases hc hs with hle | ⟨hle, hnot⟩
  · omega
  · have hmany : t.inFlight ≠ 1 := fun hone => hnot ⟨hpre, hmost, hone⟩
    omega

theorem unstuck_request (h : t.Unstuck) (now : ℕ) : (t.callStep pf (.request now)).Unstuck := by
  rcases t.breaker.shouldAllowRequest_cases now with ⟨hs, ha⟩ |
    ⟨hs, hp, ha⟩ | ⟨hs, hp, ha⟩ | ⟨hs, hless, ha⟩ |
    ⟨hs, hmost, ha⟩ <;> simp only [callStep, ha]
  · exact ⟨h.opening, fun hhalf => by simp [hs] at hhalf⟩
  · exact ⟨by simp [CircuitBreaker.KnowsOpening], fun _ _ => by simp [inFlight]⟩
  · exact ⟨h.opening, fun hhalf => by simp [hs] at hhalf⟩
  · exact ⟨by simp [CircuitBreaker.KnowsOpening, hs], fun _ _ => by simp [inFlight]⟩
  · exact ⟨h.opening, h.halfOpen⟩

theorem unstuck_outcome (h : t.Unstuck) {res : Except BlixardError Unit}
    (hs : t.EndsPeriod pf (.call (.outcome res))) : (t.callStep pf (.outcome res)).Unstuck := by
  have hq := @CircuitBreaker.quiet_countOutcome t.breaker res
  have ho : (t.breaker.countOutcome res).KnowsOpening := by
    cases res with
    | ok => exact h.opening
    | error e =>
      simp only [CircuitBreaker.countOutcome]
      split_ifs <;> exact h.opening
  simp only [callStep]
  split_ifs with hnone
  · exact h
  have hpos := Nat.pos_of_ne_zero hnone
  cases res with
  | ok => exact h.of_quiet ho hq fun _ => .inl (by simp [inFlight]; omega)
  | error e =>
    dsimp only
    split_ifs with hb
    · exact h.of_quiet ho hq fun _ => .inl (by simp [inFlight]; omega)
    · rw [hq.config] at hb
      refine h.of_quiet ho hq fun _ => .inr ⟨by simp [inFlight]; omega, fun hlast => ?_⟩
      exact hb (hs hlast hpos)

variable {clock : ℕ → ℕ}

theorem unstuck_onSuccess (h : t.Unstuck) (hs : t.EndsPeriod pf (.call (.onSuccess clock))) :
    (t.callStep pf (.onSuccess clock)).Unstuck := by
  simp only [callStep]
  split_ifs with hnone
  · exact h
  have hpos := Nat.pos_of_ne_zero hnone
  refine h.of_quiet (CircuitBreaker.knowsOpening_onSuccess h.opening)
    CircuitBreaker.quiet_onSuccess fun ht => .inr ⟨by simp [inFlight]; omega, fun hlast => ?_⟩
  have hc := hs hlast hpos
  simp [CircuitBreaker.onSuccess, hlast.1, CircuitBreaker.closesOnSuccess,
    CircuitBreaker.successRatioMet] at ht hc
  simp_all

theorem unstuck_onFailure (h : t.Unstuck) (hs : t.EndsPeriod pf (.call (.onFailure clock))) :
    (t.callStep pf (.onFailure clock)).Unstuck := by
  simp only [callStep]
  split_ifs with hnone
  · exact h
  have hpos := Nat.pos_of_ne_zero hnone
  refine h.of_quiet (CircuitBreaker.knowsOpening_onFailure h.opening)
    CircuitBreaker.quiet_onFailure fun ht => .inr ⟨by simp [inFlight]; omega, fun hlast => ?_⟩
  exact CircuitBreaker.onFailure_not_halfOpen (hs hlast hpos) ht

theorem unstuck_step (t : BreakerTraffic) (e : BreakerEvent) (h : t.Unstuck)
    (hs : t.EndsPeriod pf e) : (t.step pf e).Unstuck := by
  cases e with
  | call s =>
    cases s with
    | request now => exact @unstuck_request pf t h now
    | count =>
      simp only [step, callStep]
      split_ifs with hnone
      · exact h
      · refine h.of_quiet h.opening ⟨rfl, fun ht => ⟨ht, rfl⟩⟩ fun _ => .inl ?_
        simp [inFlight]
        omega
    | outcome res => exact unstuck_outcome h hs
    | onSuccess clock => exact unstuck_onSuccess h hs
    | onFailure clock => exact unstuck_onFailure h hs
  | forceOpen now => exact ⟨fun _ => rfl, by simp [step, CircuitBreaker.forceOpen]⟩
  | forceClose now =>
    exact ⟨by simp [step, CircuitBreaker.forceClose, CircuitBreaker.KnowsOpening],
      by simp [step, CircuitBreaker.forceClose]⟩
  | resetStats =>
    refine ⟨fun ho => absurd ho hs, fun ht hmost => ?_⟩
    -- a breaker that permits no call is half-open only while the first call is in flight
    exact h.halfOpen ht (Nat.le_trans hmost (Nat.zero_le _))

theorem Unstuck.admits (h : t.Unstuck) (hnone : t.inFlight = 0) (earliest : ℕ) :
    ∃ now, earliest ≤ now ∧ (t.breaker.shouldAllowRequest now).2 = true := by
  cases hs : t.breaker.state with
  | closed => exact ⟨earliest, le_rfl, by simp [CircuitBreaker.shouldAllowRequest, hs]⟩
  | opened =>
    obtain ⟨openedAt, ho⟩ := Option.isSome_iff_exists.1 (h.opening hs)
    refine ⟨earliest + openedAt + t.breaker.config.resetTimeout, by omega, ?_⟩
    have hp : t.breaker.resetTimeoutPassed
        (earliest + openedAt + t.breaker.config.resetTimeout) = true := by
      simp [CircuitBreaker.resetTimeoutPassed, ho]
      omega
    simp [CircuitBreaker.shouldAllowRequest, hs, hp]
  | halfOpen =>
    refine ⟨earliest, le_rfl, ?_⟩
    have hless : t.breaker.halfOpenCalls < t.breaker.config.halfOpenMaxCalls := by
      by_contra hmost
      have hpos := h.halfOpen hs (Nat.le_of_not_lt hmost)
      omega
    simp [CircuitBreaker.shouldAllowRequest, hs, hless]

/-- **No stuck breaker**: in every run whose steps end their periods, a state without calls in
    flight admits a call at some later time. -/
theorem admits_later (pf : Platform) (name : String) (config : CircuitBreakerConfig)
    (run : List BreakerEvent)
    (hends : Run.Along (step pf) (EndsPeriod pf) (idle (.new name config)) run) :
    ∀ t ∈ run.scanl (step pf) (idle (.new name config)), t.inFlight = 0 →
      ∀ earliest, ∃ now, earliest ≤ now ∧ (t.breaker.shouldAllowRequest now).2 = true := by
  intro t ht hnone
  have hstart : (idle (.new name config)).Unstuck := by
    constructor <;> simp [idle, CircuitBreaker.new, CircuitBreaker.KnowsOpening]
  exact (Run.invariant unstuck_step hstart hends t ht).admits hnone

def quickToClose : CircuitBreakerConfig :=
  { CircuitBreakerConfig.default with
    halfOpenMaxCalls := 1, minimumRequestThreshold := 1, successThresholdRatio := 1 / 2 }

/-- Such a breaker is opened by hand, and two calls overlap a minute later. -/
def reopening : List BreakerEvent :=
  .forceOpen 0 ::
    ([.request (60 * 10 ^ 9), .request (60 * 10 ^ 9), .count, .count,
      .outcome (.error (.notFound "vm")), .outcome (.ok ()),
      .onSuccess fun _ => 60 * 10 ^ 9] : List CallStep).map .call

theorem admits_after_reopening :
    Run.Along (step .release) (EndsPeriod .release) (idle (.new "api" quickToClose)) reopening ∧
      ∀ t ∈ reopening.scanl (step .release) (idle (.new "api" quickToClose)), t.inFlight = 0 →
        ∀ earliest, ∃ now, earliest ≤ now ∧ (t.breaker.shouldAllowRequest now).2 = true := by
  have hends : Run.Along (step .release) (EndsPeriod .release) (idle (.new "api" quickToClose))
      reopening := by
    refine ⟨trivial, trivial, trivial, trivial, trivial, fun hlast => ?_, trivial, fun _ _ => ?_,
      trivial⟩
    · -- two calls are in flight
      exact absurd hlast.2.2 (by decide +kernel)
    · decide +kernel
  exact ⟨hends, admits_later .release "api" quickToClose reopening hends⟩

/-- Five failures, and four calls a minute later that succeed one after another. -/
def recovering : List BreakerEvent :=
  ((List.replicate 5 (stepsOf 0 (fun _ => 0)
      (.error (.networkError "connection refused")))).flatten ++
    (List.replicate 4 (stepsOf (60 * 10 ^ 9) (fun _ => 60 * 10 ^ 9) (.ok ()))).flatten).map .call

theorem not_admits_of_used_up (hs : t.breaker.state = .halfOpen)
    (hmost : t.breaker.config.halfOpenMaxCalls ≤ t.breaker.halfOpenCalls) (now : ℕ) :
    (t.breaker.shouldAllowRequest now).2 = false := by
  simp [CircuitBreaker.shouldAllowRequest, hs, Nat.not_lt_of_le hmost]

/-- **A breaker that recovers is stuck**: by default the four half-open calls succeed as the sixth
    to the ninth, and less than ten calls close nothing. So is one opened by hand before a reset of
    its statistics. -/
theorem stuck_after_four_successes :
    (∃ t ∈ recovering.scanl (step .release) (idle (.new "api" .default)),
      t.inFlight = 0 ∧ ∀ now, (t.breaker.shouldAllowRequest now).2 = false) ∧
    ∃ t ∈ [.forceOpen 0, .resetStats].scanl (step .release) (idle (.new "api" .default)),
      t.inFlight = 0 ∧ ∀ now, (t.breaker.shouldAllowRequest now).2 = false := by
  refine ⟨⟨_, Run.foldl_mem_scanl _ _, by decide +kernel, fun now => ?_⟩,
    ⟨_, Run.foldl_mem_scanl _ _, by decide +kernel, fun now => rfl⟩⟩
  exact not_admits_of_used_up (by decide +kernel) (by decide +kernel) now

end BreakerTraffic

end Blixard
