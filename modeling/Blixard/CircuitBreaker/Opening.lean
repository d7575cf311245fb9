/-
  When the circuit breaker opens, and when it admits calls again (`patterns/circuit_breaker.rs`).

  Outcomes are recorded whatever the state has become since the call was admitted.  The
  count of consecutive failures is that of the breaking failures since the last success
  all the same, as long as the breaker is closed (`opens_and_reopens`).
-/
import Blixard.CircuitBreaker

namespace Blixard

open BreakerTraffic CircuitBreaker

namespace CircuitBreaker

variable {pf : Platform} {b : CircuitBreaker} {clock : ℕ → ℕ}

/-- **What `on_failure` does**: the count grows while it fits, and the breaker stays as it is
    or is opened, with the reading of the clock that opens it. -/
theorem onFailure_cases (pf : Platform) (b : CircuitBreaker) (clock : ℕ → ℕ) :
    let b' := (b.onFailure pf clock).1
    (b.consecutiveFailures + 1 < 2 ^ 32 → b'.consecutiveFailures = b.consecutiveFailures + 1 ∧
      (b.state = .closed →
        (b'.state ≠ .closed ↔ b.config.failureThreshold ≤ b.consecutiveFailures + 1))) ∧
    (b'.state = b.state ∧ b'.lastOpenedAt = b.lastOpenedAt ∨
      b.state ≠ .opened ∧ b'.state = .opened ∧ b'.lastOpenedAt =
        some (clock (if b.config.failureThreshold ≤ b'.consecutiveFailures then 1 else 2))) := by
  unfold onFailure
  dsimp only
  split
  · next fail hadd =>
    refine ⟨fun hlt => ?_, .inl ⟨rfl, rfl⟩⟩
    rw [Platform.addUnsigned_eq_ok.2 ⟨rfl, fun _ => hlt⟩] at hadd
    cases hadd
  · next count hadd =>
    have hc : b.consecutiveFailures + 1 < 2 ^ 32 → count = b.consecutiveFailures + 1 :=
      fun hlt => (Platform.addUnsigned_eq_ok.1 hadd).1.symm.trans (Nat.mod_eq_of_lt hlt)
    split_ifs <;> grind

theorem onSuccess_cases (b : CircuitBreaker) (clock : ℕ → ℕ) :
    (b.onSuccess clock).consecutiveFailures = 0 ∧
    (b.onSuccess clock).lastOpenedAt = b.lastOpenedAt ∧
    ((b.onSuccess clock).state = b.state ∨
      b.state = .halfOpen ∧ (b.onSuccess clock).state = .closed) := by
  unfold onSuccess
  dsimp only
  split_ifs with hc
  · exact ⟨rfl, rfl, .inr ⟨hc.1, rfl⟩⟩
  · exact ⟨rfl, rfl, .inl rfl⟩

end CircuitBreaker

/-- A breaker with the breaking failures that were completed since the last completed
    success, and when it was last opened. -/
structure BreakerHistory where
  traffic : BreakerTraffic
  failures : ℕ
  openedAt : Option ℕ

namespace BreakerHistory

def start (name : String) (config : CircuitBreakerConfig) : BreakerHistory :=
  ⟨.idle (.new name config), 0, none⟩

def failuresAfter (h : BreakerHistory) : CallStep → ℕ
  | .onSuccess _ => if h.traffic.succeeding = 0 then h.failures else 0
  | .onFailure _ => if h.traffic.failing = 0 then h.failures else h.failures + 1
  | _ => h.failures

/-- A failed call reads the clock for the last failure first, then where it reaches the
    threshold, then where the breaker was half-open. -/
def openedAtAfter (h : BreakerHistory) (b' : CircuitBreaker) : CallStep → Option ℕ
  | .onFailure clock =>
    if h.traffic.breaker.state ≠ .opened ∧ b'.state = .opened then
      some (clock (if b'.config.failureThreshold ≤ b'.consecutiveFailures then 1 else 2))
    else h.openedAt
  | _ => h.openedAt

def record (pf : Platform) (h : BreakerHistory) (s : CallStep) : BreakerHistory :=
  let traffic := h.traffic.callStep pf s
  ⟨traffic, h.failuresAfter s, h.openedAtAfter traffic.breaker s⟩

def ReachesThreshold (h : BreakerHistory) : CallStep → Prop
  | .onFailure _ => h.traffic.failing ≠ 0 ∧ h.failures + 1 = h.traffic.breaker.config.failureThreshold
  | _ => False

def AfterResetTimeout (h : BreakerHistory) : CallStep → Prop
  | .request now => ∃ openedAt, h.openedAt = some openedAt ∧
      h.traffic.breaker.config.resetTimeout ≤ now - openedAt
  | _ => False

/-- A closed breaker's step leaves the state exactly at the threshold, an open breaker's only
    after the reset timeout. -/
def Proper (pf : Platform) (h : BreakerHistory) (s : CallStep) : Prop :=
  let state := h.traffic.breaker.state
  let state' := (h.record pf s).traffic.breaker.state
  (state = .closed → (state' ≠ .closed ↔ h.ReachesThreshold s)) ∧
    (state = .opened → state' ≠ .opened → h.AfterResetTimeout s)

structure Counted (c : CircuitBreakerConfig) (h : BreakerHistory) : Prop where
  config : h.traffic.breaker.config = c
  closed : h.traffic.breaker.state = .closed →
    h.traffic.breaker.consecutiveFailures = h.failures ∧ h.failures < c.failureThreshold
  opened : h.traffic.breaker.state = .opened → h.traffic.breaker.lastOpenedAt = h.openedAt

variable {pf : Platform} {c : CircuitBreakerConfig} {h : BreakerHistory} {s : CallStep}

/-- What a step may not change if it is none that the breaker's state depends on. -/
def Unmoved (b b' : CircuitBreaker) : Prop :=
  b'.config = b.config ∧ b'.state = b.state ∧ b'.consecutiveFailures = b.consecutiveFailures ∧
    b'.lastOpenedAt = b.lastOpenedAt

theorem counted_of_unmoved (hc : h.Counted c)
    (hsame : Unmoved h.traffic.breaker (h.traffic.callStep pf s).breaker)
    (hf : h.failuresAfter s = h.failures) (hnot : ¬ h.ReachesThreshold s) :
    (h.record pf s).Counted c ∧ h.Proper pf s := by
  obtain ⟨hg, hs, hn, ho⟩ := hsame
  have ht : h.openedAtAfter (h.traffic.callStep pf s).breaker s = h.openedAt := by
    cases s with
    | onFailure clock => exact if_neg fun hope => hope.1 (hs ▸ hope.2)
    | _ => rfl
  refine ⟨⟨hg.trans hc.config, ?_, ?_⟩, fun hl => ?_, fun hopen hleft => ?_⟩
  · simp only [record, hs, hn, hf]
    exact hc.closed
  · simp only [record, hs, ho, ht]
    exact hc.opened
  · simp [record, hs, hl, hnot]
  · exact absurd (hs.trans hopen) hleft

theorem counted_request (hc : h.Counted c) (now : ℕ) :
    (h.record pf (.request now)).Counted c ∧ h.Proper pf (.request now) := by
  have hu (hsame : Unmoved h.traffic.breaker (h.traffic.callStep pf (.request now)).breaker) :=
    counted_of_unmoved hc hsame rfl id
  rcases h.traffic.breaker.shouldAllowRequest_cases now with ⟨hs, ha⟩ |
    ⟨hs, hp, ha⟩ | ⟨hs, hp, ha⟩ | ⟨hs, hless, ha⟩ |
    ⟨hs, hmost, ha⟩
  · exact hu (by simp [Unmoved, callStep, ha])
  · have hb : (h.traffic.callStep pf (.request now)).breaker =
        { h.traffic.breaker with state := .halfOpen, halfOpenCalls := 0 } := by
      simp [callStep, ha]
    refine ⟨⟨?_, ?_, ?_⟩, fun hl => ?_, fun _ _ => ?_⟩
    · simp [record, hb, hc.config]
    · simp [record, hb]
    · simp [record, hb]
    · simp [hs] at hl
    rw [resetTimeoutPassed, hc.opened hs] at hp
    cases hat : h.openedAt with
    | none => simp [hat] at hp
    | some openedAt => exact ⟨openedAt, hat, by simpa [hat] using hp⟩
  · exact hu (by simp [Unmoved, callStep, ha])
  · exact hu (by simp [Unmoved, callStep, ha, hs])
  · exact hu (by simp [Unmoved, callStep, ha])

theorem counted_onSuccess (hc : h.Counted c) (hone : 1 ≤ c.failureThreshold) (clock : ℕ → ℕ) :
    (h.record pf (.onSuccess clock)).Counted c ∧ h.Proper pf (.onSuccess clock) := by
  by_cases hnone : h.traffic.succeeding = 0
  · exact counted_of_unmoved hc (by simp [Unmoved, callStep, hnone])
      (if_pos hnone) id
  have hr : h.record pf (.onSuccess clock) =
      ⟨{ h.traffic with
          breaker := h.traffic.breaker.onSuccess clock
          succeeding := h.traffic.succeeding - 1 }, 0, h.openedAt⟩ := by
    simp [record, failuresAfter, openedAtAfter, callStep, hnone]
  obtain ⟨hzero, hope, hs⟩ := h.traffic.breaker.onSuccess_cases clock
  have hf := (@CircuitBreaker.quiet_onSuccess h.traffic.breaker clock).config
  simp only [Proper, hr]
  refine ⟨⟨hf.trans hc.config, fun _ => ⟨hzero, hone⟩, fun ho => ?_⟩,
    fun hl => ?_, fun ho hleft => ?_⟩
  · rcases hs with hs | ⟨-, hs⟩
    · exact hope.trans (hc.opened (hs.symm.trans ho))
    · cases hs.symm.trans ho
  · rcases hs with hs | ⟨-, hs⟩ <;> simp [ReachesThreshold, hs, hl]
  · rcases hs with hs | ⟨hs, -⟩
    · exact absurd (hs.trans ho) hleft
    · cases hs.symm.trans ho

theorem counted_onFailure (hc : h.Counted c) (hu32 : c.failureThreshold < 2 ^ 32)
    (clock : ℕ → ℕ) :
    (h.record pf (.onFailure clock)).Counted c ∧ h.Proper pf (.onFailure clock) := by
  by_cases hnone : h.traffic.failing = 0
  · exact counted_of_unmoved hc (by simp [Unmoved, callStep, hnone])
      (if_pos hnone) fun hr => hr.1 hnone
  have hf := (@CircuitBreaker.quiet_onFailure pf h.traffic.breaker clock).config
  obtain ⟨hfits, hm⟩ := onFailure_cases pf h.traffic.breaker clock
  have hr1 : h.record pf (.onFailure clock) =
      ⟨{ h.traffic with
          breaker := (h.traffic.breaker.onFailure pf clock).1
          failing := h.traffic.failing - 1 }, h.failures + 1,
        h.openedAtAfter (h.traffic.breaker.onFailure pf clock).1 (.onFailure clock)⟩ := by
    simp [record, failuresAfter, callStep, hnone]
  simp only [Proper, hr1, openedAtAfter]
  generalize (h.traffic.breaker.onFailure pf clock).1 = b' at hf hfits hm ⊢
  rw [hc.config] at hf hfits hm
  -- a closed breaker is below the threshold, so the count fits
  have hfits' (hl : h.traffic.breaker.state = .closed) :
      b'.consecutiveFailures = h.failures + 1 ∧
        (b'.state ≠ .closed ↔ h.failures + 1 = c.failureThreshold) := by
    obtain ⟨heq, hless⟩ := hc.closed hl
    obtain ⟨hg, hv⟩ := hfits (by omega)
    rw [heq] at hg hv
    exact ⟨hg, (hv hl).trans (by omega)⟩
  refine ⟨⟨hf, fun hl' => ?_, fun ho' => ?_⟩, fun hl => ?_,
    fun ho hleft => ?_⟩
  · rcases hm with ⟨hs, -⟩ | ⟨-, hs, -⟩
    · have hl := hs.symm.trans hl'
      obtain ⟨hg, hv⟩ := hfits' hl
      have hless := (hc.closed hl).2
      have hne := fun heq => hv.2 heq hl'
      exact ⟨hg, lt_of_le_of_ne hless hne⟩
    · cases hs.symm.trans hl'
  · rcases hm with ⟨hs, hope⟩ | ⟨hs, -, hope⟩
    · have ho := hs.symm.trans ho'
      rw [if_neg fun hopen => hopen.1 ho]
      exact hope.trans (hc.opened ho)
    · rw [if_pos ⟨hs, ho'⟩, hf]
      exact hope
  · rw [(hfits' hl).2]
    simp [ReachesThreshold, hnone, hc.config]
  · rcases hm with ⟨hs, -⟩ | ⟨hs, -⟩
    · exact absurd (hs.trans ho) hleft
    · exact absurd ho hs

theorem counted_record (hc : h.Counted c) (hone : 1 ≤ c.failureThreshold)
    (hu32 : c.failureThreshold < 2 ^ 32) (s : CallStep) :
    (h.record pf s).Counted c ∧ h.Proper pf s := by
  cases s with
  | request now => exact counted_request hc now
  | count =>
    refine counted_of_unmoved hc ?_ rfl id
    simp only [callStep]
    split_ifs <;> exact ⟨rfl, rfl, rfl, rfl⟩
  | outcome res =>
    refine counted_of_unmoved hc ?_ rfl id
    simp only [callStep]
    split_ifs
    · exact ⟨rfl, rfl, rfl, rfl⟩
    cases res with
    | ok => exact ⟨rfl, rfl, rfl, rfl⟩
    | error e =>
      simp only [countOutcome]
      split_ifs <;> exact ⟨rfl, rfl, rfl, rfl⟩
  | onSuccess clock => exact counted_onSuccess hc hone clock
  | onFailure clock => exact counted_onFailure hc hu32 clock

/-- **Opening and reopening**: a closed breaker counts the breaking failures since the last success,
    and opens exactly at the one that reaches the threshold. An open one leaves the state only at an
    admission after the reset timeout. -/
theorem opens_and_reopens (pf : Platform) (name : String) (c : CircuitBreakerConfig)
    (hone : 1 ≤ c.failureThreshold) (hu32 : c.failureThreshold < 2 ^ 32) (steps : List CallStep) :
    (∀ h ∈ steps.scanl (record pf) (start name c), h.traffic.breaker.state = .closed →
      h.traffic.breaker.consecutiveFailures = h.failures ∧ h.failures < c.failureThreshold) ∧
    Run.Along (record pf) (Proper pf) (start name c) steps := by
  have hstart : (start name c).Counted c := ⟨rfl, fun _ => ⟨rfl, hone⟩, nofun⟩
  have hstep := fun h s (hcount : Counted c h) (_ : True) => @counted_record pf c h hcount hone hu32 s
  refine ⟨fun h hh => ?_, ?_⟩
  · exact (Run.invariant (fun h s hcount hs => (hstep h s hcount hs).1) hstart
      (Run.along_true _ _) h hh).closed
  · exact Run.along_of_invariant (fun h s hcount hs => (hstep h s hcount hs).1)
      (fun h s hcount hs => (hstep h s hcount hs).2) hstart (Run.along_true _ _)

/-- The default breaker, along five failures and an admission a minute later. -/
theorem opens_and_reopens_by_default : 1 ≤ CircuitBreakerConfig.default.failureThreshold ∧
      Run.Along (record .release) (Proper .release) (start "api" .default)
        (WatchedBreaker.probing 1) :=
  ⟨by decide, (opens_and_reopens .release "api" .default (by decide) (by decide) _).2⟩

end BreakerHistory

end Blixard
