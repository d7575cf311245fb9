/-
  Health of virtual machines (`vm_health_types.rs`).

  The count of failures is reset only when the state is healthy, and the state is healthy only
  while the count is below the threshold (`seesRecovery_iff`).  The score is an `f32`, and is
  kept as its value.
-/
import Blixard.Lib.Rounding
import Blixard.IpPool.Config

namespace Blixard

open List Platform Rounding

/-! ## Types -/

inductive HealthCheckType where
  | http (url : String) (expectedStatus timeoutSecs : ℕ) (headers : Option (List (String × String)))
  | tcp (address : String) (timeoutSecs : ℕ)
  | script (command : String) (args : List String) (expectedExitCode : ℤ) (timeoutSecs : ℕ)
  | console (healthyPattern : String) (unhealthyPattern : Option String) (timeoutSecs : ℕ)
  | process (processName : String) (minInstances : ℕ)
  | guestAgent (timeoutSecs : ℕ)

structure HealthCheck where
  name : String
  checkType : HealthCheckType

structure VmHealthCheckConfig where
  checks : List HealthCheck
  failureThreshold : ℕ
  successThreshold : ℕ
  failureThreshold_lt : failureThreshold < 2 ^ 32

def VmHealthCheckConfig.default : VmHealthCheckConfig where
  checks := []
  failureThreshold := 3
  successThreshold := 2
  failureThreshold_lt := by norm_num

inductive HealthState where
  | healthy | degraded | unhealthy | unresponsive | critical | unknown
  deriving DecidableEq

inductive HealthCheckPriority where
  | quick | deep | comprehensive
  deriving DecidableEq

structure HealthCheckResult where
  checkName : String
  success : Bool
  message : String
  durationMs : ℕ
  timestampSecs : ℤ
  error : Option String
  priority : HealthCheckPriority
  critical : Bool
  deriving DecidableEq

structure VmHealthStatus where
  state : HealthState
  score : ℚ
  checkResults : List HealthCheckResult
  lastHealthyAtSecs : Option ℤ
  consecutiveFailures : ℕ
  consecutiveSuccesses : ℕ
  deriving DecidableEq

/-! ## A round of checks -/

def f32Ratio (count total : ℕ) : ℚ :=
  Rounding.roundTo 24 (Rounding.roundTo 24 count / Rounding.roundTo 24 total)

def nineTenths : ℚ := 15099494 / 2 ^ 24

namespace VmHealthStatus

def default : VmHealthStatus := ⟨.unknown, 0, [], none, 0, 0⟩

variable (pf : Platform) (config : VmHealthCheckConfig) (s : VmHealthStatus)

def calculateScore : VmHealthStatus :=
  { s with score :=
      if s.checkResults = [] then 0
      else f32Ratio (s.checkResults.countP (·.success)) s.checkResults.length }

def criticalFailures : ℕ := s.checkResults.countP fun r => r.critical && !r.success

def comprehensiveFailures : ℕ :=
  s.checkResults.countP fun r => r.priority = .comprehensive && !r.success

def totalComprehensive : ℕ := s.checkResults.countP (·.priority = .comprehensive)

/-- The threshold is doubled only if a critical check failed. -/
def isCritical : Except Failure Bool :=
  if 0 < s.criticalFailures then
    (pf.mulUnsigned 32 config.failureThreshold 2).map fun most => most ≤ s.consecutiveFailures
  else .ok false

def stateIf (isCritical : Bool) : HealthState :=
  if isCritical then .critical
  else if 0 < s.criticalFailures ∨
      s.comprehensiveFailures = s.totalComprehensive ∧ 0 < s.totalComprehensive then .unhealthy
  else if s.checkResults = [] ∨ config.failureThreshold ≤ s.consecutiveFailures then .unresponsive
  else if nineTenths ≤ s.score then .healthy
  else if 1 / 2 ≤ s.score then .degraded
  else .unhealthy

def nextState : Except Failure HealthState := (s.isCritical pf config).map (s.stateIf config)

def updateState (nowSecs : ℤ) : Except Failure VmHealthStatus := do
  let state ← s.nextState pf config
  if state = .healthy then
    let consecutiveSuccesses ← pf.addUnsigned 32 s.consecutiveSuccesses 1
    .ok { s with
      state, consecutiveSuccesses, consecutiveFailures := 0, lastHealthyAtSecs := some nowSecs }
  else
    let consecutiveFailures ← pf.addUnsigned 32 s.consecutiveFailures 1
    .ok { s with state, consecutiveFailures, consecutiveSuccesses := 0 }

end VmHealthStatus

structure CheckRound where
  results : List HealthCheckResult
  nowSecs : ℤ

namespace VmHealthStatus

variable (pf : Platform) (config : VmHealthCheckConfig)

def scored (s : VmHealthStatus) (round : CheckRound) : VmHealthStatus :=
  { s with checkResults := round.results }.calculateScore

def feed (s : VmHealthStatus) (round : CheckRound) : Except Failure VmHealthStatus :=
  (s.scored round).updateState pf config round.nowSecs

def afterRounds (rounds : List CheckRound) : Except Failure VmHealthStatus :=
  rounds.foldlM (feed pf config) default

end VmHealthStatus

/-! ## Healthy rounds -/

namespace CheckRound

def Clean (round : CheckRound) : Prop :=
  round.results ≠ [] ∧ ∀ r ∈ round.results, r.success

instance (round : CheckRound) : Decidable round.Clean := inferInstanceAs (Decidable (_ ∧ _))

def Good (round : CheckRound) : Prop :=
  let s := VmHealthStatus.default.scored round
  s.criticalFailures = 0 ∧
    ¬ (s.comprehensiveFailures = s.totalComprehensive ∧ 0 < s.totalComprehensive) ∧
    round.results ≠ [] ∧ nineTenths ≤ s.score

instance (round : CheckRound) : Decidable round.Good := inferInstanceAs (Decidable (_ ∧ _ ∧ _ ∧ _))

def FailsCritical (round : CheckRound) : Prop :=
  ∃ r ∈ round.results, r.critical ∧ r.success = false

instance (round : CheckRound) : Decidable round.FailsCritical :=
  inferInstanceAs (Decidable (∃ r ∈ round.results, _))

theorem f32Ratio_self {n : ℕ} (h : 0 < n) : f32Ratio n n = 1 := by
  have hn : (0 : ℚ) < roundTo 24 n :=
    roundTo_pos (by decide) (by exact_mod_cast h)
  rw [f32Ratio, div_self hn.ne']
  exact roundTo_one (by decide)

variable {round : CheckRound}

theorem Clean.good (h : round.Clean) : round.Good := by
  have hf : ∀ p : HealthCheckResult → Bool,
      round.results.countP (fun r => p r && !r.success) = 0 := by
    intro p
    refine countP_eq_zero.2 fun r hr => ?_
    simp [h.2 r hr]
  have hs : (VmHealthStatus.default.scored round).score = 1 := by
    refine (if_neg h.1).trans ?_
    have hall : round.results.countP (·.success) = round.results.length :=
      countP_eq_length.2 h.2
    exact (congrArg (f32Ratio · _) hall).trans (f32Ratio_self (length_pos_of_ne_nil h.1))
  refine ⟨hf _, fun hall => ?_, h.1, ?_⟩
  · have hnone : (VmHealthStatus.default.scored round).comprehensiveFailures = 0 := hf _
    omega
  · rw [hs]
    decide +kernel

theorem FailsCritical.not_good (h : round.FailsCritical) : ¬ round.Good := by
  obtain ⟨r, hr, hc, hf⟩ := h
  intro hgood
  have hnone := countP_eq_zero.1 hgood.1 r hr
  simp [hc, hf] at hnone

end CheckRound

namespace VmHealthStatus

variable {pf : Platform} {config : VmHealthCheckConfig} {s s' : VmHealthStatus}
  {round : CheckRound}

theorem criticalFailures_pos : 0 < (s.scored round).criticalFailures ↔ round.FailsCritical := by
  simp [criticalFailures, scored, calculateScore, countP_pos_iff, CheckRound.FailsCritical]

def HealthyAfter (config : VmHealthCheckConfig) (s : VmHealthStatus) (round : CheckRound) : Prop :=
  round.Good ∧ s.consecutiveFailures < config.failureThreshold

instance : Decidable (HealthyAfter config s round) := inferInstanceAs (Decidable (_ ∧ _))

/-- The arithmetic of a round is within its 32 bits. -/
def Fits (config : VmHealthCheckConfig) (s : VmHealthStatus) (round : CheckRound) : Prop :=
  (round.FailsCritical → config.failureThreshold * 2 < 2 ^ 32) ∧
    (if HealthyAfter config s round then s.consecutiveSuccesses else s.consecutiveFailures) + 1 <
      2 ^ 32

structure Follows (config : VmHealthCheckConfig) (s : VmHealthStatus) (round : CheckRound)
    (s' : VmHealthStatus) : Prop where
  state : s'.state = .healthy ↔ HealthyAfter config s round
  failures : s'.consecutiveFailures =
    if HealthyAfter config s round then 0 else s.consecutiveFailures + 1
  successes : s'.consecutiveSuccesses =
    if HealthyAfter config s round then s.consecutiveSuccesses + 1 else 0

theorem isCritical_eq (pf : Platform)
    (h : round.FailsCritical → config.failureThreshold * 2 < 2 ^ 32) :
    (s.scored round).isCritical pf config =
      .ok (decide (round.FailsCritical ∧ config.failureThreshold * 2 ≤ s.consecutiveFailures)) := by
  unfold isCritical
  by_cases hc : round.FailsCritical
  · rw [if_pos (criticalFailures_pos.2 hc), pf.mulUnsigned_of_lt (h hc)]
    simp only [Except.map, hc, true_and]
    rfl
  · rw [if_neg (mt criticalFailures_pos.1 hc)]
    simp only [hc, false_and, decide_false]

theorem stateIf_eq_healthy {isCritical : Bool} :
    (s.scored round).stateIf config isCritical = .healthy ↔
      isCritical = false ∧ HealthyAfter config s round := by
  unfold stateIf
  constructor
  · intro hs
    split_ifs at hs with hc hu hn hr
    rw [not_or] at hu hn
    exact ⟨by simpa using hc,
      ⟨Nat.eq_zero_of_not_pos hu.1, hu.2, hn.1, hr⟩,
      Nat.lt_of_not_le hn.2⟩
  · rintro ⟨rfl, ⟨hnone, hm, hl, hr⟩, hf⟩
    have hu := not_or.2 ⟨Nat.not_lt.2 hnone.le, hm⟩
    have hn := not_or.2 ⟨hl, Nat.not_le.2 hf⟩
    exact (if_neg nofun).trans ((if_neg hu).trans ((if_neg hn).trans
      (if_pos hr)))

theorem nextState_eq (h : round.FailsCritical → config.failureThreshold * 2 < 2 ^ 32) :
    ∃ state, (∀ pf, (s.scored round).nextState pf config = .ok state) ∧
      (state = .healthy ↔ HealthyAfter config s round) := by
  refine ⟨_, fun pf => congrArg (Except.map _) (isCritical_eq pf h), ?_⟩
  rw [stateIf_eq_healthy, and_iff_right_iff_imp]
  intro he
  have hc : ¬ round.FailsCritical := fun hf => hf.not_good he.1
  simp [hc]

theorem feed_eq (h : Fits config s round) :
    ∃ s', (∀ pf, s.feed pf config round = .ok s') ∧ Follows config s round s' := by
  obtain ⟨state, hs, hiff⟩ := nextState_eq h.1
  have hroom := h.2
  by_cases hl : HealthyAfter config s round
  · rw [if_pos hl] at hroom
    refine ⟨{ s.scored round with
      state, consecutiveSuccesses := s.consecutiveSuccesses + 1, consecutiveFailures := 0,
      lastHealthyAtSecs := some round.nowSecs }, fun pf => ?_, hiff, ?_, ?_⟩
    · have hadd : pf.addUnsigned 32 (s.scored round).consecutiveSuccesses 1 = _ :=
        pf.addUnsigned_of_lt hroom
      simp only [feed, updateState, hs pf, hiff.2 hl, hadd, bind, Except.bind, if_pos]
      rfl
    · exact (if_pos hl).symm
    · exact (if_pos hl).symm
  · rw [if_neg hl] at hroom
    refine ⟨{ s.scored round with
      state, consecutiveFailures := s.consecutiveFailures + 1, consecutiveSuccesses := 0 },
      fun pf => ?_, hiff, ?_, ?_⟩
    · have hadd : pf.addUnsigned 32 (s.scored round).consecutiveFailures 1 = _ :=
        pf.addUnsigned_of_lt hroom
      simp only [feed, updateState, hs pf, hadd, bind, Except.bind, if_neg (mt hiff.1 hl)]
      rfl
    · exact (if_neg hl).symm
    · exact (if_neg hl).symm

def checked (pf : Platform) : Platform := { pf with overflowChecks := true }

theorem fits_of_feed (h : s.feed (checked pf) config round = .ok s') : Fits config s round := by
  obtain ⟨state, hs, h⟩ := bind_eq_ok h
  have hd : round.FailsCritical → config.failureThreshold * 2 < 2 ^ 32 := by
    intro hc
    by_contra hover
    obtain ⟨isCritical, hi, -⟩ := map_eq_ok hs
    rw [VmHealthStatus.isCritical, if_pos (criticalFailures_pos.2 hc)] at hi
    obtain ⟨most, hmost, -⟩ := map_eq_ok hi
    rw [mulUnsigned, if_pos ⟨rfl, Nat.not_lt.1 hover⟩] at hmost
    cases hmost
  obtain ⟨state', hs', hiff⟩ := nextState_eq hd (s := s)
  have heq : state = state' := Except.ok.inj (hs.symm.trans (hs' _))
  subst heq
  refine ⟨hd, ?_⟩
  by_cases hl : HealthyAfter config s round
  · rw [if_pos hl]
    simp only [if_pos (hiff.2 hl)] at h
    obtain ⟨count, hn, -⟩ := bind_eq_ok h
    exact (addUnsigned_eq_ok.1 hn).2 rfl
  rw [if_neg hl]
  simp only [if_neg (mt hiff.1 hl)] at h
  obtain ⟨count, hn, -⟩ := bind_eq_ok h
  exact (addUnsigned_eq_ok.1 hn).2 rfl

theorem follows_of_feed (h : s.feed (checked pf) config round = .ok s') :
    Follows config s round s' := by
  obtain ⟨s'', hfeed, hf⟩ := feed_eq (fits_of_feed h)
  exact Except.ok.inj ((hfeed _).symm.trans h) ▸ hf

theorem failures_feed_le (h : s.feed pf config round = .ok s') :
    s'.consecutiveFailures ≤ s.consecutiveFailures + 1 := by
  obtain ⟨state, -, h⟩ := bind_eq_ok h
  split_ifs at h with he
  · obtain ⟨count, -, h⟩ := bind_eq_ok h
    cases h
    exact Nat.zero_le _
  · obtain ⟨count, hc, h⟩ := bind_eq_ok h
    cases h
    exact (addUnsigned_eq_ok.1 hc).1 ▸ Nat.mod_le _ _

/-! ## Histories of rounds -/

/-- The last rounds, as many as the threshold says, are clean. -/
def Recovered (config : VmHealthCheckConfig) (rounds : List CheckRound) : Prop :=
  ∃ before clean, rounds = before ++ clean ∧ clean.length = config.successThreshold ∧
    ∀ r ∈ clean, r.Clean

/-- At any time nothing has overflowed, and a machine that has recovered is healthy. -/
def SeesRecovery (pf : Platform) (config : VmHealthCheckConfig) (rounds : List CheckRound) : Prop :=
  ∀ done, done <+: rounds → ∃ s, afterRounds (checked pf) config done = .ok s ∧
    afterRounds pf config done = .ok s ∧ (Recovered config done → s.state = .healthy)

/-- The last rounds, as many as the failure threshold says, are not good. -/
def Lost (config : VmHealthCheckConfig) (rounds : List CheckRound) : Prop :=
  ∃ before bad, rounds = before ++ bad ∧ bad.length = config.failureThreshold ∧
    ∀ r ∈ bad, ¬ r.Good

structure Recoverable (config : VmHealthCheckConfig) (rounds : List CheckRound) : Prop where
  /-- No machine recovers that was lost before. -/
  recovers : ∀ lost between clean, lost ++ between ++ clean <+: rounds → Lost config lost →
    clean.length = config.successThreshold → ¬ ∀ r ∈ clean, r.Clean
  doubled : ∀ r ∈ rounds, r.FailsCritical → config.failureThreshold * 2 < 2 ^ 32
  failures : ∀ lost after, lost ++ after <+: rounds → Lost config lost →
    config.failureThreshold + after.length < 2 ^ 32
  successes : ∀ before good, before ++ good <+: rounds → (∀ r ∈ good, r.Good) →
    good.length < 2 ^ 32

theorem afterRounds_append (pf : Platform) (rs : List CheckRound) :
    afterRounds pf config (rs ++ [round]) =
      afterRounds pf config rs >>= fun s => s.feed pf config round := by
  simp [afterRounds, foldlM_append]

section Counters
variable {before rounds : List CheckRound}

theorem counters_lt (h : afterRounds (checked pf) config rounds = .ok s) :
    s.consecutiveFailures < 2 ^ 32 ∧ s.consecutiveSuccesses < 2 ^ 32 := by
  rcases eq_nil_or_concat' rounds with rfl | ⟨done, r, rfl⟩
  · cases h
    exact ⟨by decide, by decide⟩
  rw [afterRounds_append] at h
  obtain ⟨s₀, -, hfeed⟩ := bind_eq_ok h
  have hroom := (fits_of_feed hfeed).2
  have hf := follows_of_feed hfeed
  rw [hf.failures, hf.successes]
  split_ifs at hroom ⊢ <;> omega

theorem length_le_failures {bad : List CheckRound} (hbad : ∀ r ∈ bad, ¬ r.Good)
    (h : afterRounds (checked pf) config (before ++ bad) = .ok s) :
    bad.length ≤ s.consecutiveFailures := by
  induction bad using reverseRecOn generalizing s with
  | nil => exact Nat.zero_le _
  | append_singleton bad r ih =>
    rw [← append_assoc, afterRounds_append] at h
    obtain ⟨s₀, hdone, hfeed⟩ := bind_eq_ok h
    have hc := ih (fun r hr => hbad r (by simp [hr])) hdone
    have hnot : ¬ HealthyAfter config s₀ r := fun he => hbad r (by simp) he.1
    rw [(follows_of_feed hfeed).failures, if_neg hnot, length_append, length_singleton]
    omega

theorem failures_of_lost {lost after : List CheckRound} (hlost : Lost config lost)
    (h : afterRounds (checked pf) config (lost ++ after) = .ok s) :
    config.failureThreshold + after.length ≤ s.consecutiveFailures := by
  induction after using reverseRecOn generalizing s with
  | nil =>
    obtain ⟨pre, bad, rfl, hlen, hbad⟩ := hlost
    rw [append_nil] at h
    exact hlen ▸ length_le_failures hbad h
  | append_singleton after r ih =>
    rw [← append_assoc, afterRounds_append] at h
    obtain ⟨s₀, hdone, hfeed⟩ := bind_eq_ok h
    have hc := ih hdone
    have hnot : ¬ HealthyAfter config s₀ r := fun he => by
      have hlt := he.2
      omega
    rw [(follows_of_feed hfeed).failures, if_neg hnot, length_append, length_singleton]
    omega

theorem length_le_of_good (ht : 0 < config.failureThreshold) {good : List CheckRound}
    (hgood : ∀ r ∈ good, r.Good) (h : afterRounds (checked pf) config (before ++ good) = .ok s) :
    s.consecutiveFailures < config.failureThreshold ∧ good.length ≤ s.consecutiveSuccesses ∨
      config.failureThreshold ≤ s.consecutiveFailures ∧ good.length ≤ s.consecutiveFailures := by
  induction good using reverseRecOn generalizing s with
  | nil =>
    rcases Nat.lt_or_ge s.consecutiveFailures config.failureThreshold with hlt | hge
    · exact .inl ⟨hlt, Nat.zero_le _⟩
    · exact .inr ⟨hge, Nat.zero_le _⟩
  | append_singleton good r ih =>
    rw [← append_assoc, afterRounds_append] at h
    obtain ⟨s₀, hdone, hfeed⟩ := bind_eq_ok h
    have hf := follows_of_feed hfeed
    rw [hf.failures, hf.successes, length_append, length_singleton]
    rcases ih (fun r hr => hgood r (by simp [hr])) hdone with ⟨hlt, hle⟩ | ⟨hge, hle⟩
    · have he : HealthyAfter config s₀ r := ⟨hgood r (by simp), hlt⟩
      rw [if_pos he, if_pos he]
      exact .inl ⟨ht, by omega⟩
    · have hnot : ¬ HealthyAfter config s₀ r := fun he => Nat.not_lt.2 hge he.2
      rw [if_neg hnot, if_neg hnot]
      exact .inr ⟨by omega, by omega⟩

end Counters

variable {rs : List CheckRound}

theorem SeesRecovery.recoverable (hf : 0 < config.failureThreshold)
    (hc : 0 < config.successThreshold)
    (h : SeesRecovery pf config rs) : Recoverable config rs where
  recovers := by
    intro lost btw clean hpart hlost hlen hl
    obtain ⟨s, hs, -, hy⟩ := h _ hpart
    have ht := hy ⟨_, clean, rfl, hlen, hl⟩
    -- the last of the clean rounds finds the machine lost
    rcases eq_nil_or_concat' clean with rfl | ⟨clean, r, rfl⟩
    · exact absurd hlen.symm hc.ne'
    rw [append_assoc, ← append_assoc btw, ← append_assoc lost,
      afterRounds_append] at hs
    obtain ⟨s₀, hdone, hfeed⟩ := bind_eq_ok hs
    have hn := failures_of_lost hlost hdone
    have hlt := ((follows_of_feed hfeed).state.1 ht).2
    omega
  doubled := by
    intro r hr
    obtain ⟨pre, after, rfl⟩ := append_of_mem hr
    obtain ⟨s, hs, -⟩ := h (pre ++ [r]) (by simp)
    rw [afterRounds_append] at hs
    obtain ⟨s₀, -, hfeed⟩ := bind_eq_ok hs
    exact (fits_of_feed hfeed).1
  failures := by
    intro lost after hpart hlost
    obtain ⟨s, hs, -⟩ := h _ hpart
    exact Nat.lt_of_le_of_lt (failures_of_lost hlost hs) (counters_lt hs).1
  successes := by
    intro pre good hpart hgood
    obtain ⟨s, hs, -⟩ := h _ hpart
    have hlt := counters_lt hs
    rcases length_le_of_good hf hgood hs with ⟨-, hle⟩ | ⟨-, hle⟩ <;> omega

/-- A machine that is not lost, with the rounds that its counters count. -/
structure Live (config : VmHealthCheckConfig) (done : List CheckRound) (s : VmHealthStatus) :
    Prop where
  lt : s.consecutiveFailures < config.failureThreshold
  failures : ∃ before bad, done = before ++ bad ∧ bad.length = s.consecutiveFailures ∧
    ∀ r ∈ bad, ¬ r.Good
  successes : ∃ before good, done = before ++ good ∧ good.length = s.consecutiveSuccesses ∧
    ∀ r ∈ good, r.Good

def WasLost (config : VmHealthCheckConfig) (done : List CheckRound) (s : VmHealthStatus) : Prop :=
  ∃ lost after, done = lost ++ after ∧ Lost config lost ∧
    s.consecutiveFailures = config.failureThreshold + after.length

section Stages
variable {rounds done : List CheckRound}

theorem live_feed (h : Live config done s) (hf : Follows config s round s') :
    Live config (done ++ [round]) s' ∨ WasLost config (done ++ [round]) s' := by
  by_cases hgood : round.Good
  · have he : HealthyAfter config s round := ⟨hgood, h.lt⟩
    obtain ⟨pre, good, hdone, hlen, hall⟩ := h.successes
    refine .inl ⟨?_, ⟨done ++ [round], [], by simp, ?_, nofun⟩, pre, good ++ [round], ?_, ?_, ?_⟩
    · rw [hf.failures, if_pos he]
      exact Nat.zero_lt_of_lt h.lt
    · rw [hf.failures, if_pos he]
      rfl
    · rw [hdone, append_assoc]
    · rw [hf.successes, if_pos he, length_append, hlen, length_singleton]
    · exact forall_mem_append.2 ⟨hall, forall_mem_singleton.2 hgood⟩
  · have hnot : ¬ HealthyAfter config s round := fun he => hgood he.1
    obtain ⟨pre, bad, hdone, hlen, hall⟩ := h.failures
    have hdone' : done ++ [round] = pre ++ (bad ++ [round]) := by rw [hdone, append_assoc]
    have hlen' : (bad ++ [round]).length = s'.consecutiveFailures := by
      rw [hf.failures, if_neg hnot, length_append, hlen, length_singleton]
    have hall' : ∀ r ∈ bad ++ [round], ¬ r.Good :=
      forall_mem_append.2 ⟨hall, forall_mem_singleton.2 hgood⟩
    have hl : s'.consecutiveFailures = s.consecutiveFailures + 1 := by
      rw [hf.failures, if_neg hnot]
    have hlt := h.lt
    rcases Nat.lt_or_ge s'.consecutiveFailures config.failureThreshold with hless | hr
    · refine .inl ⟨hless, ⟨pre, bad ++ [round], hdone', hlen', hall'⟩, done ++ [round], [],
        by simp, ?_, nofun⟩
      rw [hf.successes, if_neg hnot]
      rfl
    refine .inr ⟨done ++ [round], [], by simp, ⟨pre, _, hdone', ?_, hall'⟩, ?_⟩
    · omega
    · rw [length_nil]
      omega

theorem wasLost_feed (h : WasLost config done s) (hf : Follows config s round s') :
    WasLost config (done ++ [round]) s' := by
  obtain ⟨lost, after, hdone, hlost, hc⟩ := h
  have hnot : ¬ HealthyAfter config s round := fun he => by
    have hlt := he.2
    omega
  refine ⟨lost, after ++ [round], by rw [hdone, append_assoc], hlost, ?_⟩
  rw [hf.failures, if_neg hnot, length_append, length_singleton]
  omega

theorem fits_of_recoverable (h : Recoverable config rounds) (hpart : done ++ [round] <+: rounds)
    (hs : Live config done s ∨ WasLost config done s) : Fits config s round := by
  refine ⟨h.doubled round (hpart.subset (by simp)), ?_⟩
  by_cases hl : HealthyAfter config s round
  · rw [if_pos hl]
    rcases hs with hlive | ⟨lost, after, -, -, hc⟩
    · obtain ⟨pre, good, hdone, hlen, hall⟩ := hlive.successes
      have hless := h.successes pre (good ++ [round])
        (by rwa [← append_assoc, ← hdone])
        (forall_mem_append.2 ⟨hall, forall_mem_singleton.2 hl.1⟩)
      rwa [length_append, hlen] at hless
    · have hlt := hl.2
      omega
  · rw [if_neg hl]
    rcases hs with hlive | ⟨lost, after, hdone, hlost, hc⟩
    · have hlt := hlive.lt
      have ht := config.failureThreshold_lt
      omega
    · have hless := h.failures lost (after ++ [round]) (by rwa [← append_assoc, ← hdone]) hlost
      rw [length_append, length_singleton] at hless
      omega

theorem stage_of_recoverable (hf : 0 < config.failureThreshold) (h : Recoverable config rounds)
    (hpart : done <+: rounds) :
    ∃ s, (∀ pf, afterRounds pf config done = .ok s) ∧
      (Live config done s ∨ WasLost config done s) := by
  induction done using reverseRecOn with
  | nil =>
    exact ⟨default, fun _ => rfl,
      .inl ⟨hf, ⟨[], [], rfl, rfl, nofun⟩, [], [], rfl, rfl, nofun⟩⟩
  | append_singleton done r ih =>
    obtain ⟨s, hs, ht⟩ := ih ((prefix_append done [r]).trans hpart)
    obtain ⟨s', hfeed, ho⟩ := feed_eq (fits_of_recoverable h hpart ht)
    refine ⟨s', fun pf => ?_, ?_⟩
    · rw [afterRounds_append, hs pf]
      exact hfeed pf
    · rcases ht with hlive | hlost
      · exact live_feed hlive ho
      · exact .inr (wasLost_feed hlost ho)

theorem lost_before_clean {lost after pre clean : List CheckRound}
    (hf : 0 < config.failureThreshold) (hlost : Lost config lost)
    (heq : lost ++ after = pre ++ clean) (hc : ∀ r ∈ clean, r.Clean) :
    ∃ btw, pre = lost ++ btw ∧ after = btw ++ clean := by
  rcases append_eq_append_iff.1 heq with ⟨btw, hpre, ha⟩ | ⟨shared, hlost', hs⟩
  · exact ⟨btw, hpre, ha⟩
  -- the last round of the lost part is not good, so it is none of the clean ones
  rcases eq_nil_or_concat' shared with rfl | ⟨shared, r, rfl⟩
  · exact ⟨[], by simp [hlost'], by simp [hs]⟩
  obtain ⟨start, bad, ht, hlen, hbad⟩ := hlost
  rcases eq_nil_or_concat' bad with rfl | ⟨bad, r', rfl⟩
  · exact absurd hlen.symm hf.ne'
  have hsame : r = r' := by
    rw [ht, ← append_assoc, ← append_assoc] at hlost'
    exact (append_singleton_inj.1 hlost').2.symm
  have hgood := (hc r (by rw [hs]; simp)).good
  exact absurd hgood (hsame ▸ hbad r' (by simp))

end Stages

theorem Recoverable.seesRecovery (hf : 0 < config.failureThreshold)
    (hc : 0 < config.successThreshold) {rounds : List CheckRound}
    (h : Recoverable config rounds) (pf : Platform) : SeesRecovery pf config rounds := by
  intro done hpart
  rcases eq_nil_or_concat' done with rfl | ⟨done, r, rfl⟩
  · refine ⟨default, rfl, rfl, fun ⟨before, clean, hnil, hl, _⟩ => ?_⟩
    obtain ⟨-, rfl⟩ := append_eq_nil_iff.1 hnil.symm
    exact absurd hl.symm hc.ne'
  obtain ⟨s, hs, ht⟩ :=
    stage_of_recoverable hf h ((prefix_append done [r]).trans hpart)
  obtain ⟨s', hfeed, hw⟩ := feed_eq (fits_of_recoverable h hpart ht)
  have ha : ∀ pf, afterRounds pf config (done ++ [r]) = .ok s' := by
    intro pf
    rw [afterRounds_append, hs pf]
    exact hfeed pf
  refine ⟨s', ha _, ha _, fun ⟨before, clean, heq, hl, hn⟩ => ?_⟩
  refine hw.state.2 ⟨?_, ?_⟩
  · rcases eq_nil_or_concat' clean with rfl | ⟨clean, r', rfl⟩
    · exact absurd hl.symm hc.ne'
    · rw [← append_assoc] at heq
      obtain ⟨-, rfl⟩ := append_singleton_inj.1 heq
      exact (hn r (by simp)).good
  rcases ht with hlive | ⟨lost, after, hdone, hlost, -⟩
  · exact hlive.lt
  have hp : lost ++ (after ++ [r]) = before ++ clean := by
    rw [← heq, hdone, append_assoc]
  obtain ⟨between, hb, -⟩ := lost_before_clean hf hlost hp hn
  refine absurd hn (h.recovers lost between clean ?_ hlost hl)
  rwa [← hb, ← heq]

/-- **A machine that has recovered is seen as healthy, and nothing overflows**, exactly if no
    machine recovers that was lost before, and no count is too large. -/
theorem seesRecovery_iff (pf : Platform) (config : VmHealthCheckConfig)
    (hfailure : 0 < config.failureThreshold) (hsuccess : 0 < config.successThreshold)
    (rounds : List CheckRound) : SeesRecovery pf config rounds ↔ Recoverable config rounds :=
  ⟨fun h => h.recoverable hfailure hsuccess, fun h => h.seesRecovery hfailure hsuccess pf⟩

/-! ## A machine that fails and recovers -/

def pinged (success : Bool) : CheckRound :=
  ⟨[⟨"ping", success, if success then "pong" else "no answer", 1, 0, none, .quick, true⟩], 0⟩

def failing (times : ℕ) : List CheckRound :=
  List.replicate times (pinged false) ++ [pinged true, pinged true]

theorem Lost.le_length (h : Lost config rs) : config.failureThreshold ≤ rs.length := by
  obtain ⟨before, bad, rfl, hl, -⟩ := h
  rw [length_append]
  omega

theorem seesRecovery_failing_twice :
    Recovered .default (failing 2) ∧ SeesRecovery .release .default (failing 2) := by
  have hrecoverable : Recoverable .default (failing 2) := by
    refine ⟨fun lost between clean hpart hlost hlength _ => ?_, fun r _ _ => by decide,
      fun lost after hpart hlost => ?_, fun before good hpart _ => ?_⟩
    all_goals have hlength' : _ ≤ 4 := hpart.length_le
    · have hthree : 3 ≤ lost.length := hlost.le_length
      have htwo : clean.length = 2 := hlength
      rw [List.length_append, List.length_append] at hlength'
      omega
    · have hthree : 3 ≤ lost.length := hlost.le_length
      rw [List.length_append] at hlength'
      exact Nat.lt_of_le_of_lt (show 3 + after.length ≤ 4 by omega) (by decide)
    · rw [List.length_append] at hlength'
      exact Nat.lt_of_le_of_lt (show good.length ≤ 4 by omega) (by decide)
  exact ⟨⟨[pinged false, pinged false], [pinged true, pinged true], rfl, rfl, by decide⟩,
    (seesRecovery_iff .release .default (by decide) (by decide) (failing 2)).2 hrecoverable⟩

/-- After three failures the machine stays unresponsive. -/
theorem unresponsive_after_recovery : Recovered .default (failing 3) ∧
      (afterRounds .release .default (failing 3)).map (·.state) = .ok .unresponsive ∧
      ¬ SeesRecovery .release .default (failing 3) := by
  have hrecovered : Recovered .default (failing 3) :=
    ⟨List.replicate 3 (pinged false), [pinged true, pinged true], rfl, rfl, by decide⟩
  have hstate : (afterRounds .release .default (failing 3)).map (·.state) = .ok .unresponsive := by
    decide +kernel
  refine ⟨hrecovered, hstate, fun hsees => ?_⟩
  obtain ⟨s, -, hs, hhealthy⟩ := hsees (failing 3) List.prefix_rfl
  rw [hs, Except.map, hhealthy hrecovered] at hstate
  cases hstate

end VmHealthStatus

end Blixard
