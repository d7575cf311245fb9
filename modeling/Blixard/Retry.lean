/-
  Retries with backoff (`patterns/retry.rs`).

  What an invocation gives, what jitter draws and the arithmetic on floats are inputs.  The delays
  are added up with saturation, so a limit of `Duration::MAX` is never exceeded
  (`unlimited_delay`).
-/
import Blixard.IpPool.Config
import Mathlib.Data.Nat.Fib.Basic

namespace Blixard

open Platform

/-- A duration in nanoseconds: the seconds are a `u64`. -/
structure Duration where
  nanos : ℕ
  le_max : nanos ≤ 2 ^ 64 * 10 ^ 9 - 1

namespace Duration

def max : Duration := ⟨2 ^ 64 * 10 ^ 9 - 1, le_rfl⟩

/-- The nanoseconds, or the most that there can be. -/
def saturating (nanos : ℕ) : Duration := ⟨min nanos (2 ^ 64 * 10 ^ 9 - 1), min_le_right _ _⟩

def saturatingAdd (a b : Duration) : Duration := saturating (a.nanos + b.nanos)

def saturatingMul (a : Duration) (n : ℕ) : Duration := saturating (a.nanos * n)

def lesser (a b : Duration) : Duration := if a.nanos ≤ b.nanos then a else b

def ofMillis (millis : ℕ) : Duration := saturating (millis * 10 ^ 6)

end Duration

/-- The multiplier of an exponential backoff is an `f64`, kept as its bits. -/
inductive BackoffStrategy where
  | fixed (duration : Duration)
  | linear (base max : Duration)
  | exponential (base max : Duration) (multiplier : BitVec 64)
  | fibonacci (base max : Duration)
  | custom (f : ℕ → Duration)

/-- The loop over `2..=n`, in 32 bits. -/
def fibonacciLoop (pf : Platform) : ℕ → ℕ → ℕ → Except Failure ℕ
  | 0, _, b => .ok b
  | n + 1, a, b => do
    let temp ← pf.addUnsigned 32 a b
    fibonacciLoop pf n b temp

def fibonacci (pf : Platform) : ℕ → Except Failure ℕ
  | 0 => .ok 0
  | 1 => .ok 1
  | n + 2 => fibonacciLoop pf (n + 1) 0 1

/-- What the surroundings decide: `(base as f64 * multiplier.powf(exponent)) as u64`, and the jitter
    drawn for an attempt. -/
structure RetryEnv where
  platform : Platform
  scaled : ℕ → BitVec 64 → ℕ → ℕ
  applyJitter : ℕ → Duration → Duration

def BackoffStrategy.delay (env : RetryEnv) (attempt : ℕ) :
    BackoffStrategy → Except Failure Duration
  | fixed duration => .ok duration
  | linear base max => .ok ((base.saturatingMul attempt).lesser max)
  | exponential base max multiplier =>
    let delayMs := env.scaled (base.nanos / 10 ^ 6) multiplier (attempt - 1)
    .ok ((Duration.ofMillis delayMs).lesser max)
  | fibonacci base max => do
    let fib ← Blixard.fibonacci env.platform attempt
    .ok ((base.saturatingMul fib).lesser max)
  | custom f => .ok (f attempt)

/-! ## Retrying -/

/-- The operation's name and logging are left out. -/
structure RetryConfig where
  maxAttempts : ℕ
  backoff : BackoffStrategy
  jitter : Bool
  maxTotalDelay : Option Duration
  isRetryable : BlixardError → Bool

/-- What a call of `retry` did: how often it invoked the operation, how long it slept in between,
    and what it returned. -/
structure Retried (T : Type) where
  invocations : ℕ
  slept : List Duration
  result : Except Failure T

namespace RetryConfig

variable {T : Type} (config : RetryConfig)

def delayAfter (env : RetryEnv) (attempt : ℕ) : Except Failure Duration :=
  (config.backoff.delay env attempt).map fun delay =>
    if config.jitter then env.applyJitter attempt delay else delay

def exceeds (totalDelay : Duration) : Bool :=
  config.maxTotalDelay.any fun maxTotal => maxTotal.nanos < totalDelay.nanos

/-- The loop of `retry`, from an attempt on, for the outcomes of the attempts and the delays
    after them. -/
def retryFrom (delays : ℕ → Except Failure Duration) (outcome : ℕ → Except BlixardError T)
    (attempt : ℕ) (totalDelay : Duration) : Retried T :=
  match outcome attempt with
  | .ok result => ⟨1, [], .ok result⟩
  | .error e =>
    if _h : config.maxAttempts ≤ attempt then ⟨1, [], .error (.error e)⟩
    else if config.isRetryable e then
      match delays attempt with
      | .error failure => ⟨1, [], .error failure⟩
      | .ok delay =>
        let totalDelay := totalDelay.saturatingAdd delay
        if config.exceeds totalDelay then ⟨1, [], .error (.error e)⟩
        else
          let rest := retryFrom delays outcome (attempt + 1) totalDelay
          ⟨rest.invocations + 1, delay :: rest.slept, rest.result⟩
    else ⟨1, [], .error (.error e)⟩
  termination_by config.maxAttempts - attempt

def retryWith (delays : ℕ → Except Failure Duration) (outcome : ℕ → Except BlixardError T) :
    Retried T :=
  config.retryFrom delays outcome 1 (.saturating 0)

def retry (env : RetryEnv) (outcome : ℕ → Except BlixardError T) : Retried T :=
  config.retryWith (config.delayAfter env) outcome

/-! ## When it stops -/

/-- What the delays after the first failures add up to. -/
def accumulated (delays : ℕ → Duration) : ℕ → ℕ
  | 0 => 0
  | n + 1 => accumulated delays n + (delays (n + 1)).nanos

/-- The invocation is the last one: it succeeds or fails for good, it is the last that is allowed,
    or the total of the delays up to the next one is too large. -/
def Stops (total : ℕ → ℕ) (outcome : ℕ → Except BlixardError T) (n : ℕ) : Prop :=
  (∃ result, outcome n = .ok result) ∨
    (∃ e, outcome n = .error e ∧ config.isRetryable e = false) ∨
    max 1 config.maxAttempts ≤ n ∨ ∃ limit, config.maxTotalDelay = some limit ∧ limit.nanos < total n

variable {config} {delays : ℕ → Duration} {outcome : ℕ → Except BlixardError T} {n : ℕ}

def saturated (delays : ℕ → Duration) (n : ℕ) : Duration := .saturating (accumulated delays n)

/-- The last invocation of a loop that adds up the delays with saturation. -/
def StopsAt (config : RetryConfig) (delays : ℕ → Duration) (outcome : ℕ → Except BlixardError T)
    (n : ℕ) : Prop :=
  config.Stops (fun n => (saturated delays n).nanos) outcome n

theorem saturatingAdd_saturated (delays : ℕ → Duration) (n : ℕ) :
    (saturated delays n).saturatingAdd (delays (n + 1)) = saturated delays (n + 1) := by
  simp only [saturated, Duration.saturatingAdd, Duration.saturating, accumulated, Duration.mk.injEq]
  omega

theorem exceeds_iff {total : Duration} : config.exceeds total = true ↔
    ∃ limit, config.maxTotalDelay = some limit ∧ limit.nanos < total.nanos := by
  simp [exceeds, Option.any_eq_true]

theorem retryFrom_of_stops (h : config.StopsAt delays outcome (n + 1)) :
    config.retryFrom (fun n => .ok (delays n)) outcome (n + 1) (saturated delays n) =
      ⟨1, [], (outcome (n + 1)).mapError .error⟩ := by
  unfold retryFrom
  rcases ho : outcome (n + 1) with e | res
  · dsimp only [Except.mapError]
    rw [saturatingAdd_saturated]
    split_ifs with hlast hr hless
    · rfl
    · rfl
    · rcases h with ⟨res, hres⟩ | ⟨e', he', hf⟩ | hmany | hmore
      · cases ho.symm.trans hres
      · cases ho.symm.trans he'
        exact absurd hr (Bool.eq_false_iff.1 hf)
      · omega
      · exact absurd (exceeds_iff.2 hmore) hless
    · rfl
  · rfl

theorem retryFrom_of_not_stops (h : ¬ config.StopsAt delays outcome (n + 1)) :
    config.retryFrom (fun n => .ok (delays n)) outcome (n + 1) (saturated delays n) =
      let rest := config.retryFrom (fun n => .ok (delays n)) outcome (n + 1 + 1)
        (saturated delays (n + 1))
      ⟨rest.invocations + 1, delays (n + 1) :: rest.slept, rest.result⟩ := by
  simp only [StopsAt, Stops, not_or] at h
  obtain ⟨hf, hr, hmore, hless⟩ := h
  rw [retryFrom]
  rcases ho : outcome (n + 1) with e | result
  · dsimp only
    rw [dif_neg (by omega), if_pos (by simpa [ho] using hr), saturatingAdd_saturated,
      if_neg (by rwa [exceeds_iff])]
  · exact absurd ⟨result, ho⟩ hf

theorem retryFrom_spec (n left : ℕ) (hleft : config.maxAttempts ≤ n + left)
    (hg : ∀ k, 1 ≤ k → k ≤ n → ¬ config.StopsAt delays outcome k) :
    let r := config.retryFrom (fun n => .ok (delays n)) outcome (n + 1) (saturated delays n)
    ∃ last, n + r.invocations = last + 1 ∧
      IsLeast {k | 1 ≤ k ∧ config.StopsAt delays outcome k} (last + 1) ∧
      r.result = (outcome (last + 1)).mapError .error ∧
      accumulated delays n + (r.slept.map (·.nanos)).sum = accumulated delays last := by
  -- the loop ends here, or what it does is one more step of what it does from the next attempt on
  by_cases ht : config.StopsAt delays outcome (n + 1)
  · rw [retryFrom_of_stops ht]
    refine ⟨n, rfl, ⟨⟨Nat.succ_pos n, ht⟩, fun k hk => ?_⟩, rfl, rfl⟩
    by_contra hless
    exact hg k hk.1 (by omega) hk.2
  cases left with
  | zero => exact absurd (.inr (.inr (.inl (by omega)))) ht
  | succ left =>
    have hg' (k : ℕ) (hk : 1 ≤ k) (hle : k ≤ n + 1) : ¬ config.StopsAt delays outcome k := by
      rcases Nat.lt_or_eq_of_le hle with hlt | rfl
      · exact hg k hk (by omega)
      · exact ht
    obtain ⟨last, hc, hl, hres, hs⟩ :=
      retryFrom_spec (n + 1) left (by omega) hg'
    rw [retryFrom_of_not_stops ht]
    refine ⟨last, by dsimp only; omega, hl, hres, ?_⟩
    rw [← hs, accumulated, List.map_cons, List.sum_cons, ← Nat.add_assoc (accumulated delays n)]

/-- **Retries**: the operation is invoked up to the first success, the first error that is not
    retryable, `max(1, max_attempts)` invocations or the first failure whose delay brings the
    saturated total over the limit; the outcome of the last invocation is returned, and the sleep
    is within a limit that is not the longest duration. -/
theorem retry_exact (config : RetryConfig) (delays : ℕ → Duration)
    (outcome : ℕ → Except BlixardError T) :
    let r := config.retryWith (fun n => .ok (delays n)) outcome
    IsLeast {n | 1 ≤ n ∧ config.StopsAt delays outcome n} r.invocations ∧
      r.result = (outcome r.invocations).mapError .error ∧
      ∀ limit, config.maxTotalDelay = some limit → limit ≠ .max →
        (r.slept.map (·.nanos)).sum ≤ limit.nanos := by
  obtain ⟨last, hcount, hleast, hresult, hslept⟩ := @retryFrom_spec T config delays outcome 0
    config.maxAttempts (by omega) (fun k hk hle => by omega)
  rw [zero_add] at hcount
  refine ⟨hcount ▸ hleast, hcount ▸ hresult, fun limit hlimit hne => ?_⟩
  rw [accumulated, zero_add] at hslept
  rw [retryWith, show Duration.saturating 0 = saturated delays 0 from rfl, hslept]
  rcases Nat.eq_zero_or_pos last with rfl | hpos
  · exact Nat.zero_le _
  -- the invocation before the last one did not stop
  have hless : ¬ config.StopsAt delays outcome last :=
    fun hstops => absurd (hleast.2 ⟨hpos, hstops⟩) (Nat.not_succ_le_self last)
  have hwithin : (saturated delays last).nanos ≤ limit.nanos := by
    by_contra hmore
    exact hless (.inr (.inr (.inr ⟨limit, hlimit, Nat.lt_of_not_le hmore⟩)))
  have hbelow : limit.nanos < Duration.max.nanos := by
    refine Nat.lt_of_le_of_ne limit.le_max fun heq => hne ?_
    cases limit
    cases heq
    rfl
  simp only [saturated, Duration.saturating, Duration.max] at hwithin hbelow
  omega

/-- Every delay is the longest duration, and so is the limit. -/
theorem unlimited_delay :
    let config : RetryConfig := ⟨3, .fixed .max, false, some .max, fun _ => true⟩
    let outcome (_ : ℕ) : Except BlixardError Unit := .error (.temporaryFailure "busy")
    let r := config.retryWith (fun _ => .ok .max) outcome
    r.invocations = 3 ∧ (r.slept.map (·.nanos)).sum = 2 * Duration.max.nanos ∧
      ¬ IsLeast {n | 1 ≤ n ∧ config.Stops (accumulated fun _ => .max) outcome n} r.invocations := by
  intro config outcome r
  have hr : r = ⟨3, [.max, .max], .error (.error (.temporaryFailure "busy"))⟩ := by
    simp [r, retryWith, retryFrom, config, outcome, exceeds, Duration.saturatingAdd,
      Duration.saturating, Duration.max]
  rw [hr]
  refine ⟨rfl, by decide, fun hleast => ?_⟩
  have hsecond : config.Stops (accumulated fun _ => .max) outcome 2 :=
    .inr (.inr (.inr ⟨.max, rfl, by decide⟩))
  exact absurd (hleast.2 ⟨by decide, hsecond⟩) (by decide)

end RetryConfig

/-! ## Fibonacci delays -/

/-- The loop holds two numbers of the sequence in a row. -/
theorem fibonacciLoop_fib {pf : Platform} (n k : ℕ) (h : Nat.fib (k + 1 + n) < 2 ^ 32) :
    fibonacciLoop pf n (Nat.fib k) (Nat.fib (k + 1)) = .ok (Nat.fib (k + 1 + n)) := by
  induction n generalizing k with
  | zero => rfl
  | succ n ih =>
    rw [show k + 1 + (n + 1) = k + 1 + 1 + n by omega] at h ⊢
    have hsum : Nat.fib k + Nat.fib (k + 1) = Nat.fib (k + 1 + 1) := Nat.fib_add_two.symm
    have hlt : Nat.fib k + Nat.fib (k + 1) < 2 ^ 32 :=
      hsum ▸ (Nat.fib_mono (Nat.le_add_right _ n)).trans_lt h
    rw [fibonacciLoop, addUnsigned_of_lt _ hlt, hsum]
    exact ih (k + 1) h

theorem fibonacciLoop_overflow {pf : Platform} (hpf : pf.overflowChecks = true) (n k : ℕ)
    (h : 2 ^ 32 ≤ Nat.fib (k + 1 + n)) (hk : Nat.fib (k + 1) < 2 ^ 32) :
    fibonacciLoop pf n (Nat.fib k) (Nat.fib (k + 1)) =
      .error (.panic "attempt to add with overflow") := by
  induction n generalizing k with
  | zero => exact absurd hk (Nat.not_lt.2 h)
  | succ n ih =>
    rw [show k + 1 + (n + 1) = k + 1 + 1 + n by omega] at h
    have hsum : Nat.fib k + Nat.fib (k + 1) = Nat.fib (k + 1 + 1) := Nat.fib_add_two.symm
    rw [fibonacciLoop]
    by_cases hlt : Nat.fib (k + 1 + 1) < 2 ^ 32
    · rw [addUnsigned_of_lt _ (hsum ▸ hlt), hsum]
      exact ih (k + 1) h hlt
    · rw [addUnsigned, if_pos ⟨hpf, by omega⟩]
      rfl

theorem fib_lt_iff (n : ℕ) : Nat.fib n < 2 ^ 32 ↔ n < 48 := by
  constructor
  · intro h
    by_contra hle
    have hover := (Nat.fib_mono (Nat.not_lt.1 hle)).trans_lt h
    exact absurd hover (by decide +kernel)
  · intro h
    exact (Nat.fib_mono (Nat.le_of_lt_succ h)).trans_lt (by decide +kernel)

theorem fibonacci_eq (pf : Platform) {n : ℕ} (h : n < 48) : fibonacci pf n = .ok (Nat.fib n) := by
  rcases n with _ | _ | n
  · rfl
  · rfl
  · have hloop := @fibonacciLoop_fib pf (n + 1) 0 ((fib_lt_iff _).2 (by omega))
    rwa [show 0 + 1 + (n + 1) = n + 2 by omega] at hloop

theorem Duration.nanos_lesser (a b : Duration) (n : ℕ) :
    ((a.saturatingMul n).lesser b).nanos = min (a.nanos * n) b.nanos := by
  rw [lesser, apply_ite nanos, ← min_def, saturatingMul, saturating, min_assoc,
    min_eq_right b.le_max]

/-- **Fibonacci delays** are computed without overflow, and are the lesser of the maximum and as
    many times the base, exactly for the attempts before the forty-eighth. -/
theorem BackoffStrategy.fibonacci_delay_iff (env : RetryEnv) (base max : Duration) (attempt : ℕ) :
    (∀ pf, (delay { env with platform := pf } attempt (.fibonacci base max)).map (·.nanos) =
      .ok (min (base.nanos * Nat.fib attempt) max.nanos)) ↔ attempt < 48 := by
  constructor
  · intro h
    by_contra hge
    obtain ⟨n, rfl⟩ : ∃ n, attempt = n + 2 := ⟨attempt - 2, by omega⟩
    have hover : 2 ^ 32 ≤ Nat.fib (0 + 1 + (n + 1)) :=
      Nat.not_lt.1 (mt (fib_lt_iff _).1 (by omega))
    have hloop := @fibonacciLoop_overflow { Platform.release with overflowChecks := true } rfl
      (n + 1) 0 hover (by decide)
    have hsum := h { Platform.release with overflowChecks := true }
    rw [delay, Blixard.fibonacci] at hsum
    erw [hloop] at hsum
    cases hsum
  · intro h pf
    rw [delay, fibonacci_eq _ h]
    exact congrArg Except.ok (Duration.nanos_lesser _ _ _)

theorem late_fibonacci_delay : ¬ ∀ (env : RetryEnv) (base max : Duration) (attempt : ℕ),
    (BackoffStrategy.delay env attempt (.fibonacci base max)).map (·.nanos) =
      .ok (min (base.nanos * Nat.fib attempt) max.nanos) := by
  intro h
  have hlate := h ⟨Platform.release, fun _ _ _ => 0, fun _ delay => delay⟩ (.ofMillis 1) .max 48
  exact absurd hlate (by decide +kernel)

end Blixard
