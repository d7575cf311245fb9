/-
  The circuit breaker of `common/async_utils.rs`.

  `call` matches on a read guard of the state, which lives until the match ends: the arm
  that makes the breaker half-open asks for the write guard of the same lock, and waits for
  itself (`call_waits_iff`).

  `increment` answers the counter as it was before.  The breaker opens at the failure after
  `failure_threshold` failures in a row (`open_iff_failures_in_a_row`).
-/
import Blixard.Lib.Locks

namespace Blixard.AsyncUtils

open Locks List

inductive CircuitBreakerState where
  | closed | opened | halfOpen
  deriving DecidableEq

inductive CircuitBreakerError (E : Type) where
  | circuitOpen
  | operationFailed (error : E)

def AtomicCounter.increment (value : UInt64) : UInt64 × UInt64 := (value, value + 1)

/-- Durations and instants are in nanoseconds. -/
structure CircuitBreaker where
  failureThreshold : UInt64
  timeout : ℕ
  state : CircuitBreakerState
  failureCount : UInt64
  lastFailureTime : Option ℕ

inductive BreakerLock where
  | state | lastFailureTime
  deriving DecidableEq

/-- A request for a guard, and the guards that the call holds meanwhile. -/
structure Waiting where
  lock : BreakerLock
  mode : Mode
  guards : List (BreakerLock × Mode)

/-- `read().await` or `write().await`: a guard of the same call may exclude the new one. -/
def await (guards : List (BreakerLock × Mode)) (lock : BreakerLock) (mode : Mode) :
    Except Waiting (List (BreakerLock × Mode)) :=
  if ∀ g ∈ guards, g.1 = lock → mode = .read ∧ g.2 = .read then .ok ((lock, mode) :: guards)
  else .error ⟨lock, mode, guards⟩

namespace CircuitBreaker

def new (failureThreshold : UInt64) (timeout : ℕ) : CircuitBreaker :=
  ⟨failureThreshold, timeout, .closed, 0, none⟩

/-- The first `match` of `call`, and whether the operation is to run.  The guard of its
    scrutinee is held in all arms, and the one of the `if let` in its block. -/
def checkState (b : CircuitBreaker) (now : ℕ) : Except Waiting (CircuitBreaker × Bool) := do
  let guards ← await [] .state .read
  match b.state with
  | .opened =>
    let guards ← await guards .lastFailureTime .read
    match b.lastFailureTime with
    | some lastFailure =>
      if b.timeout ≤ now - lastFailure then
        let _ ← await guards .state .write
        return ({ b with state := .halfOpen }, true)
      else return (b, false)
    | none => return (b, true)
  | .halfOpen => return (b, true)
  | .closed => return (b, true)

def onSuccess (b : CircuitBreaker) : Except Waiting CircuitBreaker := do
  let b := { b with failureCount := 0 }
  let _ ← await [] .state .write
  let b := { b with state := .closed }
  let _ ← await [] .lastFailureTime .write
  return { b with lastFailureTime := none }

def onFailure (b : CircuitBreaker) (now : ℕ) : Except Waiting CircuitBreaker := do
  let (failureCount, counter) := AtomicCounter.increment b.failureCount
  let b := { b with failureCount := counter }
  let _ ← await [] .lastFailureTime .write
  let b := { b with lastFailureTime := some now }
  if b.failureThreshold ≤ failureCount then
    let _ ← await [] .state .write
    return { b with state := .opened }
  else return b

variable {R E : Type}

/-- A call at `now` whose operation comes to `result` at `done`.  What other calls do
    meanwhile shows in the fields that it reads, and these are arbitrary. -/
def call (b : CircuitBreaker) (now done : ℕ) (result : Except E R) :
    Except Waiting (CircuitBreaker × Except (CircuitBreakerError E) R) := do
  let (b, runs) ← b.checkState now
  if runs then
    match result with
    | .ok r => return (← b.onSuccess, .ok r)
    | .error e => return (← b.onFailure done, .error (.operationFailed e))
  else return (b, .error .circuitOpen)

/-! ## Waiting for one's own guard -/

/-- The breaker is open, and the timeout has passed since the failure that it remembers. -/
def TimeoutPassed (b : CircuitBreaker) (now : ℕ) : Prop :=
  b.state = .opened ∧ ∃ lastFailure, b.lastFailureTime = some lastFailure ∧
    b.timeout ≤ now - lastFailure

variable (b : CircuitBreaker) (now : ℕ)

theorem onFailure_eq : b.onFailure now =
    .ok { b with
      failureCount := b.failureCount + 1
      lastFailureTime := some now
      state := if b.failureThreshold ≤ b.failureCount then .opened else b.state } := by
  unfold onFailure
  by_cases h : b.failureThreshold ≤ b.failureCount
  · simp only [AtomicCounter.increment, h, if_true]
    rfl
  · simp only [AtomicCounter.increment, h, if_false]
    rfl

theorem checkState_cases : (b.TimeoutPassed now ∧ b.checkState now =
      .error ⟨.state, .write, [(.lastFailureTime, .read), (.state, .read)]⟩) ∨
    (¬ b.TimeoutPassed now ∧ ∃ runs, b.checkState now = .ok (b, runs) ∧
      (b.state ≠ .opened → runs = true)) := by
  unfold checkState TimeoutPassed
  cases hs : b.state with
  | closed | halfOpen => exact .inr ⟨by simp, true, rfl, by simp⟩
  | opened =>
    cases hlast : b.lastFailureTime with
    | none => exact .inr ⟨by simp, true, rfl, by simp⟩
    | some lastFailure =>
      by_cases hp : b.timeout ≤ now - lastFailure
      · refine .inl ⟨⟨rfl, lastFailure, rfl, hp⟩, ?_⟩
        simp only [hp, if_true]
        rfl
      · refine .inr ⟨by simpa using hp, false, ?_, by simp⟩
        simp only [hp, if_false]
        rfl

/-- **A call that waits for its own guard**: exactly one that finds the breaker open past its
    timeout asks for the write lock on the state under its own read guard, and stands there for
    ever. -/
theorem call_waits_iff (b : CircuitBreaker) (now done : ℕ) (result : Except E R) :
    ((∃ w, b.call now done result = .error w ∧ w.lock = .state ∧ w.mode = .write ∧
      (.state, .read) ∈ w.guards) ↔ b.TimeoutPassed now) ∧
    (∀ w, b.call now done result = .error w →
      ∀ (I : Type) (s s' : I → Call BreakerLock) (i : I) (rest : List (Action BreakerLock)),
        s i = ⟨w.guards, .acquire w.lock w.mode :: rest⟩ →
          Relation.ReflTransGen Step s s' → s' i = s i) ∧
    (¬ b.TimeoutPassed now → ∃ returned, b.call now done result = .ok returned) := by
  rcases b.checkState_cases now with ⟨hpassed, hcheck⟩ | ⟨hpassed, runs, hcheck, -⟩
  · have hcall : b.call now done result =
        .error ⟨.state, .write, [(.lastFailureTime, .read), (.state, .read)]⟩ := by
      rw [call, hcheck]
      rfl
    refine ⟨iff_of_true ⟨_, hcall, rfl, rfl, by simp⟩ hpassed, ?_, fun hnot => absurd hpassed hnot⟩
    rintro w hw I s s' i rest hi hsteps
    rw [hcall] at hw
    cases hw
    exact stays_of_own_guard hi (by simp) hsteps
  · have hcall : ∃ returned, b.call now done result = .ok returned := by
      rw [call, hcheck]
      cases runs with
      | false => exact ⟨_, rfl⟩
      | true =>
        cases result with
        | ok r => exact ⟨_, rfl⟩
        | error e => simp [onFailure_eq, bind, Except.bind, pure, Except.pure]
    obtain ⟨returned, hreturned⟩ := hcall
    refine ⟨iff_of_false ?_ hpassed, ?_, fun _ => ⟨returned, hreturned⟩⟩
    · rintro ⟨w, hw, -⟩
      cases hreturned.symm.trans hw
    · intro w hw
      cases hreturned.symm.trans hw

/-! ## Histories of calls -/

def run (b : CircuitBreaker) (calls : List (ℕ × ℕ × Except E R)) : Except Waiting CircuitBreaker :=
  calls.foldlM (fun b c => Prod.fst <$> b.call c.1 c.2.1 c.2.2) b

/-- Two failures open a breaker with a threshold of one; after its timeout the next call, whose
    operation would succeed, waits for the state. -/
theorem recovering_call_waits : ∃ b,
    (new 1 10).run (E := Unit) (R := Unit) [(0, 0, .error ()), (0, 0, .error ())] = .ok b ∧
    b.state = .opened ∧ b.call (E := Unit) 10 10 (.ok ()) =
      .error ⟨.state, .write, [(.lastFailureTime, .read), (.state, .read)]⟩ :=
  ⟨⟨1, 10, .opened, 2, some 0⟩, rfl, rfl, rfl⟩

def failed (c : ℕ × ℕ × Except E R) : Bool := !c.2.2.isOk

def inARow (failures : List Bool) : ℕ :=
  failures.foldl (fun n failed => if failed then n + 1 else 0) 0

theorem inARow_concat (failures : List Bool) (f : Bool) :
    inARow (failures ++ [f]) = if f then inARow failures + 1 else 0 := by
  simp [inARow]

theorem le_inARow_iff {k : ℕ} {failures : List Bool} :
    k ≤ inARow failures ↔ replicate k true <:+ failures := by
  induction failures using reverseRecOn generalizing k with
  | nil => simp [inARow, replicate_eq_nil_iff]
  | append_singleton failures f ih =>
    cases k with
    | zero => simp
    | succ k =>
      rw [inARow_concat, replicate_succ', suffix_concat_iff]
      cases f <;> simp [ih]

def OpenAfter (threshold : UInt64) (timeout : ℕ) (calls : List (ℕ × ℕ × Except E R)) : Prop :=
  ∃ b, (new threshold timeout).run calls = .ok b ∧ b.state = .opened

theorem call_of_closed {b : CircuitBreaker} (h : b.state = .closed) (c : ℕ × ℕ × Except E R) :
    ∃ b', Prod.fst <$> b.call c.1 c.2.1 c.2.2 = .ok b' ∧ b'.failureThreshold = b.failureThreshold ∧
      b'.failureCount = (if failed c then b.failureCount + 1 else 0) ∧
      b'.state = if failed c ∧ b.failureThreshold ≤ b.failureCount then .opened else .closed := by
  obtain ⟨now, done, res⟩ := c
  have hc : b.checkState now = .ok (b, true) := by
    rw [checkState, h]
    rfl
  cases res with
  | ok r =>
    refine ⟨{ b with failureCount := 0, state := .closed, lastFailureTime := none }, ?_, rfl, rfl, ?_⟩
    · rw [call, hc]
      rfl
    · exact (if_neg (by simp [failed, Except.isOk, Except.toBool])).symm
  | error e =>
    refine ⟨{ b with
      failureCount := b.failureCount + 1
      lastFailureTime := some done
      state := if b.failureThreshold ≤ b.failureCount then .opened else b.state }, ?_, rfl, rfl, ?_⟩
    · rw [call, hc]
      simp only [bind, Except.bind, onFailure_eq, if_true]
      rfl
    · simp [failed, Except.isOk, Except.toBool, h]

theorem run_concat (calls : List (ℕ × ℕ × Except E R)) (c : ℕ × ℕ × Except E R) :
    b.run (calls ++ [c]) = b.run calls >>= fun b => Prod.fst <$> b.call c.1 c.2.1 c.2.2 := by
  simp [run, foldlM_append]

variable {threshold : UInt64} (timeout : ℕ) {calls : List (ℕ × ℕ × Except E R)}

theorem run_of_inARow_le (h : ∀ p, p <+: calls → inARow (p.map failed) ≤ threshold.toNat) :
    ∃ b, (new threshold timeout).run calls = .ok b ∧ b.state = .closed ∧
      b.failureThreshold = threshold ∧ b.failureCount.toNat = inARow (calls.map failed) := by
  induction calls using reverseRecOn with
  | nil => exact ⟨_, rfl, rfl, rfl, rfl⟩
  | append_singleton calls c ih =>
    obtain ⟨b, hrun, hs, ht, hc⟩ :=
      ih fun p hp => h p (hp.trans (prefix_append _ _))
    obtain ⟨b', hcall, ht', hc', hs'⟩ := call_of_closed hs c
    have hall := h _ prefix_rfl
    rw [map_append, map_singleton, inARow_concat, ← hc] at hall
    refine ⟨b', by rw [run_concat, hrun]; exact hcall, ?_, ht'.trans ht, ?_⟩
    · rw [hs', if_neg]
      rintro ⟨hf, hle⟩
      rw [if_pos hf] at hall
      rw [ht, UInt64.le_iff_toNat_le] at hle
      omega
    rw [hc', map_append, map_singleton, inARow_concat, ← hc]
    split_ifs at hall ⊢ with hf
    · have hlt := threshold.toNat_lt
      rw [UInt64.toNat_add]
      exact Nat.mod_eq_of_lt (by simp; omega)
    · rfl

theorem openAfter_concat (h : ∀ p, p <+: calls → inARow (p.map failed) ≤ threshold.toNat)
    (c : ℕ × ℕ × Except E R) : OpenAfter threshold timeout (calls ++ [c]) ↔
      threshold.toNat + 1 ≤ inARow ((calls ++ [c]).map failed) := by
  obtain ⟨b, hrun, hs, ht, hc⟩ := run_of_inARow_le timeout h
  obtain ⟨b', hcall, -, -, hs1'⟩ := call_of_closed hs c
  have ha : (new threshold timeout).run (calls ++ [c]) = .ok b' := by
    rw [run_concat, hrun]
    exact hcall
  have hopen : OpenAfter threshold timeout (calls ++ [c]) ↔ b'.state = .opened := by
    simp [OpenAfter, ha]
  rw [hopen, hs1', ht, map_append, map_singleton, inARow_concat]
  by_cases hf : failed c <;> simp [hf, UInt64.le_iff_toNat_le, hc]

theorem inARow_le_of_not_openAfter (h : ∀ p, p <+: calls → ¬ OpenAfter threshold timeout p) :
    ∀ p, p <+: calls → inARow (p.map failed) ≤ threshold.toNat := by
  induction calls using reverseRecOn with
  | nil =>
    intro p hp
    rw [prefix_nil.1 hp]
    exact Nat.zero_le _
  | append_singleton calls c ih =>
    have hpre := ih fun p hp => h p (hp.trans (prefix_append _ _))
    intro p hp
    rcases prefix_concat_iff.1 hp with rfl | hp
    · have hnot := h _ hp
      rw [openAfter_concat timeout hpre] at hnot
      omega
    · exact hpre p hp

theorem not_openAfter (h : ∀ p, p <+: calls → inARow (p.map failed) ≤ threshold.toNat) :
    ¬ OpenAfter threshold timeout calls := by
  rintro ⟨b, hrun, hopen⟩
  obtain ⟨b', hrun', hc, -⟩ := run_of_inARow_le timeout h
  cases hrun.symm.trans hrun'
  simp [hopen] at hc

/-- Up to its first opening, the breaker is open after a call exactly if `k` failures in a row
    end with that call. -/
def OpensAt (threshold : UInt64) (timeout k : ℕ) (history : List (ℕ × ℕ × Except E R)) : Prop :=
  ∀ calls c, calls ++ [c] <+: history → (∀ p, p <+: calls → ¬ OpenAfter threshold timeout p) →
    (OpenAfter threshold timeout (calls ++ [c]) ↔
      List.replicate k true <:+ (calls ++ [c]).map failed)

/-- The threshold is never reached, or the breaker would be open too late. -/
theorem inARow_lt_of_opensAt {hist : List (ℕ × ℕ × Except E R)} (hone : 1 ≤ threshold.toNat)
    (h : OpensAt threshold timeout threshold.toNat hist) :
    ∀ q, q <+: hist → ∀ p, p <+: q → inARow (p.map failed) < threshold.toNat := by
  intro q
  induction q using reverseRecOn with
  | nil =>
    intro _ p hp
    rw [prefix_nil.1 hp]
    exact hone
  | append_singleton calls c ih =>
    intro hq p hp
    have hpre := ih ((prefix_append _ _).trans hq)
    rcases prefix_concat_iff.1 hp with rfl | hp
    · have hle : ∀ p, p <+: calls → inARow (p.map failed) ≤ threshold.toNat :=
        fun p hp => (hpre p hp).le
      have hopen := h calls c hq fun p hp =>
        not_openAfter timeout fun p' hp' => hle p' (hp'.trans hp)
      have hlast := hpre calls prefix_rfl
      rw [openAfter_concat timeout hle, ← le_inARow_iff, map_append, map_singleton,
        inARow_concat] at hopen
      rw [map_append, map_singleton, inARow_concat]
      split_ifs at hopen ⊢ <;> omega
    · exact hpre p hp

/-- **When the breaker opens**: after one failure more in a row than `failure_threshold`; so it
    opens after `failure_threshold` only if there never are as many. -/
theorem open_iff_failures_in_a_row (threshold : UInt64) (timeout : ℕ)
    (history : List (ℕ × ℕ × Except E R)) (hone : 1 ≤ threshold) :
    OpensAt threshold timeout (threshold.toNat + 1) history ∧
    (OpensAt threshold timeout threshold.toNat history ↔
      ¬ List.replicate threshold.toNat true <:+: history.map failed) := by
  refine ⟨fun calls c _ hnot => ?_, fun hopens hinfix => ?_, fun hfew calls c hcalls hnot => ?_⟩
  · rw [openAfter_concat timeout (inARow_le_of_not_openAfter timeout hnot), le_inARow_iff]
  · obtain ⟨q, hsuffix, hq⟩ := List.infix_iff_suffix_prefix.1 hinfix
    obtain ⟨calls, hcalls, rfl⟩ := List.prefix_map_iff.1 hq
    have hless := inARow_lt_of_opensAt timeout (UInt64.le_iff_toNat_le.1 hone) hopens
    exact absurd (le_inARow_iff.2 hsuffix) (hless calls hcalls calls List.prefix_rfl).not_ge
  have hshort : ¬ threshold.toNat ≤ inARow ((calls ++ [c]).map failed) := by
    rw [le_inARow_iff]
    exact fun hsuffix => hfew (hsuffix.isInfix.trans (hcalls.map failed).isInfix)
  rw [openAfter_concat timeout (inARow_le_of_not_openAfter timeout hnot), ← le_inARow_iff]
  omega

/-- A breaker with a threshold of one is open after its second failure. -/
theorem open_after_second_failure : (1 : UInt64) ≤ 1 ∧
    OpenAfter 1 10 ([(0, 0, Except.error ())] ++ [(1, 1, (.error () : Except Unit Unit))]) := by
  refine ⟨by decide, ((open_iff_failures_in_a_row 1 10 _ (by decide)).1 _ _ List.prefix_rfl ?_).2
    (by decide)⟩
  rintro p hp ⟨b, hrun, hopen⟩
  rcases List.prefix_concat_iff.1 (show p <+: [] ++ [_] from hp) with rfl | hp
  · cases hrun
    cases hopen
  · rw [List.prefix_nil.1 hp] at hrun
    cases hrun
    cases hopen

/-- A breaker with a threshold of one is closed after its first failure. -/
theorem closed_after_threshold : ¬ OpensAt 1 10 1 [(0, 0, (.error () : Except Unit Unit))] := by
  intro h
  have hnew (p : List (ℕ × ℕ × Except Unit Unit)) (hp : p <+: []) : ¬ OpenAfter 1 10 p := by
    rintro ⟨b, hrun, hopen⟩
    rw [List.prefix_nil.1 hp] at hrun
    cases hrun
    cases hopen
  obtain ⟨b, hrun, hopen⟩ := (h [] _ List.prefix_rfl hnew).2 (by decide)
  cases hrun
  cases hopen

end CircuitBreaker

end Blixard.AsyncUtils
