/-
  Errors of the Blixard core (`error/types.rs`), and the two ways a call can end
  without an answer.

  Only the variants that the modelled functions build or look for are here.  `display` is
  the `Display` text of an error, which ends up inside other messages.
-/
import Mathlib.Data.Nat.Notation

namespace Blixard

open List

/-- `BlixardError`; the boxed `source` of a variant is its message. -/
inductive BlixardError where
  | raftError (source : String)
  | raft (operation source : String)
  | serialization (operation source : String)
  | internal (message : String)
  | configurationError (component message : String)
  | notFound (resource : String)
  | alreadyExists (resource : String)
  | resourceExhausted (resource : String)
  | invalidOperation (operation reason : String)
  | nodeNotFound (nodeId : ℕ)
  | insufficientResources (requested available : String)
  | schedulingError (message : String)
  | notLeader (operation : String) (leaderId : Option ℕ)
  | timeout (operation : String) (secs : ℕ)
  | resourceUnavailable (resourceType message : String)
  | networkError (message : String)
  | connectionError (address details : String)
  | temporaryFailure (details : String)
  | storage (operation source : String)
  | vmOperationFailed (operation details : String)
  | clusterError (message : String)
  | security (message : String)
  | lockPoisoned (operation source : String)
  deriving DecidableEq

def debugOption : Option ℕ → String
  | none => "None"
  | some n => s!"Some({n})"

def BlixardError.display : BlixardError → String
  | raftError source => s!"Raft error: {source}"
  | raft operation _ => s!"Raft operation '{operation}' failed"
  | serialization operation _ => s!"Serialization operation '{operation}' failed"
  | internal message => s!"Internal error: {message}"
  | configurationError component message => s!"Configuration error in {component}: {message}"
  | notFound resource => s!"Resource not found: {resource}"
  | alreadyExists resource => s!"Already exists: {resource}"
  | resourceExhausted resource => s!"Resource exhausted: {resource}"
  | invalidOperation operation reason => s!"Invalid operation '{operation}': {reason}"
  | nodeNotFound nodeId => s!"Node not found: {nodeId}"
  | insufficientResources requested available =>
    s!"Insufficient resources: requested {requested}, available {available}"
  | schedulingError message => s!"Scheduling error: {message}"
  | notLeader operation leaderId =>
    s!"Not leader for operation '{operation}', current leader: {debugOption leaderId}"
  | timeout operation secs => s!"Operation timed out: {operation} after {secs}s"
  | resourceUnavailable resourceType message =>
    s!"Resource unavailable: {resourceType} - {message}"
  | networkError message => s!"Network error: {message}"
  | connectionError address details => s!"Connection error to {address}: {details}"
  | temporaryFailure details => s!"Temporary failure: {details}"
  | storage operation _ => s!"Storage operation '{operation}' failed"
  | vmOperationFailed operation details => s!"VM operation '{operation}' failed: {details}"
  | clusterError message => s!"Cluster error: {message}"
  | security message => s!"Security error: {message}"
  | lockPoisoned operation _ => s!"Lock poisoned during {operation}"

def BlixardError.lockPoisonedInternal (resource : String) : BlixardError :=
  lockPoisoned s!"accessing {resource}" "Lock was poisoned by another thread"

/-- How a call can fail: with an error value, by a panic, or by waiting for a
    lock that its own caller holds. -/
inductive Failure where
  | error (e : BlixardError)
  | panic (message : String)
  | deadlock
  deriving DecidableEq

/-- The failures that end the task instead of returning an error value. -/
def Failure.fatal : Failure → Bool
  | error _ => false
  | panic _ | deadlock => true

def endsTask : Except Failure Unit → Bool
  | .error failure => failure.fatal
  | .ok () => false

variable {α β ε : Type}

theorem bind_eq_ok {x : Except ε α} {f : α → Except ε β} {b : β}
    (h : (x >>= f) = .ok b) : ∃ a, x = .ok a ∧ f a = .ok b := by
  cases x with
  | error e => cases h
  | ok a => exact ⟨a, rfl, h⟩

theorem map_eq_ok {x : Except ε α} {f : α → β} {b : β} (h : x.map f = .ok b) :
    ∃ a, x = .ok a ∧ f a = b := by
  cases x with
  | error e => cases h
  | ok a => exact ⟨a, rfl, Except.ok.inj h⟩

theorem map_eq_map_cases {γ : Type} {x : Except ε α} {y : Except ε β} {f : α → γ}
    {g : β → γ} (h : x.map f = y.map g) :
    (∃ e, x = .error e ∧ y = .error e) ∨ ∃ a b, x = .ok a ∧ y = .ok b ∧ f a = g b := by
  cases x with
  | error e =>
    cases y with
    | error e' =>
      cases h
      exact .inl ⟨e, rfl, rfl⟩
    | ok b => cases h
  | ok a =>
    obtain ⟨b, hb, hg⟩ := map_eq_ok h.symm
    exact .inr ⟨a, b, rfl, hb, hg.symm⟩

theorem exists_of_mem_mapM {f : α → Except ε β} {xs : List α} {ys : List β}
    (h : xs.mapM f = .ok ys) {y : β} (hy : y ∈ ys) : ∃ x ∈ xs, f x = .ok y := by
  induction xs generalizing ys with
  | nil =>
    cases h
    cases hy
  | cons x xs ih =>
    rw [mapM_cons] at h
    obtain ⟨first, hf, h⟩ := bind_eq_ok h
    obtain ⟨rest, hrest, h⟩ := bind_eq_ok h
    cases h
    rcases mem_cons.1 hy with rfl | hy
    · exact ⟨x, mem_cons_self, hf⟩
    · obtain ⟨x', hx', hfx⟩ := ih hrest hy
      exact ⟨x', mem_cons_of_mem x hx', hfx⟩

end Blixard
