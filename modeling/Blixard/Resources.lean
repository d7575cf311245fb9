/-
  Resources of nodes and the overcommit policy (`resource_management.rs`).

  Amounts are triples: CPU cores, MB of memory, GB of disk.  Ratios are `f64` values,
  kept as their bits; what the code computes with them is a parameter
  (`ResourcePlatform`).
-/
import Blixard.IpPool.Config
import Blixard.Lib.Greedy
import Mathlib.Algebra.Order.Monoid.Prod
import Mathlib.Algebra.Order.Sub.Prod

namespace Blixard

open Greedy

abbrev Amounts := ℕ × ℕ × ℕ

def describe (a : Amounts) : String := s!"CPU: {a.1}, Memory: {a.2.1}MB, Disk: {a.2.2}GB"

structure OvercommitPolicy where
  cpuOvercommitRatio : BitVec 64
  memoryOvercommitRatio : BitVec 64
  diskOvercommitRatio : BitVec 64
  systemReservePercentage : BitVec 64
  deriving DecidableEq

/-- Twice the CPUs, 1.2 times the memory, 1.1 times the disk, and 0.15 for the system. -/
def OvercommitPolicy.moderate : OvercommitPolicy where
  cpuOvercommitRatio := 0x4000000000000000
  memoryOvercommitRatio := 0x3ff3333333333333
  diskOvercommitRatio := 0x3ff199999999999a
  systemReservePercentage := 0x3fc3333333333333

/-- What resource management computes with floats, and the texts of decoding errors. -/
structure ResourcePlatform extends Platform where
  /-- `((n as f64) * ratio * (1.0 - reserve))` as an unsigned integer of `w` bits. -/
  scaled : (w : ℕ) → (ratio reserve : BitVec 64) → (n : ℕ) → ℕ
  /-- A float that is too large becomes the largest integer. -/
  scaled_lt : ∀ w ratio reserve n, scaled w ratio reserve n < 2 ^ w
  discounted : (w : ℕ) → (discount : BitVec 64) → (n : ℕ) → ℕ
  decodeError : Bytes → String

/-- A positive `f64` in units of `2 ^ (-1075)`. -/
def f64Units (bits : BitVec 64) : ℕ :=
  (2 ^ 52 + bits.toNat % 2 ^ 52) * 2 ^ (bits.toNat / 2 ^ 52)

/-- A release build that computes with the exact values of the floats. -/
def ResourcePlatform.exact : ResourcePlatform where
  toPlatform := .release
  scaled w ratio reserve n :=
    min (2 ^ w - 1) (n * f64Units ratio * (2 ^ 1075 - f64Units reserve) / 2 ^ 2150)
  scaled_lt w ratio reserve n := by
    have hw := Nat.two_pow_pos w
    omega
  discounted w discount n := min (2 ^ w - 1) (n * f64Units discount / 2 ^ 1075)
  decodeError _ := "unexpected end of file"

/-! ## One node -/

structure ResourceReservation where
  id : String
  owner : String
  amounts : Amounts
  priority : ℕ
  isHard : Bool
  expiresAt : Option ℤ
  deriving DecidableEq

def ResourceReservation.isExpired (reservation : ResourceReservation) (now : ℤ) : Bool :=
  reservation.expiresAt.any fun expiresAt => expiresAt < now

structure NodeResourceState where
  physicalResources : Amounts
  /-- What is taken, by allocations and by reservations alike. -/
  allocatedResources : Amounts
  reservations : Table String ResourceReservation
  overcommitPolicy : OvercommitPolicy
  deriving DecidableEq

namespace NodeResourceState

def new (physical : Amounts) (overcommitPolicy : OvercommitPolicy) : NodeResourceState :=
  ⟨physical, 0, ∅, overcommitPolicy⟩

variable (rp : ResourcePlatform) (s : NodeResourceState)

def effectiveCapacity : Amounts :=
  let policy := s.overcommitPolicy
  let physical := s.physicalResources
  (rp.scaled 32 policy.cpuOvercommitRatio policy.systemReservePercentage physical.1,
    rp.scaled 64 policy.memoryOvercommitRatio policy.systemReservePercentage physical.2.1,
    rp.scaled 64 policy.diskOvercommitRatio policy.systemReservePercentage physical.2.2)

def availableResources : Amounts := s.effectiveCapacity rp - s.allocatedResources

def canAllocate (required : Amounts) : Bool := required ≤ s.availableResources rp

def allocate (required : Amounts) : Except Failure NodeResourceState :=
  if ¬ s.canAllocate rp required then
    .error (.error (.insufficientResources (describe required)
      (describe (s.availableResources rp))))
  else do
    let cpuCores ← rp.addUnsigned 32 s.allocatedResources.1 required.1
    let memoryMb ← rp.addUnsigned 64 s.allocatedResources.2.1 required.2.1
    let diskGb ← rp.addUnsigned 64 s.allocatedResources.2.2 required.2.2
    return { s with allocatedResources := (cpuCores, memoryMb, diskGb) }

def release (amounts : Amounts) : NodeResourceState :=
  { s with allocatedResources := s.allocatedResources - amounts }

def addReservation (reservation : ResourceReservation) : Except Failure NodeResourceState :=
  if reservation.isHard ∧ ¬ s.canAllocate rp reservation.amounts then
    .error (.error (.insufficientResources
      s!"Reservation {reservation.id}: {describe reservation.amounts}"
      (describe (s.availableResources rp))))
  else do
    let s ← s.allocate rp reservation.amounts
    return { s with reservations := s.reservations.insert reservation.id reservation }

def removeReservation (reservationId : String) : NodeResourceState × Option ResourceReservation :=
  match s.reservations[reservationId]? with
  | none => (s, none)
  | some reservation =>
    (({ s with reservations := s.reservations.erase reservationId } : NodeResourceState).release
      reservation.amounts, some reservation)

/-- Remove what has expired, in the order of the ids; any order gives the same. -/
def cleanupExpiredReservations (now : ℤ) : NodeResourceState :=
  let expired := s.reservations.toList.filter fun row => row.2.isExpired now
  expired.foldl (fun s row => (s.removeReservation row.1).1) s

variable {rp s} in
theorem canAllocate_iff {req : Amounts} :
    s.canAllocate rp req = true ↔ req ≤ s.effectiveCapacity rp - s.allocatedResources :=
  decide_eq_true_iff

def Sound : Prop := s.allocatedResources ≤ s.effectiveCapacity rp

def taken (required : Amounts) : NodeResourceState :=
  { s with
    allocatedResources := Greedy.take (s.effectiveCapacity rp) s.allocatedResources required }

variable {rp s}

theorem Sound.taken (h : s.Sound rp) (req : Amounts) : (s.taken rp req).Sound rp :=
  take_le h req

theorem allocate_eq (h : s.Sound rp) (req : Amounts) : s.allocate rp req = .ok (s.taken rp req) ∨
      (∃ e, s.allocate rp req = .error (.error e)) ∧ s.taken rp req = s := by
  unfold allocate
  by_cases hcan : req ≤ s.effectiveCapacity rp - s.allocatedResources
  · left
    have hsum := (le_tsub_iff_left h).1 hcan
    have hcpu := rp.addUnsigned_of_lt (hsum.1.trans_lt (rp.scaled_lt 32 _ _ _))
    have hmem := rp.addUnsigned_of_lt (hsum.2.1.trans_lt (rp.scaled_lt 64 _ _ _))
    have hdisk := rp.addUnsigned_of_lt (hsum.2.2.trans_lt (rp.scaled_lt 64 _ _ _))
    rw [if_neg (not_not_intro (canAllocate_iff.2 hcan)), hcpu, hmem, hdisk,
      NodeResourceState.taken, take, if_pos hcan]
    rfl
  · right
    rw [if_pos (canAllocate_iff.not.2 hcan)]
    refine ⟨⟨_, rfl⟩, ?_⟩
    rw [NodeResourceState.taken, take, if_neg hcan]

end NodeResourceState

structure ClusterResourceManager where
  nodeStates : Table ℕ NodeResourceState
  defaultPolicy : OvercommitPolicy

namespace ClusterResourceManager

variable (m : ClusterResourceManager)

def new (defaultPolicy : OvercommitPolicy) : ClusterResourceManager := ⟨∅, defaultPolicy⟩

/-- A node that is registered again starts with nothing allocated or reserved, and with the
    default policy. -/
def registerNode (nodeId : ℕ) (physical : Amounts) : ClusterResourceManager :=
  { m with nodeStates := m.nodeStates.insert nodeId (.new physical m.defaultPolicy) }

def updateNodePolicy (nodeId : ℕ) (policy : OvercommitPolicy) :
    Except BlixardError ClusterResourceManager :=
  match m.nodeStates[nodeId]? with
  | none => .error (.nodeNotFound nodeId)
  | some state =>
    .ok { m with nodeStates := m.nodeStates.insert nodeId { state with overcommitPolicy := policy } }

end ClusterResourceManager

end Blixard
