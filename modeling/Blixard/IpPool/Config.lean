/-
  Addresses, networks and pool configurations (`ip_pool.rs`, first half).

  What a network contains is decided by a library outside the repository, so it is a parameter,
  as is the rounding of the `f64` utilisation figure.
-/
import Blixard.Types

namespace Blixard

/-! ## Addresses -/

inductive IpAddr where
  | v4 (bits : BitVec 32)
  | v6 (bits : BitVec 128)
  deriving DecidableEq

/-- The number the order of addresses goes by: IPv4 comes before IPv6. -/
def IpAddr.rank : IpAddr → ℕ
  | v4 bits => bits.toNat
  | v6 bits => 2 ^ 32 + bits.toNat

theorem IpAddr.rank_injective : ∀ a b : IpAddr, a.rank = b.rank → a = b
  | v4 a, v4 b, h => congrArg v4 (BitVec.eq_of_toNat_eq h)
  | v6 a, v6 b, h => congrArg v6 (BitVec.eq_of_toNat_eq (Nat.add_left_cancel h))
  | v4 a, v6 b, h => by have := a.isLt; simp only [rank] at h; omega
  | v6 a, v4 b, h => by have := b.isLt; simp only [rank] at h; omega

instance : Ord IpAddr := ⟨compareOn IpAddr.rank⟩
instance : Std.TransOrd IpAddr := transCmp_compareOn _
instance : Std.LawfulEqOrd IpAddr := lawfulEqCmp_compareOn IpAddr.rank_injective

abbrev IpSet := Table IpAddr Unit

def displayV4 (n : ℕ) : String :=
  s!"{n / 2 ^ 24 % 256}.{n / 2 ^ 16 % 256}.{n / 2 ^ 8 % 256}.{n % 256}"

def segments (n : ℕ) : List ℕ :=
  [7, 6, 5, 4, 3, 2, 1, 0].map fun i => n / 2 ^ (16 * i) % 2 ^ 16

def displaySegments (chunk : List ℕ) : String :=
  ":".intercalate (chunk.map fun s => String.ofList (Nat.toDigits 16 s))

/-- Start and length of the longest run of zero groups, the first of them on a
    tie.  The accumulator holds the position, the current run and the best one. -/
def longestZeros : List ℕ → ℕ → ℕ × ℕ → ℕ × ℕ → ℕ × ℕ
  | [], _, _, longest => longest
  | s :: rest, i, current, longest =>
    if s = 0 then
      let current := (if current.2 = 0 then i else current.1, current.2 + 1)
      longestZeros rest (i + 1) current (if longest.2 < current.2 then current else longest)
    else longestZeros rest (i + 1) (0, 0) longest

def displayV6 (n : ℕ) : String :=
  -- an IPv4-mapped address ends in the text of the IPv4 address
  if n / 2 ^ 32 = 0xffff then s!"::ffff:{displayV4 (n % 2 ^ 32)}"
  else
    let zeroes := longestZeros (segments n) 0 (0, 0) (0, 0)
    if 1 < zeroes.2 then
      displaySegments ((segments n).take zeroes.1) ++ "::" ++
        displaySegments ((segments n).drop (zeroes.1 + zeroes.2))
    else displaySegments (segments n)

def IpAddr.display : IpAddr → String
  | v4 bits => displayV4 bits.toNat
  | v6 bits => displayV6 bits.toNat

structure IpNet where
  addr : IpAddr
  prefixLen : ℕ
  deriving DecidableEq

def IpNet.display (net : IpNet) : String := s!"{net.addr.display}/{net.prefixLen}"

/-- What the build and the libraries outside the repository decide. -/
structure Platform where
  overflowChecks : Bool
  subnetContains : IpNet → IpAddr → Bool
  maxPermits : ℕ
  /-- `(in_use as f64 / max_size as f64 * 100.0 * 1000.0) as u64`. -/
  utilization : ℕ → ℕ → ℕ

/-- Prefix containment, as networks are documented to decide it. -/
def IpNet.contains (net : IpNet) : IpAddr → Bool
  | .v4 ip => match net.addr with
    | .v4 a => a.toNat / 2 ^ (32 - net.prefixLen) = ip.toNat / 2 ^ (32 - net.prefixLen)
    | .v6 _ => false
  | .v6 ip => match net.addr with
    | .v4 _ => false
    | .v6 a => a.toNat / 2 ^ (128 - net.prefixLen) = ip.toNat / 2 ^ (128 - net.prefixLen)

namespace Platform

variable (pf : Platform)

/-- `a - b` in `w`-bit unsigned arithmetic: a build with overflow checks panics
    where one without them wraps. -/
def subUnsigned (w a b : ℕ) : Except Failure ℕ :=
  if pf.overflowChecks ∧ a < b then .error (.panic "attempt to subtract with overflow")
  else .ok ((a + 2 ^ w - b) % 2 ^ w)

def addUnsigned (w a b : ℕ) : Except Failure ℕ :=
  if pf.overflowChecks ∧ 2 ^ w ≤ a + b then .error (.panic "attempt to add with overflow")
  else .ok ((a + b) % 2 ^ w)

/-- A sum is what is left of it in `w` bits; a build with overflow checks has it only if it
    fits. -/
theorem addUnsigned_eq_ok {pf : Platform} {w a b total : ℕ} : pf.addUnsigned w a b = .ok total ↔
      (a + b) % 2 ^ w = total ∧ (pf.overflowChecks → a + b < 2 ^ w) := by
  unfold addUnsigned
  by_cases h : pf.overflowChecks ∧ 2 ^ w ≤ a + b
  · rw [if_pos h]
    constructor
    · intro htot
      cases htot
    · intro htot
      exact absurd (htot.2 h.1) (Nat.not_lt.2 h.2)
  · rw [if_neg h, Except.ok.injEq]
    exact (and_iff_left fun hc => Nat.lt_of_not_le fun hle => h ⟨hc, hle⟩).symm

theorem addUnsigned_of_lt {w a b : ℕ} (h : a + b < 2 ^ w) : pf.addUnsigned w a b = .ok (a + b) :=
  addUnsigned_eq_ok.2 ⟨Nat.mod_eq_of_lt h, fun _ => h⟩

def mulUnsigned (w a b : ℕ) : Except Failure ℕ :=
  if pf.overflowChecks ∧ 2 ^ w ≤ a * b then .error (.panic "attempt to multiply with overflow")
  else .ok (a * b % 2 ^ w)

theorem mulUnsigned_of_lt {w a b : ℕ} (h : a * b < 2 ^ w) : pf.mulUnsigned w a b = .ok (a * b) := by
  rw [mulUnsigned, if_neg fun hover => Nat.not_le.2 h hover.2, Nat.mod_eq_of_lt h]

def addSigned (w : ℕ) (a b : ℤ) : Except Failure ℤ :=
  if pf.overflowChecks ∧ (a + b).bmod (2 ^ w) ≠ a + b then
    .error (.panic "attempt to add with overflow")
  else .ok ((a + b).bmod (2 ^ w))

/-- `(used as iW + delta).max(0) as uW`. -/
def applyDelta (w used : ℕ) (delta : ℤ) : Except Failure ℕ :=
  (pf.addSigned w ((used : ℤ).bmod (2 ^ w)) delta).map fun s => (max s 0).toNat

def release : Platform where
  overflowChecks := false
  subnetContains := IpNet.contains
  maxPermits := 2 ^ 61 - 1
  utilization inUse maxSize := inUse * 100000 / maxSize

end Platform

/-! ## Pool configurations -/

structure IpPoolId where
  id : ℕ
  deriving DecidableEq

instance : Ord IpPoolId := ⟨compareOn IpPoolId.id⟩
instance : Std.TransOrd IpPoolId := transCmp_compareOn _
instance : Std.LawfulEqOrd IpPoolId := lawfulEqCmp_compareOn (by
  rintro ⟨a⟩ ⟨b⟩ h
  exact congrArg IpPoolId.mk h)

def IpPoolId.display (p : IpPoolId) : String := s!"pool-{p.id}"

structure IpPoolConfig where
  id : IpPoolId
  name : String
  subnet : IpNet
  vlanId : Option ℕ
  gateway : IpAddr
  dnsServers : List IpAddr
  allocationStart : IpAddr
  allocationEnd : IpAddr
  topologyHint : Option String
  reservedIps : IpSet
  enabled : Bool
  tags : List (String × String)
  deriving DecidableEq

namespace IpPoolConfig

variable (pf : Platform) (c : IpPoolConfig)

/-- The start of the range comes after its end, or the two are of different
    versions. -/
def rangeError : Option String :=
  match c.allocationStart, c.allocationEnd with
  | .v4 first, .v4 last =>
    if last.toNat < first.toNat then some "Allocation start is after allocation end" else none
  | .v6 first, .v6 last =>
    if last.toNat < first.toNat then some "Allocation start is after allocation end" else none
  | _, _ => some "Allocation range addresses must be same IP version"

def checkInSubnet (component label : String) (ip : IpAddr) : Except BlixardError Unit :=
  if pf.subnetContains c.subnet ip then .ok ()
  else .error (.configurationError component
    s!"{label} {ip.display} is not within subnet {c.subnet.display}")

def validate : Except BlixardError Unit := do
  c.checkInSubnet pf "ip_pool.gateway" "Gateway" c.gateway
  c.checkInSubnet pf "ip_pool.allocation_start" "Allocation start" c.allocationStart
  c.checkInSubnet pf "ip_pool.allocation_end" "Allocation end" c.allocationEnd
  match c.rangeError with
  | some message => throw (.configurationError "ip_pool.allocation_range" message)
  | none => pure ()
  c.reservedIps.keys.forM (c.checkInSubnet pf "ip_pool.reserved_ips" "Reserved IP")
  match c.vlanId with
  | some vlan =>
    if vlan = 0 ∨ 4094 < vlan then
      throw (.configurationError "ip_pool.vlan_id" s!"Invalid VLAN ID {vlan}: must be 1-4094")
  | none => pure ()

/-- `total_capacity`, on 32, 128 and 64 bits as the source computes it. -/
def totalCapacity : Except Failure ℕ :=
  match c.allocationStart, c.allocationEnd with
  | .v4 first, .v4 last => do
    let span ← pf.subUnsigned 32 last.toNat first.toNat
    let count ← pf.addUnsigned 32 span 1
    pf.subUnsigned 64 count c.reservedIps.size
  | .v6 first, .v6 last => do
    let span ← pf.subUnsigned 128 last.toNat first.toNat
    let count ← pf.addUnsigned 128 span 1
    pf.subUnsigned 64 (min count (2 ^ 64 - 1)) c.reservedIps.size
  | _, _ => .ok 0

end IpPoolConfig

/-! ## Allocations and commands -/

structure IpAllocation where
  ip : IpAddr
  poolId : IpPoolId
  vmId : VmId
  macAddress : String
  allocatedAt : ℤ
  expiresAt : Option ℤ
  deriving DecidableEq

inductive IpPoolCommand where
  | createPool (config : IpPoolConfig)
  | updatePool (config : IpPoolConfig)
  | deletePool (poolId : IpPoolId)
  | setPoolEnabled (poolId : IpPoolId) (enabled : Bool)
  | reserveIps (poolId : IpPoolId) (ips : IpSet)
  | releaseReservedIps (poolId : IpPoolId) (ips : IpSet)

inductive IpPoolSelectionStrategy where
  | leastUtilized | mostUtilized | roundRobin | topologyAware | random
  deriving DecidableEq

structure IpAllocationRequest where
  vmId : VmId
  preferredPool : Option IpPoolId
  requiredTags : List (String × String)
  topologyHint : Option String
  selectionStrategy : IpPoolSelectionStrategy
  macAddress : String

structure NetworkConfig where
  ipAddress : IpAddr
  subnet : IpNet
  gateway : IpAddr
  dnsServers : List IpAddr
  vlanId : Option ℕ
  macAddress : String
  deriving DecidableEq

structure IpAllocationResult where
  allocation : IpAllocation
  networkConfig : NetworkConfig
  deriving DecidableEq

end Blixard
