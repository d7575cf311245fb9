/-
  What a node counts as taken (`resource_management.rs`).

  Allocations and reservations go into one total.  A second reservation of an id takes the place
  of the first in the map, and the amounts of the first are never given back
  (`accounting_right_iff`).
-/
import Blixard.Lib.Run
import Blixard.Resources

namespace Blixard

open NodeResourceState Table

namespace NodeResourceState

variable {rp : ResourcePlatform} {s s' : NodeResourceState}

def reserved (s : NodeResourceState) : Amounts :=
  Table.sumOf (fun _ reservation => reservation.amounts) s.reservations

/-! ## The operations on the total -/

theorem allocate_eq_ok (h : s.Sound rp) {req : Amounts} (hok : s.allocate rp req = .ok s') :
    s' = { s with allocatedResources := s.allocatedResources + req } ∧ s'.Sound rp := by
  have hcan : s.canAllocate rp req = true := by
    by_contra hcan
    rw [allocate, if_pos hcan] at hok
    cases hok
  rcases allocate_eq h req with ht | ⟨⟨e, he⟩, -⟩
  · obtain rfl : s.taken rp req = s' := Except.ok.inj (ht.symm.trans hok)
    refine ⟨?_, h.taken req⟩
    rw [taken, Greedy.take, if_pos (canAllocate_iff.1 hcan)]
  · cases he.symm.trans hok

theorem addReservation_eq_ok (h : s.Sound rp) {rsv : ResourceReservation}
    (hok : s.addReservation rp rsv = .ok s') :
    s' = { s with
      allocatedResources := s.allocatedResources + rsv.amounts
      reservations := s.reservations.insert rsv.id rsv } ∧ s'.Sound rp := by
  unfold addReservation at hok
  split_ifs at hok
  obtain ⟨btw, hb, hok⟩ := bind_eq_ok hok
  obtain ⟨rfl, hs⟩ := allocate_eq_ok h hb
  obtain rfl := Except.ok.inj hok
  exact ⟨rfl, hs⟩

theorem Sound.release (h : s.Sound rp) (amts : Amounts) : (s.release amts).Sound rp :=
  le_trans (b := s.allocatedResources) tsub_le_self h

theorem Sound.removeReservation (h : s.Sound rp) (id : String) :
    (s.removeReservation id).1.Sound rp := by
  unfold NodeResourceState.removeReservation
  cases s.reservations[id]? with
  | none => exact h
  | some rsv => exact Sound.release (s := { s with reservations := _ }) h _

theorem removeReservation_total {outstanding : Amounts}
    (h : s.allocatedResources = outstanding + s.reserved) (id : String) :
    (s.removeReservation id).1.allocatedResources =
      outstanding + (s.removeReservation id).1.reserved := by
  unfold removeReservation
  cases hget : s.reservations[id]? with
  | none => exact h
  | some rsv =>
    simp only [release, reserved, h]
    rw [sumOf_of_get _ hget, add_left_comm]
    exact add_tsub_cancel_left _ _

theorem cleanupExpiredReservations_keeps {P : NodeResourceState → Prop}
    (keep : ∀ s id, P s → P (s.removeReservation id).1) (hs : P s) (now : ℤ) :
    P (s.cleanupExpiredReservations now) := by
  unfold cleanupExpiredReservations
  exact Run.foldl_keeps (fun s row h => keep s row.1 h) hs _

end NodeResourceState

/-! ## Histories of a node -/

structure NodeAccount where
  node : NodeResourceState
  outstanding : Amounts

inductive NodeCall where
  | allocate (required : Amounts)
  | release (amounts : Amounts)
  | addReservation (reservation : ResourceReservation)
  | removeReservation (reservationId : String)
  | cleanupExpiredReservations (now : ℤ)

namespace NodeAccount

variable (rp : ResourcePlatform)

def new (physical : Amounts) (policy : OvercommitPolicy) : NodeAccount :=
  ⟨.new physical policy, 0⟩

def step (a : NodeAccount) : NodeCall → NodeAccount
  | .allocate required =>
    match a.node.allocate rp required with
    | .error _ => a
    | .ok node => ⟨node, a.outstanding + required⟩
  | .release amounts =>
    if amounts ≤ a.outstanding then ⟨a.node.release amounts, a.outstanding - amounts⟩ else a
  | .addReservation reservation =>
    match a.node.addReservation rp reservation with
    | .error _ => a
    | .ok node => { a with node }
  | .removeReservation reservationId =>
    { a with node := (a.node.removeReservation reservationId).1 }
  | .cleanupExpiredReservations now =>
    { a with node := a.node.cleanupExpiredReservations now }

/-- The total is what is outstanding and reserved, within the capacity, and nothing is left
    once everything was released and removed. -/
structure Right (a : NodeAccount) : Prop where
  total : a.node.allocatedResources = a.outstanding + a.node.reserved
  bounded : a.node.allocatedResources ≤ a.node.effectiveCapacity rp
  emptied : a.outstanding = 0 → a.node.reservations = ∅ → a.node.allocatedResources = 0

/-- A reservation that replaces another one, if it is accepted, replaces one without
    amounts. -/
def ReplacesNothing (a : NodeAccount) : NodeCall → Prop
  | .addReservation reservation =>
    ∀ node old, a.node.addReservation rp reservation = .ok node →
      a.node.reservations[reservation.id]? = some old → old.amounts = 0
  | _ => True

variable {rp} {a : NodeAccount}

theorem sound_step (a : NodeAccount) (call : NodeCall) (h : a.node.Sound rp) :
    (a.step rp call).node.Sound rp := by
  cases call with
  | allocate req =>
    simp only [step]
    cases hok : a.node.allocate rp req with
    | error fail => exact h
    | ok node => exact (NodeResourceState.allocate_eq_ok h hok).2
  | release amts =>
    simp only [step]
    split_ifs
    · exact h.release amts
    · exact h
  | addReservation rsv =>
    simp only [step]
    cases hok : a.node.addReservation rp rsv with
    | error fail => exact h
    | ok node => exact (NodeResourceState.addReservation_eq_ok h hok).2
  | removeReservation id => exact h.removeReservation id
  | cleanupExpiredReservations now =>
    exact NodeResourceState.cleanupExpiredReservations_keeps
      (fun _ id hs => hs.removeReservation id) h now

theorem sound_new (phys : Amounts) (pol : OvercommitPolicy) : (new phys pol).node.Sound rp :=
  zero_le

/-- **A node is never given more than it has**: whatever is allocated, released, reserved or
    cleaned up, the total stays within the effective capacity of the policy. -/
theorem sound_always (rp : ResourcePlatform) (phys : Amounts) (pol : OvercommitPolicy)
    (calls : List NodeCall) : (calls.foldl (step rp) (new phys pol)).node.Sound rp :=
  Run.foldl_keeps sound_step (sound_new phys pol) calls

structure Balanced (rp : ResourcePlatform) (a : NodeAccount) : Prop where
  total : a.node.allocatedResources = a.outstanding + a.node.reserved
  sound : a.node.Sound rp

theorem Balanced.right (h : a.Balanced rp) : a.Right rp where
  total := h.total
  bounded := h.sound
  emptied hnone he := by
    rw [h.total, hnone, reserved, he, sumOf, toList_empty]
    rfl

/-- A reservation adds to the total what it takes; what it replaces stays in the total. -/
theorem addReservation_total (h : a.Balanced rp) {rsv : ResourceReservation}
    {node : NodeResourceState} (hok : a.node.addReservation rp rsv = .ok node) :
    node.allocatedResources = a.outstanding + node.reserved ↔
      ∀ old, a.node.reservations[rsv.id]? = some old → old.amounts = 0 := by
  obtain ⟨rfl, -⟩ := addReservation_eq_ok h.sound hok
  simp only [h.total, reserved, sumOf_insert]
  cases hget : a.node.reservations[rsv.id]? with
  | none =>
    rw [erase_of_get_none hget]
    refine iff_of_true ?_ nofun
    rw [add_assoc, add_comm rsv.amounts]
  | some old =>
    rw [sumOf_of_get _ hget, add_assoc, add_left_cancel_iff, add_comm _ rsv.amounts,
      add_left_cancel_iff, add_eq_right]
    exact ⟨fun hzero _ heq => Option.some.inj heq ▸ hzero, fun hall => hall old rfl⟩

theorem balanced_step (a : NodeAccount) (call : NodeCall) (h : a.Balanced rp)
    (hcall : a.ReplacesNothing rp call) : (a.step rp call).Balanced rp := by
  refine ⟨?_, sound_step a call h.sound⟩
  cases call with
  | allocate req =>
    simp only [step]
    cases hok : a.node.allocate rp req with
    | error fail => exact h.total
    | ok node =>
      obtain ⟨rfl, -⟩ := allocate_eq_ok h.sound hok
      show a.node.allocatedResources + req = a.outstanding + req + a.node.reserved
      rw [h.total, add_right_comm]
  | release amts =>
    simp only [step]
    split_ifs with hle
    · show a.node.allocatedResources - amts = a.outstanding - amts + a.node.reserved
      rw [h.total, tsub_add_eq_add_tsub hle]
    · exact h.total
  | addReservation rsv =>
    simp only [step]
    cases hok : a.node.addReservation rp rsv with
    | error fail => exact h.total
    | ok node => exact (addReservation_total h hok).2 fun old => hcall node old hok
  | removeReservation id => exact removeReservation_total h.total id
  | cleanupExpiredReservations now =>
    exact cleanupExpiredReservations_keeps
      (P := fun s => s.allocatedResources = a.outstanding + s.reserved)
      (fun _ id hs => removeReservation_total hs id) h.total now

theorem not_right_step (a : NodeAccount) (call : NodeCall) (h : a.Balanced rp)
    (hcall : ¬ a.ReplacesNothing rp call) : ¬ (a.step rp call).Right rp := by
  intro hr
  cases call with
  | addReservation rsv =>
    apply hcall
    intro node old hok
    have htot := hr.total
    simp only [step, hok] at htot
    exact (addReservation_total h hok).1 htot old
  | allocate | release | removeReservation | cleanupExpiredReservations => exact hcall trivial

/-- **When a node counts right**: in every state of a history, if and only if every
    reservation that is replaced had no amounts. -/
theorem accounting_right_iff (rp : ResourcePlatform) (physical : Amounts)
    (policy : OvercommitPolicy) (calls : List NodeCall) :
    (∀ a ∈ calls.scanl (step rp) (new physical policy), a.Right rp) ↔
      Run.Along (step rp) (ReplacesNothing rp) (new physical policy) calls := by
  refine Run.holds_iff_along balanced_step (fun _ h => h.right) not_right_step ?_
  refine ⟨?_, sound_new physical policy⟩
  rw [NodeResourceState.reserved]
  show (0 : Amounts) = 0 + Table.sumOf _ (∅ : Table String ResourceReservation)
  rw [Table.sumOf, Table.toList_empty]
  rfl

def twoCores : ResourceReservation := ⟨"vm-1", "vm-1", (2, 0, 0), 0, true, none⟩

/-- The id is reserved twice and removed: two cores stay taken for good. -/
theorem replaced_reservation_stays :
    ¬ ∀ (rp : ResourcePlatform) (physical : Amounts) (policy : OvercommitPolicy)
      (calls : List NodeCall), ∀ a ∈ calls.scanl (step rp) (new physical policy), a.Right rp := by
  intro h
  have hlast := h .exact (10, 16384, 100) .moderate
    [.addReservation twoCores, .addReservation twoCores, .removeReservation "vm-1"] _
    (Run.foldl_mem_scanl _ _)
  have hleft := hlast.emptied (by decide +kernel) (by decide +kernel)
  revert hleft
  decide +kernel

end NodeAccount

end Blixard
