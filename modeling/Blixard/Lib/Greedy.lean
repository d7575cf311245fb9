/-
  Filling a capacity with requests, as far as they fit.

  `fill cap total rs` takes the requests in order on top of `total` and leaves out each
  one that does not fit into what is left of the capacity.  It stays within the capacity
  (`fill_le`) and counts everything exactly if everything fits together
  (`fill_eq_add_sum_iff`).
-/
import Mathlib.Algebra.BigOperators.Group.List.Basic
import Mathlib.Algebra.Order.Sub.Basic

namespace Greedy

variable {M : Type} [AddCommMonoid M] [PartialOrder M] [IsOrderedCancelAddMonoid M]
  [CanonicallyOrderedAdd M] [Sub M] [OrderedSub M] [DecidableLE M]

def take (cap total r : M) : M := if r ≤ cap - total then total + r else total

def fill (cap total : M) (rs : List M) : M := rs.foldl (take cap) total

variable {cap total : M}

omit [CanonicallyOrderedAdd M] in
theorem take_of_add_le {r : M} (h : total + r ≤ cap) : take cap total r = total + r := by
  rw [take, if_pos (le_tsub_of_add_le_left h)]

omit [IsOrderedCancelAddMonoid M] [OrderedSub M] in
@[simp] theorem take_zero : take cap total 0 = total := by
  rw [take, if_pos zero_le, add_zero]

theorem take_le (h : total ≤ cap) (r : M) : take cap total r ≤ cap := by
  unfold take
  split_ifs with hr
  · exact (le_tsub_iff_left h).1 hr
  · exact h

theorem fill_le (h : total ≤ cap) (rs : List M) : fill cap total rs ≤ cap := by
  induction rs generalizing total with
  | nil => exact h
  | cons r rs ih => exact ih (take_le h r)

theorem fill_eq_add_sum_iff (h : total ≤ cap) (rs : List M) :
    fill cap total rs = total + rs.sum ↔ total + rs.sum ≤ cap := by
  constructor
  · intro heq
    rw [← heq]
    exact fill_le h rs
  intro hle
  clear h
  induction rs generalizing total with
  | nil => simp [fill]
  | cons r rs ih =>
    rw [List.sum_cons, ← add_assoc] at hle
    have hr : total + r ≤ cap := le_self_add.trans hle
    show fill cap (take cap total r) rs = _
    rw [take_of_add_le hr, ih hle, List.sum_cons, add_assoc]

end Greedy
