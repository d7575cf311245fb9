/-
  Rounding to numbers of so many binary digits.

  `roundTo p q` is the number nearest to `q` of the form `m * 2 ^ e` with `m` of `p` binary
  digits, the one with even `m` if there are two: what binary floating point makes of a
  positive result in the range of its normal numbers.
-/
import Mathlib.Data.Int.Log
import Mathlib.Data.Rat.Floor
import Mathlib.Tactic.Positivity

namespace Rounding

def nearestEven (q : ℚ) : ℤ :=
  if q - ⌊q⌋ < 1 / 2 ∨ q - ⌊q⌋ = 1 / 2 ∧ ⌊q⌋ % 2 = 0 then ⌊q⌋ else ⌊q⌋ + 1

def lastExponent (p : ℕ) (q : ℚ) : ℤ := Int.log 2 q + 1 - p

def roundTo (p : ℕ) (q : ℚ) : ℚ :=
  if q = 0 then 0 else nearestEven (q / 2 ^ lastExponent p q) * 2 ^ lastExponent p q

theorem nearestEven_intCast (n : ℤ) : nearestEven n = n := by
  rw [nearestEven, Int.floor_intCast, sub_self]
  exact if_pos (.inl (by norm_num))

theorem nearestEven_pos {q : ℚ} (h : 1 ≤ q) : 0 < nearestEven q := by
  have hf : 1 ≤ ⌊q⌋ := Int.le_floor.2 (by exact_mod_cast h)
  rw [nearestEven]
  split_ifs <;> omega

variable {p : ℕ} (hp : 0 < p)
include hp

theorem roundTo_pos {q : ℚ} (h : 0 < q) : 0 < roundTo p q := by
  have hunit : (0 : ℚ) < 2 ^ lastExponent p q := zpow_pos two_pos _
  have hdig : (1 : ℚ) ≤ q / 2 ^ lastExponent p q := by
    rw [le_div_iff₀ hunit, one_mul]
    calc (2 : ℚ) ^ lastExponent p q
      _ ≤ 2 ^ Int.log 2 q := zpow_le_zpow_right₀ (by norm_num) (by rw [lastExponent]; omega)
      _ ≤ q := by exact_mod_cast Int.zpow_log_le_self (by norm_num) h
  rw [roundTo, if_neg h.ne']
  exact mul_pos (by exact_mod_cast nearestEven_pos hdig) hunit

theorem roundTo_one : roundTo p 1 = 1 := by
  obtain ⟨d, rfl⟩ : ∃ d, p = d + 1 := ⟨p - 1, by omega⟩
  have hlast : lastExponent (d + 1) 1 = -(d : ℤ) := by
    rw [lastExponent, Int.log_one_right]
    push_cast
    ring
  have hs : (1 : ℚ) / 2 ^ (-(d : ℤ)) = ((2 ^ d : ℤ) : ℚ) := by
    rw [zpow_neg, zpow_natCast, one_div, inv_inv]
    push_cast
    rfl
  rw [roundTo, if_neg one_ne_zero, hlast, hs, nearestEven_intCast, zpow_neg, zpow_natCast]
  push_cast
  exact mul_inv_cancel₀ (by positivity)

end Rounding
