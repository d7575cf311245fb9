/-
  Little-endian and big-endian integers in byte strings, and fields that are read off their
  front.
-/
import Mathlib.Tactic.Ring

abbrev Bytes := List UInt8

namespace Bytes

open List

def leBytes : ℕ → ℕ → Bytes
  | 0, _ => []
  | w + 1, n => UInt8.ofNat n :: leBytes w (n / 256)

def ofLe : Bytes → ℕ
  | [] => 0
  | b :: bs => b.toNat + 256 * ofLe bs

@[simp] theorem length_leBytes (w n : ℕ) : (leBytes w n).length = w := by
  induction w generalizing n with
  | zero => rfl
  | succ w ih => simp [leBytes, ih]

theorem leBytes_add (v w n : ℕ) : leBytes (v + w) n = leBytes v n ++ leBytes w (n / 256 ^ v) := by
  induction v generalizing n with
  | zero => simp [leBytes]
  | succ v ih =>
    rw [Nat.succ_add, leBytes, ih, leBytes, cons_append, Nat.div_div_eq_div_mul, pow_succ']

theorem ofLe_leBytes (w n : ℕ) : ofLe (leBytes w n) = n % 256 ^ w := by
  induction w generalizing n with
  | zero => simp [leBytes, ofLe, Nat.mod_one]
  | succ w ih =>
    have hb : (UInt8.ofNat n).toNat = n % 256 := by simp
    rw [leBytes, ofLe, hb, ih, pow_succ', Nat.mod_mul]

theorem ofLe_append (xs ys : Bytes) : ofLe (xs ++ ys) = ofLe xs + 256 ^ xs.length * ofLe ys := by
  induction xs with
  | nil => simp [ofLe]
  | cons b xs ih =>
    rw [cons_append, ofLe, ih, ofLe, length_cons, pow_succ']
    ring

theorem ofLe_lt (bs : Bytes) : ofLe bs < 256 ^ bs.length := by
  induction bs with
  | nil => simp [ofLe]
  | cons b bs ih =>
    have hb : b.toNat < 256 := b.toNat_lt
    rw [ofLe, length_cons, pow_succ']
    omega

theorem leBytes_ofLe (bs : Bytes) : leBytes bs.length (ofLe bs) = bs := by
  induction bs with
  | nil => rfl
  | cons b bs ih =>
    have hb : b.toNat < 256 := b.toNat_lt
    have hlow : UInt8.ofNat (b.toNat + 256 * ofLe bs) = b := by
      apply UInt8.toNat_inj.1
      rw [UInt8.toNat_ofNat']
      omega
    have hhigh : (b.toNat + 256 * ofLe bs) / 256 = ofLe bs := by omega
    rw [length_cons, ofLe, leBytes, hlow, hhigh, ih]

def beBytes (w n : ℕ) : Bytes := (leBytes w n).reverse

def ofBe (bs : Bytes) : ℕ := ofLe bs.reverse

variable {bs xs ys : Bytes} {n w : ℕ}

theorem beBytes_ofBe (h : bs.length = w) : beBytes w (ofBe bs) = bs := by
  have hw : bs.reverse.length = w := by rw [length_reverse, h]
  rw [beBytes, ofBe, ← hw, leBytes_ofLe, reverse_reverse]

theorem leBytes_inj {m : ℕ} (hm : m < 256 ^ w) (hn : n < 256 ^ w)
    (h : leBytes w m = leBytes w n) : m = n := by
  have hread := congrArg ofLe h
  rwa [ofLe_leBytes, ofLe_leBytes, Nat.mod_eq_of_lt hm, Nat.mod_eq_of_lt hn] at hread

/-! ## Reading fields -/

def takeBytes (n : ℕ) (bs : Bytes) : Option (Bytes × Bytes) :=
  if bs.length < n then none else some (bs.take n, bs.drop n)

def takeLe (w : ℕ) (bs : Bytes) : Option (ℕ × Bytes) :=
  (takeBytes w bs).map fun p => (ofLe p.1, p.2)

theorem takeBytes_append (xs ys : Bytes) : takeBytes xs.length (xs ++ ys) = some (xs, ys) := by
  simp [takeBytes]

theorem takeBytes_eq_some (h : takeBytes n bs = some (xs, ys)) : bs = xs ++ ys ∧ xs.length = n := by
  unfold takeBytes at h
  split_ifs at h with hlt
  simp only [Option.some.injEq, Prod.mk.injEq] at h
  obtain ⟨rfl, rfl⟩ := h
  exact ⟨(take_append_drop n bs).symm, by simp; omega⟩

theorem takeBytes_append_right (h : takeBytes n bs = some (xs, ys))
    (zs : Bytes) : takeBytes n (bs ++ zs) = some (xs, ys ++ zs) := by
  obtain ⟨rfl, rfl⟩ := takeBytes_eq_some h
  rw [append_assoc, takeBytes_append]

theorem takeLe_eq_some (h : takeLe w bs = some (n, ys)) :
    ∃ xs, takeBytes w bs = some (xs, ys) ∧ ofLe xs = n := by
  simp only [takeLe, Option.map_eq_some_iff, Prod.mk.injEq, Prod.exists] at h
  obtain ⟨xs, zs, hx, hn, rfl⟩ := h
  exact ⟨xs, hx, hn⟩

theorem takeLe_append_right (h : takeLe w bs = some (n, ys))
    (zs : Bytes) : takeLe w (bs ++ zs) = some (n, ys ++ zs) := by
  obtain ⟨xs, hx, rfl⟩ := takeLe_eq_some h
  rw [takeLe, takeBytes_append_right hx, Option.map_some]

theorem length_of_takeBytes (h : takeBytes n bs = some (xs, ys)) :
    bs.length = xs.length + ys.length := by
  rw [(takeBytes_eq_some h).1, length_append]

theorem length_of_takeLe (h : takeLe w bs = some (n, ys)) : bs.length = w + ys.length := by
  obtain ⟨xs, hx, -⟩ := takeLe_eq_some h
  rw [length_of_takeBytes hx, (takeBytes_eq_some hx).2]

theorem takeLe_append (w n : ℕ) (ys : Bytes) :
    takeLe w (leBytes w n ++ ys) = some (n % 256 ^ w, ys) := by
  have h := takeBytes_append (leBytes w n) ys
  rw [length_leBytes] at h
  rw [takeLe, h, Option.map_some, ofLe_leBytes]

theorem takeLe_of_lt (h : n < 256 ^ w) (ys : Bytes) :
    takeLe w (leBytes w n ++ ys) = some (n, ys) := by
  rw [takeLe_append, Nat.mod_eq_of_lt h]

theorem takeLe_mod {v k : ℕ} {zs : Bytes} (hw : v ≤ w)
    (h : takeLe w (leBytes v n ++ ys) = some (k, zs)) : k % 256 ^ v = n % 256 ^ v := by
  obtain ⟨xs, hx, rfl⟩ := takeLe_eq_some h
  obtain ⟨ha, hlen⟩ := takeBytes_eq_some hx
  have hxs : xs = leBytes v n ++ xs.drop v := by
    have htake := congrArg (take v) ha
    rw [take_left' (length_leBytes v n), take_append_of_le_length (by omega)] at htake
    rw [htake, take_append_drop]
  rw [hxs, ofLe_append, length_leBytes, ofLe_leBytes, Nat.add_mul_mod_self_left, Nat.mod_mod]

theorem takeLe_lt (h : takeLe w bs = some (n, ys)) : n < 256 ^ w := by
  obtain ⟨xs, hx, rfl⟩ := takeLe_eq_some h
  obtain ⟨-, hlen⟩ := takeBytes_eq_some hx
  exact hlen ▸ ofLe_lt xs

end Bytes
