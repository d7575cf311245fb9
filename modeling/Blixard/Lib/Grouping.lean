/-
  Grouping by a key.

  Items are pushed one after another to the group of their key (`groupBy`).  A group keeps
  the order of its items (`groupBy_apply`); the groups are then gone through in some order of
  the keys, which for a hash map can be any.

  A list that is sorted by its keys is determined by its groups, so inserting an item after
  those of its key is a stable sort (`insertByKey_eq_mergeSort`).
-/
import Mathlib.Data.List.Perm.Basic
import Mathlib.Logic.Function.Basic

namespace Grouping

open List

variable {A K : Type} [DecidableEq K] (key : A → K)

def push (groups : K → List A) (x : A) : K → List A :=
  Function.update groups (key x) (groups (key x) ++ [x])

def groupBy (xs : List A) : K → List A := xs.foldl (push key) fun _ => []

variable (xs : List A)

theorem foldl_push (groups : K → List A) (k : K) :
    xs.foldl (push key) groups k = groups k ++ xs.filter fun x => key x = k := by
  induction xs generalizing groups with
  | nil => simp
  | cons x xs ih =>
    rw [foldl_cons, ih]
    by_cases hk : key x = k
    · subst hk
      simp [push]
    · simp [push, Function.update_of_ne (Ne.symm hk), hk]

@[simp] theorem groupBy_apply (k : K) : groupBy key xs k = xs.filter fun x => key x = k := by
  rw [groupBy, foldl_push, nil_append]

variable {key} {ks : List K} {f : K → List A}

theorem filter_flatMap (hks : ks.Nodup) (hf : ∀ k, ∀ x ∈ f k, key x = k) (k : K) :
    ((ks.flatMap f).filter fun x => key x = k) = if k ∈ ks then f k else [] := by
  induction ks with
  | nil => rfl
  | cons k' ks ih =>
    obtain ⟨hn, hks⟩ := nodup_cons.1 hks
    rw [flatMap_cons, filter_append, ih hks]
    by_cases hk : k' = k
    · subst hk
      rw [if_neg hn, if_pos mem_cons_self, append_nil, filter_eq_self]
      exact fun x hx => decide_eq_true (hf k' x hx)
    have hnone : ((f k').filter fun x => key x = k) = [] :=
      filter_eq_nil_iff.2 fun x hx => by simpa [hf k' x hx] using hk
    rw [hnone, nil_append]
    exact if_congr (by simp [Ne.symm hk]) rfl rfl

theorem flatMap_groupBy_perm (hks : ks.Nodup) {xs : List A} (hxs : ∀ x ∈ xs, key x ∈ ks) :
    (ks.flatMap (groupBy key xs)).Perm xs := by
  have hsome (ks : List K) (hks : ks.Nodup) :
      (ks.flatMap (groupBy key xs)).Perm (xs.filter fun x => key x ∈ ks) := by
    induction ks with
    | nil => simp
    | cons k ks ih =>
      obtain ⟨hn, hks⟩ := nodup_cons.1 hks
      rw [flatMap_cons, groupBy_apply]
      -- the group of `k`, and what is left of the others
      have hf : (xs.filter fun x => key x = k) =
          (xs.filter fun x => key x ∈ k :: ks).filter fun x => key x = k := by
        rw [filter_filter]
        exact filter_congr fun x _ => by by_cases hx : key x = k <;> simp [hx]
      have hrest : (xs.filter fun x => key x ∈ ks) =
          (xs.filter fun x => key x ∈ k :: ks).filter fun x => !decide (key x = k) := by
        rw [filter_filter]
        refine filter_congr fun x _ => ?_
        by_cases hx : key x = k
        · simp [hx, hn]
        · simp [hx]
      refine ((ih hks).append_left _).trans ?_
      rw [hf, hrest]
      exact filter_append_perm _ _
  refine (hsome ks hks).trans (.of_eq (filter_eq_self.2 fun x hx => ?_))
  exact decide_eq_true (hxs x hx)

omit [DecidableEq K] in
theorem pairwise_flatMap_iff {r : K → K → Prop} (hrefl : ∀ k, r k k)
    (hf : ∀ k, ∀ x ∈ f k, key x = k) : ((ks.flatMap f).Pairwise fun x y => r (key x) (key y)) ↔
      (ks.filter fun k => !(f k).isEmpty).Pairwise r := by
  rw [pairwise_flatMap, pairwise_filter]
  constructor
  · rintro ⟨-, hprs⟩
    refine hprs.imp fun {k k'} h hk hk' => ?_
    obtain ⟨x, hx⟩ := exists_mem_of_ne_nil (f k) (by simpa using hk)
    obtain ⟨y, hy⟩ := exists_mem_of_ne_nil (f k') (by simpa using hk')
    rw [← hf k x hx, ← hf k' y hy]
    exact h x hx y hy
  · intro hprs
    refine ⟨fun k _ => ?_, hprs.imp fun {k k'} h x hx y hy => ?_⟩
    · refine pairwise_of_forall_mem_list fun x hx y hy => ?_
      rw [hf k x hx, hf k y hy]
      exact hrefl k
    · rw [hf k x hx, hf k' y hy]
      exact h (by simpa using ne_nil_of_mem hx) (by simpa using ne_nil_of_mem hy)

/-! ## Stable sorting by a number -/

section Stable
variable {A : Type} {key : A → ℕ} {xs ys : List A}

theorem key_le_of_filter_eq {x y : A} (hxs : (x :: xs).Pairwise fun x y => key x ≤ key y)
    (h : ∀ k, ((x :: xs).filter fun x => key x = k) = (y :: ys).filter fun x => key x = k) :
    key x ≤ key y := by
  have hmem : y ∈ (x :: xs).filter fun x => key x = key y := by simp [h]
  rcases mem_cons.1 (mem_filter.1 hmem).1 with rfl | hmem
  · exact Nat.le_refl _
  · exact (pairwise_cons.1 hxs).1 y hmem

/-- A list in the order of its keys is determined by the items of each key. -/
theorem eq_of_filter_eq (hxs : xs.Pairwise fun x y => key x ≤ key y)
    (hys : ys.Pairwise fun x y => key x ≤ key y)
    (h : ∀ k, (xs.filter fun x => key x = k) = ys.filter fun x => key x = k) : xs = ys := by
  induction xs generalizing ys with
  | nil =>
    refine (eq_nil_iff_forall_not_mem.2 fun y hy => ?_).symm
    have hnone := h (key y)
    simp [filter_eq_nil_iff] at hnone
    exact hnone y hy rfl
  | cons x xs ih =>
    cases ys with
    | nil => simpa using h (key x)
    | cons y ys =>
      have hkey : key x = key y :=
        Nat.le_antisymm (key_le_of_filter_eq hxs h) (key_le_of_filter_eq hys fun k => (h k).symm)
      have hhead := h (key x)
      simp only [filter_cons, hkey, decide_true, if_true] at hhead
      obtain ⟨rfl, -⟩ := cons.inj hhead
      refine congrArg (x :: ·) (ih hxs.of_cons hys.of_cons fun k => ?_)
      have hk := h k
      rw [filter_cons, filter_cons] at hk
      split_ifs at hk
      · exact (cons.inj hk).2
      · exact hk

theorem filter_mergeSort (xs : List A) (k : ℕ) :
    ((xs.mergeSort fun x y => key x ≤ key y).filter fun x => key x = k) =
      xs.filter fun x => key x = k := by
  have hp : (xs.filter fun x => key x = k).Pairwise fun x y => decide (key x ≤ key y) := by
    refine pairwise_of_forall_mem_list fun x hx y hy => ?_
    simp_all
  have hs := (sublist_mergeSort (fun a b c => by simpa using Nat.le_trans)
    (fun a b => by simpa using Nat.le_total _ _) hp filter_sublist).filter
      fun x => key x = k
  simp only [filter_filter, Bool.and_self] at hs
  exact (hs.eq_of_length ((mergeSort_perm _ _).filter _).length_eq.symm).symm

def insertByKey (key : A → ℕ) (xs : List A) (x : A) : List A :=
  xs.insertIdx ((xs.findIdx? fun y => key x < key y).getD xs.length) x

theorem insertByKey_cons (x y : A) : insertByKey key (y :: xs) x =
    if key x < key y then x :: y :: xs else y :: insertByKey key xs x := by
  unfold insertByKey
  by_cases h : key x < key y
  · simp [findIdx?_cons, h]
  · cases hidx : xs.findIdx? fun y => key x < key y <;> simp [findIdx?_cons, h, hidx]

theorem insertByKey_perm (x : A) : (insertByKey key xs x).Perm (x :: xs) := by
  induction xs with
  | nil => rfl
  | cons y xs ih =>
    rw [insertByKey_cons]
    split_ifs
    · rfl
    · exact (ih.cons y).trans (.swap x y xs)

theorem pairwise_insertByKey (hxs : xs.Pairwise fun x y => key x ≤ key y) (x : A) :
    (insertByKey key xs x).Pairwise fun x y => key x ≤ key y := by
  induction xs with
  | nil => simp [insertByKey]
  | cons y xs ih =>
    obtain ⟨hy, hrest⟩ := pairwise_cons.1 hxs
    rw [insertByKey_cons]
    split_ifs with hlt
    · refine pairwise_cons.2 ⟨fun z hz => ?_, hxs⟩
      rcases mem_cons.1 hz with rfl | hz
      · exact Nat.le_of_lt hlt
      · exact Nat.le_of_lt (Nat.lt_of_lt_of_le hlt (hy z hz))
    refine pairwise_cons.2 ⟨fun z hz => ?_, ih hrest⟩
    rcases mem_cons.1 ((insertByKey_perm x).mem_iff.1 hz) with rfl | hz
    · exact Nat.le_of_not_lt hlt
    · exact hy z hz

theorem filter_insertByKey (hxs : xs.Pairwise fun x y => key x ≤ key y) (x : A) (k : ℕ) :
    ((insertByKey key xs x).filter fun y => key y = k) = (xs ++ [x]).filter fun y => key y = k := by
  induction xs with
  | nil => rfl
  | cons y xs ih =>
    obtain ⟨hy, hrest⟩ := pairwise_cons.1 hxs
    rw [insertByKey_cons]
    split_ifs with hlt
    · -- no item of the list has the key of the new one
      have hnone : key x = k → ((y :: xs).filter fun y => key y = k) = [] := by
        rintro rfl
        refine filter_eq_nil_iff.2 fun z hz => ?_
        rcases mem_cons.1 hz with rfl | hz
        · simp [Nat.ne_of_gt hlt]
        · simp [Nat.ne_of_gt (Nat.lt_of_lt_of_le hlt (hy z hz))]
      rw [filter_append, filter_cons]
      by_cases hk : key x = k
      · simp [hk, hnone hk]
      · simp [hk]
    · simp [filter_cons, ih hrest]

/-- Inserting an item in a sorted list is a stable sort with the item last. -/
theorem insertByKey_eq_mergeSort (hxs : xs.Pairwise fun x y => key x ≤ key y) (x : A) :
    insertByKey key xs x = (xs ++ [x]).mergeSort fun x y => key x ≤ key y := by
  have hs := @List.pairwise_mergeSort A (fun x y => decide (key x ≤ key y))
    (fun a b c => by simpa using Nat.le_trans) (fun a b => by simpa using Nat.le_total _ _)
    (xs ++ [x])
  simp only [decide_eq_true_eq] at hs
  refine eq_of_filter_eq (pairwise_insertByKey hxs x) hs fun k => ?_
  rw [filter_mergeSort, filter_insertByKey hxs]

end Stable

end Grouping
