/-
  Maps that are searched by halves (`zero_cost/const_collections.rs`).
-/
import Blixard.Error
import Mathlib.Data.List.Nodup
import Mathlib.Order.Compare
import Mathlib.Order.Lattice
import Mathlib.Order.Nat

namespace Blixard

/-- The array has the length of the list. -/
structure ConstMap (K V : Type) where
  entries : List (K × V)

namespace ConstMap

open List

variable {K V : Type} [LinearOrder K]

/-- One comparison of the sort; both positions are in the array. -/
def swapAt (entries : List (K × V)) (j : ℕ) : List (K × V) :=
  match entries[j]?, entries[j + 1]? with
  | some a, some b => if b.1 < a.1 then (entries.set j b).set (j + 1) a else entries
  | _, _ => entries

def fromUnsorted (entries : List (K × V)) : ConstMap K V :=
  ⟨(range entries.length).foldl
    (fun es i => (range (entries.length - 1 - i)).foldl swapAt es) entries⟩

/-- The loop of `get`. -/
def search (entries : List (K × V)) (key : K) (left right : ℕ) : Except Failure (Option V) :=
  if _h : left < right then
    let mid := (left + right) / 2
    match entries[mid]? with
    | none => .error (.panic "index out of bounds")
    | some entry =>
      match compare entry.1 key with
      | .eq => .ok (some entry.2)
      | .lt => search entries key (mid + 1) right
      | .gt => search entries key left mid
  else .ok none
  termination_by right - left

def get (m : ConstMap K V) (key : K) : Except Failure (Option V) :=
  search m.entries key 0 m.entries.length

/-! ## Sorting -/

variable {a b : K × V} {es l back : List (K × V)} {key : K}

theorem swapAt_zero : swapAt (a :: b :: l) 0 = if b.1 < a.1 then b :: a :: l else a :: b :: l := rfl

theorem swapAt_succ (j : ℕ) : swapAt (a :: l) (j + 1) = a :: swapAt l j := by
  simp only [swapAt, getElem?_cons_succ, set_cons_succ]
  split
  · split_ifs <;> rfl
  · rfl

theorem pass_cons (n : ℕ) :
    ((range n).map Nat.succ).foldl swapAt (a :: l) = a :: (range n).foldl swapAt l := by
  generalize range n = js
  induction js generalizing l with
  | nil => rfl
  | cons j js ih => rw [map_cons, foldl_cons, swapAt_succ, ih, foldl_cons]

/-- A pass moves a greatest entry to the end of what it compares. -/
theorem pass_spec (a : K × V) (l back : List (K × V)) : ∃ front last,
    (range l.length).foldl swapAt (a :: (l ++ back)) = front ++ last :: back ∧
      (front ++ [last]).Perm (a :: l) ∧ ∀ x ∈ front, x.1 ≤ last.1 := by
  induction l generalizing a with
  | nil => exact ⟨[], a, rfl, .refl _, by simp⟩
  | cons b l ih =>
    rw [length_cons, range_succ_eq_map, foldl_cons, cons_append, swapAt_zero]
    -- the greater one of the two goes on
    have hgo : ∀ x y : K × V, x.1 ≤ y.1 → [x, y].Perm [a, b] → ∃ front last,
        ((range l.length).map Nat.succ).foldl swapAt (x :: y :: (l ++ back)) =
          front ++ last :: back ∧
          (front ++ [last]).Perm (a :: b :: l) ∧ ∀ x ∈ front, x.1 ≤ last.1 := by
      intro x y hxy hperm
      obtain ⟨front, last, hpass, hsame, hle⟩ := ih y
      have hlast : y.1 ≤ last.1 := by
        rcases mem_append.1 (hsame.symm.subset mem_cons_self) with hy | hy
        · exact hle y hy
        · rw [mem_singleton.1 hy]
      refine ⟨x :: front, last, ?_, ?_, ?_⟩
      · rw [pass_cons, hpass, cons_append]
      · exact (hsame.cons x).trans (hperm.append_right l)
      · rintro z (_ | ⟨_, hz⟩)
        · exact hxy.trans hlast
        · exact hle z hz
    split_ifs with hlt
    · exact hgo b a hlt.le (.swap _ _ _)
    · exact hgo a b (not_lt.1 hlt) (.refl _)

theorem rounds_spec (es : List (K × V)) {i : ℕ} (hi : i ≤ es.length) : ∃ front back,
    (range i).foldl (fun es' i => (range (es.length - 1 - i)).foldl swapAt es') es = front ++ back ∧
      front.length = es.length - i ∧ (front ++ back).Perm es ∧
      back.Pairwise (fun x y => x.1 ≤ y.1) ∧ ∀ x ∈ front, ∀ y ∈ back, x.1 ≤ y.1 := by
  induction i with
  | zero => exact ⟨es, [], by simp⟩
  | succ i ih =>
    obtain ⟨front, back, ht, hlen, hperm, hs, hle⟩ := ih (by omega)
    obtain ⟨a, l, rfl⟩ := exists_cons_of_length_pos (by omega : 0 < front.length)
    obtain ⟨front, last, hpass, hsame, hmax⟩ := pass_spec a l back
    rw [length_cons] at hlen
    have hback : ∀ x ∈ front ++ [last], ∀ y ∈ back, x.1 ≤ y.1 :=
      fun x hx => hle x (hsame.subset hx)
    refine ⟨front, last :: back, ?_, ?_, ?_, ?_, ?_⟩
    · rw [range_succ, foldl_append, ht, foldl_cons, foldl_nil, cons_append,
        show es.length - 1 - i = l.length by omega, hpass]
    · have hc := hsame.length_eq
      rw [length_append, length_singleton, length_cons] at hc
      omega
    · rw [append_cons]
      exact (hsame.append_right back).trans hperm
    · exact pairwise_cons.2 ⟨hback last (by simp), hs⟩
    · rintro x hx y (_ | ⟨_, hy⟩)
      · exact hmax x hx
      · exact hback x (mem_append_left _ hx) y hy

theorem fromUnsorted_spec (es : List (K × V)) : (fromUnsorted es).entries.Perm es ∧
    (fromUnsorted es).entries.Pairwise fun x y => x.1 ≤ y.1 := by
  obtain ⟨front, back, ht, hlen, hperm, hs, -⟩ := rounds_spec es le_rfl
  rw [Nat.sub_self, length_eq_zero_iff] at hlen
  rw [fromUnsorted, ht]
  subst hlen
  exact ⟨hperm, hs⟩

/-! ## Searching -/

/-- What there is under the key lies between the bounds. -/
theorem search_spec {left right : ℕ} (hs : es.Pairwise fun x y => x.1 ≤ y.1)
    (hkeys : (es.map Prod.fst).Nodup) (hg : right ≤ es.length)
    (hkey : ∀ i entry, es[i]? = some entry → entry.1 = key → left ≤ i ∧ i < right) :
    ∃ found, search es key left right = .ok found ∧
      ∀ value, found = some value ↔ (key, value) ∈ es := by
  have hb : ∀ {i j : ℕ} {x y : K × V}, es[i]? = some x → es[j]? = some y → i < j → x.1 ≤ y.1 := by
    intro i j x y hx hy hij
    obtain ⟨hi, rfl⟩ := List.getElem?_eq_some_iff.1 hx
    obtain ⟨hj, rfl⟩ := List.getElem?_eq_some_iff.1 hy
    exact pairwise_iff_getElem.1 hs i j hi hj hij
  rw [search]
  split_ifs with hlt
  · have hmid : (left + right) / 2 < es.length := by omega
    obtain ⟨entry, he⟩ : ∃ entry, es[(left + right) / 2]? = some entry :=
      ⟨_, getElem?_eq_getElem hmid⟩
    simp only [he]
    rcases hc : compare entry.1 key with _ | _ | _
    · refine search_spec hs hkeys hg fun i x hx hk => ?_
      obtain ⟨hl, hr⟩ := hkey i x hx hk
      refine ⟨Nat.lt_of_not_le fun hle => ?_, hr⟩
      have hless := compare_lt_iff_lt.1 hc
      rcases Nat.lt_or_eq_of_le hle with hlt | rfl
      · exact absurd (hk ▸ hb hx he hlt) (not_le.2 hless)
      · cases hx.symm.trans he
        exact absurd hk hless.ne
    · refine ⟨some entry.2, rfl, fun value => ?_⟩
      have hsame := compare_eq_iff_eq.1 hc
      have hmem := mem_of_getElem? he
      constructor
      · rintro ⟨⟩
        rwa [← hsame]
      · intro hv
        rw [inj_on_of_nodup_map hkeys hmem hv hsame]
    · refine search_spec hs hkeys (by omega) fun i x hx hk => ?_
      obtain ⟨hl, hr⟩ := hkey i x hx hk
      refine ⟨hl, Nat.lt_of_not_le fun hle => ?_⟩
      have hmore := compare_gt_iff_gt.1 hc
      rcases Nat.lt_or_eq_of_le hle with hlt | rfl
      · exact absurd (hk ▸ hb he hx hlt) (not_le.2 hmore)
      · cases hx.symm.trans he
        exact absurd hk hmore.ne'
  · refine ⟨none, rfl, fun value => iff_of_false (by simp) fun hmem => ?_⟩
    obtain ⟨i, hi⟩ := mem_iff_getElem?.1 hmem
    have hn := hkey i _ hi rfl
    omega
  termination_by right - left

/-- **Looking up a key** in a map of entries in any order gives the value that is paired with it,
    and nothing if there is none. -/
theorem get_exact (entries : List (K × V)) (hkeys : (entries.map Prod.fst).Nodup) (key : K) :
    ∃ found, (fromUnsorted entries).get key = .ok found ∧
      ∀ value, found = some value ↔ (key, value) ∈ entries := by
  obtain ⟨hperm, hsorted⟩ := fromUnsorted_spec entries
  obtain ⟨found, hfound, hexact⟩ := search_spec hsorted
    ((hperm.map Prod.fst).nodup_iff.2 hkeys) le_rfl
    fun i entry hentry _ => ⟨Nat.zero_le i, (List.getElem?_eq_some_iff.1 hentry).1⟩
  exact ⟨found, hfound, fun value => (hexact value).trans hperm.mem_iff⟩

theorem get_three : ∃ found, (fromUnsorted [(3, 'c'), (1, 'a'), (2, 'b')]).get 2 = .ok found ∧
    ∀ value, found = some value ↔ (2, value) ∈ [(3, 'c'), (1, 'a'), (2, 'b')] :=
  get_exact _ (by decide) 2

end ConstMap

end Blixard
