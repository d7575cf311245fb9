/-
  Ordered key-value tables, as an embedded database keeps them.

  A table is Std's extensional tree map, so two tables with the same rows are equal.
-/
import Std.Data.ExtTreeMap
import Mathlib.Algebra.BigOperators.Group.List.Basic
import Mathlib.Algebra.Order.Monoid.Canonical.Defs
import Mathlib.Data.List.Nodup
import Mathlib.Data.List.Perm.Subperm

open Std

abbrev Table (K V : Type) [Ord K] := ExtTreeMap K V compare

namespace Table

open ExtTreeMap List ReflOrd

section
variable {K V : Type} [Ord K] [TransOrd K] [LawfulEqOrd K] [DecidableEq K]

variable (rows : List (K × V)) (t : Table K V) {k : K} {v : V}

theorem get_insert (k a : K) (v : V) : (t.insert k v)[a]? = if k = a then some v else t[a]? := by
  rw [ExtTreeMap.getElem?_insert]
  by_cases h : k = a
  · simp [h, ReflOrd.compare_self]
  · rw [if_neg h, if_neg fun hc => h (LawfulEqCmp.eq_of_compare hc)]

theorem get_erase (k a : K) : (t.erase k)[a]? = if k = a then none else t[a]? := by
  rw [getElem?_erase]
  by_cases h : k = a
  · simp [h, compare_self]
  · rw [if_neg h, if_neg fun hc => h (LawfulEqCmp.eq_of_compare hc)]

theorem get_insert_eq_some {t : Table K V} {a : K} {w : V} :
    (t.insert k v)[a]? = some w ↔ k = a ∧ v = w ∨ k ≠ a ∧ t[a]? = some w := by
  rw [get_insert]
  by_cases h : k = a <;> simp [h]

@[simp] theorem map_get_insert {W : Type} (f : V → W) (t : Table K V) (k a : K) (v : V) :
    (t.insert k v)[a]?.map f = if a = k then some (f v) else t[a]?.map f := by
  rw [get_insert]
  by_cases h : a = k
  · simp [h]
  · simp [h, Ne.symm h]

@[simp] theorem map_get_erase {W : Type} (f : V → W) (t : Table K V) (k a : K) :
    (t.erase k)[a]?.map f = if a = k then none else t[a]?.map f := by
  rw [get_erase]
  by_cases h : a = k
  · simp [h]
  · simp [h, Ne.symm h]

omit [LawfulEqOrd K] [DecidableEq K] in
theorem mem_iff (a : K) : a ∈ t ↔ ∃ v, t[a]? = some v := by
  rw [← Option.isSome_iff_exists, isSome_getElem?_iff_mem]

omit [DecidableEq K] in
theorem mem_insert {t : Table K V} {a : K} : a ∈ t.insert k v ↔ k = a ∨ a ∈ t := by
  rw [ExtTreeMap.mem_insert, Std.compare_eq_iff_eq]

omit [DecidableEq K] in
theorem mem_erase {t : Table K V} {a : K} : a ∈ t.erase k ↔ k ≠ a ∧ a ∈ t := by
  rw [ExtTreeMap.mem_erase, ne_eq, Std.compare_eq_iff_eq]

theorem insert_of_get {t : Table K V} (h : t[k]? = some v) : t.insert k v = t := by
  apply ExtTreeMap.ext_getElem?
  intro a
  rw [get_insert]
  split_ifs with ha
  · rw [← ha, h]
  · rfl

theorem erase_of_get_none {t : Table K V} (h : t[k]? = none) : t.erase k = t := by
  apply ExtTreeMap.ext_getElem?
  intro a
  rw [get_erase]
  split_ifs with ha
  · rw [← ha, h]
  · rfl

omit [DecidableEq K] in
theorem modify_of_get {t : Table K V} (h : t[k]? = some v) (f : V → V) :
    t.modify k f = t.insert k (f v) := by
  apply ExtTreeMap.ext_getElem?
  intro a
  rw [ExtTreeMap.getElem?_modify, ExtTreeMap.getElem?_insert, h]
  rfl

omit [DecidableEq K] in
theorem modify_of_get_none {t : Table K V} (h : t[k]? = none) (f : V → V) : t.modify k f = t := by
  apply ExtTreeMap.ext_getElem?
  intro a
  rw [ExtTreeMap.getElem?_modify, h]
  split_ifs with ha
  · rw [← LawfulEqOrd.eq_of_compare ha, h]
    rfl
  · rfl

theorem get_modify (k a : K) (f : V → V) :
    (t.modify k f)[a]? = if k = a then t[a]?.map f else t[a]? := by
  rw [ExtTreeMap.getElem?_modify]
  by_cases h : k = a
  · subst h
    rw [if_pos ReflOrd.compare_self, if_pos rfl]
  · rw [if_neg h, if_neg fun hc => h (LawfulEqCmp.eq_of_compare hc)]

omit [DecidableEq K] in
theorem get_filter (f : K → V → Bool) (a : K) : (t.filter f)[a]? = t[a]?.filter (f a) := by
  rw [ExtTreeMap.getElem?_filter]
  simp only [ExtTreeMap.getKey_eq, Option.pfilter_eq_filter]

theorem insert_insert (k : K) (v : V) : (t.insert k v).insert k v = t.insert k v :=
  insert_of_get (by rw [get_insert, if_pos rfl])

theorem erase_erase (k : K) : (t.erase k).erase k = t.erase k :=
  erase_of_get_none (by rw [get_erase, if_pos rfl])

/-! ## Loops over rows -/

def eraseAll (t : Table K V) (ks : List K) : Table K V := ks.foldl ExtTreeMap.erase t

def putAll (t : Table K V) (rows : List (K × V)) : Table K V :=
  rows.foldl (fun t r => t.insert r.1 r.2) t

def refill (t : Table K V) (rows : List (K × V)) : Table K V := putAll (eraseAll t t.keys) rows

theorem get_eraseAll (ks : List K) : ∀ (t : Table K V) (a : K),
    (eraseAll t ks)[a]? = if a ∈ ks then none else t[a]? := by
  induction ks with
  | nil => intro t a; simp [eraseAll]
  | cons k ks ih =>
    intro t a
    have := ih (t.erase k) a
    rw [eraseAll, foldl_cons, ← eraseAll, this, get_erase]
    by_cases h : k = a
    · simp [h]
    · simp [h, Ne.symm h]

def modifyAll (t : Table K V) (ks : List K) (f : V → V) : Table K V :=
  ks.foldl (fun t k => t.modify k f) t

theorem get_modifyAll {ks : List K} (hks : ks.Nodup) (f : V → V) : ∀ (t : Table K V) (a : K),
    (modifyAll t ks f)[a]? = if a ∈ ks then t[a]?.map f else t[a]? := by
  induction ks with
  | nil => intro t a; simp [modifyAll]
  | cons k ks ih =>
    intro t a
    obtain ⟨hk, hks⟩ := nodup_cons.1 hks
    have hstep : modifyAll t (k :: ks) f = modifyAll (t.modify k f) ks f := rfl
    rw [hstep, ih hks, get_modify]
    by_cases ha : k = a
    · subst ha
      simp [hk]
    · simp [ha, Ne.symm ha]

/-- The row under `a` after the inserts is the last one inserted there, or the
    row the table had. -/
theorem get_putAll : ∀ (t : Table K V) (a : K),
    (putAll t rows)[a]? = ((rows.reverse.find? fun r => r.1 = a).map Prod.snd).or t[a]? := by
  induction rows with
  | nil => intro t a; simp [putAll]
  | cons r rows ih =>
    intro t a
    have := ih (t.insert r.1 r.2) a
    rw [putAll, foldl_cons, ← putAll, this, get_insert, reverse_cons, find?_append]
    cases rows.reverse.find? fun r => r.1 = a with
    | some x => simp
    | none => by_cases h : r.1 = a <;> simp [h]

theorem get_putAll_eq_or (rows : List (K × V)) (a : K) :
    (putAll t rows)[a]? = (putAll ∅ rows)[a]?.or t[a]? := by
  rw [get_putAll, get_putAll, getElem?_empty, Option.or_none]

theorem get_putAll_of_nodup {rows : List (K × V)} (h : (rows.map Prod.fst).Nodup) (t : Table K V)
    (a : K) : (putAll t rows)[a]? = ((rows.find? fun r => r.1 = a).map Prod.snd).or t[a]? := by
  rw [get_putAll]
  congr 2
  cases hf : rows.find? fun r => r.1 = a with
  | none =>
    rw [find?_eq_none] at hf ⊢
    exact fun r hr => hf r (mem_reverse.1 hr)
  | some r =>
    have hr : r.1 = a := by simpa using find?_some hf
    have hmem := mem_of_find?_eq_some hf
    cases hg : rows.reverse.find? fun r => r.1 = a with
    | none =>
      rw [find?_eq_none] at hg
      exact absurd (by simpa using hr) (hg r (mem_reverse.2 hmem))
    | some r' =>
      have hr' : r'.1 = a := by simpa using find?_some hg
      have hmem' := mem_reverse.1 (mem_of_find?_eq_some hg)
      rw [inj_on_of_nodup_map h hmem' hmem (hr'.trans hr.symm)]

omit [DecidableEq K] in
theorem mem_putAll : ∀ (t : Table K V) (a : K),
    a ∈ putAll t rows ↔ a ∈ t ∨ a ∈ rows.map Prod.fst := by
  induction rows with
  | nil => intro t a; simp [putAll]
  | cons r rows ih =>
    intro t a
    rw [putAll, List.foldl_cons, ← putAll, ih, ExtTreeMap.mem_insert,
      LawfulEqCmp.compare_eq_iff_eq, List.map_cons, List.mem_cons, eq_comm (a := a), or_assoc,
      or_left_comm]

theorem eraseAll_keys : eraseAll t t.keys = ∅ := by
  apply ExtTreeMap.ext_getElem?
  intro a
  rw [get_eraseAll]
  split_ifs with h
  · simp
  · rw [ExtTreeMap.mem_keys] at h; simp [ExtTreeMap.getElem?_eq_none h]

/-- Inserting the rows of a table in any order, with repetitions or not, gives the table. -/
theorem putAll_eq_of_mem_iff {t : Table K V} {rows : List (K × V)}
    (h : ∀ k v, (k, v) ∈ rows ↔ t[k]? = some v) : putAll ∅ rows = t := by
  apply ExtTreeMap.ext_getElem?
  intro a
  rw [get_putAll]
  cases hf : rows.reverse.find? fun r => r.1 = a with
  | some r =>
    obtain rfl : r.1 = a := by simpa using List.find?_some hf
    have hr := List.mem_reverse.1 (List.mem_of_find?_eq_some hf)
    rw [(h r.1 r.2).1 hr]
    rfl
  | none =>
    rw [List.find?_eq_none] at hf
    cases hv : t[a]? with
    | none => simp
    | some v => exact absurd (decide_eq_true rfl) (hf _ (List.mem_reverse.2 ((h a v).2 hv)))

theorem putAll_toList : putAll ∅ t.toList = t :=
  putAll_eq_of_mem_iff fun _ _ => mem_toList_iff_getElem?_eq_some

theorem refill_eq (rows : List (K × V)) : refill t rows = putAll ∅ rows := by
  rw [refill, eraseAll_keys]

/-- **Clearing a table and inserting the rows of another gives the other.** -/
theorem refill_toList (t s : Table K V) : refill t s.toList = s := by
  rw [refill_eq, putAll_toList]

theorem get_putAll_cases {t : Table K V} {rows : List (K × V)}
    (h : (putAll t rows)[k]? = some v) : (k, v) ∈ rows ∨ t[k]? = some v := by
  rw [get_putAll, Option.or_eq_some_iff, Option.map_eq_some_iff] at h
  rcases h with ⟨r, hr, rfl⟩ | ⟨-, h⟩
  · obtain rfl : r.1 = k := by simpa using find?_some hr
    exact .inl (mem_reverse.1 (mem_of_find?_eq_some hr))
  · exact .inr h

theorem get_putAll_toList (t s : Table K V) (k : K) : (putAll t s.toList)[k]? = s[k]?.or t[k]? := by
  rw [get_putAll_eq_or, putAll_toList]

theorem putAll_insert (t s : Table K V) (k : K) (v : V) :
    putAll t (s.insert k v).toList = (putAll t s.toList).insert k v := by
  apply ExtTreeMap.ext_getElem?
  intro a
  rw [get_putAll_toList, get_insert, get_insert, get_putAll_toList]
  split_ifs <;> rfl

theorem mem_of_get_putAll {rows : List (K × V)}
    (h : (putAll ∅ rows)[k]? = some v) : (k, v) ∈ rows :=
  (get_putAll_cases h).resolve_right (by simp)

end

/-! ## Tables under another encoding -/

section
variable {K V K' V' : Type} [Ord K] [TransOrd K] [LawfulEqOrd K] [DecidableEq K]
  [Ord K'] [TransOrd K'] [LawfulEqOrd K'] [DecidableEq K'] (f : K → K') (g : V → V')

def mapRows (t : Table K V) : Table K' V' := putAll ∅ (t.toList.map (Prod.map f g))

variable {f}

omit [DecidableEq K] in
theorem get_mapRows (hf : f.Injective) (t : Table K V) {a : K'} {w : V'} :
    (mapRows f g t)[a]? = some w ↔ ∃ k v, t[k]? = some v ∧ f k = a ∧ g v = w := by
  have hkeys : ((t.toList.map (Prod.map f g)).map Prod.fst).Nodup := by
    have hcomp : (t.toList.map (Prod.map f g)).map Prod.fst = t.keys.map f := by
      rw [← ExtTreeMap.map_fst_toList_eq_keys, List.map_map, List.map_map]
      rfl
    rw [hcomp]
    exact ExtTreeMap.nodup_keys.map hf
  constructor
  · intro h
    obtain ⟨⟨k, v⟩, hmem, heq⟩ := List.mem_map.1 (mem_of_get_putAll h)
    obtain ⟨hk, hv⟩ := Prod.mk.inj heq
    exact ⟨k, v, ExtTreeMap.mem_toList_iff_getElem?_eq_some.1 hmem, hk, hv⟩
  rintro ⟨k, v, hkv, rfl, rfl⟩
  have hmem : (f k, g v) ∈ t.toList.map (Prod.map f g) :=
    List.mem_map.2 ⟨(k, v), ExtTreeMap.mem_toList_iff_getElem?_eq_some.2 hkv, rfl⟩
  rw [mapRows, get_putAll_of_nodup hkeys]
  cases hfind : (t.toList.map (Prod.map f g)).find? fun r => r.1 = f k with
  | none => exact absurd (decide_eq_true rfl) (List.find?_eq_none.1 hfind _ hmem)
  | some r =>
    have hr : r.1 = f k := by simpa using List.find?_some hfind
    obtain rfl := List.inj_on_of_nodup_map hkeys (List.mem_of_find?_eq_some hfind) hmem hr
    rfl

theorem mapRows_insert (hf : f.Injective) (t : Table K V) (k : K) (v : V) :
    mapRows f g (t.insert k v) = (mapRows f g t).insert (f k) (g v) := by
  apply ExtTreeMap.ext_getElem?
  intro a
  ext w
  rw [get_mapRows g hf, get_insert_eq_some]
  constructor
  · rintro ⟨k', v', hkv, rfl, rfl⟩
    rcases get_insert_eq_some.1 hkv with ⟨rfl, rfl⟩ | ⟨hne, hkv⟩
    · exact .inl ⟨rfl, rfl⟩
    · exact .inr ⟨fun heq => hne (hf heq), (get_mapRows g hf t).2 ⟨k', v', hkv, rfl, rfl⟩⟩
  rintro (⟨rfl, rfl⟩ | ⟨hne, hkv⟩)
  · exact ⟨k, v, get_insert_eq_some.2 (.inl ⟨rfl, rfl⟩), rfl, rfl⟩
  · obtain ⟨k', v', hold, rfl, rfl⟩ := (get_mapRows g hf t).1 hkv
    have hkk : k ≠ k' := fun heq => hne (congrArg f heq)
    exact ⟨k', v', get_insert_eq_some.2 (.inr ⟨hkk, hold⟩), rfl, rfl⟩

theorem mapRows_putAll (hf : f.Injective) (rows : List (K × V)) (t : Table K V) :
    mapRows f g (putAll t rows) = putAll (mapRows f g t) (rows.map (Prod.map f g)) := by
  induction rows generalizing t with
  | nil => rfl
  | cons r rows ih =>
    have hstep := ih (t.insert r.1 r.2)
    rw [mapRows_insert g hf] at hstep
    exact hstep

theorem mapRows_refill (hf : f.Injective) (t : Table K V) (rows : List (K × V)) :
    mapRows f g (refill t rows) = putAll ∅ (rows.map (Prod.map f g)) := by
  have he : mapRows f g (∅ : Table K V) = ∅ := by
    rw [mapRows, toList_eq_nil_iff.2 rfl]
    rfl
  rw [refill_eq, mapRows_putAll g hf, he]

end

section
variable {K V : Type} [Ord K] [TransOrd K]

def firstKey (t : Table K V) : Option K := t.keys.head?

def lastKey (t : Table K V) : Option K := t.keys.getLast?

variable {t : Table ℕ V}

theorem firstKey_eq_some {k : ℕ} : firstKey t = some k ↔ k ∈ t ∧ ∀ j ∈ t, k ≤ j := by
  rw [firstKey, ← minKey?_eq_head?_keys,
    minKey?_eq_some_iff_mem_and_forall]
  simp [Nat.isLE_compare]

theorem lastKey_eq_some {k : ℕ} : lastKey t = some k ↔ k ∈ t ∧ ∀ j ∈ t, j ≤ k := by
  rw [lastKey, ← maxKey?_eq_getLast?_keys,
    maxKey?_eq_some_iff_mem_and_forall]
  simp [Nat.isLE_compare]

theorem firstKey_eq_none {t : Table K V} : firstKey t = none ↔ t = ∅ := by
  rw [firstKey, head?_eq_none_iff, keys_eq_nil_iff]

theorem lastKey_eq_none {t : Table K V} : lastKey t = none ↔ t = ∅ := by
  rw [lastKey, getLast?_eq_none_iff, keys_eq_nil_iff]

end

/-- A set of elements of a list without repetitions is smaller than the list exactly if
    it leaves one of its elements out. -/
theorem size_lt_length_iff {K : Type} [Ord K] [TransOrd K] [LawfulEqOrd K] {t : Table K Unit}
    {xs : List K} (hxs : xs.Nodup) (hsub : ∀ k ∈ t, k ∈ xs) :
    t.size < xs.length ↔ ∃ x ∈ xs, x ∉ t := by
  rw [← length_keys]
  have hkeys : t.keys.Subperm xs :=
    subperm_of_subset nodup_keys fun k hk => hsub k (mem_keys.1 hk)
  constructor
  · intro hlt
    by_contra! hall
    have hback : xs.Subperm t.keys :=
      subperm_of_subset hxs fun x hx => mem_keys.2 (hall x hx)
    exact absurd hback.length_le (Nat.not_le.2 hlt)
  rintro ⟨x, hx, hnot⟩
  by_contra hle
  have hperm := hkeys.perm_of_length_le (Nat.le_of_not_lt hle)
  exact hnot (mem_keys.1 (hperm.mem_iff.2 hx))

/-! ## Sums -/

section
variable {K V M : Type} [Ord K] [TransOrd K] [LawfulEqOrd K] [AddCommMonoid M] (f : K → V → M)

omit [LawfulEqOrd K] [AddCommMonoid M] in
theorem nodup_toList [ReflOrd K] (t : Table K V) : t.toList.Nodup := by
  refine distinct_keys_toList.imp ?_
  rintro r s hrs rfl
  exact hrs compare_self

def sumOf (t : Table K V) : M := (t.toList.map fun r => f r.1 r.2).sum

theorem toList_insert_perm [DecidableEq K] (t : Table K V) (k : K) (v : V) :
    (t.insert k v).toList.Perm ((k, v) :: (t.erase k).toList) := by
  have hnew : (k, v) ∉ (t.erase k).toList := by
    rw [mem_toList_iff_getElem?_eq_some, get_erase, if_pos rfl]
    simp
  rw [perm_ext_iff_of_nodup (nodup_toList _) (nodup_cons.2 ⟨hnew, nodup_toList _⟩)]
  rintro ⟨a, w⟩
  rw [mem_cons, mem_toList_iff_getElem?_eq_some,
    mem_toList_iff_getElem?_eq_some, get_insert, get_erase, Prod.mk.injEq]
  by_cases h : k = a
  · simp [h, eq_comm]
  · simp [h, Ne.symm h]

omit [AddCommMonoid M] [LawfulEqOrd K] in
theorem toList_empty : (∅ : Table K V).toList = [] := by
  rw [← List.isEmpty_iff, ExtTreeMap.isEmpty_toList, ExtTreeMap.isEmpty_empty]

theorem toList_insert_empty [DecidableEq K] (k : K) (v : V) :
    ((∅ : Table K V).insert k v).toList = [(k, v)] := by
  have hrest : ((∅ : Table K V).erase k).toList = [] := by
    rw [erase_empty, toList_empty]
  exact perm_singleton.1 (hrest ▸ toList_insert_perm ∅ k v)

theorem sumOf_insert [DecidableEq K] (t : Table K V) (k : K) (v : V) :
    sumOf f (t.insert k v) = f k v + sumOf f (t.erase k) := by
  rw [sumOf, ((toList_insert_perm t k v).map _).sum_eq, map_cons, sum_cons, sumOf]

theorem sumOf_of_get [DecidableEq K] {t : Table K V} {k : K} {v : V} (h : t[k]? = some v) :
    sumOf f t = f k v + sumOf f (t.erase k) := by
  rw [← sumOf_insert, insert_of_get h]

variable {K' V' : Type}

omit [AddCommMonoid M] in
theorem toList_mapRows_perm [Ord K'] [TransOrd K'] [LawfulEqOrd K'] [DecidableEq K']
    {g : K → K'} (hg : g.Injective) (h : V → V') (t : Table K V) :
    (mapRows g h t).toList.Perm (t.toList.map (Prod.map g h)) := by
  have hkeys : (t.toList.map (Prod.map g h)).Nodup := by
    refine List.Nodup.of_map Prod.fst ?_
    rw [List.map_map, Prod.map_fst', ← List.map_map, ExtTreeMap.map_fst_toList_eq_keys]
    exact ExtTreeMap.nodup_keys.map hg
  rw [List.perm_ext_iff_of_nodup (nodup_toList _) hkeys]
  rintro ⟨a, w⟩
  rw [ExtTreeMap.mem_toList_iff_getElem?_eq_some, get_mapRows h hg, List.mem_map]
  constructor
  · rintro ⟨k, v, hkv, rfl, rfl⟩
    exact ⟨(k, v), ExtTreeMap.mem_toList_iff_getElem?_eq_some.2 hkv, rfl⟩
  · rintro ⟨⟨k, v⟩, hkv, heq⟩
    obtain ⟨rfl, rfl⟩ := Prod.mk.inj heq
    exact ⟨k, v, ExtTreeMap.mem_toList_iff_getElem?_eq_some.1 hkv, rfl, rfl⟩

theorem sumOf_mapRows [Ord K'] [TransOrd K'] [LawfulEqOrd K'] [DecidableEq K']
    {g : K → K'} (hg : g.Injective) (h : V → V') (f : K' → V' → M) (t : Table K V) :
    sumOf f (mapRows g h t) = sumOf (fun k v => f (g k) (h v)) t := by
  rw [sumOf, ((toList_mapRows_perm hg h t).map _).sum_eq, List.map_map, sumOf]
  rfl

omit [AddCommMonoid M] in
theorem size_mapRows [Ord K'] [TransOrd K'] [LawfulEqOrd K'] [DecidableEq K']
    {g : K → K'} (hg : g.Injective) (h : V → V') (t : Table K V) :
    (mapRows g h t).size = t.size := by
  rw [← length_toList, (toList_mapRows_perm hg h t).length_eq, length_map,
    length_toList]

theorem sumOf_congr {f g : K → V → M} {t : Table K V}
    (h : ∀ k v, t[k]? = some v → f k v = g k v) : sumOf f t = sumOf g t := by
  unfold sumOf
  refine congrArg sum (map_congr_left fun r hr => ?_)
  exact h r.1 r.2 (mem_toList_iff_getElem?_eq_some.1 hr)

theorem sumOf_add_comm [DecidableEq K] {f g : K → V → M} {t : Table K V} {k : K} {v : V}
    (h : t[k]? = some v) (ho : ∀ k' v', k' ≠ k → t[k']? = some v' → f k' v' = g k' v') :
    sumOf f t + g k v = sumOf g t + f k v := by
  have hrest : sumOf f (t.erase k) = sumOf g (t.erase k) := by
    refine sumOf_congr fun k' v' hv' => ?_
    rw [get_erase] at hv'
    split_ifs at hv' with hk
    exact ho k' v' (Ne.symm hk) hv'
  rw [sumOf_of_get f h, sumOf_of_get g h, hrest, add_right_comm, add_right_comm (g k v),
    add_comm (f k v)]

theorem sumOf_eq_size_iff {f : K → V → ℕ} (hf : ∀ k v, f k v ≤ 1) (t : Table K V) :
    sumOf f t ≤ t.size ∧ (sumOf f t = t.size ↔ ∀ k v, t[k]? = some v → f k v = 1) := by
  have hlist : ∀ rows : List (K × V), (rows.map fun r => f r.1 r.2).sum ≤ rows.length ∧
      ((rows.map fun r => f r.1 r.2).sum = rows.length ↔ ∀ r ∈ rows, f r.1 r.2 = 1) := by
    intro rows
    induction rows with
    | nil => simp
    | cons r rows ih =>
      have hr := hf r.1 r.2
      rw [map_cons, sum_cons, length_cons, forall_mem_cons, ← ih.2]
      omega
  obtain ⟨hle, heq⟩ := hlist t.toList
  rw [length_toList] at hle heq
  refine ⟨hle, heq.trans ?_⟩
  rw [Prod.forall]
  simp only [mem_toList_iff_getElem?_eq_some]

theorem sumOf_erase_le [DecidableEq K] [PartialOrder M] [CanonicallyOrderedAdd M]
    (t : Table K V) (k : K) : sumOf f (t.erase k) ≤ sumOf f t := by
  cases hk : t[k]? with
  | some v =>
    rw [sumOf_of_get f hk]
    exact le_add_self
  | none => rw [erase_of_get_none hk]

end

end Table

theorem transCmp_compareOn {K A : Type} [Ord A] [TransOrd A] (f : K → A) :
    TransCmp (compareOn f) where
  eq_swap {a b} := (OrientedCmp.eq_swap : compare (f a) (f b) = _)
  isLE_trans {a _ c} h1 h2 := (TransCmp.isLE_trans h1 h2 : (compare (f a) (f c)).isLE = true)

theorem lawfulEqCmp_compareOn {K A : Type} [Ord A] [LawfulEqOrd A] {f : K → A}
    (hf : ∀ a b, f a = f b → a = b) : LawfulEqCmp (compareOn f) where
  compare_self {a} := (ReflCmp.compare_self : compare (f a) (f a) = _)
  eq_of_compare h := hf _ _ (LawfulEqCmp.eq_of_compare h)
