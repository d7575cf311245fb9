/-
  Reading a range of the log (`entries` of `raft_storage.rs`), against what the Raft library
  expects of it (`EntriesContract`).

  The loop passes over holes, and returns nothing at all if the first entry is larger than the
  limit (`entries_contract_iff`).
-/
import Mathlib.Algebra.BigOperators.Intervals
import Mathlib.Algebra.Order.BigOperators.Group.Finset
import Blixard.Storage.Log

namespace Blixard

open List

def WithinLimit (maxSize : Option ℕ) (size : ℕ) : Prop := ∀ max ∈ maxSize, size ≤ max

instance (maxSize : Option ℕ) (size : ℕ) : Decidable (WithinLimit maxSize size) :=
  match maxSize with
  | none => isTrue (by simp [WithinLimit])
  | some max => decidable_of_iff (size ≤ max) (by simp [WithinLimit])

variable {cap : Option ℕ} {size : ℕ}

theorem WithinLimit.mono {size' : ℕ} (h : WithinLimit cap size')
    (hle : size ≤ size') : WithinLimit cap size := fun max hmax => hle.trans (h max hmax)

theorem withinLimit_zero (cap : Option ℕ) : WithinLimit cap 0 := fun _ _ => Nat.zero_le _

theorem any_lt_iff : cap.any (· < size) = true ↔ ¬ WithinLimit cap size := by
  cases cap <;> simp [WithinLimit]

namespace Database

def bytesAt (db : Database) (i : ℕ) : ℕ := (db.raftLog[i]?.map List.length).getD 0

def bytesFrom (db : Database) (low j : ℕ) : ℕ := ∑ i ∈ Finset.Ico low (j + 1), db.bytesAt i

/-- **What the Raft library expects** of the entries from `low` to before `high`. -/
structure EntriesContract (db : Database) (log : List Entry) (low high : ℕ) (maxSize : Option ℕ)
    (es : List Entry) : Prop where
  /-- A run without a hole that starts at `low`. -/
  contiguous : ∀ k < es.length, es[k]? = entryAt log (low + k)
  below : low + es.length ≤ high
  nonempty : low ∈ db.raftLog → es ≠ []
  fits : es.length ≤ 1 ∨ WithinLimit maxSize (db.bytesFrom low (low + es.length - 1))
  longest : low + es.length < high → low + es.length ∈ db.raftLog →
    ¬ WithinLimit maxSize (db.bytesFrom low (low + es.length))

variable {db : Database} {log : List Entry}

/-! ## What the loop reads -/

theorem bytesFrom_self (low : ℕ) : db.bytesFrom low low = db.bytesAt low := by
  simp [bytesFrom]

variable {cap : Option ℕ} {high low : ℕ}

theorem bytesFrom_succ {j : ℕ} (h : low < j) :
    db.bytesFrom low j = db.bytesAt low + db.bytesFrom (low + 1) j :=
  Finset.sum_eq_sum_Ico_succ_bot (by omega) _

theorem bytesFrom_mono (low : ℕ) {i j : ℕ} (h : i ≤ j) :
    db.bytesFrom low i ≤ db.bytesFrom low j := by
  refine Finset.sum_le_sum_of_subset (Finset.Ico_subset_Ico_right ?_)
  omega

theorem Holds.entriesLoop_limited (h : db.Holds log) (cap : Option ℕ) (n idx size : ℕ)
    (hsize : WithinLimit cap size) : Database.entriesLoop db.raftLog cap n idx size =
      .ok (((range' idx n).filter fun j =>
        WithinLimit cap (size + db.bytesFrom idx j)).filterMap (entryAt log)) := by
  induction n generalizing idx size with
  | zero => rfl
  | succ n ih =>
    have hi := h idx
    -- the sums over the rest of the range, from the next index on
    have hrest : ∀ j ∈ range' (idx + 1) n,
        size + db.bytesFrom idx j = size + db.bytesAt idx + db.bytesFrom (idx + 1) j := by
      intro j hj
      have hlt := (mem_range'_1.1 hj).1
      rw [bytesFrom_succ (by omega), Nat.add_assoc]
    have hf : ((range' (idx + 1) n).filter fun j =>
          WithinLimit cap (size + db.bytesFrom idx j)) =
        (range' (idx + 1) n).filter fun j =>
          WithinLimit cap (size + db.bytesAt idx + db.bytesFrom (idx + 1) j) :=
      filter_congr fun j hj => by rw [hrest j hj]
    rw [Database.entriesLoop, range'_succ, filter_cons, bytesFrom_self, hf]
    cases hrow : db.raftLog[idx]? with
    | none =>
      rw [hrow] at hi
      have hlog : entryAt log idx = none := by
        cases he : entryAt log idx with
        | none => rfl
        | some e => rw [he] at hi; cases hi
      have hzero : db.bytesAt idx = 0 := by simp [bytesAt, hrow]
      simp only [hzero, Nat.add_zero, hsize, decide_true, if_true, filterMap_cons, hlog]
      exact ih (idx + 1) size hsize
    | some data =>
      rw [hrow] at hi
      have hbyt : db.bytesAt idx = data.length := by simp [bytesAt, hrow]
      rw [hbyt]
      by_cases hfit : WithinLimit cap (size + data.length)
      · have hany : ¬ cap.any (· < size + data.length) = true := by
          rw [any_lt_iff, not_not]
          exact hfit
        obtain ⟨e, hlog⟩ : ∃ e, entryAt log idx = some e := by
          cases he : entryAt log idx with
          | none => rw [he] at hi; cases hi
          | some e => exact ⟨e, rfl⟩
        rw [hlog] at hi
        have hd : deserializeEntry data = .ok e := Option.some.inj hi
        simp only [hany, hfit, decide_true, if_true, hd, bind, Except.bind,
          ih (idx + 1) (size + data.length) hfit, filterMap_cons, hlog]
        rfl
      · -- the loop stops here, and no later sum fits either
        have hnone : ((range' (idx + 1) n).filter fun j =>
            WithinLimit cap (size + data.length + db.bytesFrom (idx + 1) j)) = [] := by
          rw [filter_eq_nil_iff]
          intro j _ hj
          exact hfit ((of_decide_eq_true hj).mono (Nat.le_add_right _ _))
        simp only [any_lt_iff.2 hfit, if_true, hfit, decide_false, hnone]
        rfl

/-- **What `entries` returns**: the stored entries of the range up to which all rows fit. -/
theorem Holds.entries_limited (h : db.Holds log) (low high : ℕ) (cap : Option ℕ) :
    db.entries low high cap = .ok (((range' low (high - low)).filter fun j =>
        WithinLimit cap (db.bytesFrom low j)).filterMap (entryAt log)) := by
  have hloop := h.entriesLoop_limited cap (high - low) low 0 (withinLimit_zero cap)
  simp only [Nat.zero_add] at hloop
  exact hloop

theorem Holds.mem_entries (h : db.Holds log)
    {es : List Entry} (hes : db.entries low high cap = .ok es) {e : Entry} :
    e ∈ es ↔ low ≤ e.index ∧ e.index < high ∧
      WithinLimit cap (db.bytesFrom low e.index) ∧ entryAt log e.index = some e := by
  rw [h.entries_limited] at hes
  obtain rfl := Except.ok.inj hes
  simp only [mem_filterMap, mem_filter, mem_range'_1, decide_eq_true_eq]
  constructor
  · rintro ⟨j, ⟨⟨h1, h2⟩, hfit⟩, he⟩
    obtain rfl := (entryAt_eq_some he).2
    exact ⟨h1, by omega, hfit, he⟩
  · rintro ⟨h1, h2, hfit, he⟩
    exact ⟨e.index, ⟨⟨h1, by omega⟩, hfit⟩, he⟩

/-! ## When the contract is met -/

theorem exists_longest (P : ℕ → Prop) (n : ℕ) :
    ∃ r ≤ n, (∀ k < r, P k) ∧ (r < n → ¬ P r) := by
  induction n with
  | zero => exact ⟨0, le_rfl, by simp, by simp⟩
  | succ n ih =>
    obtain ⟨r, hr, hall, hstop⟩ := ih
    by_cases hlt : r < n
    · exact ⟨r, by omega, hall, fun _ => hstop hlt⟩
    obtain rfl : r = n := by omega
    by_cases hP : P r
    · refine ⟨r + 1, le_rfl, fun k hk => ?_, by omega⟩
      rcases Nat.lt_succ_iff_lt_or_eq.1 hk with hk | rfl
      · exact hall k hk
      · exact hP
    · exact ⟨r, by omega, hall, fun _ => hP⟩

theorem getElem?_filterMap_entryAt {r : ℕ} (h : ∀ k < r, (entryAt log (low + k)).isSome) :
    ((range' low r).filterMap (entryAt log)).length = r ∧
    ∀ k < r, ((range' low r).filterMap (entryAt log))[k]? = entryAt log (low + k) := by
  induction r generalizing low with
  | zero => simp
  | succ r ih =>
    obtain ⟨e, he⟩ := Option.isSome_iff_exists.1 (h 0 (by omega))
    obtain ⟨hlen, hget⟩ := @ih (low + 1) fun k hk => by
      have := h (k + 1) (by omega)
      rwa [← Nat.add_assoc, Nat.add_right_comm] at this
    rw [Nat.add_zero] at he
    rw [range'_succ, filterMap_cons, he]
    refine ⟨by rw [length_cons, hlen], fun k hk => ?_⟩
    cases k with
    | zero => exact he.symm
    | succ k =>
      rw [getElem?_cons_succ, hget k (by omega), Nat.add_assoc, Nat.add_comm 1]

theorem Holds.entries_eq_run (h : db.Holds log)
    (hl : ∀ i j, low ≤ i → i < j → j < high → i ∉ db.raftLog → j ∈ db.raftLog →
      ¬ WithinLimit cap (db.bytesFrom low j)) : ∃ r ≤ high - low,
      (∀ k < r, low + k ∈ db.raftLog ∧ WithinLimit cap (db.bytesFrom low (low + k))) ∧
      (r < high - low → ¬ (low + r ∈ db.raftLog ∧
        WithinLimit cap (db.bytesFrom low (low + r)))) ∧
      db.entries low high cap = .ok ((range' low r).filterMap (entryAt log)) := by
  obtain ⟨r, hr, hrun, hstop⟩ := exists_longest
    (fun k => low + k ∈ db.raftLog ∧ WithinLimit cap (db.bytesFrom low (low + k)))
    (high - low)
  refine ⟨r, hr, hrun, hstop, ?_⟩
  have hp : range' low (high - low) =
      range' low r ++ range' (low + r) (high - low - r) := by
    rw [range'_append_1]
    congr 1
    omega
  have hf : ((range' low r).filter fun j =>
      WithinLimit cap (db.bytesFrom low j)) = range' low r := by
    rw [filter_eq_self]
    intro j hj
    obtain ⟨h1, h2⟩ := mem_range'_1.1 hj
    have hj := (hrun (j - low) (by omega)).2
    rw [Nat.add_sub_cancel' h1] at hj
    exact decide_eq_true hj
  -- behind the run comes a hole, or an entry that does not fit
  have hrest : (((range' (low + r) (high - low - r)).filter fun j =>
      WithinLimit cap (db.bytesFrom low j)).filterMap (entryAt log)) = [] := by
    rw [filterMap_eq_nil_iff]
    intro j hj
    obtain ⟨hj, hfit⟩ := mem_filter.1 hj
    obtain ⟨h1, h2⟩ := mem_range'_1.1 hj
    have hfit := of_decide_eq_true hfit
    by_contra hne
    have hs : j ∈ db.raftLog := (h.mem_iff j).2 (Option.isSome_iff_ne_none.2 hne)
    have hhole : low + r ∉ db.raftLog := fun hmem =>
      hstop (by omega) ⟨hmem, hfit.mono (bytesFrom_mono low h1)⟩
    have hlt : low + r ≠ j := fun heq => hhole (heq ▸ hs)
    exact hl (low + r) j (by omega) (by omega) (by omega) hhole hs hfit
  rw [h.entries_limited, hp, filter_append, filterMap_append, hf, hrest,
    append_nil]

/-- **The contract of `entries`** is met exactly if a stored entry `low` is within the limit, and no
    stored entry behind a hole is: the rows up to it do not fit. -/
theorem entries_contract_iff (h : db.Holds log) {low high : ℕ} (hlt : low < high)
    (maxSize : Option ℕ) :
    (∃ es, db.entries low high maxSize = .ok es ∧
      EntriesContract db log low high maxSize es) ↔
    (low ∈ db.raftLog → WithinLimit maxSize (db.bytesFrom low low)) ∧
    ∀ i j, low ≤ i → i < j → j < high → i ∉ db.raftLog → j ∈ db.raftLog →
      ¬ WithinLimit maxSize (db.bytesFrom low j) := by
  constructor
  · rintro ⟨es, hes, hc⟩
    refine ⟨fun hlow => ?_, fun i j h1 h2 h3 hi hj hfit => ?_⟩
    · -- the first entry that is returned is `low` itself
      obtain ⟨e, rest, rfl⟩ := List.exists_cons_of_ne_nil (hc.nonempty hlow)
      have he : some e = entryAt log low := hc.contiguous 0 (by simp)
      obtain rfl := (entryAt_eq_some he.symm).2
      exact ((h.mem_entries hes).1 List.mem_cons_self).2.2.1
    -- an entry behind the hole would be returned, and the hole lies before it
    obtain ⟨e, he⟩ := Option.isSome_iff_exists.1 ((h.mem_iff j).1 hj)
    obtain rfl := (entryAt_eq_some he).2
    have hmem := (h.mem_entries hes).2 ⟨by omega, h3, hfit, he⟩
    obtain ⟨k, hk, hget⟩ := List.getElem_of_mem hmem
    have hindex : e.index = low + k := by
      have hat := hc.contiguous k hk
      rw [List.getElem?_eq_getElem hk, hget] at hat
      exact (entryAt_eq_some hat.symm).2
    have hhole := hc.contiguous (i - low) (by omega)
    rw [Nat.add_sub_cancel' h1, List.getElem?_eq_getElem (by omega)] at hhole
    exact hi ((h.mem_iff i).2 (by rw [← hhole]; rfl))
  · rintro ⟨hfirst, hholes⟩
    obtain ⟨r, hr, hrun, hstop, heq⟩ := h.entries_eq_run hholes
    obtain ⟨hlen, hget⟩ := @getElem?_filterMap_entryAt log low r fun k hk =>
      (h.mem_iff _).1 (hrun k hk).1
    refine ⟨_, heq, ?_, ?_, ?_, ?_, ?_⟩
    · rw [hlen]
      exact hget
    · omega
    · intro hlow hnil
      rw [hnil] at hlen
      obtain rfl : r = 0 := hlen.symm
      exact hstop (by omega) ⟨hlow, hfirst hlow⟩
    · rw [hlen]
      rcases Nat.eq_zero_or_pos r with rfl | hpos
      · exact .inl (by omega)
      · have hlast := (hrun (r - 1) (by omega)).2
        rw [← Nat.add_sub_assoc hpos] at hlast
        exact .inr hlast
    · rw [hlen]
      intro hbelow hmem hfit
      exact hstop (by omega) ⟨hmem, hfit⟩

theorem entries_of_sixty_bytes :
    (append {} threeEntries).entries 1 4 (some 60) = .ok [emptyEntry 1 1, emptyEntry 2 1] ∧
    ∃ es, (append {} threeEntries).entries 1 4 (some 60) = .ok es ∧
      EntriesContract (append {} threeEntries) threeEntries 1 4 (some 60) es := by
  refine ⟨by decide +kernel, (entries_contract_iff holds_threeEntries (by decide) _).2 ⟨?_, ?_⟩⟩
  · intro _
    decide +kernel
  intro i j h1 h2 h3 hi
  exfalso
  apply hi
  have hi : i = 1 ∨ i = 2 := by omega
  rcases hi with rfl | rfl <;> decide

/-- An entry of 26 bytes is not returned under a limit of 10, although it is stored. -/
theorem oversized_entry_is_not_returned :
    ¬ ∀ (db : Database) (log : List Entry) (low high : ℕ) (maxSize : Option ℕ),
      db.Holds log → low < high →
      ∃ es, db.entries low high maxSize = .ok es ∧
        EntriesContract db log low high maxSize es := by
  intro h
  obtain ⟨es, hes, hc⟩ := h _ threeEntries 1 4 (some 10) holds_threeEntries (by decide)
  have hempty : (append {} threeEntries).entries 1 4 (some 10) = .ok [] := by decide +kernel
  rw [hempty] at hes
  exact hc.nonempty (by decide) (Except.ok.inj hes).symm

end Database

end Blixard
