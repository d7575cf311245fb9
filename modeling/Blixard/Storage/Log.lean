/-
  The Raft log on disk (`raft_storage.rs`).

  `Holds db log`: the rows of the log table decode to exactly the entries of `log`.  `append`
  only inserts rows; it never removes those of a longer log that it overwrites
  (`append_overwrites_iff`).
-/
import Blixard.Storage.Database

namespace Blixard

open Database Entry List Std.ExtTreeMap Table

namespace Database

def append (db : Database) (entries : List Entry) : Database :=
  { db with
    raftLog := Table.putAll db.raftLog (entries.map fun e => (e.index, serializeEntry e)) }

def entriesLoop (log : Table ℕ Bytes) (maxSize : Option ℕ) :
    ℕ → ℕ → ℕ → Except BlixardError (List Entry)
  | 0, _, _ => .ok []
  | n + 1, idx, size =>
    match log[idx]? with
    | none => entriesLoop log maxSize n (idx + 1) size
    | some data =>
      if maxSize.any (· < size + data.length) then .ok []
      else do
        let entry ← deserializeEntry data
        let rest ← entriesLoop log maxSize n (idx + 1) (size + data.length)
        return entry :: rest

def entries (db : Database) (low high : ℕ) (maxSize : Option ℕ) :
    Except BlixardError (List Entry) :=
  entriesLoop db.raftLog maxSize (high - low) low 0

def term (db : Database) (idx : ℕ) : Except BlixardError ℕ :=
  match db.raftLog[idx]? with
  | some data => (deserializeEntry data).map Entry.term
  | none => .ok 0

def firstIndex (db : Database) : ℕ := (Table.firstKey db.raftLog).getD 1

def lastIndex (db : Database) : ℕ := (Table.lastKey db.raftLog).getD 0

def compactLogBefore (db : Database) (index : ℕ) : Database :=
  if index = 0 then db
  else { db with
    raftLog := Table.eraseAll db.raftLog (db.raftLog.keys.filter fun key => key < index) }

end Database

/-! ## Logs -/

/-- The indices of the entries are `first`, `first + 1` and so on. -/
def Consecutive (first : ℕ) (log : List Entry) : Prop :=
  log.map Entry.index = List.range' first log.length

def entryAt (log : List Entry) (i : ℕ) : Option Entry := log.find? fun e => e.index = i

variable {log : List Entry}

theorem entryAt_eq_some {i : ℕ} {e : Entry} (h : entryAt log i = some e) : e ∈ log ∧ e.index = i :=
  ⟨mem_of_find?_eq_some h, by simpa using find?_some h⟩

theorem entryAt_eq_none {i : ℕ} : entryAt log i = none ↔ ∀ e ∈ log, e.index ≠ i := by
  simp [entryAt, find?_eq_none]

theorem entryAt_append (log log' : List Entry) (i : ℕ) :
    entryAt (log ++ log') i = (entryAt log i).or (entryAt log' i) := find?_append

theorem entryAt_filter (log : List Entry) (k i : ℕ) :
    entryAt (log.filter fun e => e.index < k) i = if i < k then entryAt log i else none := by
  split_ifs with h
  · rw [entryAt, entryAt, find?_filter]
    congr 1
    funext e
    by_cases he : e.index = i
    · simp [he, h]
    · simp [he]
  · rw [entryAt_eq_none]
    intro e he hi
    have := (mem_filter.1 he).2
    simp only [decide_eq_true_eq] at this
    omega

namespace Consecutive

variable {first : ℕ} {log : List Entry}

variable {e : Entry}

theorem index_lt (h : Consecutive first log) (he : e ∈ log) :
    first ≤ e.index ∧ e.index < first + log.length := by
  have := mem_map_of_mem (f := index) he
  rw [h] at this
  simpa using this

theorem exists_entry (h : Consecutive first log) {i : ℕ} (h1 : first ≤ i)
    (h2 : i < first + log.length) : ∃ e, entryAt log i = some e := by
  have hi : i ∈ log.map index := by rw [h]; simp; omega
  obtain ⟨e, he, rfl⟩ := mem_map.1 hi
  by_contra hne
  rw [not_exists] at hne
  exact entryAt_eq_none.1 (Option.eq_none_iff_forall_ne_some.2 hne) e he rfl

theorem nodup (h : Consecutive first log) : (log.map index).Nodup := by
  rw [h]; exact nodup_range'

theorem append_iff {log' : List Entry} : Consecutive first (log ++ log') ↔
    Consecutive first log ∧ Consecutive (first + log.length) log' := by
  unfold Consecutive
  rw [map_append, length_append, ← range'_append_1]
  exact append_eq_append_iff_of_size_eq_left (by simp)

theorem pairwise_lt (h : Consecutive first log) : log.Pairwise (·.index < ·.index) := by
  have hidx : (range' first log.length).Pairwise (· < ·) := pairwise_lt_range' 1
  rwa [← h, pairwise_map] at hidx

theorem entryAt_of_mem (h : Consecutive first log) (he : e ∈ log) :
    entryAt log e.index = some e := by
  cases hf : entryAt log e.index with
  | none => exact absurd rfl (entryAt_eq_none.1 hf e he)
  | some e' =>
    obtain ⟨hmem, hidx⟩ := entryAt_eq_some hf
    rw [inj_on_of_nodup_map h.nodup hmem he hidx]

end Consecutive

/-! ## What the table holds -/

namespace Database

/-- The rows of the log table decode to the entries of `log`. -/
def Holds (db : Database) (log : List Entry) : Prop :=
  ∀ i : ℕ, db.raftLog[i]?.map deserializeEntry = (entryAt log i).map .ok

variable {db : Database} {log : List Entry}

theorem Holds.mem_iff (h : db.Holds log) (i : ℕ) : i ∈ db.raftLog ↔ (entryAt log i).isSome := by
  have := congrArg Option.isSome (h i)
  rw [Option.isSome_map, Option.isSome_map] at this
  rw [← this, isSome_getElem?_iff_mem]

theorem Holds.term (h : db.Holds log) (i : ℕ) :
    db.term i = .ok ((entryAt log i).elim 0 Entry.term) := by
  have hi := h i
  unfold Database.term
  cases hrow : db.raftLog[i]? with
  | none =>
    rw [hrow] at hi
    cases hlog : entryAt log i with
    | none => rfl
    | some e => rw [hlog] at hi; cases hi
  | some data =>
    rw [hrow] at hi
    cases hlog : entryAt log i with
    | none => rw [hlog] at hi; cases hi
    | some e =>
      rw [hlog] at hi
      have hd : deserializeEntry data = .ok e := Option.some.inj hi
      simp only [hd]; rfl

theorem Holds.entriesLoop (h : db.Holds log) (n idx size : ℕ) :
    Database.entriesLoop db.raftLog none n idx size =
      .ok ((List.range' idx n).filterMap (entryAt log)) := by
  induction n generalizing idx size with
  | zero => rfl
  | succ n ih =>
    have hi := h idx
    rw [Database.entriesLoop, List.range'_succ, List.filterMap_cons]
    cases hrow : db.raftLog[idx]? with
    | none =>
      rw [hrow] at hi
      cases hlog : entryAt log idx with
      | none => exact ih (idx + 1) size
      | some e => rw [hlog] at hi; cases hi
    | some data =>
      rw [hrow] at hi
      cases hlog : entryAt log idx with
      | none => rw [hlog] at hi; cases hi
      | some e =>
        rw [hlog] at hi
        have hd : deserializeEntry data = .ok e := Option.some.inj hi
        simp only [Option.any_none, Bool.false_eq_true, if_false, hd, bind, Except.bind,
          ih (idx + 1) (size + data.length)]
        rfl

theorem Holds.entries (h : db.Holds log) (low high : ℕ) :
    db.entries low high none = .ok ((range' low (high - low)).filterMap (entryAt log)) :=
  h.entriesLoop (high - low) low 0

theorem Holds.lastIndex (h : db.Holds log) {last : Entry} (hmem : last ∈ log)
    (hmax : ∀ e ∈ log, e.index ≤ last.index) : db.lastIndex = last.index := by
  have hlast : Table.lastKey db.raftLog = some last.index := by
    rw [Table.lastKey_eq_some]
    refine ⟨?_, fun j hj => ?_⟩
    · rw [h.mem_iff, Option.isSome_iff_ne_none]
      exact fun hnone => entryAt_eq_none.1 hnone last hmem rfl
    · obtain ⟨e, he⟩ := Option.isSome_iff_exists.1 ((h.mem_iff j).1 hj)
      obtain ⟨hin, rfl⟩ := entryAt_eq_some he
      exact hmax e hin
  rw [Database.lastIndex, hlast]; rfl

theorem le_lastIndex {i : ℕ} (h : i ∈ db.raftLog) : i ≤ db.lastIndex := by
  cases hlast : lastKey db.raftLog with
  | none =>
    rw [lastKey_eq_none.1 hlast] at h
    exact absurd h not_mem_empty
  | some j =>
    rw [lastIndex, hlast]
    exact (lastKey_eq_some.1 hlast).2 i h

theorem lastIndex_mem (h : db.lastIndex ≠ 0) : db.lastIndex ∈ db.raftLog := by
  unfold lastIndex at h ⊢
  cases hlast : lastKey db.raftLog with
  | none => rw [hlast] at h; exact absurd rfl h
  | some j => exact (lastKey_eq_some.1 hlast).1

theorem firstIndex_le {i : ℕ} (h : i ∈ db.raftLog) : db.firstIndex ∈ db.raftLog ∧
    db.firstIndex ≤ i := by
  cases hf : firstKey db.raftLog with
  | none =>
    rw [firstKey_eq_none.1 hf] at h
    exact absurd h not_mem_empty
  | some j =>
    obtain ⟨hmem, hmin⟩ := firstKey_eq_some.1 hf
    rw [firstIndex, hf]
    exact ⟨hmem, hmin i h⟩

theorem index_bounds_of_mem_iff {last : ℕ} (h : ∀ i, i ∈ db.raftLog ↔ 1 ≤ i ∧ i ≤ last) :
    db.firstIndex = 1 ∧ db.lastIndex = last := by
  rcases Nat.eq_zero_or_pos last with rfl | hpos
  · have he : db.raftLog = ∅ := by
      rw [eq_empty_iff_forall_not_mem]
      intro i hi
      have := (h i).1 hi
      omega
    have hf := firstKey_eq_none.2 he
    have hlast := lastKey_eq_none.2 he
    simp [firstIndex, lastIndex, hf, hlast]
  · have hf : firstKey db.raftLog = some 1 :=
      firstKey_eq_some.2 ⟨(h 1).2 ⟨le_rfl, hpos⟩, fun j hj => ((h j).1 hj).1⟩
    have hlast : lastKey db.raftLog = some last :=
      lastKey_eq_some.2 ⟨(h last).2 ⟨hpos, le_rfl⟩, fun j hj => ((h j).1 hj).2⟩
    simp [firstIndex, lastIndex, hf, hlast]

theorem mem_append_iff (db : Database) (es : List Entry) (i : ℕ) :
    i ∈ (db.append es).raftLog ↔ i ∈ db.raftLog ∨ i ∈ es.map Entry.index := by
  rw [append, Table.mem_putAll, List.map_map]; rfl

theorem get_compactLogBefore (db : Database) (index i : ℕ) :
    (db.compactLogBefore index).raftLog[i]? = if i < index then none else db.raftLog[i]? := by
  unfold compactLogBefore
  split_ifs with h0 hi hi
  · omega
  · rfl
  · rw [get_eraseAll]
    by_cases hmem : i ∈ db.raftLog
    · rw [if_pos]
      simpa [hi] using hmem
    · rw [getElem?_eq_none hmem, ite_self]
  · rw [get_eraseAll, if_neg]
    simp [hi]

theorem mem_compactLogBefore (db : Database) (index i : ℕ) :
    i ∈ (db.compactLogBefore index).raftLog ↔ i ∈ db.raftLog ∧ index ≤ i := by
  rw [mem_iff, get_compactLogBefore, mem_iff]
  split_ifs with hi
  · simp; omega
  · simp; omega

theorem compactLogBefore_of_le {index : ℕ} (h : ∀ j ∈ db.raftLog, index ≤ j) :
    db.compactLogBefore index = db := by
  unfold compactLogBefore
  split
  · rfl
  have hnone : db.raftLog.keys.filter (fun key => key < index) = [] := by
    rw [filter_eq_nil_iff]
    intro j hj
    have := h j (mem_keys.1 hj)
    simpa using this
  rw [hnone]; rfl

/-! ## Overwriting -/

/-- The log that writing `es` from index `k` on is meant to leave. -/
def overwrite (old : List Entry) (k : ℕ) (es : List Entry) : List Entry :=
  old.filter (fun e => e.index < k) ++ es

variable {es : List Entry} {k : ℕ}

theorem get_append (hes : Consecutive k es) (db : Database) (i : ℕ) :
    (db.append es).raftLog[i]? = ((entryAt es i).map serializeEntry).or db.raftLog[i]? := by
  have hkeys : ((es.map fun e => (e.index, serializeEntry e)).map Prod.fst).Nodup := by
    rw [List.map_map]
    exact hes.nodup
  have hfind : (es.map fun e => (e.index, serializeEntry e)).find? (fun r => r.1 = i) =
      (entryAt es i).map fun e => (e.index, serializeEntry e) := List.find?_map
  rw [append, Table.get_putAll_of_nodup hkeys, hfind, Option.map_map]; rfl

theorem entryAt_overwrite (hes : Consecutive k es) (old : List Entry) (i : ℕ) :
    entryAt (overwrite old k es) i = if i < k then entryAt old i else entryAt es i := by
  rw [overwrite, entryAt_append, entryAt_filter]
  split_ifs with h
  · have : entryAt es i = none := by
      rw [entryAt_eq_none]
      intro e he
      have := hes.index_lt he
      omega
    rw [this, Option.or_none]
  · rfl

theorem append_holds {old : List Entry} (hold : db.Holds old)
    (hes : Consecutive k es) (hfits : ∀ e ∈ es, e.Fits)
    (hlast : db.lastIndex < k + es.length) : (db.append es).Holds (overwrite old k es) := by
  intro i
  rw [get_append hes, entryAt_overwrite hes]
  cases he : entryAt es i with
  | some e =>
    obtain ⟨hmem, hidx⟩ := entryAt_eq_some he
    have hk := (hes.index_lt hmem).1
    rw [if_neg (by omega)]
    show some (deserializeEntry (serializeEntry e)) = _
    rw [deserializeEntry_serializeEntry (hfits e hmem)]; rfl
  | none =>
    rw [Option.map_none, Option.none_or]
    split_ifs with hik
    · exact hold i
    -- past the appended entries the old log has no rows
    have hno : db.raftLog[i]? = none := by
      rw [Std.ExtTreeMap.getElem?_eq_none]
      intro hmem
      have := le_lastIndex hmem
      obtain ⟨e, he'⟩ := hes.exists_entry (Nat.not_lt.1 hik) (by omega)
      rw [he] at he'; cases he'
    rw [hno]; rfl

/-- **Overwriting the log**: after `append` all reads are those of the old log below `k` and then
    the appended entries, exactly when these reach the old end of the log and fit the format. -/
theorem append_overwrites_iff {db : Database} {old es : List Entry} {k : ℕ} (hold : db.Holds old)
    (hes : Consecutive k es) (hne : es ≠ []) : ((db.append es).Holds (overwrite old k es) ∧
      (db.append es).lastIndex = k + es.length - 1 ∧
      (∀ i, (db.append es).term i = .ok ((entryAt (overwrite old k es) i).elim 0 Entry.term)) ∧
      ∀ low high, (db.append es).entries low high none =
        .ok ((List.range' low (high - low)).filterMap (entryAt (overwrite old k es)))) ↔
    db.lastIndex ≤ k + es.length - 1 ∧ ∀ e ∈ es, e.Fits := by
  have hlen : 0 < es.length := List.length_pos_iff.2 hne
  constructor
  · rintro ⟨hnew, -⟩
    refine ⟨?_, fun e he => ?_⟩
    · -- a row beyond the appended entries would still be there
      by_contra hlt
      have hmem : db.lastIndex ∈ db.raftLog := lastIndex_mem (by omega)
      have hnone : entryAt es db.lastIndex = none := by
        rw [entryAt_eq_none]
        intro e he
        have := hes.index_lt he
        omega
      have hrow := hnew db.lastIndex
      rw [get_append hes, entryAt_overwrite hes, hnone, if_neg (by omega)] at hrow
      obtain ⟨data, hdata⟩ := (Table.mem_iff _ _).1 hmem
      rw [hdata] at hrow
      cases hrow
    · have hrow := hnew e.index
      have hk := (hes.index_lt he).1
      rw [get_append hes, entryAt_overwrite hes, hes.entryAt_of_mem he, if_neg (by omega)] at hrow
      exact deserializeEntry_fits (Option.some.inj hrow)
  · rintro ⟨hlast, hfits⟩
    have hnew := append_holds hold hes hfits (by omega)
    obtain ⟨last, hlastAt⟩ := hes.exists_entry (i := k + es.length - 1) (by omega) (by omega)
    obtain ⟨hmem, hidx⟩ := entryAt_eq_some hlastAt
    refine ⟨hnew, ?_, hnew.term, hnew.entries⟩
    rw [← hidx]
    refine hnew.lastIndex (List.mem_append_right _ hmem) ?_
    intro e he
    rcases List.mem_append.1 he with he | he
    · have := (List.mem_filter.1 he).2
      simp only [decide_eq_true_eq] at this
      omega
    · have := hes.index_lt he
      omega

def emptyEntry (index term : ℕ) : Entry := { entryType := 0, term, index, data := [] }

def threeEntries : List Entry := [emptyEntry 1 1, emptyEntry 2 1, emptyEntry 3 1]

theorem holds_nil : Database.Holds {} [] := fun i => by
  simp [entryAt]

theorem holds_threeEntries : (append {} threeEntries).Holds threeEntries :=
  append_holds (k := 1) holds_nil rfl (by decide) (by decide)

/-- A new leader's single entry at index 2 leaves the old entry 3 in place. -/
theorem append_keeps_conflicting_suffix :
    ¬ ∀ (db : Database) (old es : List Entry) (first k : ℕ), db.Holds old →
      Consecutive first old → Consecutive k es → es ≠ [] → db.firstIndex ≤ k →
      k ≤ db.lastIndex + 1 →
      (db.append es).Holds (overwrite old k es) ∧
        (db.append es).lastIndex = k + es.length - 1 ∧
        (∀ i, (db.append es).term i = .ok ((entryAt (overwrite old k es) i).elim 0 Entry.term)) ∧
        ∀ low high, (db.append es).entries low high none =
          .ok ((List.range' low (high - low)).filterMap (entryAt (overwrite old k es))) := by
  intro h
  have hlast := (h _ threeEntries [emptyEntry 2 2] 1 2 holds_threeEntries rfl rfl (by decide)
    (by decide) (by decide)).2.1
  revert hlast
  decide

theorem append_overwrites_longer : (append {} threeEntries).Holds threeEntries ∧
    let db := append {} threeEntries
    let es := [emptyEntry 2 2, emptyEntry 3 2, emptyEntry 4 2]
    (db.append es).Holds (overwrite threeEntries 2 es) ∧
      (db.append es).lastIndex = 4 ∧
      (∀ i, (db.append es).term i = .ok ((entryAt (overwrite threeEntries 2 es) i).elim 0 Entry.term)) ∧
      ∀ low high, (db.append es).entries low high none =
        .ok ((List.range' low (high - low)).filterMap (entryAt (overwrite threeEntries 2 es))) := by
  have hes : Consecutive 2 [emptyEntry 2 2, emptyEntry 3 2, emptyEntry 4 2] := rfl
  exact ⟨holds_threeEntries,
    (append_overwrites_iff holds_threeEntries hes (by decide)).2 ⟨by decide, by decide⟩⟩

end Database

end Blixard
