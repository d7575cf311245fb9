/-
  The boundary of the stored log: what `first_index`, `last_index` and the term just before the
  first index must say for the Raft library (`raft_storage.rs`).

  The storage keeps no metadata of the last snapshot (`boundary_of_nothing_removed`).
-/
import Blixard.Storage.RaftState

namespace Blixard

open Database List Std.ExtTreeMap

inductive LogOp where
  | append (entries : List Entry)
  | applySnapshot (snapshot : Snapshot)
  | compactLogBefore (index : ℕ)

/-- A database with what its log has been through: index and term of every snapshot applied and
    every entry removed, and the last snapshot, if it was beyond the log and nothing happened since.
    -/
structure LogHistory where
  db : Database
  marks : List (ℕ × ℕ)
  justApplied : Option (ℕ × ℕ)

namespace LogHistory

def fresh : LogHistory := ⟨{}, [(0, 0)], none⟩

def removedBefore (db : Database) (index : ℕ) : List (ℕ × ℕ) :=
  (db.raftLog.toList.filter fun row => row.1 < index).filterMap fun row =>
    (deserializeEntry row.2).toOption.map fun e => (row.1, e.term)

def step (codec : SnapshotCodec) (h : LogHistory) : LogOp → LogHistory
  | .append entries => ⟨h.db.append entries, h.marks, none⟩
  | .compactLogBefore index =>
    ⟨h.db.compactLogBefore index, h.marks ++ removedBefore h.db index, none⟩
  | .applySnapshot s =>
    match h.db.applySnapshot codec s with
    | (db, .error _) => ⟨db, h.marks, none⟩
    | (db, .ok ()) =>
      ⟨db, h.marks ++ removedBefore h.db s.metadata.index ++ [(s.metadata.index, s.metadata.term)],
        if h.db.lastIndex < s.metadata.index then some (s.metadata.index, s.metadata.term)
        else none⟩

/-- **The storage contract at the boundary of the log.** -/
structure Boundary (h : LogHistory) : Prop where
  first_le : h.db.firstIndex - 1 ≤ h.db.lastIndex
  noGap : ∀ i, h.db.firstIndex ≤ i → i ≤ h.db.lastIndex → i ∈ h.db.raftLog
  /-- The position before the first index is one whose term is known, and it is
      the term the storage returns. -/
  known : ∃ t, (h.db.firstIndex - 1, t) ∈ h.marks
  term : ∀ t, (h.db.firstIndex - 1, t) ∈ h.marks → h.db.term (h.db.firstIndex - 1) = .ok t
  applied : ∀ i t, h.justApplied = some (i, t) →
    h.db.firstIndex = i + 1 ∧ h.db.lastIndex = i ∧ h.db.term i = .ok t

/-- The library appends consecutive entries that continue or overwrite the log. -/
def AppendContract (h : LogHistory) : LogOp → Prop
  | .append entries => ∃ k, Consecutive k entries ∧ h.db.firstIndex ≤ k ∧ k ≤ h.db.lastIndex + 1
  | _ => True

/-- A compaction or snapshot removes no stored entry, and a snapshot is not beyond
    the log; one at index 0, before all entries, has term 0. -/
def RemovesNothing (h : LogHistory) : LogOp → Prop
  | .append _ => True
  | .compactLogBefore index => ∀ j ∈ h.db.raftLog, index ≤ j
  | .applySnapshot s =>
    (∀ j ∈ h.db.raftLog, s.metadata.index ≤ j) ∧ s.metadata.index ≤ h.db.lastIndex ∧
    (s.metadata.index = 0 → s.metadata.term = 0)

/-- The invariant of runs that remove nothing: the log starts at index 1. -/
structure StartsAtOne (h : LogHistory) : Prop where
  mem_iff : ∀ i, i ∈ h.db.raftLog ↔ 1 ≤ i ∧ i ≤ h.db.lastIndex
  origin : (0, 0) ∈ h.marks
  term_zero : ∀ t, (0, t) ∈ h.marks → t = 0
  notApplied : h.justApplied = none

variable {codec : SnapshotCodec} {h : LogHistory}

theorem StartsAtOne.boundary (hs : h.StartsAtOne) : h.Boundary := by
  have hf := (Database.index_bounds_of_mem_iff hs.mem_iff).1
  have hzero : h.db.raftLog[0]? = none := by
    rw [Std.ExtTreeMap.getElem?_eq_none]
    intro h0
    have := (hs.mem_iff 0).1 h0
    omega
  refine ⟨by omega, fun i h1 h2 => (hs.mem_iff i).2 ⟨by omega, h2⟩, ?_, ?_, ?_⟩
  · rw [hf]
    exact ⟨0, hs.origin⟩
  · rw [hf]
    intro t ht
    rw [hs.term_zero t ht]
    simp only [Nat.sub_self, Database.term, hzero]
  · intro i t hi
    rw [hs.notApplied] at hi
    cases hi

theorem startsAtOne_fresh : fresh.StartsAtOne := by
  refine ⟨fun i => ?_, by simp [fresh], by simp [fresh], rfl⟩
  have hlast : fresh.db.lastIndex = 0 := by decide
  rw [hlast]
  simp only [fresh, not_mem_empty, false_iff]
  omega

theorem removedBefore_eq_nil {index : ℕ} (hle : ∀ j ∈ h.db.raftLog, index ≤ j) :
    removedBefore h.db index = [] := by
  have hnone : (h.db.raftLog.toList.filter fun row => row.1 < index) = [] := by
    rw [filter_eq_nil_iff]
    rintro ⟨j, data⟩ hj
    have hget := mem_toList_iff_getElem?_eq_some.1 hj
    have := hle j ((Table.mem_iff _ _).2 ⟨data, hget⟩)
    simpa using this
  rw [removedBefore, hnone]; rfl

theorem applySnapshot_raftLog (s : Snapshot) (hle : ∀ j ∈ h.db.raftLog, s.metadata.index ≤ j) :
    (h.db.applySnapshot codec s).1.raftLog = h.db.raftLog := by
  unfold applySnapshot
  dsimp only
  split
  · rename_i heq
    split_ifs at heq with hdata
    · cases heq
    · unfold restoreFromSnapshot at heq
      split at heq <;> cases heq
      rfl
  · rename_i db heq
    have hlog : db.raftLog = h.db.raftLog := by
      split_ifs at heq with hdata
      · cases heq; rfl
      · unfold restoreFromSnapshot at heq
        split at heq <;> cases heq
        rfl
    rw [compactLogBefore_of_le (by rw [hlog]; exact hle), hlog]

theorem startsAtOne_append (hs : h.StartsAtOne) {k : ℕ} {es : List Entry}
    (hes : Consecutive k es) (h1 : h.db.firstIndex ≤ k) (h2 : k ≤ h.db.lastIndex + 1) :
    StartsAtOne ⟨h.db.append es, h.marks, none⟩ := by
  have hf := (index_bounds_of_mem_iff hs.mem_iff).1
  have hmem : ∀ i, i ∈ (h.db.append es).raftLog ↔
      1 ≤ i ∧ i ≤ max h.db.lastIndex (k + es.length - 1) := by
    intro i
    rw [mem_append_iff, hs.mem_iff, show es.map Entry.index = _ from hes,
      mem_range'_1]
    omega
  have hlast := (index_bounds_of_mem_iff hmem).2
  exact ⟨fun i => by rw [hlast]; exact hmem i, hs.origin, hs.term_zero, rfl⟩

theorem startsAtOne_step (h : LogHistory) (op : LogOp) (hs : h.StartsAtOne)
    (hop : AppendContract h op ∧ RemovesNothing h op) : (step codec h op).StartsAtOne := by
  obtain ⟨hc, hr⟩ := hop
  cases op with
  | append es =>
    obtain ⟨k, hes, h1, h2⟩ := hc
    exact startsAtOne_append hs hes h1 h2
  | compactLogBefore index =>
    rw [step, compactLogBefore_of_le hr, removedBefore_eq_nil hr,
      append_nil]
    exact ⟨hs.mem_iff, hs.origin, hs.term_zero, rfl⟩
  | applySnapshot s =>
    obtain ⟨hle, hlast, hzero⟩ := hr
    have hlog := @applySnapshot_raftLog codec h s hle
    rw [step]
    rcases heq : h.db.applySnapshot codec s with ⟨db, e | ⟨⟩⟩
    all_goals
      rw [heq] at hlog
      have hidx : db.lastIndex = h.db.lastIndex := by rw [lastIndex, hlog]; rfl
      have hmem : ∀ i, i ∈ db.raftLog ↔ 1 ≤ i ∧ i ≤ db.lastIndex := by
        rw [hlog, hidx]; exact hs.mem_iff
    · exact ⟨hmem, hs.origin, hs.term_zero, rfl⟩
    dsimp only
    rw [removedBefore_eq_nil hle, append_nil, if_neg (by omega)]
    refine ⟨hmem, mem_append_left _ hs.origin, fun t ht => ?_, rfl⟩
    rcases mem_append.1 ht with ht | ht
    · exact hs.term_zero t ht
    · obtain ⟨hi, rfl⟩ := Prod.mk.inj (mem_singleton.1 ht)
      exact hzero hi.symm

/-- **The boundary of the log**: from a fresh database, with appends that meet the library's
    contract and nothing removed, the storage contract at the boundary holds in every state. -/
theorem boundary_of_nothing_removed (codec : SnapshotCodec) (ops : List LogOp)
    (hops : Run.Along (step codec) (fun h op => AppendContract h op ∧ RemovesNothing h op)
      fresh ops) :
    ∀ h ∈ ops.scanl (step codec) fresh, h.Boundary := fun h hh =>
  (Run.invariant startsAtOne_step startsAtOne_fresh hops h hh).boundary

/-- After a snapshot at index 5 and term 2, an empty node reads first index 1. -/
theorem snapshot_beyond_log_is_lost :
    ¬ ∀ (codec : SnapshotCodec) (ops : List LogOp),
      Run.Along (step codec) AppendContract fresh ops →
      ∀ h ∈ ops.scanl (step codec) fresh, h.Boundary := by
  intro hall
  have hb := hall .refusing [.applySnapshot ⟨⟨{}, 5, 2⟩, []⟩] ⟨trivial, trivial⟩ _
    (Run.foldl_mem_scanl _ _)
  have hfirst := (hb.applied 5 2 (by decide)).1
  revert hfirst
  decide

theorem boundary_after_overwrite :
    let ops : List LogOp := [.append Database.threeEntries, .compactLogBefore 1,
      .append [Database.emptyEntry 3 2, Database.emptyEntry 4 2]]
    Run.Along (step .refusing) (fun h op => AppendContract h op ∧ RemovesNothing h op) fresh ops ∧
    ∀ h ∈ ops.scanl (step .refusing) fresh, h.Boundary := by
  intro ops
  have hops : Run.Along (step .refusing)
      (fun h op => AppendContract h op ∧ RemovesNothing h op) fresh ops := by
    refine ⟨⟨⟨1, rfl, by decide, by decide⟩, trivial⟩, ⟨trivial, ?_⟩,
      ⟨⟨3, rfl, by decide, by decide⟩, trivial⟩, trivial⟩
    intro j hj
    have hkeys : j ∈ [1, 2, 3] := by
      rw [← Std.ExtTreeMap.mem_keys] at hj
      exact hj
    have hpos : ∀ i ∈ [1, 2, 3], 1 ≤ i := by decide
    exact hpos j hkeys
  exact ⟨hops, boundary_of_nothing_removed .refusing ops hops⟩

end LogHistory

end Blixard
