/-
  Is a snapshot that the storage creates a snapshot of the index it names?

  Its index is that of the request, cut at the last log index, its term that of the last log
  entry, and its data are the tables as they are (`snapshot_consistent_iff`).
-/
import Blixard.Raft.Core

namespace Blixard

open Database

def termAt (log : List Entry) (i : ℕ) : ℕ := (entryAt log i).elim 0 Entry.term

namespace RaftManager

variable {R : Type} (d : Deployment) (lib : Libraries R) (envs : ℕ → ℕ → Env)

def applyAll (n : RaftManager R) (entries : List Entry) : RaftManager R :=
  entries.foldl (fun n e => (n.processEntry d lib envs e).1) n

def tablesAt (n : RaftManager R) (log : List Entry) (i : ℕ) : SnapshotData :=
  (n.applyAll d lib envs (log.take i)).machine.database.createSnapshotData

/-- A consistent answer: the term is that of the entry at its index, the data are the tables after
    exactly the entries up to it, and the index reaches the request. -/
structure Consistent (n : RaftManager R) (log : List Entry) (request : ℕ) (s : Snapshot) :
    Prop where
  term : s.metadata.term = termAt log s.metadata.index
  data : lib.snapshotCodec.deserialize s.data = .ok (n.tablesAt d lib envs log s.metadata.index)
  index : request ≤ s.metadata.index

variable {d lib envs}

theorem snapshot_eq {db : Database} {log : List Entry} {k req : ℕ} {s : Snapshot}
    (hlog : Consecutive 1 log) (ht : db.Holds (log.drop k))
    (hs : db.snapshot lib.snapshotCodec req = .ok s) :
    s.metadata.index = min req db.lastIndex ∧ s.metadata.term = termAt log db.lastIndex ∧
      s.data = lib.snapshotCodec.serialize db.createSnapshotData := by
  obtain ⟨confState, -, hs⟩ := bind_eq_ok hs
  dsimp only at hs
  split_ifs at hs with hpos
  · obtain ⟨term, hterm, hs⟩ := bind_eq_ok hs
    cases hs
    refine ⟨rfl, ?_, rfl⟩
    -- the last entry of the stored part is that entry of the whole log
    rw [ht.term] at hterm
    cases hterm
    have hmem := (ht.mem_iff db.lastIndex).1 (lastIndex_mem (by omega))
    obtain ⟨e, he⟩ := Option.isSome_iff_exists.1 hmem
    obtain ⟨hin, hidx⟩ := entryAt_eq_some he
    rw [termAt, he, ← hidx, hlog.entryAt_of_mem (List.mem_of_mem_drop hin)]
  · cases hs
    refine ⟨rfl, ?_, rfl⟩
    have hnone : entryAt log db.lastIndex = none := by
      rw [entryAt_eq_none]
      intro e he
      have := hlog.index_lt he
      omega
    rw [termAt, hnone]; rfl

/-- **Snapshots** are consistent exactly if the request is not beyond the log, the requested entry
    has the term of the last one, and the applied entries left the tables that those up to the
    request leave. -/
theorem snapshot_consistent_iff (n : RaftManager R) {log : List Entry} {k : ℕ}
    (hlog : Consecutive 1 log) (hstored : n.machine.database.Holds (log.drop k))
    (applied request : ℕ) {s : Snapshot}
    (hs : (n.applyAll d lib envs (log.take applied)).machine.database.snapshot lib.snapshotCodec
      request = .ok s) (hcodec : lib.snapshotCodec.deserialize
        (lib.snapshotCodec.serialize (n.tablesAt d lib envs log applied)) =
      .ok (n.tablesAt d lib envs log applied)) : Consistent d lib envs n log request s ↔
      request ≤ n.machine.database.lastIndex ∧
      termAt log request = termAt log n.machine.database.lastIndex ∧
      n.tablesAt d lib envs log applied = n.tablesAt d lib envs log request := by
  have hraft := (@foldl_processEntry_frame R d lib envs (log.take applied) n).2
  have hlast : (n.applyAll d lib envs (log.take applied)).machine.database.lastIndex =
      n.machine.database.lastIndex := by
    unfold Database.lastIndex
    rw [applyAll, hraft]
  have hstored' :
      (n.applyAll d lib envs (log.take applied)).machine.database.Holds (log.drop k) := by
    unfold Database.Holds
    rw [applyAll, hraft]
    exact hstored
  obtain ⟨hindex, hterm, hdata⟩ := snapshot_eq hlog hstored' hs
  rw [hlast] at hindex hterm
  constructor
  · intro h
    have hle := h.index
    rw [hindex] at hle
    have hreq : s.metadata.index = request := by omega
    refine ⟨by omega, ?_, ?_⟩
    · rw [← hterm, h.term, hreq]
    · have hok := h.data
      rw [hdata, hreq] at hok
      exact Except.ok.inj (hcodec.symm.trans hok)
  · rintro ⟨hle, hterms, htables⟩
    have hreq : s.metadata.index = request := by omega
    refine ⟨?_, ?_, hreq.ge⟩
    · rw [hterm, hreq, hterms]
    · rw [hdata, hreq, ← htables]
      exact hcodec

def emptySnapshot : Bytes := List.replicate 80 0

def emptyLibraries : Libraries Unit :=
  .only (.batch []) (Bytes.leBytes 4 15 ++ Bytes.leBytes 8 0)
    (.only (Database.createSnapshotData {}) emptySnapshot)

def twoTerms : List Entry := [Database.emptyEntry 1 1, Database.emptyEntry 2 2]

theorem consecutive_twoTerms : Consecutive 1 twoTerms := rfl

theorem holds_twoTerms : (nodeOne twoTerms).machine.database.Holds (twoTerms.drop 0) :=
  append_holds (k := 1) holds_nil rfl (by decide) (by decide)

theorem snapshot_at_end_consistent :
    let s : Snapshot := ⟨⟨{}, 2, 2⟩, emptySnapshot⟩
    (nodeOne twoTerms).machine.database.snapshot emptyLibraries.snapshotCodec 2 = .ok s ∧
    Consistent .raftManager emptyLibraries (fun _ _ => .still 0) (nodeOne twoTerms) twoTerms 2 s :=
  ⟨by decide +kernel, (snapshot_consistent_iff (nodeOne twoTerms) consecutive_twoTerms
    holds_twoTerms 2 2 (by decide +kernel) (by decide +kernel)).2 ⟨by decide, by decide, rfl⟩⟩

/-- A snapshot at entry 1 has the term of entry 2. -/
theorem snapshot_term_of_last_entry :
    ¬ ∀ (d : Deployment) (lib : Libraries Unit) (envs : ℕ → ℕ → Env) (n : RaftManager Unit)
      (log : List Entry) (k applied request : ℕ) (s : Snapshot), Consecutive 1 log →
      n.machine.database.Holds (log.drop k) →
      (n.applyAll d lib envs (log.take applied)).machine.database.snapshot lib.snapshotCodec
        request = .ok s →
      lib.snapshotCodec.deserialize
          (lib.snapshotCodec.serialize (n.tablesAt d lib envs log applied)) =
        .ok (n.tablesAt d lib envs log applied) →
      Consistent d lib envs n log request s := by
  intro h
  have hterm := (h .raftManager emptyLibraries (fun _ _ => .still 0) (nodeOne twoTerms) twoTerms 0 2
    1 ⟨⟨{}, 1, 2⟩, emptySnapshot⟩ consecutive_twoTerms holds_twoTerms (by decide +kernel)
    (by decide +kernel)).term
  revert hterm
  decide

end RaftManager

end Blixard
