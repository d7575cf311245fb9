/-
  What a snapshot that could not be applied leaves behind (`apply_snapshot` in
  `raft_storage.rs`).

  The call runs up to four write transactions, each committed before the next begins
  (`applySnapshot_atomic_iff`).
-/
import Blixard.Storage.Raw

namespace Blixard

open List

inductive SnapshotTxn where
  | saveConfState | saveHardState | restore | compactLog

namespace SnapshotTxn

def all : List SnapshotTxn := [saveConfState, saveHardState, restore, compactLog]

def before : SnapshotTxn → List SnapshotTxn
  | saveConfState => []
  | saveHardState => [saveConfState]
  | restore => [saveConfState, saveHardState]
  | compactLog => [saveConfState, saveHardState, restore]

theorem all_eq_before (t : SnapshotTxn) : ∃ after, all = t.before ++ t :: after := by
  cases t <;> exact ⟨_, rfl⟩

theorem eq_before {pre after : List SnapshotTxn} {t : SnapshotTxn}
    (h : all = pre ++ t :: after) : pre = t.before := by
  rcases pre with _ | ⟨a, _ | ⟨b, _ | ⟨c, _ | ⟨d, pre⟩⟩⟩⟩
  all_goals
    simp only [all, cons_append, nil_append, cons.injEq] at h
  · obtain ⟨rfl, -⟩ := h
    rfl
  · obtain ⟨rfl, rfl, -⟩ := h
    rfl
  · obtain ⟨rfl, rfl, rfl, -⟩ := h
    rfl
  · obtain ⟨rfl, rfl, rfl, rfl, -⟩ := h
    rfl
  · simp at h

end SnapshotTxn

namespace RawDatabase

/-- A transaction is committed as a whole, or aborted by a fault. -/
def commit (db db' : RawDatabase) : Option BlixardError → RawDatabase × Except BlixardError Unit
  | some e => (db, .error e)
  | none => (db', .ok ())

variable (codec : Bytes → Except String RawSnapshotData)
  (faults : SnapshotTxn → Option BlixardError)

/-- One of the calls of `apply_snapshot`.  No transaction is begun for a snapshot without
    data, and for the log at index 0. -/
def transact (s : Snapshot) (db : RawDatabase) :
    SnapshotTxn → RawDatabase × Except BlixardError Unit
  | .saveConfState => db.commit (db.saveConfState s.metadata.confState) (faults .saveConfState)
  | .saveHardState =>
    db.commit (db.saveHardState { term := s.metadata.term, vote := 0, commit := s.metadata.index })
      (faults .saveHardState)
  | .restore =>
    if s.data = [] then (db, .ok ())
    else
      match codec s.data with
      | .error source => (db, .error (.serialization "deserialize snapshot data" source))
      | .ok snapshot => db.commit (db.restoreTables snapshot) (faults .restore)
  | .compactLog =>
    if s.metadata.index = 0 then (db, .ok ())
    else db.commit (db.compactLogBefore s.metadata.index) (faults .compactLog)

def applySnapshotWith (db : RawDatabase) (s : Snapshot) : RawDatabase × Except BlixardError Unit :=
  Run.attempt (transact codec faults s) db SnapshotTxn.all

variable (s : Snapshot)

theorem applySnapshotWith_eq (db : RawDatabase) :
    db.applySnapshotWith codec (fun _ => none) s = db.applySnapshot codec s := by
  simp only [applySnapshotWith, SnapshotTxn.all, Run.attempt, transact, commit, applySnapshot]
  by_cases hdata : s.data = []
  · by_cases hi : s.metadata.index = 0 <;> simp [hdata, hi, compactLogBefore]
  simp only [hdata, if_false, restoreFromSnapshot]
  cases codec s.data with
  | error src => rfl
  | ok snap => by_cases hi : s.metadata.index = 0 <;> simp [hi, compactLogBefore]

/-! ## Failures and effects -/

def failure (s : Snapshot) : SnapshotTxn → Option BlixardError
  | .saveConfState => faults .saveConfState
  | .saveHardState => faults .saveHardState
  | .restore =>
    if s.data = [] then none
    else
      match codec s.data with
      | .error source => some (.serialization "deserialize snapshot data" source)
      | .ok _ => faults .restore
  | .compactLog => if s.metadata.index = 0 then none else faults .compactLog

def effect (s : Snapshot) (db : RawDatabase) : SnapshotTxn → RawDatabase
  | .saveConfState => db.saveConfState s.metadata.confState
  | .saveHardState =>
    db.saveHardState { term := s.metadata.term, vote := 0, commit := s.metadata.index }
  | .restore =>
    if s.data = [] then db
    else
      match codec s.data with
      | .error _ => db
      | .ok snapshot => db.restoreTables snapshot
  | .compactLog => db.compactLogBefore s.metadata.index

variable {codec faults}

theorem transact_eq (s : Snapshot) (db : RawDatabase) (t : SnapshotTxn) :
    transact codec faults s db t =
      (failure codec faults s t).elim (effect codec s db t, .ok ()) fun e => (db, .error e) := by
  have hc : ∀ (db' : RawDatabase) (fault : Option BlixardError), db.commit db' fault =
      fault.elim (db', .ok ()) fun e => (db, .error e) := by
    intro db' fault
    cases fault <;> rfl
  cases t with
  | saveConfState => exact hc _ _
  | saveHardState => exact hc _ _
  | restore =>
    simp only [transact, failure, effect]
    split_ifs
    · rfl
    · cases codec s.data with
      | error src => rfl
      | ok snap => exact hc _ _
  | compactLog =>
    simp only [transact, failure, effect, compactLogBefore]
    split_ifs
    · rfl
    · exact hc _ _

/-! ## What the transactions write -/

theorem effect_restore_raft (db : RawDatabase) :
    (effect codec s db .restore).strings .raftConfState = db.strings .raftConfState ∧
    (effect codec s db .restore).strings .raftHardState = db.strings .raftHardState := by
  simp only [effect]
  split_ifs
  · exact ⟨rfl, rfl⟩
  · split
    · exact ⟨rfl, rfl⟩
    · simp [restoreTables_eq, RawSnapshotData.strings]

theorem setStrings_eq_self {db : RawDatabase} {name : StringTable} {table : Table String Bytes}
    (h : table = db.strings name) : db.setStrings name table = db := by
  rw [setStrings, h, Function.update_eq_self]

/-- The transactions write different tables: together they leave the database as it was
    only if each of them does. -/
theorem foldl_before_eq_iff (db : RawDatabase) (t : SnapshotTxn) :
    t.before.foldl (effect codec s) db = db ↔ ∀ u ∈ t.before, effect codec s db u = db := by
  have hconf : ∀ {db' : RawDatabase}, db' = db →
      db'.strings .raftConfState = (effect codec s db .saveConfState).strings .raftConfState →
      effect codec s db .saveConfState = db := by
    intro db' heq hrow
    refine setStrings_eq_self ?_
    rw [heq] at hrow
    exact hrow.symm
  have hhard : ∀ {db' : RawDatabase}, db' = db →
      db'.strings .raftHardState = (effect codec s db .saveHardState).strings .raftHardState →
      effect codec s db .saveHardState = db := by
    intro db' heq hrow
    refine setStrings_eq_self ?_
    rw [heq] at hrow
    exact hrow.symm
  cases t with
  | saveConfState => simp [SnapshotTxn.before]
  | saveHardState => simp [SnapshotTxn.before]
  | restore =>
    simp only [SnapshotTxn.before, foldl_cons, foldl_nil, forall_mem_cons,
      not_mem_nil, false_imp_iff, implies_true, and_true]
    constructor
    · intro h
      have h1 := hconf h rfl
      rw [h1] at h
      exact ⟨h1, h⟩
    · rintro ⟨h1, h2⟩
      rw [h1, h2]
  | compactLog =>
    simp only [SnapshotTxn.before, foldl_cons, foldl_nil, forall_mem_cons,
      not_mem_nil, false_imp_iff, implies_true, and_true]
    constructor
    · intro h
      have h1 := hconf h (effect_restore_raft s _).1
      rw [h1] at h
      have h2 := hhard h (effect_restore_raft s _).2
      rw [h2] at h
      exact ⟨h1, h2, h⟩
    · rintro ⟨h1, h2, h3⟩
      rw [h1, h2, h3]

/-- **When a snapshot is applied as a whole or not at all**: an error leaves every table as it was
    exactly if each transaction committed before the one that failed wrote only what was there. -/
theorem applySnapshot_atomic_iff (codec : Bytes → Except String RawSnapshotData)
    (faults : SnapshotTxn → Option BlixardError) (db : RawDatabase) (s : Snapshot) :
    (∀ e, (db.applySnapshotWith codec faults s).2 = .error e →
      (db.applySnapshotWith codec faults s).1 = db) ↔
    ∀ t e, failure codec faults s t = some e →
      (∀ u ∈ t.before, failure codec faults s u = none) →
      ∀ u ∈ t.before, effect codec s db u = db := by
  constructor
  · intro hatomic t e ht hbefore
    obtain ⟨after, hall⟩ := t.all_eq_before
    have hrun := Run.attempt_of_failure (@transact_eq codec faults s) hbefore ht after db
    rw [← hall] at hrun
    have hstate := hatomic e (congrArg Prod.snd hrun)
    rw [← foldl_before_eq_iff]
    exact (congrArg Prod.fst hrun).symm.trans hstate
  · intro hkept e he
    obtain ⟨before, t, after, hall, hbefore, ht⟩ :=
      Run.exists_failure_of_attempt (@transact_eq codec faults s) he
    obtain rfl := SnapshotTxn.eq_before hall
    have hrun := Run.attempt_of_failure (@transact_eq codec faults s) hbefore ht after db
    rw [← hall] at hrun
    rw [applySnapshotWith, hrun]
    exact (foldl_before_eq_iff s db t).2 (hkept t e ht hbefore)

/-- A snapshot whose data do not decode: the call fails without a fault of the database, and
    membership and hard state are already those of the snapshot. -/
theorem undecodable_snapshot_is_half_applied :
    ¬ ∀ (codec : Bytes → Except String RawSnapshotData) (db : RawDatabase) (s : Snapshot)
      (e : BlixardError), (db.applySnapshot codec s).2 = .error e →
      (db.applySnapshot codec s).1 = db := by
  intro h
  let db : RawDatabase := ⟨fun _ => ∅, fun _ => ∅, fun _ => ∅⟩
  have hsame := h (fun _ => .error "unexpected end of file") db
    ⟨⟨⟨[1, 2], [], [], [], false⟩, 3, 1⟩, [0]⟩ _ rfl
  have hrow := congrArg (fun db => (db.strings .raftConfState)["conf_state"]?) hsame
  simp [db, applySnapshot, restoreFromSnapshot, saveHardState, saveConfState, setStrings]
    at hrow

end RawDatabase

end Blixard
