/-
  Hard state, membership and snapshots on disk (`raft_storage.rs`), and what survives of a vote.

  A snapshot writes its term and no vote, and a joining node zeros
  (`vote_durable_between_joins`).
-/
import Blixard.Lib.Run
import Blixard.Storage.Log

namespace Blixard

structure SnapshotMetadata where
  confState : ConfState
  index : ℕ
  term : ℕ
  deriving DecidableEq

structure Snapshot where
  metadata : SnapshotMetadata
  data : Bytes
  deriving DecidableEq

structure SnapshotCodec where
  serialize : SnapshotData → Bytes
  deserialize : Bytes → Except String SnapshotData

namespace Database

/-! ## Operations -/

def saveHardState (db : Database) (hardState : HardState) : Database :=
  { db with raftHardState := db.raftHardState.insert "hard_state" (serializeHardState hardState) }

def saveConfState (db : Database) (confState : ConfState) : Database :=
  { db with raftConfState := db.raftConfState.insert "conf_state" (serializeConfState confState) }

def hardState (db : Database) : HardState :=
  match db.raftHardState["hard_state"]? with
  | some data => ((deserializeHardState data).toOption).getD {}
  | none => {}

def confState (db : Database) : ConfState :=
  match db.raftConfState["conf_state"]? with
  | some data => ((deserializeConfState data).toOption).getD {}
  | none => {}

def initialState (db : Database) : HardState × ConfState := (db.hardState, db.confState)

def loadConfState (db : Database) : Except BlixardError ConfState :=
  match db.raftConfState["conf_state"]? with
  | some data =>
    (deserializeConfState data).mapError fun e => .serialization "deserialize conf state" e.display
  | none => .ok {}

def initializeSingleNode (db : Database) (nodeId : ℕ) : Database :=
  if (db.raftConfState["conf_state"]?).isSome then db
  else db.saveConfState { voters := [nodeId] }

def initializeJoiningNode (db : Database) : Database :=
  (db.saveConfState {}).saveHardState { term := 0, vote := 0, commit := 0 }

variable (codec : SnapshotCodec)

def restoreFromSnapshot (db : Database) (data : Bytes) : Database × Except BlixardError Unit :=
  match codec.deserialize data with
  | .error source => (db, .error (.serialization "deserialize snapshot data" source))
  | .ok snapshot => (db.restoreTables snapshot, .ok ())

def applySnapshot (db : Database) (snapshot : Snapshot) : Database × Except BlixardError Unit :=
  let db := db.saveConfState snapshot.metadata.confState
  let db := db.saveHardState
    { term := snapshot.metadata.term, vote := 0, commit := snapshot.metadata.index }
  let restored :=
    if snapshot.data = [] then (db, .ok ()) else db.restoreFromSnapshot codec snapshot.data
  match restored with
  | (db, .error e) => (db, .error e)
  | (db, .ok ()) => (db.compactLogBefore snapshot.metadata.index, .ok ())

def snapshot (db : Database) (requestIndex : ℕ) : Except BlixardError Snapshot := do
  let confState ← db.loadConfState
  let lastIndex := db.lastIndex
  let term ← if 0 < lastIndex then db.term lastIndex else pure 0
  return { metadata := { confState, index := min requestIndex lastIndex, term }
           data := codec.serialize db.createSnapshotData }

/-! ## What the operations leave -/

variable {codec} (db : Database)

theorem hardState_saveHardState {hs : HardState} (h : hs.Fits) :
    (db.saveHardState hs).hardState = hs := by
  simp only [hardState, saveHardState, Table.get_insert, if_true,
    deserializeHardState_serializeHardState h]
  rfl

@[simp] theorem compactLogBefore_raftHardState (index : ℕ) :
    (db.compactLogBefore index).raftHardState = db.raftHardState := by
  unfold compactLogBefore
  split <;> rfl

@[simp] theorem restoreFromSnapshot_raftHardState (data : Bytes) :
    (db.restoreFromSnapshot codec data).1.raftHardState = db.raftHardState := by
  unfold restoreFromSnapshot
  split <;> rfl

variable (s : Snapshot)

theorem applySnapshot_raftHardState : (db.applySnapshot codec s).1.raftHardState =
      (db.saveHardState ⟨s.metadata.term, 0, s.metadata.index⟩).raftHardState := by
  unfold applySnapshot
  by_cases hdata : s.data = []
  · simp only [hdata, if_true, compactLogBefore_raftHardState]; rfl
  simp only [hdata, if_false]
  have hr := @restoreFromSnapshot_raftHardState codec
    ((db.saveConfState s.metadata.confState).saveHardState
      ⟨s.metadata.term, 0, s.metadata.index⟩) s.data
  split <;> rename_i heq <;> rw [heq] at hr
  · exact hr
  · simp only [compactLogBefore_raftHardState]; exact hr

theorem hardState_applySnapshot (h : HardState.Fits ⟨s.metadata.term, 0, s.metadata.index⟩) :
    (db.applySnapshot codec s).1.hardState = ⟨s.metadata.term, 0, s.metadata.index⟩ := by
  unfold hardState
  rw [applySnapshot_raftHardState]
  exact hardState_saveHardState db h

theorem hardState_initializeJoiningNode : db.initializeJoiningNode.hardState = {} :=
  hardState_saveHardState _ ⟨by decide, by decide, by decide⟩

theorem hardState_initializeSingleNode (nid : ℕ) :
    (db.initializeSingleNode nid).hardState = db.hardState := by
  unfold initializeSingleNode
  split <;> rfl

end Database

/-! ## Votes -/

/-- The operations that a hard state goes through.  A restart reads what is on
    disk; a node that is not told to join then runs `initialize_single_node`. -/
inductive HardStateOp where
  | saveHardState (hardState : HardState)
  | applySnapshot (snapshot : Snapshot)
  | initializeJoiningNode
  | initializeSingleNode (nodeId : ℕ)
  | restart

namespace HardStateOp

def step (codec : SnapshotCodec) (db : Database) : HardStateOp → Database
  | saveHardState hs => db.saveHardState hs
  | applySnapshot s => (db.applySnapshot codec s).1
  | initializeJoiningNode => db.initializeJoiningNode
  | initializeSingleNode nodeId => db.initializeSingleNode nodeId
  | restart => db

end HardStateOp

/-- `hs'` may follow `hs`: the term has not gone down, and a vote cast in it is
    still there. -/
structure HardState.Extends (hs hs' : HardState) : Prop where
  term_le : hs.term ≤ hs'.term
  vote_eq : hs.term = hs'.term → hs.vote ≠ 0 → hs'.vote = hs.vote

namespace HardState.Extends

variable {hs hs' hs'' : HardState}

theorem refl (hs : HardState) : hs.Extends hs := ⟨le_rfl, fun _ _ => rfl⟩

theorem trans (h : hs.Extends hs') (h' : hs'.Extends hs'') : hs.Extends hs'' := by
  refine ⟨h.term_le.trans h'.term_le, fun heq hv => ?_⟩
  have h1 := h.term_le
  have h2 := h'.term_le
  have hmid : hs.term = hs'.term := by omega
  have hvote := h.vote_eq hmid hv
  rw [h'.vote_eq (by omega) (hvote ▸ hv), hvote]

end HardState.Extends

open HardStateOp

/-- What the Raft library promises of the operations: numbers of 64 bits, and hard
    states that extend the persisted one. -/
def RaftContract (db : Database) : HardStateOp → Prop
  | saveHardState hs => hs.Fits ∧ db.hardState.Extends hs
  | applySnapshot s => HardState.Fits ⟨s.metadata.term, 0, s.metadata.index⟩
  | _ => True

/-- An operation other than a join, and no snapshot of a term that the node has
    passed or voted in. -/
def NoReset (db : Database) : HardStateOp → Prop
  | applySnapshot s => db.hardState.term < s.metadata.term ∨
      db.hardState.term = s.metadata.term ∧ db.hardState.vote = 0
  | initializeJoiningNode => False
  | _ => True

theorem extends_step {codec : SnapshotCodec} {db : Database} {op : HardStateOp}
    (hraft : RaftContract db op) (hr : NoReset db op) :
    db.hardState.Extends (step codec db op).hardState := by
  cases op with
  | saveHardState hs => exact (db.hardState_saveHardState hraft.1).symm ▸ hraft.2
  | applySnapshot s =>
    refine (db.hardState_applySnapshot s hraft).symm ▸ ?_
    rcases hr with hlt | ⟨heq, hvote⟩
    · exact ⟨hlt.le, fun he => absurd he hlt.ne⟩
    · exact ⟨heq.le, fun _ hne => absurd hvote hne⟩
  | initializeJoiningNode => exact hr.elim
  | initializeSingleNode nid =>
    exact (db.hardState_initializeSingleNode nid).symm ▸ .refl _
  | restart => exact .refl _

/-- **Votes are durable between joins**: the persisted term does not decrease and a vote stays while
    its term does, if no operation is a join, which resets the hard state, or a snapshot of an old
    term. -/
theorem vote_durable_between_joins (codec : SnapshotCodec) (db : Database)
    (before between : List HardStateOp)
    (hraft : Run.Along (step codec) RaftContract db (before ++ between))
    (hreset : Run.Along (step codec) NoReset (before.foldl (step codec) db) between) :
    (∀ db' ∈ between.scanl (step codec) (before.foldl (step codec) db),
      (before.foldl (step codec) db).hardState.Extends db'.hardState) ∧
    ∀ db : Database, (step codec db .initializeJoiningNode).hardState = ⟨0, 0, 0⟩ := by
  refine ⟨?_, fun db => db.hardState_initializeJoiningNode⟩
  have hboth := Run.along_and (Run.along_append.1 hraft).2 hreset
  exact Run.invariant (fun s op hs hC => hs.trans (extends_step hC.1 hC.2)) (.refl _) hboth

def SnapshotCodec.refusing : SnapshotCodec := ⟨fun _ => [], fun _ => .error "no data"⟩

/-- A node that voted in term 5 forgets term and vote when it joins again. -/
theorem join_forgets_vote :
    ¬ ∀ (codec : SnapshotCodec) (db : Database) (ops : List HardStateOp),
      Run.Along (step codec) RaftContract db ops →
      ∀ db' ∈ ops.scanl (step codec) db, db.hardState.Extends db'.hardState := by
  intro h
  have hjoin := h .refusing (Database.saveHardState {} ⟨5, 2, 0⟩) [.initializeJoiningNode]
    ⟨trivial, trivial⟩ _ (Run.foldl_mem_scanl _ _)
  have hle := hjoin.term_le
  revert hle
  decide

/-- A vote in term 5 is still there after a restart, and term 6 may follow. -/
theorem vote_durable_over_restart :
    let ops : List HardStateOp := [.restart, .initializeSingleNode 1, .saveHardState ⟨6, 0, 3⟩]
    let db := Database.saveHardState {} ⟨5, 2, 0⟩
    Run.Along (step .refusing) RaftContract {} ([.saveHardState ⟨5, 2, 0⟩] ++ ops) ∧
    Run.Along (step .refusing) NoReset db ops ∧
    (∀ db' ∈ ops.scanl (step .refusing) db, db.hardState.Extends db'.hardState) ∧
    ∀ db : Database, (step .refusing db .initializeJoiningNode).hardState = ⟨0, 0, 0⟩ := by
  intro ops db
  have hraft : Run.Along (step .refusing) RaftContract {} ([.saveHardState ⟨5, 2, 0⟩] ++ ops) := by
    refine ⟨⟨⟨by decide, by decide, by decide⟩, by decide, by decide⟩, trivial, trivial,
      ⟨⟨by decide, by decide, by decide⟩, by decide, by decide⟩, trivial⟩
  have hreset : Run.Along (step .refusing) NoReset db ops := ⟨trivial, trivial, trivial, trivial⟩
  exact ⟨hraft, hreset,
    vote_durable_between_joins .refusing {} [.saveHardState ⟨5, 2, 0⟩] ops hraft hreset⟩

end Blixard
