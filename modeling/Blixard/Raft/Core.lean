/-
  The Raft manager (`raft/core.rs`, `raft/snapshot.rs`): how it consumes what the Raft library
  hands it.

  The inline block of `handle_raft_message` processes membership changes only and drops what
  `advance` returns; `onReady` processes all committed entries and fetches those up to the commit
  index from the store.
-/
import Blixard.Raft.ConfigManager
import Blixard.Raft.Replicated

namespace Blixard

open List Run

/-- What libraries compute for the manager: decoding, and applying a membership change
    to the state `R` of the Raft library. -/
structure Libraries (R : Type) where
  decodeProposal : Bytes → Except String ProposalData
  parseConfChange : Bytes → Except String ConfChange
  decodeContext : Bytes → Except String ConfChangeContext
  rawApply : R → ConfChange → Except String (R × ConfState)
  snapshotCodec : SnapshotCodec

def Libraries.only (p : ProposalData) (bytes : Bytes) (snapshotCodec : SnapshotCodec) :
    Libraries Unit where
  decodeProposal := decodeOnly p bytes
  parseConfChange _ := .error "unexpected end of file"
  decodeContext _ := .error "unexpected end of file"
  rawApply _ _ := .error "removed all voters"
  snapshotCodec

/-- A `Ready`, and what `advance` returns for it and leaves behind. -/
structure Round (R : Type) where
  raft : R
  snapshot : Option Snapshot
  entries : List Entry
  hardState : Option HardState
  committedEntries : List Entry
  light : List Entry
  commitIndex : Option ℕ
  hardStateAfter : HardState
  applied : ℕ
  committed : ℕ

/-- The manager; `handed` records the entries that were given to `apply_entry`. -/
structure RaftManager (R : Type) where
  nodeId : ℕ
  raft : R
  machine : Machine
  peers : Table ℕ String
  needsReplicationTrigger : Bool
  pendingProposals : Table Bytes ℕ
  responses : List (ℕ × Except BlixardError Unit)
  lastCompactionIndex : Option ℕ
  handed : List Entry

namespace RaftManager

def nodeOne (log : List Entry) : RaftManager Unit where
  nodeId := 1
  raft := ()
  machine := { Machine.new with database := Database.append {} log }
  peers := ∅
  needsReplicationTrigger := false
  pendingProposals := ∅
  responses := []
  lastCompactionIndex := none
  handed := []

variable {R : Type} (d : Deployment) (lib : Libraries R) (envs : ℕ → ℕ → Env)

/-! ## Entries -/

def respond (n : RaftManager R) (context : Bytes) (result : Except BlixardError Unit) :
    RaftManager R :=
  if context = [] then n
  else
    match n.pendingProposals[context]? with
    | none => n
    | some client => { n with
        pendingProposals := n.pendingProposals.erase context
        responses := n.responses ++ [(client, result)] }

/-- An error value of `apply_entry` goes to the client only; a panic ends the task. -/
def processNormalEntry (n : RaftManager R) (entry : Entry) : RaftManager R × Except Failure Unit :=
  let applied := n.machine.applyEntry d lib.decodeProposal (envs n.handed.length) entry
  let n := { n with machine := applied.1, handed := n.handed ++ [entry] }
  match applied.2 with
  | .ok () => (n.respond entry.context (.ok ()), .ok ())
  | .error (.error e) => (n.respond entry.context (.error e), .ok ())
  | .error failure => (n, .error failure)

def configManager (n : RaftManager R) : ConfigManager R :=
  ⟨n.nodeId, n.raft, n.machine.database, n.peers, n.needsReplicationTrigger⟩

def withConfigManager (n : RaftManager R) (c : ConfigManager R) : RaftManager R :=
  { n with
    raft := c.raft
    machine := { n.machine with database := c.database }
    peers := c.peers
    needsReplicationTrigger := c.needsReplicationTrigger }

def processConfChangeEntry (n : RaftManager R) (entry : Entry) :
    RaftManager R × Except Failure Unit :=
  match lib.parseConfChange entry.data with
  | .error source =>
    let e := .internal s!"Failed to parse ConfChange: {source}"
    (n.respond entry.context (.error e), .error (.error e))
  | .ok cc =>
    let (c, result) := n.configManager.applyConfChange lib.rawApply lib.decodeContext cc
    (n.withConfigManager c, result.mapError .error)

/-- A committed entry in `process_committed_entries` and after a light ready; entries
    of unknown type are skipped with a warning. -/
def processEntry (n : RaftManager R) (entry : Entry) : RaftManager R × Except Failure Unit :=
  match entry.kind with
  | .entryNormal => n.processNormalEntry d lib envs entry
  | .entryConfChange => n.processConfChangeEntry lib entry
  | .entryConfChangeV2 => (n, .ok ())

/-- A committed entry in the inline block of `handle_raft_message`. -/
def processInline (n : RaftManager R) (entry : Entry) : RaftManager R × Except Failure Unit :=
  match entry.kind with
  | .entryConfChange => n.processConfChangeEntry lib entry
  | _ => (n, .ok ())

/-! ## Ready values -/

def saveEntries (db : Database) (r : Round R) : Database :=
  let db := if r.entries = [] then db else db.append r.entries
  match r.hardState with
  | none => db
  | some hs => db.saveHardState hs

/-- `process_snapshot_if_present`: the tables are restored by the storage, and then once
    more by the snapshot manager. -/
def processSnapshot (db : Database) (r : Round R) : Database × Except BlixardError Unit :=
  match r.snapshot with
  | none => (db, .ok ())
  | some s =>
    match db.applySnapshot lib.snapshotCodec s with
    | (db, .error e) => (db, .error e)
    | (db, .ok ()) =>
      if s.data = [] then (db, .ok ())
      else
        match lib.snapshotCodec.deserialize s.data with
        | .error source => (db, .error (.serialization "deserialize snapshot" source))
        | .ok snapshot => (db.restoreTables snapshot, .ok ())

def saveReady (db : Database) (r : Round R) : Database × Except BlixardError Unit :=
  match processSnapshot lib db r with
  | (db, .error e) => (db, .error e)
  | (db, .ok ()) => (saveEntries db r, .ok ())

def withDatabase (n : RaftManager R) (database : Database) : RaftManager R :=
  { n with machine := { n.machine with database } }

def consumeInline (n : RaftManager R) (r : Round R) : RaftManager R × Except Failure Unit :=
  let n := { n with raft := r.raft }.withDatabase (saveEntries n.machine.database r)
  Run.attempt (processInline lib) n r.committedEntries

def lastApplied (entries : List Entry) : ℕ := (entries.getLast?.map Entry.index).getD 0

/-- After `advance`: save the commit index, and fetch and process the entries up to it.
    The result has the new applied index. -/
def handleNewlyCommittedEntries (n : RaftManager R) (r : Round R) (lastAppliedIndex : ℕ) :
    RaftManager R × Except Failure ℕ :=
  let n := match r.commitIndex with
    | none => n
    | some commit =>
      n.withDatabase (n.machine.database.saveHardState { r.hardStateAfter with commit })
  let currentApplied := if 0 < lastAppliedIndex then lastAppliedIndex else r.applied
  if r.commitIndex.isSome ∧ currentApplied < r.committed then
    match n.machine.database.entries (currentApplied + 1) (r.committed + 1) none with
    | .error _ => (n, .ok r.applied)
    | .ok entries =>
      let (n, result) := Run.attempt (processEntry d lib envs) n entries
      let last := if entries = [] then lastAppliedIndex else lastApplied entries
      (n, result.map fun _ => if 0 < last then last else r.applied)
  else (n, .ok r.applied)

def shouldCompact (n : RaftManager R) (appliedIndex : ℕ) : Except Failure Bool :=
  if 1000 < appliedIndex then
    match n.lastCompactionIndex with
    | none => .ok true
    | some last => (d.subUnsigned 64 appliedIndex last).map fun n => decide (1000 / 2 < n)
  else .ok false

def compactLog (n : RaftManager R) (appliedIndex : ℕ) : RaftManager R × Except Failure Unit :=
  match n.shouldCompact d appliedIndex with
  | .error failure => (n, .error failure)
  | .ok false => (n, .ok ())
  | .ok true =>
    match n.machine.database.snapshot lib.snapshotCodec appliedIndex with
    | .error _ => (n, .ok ())
    | .ok s =>
      ({ n.withDatabase (n.machine.database.compactLogBefore s.metadata.index) with
          lastCompactionIndex := some s.metadata.index }, .ok ())

def onReady (n : RaftManager R) (r : Round R) : RaftManager R × Except Failure Unit :=
  match saveReady lib n.machine.database r with
  | (db, .error e) => (n.withDatabase db, .error (.error e))
  | (db, .ok ()) =>
    let n := { n with raft := r.raft }.withDatabase db
    match Run.attempt (processEntry d lib envs) n r.committedEntries with
    | (n, .error failure) => (n, .error failure)
    | (n, .ok ()) =>
      match n.handleNewlyCommittedEntries d lib envs r (lastApplied r.committedEntries) with
      | (n, .error failure) => (n, .error failure)
      | (n, .ok applied) => n.compactLog d lib applied

/-! ## What processing an entry does -/

def normals (entries : List Entry) : List Entry := entries.filter fun e => e.kind = .entryNormal

@[simp] theorem normals_append (es es' : List Entry) :
    normals (es ++ es') = normals es ++ normals es' := filter_append _ _

variable {d lib envs} {n : RaftManager R}

theorem respond_frame (ctx : Bytes) (res : Except BlixardError Unit) :
    (n.respond ctx res).handed = n.handed ∧
    (n.respond ctx res).machine = n.machine := by
  unfold respond
  split
  · exact ⟨rfl, rfl⟩
  · split <;> exact ⟨rfl, rfl⟩

variable (entry : Entry)

theorem processNormalEntry_frame :
    (n.processNormalEntry d lib envs entry).1.handed = n.handed ++ [entry] ∧
    (n.processNormalEntry d lib envs entry).1.machine.database.raftLog =
      n.machine.database.raftLog := by
  have hlog :
      (n.machine.applyEntry d lib.decodeProposal (envs n.handed.length) entry).1.database.raftLog =
        n.machine.database.raftLog :=
    congrArg (·.raftLog) (n.machine.applyEntry_sameElsewhere d lib.decodeProposal _ entry)
  unfold processNormalEntry
  dsimp only
  split
  · exact ⟨(respond_frame _ _).1, by rw [(respond_frame _ _).2]; exact hlog⟩
  · exact ⟨(respond_frame _ _).1, by rw [(respond_frame _ _).2]; exact hlog⟩
  · exact ⟨rfl, hlog⟩

theorem processConfChangeEntry_frame : (n.processConfChangeEntry lib entry).1.handed = n.handed ∧
    (n.processConfChangeEntry lib entry).1.machine.database.raftLog =
      n.machine.database.raftLog := by
  unfold processConfChangeEntry
  split
  · exact ⟨(respond_frame _ _).1, by rw [(respond_frame _ _).2]⟩
  · rename_i cc _
    obtain ⟨⟨t, ht⟩, -⟩ := n.configManager.applyConfChange_frame lib.rawApply lib.decodeContext cc
    exact ⟨rfl, congrArg (·.raftLog) ht⟩

theorem processEntry_frame (n : RaftManager R) (entry : Entry) :
    (n.processEntry d lib envs entry).1.handed = n.handed ++ normals [entry] ∧
    (n.processEntry d lib envs entry).1.machine.database.raftLog = n.machine.database.raftLog := by
  unfold processEntry
  cases hkind : entry.kind with
  | entryNormal => simpa [normals, hkind] using processNormalEntry_frame entry
  | entryConfChange => simpa [normals, hkind] using processConfChangeEntry_frame entry
  | entryConfChangeV2 => simp [normals, hkind]

theorem processInline_handed (n : RaftManager R) (entry : Entry) :
    (n.processInline lib entry).1.handed = n.handed := by
  unfold processInline
  split
  · exact (processConfChangeEntry_frame entry).1
  · rfl

theorem foldl_processEntry_frame (es : List Entry) (n : RaftManager R) :
    (es.foldl (fun n e => (n.processEntry d lib envs e).1) n).handed = n.handed ++ normals es ∧
    (es.foldl (fun n e => (n.processEntry d lib envs e).1) n).machine.database.raftLog =
      n.machine.database.raftLog := by
  induction es generalizing n with
  | nil => exact ⟨(append_nil _).symm, rfl⟩
  | cons e es ih =>
    obtain ⟨hn, hlog⟩ := @processEntry_frame R d lib envs n e
    obtain ⟨hn', hlog'⟩ := ih (n.processEntry d lib envs e).1
    refine ⟨hn'.trans ?_, hlog'.trans hlog⟩
    rw [hn, append_assoc, ← normals_append, singleton_append]

/-- The loop over committed entries hands over an initial part of the normal ones, and
    all of them if it does not stop. -/
theorem attempt_processEntry (n : RaftManager R) (es : List Entry) :
    ∃ done, done <+: es ∧
      (attempt (processEntry d lib envs) n es).1.handed = n.handed ++ normals done ∧
      (attempt (processEntry d lib envs) n es).1.machine.database.raftLog =
        n.machine.database.raftLog ∧
      ((attempt (processEntry d lib envs) n es).2 = .ok () → done = es) := by
  obtain ⟨done, hdone, hs, hall⟩ := attempt_cases (processEntry d lib envs) n es
  obtain ⟨hn, hlog⟩ := @foldl_processEntry_frame R d lib envs done n
  exact ⟨done, hdone, hs ▸ hn, hs ▸ hlog, hall⟩

theorem attempt_processInline (n : RaftManager R) (es : List Entry) :
    (attempt (processInline lib) n es).1.handed = n.handed :=
  attempt_keeps (processInline lib) (P := fun m : RaftManager R => m.handed = n.handed)
    (fun m e hm => (processInline_handed m e).trans hm) rfl es

end RaftManager

end Blixard
