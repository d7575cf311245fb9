/-
  Applying membership changes (`raft/config_manager.rs`), and the membership a node restarts
  with.

  The changes go to the table of cluster state, while startup reads the membership table
  (`restart_membership_iff`).  The Raft library is the parameter `rawApply`.
-/
import Blixard.Storage.RaftState

namespace Blixard

open Database

/-- The kinds of membership changes of the Raft library, as numbers (`i32`). -/
def ConfChangeType.addNode : ℤ := 0

@[inherit_doc ConfChangeType.addNode]
def ConfChangeType.removeNode : ℤ := 1

structure ConfChange where
  id : ℕ
  changeType : ℤ
  nodeId : ℕ
  context : Bytes

/-- What a change carries about the node it adds. -/
structure ConfChangeContext where
  address : String
  p2pNodeId : Option String
  p2pAddresses : List String
  p2pRelayUrl : Option String

/-- A node as the configuration manager sees it; `R` is the state of the Raft
    library. -/
structure ConfigManager (R : Type) where
  nodeId : ℕ
  raft : R
  database : Database
  peers : Table ℕ String
  needsReplicationTrigger : Bool

namespace ConfigManager

variable {R : Type} (rawApply : R → ConfChange → Except String (R × ConfState))
  (decodeContext : Bytes → Except String ConfChangeContext)

def saveConfState (n : ConfigManager R) (confState : ConfState) : ConfigManager R :=
  { n with database := { n.database with
      clusterState := n.database.clusterState.insert "conf_state" (.value confState) } }

def updateLocalPeersAfterConfChange (n : ConfigManager R) (cc : ConfChange) : ConfigManager R :=
  if cc.changeType = ConfChangeType.addNode then
    if cc.context = [] then n
    else
      match decodeContext cc.context with
      | .ok context => { n with peers := n.peers.insert cc.nodeId context.address }
      | .error _ => n
  else if cc.changeType = ConfChangeType.removeNode then
    { n with peers := n.peers.erase cc.nodeId }
  else n

def applyConfChange (n : ConfigManager R) (cc : ConfChange) :
    ConfigManager R × Except BlixardError Unit :=
  match rawApply n.raft cc with
  | .error source => (n, .error (.raftError source))
  | .ok (raft, confState) =>
    let n := ({ n with raft }.saveConfState confState).updateLocalPeersAfterConfChange
      decodeContext cc
    if cc.changeType = ConfChangeType.addNode then
      ({ n with needsReplicationTrigger := true }, .ok ())
    else (n, .ok ())

def produced (n : ConfigManager R) (cc : ConfChange) : Option ConfState :=
  match rawApply n.raft cc with
  | .error _ => none
  | .ok (_, confState) => some confState

def history (n : ConfigManager R) : List ConfChange → ConfigManager R × Option ConfState
  | [] => (n, none)
  | cc :: ccs =>
    let (n', last) := history (n.applyConfChange rawApply decodeContext cc).1 ccs
    (n', last.or (n.produced rawApply cc))

/-- What a restart leaves on disk: a node that is not told to join a cluster runs
    `initialize_single_node` before the library reads the initial state. -/
def restart (n : ConfigManager R) : Database := n.database.initializeSingleNode n.nodeId

/-! ## The two tables -/

theorem updateLocalPeers_frame (decodeContext : Bytes → Except String ConfChangeContext)
    (n : ConfigManager R) (cc : ConfChange) :
    (n.updateLocalPeersAfterConfChange decodeContext cc).database = n.database ∧
    (n.updateLocalPeersAfterConfChange decodeContext cc).nodeId = n.nodeId := by
  unfold updateLocalPeersAfterConfChange
  split
  · split
    · exact ⟨rfl, rfl⟩
    · split <;> exact ⟨rfl, rfl⟩
  · split <;> exact ⟨rfl, rfl⟩

/-- A change writes the table of cluster state only, never the one that startup
    reads. -/
theorem applyConfChange_frame (n : ConfigManager R) (cc : ConfChange) :
    (∃ clusterState, (n.applyConfChange rawApply decodeContext cc).1.database =
      { n.database with clusterState }) ∧
    (n.applyConfChange rawApply decodeContext cc).1.nodeId = n.nodeId := by
  unfold applyConfChange
  cases rawApply n.raft cc with
  | error src => exact ⟨⟨_, rfl⟩, rfl⟩
  | ok r =>
    obtain ⟨raft, confState⟩ := r
    obtain ⟨hdb, hid⟩ := updateLocalPeers_frame decodeContext
      ({ n with raft }.saveConfState confState) cc
    dsimp only
    split <;> exact ⟨⟨_, hdb⟩, hid⟩

theorem history_frame (ccs : List ConfChange) (n : ConfigManager R) :
    (n.history rawApply decodeContext ccs).1.database.raftConfState = n.database.raftConfState ∧
    (n.history rawApply decodeContext ccs).1.nodeId = n.nodeId := by
  induction ccs generalizing n with
  | nil => exact ⟨rfl, rfl⟩
  | cons cc ccs ih =>
    obtain ⟨h1, h2⟩ := ih (n.applyConfChange rawApply decodeContext cc).1
    obtain ⟨⟨t, h3⟩, h4⟩ := applyConfChange_frame rawApply decodeContext n cc
    exact ⟨h1.trans (congrArg (·.raftConfState) h3), h2.trans h4⟩

theorem restart_congr {n n' : ConfigManager R}
    (h : n.database.raftConfState = n'.database.raftConfState) (hid : n.nodeId = n'.nodeId) :
    n.restart.raftConfState = n'.restart.raftConfState := by
  unfold restart initializeSingleNode
  rw [h, hid]
  split
  · exact h
  · show n.database.raftConfState.insert _ _ = n'.database.raftConfState.insert _ _
    rw [h]

theorem confState_of_loadConfState {db : Database} {cs : ConfState}
    (h : db.loadConfState = .ok cs) : db.confState = cs := by
  unfold loadConfState at h
  unfold confState
  cases hrow : db.raftConfState["conf_state"]? with
  | none => rw [hrow] at h; cases h; rfl
  | some data =>
    rw [hrow] at h
    cases hd : deserializeConfState data with
    | error e => simp only [hd] at h; cases h
    | ok cs' =>
      simp only [hd] at h
      cases h
      simp only [hd]; rfl

/-- After a history of changes, a restarted node reads the membership that the last
    applied change produced. -/
def RestartsWithLast (rawApply : R → ConfChange → Except String (R × ConfState))
    (decodeContext : Bytes → Except String ConfChangeContext) (n : ConfigManager R)
    (ccs : List ConfChange) : Prop :=
  ∀ cs, (n.history rawApply decodeContext ccs).2 = some cs →
    (n.history rawApply decodeContext ccs).1.restart.initialState.2 = cs ∧
    (n.history rawApply decodeContext ccs).1.restart.loadConfState = .ok cs

/-- **The membership after a restart** is read back as the last applied change left it exactly when
    startup read it already before the history. -/
theorem restart_membership_iff (rawApply : R → ConfChange → Except String (R × ConfState))
    (decodeContext : Bytes → Except String ConfChangeContext) (n : ConfigManager R)
    (ccs : List ConfChange) : RestartsWithLast rawApply decodeContext n ccs ↔
    ∀ cs, (n.history rawApply decodeContext ccs).2 = some cs → n.restart.loadConfState = .ok cs := by
  obtain ⟨htable, hid⟩ := history_frame rawApply decodeContext ccs n
  have hread := restart_congr htable hid
  have hload : (n.history rawApply decodeContext ccs).1.restart.loadConfState =
      n.restart.loadConfState := by
    unfold Database.loadConfState
    rw [hread]
  refine forall₂_congr fun cs _ => ?_
  rw [hload]
  refine ⟨fun h => h.2, fun h => ⟨?_, h⟩⟩
  exact confState_of_loadConfState (hload.trans h)

def votersOnly (voters : List ℕ) (cc : ConfChange) : Except String (List ℕ × ConfState) :=
  let voters :=
    if cc.changeType = ConfChangeType.addNode then voters ++ [cc.nodeId]
    else voters.filter (· ≠ cc.nodeId)
  .ok (voters, { voters })

def bootstrapped : ConfigManager (List ℕ) :=
  ⟨1, [1], Database.initializeSingleNode {} 1, ∅, false⟩

/-- A bootstrapped node that has added node 2 restarts as its only voter. -/
theorem restart_forgets_added_node :
    ¬ ∀ (R : Type) (rawApply : R → ConfChange → Except String (R × ConfState))
      (decodeContext : Bytes → Except String ConfChangeContext) (n : ConfigManager R)
      (ccs : List ConfChange), RestartsWithLast rawApply decodeContext n ccs := by
  intro h
  have hadd := (h (List ℕ) votersOnly (fun _ => .error "no context") bootstrapped
    [⟨0, ConfChangeType.addNode, 2, []⟩] { voters := [1, 2] } rfl).1
  revert hadd
  decide

end ConfigManager

end Blixard
