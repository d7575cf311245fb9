/-
  Proposing membership changes (`raft/config_manager.rs`), and the map of peers.

  For an added node the peers are edited when the change is merely proposed, so a proposal that
  never commits leaves its peer behind (`peers_eq_addressBook_iff`).
-/
import Blixard.Raft.ConfigManager

namespace Blixard

open ConfigManager

inductive ChangeType where
  | addNode | removeNode
  deriving DecidableEq

def ChangeType.raftType : ChangeType → ℤ
  | addNode => ConfChangeType.addNode
  | removeNode => ConfChangeType.removeNode

structure RaftConfChange where
  changeType : ChangeType
  nodeId : ℕ
  address : String
  p2pNodeId : Option String
  p2pAddresses : List String
  p2pRelayUrl : Option String
  response : Option ℕ

structure MembershipLibraries (R : Type) where
  isLeader : R → Bool
  leaderId : R → ℕ
  serializeContext : ConfChangeContext → Except String Bytes
  decodeContext : Bytes → Except String ConfChangeContext
  proposeConfChange : R → ConfChange → Except String R
  rawApply : R → ConfChange → Except String (R × ConfState)
  parseNodeId : String → Except String Unit
  parseSocketAddr : String → Except String Unit

structure Membership (R : Type) where
  manager : ConfigManager R
  responses : List (ℕ × Except BlixardError Unit)
  applied : List ConfChange

namespace Membership

variable {R : Type} (lib : MembershipLibraries R) (hasConnector : Bool)

/-! ## Proposing a change -/

/-- `create_node_addr_with_relay` and `create_node_addr_direct`; only the direct one
    minds addresses that do not parse. -/
def createNodeAddr (change : RaftConfChange) (p2pNodeId : String) : Except BlixardError Unit :=
  match lib.parseNodeId p2pNodeId with
  | .error e => .error (.internal s!"Invalid P2P node ID {p2pNodeId}: {e}")
  | .ok () =>
    match change.p2pRelayUrl with
    | some _ => .ok ()
    | none =>
      match change.p2pAddresses.forM lib.parseSocketAddr with
      | .error e => .error (.internal s!"Failed to parse P2P addresses: {e}")
      | .ok () => .ok ()

/-- `handle_successful_node_addition`; whether the connection succeeds is only logged. -/
def handleSuccessfulNodeAddition (s : Membership R) (change : RaftConfChange) :
    Membership R × Except BlixardError Unit :=
  let s := { s with manager := { s.manager with
    peers := s.manager.peers.insert change.nodeId change.address } }
  match hasConnector, change.p2pNodeId with
  | true, some p2pNodeId => (s, createNodeAddr lib change p2pNodeId)
  | _, _ => (s, .ok ())

def answer (s : Membership R) (change : RaftConfChange) (result : Except BlixardError Unit) :
    Membership R :=
  match change.response with
  | none => s
  | some client => { s with responses := s.responses ++ [(client, result)] }

/-- `handle_conf_change`.  No cluster counts as one of a single node, so nothing is
    applied here. -/
def handleConfChange (s : Membership R) (change : RaftConfChange) :
    Membership R × Except BlixardError Unit :=
  let raft := s.manager.raft
  if ¬ lib.isLeader raft then
    (s.answer change (.error (.notLeader "propose configuration change"
      (if lib.leaderId raft = 0 then none else some (lib.leaderId raft)))), .ok ())
  else
    match lib.serializeContext
      ⟨change.address, change.p2pNodeId, change.p2pAddresses, change.p2pRelayUrl⟩ with
    | .error source => (s, .error (.serialization "serialize conf change context" source))
    | .ok context =>
      match lib.proposeConfChange raft ⟨0, change.changeType.raftType, change.nodeId, context⟩ with
      | .error source =>
        (s.answer change (.error (.raft "propose configuration change" source)), .ok ())
      | .ok raft =>
        let s := { s with manager := { s.manager with raft } }
        match change.changeType with
        | .removeNode => (s.answer change (.ok ()), .ok ())
        | .addNode =>
          match s.handleSuccessfulNodeAddition lib hasConnector change with
          | (s, .error e) => (s, .error e)
          | (s, .ok ()) => (s.answer change (.ok ()), .ok ())

/-! ## Runs -/

/-- What happens to a node's membership: a change is requested, a committed one is
    applied, or the library moves on (elections, overwritten entries). -/
inductive Event (R : Type) where
  | propose (change : RaftConfChange)
  | apply (cc : ConfChange)
  | library (raft : R)

def applyCommitted (s : Membership R) (cc : ConfChange) : Membership R :=
  let (manager, result) := s.manager.applyConfChange lib.rawApply lib.decodeContext cc
  { s with manager, applied := if result.isOk then s.applied ++ [cc] else s.applied }

def step (s : Membership R) : Event R → Membership R
  | .propose change => (s.handleConfChange lib hasConnector change).1
  | .apply cc => s.applyCommitted lib cc
  | .library raft => { s with manager := { s.manager with raft } }

/-- The address book after one more change: an added node has the address of its
    context, a removed one has none. -/
def register (book : Table ℕ String) (cc : ConfChange) : Table ℕ String :=
  if cc.changeType = ConfChangeType.addNode then
    match if cc.context = [] then none else (lib.decodeContext cc.context).toOption with
    | some context => book.insert cc.nodeId context.address
    | none => book
  else if cc.changeType = ConfChangeType.removeNode then book.erase cc.nodeId
  else book

def addressBook (peers : Table ℕ String) (ccs : List ConfChange) : Table ℕ String :=
  ccs.foldl (register lib) peers

/-- The node is the leader, and its library takes the change as a proposal. -/
def Accepts (s : Membership R) (change : RaftConfChange) : Prop :=
  lib.isLeader s.manager.raft ∧ ∃ context raft,
    lib.serializeContext
      ⟨change.address, change.p2pNodeId, change.p2pAddresses, change.p2pRelayUrl⟩ = .ok context ∧
    lib.proposeConfChange s.manager.raft
      ⟨0, change.changeType.raftType, change.nodeId, context⟩ = .ok raft

/-- An addition that the library takes as a proposal is of a peer with that address. -/
def AddsKnownPeer (s : Membership R) (e : Event R) : Prop :=
  ∀ change, e = .propose change → change.changeType = .addNode → s.Accepts lib change →
    s.manager.peers[change.nodeId]? = some change.address

variable {lib hasConnector} {s : Membership R} {change : RaftConfChange}

theorem answer_frame (res : Except BlixardError Unit) : (s.answer change res).manager = s.manager ∧
    (s.answer change res).applied = s.applied := by
  unfold answer
  split <;> exact ⟨rfl, rfl⟩

theorem handleSuccessfulNodeAddition_fst :
    (s.handleSuccessfulNodeAddition lib hasConnector change).1 =
      { s with manager := { s.manager with
        peers := s.manager.peers.insert change.nodeId change.address } } := by
  unfold handleSuccessfulNodeAddition
  dsimp only
  split <;> rfl

/-- A requested change is not applied, and where the library does not take it or it is a
    removal, the peers stay as they are. -/
theorem handleConfChange_frame (h : ¬ (change.changeType = .addNode ∧ s.Accepts lib change)) :
    (s.handleConfChange lib hasConnector change).1.manager.peers = s.manager.peers ∧
    (s.handleConfChange lib hasConnector change).1.applied = s.applied := by
  unfold handleConfChange
  dsimp only
  split
  · exact ⟨by rw [(answer_frame _).1], (answer_frame _).2⟩
  rename_i hl
  split
  · exact ⟨rfl, rfl⟩
  rename_i ctx hc
  split
  · exact ⟨by rw [(answer_frame _).1], (answer_frame _).2⟩
  rename_i raft hraft
  cases htype : change.changeType with
  | removeNode => exact ⟨by rw [(answer_frame _).1], (answer_frame _).2⟩
  | addNode =>
    exact absurd ⟨htype, not_not.1 hl, ctx, raft, hc, hraft⟩ h

theorem handleConfChange_addNode (htype : change.changeType = .addNode) (h : s.Accepts lib change) :
    (s.handleConfChange lib hasConnector change).1.manager.peers =
      s.manager.peers.insert change.nodeId change.address ∧
    (s.handleConfChange lib hasConnector change).1.applied = s.applied := by
  obtain ⟨hl, ctx, raft, hc, hraft⟩ := h
  rw [htype] at hraft
  unfold handleConfChange
  simp only [hl, not_true_eq_false, if_false, hc, htype, hraft]
  have hf := @handleSuccessfulNodeAddition_fst R lib hasConnector
    { s with manager := { s.manager with raft } } change
  rcases heq : handleSuccessfulNodeAddition lib hasConnector
    { s with manager := { s.manager with raft } } change with ⟨t, e | ⟨⟩⟩ <;> rw [heq] at hf
  · obtain rfl : t = _ := hf
    exact ⟨rfl, rfl⟩
  · obtain rfl : t = _ := hf
    exact ⟨by rw [(answer_frame _).1], (answer_frame _).2⟩

theorem updateLocalPeers_peers (n : ConfigManager R) (cc : ConfChange) :
    (n.updateLocalPeersAfterConfChange lib.decodeContext cc).peers = register lib n.peers cc := by
  unfold updateLocalPeersAfterConfChange register
  by_cases hadd : cc.changeType = ConfChangeType.addNode
  · simp only [hadd, if_true]
    by_cases he : cc.context = []
    · simp only [he, if_true]
    simp only [he, if_false]
    cases lib.decodeContext cc.context with
    | error e => rfl
    | ok ctx => rfl
  · simp only [hadd, if_false]
    split <;> rfl

theorem applyCommitted_peers (cc : ConfChange) :
    (s.applyCommitted lib cc).manager.peers = s.manager.peers ∧
        (s.applyCommitted lib cc).applied = s.applied ∨
      (s.applyCommitted lib cc).manager.peers = register lib s.manager.peers cc ∧
        (s.applyCommitted lib cc).applied = s.applied ++ [cc] := by
  unfold applyCommitted applyConfChange
  cases lib.rawApply s.manager.raft cc with
  | error src => exact .inl ⟨rfl, rfl⟩
  | ok r =>
    right
    dsimp only
    split
    · exact ⟨updateLocalPeers_peers _ cc, rfl⟩
    · exact ⟨updateLocalPeers_peers _ cc, rfl⟩

/-! ## The map of peers and the address book -/

def PeersAreBook (lib : MembershipLibraries R) (peers : Table ℕ String) (s : Membership R) : Prop :=
  s.manager.peers = addressBook lib peers s.applied

variable {peers : Table ℕ String}

theorem peersAreBook_step (s : Membership R) (e : Event R)
    (h : PeersAreBook lib peers s) (hk : AddsKnownPeer lib s e) :
    PeersAreBook lib peers (s.step lib hasConnector e) := by
  unfold PeersAreBook at h ⊢
  cases e with
  | propose chg =>
    by_cases hadds : chg.changeType = .addNode ∧ s.Accepts lib chg
    · obtain ⟨hp, ha⟩ :=
        @handleConfChange_addNode R lib hasConnector s chg hadds.1 hadds.2
      rw [step, hp, ha, Table.insert_of_get (hk chg rfl hadds.1 hadds.2), h]
    · obtain ⟨hp, ha⟩ := @handleConfChange_frame R lib hasConnector s chg hadds
      rw [step, hp, ha, h]
  | apply cc =>
    rcases @applyCommitted_peers R lib s cc with ⟨hp, ha⟩ | ⟨hp, ha⟩
    · rw [step, hp, ha, h]
    · rw [step, hp, ha, addressBook, List.foldl_append, h]
      rfl
  | library raft => exact h

/-- An addition of a node that is not a peer with that address puts a peer into the map
    that the address book does not have. -/
theorem not_peersAreBook_of_addition (s : Membership R) (e : Event R)
    (h : PeersAreBook lib peers s) (hnew : ¬ AddsKnownPeer lib s e) :
    ¬ PeersAreBook lib peers (s.step lib hasConnector e) := by
  unfold AddsKnownPeer at hnew
  push Not at hnew
  obtain ⟨chg, rfl, htype, hacc, hpeer⟩ := hnew
  obtain ⟨hp, ha⟩ := @handleConfChange_addNode R lib hasConnector s chg htype hacc
  unfold PeersAreBook at h ⊢
  rw [step, hp, ha, ← h]
  intro heq
  have hget := congrArg (fun t : Table ℕ String => t[chg.nodeId]?) heq
  simp only [Table.get_insert, if_true] at hget
  exact hpeer hget.symm

/-- **When the peers are the address book** of the applied changes: exactly if each addition that
    the library takes as a proposal is of a node that is a peer with that address already. -/
theorem peers_eq_addressBook_iff (lib : MembershipLibraries R) (hasConnector : Bool)
    (manager : ConfigManager R) (run : List (Event R)) :
    (∀ s ∈ run.scanl (step lib hasConnector) ⟨manager, [], []⟩, PeersAreBook lib manager.peers s) ↔
    Run.Along (step lib hasConnector) (AddsKnownPeer lib) ⟨manager, [], []⟩ run :=
  Run.holds_iff_along peersAreBook_step (fun _ h => h) not_peersAreBook_of_addition rfl

def willingLeader : MembershipLibraries (List ℕ) where
  isLeader _ := true
  leaderId _ := 1
  serializeContext _ := .ok [0]
  decodeContext _ := .error "no context"
  proposeConfChange voters _ := .ok voters
  rawApply := ConfigManager.votersOnly
  parseNodeId _ := .ok ()
  parseSocketAddr _ := .ok ()

def addTwo : RaftConfChange := ⟨.addNode, 2, "n2:7001", none, [], none, none⟩

/-- Node 2 is proposed and never committed, and is a peer all the same. -/
theorem uncommitted_addition_leaves_peer :
    ¬ ∀ (lib : MembershipLibraries (List ℕ)) (hasConnector : Bool)
      (manager : ConfigManager (List ℕ)) (run : List (Event (List ℕ))),
      ∀ s ∈ run.scanl (step lib hasConnector) ⟨manager, [], []⟩,
        PeersAreBook lib manager.peers s := by
  intro h
  have hpeers : PeersAreBook willingLeader ConfigManager.bootstrapped.peers _ :=
    h willingLeader false ConfigManager.bootstrapped [.propose addTwo] _
      (Run.foldl_mem_scanl _ _)
  have hget := congrArg (fun t : Table ℕ String => t[2]?) hpeers
  revert hget
  decide +kernel

end Membership

end Blixard
