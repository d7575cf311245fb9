/-
  Submitted proposals (`handle_proposal` of `raft/core.rs`): who waits for an answer, and who
  gets one.

  The two error exits neither answer the client nor take it out of the map of pending proposals
  (`proposals_settled_iff`).
-/
import Blixard.Raft.BatchProcessor
import Blixard.Raft.Delivery

namespace Blixard

structure SubmittedProposal extends RaftProposal where
  response : Option ℕ

structure ProposalLibraries (R : Type) where
  serialize : ProposalData → Except String Bytes
  isLeader : R → Bool
  leaderId : R → ℕ
  propose : R → Bytes → Bytes → Except String R

namespace RaftManager

variable {R : Type} (d : Deployment) (lib : Libraries R) (pl : ProposalLibraries R)
  (envs : ℕ → ℕ → Env)

def awaitResponse (n : RaftManager R) (p : SubmittedProposal) : RaftManager R :=
  match p.response with
  | none => n
  | some client => { n with pendingProposals := n.pendingProposals.insert p.id client }

def notLeader (raft : R) : BlixardError :=
  .notLeader "propose" (if pl.leaderId raft = 0 then none else some (pl.leaderId raft))

def refuse (n : RaftManager R) (p : SubmittedProposal) : RaftManager R :=
  match n.pendingProposals[p.id]? with
  | none => n
  | some client => { n with
      pendingProposals := n.pendingProposals.erase p.id
      responses := n.responses ++ [(client, .error (notLeader pl n.raft))] }

/-- `handle_proposal`; `round` is the `Ready` that the accepted proposal leads to, if it
    leads to one. -/
def handleProposal (n : RaftManager R) (p : SubmittedProposal) (round : Option (Round R)) :
    RaftManager R × Except Failure Unit :=
  let n := n.awaitResponse p
  match pl.serialize p.data with
  | .error source => (n, .error (.error (.serialization "serialize proposal" source)))
  | .ok data =>
    if ¬ pl.isLeader n.raft then (n.refuse pl p, .ok ())
    else
      match pl.propose n.raft p.id data with
      | .error source => (n, .error (.error (.raftError source)))
      | .ok raft =>
        match round with
        | none => ({ n with raft }, .ok ())
        | some r => { n with raft }.onReady d lib envs r

def Accepts (n : RaftManager R) (p : SubmittedProposal) : Prop :=
  pl.isLeader n.raft ∧ ∃ data raft, pl.serialize p.data = .ok data ∧
    pl.propose n.raft p.id data = .ok raft

/-- What a call of `handle_proposal` owes to a proposal that is not accepted: its id is
    not pending, and its client was answered with an error. -/
def Settles (n n' : RaftManager R) (p : SubmittedProposal) : Prop :=
  ¬ n.Accepts pl p → p.id ∉ n'.pendingProposals ∧
    ∀ client, p.response = some client →
      ∃ e, n'.responses = n.responses ++ [(client, .error e)]

/-- The proposal meets no error exit, or nobody waits under its id. -/
def MeetsNoErrorExit (n : RaftManager R) (p : SubmittedProposal) : Prop :=
  (∃ data, pl.serialize p.data = .ok data ∧
    (pl.isLeader n.raft → ∃ raft, pl.propose n.raft p.id data = .ok raft)) ∨
  (p.response = none ∧ p.id ∉ n.pendingProposals)

variable {d lib pl envs} {n : RaftManager R}

theorem awaitResponse_raft (p : SubmittedProposal) : (n.awaitResponse p).raft = n.raft := by
  unfold awaitResponse
  split <;> rfl

theorem awaitResponse_responses (p : SubmittedProposal) :
    (n.awaitResponse p).responses = n.responses := by
  unfold awaitResponse
  split <;> rfl

variable (p : SubmittedProposal)

theorem mem_awaitResponse : p.id ∈ (n.awaitResponse p).pendingProposals ↔
      p.response.isSome ∨ p.id ∈ n.pendingProposals := by
  unfold awaitResponse
  cases p.response with
  | none => simp
  | some client => simp

theorem refuse_settles (p : SubmittedProposal) :
    p.id ∉ ((n.awaitResponse p).refuse pl p).pendingProposals ∧
    ∀ client, p.response = some client →
      ((n.awaitResponse p).refuse pl p).responses =
        n.responses ++ [(client, .error (notLeader pl n.raft))] := by
  have hr := @awaitResponse_responses R n p
  have hraft := @awaitResponse_raft R n p
  unfold refuse
  cases hp : (n.awaitResponse p).pendingProposals[p.id]? with
  | none =>
    have hnot : p.id ∉ (n.awaitResponse p).pendingProposals := by
      rw [Table.mem_iff, hp]
      rintro ⟨v, hv⟩
      cases hv
    refine ⟨hnot, ?_⟩
    intro client hc
    rw [mem_awaitResponse, hc] at hnot
    exact absurd (.inl rfl) hnot
  | some waiting =>
    constructor
    · simp
    intro client hc
    simp only [awaitResponse, hc, Table.get_insert, if_true] at hp
    obtain rfl := Option.some.inj hp
    simp only [hr, hraft]

theorem handleProposal_settles_iff (round : Option (Round R)) :
    n.Settles pl (n.handleProposal d lib pl envs p round).1 p ↔ n.MeetsNoErrorExit pl p := by
  -- after an error exit the client still waits
  have hexit : (p.id ∉ (n.awaitResponse p).pendingProposals ∧
      ∀ client, p.response = some client →
        ∃ e, (n.awaitResponse p).responses = n.responses ++ [(client, .error e)]) ↔
      p.response = none ∧ p.id ∉ n.pendingProposals := by
    rw [mem_awaitResponse, not_or]
    cases hs : p.response with
    | none => simp
    | some client => simp
  unfold Settles handleProposal
  cases hdata : pl.serialize p.data with
  | error src =>
    have hno : ¬ n.Accepts pl p := by
      rintro ⟨-, data, raft, hok, -⟩
      rw [hdata] at hok
      cases hok
    simp only [hno, not_false_eq_true, true_imp_iff, MeetsNoErrorExit, hdata, reduceCtorEq,
      false_and, exists_const, false_or]
    exact hexit
  | ok data =>
    cases hl : pl.isLeader n.raft with
    | false =>
      obtain ⟨hp, hans⟩ := @refuse_settles R pl n p
      simp only [awaitResponse_raft, hl, Bool.false_eq_true, not_false_eq_true, if_true]
      refine iff_of_true (fun _ => ⟨hp, fun client hc => ⟨_, hans client hc⟩⟩) ?_
      exact .inl ⟨data, hdata, by simp [hl]⟩
    | true =>
      simp only [awaitResponse_raft, hl, not_true_eq_false, if_false]
      cases hr : pl.propose n.raft p.id data with
      | error src =>
        have hno : ¬ n.Accepts pl p := by
          rintro ⟨-, data', raft, hok, ha⟩
          rw [hdata] at hok
          cases hok
          rw [hr] at ha
          cases ha
        simp only [hno, not_false_eq_true, true_imp_iff, MeetsNoErrorExit, hdata, hl,
          Except.ok.injEq, exists_eq_left', hr, reduceCtorEq, exists_false, false_or]
        exact hexit
      | ok raft =>
        have hyes : n.Accepts pl p := ⟨hl, data, raft, hdata, hr⟩
        refine iff_of_true (fun hno => absurd hyes hno) ?_
        exact .inl ⟨data, hdata, fun _ => ⟨raft, hr⟩⟩

end RaftManager

/-! ## The main loop -/

/-- What the main loop takes up: a submitted proposal with the `Ready` it leads to, a
    change in the Raft library (ticks, messages, elections), or another `Ready`. -/
inductive LoopEvent (R : Type) where
  | proposal (p : SubmittedProposal) (round : Option (Round R))
  | library (raft : R)
  | ready (path : ReadyPath) (round : Round R)

structure MainLoop (R : Type) where
  manager : RaftManager R
  running : Bool

namespace MainLoop

variable {R : Type} (d : Deployment) (lib : Libraries R) (pl : ProposalLibraries R)
  (envs : ℕ → ℕ → Env)

def after (call : RaftManager R × Except Failure Unit) : MainLoop R := ⟨call.1, call.2.isOk⟩

def step (s : MainLoop R) (e : LoopEvent R) : MainLoop R :=
  if ¬ s.running then s
  else
    match e with
    | .proposal p round => after (s.manager.handleProposal d lib pl envs p round)
    | .library raft => { s with manager := { s.manager with raft } }
    | .ready .inline r => after (s.manager.consumeInline lib r)
    | .ready .onReady r => after (s.manager.onReady d lib envs r)

/-- If the event is a proposal that the loop takes up, the call settles it. -/
def ProposalSettled (s : MainLoop R) (e : LoopEvent R) : Prop :=
  ∀ p round, e = .proposal p round → s.running →
    s.manager.Settles pl (s.step d lib pl envs e).manager p

/-- If the event is a proposal that the loop takes up, it meets no error exit, or nobody
    waits under its id. -/
def NoErrorExit (s : MainLoop R) (e : LoopEvent R) : Prop :=
  ∀ p round, e = .proposal p round → s.running → s.manager.MeetsNoErrorExit pl p

/-- **When proposals are settled**: every `handle_proposal` leaves a proposal that was not accepted
    answered and not pending, exactly if no proposal for which somebody waits meets an error exit.
    -/
theorem proposals_settled_iff (s : MainLoop R) (run : List (LoopEvent R)) :
    Run.Along (step d lib pl envs) (ProposalSettled d lib pl envs) s run ↔
      Run.Along (step d lib pl envs) (NoErrorExit pl) s run := by
  apply Run.along_congr
  intro s e
  unfold ProposalSettled NoErrorExit
  refine forall₄_congr fun p round he hrunning => ?_
  subst he
  have hstep : (s.step d lib pl envs (.proposal p round)).manager =
      (s.manager.handleProposal d lib pl envs p round).1 := by
    simp [step, hrunning, after]
  rw [hstep]
  exact RaftManager.handleProposal_settles_iff p round

/-- A leader whose library takes no proposal, as during a transfer of leadership. -/
def droppingLeader : ProposalLibraries Unit where
  serialize _ := .ok [0]
  isLeader _ := true
  leaderId _ := 1
  propose _ _ _ := .error "raft: proposal dropped"

def removal : SubmittedProposal := ⟨⟨[1], .removeWorker 1⟩, some 7⟩

/-- The library drops the proposal; its client is not answered and stays pending. -/
theorem dropped_proposal_stays_pending :
    ¬ ∀ (d : Deployment) (lib : Libraries Unit) (pl : ProposalLibraries Unit)
      (envs : ℕ → ℕ → Env) (s : MainLoop Unit) (run : List (LoopEvent Unit)),
      Run.Along (step d lib pl envs) (ProposalSettled d lib pl envs) s run := by
  intro h
  have hsettled := (h .raftManager (.only (.removeWorker 1) [0] SnapshotCodec.refusing)
    droppingLeader (fun _ _ => .still 0) ⟨.nodeOne [], true⟩
    [.proposal removal none]).1 removal none rfl rfl
  have hdropped : ¬ (RaftManager.nodeOne []).Accepts droppingLeader removal := by
    rintro ⟨-, data, raft, -, haccept⟩
    cases haccept
  exact (hsettled hdropped).1 (by decide +kernel)

end MainLoop

end Blixard
