/-
  Batching of proposals (`raft_batch_processor.rs`), and what of it is visible to the clients.

  A group of one is proposed as it is, a larger one as a single `Batch`, whose answer goes to all
  clients of the group (`batching_transparent`).
-/
import Blixard.Raft.StateMachine

namespace Blixard

open List Machine

structure BatchConfig where
  maxBatchSize : ℕ := 100
  batchTimeoutMs : ℕ := 10
  maxBatchBytes : ℕ := 1024 * 1024
  enabled : Bool := true

structure RaftProposal where
  id : Bytes
  data : ProposalData

structure ProposalBatch where
  proposals : List RaftProposal
  totalSize : ℕ

namespace ProposalBatch

def new : ProposalBatch := ⟨[], 0⟩

def add (b : ProposalBatch) (p : RaftProposal) (size : ℕ) : ProposalBatch :=
  ⟨b.proposals ++ [p], b.totalSize + size⟩

end ProposalBatch

/-! ## The processor -/

/-- The processor: the batch that is being collected, and the groups that were sent
    to Raft so far. -/
structure RaftBatchProcessor where
  currentBatch : ProposalBatch
  sent : List (List RaftProposal)

/-- What wakes the processor: a proposal, the flush timer with the age of the current
    batch in milliseconds, or the end of the channel. -/
inductive BatchEvent where
  | proposal (p : RaftProposal)
  | tick (ageMs : ℕ)
  | closed

namespace RaftBatchProcessor

variable (config : BatchConfig) (serializedSize : ProposalData → Except String ℕ)

def new : RaftBatchProcessor := ⟨.new, []⟩

def estimateProposalSize (p : RaftProposal) : Except BlixardError ℕ :=
  match serializedSize p.data with
  | .error source => .error (.serialization "estimate proposal size" source)
  | .ok size => .ok (size + p.id.length + 64)

def flushSpecificBatch (s : RaftBatchProcessor) (batch : ProposalBatch) : RaftBatchProcessor :=
  if batch.proposals = [] then s else { s with sent := s.sent ++ [batch.proposals] }

def flushBatch (s : RaftBatchProcessor) : RaftBatchProcessor :=
  { s with currentBatch := .new }.flushSpecificBatch s.currentBatch

/-- A proposal whose size cannot be estimated is dropped with a warning. -/
def addToBatch (s : RaftBatchProcessor) (p : RaftProposal) : RaftBatchProcessor :=
  match estimateProposalSize serializedSize p with
  | .error _ => s
  | .ok size =>
    if s.currentBatch.proposals ≠ [] ∧ (config.maxBatchSize ≤ s.currentBatch.proposals.length ∨
        config.maxBatchBytes < s.currentBatch.totalSize + size) then
      { s.flushBatch with currentBatch := ProposalBatch.new.add p size }
    else
      let s := { s with currentBatch := s.currentBatch.add p size }
      if config.maxBatchSize ≤ s.currentBatch.proposals.length ∨
          config.maxBatchBytes ≤ s.currentBatch.totalSize then s.flushBatch
      else s

def checkAndFlushBatch (s : RaftBatchProcessor) (ageMs : ℕ) : RaftBatchProcessor :=
  if s.currentBatch.proposals ≠ [] ∧ config.batchTimeoutMs ≤ ageMs then s.flushBatch else s

/-- One round of `run`; with batching disabled a proposal is forwarded as it is. -/
def step (s : RaftBatchProcessor) : BatchEvent → RaftBatchProcessor
  | .proposal p =>
    if config.enabled then s.addToBatch config serializedSize p
    else { s with sent := s.sent ++ [[p]] }
  | .tick ageMs => if config.enabled then s.checkAndFlushBatch config ageMs else s
  | .closed => if config.enabled then s.flushBatch else s

def accepted (events : List BatchEvent) : List RaftProposal :=
  events.flatMap fun
    | .proposal p =>
      if config.enabled = false ∨ (estimateProposalSize serializedSize p).isOk then [p] else []
    | _ => []

theorem accepted_append (es es' : List BatchEvent) : accepted config serializedSize (es ++ es') =
      accepted config serializedSize es ++ accepted config serializedSize es' :=
  flatMap_append

def contents (s : RaftBatchProcessor) : List RaftProposal :=
  s.sent.flatten ++ s.currentBatch.proposals

variable {config serializedSize} {s : RaftBatchProcessor}

@[simp] theorem contents_flushBatch : s.flushBatch.contents = s.contents := by
  unfold flushBatch flushSpecificBatch contents
  split
  · rename_i h
    simp [h, ProposalBatch.new]
  · simp [ProposalBatch.new]

theorem flushBatch_currentBatch : s.flushBatch.currentBatch = .new := by
  unfold flushBatch flushSpecificBatch
  split <;> rfl

theorem contents_addToBatch (p : RaftProposal) : (s.addToBatch config serializedSize p).contents =
      s.contents ++ if (estimateProposalSize serializedSize p).isOk then [p] else [] := by
  unfold addToBatch
  cases estimateProposalSize serializedSize p with
  | error e => simp [Except.isOk, Except.toBool]
  | ok size =>
    have hadd : ∀ s : RaftBatchProcessor,
        { s with currentBatch := s.currentBatch.add p size }.contents = s.contents ++ [p] := by
      intro s
      simp [contents, ProposalBatch.add]
    simp only [Except.isOk, Except.toBool, if_true]
    split
    · -- the full batch goes out, and the proposal begins a new one
      rw [← s.contents_flushBatch, ← hadd, flushBatch_currentBatch]
    · split
      · rw [contents_flushBatch, hadd]
      · rw [hadd]

/-- A processor that holds the proposals `ps`; with batching disabled none of them
    waits. -/
structure Holds (config : BatchConfig) (s : RaftBatchProcessor) (ps : List RaftProposal) :
    Prop where
  contents : s.contents = ps
  forwarded : config.enabled = false → s.currentBatch.proposals = []

theorem holds_step {ps : List RaftProposal} (h : s.Holds config ps) (e : BatchEvent) :
    (s.step config serializedSize e).Holds config (ps ++ accepted config serializedSize [e]) := by
  cases hen : config.enabled with
  | true =>
    refine ⟨?_, fun h => by rw [hen] at h; cases h⟩
    cases e with
    | proposal p => simp [step, hen, accepted, contents_addToBatch, h.contents]
    | tick ageMs =>
      simp only [step, hen, if_true, checkAndFlushBatch]
      split <;> simp [accepted, h.contents]
    | closed => simp [step, hen, accepted, h.contents]
  | false =>
    have hcur := h.forwarded hen
    have hcon := h.contents
    unfold contents at hcon
    rw [hcur, append_nil] at hcon
    cases e with
    | proposal p =>
      exact ⟨by simp [step, hen, accepted, contents, hcur, hcon],
        fun _ => by simp [step, hen, hcur]⟩
    | tick | closed => simpa [step, hen, accepted] using h

def run (config : BatchConfig) (serializedSize : ProposalData → Except String ℕ)
    (events : List BatchEvent) : RaftBatchProcessor :=
  events.foldl (step config serializedSize) new

theorem holds_foldl (evs : List BatchEvent) : ∀ {s : RaftBatchProcessor}
    {ps : List RaftProposal}, s.Holds config ps →
    (evs.foldl (step config serializedSize) s).Holds config
      (ps ++ accepted config serializedSize evs) := by
  induction evs with
  | nil =>
    intro s ps h
    simpa [accepted] using h
  | cons e evs ih =>
    intro s ps h
    have htail := ih (@holds_step config serializedSize s ps h e)
    rwa [append_assoc, ← accepted_append] at htail

/-- **No proposal is lost, repeated or moved**: when the channel is closed, the groups
    that were sent are the accepted proposals in their order. -/
theorem flatten_sent (events : List BatchEvent) :
    (run config serializedSize (events ++ [.closed])).sent.flatten =
      accepted config serializedSize events := by
  have hl := @holds_foldl config serializedSize events new [] ⟨rfl, fun _ => rfl⟩
  rw [nil_append] at hl
  rw [run, foldl_append, foldl_cons, foldl_nil, ← hl.contents]
  generalize events.foldl (step config serializedSize) new = s at hl
  cases hen : config.enabled with
  | true =>
    rw [step, hen, if_pos rfl, ← contents_flushBatch, contents, flushBatch_currentBatch]
    exact (append_nil _).symm
  | false =>
    rw [step, hen, contents, hl.forwarded hen, append_nil]
    rfl

end RaftBatchProcessor

/-! ## Answers -/

/-- What a client sees: a result, a response channel that was dropped, or nothing. -/
inductive Answer where
  | result (r : Except BlixardError Unit)
  | dropped
  | pending
  deriving DecidableEq

def Answer.ofApplied : Except Failure Unit → Answer
  | .ok () => result (.ok ())
  | .error (.error e) => result (.error e)
  | .error (.panic _) => dropped
  | .error .deadlock => pending

def Answer.ofBatch : Except Failure Unit → Answer
  | .ok () => result (.ok ())
  | .error (.error e) => result (.error (.internal s!"Batch proposal failed: {e.display}"))
  | .error (.panic _) => result (.error (.internal "Batch response channel dropped"))
  | .error .deadlock => pending

/-- The leader that applies what the processor sends: its machine, whether its task
    runs, how many proposals came before, and the answers so far. -/
structure Leader where
  machine : Machine
  running : Bool
  position : ℕ
  answers : List Answer

namespace Leader

def new (m : Machine) : Leader := ⟨m, true, 0, []⟩

variable (d : Deployment) (envs : ℕ → ℕ → Env)

/-- A group is proposed, committed and applied.  The proposal at position `i` reads
    the surroundings `envs i`, in a batch or not. -/
def submit (l : Leader) : List RaftProposal → Leader
  | [] => l
  | [p] =>
    if l.running then
      let applied := l.machine.applyProposal d (envs l.position) p.data
      ⟨applied.1, !endsTask applied.2, l.position + 1, l.answers ++ [.ofApplied applied.2]⟩
    else { l with position := l.position + 1, answers := l.answers ++ [.dropped] }
  | ps =>
    let applied : Applied :=
      if l.running then
        l.machine.applyProposal d (fun i => envs (l.position + i) 0) (.batch (ps.map (·.data)))
      else l.machine.abort (.panic "channel closed")
    ⟨applied.1, !endsTask applied.2, l.position + ps.length,
      l.answers ++ List.replicate ps.length (.ofBatch applied.2)⟩

/-- The proposals are applied one by one from position `i` on, and none fails or is a
    batch itself. -/
def Clean : ℕ → Machine → List RaftProposal → Prop
  | _, _, [] => True
  | i, m, p :: ps =>
    (∀ qs, p.data ≠ .batch qs) ∧ (m.applyProposal d (envs i) p.data).2 = .ok () ∧
      Clean (i + 1) (m.applyProposal d (envs i) p.data).1 ps

variable {d envs}

variable {l : Leader} {ps : List RaftProposal} {m m' : Machine}

theorem applyProposal_of_ne_batch {e : ℕ → Env} {p : ProposalData}
    (h : ∀ qs, p ≠ .batch qs) : m.applyProposal d e p = m.applyOne d (e 0) p := by
  cases p with
  | batch qs => exact absurd rfl (h qs)
  | _ => rfl

theorem submit_singleton_of_ok {pos : ℕ} {p : RaftProposal}
    (h : m.applyProposal d (envs pos) p.data = (m', .ok ())) (answers : List Answer) :
    submit d envs ⟨m, true, pos, answers⟩ [p] =
      ⟨m', true, pos + 1, answers ++ [.result (.ok ())]⟩ := by
  simp only [submit, h, if_true]
  rfl

theorem foldl_submit_of_clean (k : ℕ) (ps : List RaftProposal) (j : ℕ) (m : Machine)
    (answers : List Answer) (h : Clean d envs (k + j) m ps) :
    ∃ m', applyBatch d (fun i => envs (k + i) 0) j m (ps.map (·.data)) = (m', .ok ()) ∧
      (ps.map ([·])).foldl (submit d envs) ⟨m, true, k + j, answers⟩ =
        ⟨m', true, k + j + ps.length, answers ++ replicate ps.length (.result (.ok ()))⟩ := by
  induction ps generalizing j m answers with
  | nil => exact ⟨m, rfl, by simp⟩
  | cons p ps ih =>
    obtain ⟨hp, hok, hps⟩ := h
    have hone := applyProposal_of_ne_batch (d := d) (m := m) (e := envs (k + j)) hp
    rcases happ : m.applyProposal d (envs (k + j)) p.data with ⟨m₁, r⟩
    rw [happ] at hok hps hone
    obtain rfl : r = .ok () := hok
    obtain ⟨m', hb, hfold⟩ := ih (j + 1) m₁ (answers ++ [.result (.ok ())]) hps
    refine ⟨m', ?_, ?_⟩
    · rw [map_cons, applyBatch, ← hone]
      exact hb
    · rw [map_cons, foldl_cons, submit_singleton_of_ok happ, Nat.add_assoc, hfold]
      simp [replicate_succ]
      omega

/-- A batch that fails has a first member that fails: it leaves the machine of submitting the clean
    members before that one by one, and then applying it. -/
theorem applyBatch_error (k : ℕ) {j : ℕ} {fail : Failure} (answers : List Answer)
    (h : applyBatch d (fun i => envs (k + i) 0) j m (ps.map (·.data)) =
      (m', .error fail)) : ∃ pre p post, ps = pre ++ p :: post ∧ Clean d envs (k + j) m pre ∧
      ((pre.map ([·])).foldl (submit d envs) ⟨m, true, k + j, answers⟩).machine.applyOne d
        (envs (k + j + pre.length) 0) p.data = (m', .error fail) := by
  induction ps generalizing j m answers with
  | nil => cases congrArg Prod.snd h
  | cons p ps ih =>
    rw [map_cons, applyBatch] at h
    rcases hone : m.applyOne d (envs (k + j) 0) p.data with ⟨m₁, failure₁ | ⟨⟩⟩
    · rw [hone] at h
      exact ⟨[], p, ps, rfl, trivial, hone.trans h⟩
    rw [hone] at h
    have hne : ∀ qs, p.data ≠ .batch qs := by
      intro qs hqs
      rw [hqs] at hone
      cases congrArg Prod.snd hone
    have happ := (applyProposal_of_ne_batch (e := envs (k + j)) hne).trans hone
    obtain ⟨pre, q, post, rfl, hc, hq⟩ := ih (answers ++ [.result (.ok ())]) h
    refine ⟨p :: pre, q, post, rfl, ⟨hne, ?_, ?_⟩, ?_⟩
    · rw [happ]
    · rw [happ]
      exact hc
    · rw [map_cons, foldl_cons, submit_singleton_of_ok happ, length_cons]
      rw [← Nat.add_assoc] at hq
      rwa [Nat.add_comm pre.length 1, ← Nat.add_assoc]

variable (d envs) in
/-- A group that is sent as a batch finds the task running, and is clean. -/
def CleanGroup (l : Leader) (ps : List RaftProposal) : Prop :=
  2 ≤ ps.length → l.running = true ∧ Clean d envs l.position l.machine ps

theorem submit_of_cleanGroup (h : CleanGroup d envs l ps) :
    submit d envs l ps = (ps.map ([·])).foldl (submit d envs) l := by
  match ps, h with
  | [], _ => rfl
  | [p], _ => rfl
  | p :: q :: ps, h =>
    obtain ⟨mc, running, pos, answers⟩ := l
    obtain ⟨hrun, hc⟩ := h (by simp)
    obtain rfl : running = true := hrun
    obtain ⟨m', hb, hfold⟩ := foldl_submit_of_clean pos (p :: q :: ps) 0 mc answers
      hc
    rw [Nat.add_zero] at hfold
    rw [hfold]
    simp only [submit, applyProposal, if_true, hb]
    rfl

theorem foldl_submit_of_cleanGroups {groups : List (List RaftProposal)}
    (h : Run.Along (submit d envs) (CleanGroup d envs) l groups) :
    groups.foldl (submit d envs) l = (groups.flatten.map ([·])).foldl (submit d envs) l := by
  induction groups generalizing l with
  | nil => rfl
  | cons g groups ih =>
    rw [foldl_cons, ih h.2, submit_of_cleanGroup h.1, flatten_cons, map_append,
      foldl_append]

/-- **Batching**: if all batches sent are clean, machine and answers are those of proposing one by
    one. One that fails has a first member that fails: those before it take effect as one by one, it
    is applied, those after it are not, and all clients get the error. -/
theorem batching_transparent (config : BatchConfig)
    (serializedSize : ProposalData → Except String ℕ) (events : List BatchEvent)
    (d : Deployment) (envs : ℕ → ℕ → Env) (m : Machine) :
    (Run.Along (submit d envs) (CleanGroup d envs) (new m)
        (RaftBatchProcessor.run config serializedSize (events ++ [.closed])).sent →
      (RaftBatchProcessor.run config serializedSize (events ++ [.closed])).sent.foldl
          (submit d envs) (new m) =
        ((RaftBatchProcessor.accepted config serializedSize events).map ([·])).foldl
          (submit d envs) (new m)) ∧
    ∀ (l : Leader) (ps : List RaftProposal) (e : BlixardError), 2 ≤ ps.length →
      l.running = true →
      (l.machine.applyProposal d (fun i => envs (l.position + i) 0)
        (.batch (ps.map (·.data)))).2 = .error (.error e) →
      ∃ pre p post m', ps = pre ++ p :: post ∧ Clean d envs l.position l.machine pre ∧
        ((pre.map ([·])).foldl (submit d envs) l).machine.applyOne d
          (envs (l.position + pre.length) 0) p.data = (m', .error (.error e)) ∧
        submit d envs l ps = ⟨m', true, l.position + ps.length,
          l.answers ++ List.replicate ps.length
            (.result (.error (.internal s!"Batch proposal failed: {e.display}")))⟩ := by
  refine ⟨fun h => ?_, ?_⟩
  · rw [foldl_submit_of_cleanGroups h, RaftBatchProcessor.flatten_sent]
  rintro ⟨machine, running, position, answers⟩ ps e hlen rfl hfail
  rcases hbatch : machine.applyProposal d (fun i => envs (position + i) 0)
    (.batch (ps.map (·.data))) with ⟨m', r⟩
  obtain rfl : r = .error (.error e) := by rwa [hbatch] at hfail
  obtain ⟨pre, p, post, hps, hclean, hp⟩ := applyBatch_error position answers hbatch
  refine ⟨pre, p, post, m', hps, hclean, hp, ?_⟩
  match ps, hlen, hbatch with
  | p :: q :: ps, _, hbatch =>
    simp only [submit, if_true, hbatch]
    rfl

def workerEvents : List BatchEvent :=
  [.proposal ⟨[1], .updateWorkerStatus 1 .busy⟩, .proposal ⟨[2], .removeWorker 2⟩]

def workerSize : ProposalData → Except String ℕ
  | .updateWorkerStatus _ _ => .ok 16
  | .removeWorker _ => .ok 12
  | .batch [.removeWorker _] => .ok 24
  | _ => .error "unknown size"

theorem worker_batch_transparent :
    (RaftBatchProcessor.run {} workerSize (workerEvents ++ [.closed])).sent.map List.length = [2] ∧
    (RaftBatchProcessor.run {} workerSize (workerEvents ++ [.closed])).sent.foldl
        (submit .raftManager fun _ _ => .still 0) (new .new) =
      ((RaftBatchProcessor.accepted {} workerSize workerEvents).map ([·])).foldl
        (submit .raftManager fun _ _ => .still 0) (new .new) := by
  refine ⟨by decide, (batching_transparent {} workerSize workerEvents .raftManager
    (fun _ _ => .still 0) .new).1 ⟨fun _ => ⟨rfl, ?_⟩, trivial⟩⟩
  exact ⟨fun _ h => (by cases h), rfl, fun _ h => (by cases h), rfl, trivial⟩

/-- A client proposes a batch, and another client's proposal lands in the same group:
    both are refused, where one by one both succeed. -/
theorem nested_batch_fails_its_neighbour :
    ¬ ∀ (config : BatchConfig) (serializedSize : ProposalData → Except String ℕ)
      (events : List BatchEvent) (d : Deployment) (envs : ℕ → ℕ → Env) (m : Machine),
      ((RaftBatchProcessor.run config serializedSize (events ++ [.closed])).sent.foldl
          (submit d envs) (new m)).answers =
        (((RaftBatchProcessor.accepted config serializedSize events).map ([·])).foldl
          (submit d envs) (new m)).answers := by
  intro h
  have hanswers := h {} workerSize
    [.proposal ⟨[1], .batch [.removeWorker 2]⟩, .proposal ⟨[2], .updateWorkerStatus 1 .busy⟩]
    .raftManager (fun _ _ => .still 0) .new
  revert hanswers
  decide +kernel

end Leader

end Blixard
