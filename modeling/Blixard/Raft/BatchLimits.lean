/-
  The limits of batches (`raft_batch_processor.rs`).

  `add_to_batch` checks the two limits twice, before a proposal is added and after it
  (`batches_within_limits`).
-/
import Blixard.Raft.BatchProcessor

namespace Blixard

open List

namespace RaftBatchProcessor

def received (events : List BatchEvent) : List RaftProposal :=
  events.filterMap fun
    | .proposal p => some p
    | _ => none

variable (config : BatchConfig) (serializedSize : ProposalData → Except String ℕ)

def estimatedSize (group : List RaftProposal) : ℕ :=
  (group.map fun p => (estimateProposalSize serializedSize p).toOption.getD 0).sum

/-- At most `max_batch_size` proposals, and at most `max_batch_bytes` unless it is one
    proposal alone. -/
def WithinLimits (group : List RaftProposal) : Prop :=
  group.length ≤ config.maxBatchSize ∧
    (config.maxBatchBytes < estimatedSize serializedSize group → group.length = 1)

/-- The groups that were sent and the current batch are within the limits, and the
    batch knows its size. -/
structure Bounded (s : RaftBatchProcessor) : Prop where
  totalSize : s.currentBatch.totalSize = estimatedSize serializedSize s.currentBatch.proposals
  current : WithinLimits config serializedSize s.currentBatch.proposals
  sent : ∀ group ∈ s.sent, WithinLimits config serializedSize group

variable {config serializedSize} {s : RaftBatchProcessor}

theorem accepted_eq_received {events : List BatchEvent}
    (h : ∀ p ∈ received events, (estimateProposalSize serializedSize p).isOk) :
    accepted config serializedSize events = received events := by
  induction events with
  | nil => rfl
  | cons e events ih =>
    rw [← singleton_append, accepted_append]
    cases e with
    | proposal p =>
      obtain ⟨hp, hrest⟩ := forall_mem_cons.1 h
      rw [ih hrest]
      simp [accepted, received, hp]
    | tick ageMs => exact ih h
    | closed => exact ih h

variable {p : RaftProposal} {size : ℕ}

theorem estimatedSize_append (group : List RaftProposal)
    (hp : estimateProposalSize serializedSize p = .ok size) :
    estimatedSize serializedSize (group ++ [p]) = estimatedSize serializedSize group + size := by
  simp [estimatedSize, hp, Except.toOption]

theorem withinLimits_nil : WithinLimits config serializedSize [] :=
  ⟨Nat.zero_le _, fun h => absurd h (Nat.not_lt_zero _)⟩

theorem withinLimits_singleton (hpos : 0 < config.maxBatchSize) (p : RaftProposal) :
    WithinLimits config serializedSize [p] := ⟨hpos, fun _ => rfl⟩

theorem bounded_new : new.Bounded config serializedSize :=
  ⟨rfl, withinLimits_nil, fun _ h => absurd h not_mem_nil⟩

theorem Bounded.flushBatch (h : s.Bounded config serializedSize) :
    s.flushBatch.Bounded config serializedSize := by
  unfold RaftBatchProcessor.flushBatch flushSpecificBatch
  split
  · exact ⟨rfl, withinLimits_nil, h.sent⟩
  refine ⟨rfl, withinLimits_nil, fun group hg => ?_⟩
  rcases mem_append.1 hg with hsent | hnew
  · exact h.sent group hsent
  · rw [mem_singleton.1 hnew]
    exact h.current

theorem withinLimits_add (hpos : 0 < config.maxBatchSize)
    (h : s.Bounded config serializedSize) (hp : estimateProposalSize serializedSize p = .ok size)
    (hroom : ¬ (s.currentBatch.proposals ≠ [] ∧
      (config.maxBatchSize ≤ s.currentBatch.proposals.length ∨
        config.maxBatchBytes < s.currentBatch.totalSize + size))) :
    WithinLimits config serializedSize (s.currentBatch.proposals ++ [p]) := by
  by_cases he : s.currentBatch.proposals = []
  · rw [he]
    exact withinLimits_singleton hpos p
  rw [not_and_or, not_not, or_iff_right he, not_or, Nat.not_le, Nat.not_lt] at hroom
  obtain ⟨hlen, hbyt⟩ := hroom
  constructor
  · rw [length_append, length_singleton]
    exact hlen
  · intro hl
    rw [estimatedSize_append _ hp, ← h.totalSize] at hl
    omega

theorem bounded_addToBatch (hpos : 0 < config.maxBatchSize) (h : s.Bounded config serializedSize)
    (p : RaftProposal) : (s.addToBatch config serializedSize p).Bounded config serializedSize := by
  unfold addToBatch
  cases hp : estimateProposalSize serializedSize p with
  | error e => exact h
  | ok size =>
    dsimp only
    split
    · -- the proposal begins a batch of its own
      refine ⟨?_, withinLimits_singleton hpos p, h.flushBatch.sent⟩
      show 0 + size = estimatedSize serializedSize ([] ++ [p])
      rw [estimatedSize_append _ hp]
      rfl
    · rename_i hroom
      have hadd : { s with currentBatch := s.currentBatch.add p size }.Bounded config
          serializedSize := by
        refine ⟨?_, withinLimits_add hpos h hp hroom, h.sent⟩
        show s.currentBatch.totalSize + size = _
        rw [h.totalSize]
        exact (estimatedSize_append _ hp).symm
      split
      · exact hadd.flushBatch
      · exact hadd

theorem bounded_step (hpos : 0 < config.maxBatchSize) (h : s.Bounded config serializedSize)
    (e : BatchEvent) : (s.step config serializedSize e).Bounded config serializedSize := by
  cases e with
  | proposal p =>
    simp only [step]
    split
    · exact bounded_addToBatch hpos h p
    refine ⟨h.totalSize, h.current, fun group hg => ?_⟩
    rcases mem_append.1 hg with hsent | hnew
    · exact h.sent group hsent
    · rw [mem_singleton.1 hnew]
      exact withinLimits_singleton hpos p
  | tick ageMs =>
    simp only [step, checkAndFlushBatch]
    split_ifs
    · exact h.flushBatch
    · exact h
    · exact h
  | closed =>
    simp only [step]
    split
    · exact h.flushBatch
    · exact h

/-- **Batches**: if a batch may hold a proposal, the groups sent and then the current batch are the
    received proposals in order, and every group sent is within the limits. -/
theorem batches_within_limits (config : BatchConfig)
    (serializedSize : ProposalData → Except String ℕ) (events : List BatchEvent)
    (hpos : 0 < config.maxBatchSize)
    (hsize : ∀ p ∈ received events, (estimateProposalSize serializedSize p).isOk) :
    let s := run config serializedSize events
    s.sent.flatten ++ s.currentBatch.proposals = received events ∧
    ∀ group ∈ s.sent, group.length ≤ config.maxBatchSize ∧
      (config.maxBatchBytes < estimatedSize serializedSize group → group.length = 1) := by
  intro s
  constructor
  · have hholds := @holds_foldl config serializedSize events new [] ⟨rfl, fun _ => rfl⟩
    rw [List.nil_append, accepted_eq_received hsize] at hholds
    exact hholds.contents
  have hbounded : ∀ t ∈ events.scanl (step config serializedSize) new,
      t.Bounded config serializedSize :=
    Run.invariant (fun _ e h _ => bounded_step hpos h e) bounded_new (Run.along_true _ _)
  exact (hbounded s (Run.foldl_mem_scanl new events)).sent

theorem two_small_batches :
    let config : BatchConfig := { maxBatchBytes := 120 }
    let events := Leader.workerEvents ++ [.tick 10]
    let s := run config Leader.workerSize events
    s.sent.map List.length = [1, 1] ∧
    s.sent.flatten ++ s.currentBatch.proposals = received events ∧
    ∀ group ∈ s.sent, group.length ≤ 100 ∧
      (120 < estimatedSize Leader.workerSize group → group.length = 1) := by
  refine ⟨by decide, batches_within_limits { maxBatchBytes := 120 } Leader.workerSize
    (Leader.workerEvents ++ [.tick 10]) (by decide) ?_⟩
  intro p hp
  simp only [received, Leader.workerEvents, List.cons_append, List.nil_append,
    List.filterMap_cons, List.filterMap_nil, List.mem_cons, List.not_mem_nil, or_false] at hp
  rcases hp with rfl | rfl <;> rfl

end RaftBatchProcessor

end Blixard
