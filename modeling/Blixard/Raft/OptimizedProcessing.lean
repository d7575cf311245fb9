/-
  Messages in batches of one class (`raft/optimized_processing.rs`).

  Each class of messages has a queue of batches.  A message goes to the last batch of its
  queue, which may be taken before it is full; the next batch to be processed is the first
  one of the most urgent class that has any (`batches_in_order`).

  The four queues are one function of the class, and the statistics are left out.
-/
import Blixard.Error
import Blixard.Lib.Bytes
import Blixard.Lib.Run

namespace Blixard.OptimizedProcessing

open Function List

inductive MessageType where
  | msgRequestVote | msgRequestVoteResponse | msgHeartbeat | msgHeartbeatResponse | msgSnapshot
  | other
  deriving DecidableEq

inductive BatchPriority where
  | election | heartbeat | normal | snapshot
  deriving DecidableEq

namespace BatchPriority

def fromMessageType : MessageType → BatchPriority
  | .msgRequestVote | .msgRequestVoteResponse => election
  | .msgHeartbeat | .msgHeartbeatResponse => heartbeat
  | .msgSnapshot => snapshot
  | .other => normal

def limit : BatchPriority → ℕ
  | election => 32
  | heartbeat => 64
  | normal => 16
  | snapshot => 4

def rank : BatchPriority → ℕ
  | election => 0
  | heartbeat => 1
  | normal => 2
  | snapshot => 3

def order : List BatchPriority := [election, heartbeat, normal, snapshot]

end BatchPriority

structure OptimizedRaftProcessor (M : Type) where
  queues : BatchPriority → List (List M)

namespace OptimizedRaftProcessor

variable {M : Type} (msgType : M → MessageType) (serialize : M → Except BlixardError Bytes)

def new : OptimizedRaftProcessor M := ⟨fun _ => []⟩

def push (limit : ℕ) (queue : List (List M)) (message : M) : List (List M) :=
  match queue.getLast? with
  | none => [[message]]
  | some last =>
    if limit ≤ last.length then queue ++ [[message]] else queue.dropLast ++ [last ++ [message]]

def queueMessage (p : OptimizedRaftProcessor M) (message : M) : OptimizedRaftProcessor M :=
  let priority := BatchPriority.fromMessageType (msgType message)
  ⟨Function.update p.queues priority (push priority.limit (p.queues priority) message)⟩

def popFront (p : OptimizedRaftProcessor M) :
    List BatchPriority → Option (BatchPriority × List M × OptimizedRaftProcessor M)
  | [] => none
  | priority :: order =>
    match p.queues priority with
    | [] => popFront p order
    | batch :: rest => some (priority, batch, ⟨Function.update p.queues priority rest⟩)

/-- The bytes of the messages, with the class and the batch they are of.  A batch is gone if a
    message cannot be serialised. -/
def processNextBatch (p : OptimizedRaftProcessor M) :
    OptimizedRaftProcessor M × Except BlixardError (Option (BatchPriority × List M × List Bytes)) :=
  match p.popFront BatchPriority.order with
  | none => (p, .ok none)
  | some (priority, batch, p) =>
    match batch.mapM serialize with
    | .error e => (p, .error e)
    | .ok bytes => (p, .ok (some (priority, batch, bytes)))

end OptimizedRaftProcessor

inductive ProcessorCall (M : Type) where
  | queueMessage (message : M)
  | processNextBatch

structure ProcessorRun (M : Type) where
  processor : OptimizedRaftProcessor M
  queued : List M
  emitted : List (BatchPriority × List M × List Bytes)

namespace ProcessorRun

open OptimizedRaftProcessor

variable {M : Type} (msgType : M → MessageType) (serialize : M → Except BlixardError Bytes)

def start : ProcessorRun M := ⟨.new, [], []⟩

def step (s : ProcessorRun M) : ProcessorCall M → ProcessorRun M
  | .queueMessage m =>
    { s with processor := s.processor.queueMessage msgType m, queued := s.queued ++ [m] }
  | .processNextBatch =>
    match s.processor.processNextBatch serialize with
    | (processor, .ok (some batch)) => { s with processor, emitted := s.emitted ++ [batch] }
    | (processor, _) => { s with processor }

structure IsBatch (priority : BatchPriority) (batch : List M) : Prop where
  ne_nil : batch ≠ []
  length_le : batch.length ≤ priority.limit
  ofClass : ∀ m ∈ batch, BatchPriority.fromMessageType (msgType m) = priority

/-- The messages of each class are those that were emitted, in their order, and then those
    that are queued. -/
structure Accounted (s : ProcessorRun M) : Prop where
  messages : ∀ priority,
    (s.queued.filter fun m => BatchPriority.fromMessageType (msgType m) = priority) =
      ((s.emitted.filter fun e => e.1 = priority).flatMap fun e => e.2.1) ++
        (s.processor.queues priority).flatten
  emitted : ∀ e ∈ s.emitted, IsBatch msgType e.1 e.2.1 ∧ e.2.1.mapM serialize = .ok e.2.2
  queues : ∀ priority, ∀ batch ∈ s.processor.queues priority, IsBatch msgType priority batch

/-- No message of a more urgent class is queued when a batch is emitted. -/
def MostUrgent (s : ProcessorRun M) : ProcessorCall M → Prop
  | .queueMessage _ => True
  | .processNextBatch => ∀ e, (s.processor.processNextBatch serialize).2 = .ok (some e) →
      ∀ priority, priority.rank < e.1.rank → (s.processor.queues priority).flatten = []

variable {msgType serialize} {s : ProcessorRun M}

theorem flatten_push (limit : ℕ) (queue : List (List M)) (m : M) :
    (push limit queue m).flatten = queue.flatten ++ [m] := by
  unfold push
  cases hlast : queue.getLast? with
  | none => simp [getLast?_eq_none_iff.1 hlast]
  | some last =>
    obtain ⟨pre, rfl⟩ := getLast?_eq_some_iff.1 hlast
    dsimp only
    split_ifs <;> simp

variable {prio : BatchPriority} {queue : List (List M)}

theorem isBatch_push {m : M} (hq : ∀ batch ∈ queue, IsBatch msgType prio batch)
    (hm : BatchPriority.fromMessageType (msgType m) = prio) :
    ∀ batch ∈ push prio.limit queue m, IsBatch msgType prio batch := by
  have hnew : IsBatch msgType prio [m] := by
    refine ⟨by simp, ?_, by simpa using hm⟩
    cases prio <;> simp [BatchPriority.limit]
  unfold push
  cases hlast : queue.getLast? with
  | none => simpa using hnew
  | some last =>
    obtain ⟨pre, rfl⟩ := getLast?_eq_some_iff.1 hlast
    obtain ⟨hne, hle, hc⟩ := hq last (by simp)
    dsimp only
    split_ifs with hfull
    · simpa [or_imp, forall_and, hnew] using hq
    intro batch hb
    rw [dropLast_concat, mem_append, mem_singleton] at hb
    rcases hb with hb | rfl
    · exact hq batch (mem_append_left _ hb)
    refine ⟨by simp, by simpa using Nat.succ_le_of_lt (Nat.lt_of_not_le hfull),
      fun m' hm' => ?_⟩
    rcases mem_append.1 hm' with hm' | hm'
    · exact hc m' hm'
    · rwa [mem_singleton.1 hm']

theorem isBatch_update {queues : BatchPriority → List (List M)}
    (hq : ∀ q, ∀ batch ∈ queues q, IsBatch msgType q batch)
    (hqueu : ∀ batch ∈ queue, IsBatch msgType prio batch) :
    ∀ q, ∀ batch ∈ update queues prio queue q, IsBatch msgType q batch :=
  (forall_update_iff queues fun q queue => ∀ batch ∈ queue, IsBatch msgType q batch).2
    ⟨hqueu, fun q _ => hq q⟩

theorem popFront_eq_some {p p' : OptimizedRaftProcessor M} {order : List BatchPriority}
    (hord : order.Pairwise fun q q' => q.rank < q'.rank)
    {batch : List M} (h : p.popFront order = some (prio, batch, p')) :
    ∃ rest, p.queues prio = batch :: rest ∧ p' = ⟨update p.queues prio rest⟩ ∧
      ∀ q ∈ order, q.rank < prio.rank → p.queues q = [] := by
  induction order with
  | nil => cases h
  | cons q order ih =>
    obtain ⟨hq, hord⟩ := pairwise_cons.1 hord
    rw [popFront] at h
    cases hq1 : p.queues q with
    | nil =>
      rw [hq1] at h
      obtain ⟨rest, hrest, hp, hpre⟩ := ih hord h
      exact ⟨rest, hrest, hp, forall_mem_cons.2 ⟨fun _ => hq1, hpre⟩⟩
    | cons first rest =>
      rw [hq1] at h
      cases h
      refine ⟨rest, hq1, rfl, forall_mem_cons.2 ⟨fun hlt => absurd hlt (Nat.lt_irrefl _), ?_⟩⟩
      exact fun q' hq' hlt => absurd hlt (Nat.lt_asymm (hq q' hq'))

theorem mapM_eq_ok (hs : ∀ m, ∃ bytes, serialize m = .ok bytes) (batch : List M) :
    ∃ bytes, batch.mapM serialize = .ok bytes := by
  induction batch with
  | nil => exact ⟨[], rfl⟩
  | cons m batch ih =>
    obtain ⟨first, hf⟩ := hs m
    obtain ⟨rest, hrest⟩ := ih
    exact ⟨first :: rest, by rw [mapM_cons, hf, hrest]; rfl⟩

theorem processNextBatch_cases (hs : ∀ m, ∃ bytes, serialize m = .ok bytes)
    (p : OptimizedRaftProcessor M) : p.processNextBatch serialize = (p, .ok none) ∨
      ∃ prio batch rest bytes, p.queues prio = batch :: rest ∧
        batch.mapM serialize = .ok bytes ∧
        (∀ q, q.rank < prio.rank → p.queues q = []) ∧ p.processNextBatch serialize =
          (⟨update p.queues prio rest⟩, .ok (some (prio, batch, bytes))) := by
  unfold processNextBatch
  cases hpop : p.popFront BatchPriority.order with
  | none => exact .inl rfl
  | some popped =>
    obtain ⟨prio, batch, p'⟩ := popped
    obtain ⟨rest, hq, rfl, hpre⟩ := popFront_eq_some (by decide) hpop
    obtain ⟨bytes, hbyt⟩ := mapM_eq_ok hs batch
    refine .inr ⟨prio, batch, rest, bytes, hq, hbyt, fun q => ?_, by simp only [hbyt]⟩
    exact hpre q (by cases q <;> decide)

theorem accounted_queueMessage (h : s.Accounted msgType serialize) (m : M) :
    (s.step msgType serialize (.queueMessage m)).Accounted msgType serialize := by
  refine ⟨fun prio => ?_, h.emitted, isBatch_update h.queues (isBatch_push (h.queues _) rfl)⟩
  simp only [step, queueMessage, filter_append, h.messages prio]
  by_cases hm : BatchPriority.fromMessageType (msgType m) = prio
  · subst hm
    simp [flatten_push]
  · simp [hm, update_of_ne (Ne.symm hm)]

theorem accounted_processNextBatch (h : s.Accounted msgType serialize)
    (hs : ∀ m, ∃ bytes, serialize m = .ok bytes) :
    (s.step msgType serialize .processNextBatch).Accounted msgType serialize ∧
      s.MostUrgent serialize .processNextBatch := by
  rcases processNextBatch_cases hs s.processor with hnone |
    ⟨priority, batch, rest, bytes, hq1, hy, hr, hnext⟩
  · refine ⟨by simpa only [step, hnone] using h, fun e he => ?_⟩
    rw [hnone] at he
    cases he
  have hb := h.queues priority
  rw [hq1] at hb
  obtain ⟨hf, hrest⟩ := forall_mem_cons.1 hb
  refine ⟨?_, fun e he q hq => ?_⟩
  · simp only [step, hnext]
    refine ⟨fun q => ?_, ?_, isBatch_update h.queues hrest⟩
    · rw [h.messages q]
      by_cases hq : q = priority
      · subst hq
        simp [hq1]
      · simp [Ne.symm hq, update_of_ne hq]
    · simpa [or_imp, forall_and, hf, hy] using h.emitted
  · rw [hnext] at he
    cases he
    rw [hr q hq]
    rfl

/-- **Batches by class**: the messages of a class are those emitted, in the order of queueing, and
    then those queued. Batches are of one class, not empty and within its limit, and leave no
    message of a more urgent class queued. -/
theorem batches_in_order (msgType : M → MessageType) (serialize : M → Except BlixardError Bytes)
    (hserialize : ∀ m, ∃ bytes, serialize m = .ok bytes) (calls : List (ProcessorCall M)) :
    (∀ s ∈ calls.scanl (step msgType serialize) start, s.Accounted msgType serialize) ∧
      Run.Along (step msgType serialize) (MostUrgent serialize) start calls := by
  have hstart : (start : ProcessorRun M).Accounted msgType serialize :=
    ⟨fun _ => rfl, by simp [start], by simp [start, new]⟩
  have hstep (s : ProcessorRun M) (c : ProcessorCall M) (h : s.Accounted msgType serialize) :
      (s.step msgType serialize c).Accounted msgType serialize ∧ s.MostUrgent serialize c := by
    cases c with
    | queueMessage m => exact ⟨accounted_queueMessage h m, trivial⟩
    | processNextBatch => exact accounted_processNextBatch h hserialize
  exact ⟨Run.invariant (fun s c h _ => (hstep s c h).1) hstart (Run.along_true _ _),
    Run.along_of_invariant (fun s c h _ => (hstep s c h).1) (fun s c h _ => (hstep s c h).2) hstart
      (Run.along_true _ _)⟩

/-- A vote overtakes a heartbeat that was queued before it. -/
theorem batches_in_order_vote :
    let calls := [.queueMessage .msgHeartbeat, .queueMessage .msgRequestVote, .processNextBatch]
    let s := calls.foldl (step id fun _ => .ok []) start
    s.emitted = [(.election, [.msgRequestVote], [[]])] ∧ s.Accounted id fun _ => .ok [] :=
  ⟨by decide +kernel, (batches_in_order id (fun _ => .ok []) (fun _ => ⟨[], rfl⟩) _).1 _
    (Run.foldl_mem_scanl _ _)⟩

end ProcessorRun

end Blixard.OptimizedProcessing
