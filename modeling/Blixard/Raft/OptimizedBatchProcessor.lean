/-
  The optimized batch processor (`raft/optimized_batch_processor.rs`).

  Whatever is received is sent, held, answered or dropped, each proposal once (`conserved`).  When the
  receiver of the channel to Raft is gone (`close`), sending fails; a circuit breaker that opens then
  gives a batch up as well, and is left out.  `halted` says that the loop has panicked or waits for
  ever.  Times are in nanoseconds and inputs; what a batch contains is in memory, so sizes do not
  overflow.
-/
import Blixard.IpPool.Config
import Blixard.Lib.Grouping
import Blixard.Lib.Run
import Mathlib.Algebra.Order.Group.Multiset
import Mathlib.Tactic.Abel

namespace Blixard

open Grouping List Multiset

/-! ## Types -/

/-- Sizes, limits and modes, with their defaults. -/
structure OptimizedBatchConfig where
  maxBatchSize : ℕ := 100
  batchTimeoutMs : ℕ := 10
  maxBatchBytes : ℕ := 1024 * 1024
  enabled : Bool := true
  enableStreaming : Bool := true
  streamBufferSize : ℕ := 1000
  maxConcurrentBatches : ℕ := 4
  enableAdaptiveBatching : Bool := true
  minBatchSize : ℕ := 5
  highPriorityThreshold : ℕ := 5 * 10 ^ 6
  enableBackpressure : Bool := true
  maxPendingProposals : ℕ := 10000

/-- From the least urgent to the most. -/
inductive ProposalPriority where
  | low | normal | high | critical
  deriving DecidableEq

/-- A proposal, when it came and how long it may wait. -/
structure EnhancedRaftProposal (P : Type) where
  inner : P
  priority : ProposalPriority
  submittedAt : ℕ
  estimatedSize : ℕ
  timeout : Option ℕ
  deriving DecidableEq

/-- Proposals that are sent together. -/
structure OptimizedProposalBatch (P : Type) where
  proposals : List (EnhancedRaftProposal P)
  totalSize : ℕ
  createdAt : ℕ
  priority : ProposalPriority

/-- The last batches: their sizes, and a number for the throughput that orders them as the
    throughputs are ordered. -/
structure BatchPerformanceMetrics where
  samples : List (ℕ × ℕ)

/-- A group of the stream before it has its permit, and with it. -/
inductive PriorityGroup (P : Type) where
  | queued (proposals : List (EnhancedRaftProposal P))
  | working (optimalSize : ℕ) (proposals : List (EnhancedRaftProposal P))

variable {P : Type}

def PriorityGroup.proposals : PriorityGroup P → List (EnhancedRaftProposal P)
  | queued ps | working _ ps => ps

namespace ProposalPriority

def rank : ProposalPriority → ℕ
  | low => 0
  | normal => 1
  | high => 2
  | critical => 3

def higher (a b : ProposalPriority) : ProposalPriority := if a.rank < b.rank then b else a

end ProposalPriority

open ProposalPriority

/-! ## Batches -/

/-- It has waited longer than it may. -/
def EnhancedRaftProposal.isExpired (p : EnhancedRaftProposal P) (now : ℕ) : Bool :=
  match p.timeout with
  | some timeout => timeout < now - p.submittedAt
  | none => false

namespace OptimizedProposalBatch

/-- An empty batch has the priority `Normal`. -/
def new (now : ℕ) : OptimizedProposalBatch P := ⟨[], 0, now, .normal⟩

/-- `add_proposal` only ever raises the priority. -/
def add (b : OptimizedProposalBatch P) (p : EnhancedRaftProposal P) : OptimizedProposalBatch P :=
  { b with
    proposals := b.proposals ++ [p]
    totalSize := b.totalSize + p.estimatedSize
    priority := b.priority.higher p.priority }

/-- It is full, or older than its priority allows; doubling can overflow. -/
def shouldFlush (pf : Platform) (config : OptimizedBatchConfig) (now : ℕ)
    (b : OptimizedProposalBatch P) : Except Failure Bool :=
  if b.proposals.isEmpty then .ok false
  else if config.maxBatchSize ≤ b.proposals.length ∨ config.maxBatchBytes ≤ b.totalSize then
    .ok true
  else do
    let timeout ← match b.priority with
      | .critical => .ok (10 ^ 6)
      | .high => .ok config.highPriorityThreshold
      | .normal => .ok (config.batchTimeoutMs * 10 ^ 6)
      | .low => (pf.mulUnsigned 64 config.batchTimeoutMs 2).map (· * 10 ^ 6)
    return timeout ≤ now - b.createdAt

/-- The expired proposals and the others, each looked at in its turn. -/
def splitExpired (now : ℕ → ℕ) (n : ℕ) : List (EnhancedRaftProposal P) →
    List (EnhancedRaftProposal P) × List (EnhancedRaftProposal P)
  | [] => ([], [])
  | p :: ps =>
    let (expired, kept) := splitExpired now (n + 1) ps
    if p.isExpired (now n) then (p :: expired, kept) else (expired, p :: kept)

/-- The most urgent priority, `Normal` if there is none. -/
def highest : List (EnhancedRaftProposal P) → ProposalPriority
  | [] => .normal
  | p :: ps => ps.foldl (fun q p => q.higher p.priority) p.priority

def removeExpired (now : ℕ → ℕ) (b : OptimizedProposalBatch P) :
    OptimizedProposalBatch P × List (EnhancedRaftProposal P) :=
  let (expired, kept) := splitExpired now 0 b.proposals
  ({ b with
      proposals := kept
      totalSize := b.totalSize - (expired.map (·.estimatedSize)).sum
      priority := highest kept }, expired)

/-- No proposal of the batch has expired when it is looked at. -/
def Fresh (now : ℕ → ℕ) (b : OptimizedProposalBatch P) : Prop :=
  ∀ x ∈ b.proposals.zipIdx, x.1.isExpired (now x.2) = false

/-- Some proposal has not expired when it is looked at. -/
def Survives (now : ℕ → ℕ) (b : OptimizedProposalBatch P) : Prop :=
  ∃ x ∈ b.proposals.zipIdx, x.1.isExpired (now x.2) = false

instance {now : ℕ → ℕ} {b : OptimizedProposalBatch P} : Decidable (b.Survives now) :=
  inferInstanceAs (Decidable (∃ x ∈ b.proposals.zipIdx, x.1.isExpired (now x.2) = false))

theorem expired_of_fresh {now : ℕ → ℕ} {n : ℕ} {ps : List (EnhancedRaftProposal P)}
    (h : ∀ x ∈ ps.zipIdx n, x.1.isExpired (now x.2) = false) : (splitExpired now n ps).1 = [] := by
  induction ps generalizing n with
  | nil => rfl
  | cons p ps ih =>
    obtain ⟨hp, hps⟩ := forall_mem_cons.1 h
    simp only [splitExpired, hp, Bool.false_eq_true, if_false, ih hps]

end OptimizedProposalBatch

namespace BatchPerformanceMetrics

def recordBatch (m : BatchPerformanceMetrics) (size throughput : ℕ) : BatchPerformanceMetrics :=
  let samples := m.samples ++ [(size, throughput)]
  ⟨if 50 < samples.length then samples.tail else samples⟩

/-- The better of the best batch so far and another one; an empty batch has a throughput of zero or
    none at all, and is never better. -/
def better (best : Option (ℕ × ℕ)) (sample : ℕ × ℕ) : Option (ℕ × ℕ) :=
  if sample.1 = 0 then best
  else
    match best with
    | none => some sample
    | some (size, throughput) =>
      if throughput < sample.2 then some sample else some (size, throughput)

/-- The size of the first batch with the best throughput, or the least size if there is none. -/
def best (m : BatchPerformanceMetrics) (config : OptimizedBatchConfig) : ℕ :=
  ((m.samples.foldl better none).map Prod.fst).getD config.minBatchSize

/-- `get_optimal_batch_size`; `clamp` panics if the limits are the wrong way round. -/
def getOptimalBatchSize (m : BatchPerformanceMetrics) (config : OptimizedBatchConfig) :
    Except Failure ℕ :=
  if m.samples.length < 5 then .ok (config.maxBatchSize / 2)
  else if config.maxBatchSize < config.minBatchSize then
    .error (.panic "assertion failed: min <= max")
  else .ok (max config.minBatchSize (min (m.best config) config.maxBatchSize))

theorem foldl_better (samples : List (ℕ × ℕ)) (least : ℕ) {found : Option (ℕ × ℕ)}
    (hf : ∀ sample ∈ found, 0 < sample.1) :
    0 < ((samples.foldl better found).map Prod.fst).getD least ↔
      0 < (found.map Prod.fst).getD least ∨ ∃ sample ∈ samples, 0 < sample.1 := by
  induction samples generalizing found with
  | nil => simp
  | cons sample samples ih =>
    by_cases hsize : sample.1 = 0
    · rw [List.foldl_cons, show better found sample = found from if_pos hsize, ih hf]
      simp [hsize]
    · have hb : ∃ next ∈ better found sample, 0 < next.1 := by
        unfold better
        rw [if_neg hsize]
        rcases found with _ | previous
        · exact ⟨sample, rfl, Nat.pos_of_ne_zero hsize⟩
        · dsimp only
          split_ifs
          · exact ⟨sample, rfl, Nat.pos_of_ne_zero hsize⟩
          · exact ⟨previous, rfl, hf previous rfl⟩
      obtain ⟨next, hnext, hpos⟩ := hb
      rw [List.foldl_cons, hnext, ih (by rintro _ ⟨⟩; exact hpos)]
      exact iff_of_true (.inl hpos) (.inr ⟨sample, List.mem_cons_self, Nat.pos_of_ne_zero hsize⟩)

/-- The best size is positive if the least one is or a batch was recorded that was not empty. -/
theorem best_pos_iff (m : BatchPerformanceMetrics) (config : OptimizedBatchConfig) :
    0 < m.best config ↔ 0 < config.minBatchSize ∨ ∃ sample ∈ m.samples, 0 < sample.1 :=
  foldl_better m.samples config.minBatchSize (by rintro _ ⟨⟩)

end BatchPerformanceMetrics

/-! ## The processor -/

/-- The processor, and what has become of the proposals that it received. -/
structure OptimizedRaftBatchProcessor (P : Type) where
  config : OptimizedBatchConfig
  priorityBatches : List (OptimizedProposalBatch P)
  pendingProposals : ℕ
  metrics : BatchPerformanceMetrics
  groups : ProposalPriority → Option (PriorityGroup P)
  halted : Bool
  received : List (EnhancedRaftProposal P)
  sent : List (List (EnhancedRaftProposal P))
  answered : List (EnhancedRaftProposal P × BlixardError)
  dropped : List (EnhancedRaftProposal P)
  wrapped : Bool
  raftOpen : Bool

/-- What happens to the processor; `close` is the end of the receiver of its channel to Raft. -/
inductive BatchProcessorEvent (P : Type) where
  | proposal (p : EnhancedRaftProposal P) (created checked throughput : ℕ)
  /-- `clock i` is when the `i`-th batch is looked at, `looks i j` when its `j`-th proposal is,
      `ages` the seconds after which a proposal is answered; the batches are sent in any order. -/
  | tick (clock : ℕ → ℕ) (looks : ℕ → ℕ → ℕ) (ages : EnhancedRaftProposal P → ℕ)
    (throughput : OptimizedProposalBatch P → ℕ)
    (order : List (OptimizedProposalBatch P) → List (OptimizedProposalBatch P))
    (perm : ∀ batches, (order batches).Perm batches)
  | cleanup (looks : ℕ → ℕ → ℕ)
  | chunk (proposals : List (EnhancedRaftProposal P))
  | turn (priority : ProposalPriority) (throughput : ℕ)
  | close

/-- What `flush_ready_batches` finds in the batches. -/
structure BatchScan (P : Type) where
  kept : List (OptimizedProposalBatch P)
  toFlush : List (OptimizedProposalBatch P)
  expired : List (EnhancedRaftProposal P)
  panicked : Bool

namespace OptimizedRaftBatchProcessor

variable (pf : Platform)
  -- the longest list of proposals for which memory can be asked at once
  (maxCapacity : ℕ) (s : OptimizedRaftBatchProcessor P)

/-- `run` at its beginning; the chunks of streaming mode must be allocated, and the interval of
    traditional mode must not be zero. -/
def start (config : OptimizedBatchConfig) : OptimizedRaftBatchProcessor P where
  config := config
  priorityBatches := []
  pendingProposals := 0
  metrics := ⟨[]⟩
  groups := fun _ => none
  halted := config.enabled &&
    if config.enableStreaming then maxCapacity < config.streamBufferSize
    else config.batchTimeoutMs = 0
  received := []
  sent := []
  answered := []
  dropped := []
  wrapped := false
  raftOpen := true

/-- The counter after `n` decrements, which wrap. -/
def decrementBy (n counter : ℕ) : ℕ := (((counter : ℤ) - n) % 2 ^ 64).toNat

/-- A proposal that cannot be sent is lost with its client's channel; of several, the task that
    distributes the answer tells the clients. -/
def failBatch (batch : List (EnhancedRaftProposal P)) : OptimizedRaftBatchProcessor P :=
  if batch.length = 1 then { s with dropped := s.dropped ++ batch }
  else
    { s with
      answered := s.answered ++ batch.map fun p => (p, .internal "Batch response channel dropped") }

/-- `process_single_batch`: what cannot be sent is neither recorded nor taken off the counter. -/
def processSingleBatch (throughput : ℕ) (batch : List (EnhancedRaftProposal P)) :
    OptimizedRaftBatchProcessor P :=
  if batch.isEmpty then s
  else if s.raftOpen then
    { s with
      sent := s.sent ++ [batch]
      metrics := s.metrics.recordBatch batch.length throughput
      pendingProposals := decrementBy batch.length s.pendingProposals
      wrapped := s.wrapped || s.pendingProposals < batch.length }
  else s.failBatch batch

/-! ## Traditional mode -/

/-- Backpressure: as many proposals are pending as may be. -/
def refuses : Bool :=
  s.config.enableBackpressure && s.config.maxPendingProposals ≤ s.pendingProposals

def refusal : BlixardError :=
  .resourceExhausted s!"Pending proposals queue (limit: {s.config.maxPendingProposals})"

/-- The first batch of the priority with the proposal added, or a new one at the end, between
    the batches before and after it. -/
def place (created : ℕ) (p : EnhancedRaftProposal P) : List (OptimizedProposalBatch P) →
    List (OptimizedProposalBatch P) × OptimizedProposalBatch P × List (OptimizedProposalBatch P)
  | [] => ([], (OptimizedProposalBatch.new created).add p, [])
  | b :: batches =>
    if b.priority = p.priority then ([], b.add p, batches)
    else
      let (before, batch, after) := place created p batches
      (b :: before, batch, after)

def addToPriorityBatch (p : EnhancedRaftProposal P) (created checked throughput : ℕ) :
    OptimizedRaftBatchProcessor P × Except BlixardError Unit :=
  if s.refuses then (s, .error s.refusal)
  else
    let s := { s with pendingProposals := (s.pendingProposals + 1) % 2 ^ 64 }
    let (before, batch, after) := place created p s.priorityBatches
    match batch.shouldFlush pf s.config checked with
    | .error _ => ({ s with priorityBatches := before ++ batch :: after, halted := true }, .ok ())
    | .ok true =>
      ({ s with priorityBatches := before ++ after }.processSingleBatch throughput batch.proposals,
        .ok ())
    | .ok false => ({ s with priorityBatches := before ++ batch :: after }, .ok ())

/-- A proposal that is refused is lost: the loop only logs the error. -/
def receive (p : EnhancedRaftProposal P) (created checked throughput : ℕ) :
    OptimizedRaftBatchProcessor P :=
  match { s with received := s.received ++ [p] }.addToPriorityBatch pf p created checked throughput with
  | (s, .ok ()) => s
  | (s, .error _) => { s with dropped := s.dropped ++ [p] }

/-- The loop of `flush_ready_batches` over the batches, from position `i` on. -/
def scan (config : OptimizedBatchConfig) (clock : ℕ → ℕ) (looks : ℕ → ℕ → ℕ) (i : ℕ) :
    List (OptimizedProposalBatch P) → BatchScan P
  | [] => ⟨[], [], [], false⟩
  | b :: batches =>
    match b.shouldFlush pf config (clock i) with
    | .error _ => ⟨b :: batches, [], [], true⟩
    | .ok true =>
      let r := scan config clock looks (i + 1) batches
      { r with toFlush := b :: r.toFlush }
    | .ok false =>
      let (b, expired) := b.removeExpired (looks i)
      let r := scan config clock looks (i + 1) batches
      { r with kept := b :: r.kept, expired := expired ++ r.expired }

/-- What has expired at a tick is answered. -/
def answerExpired (r : BatchScan P) (ages : EnhancedRaftProposal P → ℕ) :
    OptimizedRaftBatchProcessor P :=
  { s with
    priorityBatches := r.kept
    answered := s.answered ++ r.expired.map fun p => (p, .timeout "Proposal processing" (ages p)) }

def processBatches (throughput : OptimizedProposalBatch P → ℕ)
    (batches : List (OptimizedProposalBatch P)) : OptimizedRaftBatchProcessor P :=
  batches.foldl (fun s batch => s.processSingleBatch (throughput batch) batch.proposals) s

/-- With a limit of zero `concurrent_map` waits for ever, also without batches. -/
def flushReadyBatches (clock : ℕ → ℕ) (looks : ℕ → ℕ → ℕ) (ages : EnhancedRaftProposal P → ℕ)
    (throughput : OptimizedProposalBatch P → ℕ)
    (order : List (OptimizedProposalBatch P) → List (OptimizedProposalBatch P)) :
    OptimizedRaftBatchProcessor P :=
  let r := scan pf s.config clock looks 0 s.priorityBatches
  if r.panicked ∨ s.config.maxConcurrentBatches = 0 then
    { s.answerExpired r ages with
      halted := true
      dropped := s.dropped ++ r.toFlush.flatMap (·.proposals) }
  else (s.answerExpired r ages).processBatches throughput (order r.toFlush)

/-- The task of `start_background_tasks` removes expired proposals from every batch. -/
def removeAllExpired (looks : ℕ → ℕ → ℕ) (i : ℕ) : List (OptimizedProposalBatch P) →
    List (OptimizedProposalBatch P) × List (EnhancedRaftProposal P)
  | [] => ([], [])
  | b :: batches =>
    let (b, expired) := b.removeExpired (looks i)
    let (rest, more) := removeAllExpired looks (i + 1) batches
    (b :: rest, expired ++ more)

def cleanup (looks : ℕ → ℕ → ℕ) : OptimizedRaftBatchProcessor P :=
  let (batches, expired) := removeAllExpired looks 0 s.priorityBatches
  { s with priorityBatches := batches, dropped := s.dropped ++ expired }

/-! ## Streaming mode -/

def allPriorities : List ProposalPriority := [.low, .normal, .high, .critical]

/-- How many groups have a permit. -/
def workingGroups : ℕ :=
  (allPriorities.filter fun q => match s.groups q with
    | some (.working _ _) => true
    | _ => false).length

def idle : Bool := allPriorities.all fun q => (s.groups q).isNone

/-- The proposals of a priority, if the chunk has any. -/
def groupOf (proposals : List (EnhancedRaftProposal P)) (q : ProposalPriority) :
    Option (PriorityGroup P) :=
  let group := Grouping.groupBy EnhancedRaftProposal.priority proposals q
  if group.isEmpty then none else some (.queued group)

/-- A chunk is taken up when the last one is done. -/
def processProposalChunk (proposals : List (EnhancedRaftProposal P)) :
    OptimizedRaftBatchProcessor P :=
  if s.idle ∧ proposals.length ≤ s.config.streamBufferSize then
    { s with received := s.received ++ proposals, groups := groupOf proposals }
  else s

def setGroup (q : ProposalPriority) (group : Option (PriorityGroup P)) :
    OptimizedRaftBatchProcessor P :=
  { s with groups := Function.update s.groups q group }

def optimalSize : Except Failure ℕ :=
  if s.config.enableAdaptiveBatching then s.metrics.getOptimalBatchSize s.config
  else .ok s.config.maxBatchSize

/-- A turn of `process_priority_group`: it gets a permit and the size of its batches, or sends the
    next one. With a size of zero that is empty and the loop goes on; a batch that cannot be sent
    ends it. -/
def processPriorityGroup (q : ProposalPriority) (throughput : ℕ) : OptimizedRaftBatchProcessor P :=
  match s.groups q with
  | none => s
  | some (.queued proposals) =>
    if s.workingGroups < s.config.maxConcurrentBatches then
      match s.optimalSize with
      | .error _ => { s with halted := true }
      | .ok size =>
        if maxCapacity < size then { s with halted := true }
        else s.setGroup q (some (.working size proposals))
    else s
  | some (.working size proposals) =>
    let rest := proposals.drop size
    if s.raftOpen || (proposals.take size).isEmpty then
      (s.setGroup q (if rest.isEmpty then none else some (.working size rest))).processSingleBatch
        throughput (proposals.take size)
    else
      { s.setGroup q none with dropped := s.dropped ++ rest }.failBatch (proposals.take size)

theorem expired_scan_of_fresh {config : OptimizedBatchConfig} {clock : ℕ → ℕ} {looks : ℕ → ℕ → ℕ}
    {i : ℕ} {batches : List (OptimizedProposalBatch P)} (h : ∀ x ∈ batches.zipIdx i,
      x.1.shouldFlush pf config (clock x.2) = .ok false → x.1.Fresh (looks x.2)) :
    (scan pf config clock looks i batches).expired = [] := by
  induction batches generalizing i with
  | nil => rfl
  | cons b batches ih =>
    obtain ⟨hb, hrest⟩ := forall_mem_cons.1 h
    unfold scan
    rcases hf : b.shouldFlush pf config (clock i) with failure | _ | _
    · rfl
    · have hnone : (b.removeExpired (looks i)).2 = [] :=
        OptimizedProposalBatch.expired_of_fresh (hb hf)
      simp only [hnone, ih hrest, nil_append]
    · exact ih hrest

theorem expired_of_all_fresh {looks : ℕ → ℕ → ℕ} {i : ℕ} {batches : List (OptimizedProposalBatch P)}
    (h : ∀ x ∈ batches.zipIdx i, x.1.Fresh (looks x.2)) :
    (removeAllExpired looks i batches).2 = [] := by
  induction batches generalizing i with
  | nil => rfl
  | cons b batches ih =>
    obtain ⟨hb, hrest⟩ := forall_mem_cons.1 h
    have hnone : (b.removeExpired (looks i)).2 = [] := OptimizedProposalBatch.expired_of_fresh hb
    simp only [removeAllExpired, hnone, ih hrest, nil_append]

/-! ## Runs -/

/-- `run_passthrough_mode`, for one proposal. -/
def passThrough (p : EnhancedRaftProposal P) : OptimizedRaftBatchProcessor P :=
  if s.raftOpen then { s with received := s.received ++ [p], sent := s.sent ++ [[p]] }
  else { s with received := s.received ++ [p], dropped := s.dropped ++ [p] }

/-- `run`, one event after another; the task that removes expired proposals goes on when the
    loop has ended. -/
def step (s : OptimizedRaftBatchProcessor P) : BatchProcessorEvent P → OptimizedRaftBatchProcessor P
  | .proposal p created checked throughput =>
    if s.halted then s
    else if !s.config.enabled then s.passThrough p
    else if s.config.enableStreaming then s
    else s.receive pf p created checked throughput
  | .tick clock looks ages throughput order _ =>
    if s.halted || !s.config.enabled || s.config.enableStreaming then s
    else s.flushReadyBatches pf clock looks ages throughput order
  | .cleanup looks => if s.config.enabled then s.cleanup looks else s
  | .chunk proposals =>
    if s.halted || !s.config.enabled || !s.config.enableStreaming then s
    else s.processProposalChunk proposals
  | .turn q throughput =>
    if s.halted || !s.config.enabled || !s.config.enableStreaming then s
    else s.processPriorityGroup maxCapacity q throughput
  | .close => { s with raftOpen := false }

/-- The loop of traditional mode runs. -/
structure Traditional : Prop where
  running : s.halted = false
  enabled : s.config.enabled = true
  mode : s.config.enableStreaming = false

/-- The loop of streaming mode runs. -/
structure Streaming : Prop where
  running : s.halted = false
  enabled : s.config.enabled = true
  mode : s.config.enableStreaming = true

inductive Does : BatchProcessorEvent P → OptimizedRaftBatchProcessor P → Prop where
  | nothing {event} : Does event s
  | passThrough {p created checked throughput} (h : s.config.enabled = false) :
    Does (.proposal p created checked throughput) (s.passThrough p)
  | receive {p created checked throughput} (h : s.Traditional) :
    Does (.proposal p created checked throughput) (s.receive pf p created checked throughput)
  | tick {clock looks ages throughput order perm} (h : s.Traditional) :
    Does (.tick clock looks ages throughput order perm)
      (s.flushReadyBatches pf clock looks ages throughput order)
  | cleanup {looks} (h : s.config.enabled = true) : Does (.cleanup looks) (s.cleanup looks)
  | chunk {proposals} (h : s.Streaming) : Does (.chunk proposals) (s.processProposalChunk proposals)
  | turn {q throughput} (h : s.Streaming) :
    Does (.turn q throughput) (s.processPriorityGroup maxCapacity q throughput)
  | close : Does .close { s with raftOpen := false }

variable {s} in
theorem Streaming.of_not
    (h : ¬ (s.halted || !s.config.enabled || !s.config.enableStreaming) = true) : s.Streaming := by
  simp only [Bool.or_eq_true, Bool.not_eq_true', not_or, Bool.not_eq_false, Bool.not_eq_true] at h
  exact ⟨h.1.1, h.1.2, h.2⟩

theorem does_step (event : BatchProcessorEvent P) :
    s.Does pf maxCapacity event (s.step pf maxCapacity event) := by
  fun_cases step pf maxCapacity s event with
  | case2 p created chk tp hl he =>
    exact .passThrough (by simpa using he)
  | case4 p created chk tp hl he hmode =>
    exact .receive ⟨by simpa using hl, by simpa using he, by simpa using hmode⟩
  | case6 clock looks ages tp order perm h =>
    simp only [Bool.or_eq_true, Bool.not_eq_true', not_or, Bool.not_eq_false,
      Bool.not_eq_true] at h
    exact .tick ⟨h.1.1, h.1.2, h.2⟩
  | case7 _ hn => exact .cleanup hn
  | case10 _ h => exact .chunk (.of_not h)
  | case12 _ _ h => exact .turn (.of_not h)
  | case13 => exact .close
  | case1 | case3 | case5 | case8 | case9 | case11 => exact .nothing

section
variable {s} {pf} {maxCapacity}

theorem step_tick (h : s.Traditional) (clock : ℕ → ℕ) (looks : ℕ → ℕ → ℕ)
    (ages : EnhancedRaftProposal P → ℕ) (tp : OptimizedProposalBatch P → ℕ)
    (order : List (OptimizedProposalBatch P) → List (OptimizedProposalBatch P))
    (perm : ∀ bs, (order bs).Perm bs) :
    s.step pf maxCapacity (.tick clock looks ages tp order perm) =
      s.flushReadyBatches pf clock looks ages tp order := by
  simp [step, h.running, h.enabled, h.mode]

theorem step_turn (h : s.Streaming) (q : ProposalPriority) (throughput : ℕ) :
    s.step pf maxCapacity (.turn q throughput) =
      s.processPriorityGroup maxCapacity q throughput := by
  simp [step, h.running, h.enabled, h.mode]

end

def accept (p : EnhancedRaftProposal P) : OptimizedRaftBatchProcessor P :=
  { s with
    received := s.received ++ [p]
    pendingProposals := (s.pendingProposals + 1) % 2 ^ 64 }

inductive Receives (p : EnhancedRaftProposal P) (created checked throughput : ℕ) :
    OptimizedRaftBatchProcessor P → Prop where
  | refused (h : s.refuses = true) : Receives p created checked throughput
      { s with received := s.received ++ [p], dropped := s.dropped ++ [p] }
  | panicked {failure} (hopen : s.refuses = false)
      (h : (place created p s.priorityBatches).2.1.shouldFlush pf s.config checked =
        .error failure) :
    Receives p created checked throughput
      { s.accept p with
        priorityBatches := (place created p s.priorityBatches).1 ++
          (place created p s.priorityBatches).2.1 :: (place created p s.priorityBatches).2.2
        halted := true }
  | kept (hopen : s.refuses = false)
      (h : (place created p s.priorityBatches).2.1.shouldFlush pf s.config checked = .ok false) :
    Receives p created checked throughput
      { s.accept p with
        priorityBatches := (place created p s.priorityBatches).1 ++
          (place created p s.priorityBatches).2.1 :: (place created p s.priorityBatches).2.2 }
  | flushed (hopen : s.refuses = false)
      (h : (place created p s.priorityBatches).2.1.shouldFlush pf s.config checked = .ok true) :
    Receives p created checked throughput
      ({ s.accept p with
        priorityBatches := (place created p s.priorityBatches).1 ++
          (place created p s.priorityBatches).2.2 }.processSingleBatch throughput
        (place created p s.priorityBatches).2.1.proposals)

theorem receives_receive (p : EnhancedRaftProposal P) (created chk tp : ℕ) :
    s.Receives pf p created chk tp (s.receive pf p created chk tp) := by
  unfold receive addToPriorityBatch
  cases hr : s.refuses with
  | true =>
    rw [if_pos (show refuses { s with received := s.received ++ [p] } = true from hr)]
    exact .refused hr
  | false =>
    rw [if_neg (show ¬ refuses { s with received := s.received ++ [p] } = true by
      rw [show refuses { s with received := s.received ++ [p] } = false from hr]
      exact Bool.false_ne_true)]
    dsimp only
    rcases hf : (place created p s.priorityBatches).2.1.shouldFlush pf s.config chk with
      failure | _ | _
    · exact .panicked hr hf
    · exact .kept hr hf
    · exact .flushed hr hf

/-! ## Conservation -/

def waiting : List (EnhancedRaftProposal P) := s.priorityBatches.flatMap (·.proposals)

def remaining (q : ProposalPriority) : List (EnhancedRaftProposal P) :=
  ((s.groups q).map PriorityGroup.proposals).getD []

def inWork : List (EnhancedRaftProposal P) := allPriorities.flatMap s.remaining

def total : Multiset (EnhancedRaftProposal P) :=
  Multiset.ofList s.sent.flatten + s.waiting + s.inWork + s.answered.map Prod.fst + s.dropped

variable {s} {pf} {maxCapacity}

section processSingleBatch
variable {throughput : ℕ} {batch : List (EnhancedRaftProposal P)}

@[simp] theorem config_processSingleBatch :
    (s.processSingleBatch throughput batch).config = s.config := by
  unfold processSingleBatch failBatch
  split_ifs <;> rfl

@[simp] theorem priorityBatches_processSingleBatch :
    (s.processSingleBatch throughput batch).priorityBatches = s.priorityBatches := by
  unfold processSingleBatch failBatch
  split_ifs <;> rfl

@[simp] theorem groups_processSingleBatch :
    (s.processSingleBatch throughput batch).groups = s.groups := by
  unfold processSingleBatch failBatch
  split_ifs <;> rfl

@[simp] theorem halted_processSingleBatch :
    (s.processSingleBatch throughput batch).halted = s.halted := by
  unfold processSingleBatch failBatch
  split_ifs <;> rfl

@[simp] theorem received_processSingleBatch :
    (s.processSingleBatch throughput batch).received = s.received := by
  unfold processSingleBatch failBatch
  split_ifs <;> rfl

theorem received_failBatch : (s.failBatch batch).received = s.received := by
  unfold failBatch
  split_ifs <;> rfl

theorem total_failBatch : (s.failBatch batch).total = s.total + batch := by
  unfold failBatch
  split_ifs
  · simp only [total, ← coe_add]
    exact (add_assoc ..).symm
  · have hc : (batch.map fun p =>
        (p, BlixardError.internal "Batch response channel dropped")).map Prod.fst = batch := by
      simp [Function.comp_def]
    simp only [total, map_append, hc, ← coe_add]
    change _ + ofList s.waiting + ofList s.inWork + _ + _ = _
    abel

theorem total_processSingleBatch :
    (s.processSingleBatch throughput batch).total = s.total + batch := by
  unfold processSingleBatch
  split_ifs with he
  · simp [isEmpty_iff.1 he]
  · simp only [total, flatten_append, flatten_singleton, ← coe_add]
    change _ + _ + ofList s.waiting + ofList s.inWork + _ + _ = _
    abel
  · exact total_failBatch

end processSingleBatch

variable (tp : OptimizedProposalBatch P → ℕ) (q q' : ProposalPriority) (now : ℕ → ℕ)

theorem splitExpired_coe (n : ℕ) (ps : List (EnhancedRaftProposal P)) :
    ((OptimizedProposalBatch.splitExpired now n ps).2 : Multiset (EnhancedRaftProposal P)) +
      (OptimizedProposalBatch.splitExpired now n ps).1 = ps := by
  induction ps generalizing n with
  | nil => rfl
  | cons p ps ih =>
    unfold OptimizedProposalBatch.splitExpired
    dsimp only
    split_ifs
    · rw [← cons_coe, ← cons_coe, add_cons, ih]
    · rw [← cons_coe, ← cons_coe, cons_add, ih]

theorem removeExpired_coe (b : OptimizedProposalBatch P) :
    ((b.removeExpired now).1.proposals : Multiset (EnhancedRaftProposal P)) +
      (b.removeExpired now).2 = b.proposals :=
  splitExpired_coe now 0 b.proposals

theorem place_coe (created : ℕ) (p : EnhancedRaftProposal P)
    (bs : List (OptimizedProposalBatch P)) :
    let r := place created p bs
    ofList ((r.1 ++ r.2.1 :: r.2.2).flatMap (·.proposals)) =
      bs.flatMap (·.proposals) + {p} := by
  induction bs with
  | nil => simp [place, OptimizedProposalBatch.new, OptimizedProposalBatch.add]
  | cons b bs ih =>
    unfold place
    split_ifs
    · simp only [nil_append, flatMap_cons, OptimizedProposalBatch.add, ← coe_add,
        coe_singleton]
      abel
    · simp only [cons_append, flatMap_cons, ← coe_add] at ih ⊢
      rw [ih, add_assoc]

theorem scan_coe (cfg : OptimizedBatchConfig) (clock : ℕ → ℕ) (looks : ℕ → ℕ → ℕ) (i : ℕ)
    (bs : List (OptimizedProposalBatch P)) :
    let r := scan pf cfg clock looks i bs
    ofList (r.kept.flatMap (·.proposals)) + r.toFlush.flatMap (·.proposals) + r.expired =
      bs.flatMap (·.proposals) := by
  induction bs generalizing i with
  | nil => rfl
  | cons b bs ih =>
    unfold scan
    rcases b.shouldFlush pf cfg (clock i) with _ | _ | _
    · simp
    · have hrem := removeExpired_coe (looks i) b
      simp only [flatMap_cons, ← coe_add, ← ih (i + 1), ← hrem]
      abel
    · simp only [flatMap_cons, ← coe_add, ← ih (i + 1)]
      abel

theorem removeAllExpired_coe (looks : ℕ → ℕ → ℕ) (i : ℕ) (bs : List (OptimizedProposalBatch P)) :
    ofList ((removeAllExpired looks i bs).1.flatMap (·.proposals)) +
      (removeAllExpired looks i bs).2 = bs.flatMap (·.proposals) := by
  induction bs generalizing i with
  | nil => rfl
  | cons b bs ih =>
    have hrem := removeExpired_coe (looks i) b
    simp only [removeAllExpired, flatMap_cons, ← coe_add, ← ih (i + 1), ← hrem]
    abel

theorem total_processBatches
    (bs : List (OptimizedProposalBatch P)) (s : OptimizedRaftBatchProcessor P) :
    (s.processBatches tp bs).total = s.total + bs.flatMap (·.proposals) := by
  induction bs generalizing s with
  | nil => simp [processBatches]
  | cons b bs ih =>
    rw [processBatches, List.foldl_cons, ← processBatches, ih, total_processSingleBatch,
      List.flatMap_cons, ← Multiset.coe_add, add_assoc]

@[simp] theorem received_processBatches
    (bs : List (OptimizedProposalBatch P)) (s : OptimizedRaftBatchProcessor P) :
    (s.processBatches tp bs).received = s.received :=
  Run.foldl_keeps (P := fun s' : OptimizedRaftBatchProcessor P => s'.received = s.received)
    (fun _ _ h => received_processSingleBatch.trans h) rfl bs

theorem frame_processBatches
    (bs : List (OptimizedProposalBatch P)) (s : OptimizedRaftBatchProcessor P) :
    let s' := s.processBatches tp bs
    s'.config = s.config ∧ s'.groups = s.groups ∧ s'.halted = s.halted ∧
      s'.priorityBatches = s.priorityBatches :=
  Run.foldl_keeps (P := fun s' : OptimizedRaftBatchProcessor P => s'.config = s.config ∧
      s'.groups = s.groups ∧ s'.halted = s.halted ∧ s'.priorityBatches = s.priorityBatches)
    (fun _ _ h => ⟨config_processSingleBatch.trans h.1, groups_processSingleBatch.trans h.2.1,
      halted_processSingleBatch.trans h.2.2.1, priorityBatches_processSingleBatch.trans h.2.2.2⟩)
    ⟨rfl, rfl, rfl, rfl⟩ bs

def Conserved (s : OptimizedRaftBatchProcessor P) : Prop :=
  Multiset.ofList s.received = s.total

theorem total_of_waiting {s' : OptimizedRaftBatchProcessor P}
    {x y : Multiset (EnhancedRaftProposal P)} (hsent : s'.sent = s.sent)
    (hg : s'.groups = s.groups) (hans : s'.answered = s.answered) (hd : s'.dropped = s.dropped)
    (hw : ofList s'.waiting + x = ofList s.waiting + y) : s'.total + x = s.total + y := by
  have hr : s'.remaining = s.remaining := by
    funext q
    rw [remaining, hg, remaining]
  simp only [total, inWork, hsent, hans, hd, hr]
  rw [add_right_comm _ (ofList s'.waiting), add_right_comm _ (ofList s'.waiting),
    add_right_comm _ (ofList s'.waiting), add_assoc _ (ofList s'.waiting),
    hw]
  abel

theorem conserved_receive (h : Conserved s) (p : EnhancedRaftProposal P)
    (created chk tp : ℕ) : Conserved (s.receive pf p created chk tp) := by
  have hp := place_coe created p s.priorityBatches
  have hrec := receives_receive pf s p created chk tp
  have hr : ofList (s.received ++ [p]) = s.total + {p} := by
    rw [← coe_add, h, coe_singleton]
  unfold Conserved
  generalize s.receive pf p created chk tp = s' at hrec
  cases hrec with
  | refused =>
    refine hr.trans ?_
    simp only [total, waiting, inWork, ← coe_add, coe_singleton]
    exact (add_assoc _ _ _)
  | panicked | kept =>
    refine hr.trans (Eq.symm ?_)
    rw [← add_zero (total _)]
    exact total_of_waiting (by rfl) (by rfl) (by rfl) (by rfl) (by rw [add_zero]; exact hp)
  | flushed =>
    rw [received_processSingleBatch, total_processSingleBatch]
    refine hr.trans (Eq.symm ?_)
    refine total_of_waiting (by rfl) (by rfl) (by rfl) (by rfl) ?_
    simp only [flatMap_append, flatMap_cons, ← coe_add] at hp
    simp only [waiting, flatMap_append, ← coe_add]
    rw [← hp]
    abel

theorem conserved_flushReadyBatches (h : Conserved s) (clock : ℕ → ℕ) (looks : ℕ → ℕ → ℕ)
    (ages : EnhancedRaftProposal P → ℕ) (tp : OptimizedProposalBatch P → ℕ)
    {order : List (OptimizedProposalBatch P) → List (OptimizedProposalBatch P)}
    (perm : ∀ bs, (order bs).Perm bs) :
    Conserved (s.flushReadyBatches pf clock looks ages tp order) := by
  let r := scan pf s.config clock looks 0 s.priorityBatches
  have hscan : ofList (r.kept.flatMap (·.proposals)) + r.toFlush.flatMap (·.proposals) +
      r.expired = s.waiting := scan_coe s.config clock looks 0 s.priorityBatches
  have hans : s.total = (s.answerExpired r ages).total + r.toFlush.flatMap (·.proposals) := by
    have hmap : (s.answerExpired r ages).answered.map Prod.fst =
        s.answered.map Prod.fst ++ r.expired := by
      simp [answerExpired, Function.comp_def]
    rw [total, total, hmap, ← hscan, ← coe_add]
    change _ = ofList s.sent.flatten +
      ofList (r.kept.flatMap OptimizedProposalBatch.proposals) + ofList s.inWork +
      (ofList (s.answered.map Prod.fst) + ofList r.expired) +
      ofList s.dropped + _
    abel
  unfold Conserved at h ⊢
  unfold flushReadyBatches
  dsimp only
  split_ifs
  · refine h.trans (hans.trans ?_)
    simp only [total, ← coe_add]
    exact add_assoc _ _ _
  · rw [received_processBatches, total_processBatches,
      coe_eq_coe.2 ((perm r.toFlush).flatMap_right _)]
    exact h.trans hans

theorem conserved_cleanup (h : Conserved s) (looks : ℕ → ℕ → ℕ) : Conserved (s.cleanup looks) := by
  have hrem := removeAllExpired_coe looks 0 s.priorityBatches
  unfold Conserved at h ⊢
  refine h.trans ?_
  change _ = ofList s.sent.flatten +
    ofList ((removeAllExpired looks 0 s.priorityBatches).1.flatMap
      OptimizedProposalBatch.proposals) + ofList s.inWork +
    ofList (s.answered.map Prod.fst) +
    ofList (s.dropped ++ (removeAllExpired looks 0 s.priorityBatches).2)
  rw [total, waiting, ← hrem, ← coe_add]
  abel

theorem nodup_allPriorities : allPriorities.Nodup := by decide

theorem mem_allPriorities : q ∈ allPriorities := by
  cases q <;> decide

theorem proposals_groupOf (ps : List (EnhancedRaftProposal P)) :
    ((groupOf ps q).map PriorityGroup.proposals).getD [] = ps.filter fun p => p.priority = q := by
  unfold groupOf
  dsimp only
  rw [groupBy_apply]
  split_ifs with he
  · exact (isEmpty_iff.1 he).symm
  · rfl

theorem remaining_of_idle (h : s.idle = true) (q : ProposalPriority) : s.remaining q = [] := by
  have hnone : s.groups q = none := by simpa using all_eq_true.1 h q (mem_allPriorities q)
  rw [remaining, hnone]
  rfl

theorem conserved_processProposalChunk (h : Conserved s)
    (proposals : List (EnhancedRaftProposal P)) : Conserved (s.processProposalChunk proposals) := by
  unfold processProposalChunk
  split_ifs with hidle
  · have hb : s.inWork = [] :=
      flatMap_eq_nil_iff.2 fun q _ => remaining_of_idle hidle.1 q
    have ha : (allPriorities.flatMap fun q =>
        ((groupOf proposals q).map PriorityGroup.proposals).getD []).Perm proposals := by
      simp only [proposals_groupOf, ← groupBy_apply]
      exact flatMap_groupBy_perm nodup_allPriorities
        fun p _ => mem_allPriorities p.priority
    unfold Conserved at h ⊢
    change ofList (s.received ++ proposals) = ofList s.sent.flatten +
      ofList s.waiting + ofList (allPriorities.flatMap fun q =>
        ((groupOf proposals q).map PriorityGroup.proposals).getD []) +
      ofList (s.answered.map Prod.fst) + ofList s.dropped
    rw [← coe_add, h, total, hb, coe_eq_coe.2 ha, coe_nil]
    abel
  · exact h

theorem remaining_of_group {q : ProposalPriority} {group : PriorityGroup P}
    (h : s.groups q = some group) : s.remaining q = group.proposals := by
  rw [remaining, h]
  rfl

theorem groups_setGroup (group : Option (PriorityGroup P)) :
    (s.setGroup q group).groups q' = if q' = q then group else s.groups q' :=
  Function.update_apply ..

theorem remaining_setGroup (group : Option (PriorityGroup P)) : (s.setGroup q group).remaining q' =
      if q' = q then (group.map PriorityGroup.proposals).getD [] else s.remaining q' := by
  rw [remaining, groups_setGroup]
  split_ifs <;> rfl

theorem inWork_setGroup (group : Option (PriorityGroup P)) :
    ofList (s.setGroup q group).inWork + s.remaining q =
      ofList s.inWork + ((group.map PriorityGroup.proposals).getD [] : List _) := by
  simp only [inWork, allPriorities, flatMap_cons, flatMap_nil, remaining_setGroup,
    ← coe_add]
  cases q <;> simp only [reduceCtorEq, if_true, if_false] <;> abel

theorem total_setGroup (group : Option (PriorityGroup P)) :
    (s.setGroup q group).total + s.remaining q =
      s.total + ((group.map PriorityGroup.proposals).getD [] : List _) := by
  have hi := inWork_setGroup (s := s) q group
  calc (s.setGroup q group).total + s.remaining q
      = ofList s.sent.flatten + s.waiting + s.answered.map Prod.fst + s.dropped +
          (ofList (s.setGroup q group).inWork + s.remaining q) := by
        change ofList s.sent.flatten + ofList s.waiting +
          ofList (s.setGroup q group).inWork + ofList (s.answered.map Prod.fst) +
          ofList s.dropped + ofList (s.remaining q) = _
        abel
    _ = _ := by
        rw [hi, total]
        abel

theorem conserved_processPriorityGroup (h : Conserved s) (q : ProposalPriority)
    (throughput : ℕ) : Conserved (s.processPriorityGroup maxCapacity q throughput) := by
  have hs {size : ℕ} {proposals : List (EnhancedRaftProposal P)} :
      ofList (proposals.take size) + proposals.drop size = proposals := by
    rw [coe_add, take_append_drop]
  fun_cases processPriorityGroup maxCapacity s q throughput with
  | case1 | case2 | case3 | case5 => exact h
  | case4 proposals hg hp size hsize hfits =>
    refine Eq.trans h (add_right_cancel (b := ofList (s.remaining q)) ?_)
    rw [total_setGroup, remaining_of_group hg]
    rfl
  | case6 size proposals hg rest hn =>
    have hrest : ((if rest.isEmpty then none else some (PriorityGroup.working size rest)).map
        PriorityGroup.proposals).getD [] = proposals.drop size := by
      split_ifs with he
      · exact (isEmpty_iff.1 he).symm
      · rfl
    unfold Conserved
    rw [received_processSingleBatch, total_processSingleBatch]
    refine Eq.trans h (add_right_cancel (b := ofList (s.remaining q)) ?_)
    rw [add_right_comm, total_setGroup, hrest, remaining_of_group hg, add_assoc,
      add_comm (ofList (proposals.drop size)), hs]
    rfl
  | case7 size proposals hg rest hn =>
    have hlost : total { s.setGroup q none with dropped := s.dropped ++ rest } =
        (s.setGroup q none).total + rest := by
      simp only [total, ← coe_add]
      exact (add_assoc ..).symm
    unfold Conserved
    rw [received_failBatch, total_failBatch, hlost]
    refine Eq.trans h (add_right_cancel (b := ofList (s.remaining q)) ?_)
    rw [add_right_comm, add_right_comm _ (ofList rest), total_setGroup, remaining_of_group hg]
    change s.total + ofList proposals = s.total + 0 + ofList rest + ofList (proposals.take size)
    rw [add_zero, add_assoc, add_comm (ofList rest), hs]

theorem conserved_passThrough (h : Conserved s) (p : EnhancedRaftProposal P) :
    Conserved (s.passThrough p) := by
  unfold Conserved at h ⊢
  unfold passThrough
  split_ifs
  · change ofList (s.received ++ [p]) = ofList (s.sent ++ [[p]]).flatten +
      ofList s.waiting + ofList s.inWork + ofList (s.answered.map Prod.fst) + ofList s.dropped
    rw [flatten_append, flatten_singleton, ← coe_add, ← coe_add, h, total]
    abel
  · change ofList (s.received ++ [p]) = ofList s.sent.flatten + ofList s.waiting +
      ofList s.inWork + ofList (s.answered.map Prod.fst) + ofList (s.dropped ++ [p])
    rw [← coe_add, ← coe_add, h, total]
    abel

/-- **Nothing is lost or doubled**: every proposal that is received is sent in one batch, held,
    answered or dropped. -/
theorem conserved (cfg : OptimizedBatchConfig) (evs : List (BatchProcessorEvent P)) :
    Conserved (evs.foldl (step pf maxCapacity) (start maxCapacity cfg)) := by
  have hs : Conserved (start (P := P) maxCapacity cfg) := rfl
  refine Run.foldl_keeps (fun s event h => ?_) hs evs
  have hdoes := does_step pf maxCapacity s event
  generalize s.step pf maxCapacity event = s' at hdoes ⊢
  cases hdoes with
  | nothing => exact h
  | passThrough => exact conserved_passThrough h _
  | receive => exact conserved_receive h _ _ _ _
  | @tick clock looks ages throughput order perm =>
    exact conserved_flushReadyBatches h clock looks ages throughput perm
  | cleanup => exact conserved_cleanup h _
  | chunk => exact conserved_processProposalChunk h _
  | turn => exact conserved_processPriorityGroup h _ _
  | close => exact h

end OptimizedRaftBatchProcessor

end Blixard
