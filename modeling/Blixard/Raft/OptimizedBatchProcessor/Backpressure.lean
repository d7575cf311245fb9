/-
  The counter of the optimized batch processor.

  It is too high by the proposals that have expired and by those that could not be sent, and the
  first batch of streaming mode takes it below zero (`counter_right_along`).
-/
import Blixard.Raft.OptimizedBatchProcessor

namespace Blixard

open ProposalPriority OptimizedProposalBatch List Multiset

namespace OptimizedRaftBatchProcessor

variable {P : Type} {pf : Platform} {maxCapacity : ℕ} {s : OptimizedRaftBatchProcessor P}

/-- When nothing is being processed, the counter says how many proposals wait, and it was never
    below zero. -/
structure CounterRight (s : OptimizedRaftBatchProcessor P) : Prop where
  notWrapped : s.wrapped = false
  counts : s.halted = false → s.idle = true → s.pendingProposals = s.waiting.length

/-- Backpressure refuses a proposal only if so many are waiting. -/
def RefusesRightly (s : OptimizedRaftBatchProcessor P) : Prop :=
  s.Traditional → s.refuses = true → s.config.maxPendingProposals ≤ s.waiting.length

/-- In traditional mode the channel to Raft is open when a proposal is accepted or a tick comes,
    nothing expires in the background task or in a batch that is not due at a tick, and the counter
    has room; in streaming mode nothing is sent. -/
def Tallied (pf : Platform) (s : OptimizedRaftBatchProcessor P) : BatchProcessorEvent P → Prop
  | .proposal _ _ _ _ => s.Traditional → s.refuses = false →
    s.raftOpen = true ∧ s.waiting.length + 1 < 2 ^ 64
  | .tick clock looks _ _ _ _ => s.Traditional → s.raftOpen = true ∧
    ∀ x ∈ s.priorityBatches.zipIdx, x.1.shouldFlush pf s.config (clock x.2) = .ok false →
      x.1.Fresh (looks x.2)
  | .cleanup looks => s.Traditional → ∀ x ∈ s.priorityBatches.zipIdx, x.1.Fresh (looks x.2)
  | .turn q _ => s.Streaming → s.raftOpen = true → ∀ size proposals,
    s.groups q = some (.working size proposals) → proposals.take size = []
  | .chunk _ | .close => True

/-! ## The counter -/

theorem decrementBy_of_le {n counter : ℕ} (hle : n ≤ counter) (hs : counter < 2 ^ 64) :
    decrementBy n counter = counter - n := by
  unfold decrementBy
  omega

section processSingleBatch
variable {throughput : ℕ} {batch : List (EnhancedRaftProposal P)}

@[simp] theorem raftOpen_processSingleBatch :
    (s.processSingleBatch throughput batch).raftOpen = s.raftOpen := by
  unfold processSingleBatch failBatch
  split_ifs <;> rfl

/-- What is sent is taken off the counter. -/
theorem counter_processSingleBatch (hopen : s.raftOpen = true)
    (hle : batch.length ≤ s.pendingProposals) (hs : s.pendingProposals < 2 ^ 64) :
    (s.processSingleBatch throughput batch).pendingProposals = s.pendingProposals - batch.length ∧
      (s.processSingleBatch throughput batch).wrapped = s.wrapped := by
  unfold processSingleBatch
  rw [if_pos hopen]
  split_ifs with he
  · rw [isEmpty_iff.1 he, length_nil, Nat.sub_zero]
    exact ⟨rfl, rfl⟩
  · refine ⟨decrementBy_of_le hle hs, ?_⟩
    rw [decide_eq_false (Nat.not_lt.2 hle), Bool.or_false]

end processSingleBatch

theorem counter_processBatches (throughput : OptimizedProposalBatch P → ℕ)
    (batches : List (OptimizedProposalBatch P)) (s : OptimizedRaftBatchProcessor P)
    (hopen : s.raftOpen = true) (hle : (batches.flatMap (·.proposals)).length ≤ s.pendingProposals)
    (hs : s.pendingProposals < 2 ^ 64) :
    (s.processBatches throughput batches).pendingProposals =
        s.pendingProposals - (batches.flatMap (·.proposals)).length ∧
      (s.processBatches throughput batches).wrapped = s.wrapped := by
  induction batches generalizing s with
  | nil => exact ⟨rfl, rfl⟩
  | cons b batches ih =>
    rw [List.flatMap_cons, List.length_append] at hle ⊢
    obtain ⟨hp, hw⟩ := @counter_processSingleBatch P s (throughput b) b.proposals hopen
      (Nat.le_of_add_right_le hle) hs
    obtain ⟨hrest, hw'⟩ := ih (s.processSingleBatch (throughput b) b.proposals)
      (raftOpen_processSingleBatch.trans hopen) (by omega) (by omega)
    rw [processBatches, List.foldl_cons, ← processBatches]
    exact ⟨by omega, hw'.trans hw⟩

/-! ## What every step keeps -/

/-- **What holds in every state**: the counter fits its type, was never below zero, and says how many
    proposals wait, of which streaming mode has none. -/
structure Counted (s : OptimizedRaftBatchProcessor P) : Prop where
  notWrapped : s.wrapped = false
  counts : s.halted = false → s.pendingProposals = s.waiting.length
  small : s.pendingProposals < 2 ^ 64
  noBatches : s.config.enableStreaming = true → s.priorityBatches = []

theorem counted_start (config : OptimizedBatchConfig) :
    Counted (start (P := P) maxCapacity config) where
  notWrapped := rfl
  counts _ := rfl
  small := Nat.two_pow_pos 64
  noBatches _ := rfl

theorem length_place (created : ℕ) (p : EnhancedRaftProposal P)
    (bs : List (OptimizedProposalBatch P)) :
    let r := place created p bs
    (r.1.flatMap (·.proposals)).length + r.2.1.proposals.length +
      (r.2.2.flatMap (·.proposals)).length = (bs.flatMap (·.proposals)).length + 1 := by
  have hcard := congrArg card (place_coe created p bs)
  simpa [add_assoc] using hcard

theorem length_scan (pf : Platform) (cfg : OptimizedBatchConfig) (clock : ℕ → ℕ)
    (looks : ℕ → ℕ → ℕ) (i : ℕ) (bs : List (OptimizedProposalBatch P)) :
    let r := scan pf cfg clock looks i bs
    (r.kept.flatMap (·.proposals)).length + (r.toFlush.flatMap (·.proposals)).length +
      r.expired.length = (bs.flatMap (·.proposals)).length := by
  have hcard := congrArg card (@scan_coe P pf cfg clock looks i bs)
  simpa only [card_add, coe_card] using hcard

theorem length_removeAllExpired (looks : ℕ → ℕ → ℕ) (i : ℕ) (bs : List (OptimizedProposalBatch P)) :
    ((removeAllExpired looks i bs).1.flatMap (·.proposals)).length +
      (removeAllExpired looks i bs).2.length = (bs.flatMap (·.proposals)).length := by
  have hcard := congrArg card (removeAllExpired_coe looks i bs)
  simpa only [card_add, coe_card] using hcard

theorem counted_receive (h : Counted s) (hmode : s.Traditional)
    (hroom : s.refuses = false → s.raftOpen = true ∧ s.waiting.length + 1 < 2 ^ 64)
    (p : EnhancedRaftProposal P) (created checked throughput : ℕ) :
    Counted (s.receive pf p created checked throughput) := by
  have hr := receives_receive pf s p created checked throughput
  have hp : s.pendingProposals = s.waiting.length := h.counts hmode.running
  have hl : _ = s.waiting.length + 1 := length_place created p s.priorityBatches
  have hb (hon : s.config.enableStreaming = true) (batches : List (OptimizedProposalBatch P)) :
      batches = [] := absurd hon (by rw [hmode.mode]; exact Bool.false_ne_true)
  have hs : (s.pendingProposals + 1) % 2 ^ 64 < 2 ^ 64 := Nat.mod_lt _ (Nat.two_pow_pos 64)
  generalize s.receive pf p created checked throughput = s' at hr ⊢
  cases hr with
  | refused => exact { h with }
  | panicked => exact ⟨h.notWrapped, nofun, hs, fun hon => hb hon _⟩
  | kept hopen =>
    obtain ⟨-, hfits⟩ := hroom hopen
    generalize place created p s.priorityBatches = r at hl ⊢
    have hw : ((r.1 ++ r.2.1 :: r.2.2).flatMap (·.proposals)).length =
        s.waiting.length + 1 := by
      rw [← hl]
      simp [add_assoc]
    refine ⟨h.notWrapped, fun _ => Eq.trans ?_ hw.symm, hs, fun hon => hb hon _⟩
    change (s.pendingProposals + 1) % 2 ^ 64 = _
    rw [hp]
    exact Nat.mod_eq_of_lt hfits
  | flushed hopen hf =>
    obtain ⟨hraft, hfits⟩ := hroom hopen
    generalize place created p s.priorityBatches = r at hl ⊢
    have ha : (s.pendingProposals + 1) % 2 ^ 64 = s.waiting.length + 1 := by omega
    obtain ⟨hc, hd⟩ := @counter_processSingleBatch P
      { s.accept p with priorityBatches := r.1 ++ r.2.2 } throughput r.2.1.proposals hraft
      (by change _ ≤ (s.pendingProposals + 1) % 2 ^ 64; omega) hs
    have hleft : (s.pendingProposals + 1) % 2 ^ 64 - r.2.1.proposals.length =
        ((r.1 ++ r.2.2).flatMap (·.proposals)).length := by
      rw [ha, ← hl, flatMap_append, length_append]
      omega
    refine ⟨hd.trans h.notWrapped, fun _ => ?_, ?_, fun hon => ?_⟩
    · rw [waiting, priorityBatches_processSingleBatch]
      exact hc.trans hleft
    · rw [hc]
      exact Nat.lt_of_le_of_lt (Nat.sub_le _ _) hs
    · rw [config_processSingleBatch] at hon
      exact hb hon _

theorem counted_flushReadyBatches (h : Counted s) (hmode : s.Traditional)
    (hraft : s.raftOpen = true) {clock : ℕ → ℕ} {looks : ℕ → ℕ → ℕ}
    (hnone : (scan pf s.config clock looks 0 s.priorityBatches).expired = [])
    (ages : EnhancedRaftProposal P → ℕ) (throughput : OptimizedProposalBatch P → ℕ)
    {order : List (OptimizedProposalBatch P) → List (OptimizedProposalBatch P)}
    (perm : ∀ batches, (order batches).Perm batches) :
    Counted (s.flushReadyBatches pf clock looks ages throughput order) := by
  have hp : s.pendingProposals = s.waiting.length := h.counts hmode.running
  have hl : _ = s.waiting.length := length_scan pf s.config clock looks 0 s.priorityBatches
  have hoff : ¬ s.config.enableStreaming = true := by
    rw [hmode.mode]
    exact Bool.false_ne_true
  unfold flushReadyBatches
  dsimp only
  generalize scan pf s.config clock looks 0 s.priorityBatches = r at hl hnone ⊢
  split_ifs
  · exact ⟨h.notWrapped, nofun, h.small, fun hon => absurd hon hoff⟩
  have hsent : ((order r.toFlush).flatMap (·.proposals)).length =
      (r.toFlush.flatMap (·.proposals)).length :=
    ((perm r.toFlush).flatMap_right _).length_eq
  rw [hnone, length_nil] at hl
  obtain ⟨hc, hw⟩ := counter_processBatches throughput (order r.toFlush)
    (s.answerExpired r ages) hraft (by change _ ≤ s.pendingProposals; omega) h.small
  obtain ⟨hn, -, -, hb⟩ :=
    frame_processBatches throughput (order r.toFlush) (s.answerExpired r ages)
  have hleft : s.pendingProposals - ((order r.toFlush).flatMap (·.proposals)).length =
      (r.kept.flatMap (·.proposals)).length := by omega
  refine ⟨hw.trans h.notWrapped, fun _ => ?_, ?_, fun hon => ?_⟩
  · rw [waiting, hb]
    exact hc.trans hleft
  · rw [hc]
    exact Nat.lt_of_le_of_lt (Nat.sub_le _ _) h.small
  · rw [hn] at hon
    exact absurd hon hoff

theorem counted_cleanup (h : Counted s) {looks : ℕ → ℕ → ℕ} (hnone : s.halted = false →
    (removeAllExpired looks 0 s.priorityBatches).2 = []) : Counted (s.cleanup looks) := by
  have hl : _ = s.waiting.length := length_removeAllExpired looks 0 s.priorityBatches
  refine { h with counts := fun hrun => ?_, noBatches := fun hon => ?_ }
  · rw [hnone hrun, length_nil, Nat.add_zero] at hl
    exact (h.counts hrun).trans hl.symm
  · rw [cleanup, h.noBatches hon]
    rfl

theorem counted_processPriorityGroup (h : Counted s) (q : ProposalPriority)
    (hnone : s.raftOpen = true → ∀ size proposals,
      s.groups q = some (.working size proposals) → proposals.take size = []) (throughput : ℕ) :
    Counted (s.processPriorityGroup maxCapacity q throughput) := by
  fun_cases processPriorityGroup maxCapacity s q throughput with
  | case1 | case5 => exact h
  | case2 | case3 => exact { h with counts := fun hrun => by cases hrun }
  | case4 => exact { h with }
  | case6 size proposals hg rest hs =>
    have he : proposals.take size = [] := by
      rcases Bool.or_eq_true_iff.1 hs with hraft | he
      · exact hnone hraft size proposals hg
      · exact isEmpty_iff.1 he
    rw [he]
    exact { h with }
  | case7 size proposals hg rest hs =>
    unfold failBatch
    split_ifs
    · exact { h with }
    · exact { h with }

theorem counted_step (s : OptimizedRaftBatchProcessor P) (event : BatchProcessorEvent P)
    (h : Counted s) (ht : Tallied pf s event) : Counted (s.step pf maxCapacity event) := by
  have hdoes := does_step pf maxCapacity s event
  generalize s.step pf maxCapacity event = s' at hdoes ⊢
  cases hdoes with
  | nothing => exact h
  | passThrough =>
    unfold passThrough
    split_ifs
    · exact { h with }
    · exact { h with }
  | receive hmode => exact counted_receive h hmode (ht hmode) _ _ _ _
  | @tick clock looks ages throughput order perm hmode =>
    obtain ⟨hraft, hf⟩ := ht hmode
    exact counted_flushReadyBatches h hmode hraft (expired_scan_of_fresh pf hf) ages throughput perm
  | @cleanup looks he =>
    by_cases hmode : s.Traditional
    · exact counted_cleanup h fun _ => expired_of_all_fresh (ht hmode)
    -- the loop has ended, or it is that of streaming mode, which has no batches
    refine counted_cleanup h fun hrun => ?_
    cases hon : s.config.enableStreaming with
    | false => exact absurd ⟨hrun, he, hon⟩ hmode
    | true =>
      rw [h.noBatches hon]
      rfl
  | chunk hmode =>
    unfold processProposalChunk
    split_ifs
    · exact { h with }
    · exact h
  | turn hmode => exact counted_processPriorityGroup h _ (ht hmode) _
  | close => exact { h with }

theorem refusesRightly_of_counted (h : Counted s) : RefusesRightly s := by
  intro hmode hr
  rw [refuses, Bool.and_eq_true, decide_eq_true_eq] at hr
  exact hr.2.trans (h.counts hmode.running).le

/-- **The counter is right**, and refusals with it, in every run in which nothing expires or fails to
    be sent and streaming mode sends nothing. -/
theorem counter_right_along (pf : Platform) (maxCapacity : ℕ) (config : OptimizedBatchConfig)
    (events : List (BatchProcessorEvent P))
    (htallied : Run.Along (step pf maxCapacity) (Tallied pf) (start maxCapacity config) events) :
    ∀ s ∈ events.scanl (step pf maxCapacity) (start maxCapacity config),
      CounterRight s ∧ RefusesRightly s := by
  intro s hs
  have h := Run.invariant counted_step (counted_start config) htallied s hs
  exact ⟨⟨h.notWrapped, fun hrun _ => h.counts hrun⟩, refusesRightly_of_counted h⟩

/-- Batches of two; proposals expire after a second. -/
def batchesOfTwo : OptimizedBatchConfig := { enableStreaming := false, maxBatchSize := 2 }

/-- Two proposals fill a batch, the third one waits for a tick while the background task runs, and
    then the channel is closed. -/
def sentInTime : List (BatchProcessorEvent ℕ) :=
  [.proposal ⟨1, .normal, 0, 100, some (10 ^ 9)⟩ 0 0 1,
    .proposal ⟨2, .normal, 0, 100, some (10 ^ 9)⟩ 0 0 1,
    .proposal ⟨3, .normal, 5, 100, some (10 ^ 9)⟩ 5 5 1, .cleanup fun _ _ => 10 ^ 6,
    .tick (fun _ => 10 ^ 8) (fun _ _ => 10 ^ 8) (fun _ => 0) (fun _ => 1) reverse reverse_perm,
    .close]

theorem counter_right_in_time :
    let pf : Platform := ⟨true, IpNet.contains, 0, fun _ _ => 0⟩
    Run.Along (step pf 1000) (Tallied pf) (start 1000 batchesOfTwo) sentInTime ∧
      (∀ s ∈ sentInTime.scanl (step pf 1000) (start 1000 batchesOfTwo),
        CounterRight s ∧ RefusesRightly s) ∧
      (sentInTime.scanl (step pf 1000) (start 1000 batchesOfTwo)).map (·.pendingProposals) =
        [0, 1, 0, 1, 1, 0, 0] := by
  intro pf
  have htallied : Run.Along (step pf 1000) (Tallied pf) (start 1000 batchesOfTwo) sentInTime := by
    refine ⟨fun _ _ => ⟨rfl, by decide⟩, fun _ _ => ⟨rfl, by decide +kernel⟩,
      fun _ _ => ⟨rfl, by decide +kernel⟩, fun _ => ?_, fun _ => ⟨rfl, ?_⟩, trivial, trivial⟩
    · unfold Fresh
      decide +kernel
    · unfold Fresh
      decide +kernel
  exact ⟨htallied, counter_right_along pf 1000 batchesOfTwo sentInTime htallied, by decide +kernel⟩

def roomForOne : OptimizedBatchConfig := { enableStreaming := false, maxPendingProposals := 1 }

def expiredAndNext : List (BatchProcessorEvent ℕ) :=
  [.proposal ⟨1, .normal, 0, 100, some 0⟩ 0 0 1, .cleanup fun _ _ => 1,
    .proposal ⟨2, .normal, 1, 100, none⟩ 1 1 1]

def oneStreamed : List (BatchProcessorEvent ℕ) :=
  [.chunk [⟨1, .normal, 0, 100, none⟩], .turn .normal 1, .turn .normal 1]

/-- The proposal that has expired is still counted, so that the next one is refused although
    none is waiting; in streaming mode the counter goes below zero. -/
theorem expired_still_counted :
    let pf : Platform := ⟨true, IpNet.contains, 0, fun _ _ => 0⟩
    let s := (expiredAndNext.take 2).foldl (step pf 1000) (start 1000 roomForOne)
    let s' := oneStreamed.foldl (step pf 1000) (start 1000 {})
    (s.pendingProposals = 1 ∧ s.waiting = [] ∧ ¬ CounterRight s ∧ ¬ RefusesRightly s) ∧
      (expiredAndNext.foldl (step pf 1000) (start 1000 roomForOne)).dropped.map (·.inner) = [1, 2] ∧
      s'.pendingProposals = 2 ^ 64 - 1 ∧ s'.waiting = [] ∧ s'.idle = true ∧ ¬ CounterRight s' := by
  intro pf s s'
  refine ⟨⟨rfl, rfl, fun h => ?_, fun h => ?_⟩, by decide +kernel, by decide +kernel,
    by decide +kernel, by decide +kernel, fun h => ?_⟩
  · exact absurd (h.counts rfl rfl) Nat.one_ne_zero
  · exact absurd (h ⟨rfl, rfl, rfl⟩ rfl) (Nat.not_succ_le_zero 0)
  · exact absurd h.notWrapped (by decide +kernel)

end OptimizedRaftBatchProcessor

end Blixard
