/-
  How long `process_priority_group` takes (`raft/optimized_batch_processor.rs`).

  The size of the batches is found once, before the first of them, and can be zero: without
  a history it is half of `max_batch_size`.  The loop then goes on with empty batches for
  ever.  Which configurations and histories give a size is said by `Splits` (`splitting_ends_iff`).
-/
import Blixard.Raft.OptimizedBatchProcessor

namespace Blixard

open List

namespace OptimizedRaftBatchProcessor

variable {P : Type} {maxCapacity : ℕ} {s : OptimizedRaftBatchProcessor P} {q : ProposalPriority}
  {size : ℕ} {ps : List (EnhancedRaftProposal P)}

/-- How many proposals of the group are left. -/
def groupSize (s : OptimizedRaftBatchProcessor P) (q : ProposalPriority) : ℕ :=
  (s.groups q).elim 0 fun group => group.proposals.length

/-- A round of the group takes a proposal at least. -/
def TakesOne (maxCapacity : ℕ) (q : ProposalPriority) (s : OptimizedRaftBatchProcessor P)
    (throughput : ℕ) : Prop :=
  s.groups q ≠ none → (s.processPriorityGroup maxCapacity q throughput).groupSize q < s.groupSize q

theorem round_of_working (h : s.groups q = some (.working size ps)) (hopen : s.raftOpen = true)
    (tp : ℕ) : (s.processPriorityGroup maxCapacity q tp).groups q =
        (if (ps.drop size).isEmpty then none else some (.working size (ps.drop size))) ∧
      (s.processPriorityGroup maxCapacity q tp).raftOpen = true := by
  rw [processPriorityGroup, h]
  simp only [processSingleBatch, setGroup, hopen, Bool.true_or, if_true]
  split_ifs <;> simp

/-- The group is done, or has at most `n` proposals left, which are taken `size` at a time. -/
def AtMost (q : ProposalPriority) (size n : ℕ) (s : OptimizedRaftBatchProcessor P) : Prop :=
  s.groups q = none ∨ ∃ ps, s.groups q = some (.working size ps) ∧ ps ≠ [] ∧ ps.length ≤ n

theorem atMost_round (hsize : 0 < size) {n : ℕ} (h : s.AtMost q size (n + 1))
    (hopen : s.raftOpen = true) (tp : ℕ) :
    s.TakesOne maxCapacity q tp ∧ (s.processPriorityGroup maxCapacity q tp).AtMost q size n ∧
      (s.processPriorityGroup maxCapacity q tp).raftOpen = true := by
  rcases h with hnone | ⟨ps, hg, hne, hle⟩
  · have hsame : s.processPriorityGroup maxCapacity q tp = s := by
      rw [processPriorityGroup, hnone]
    rw [TakesOne, hsame]
    exact ⟨fun hsome => absurd hnone hsome, .inl hnone, hopen⟩
  have hpos := length_pos_iff.2 hne
  have hdrop : (ps.drop size).length < ps.length := by
    rw [length_drop]
    omega
  obtain ⟨hnext, hopen'⟩ := @round_of_working P maxCapacity s q size ps hg hopen tp
  simp only [TakesOne, AtMost, groupSize, hnext, hg, hopen', and_true]
  split_ifs with he
  · exact ⟨fun _ => hpos, .inl rfl⟩
  · exact ⟨fun _ => hdrop, .inr ⟨_, rfl, by simpa using he, by omega⟩⟩

theorem rounds_end (hsize : 0 < size) {throughputs : List ℕ}
    (h : s.AtMost q size throughputs.length) (hopen : s.raftOpen = true) :
    Run.Along (fun s => s.processPriorityGroup maxCapacity q) (TakesOne maxCapacity q) s
        throughputs ∧
      (throughputs.foldl (fun s => s.processPriorityGroup maxCapacity q) s).groups q = none := by
  induction throughputs generalizing s with
  | nil =>
    rcases h with hnone | ⟨ps, -, hne, hle⟩
    · exact ⟨trivial, hnone⟩
    · exact absurd (length_eq_zero_iff.1 (Nat.le_zero.1 hle)) hne
  | cons tp throughputs ih =>
    obtain ⟨ht, hnext, hopen'⟩ := @atMost_round P maxCapacity s q size hsize _ h hopen tp
    exact ⟨⟨ht, (ih hnext hopen').1⟩, (ih hnext hopen').2⟩

/-! ## Sizes -/

/-- The configuration and the history give batches of at least one proposal: half of the greatest
    size is one, or the limits are the right way round and leave room for the best size, which is
    the least one or that of a batch that was not empty. -/
def Splits (config : OptimizedBatchConfig) (metrics : BatchPerformanceMetrics) : Prop :=
  if config.enableAdaptiveBatching = false then 0 < config.maxBatchSize
  else if metrics.samples.length < 5 then 2 ≤ config.maxBatchSize
  else config.minBatchSize ≤ config.maxBatchSize ∧ 0 < config.maxBatchSize ∧
    (0 < config.minBatchSize ∨ ∃ sample ∈ metrics.samples, 0 < sample.1)

/-- **The lower bound of the size**: it is at least one exactly if the configuration and the history
    split the group, and at most `max_batch_size`. -/
theorem optimalSize_pos_iff (s : OptimizedRaftBatchProcessor P) :
    (∃ size, s.optimalSize = .ok size ∧ 0 < size ∧ size ≤ s.config.maxBatchSize) ↔
      Splits s.config s.metrics := by
  unfold optimalSize Splits
  cases s.config.enableAdaptiveBatching with
  | false => simp
  | true =>
    simp only [if_true, Bool.true_eq_false, if_false]
    unfold BatchPerformanceMetrics.getOptimalBatchSize
    by_cases hfew : s.metrics.samples.length < 5
    · simp only [hfew, if_true, Except.ok.injEq, exists_eq_left']
      omega
    simp only [hfew, if_false]
    by_cases hl : s.config.maxBatchSize < s.config.minBatchSize
    · simp [hl, Nat.not_le.2 hl]
    · simp only [hl, if_false, Except.ok.injEq, exists_eq_left',
        ← BatchPerformanceMetrics.best_pos_iff]
      have hbest := BatchPerformanceMetrics.best_pos_iff s.metrics s.config
      omega

theorem halts_of_queued (hg : s.groups q = some (.queued ps))
    (hp : s.workingGroups < s.config.maxConcurrentBatches)
    (hnone : ∀ size, s.optimalSize ≠ .ok size) (tp : ℕ) :
    s.processPriorityGroup maxCapacity q tp = { s with halted := true } := by
  rw [processPriorityGroup, hg]
  dsimp only
  rw [if_pos hp]
  cases hsize : s.optimalSize with
  | error fail => rfl
  | ok size => exact absurd hsize (hnone size)

theorem begins_of_queued (hg : s.groups q = some (.queued ps))
    (hp : s.workingGroups < s.config.maxConcurrentBatches) (hsize : s.optimalSize = .ok size)
    (hfits : size ≤ maxCapacity) (tp : ℕ) : s.processPriorityGroup maxCapacity q tp =
      s.setGroup q (some (.working size ps)) := by
  rw [processPriorityGroup, hg]
  dsimp only
  rw [if_pos hp, hsize]
  exact if_neg (Nat.not_lt_of_le hfits)

theorem optimalSize_le (h : s.optimalSize = .ok size) : size ≤ s.config.maxBatchSize := by
  unfold optimalSize BatchPerformanceMetrics.getOptimalBatchSize at h
  split_ifs at h <;> cases h <;> omega

theorem stuck_of_not_splits (hg : s.groups q = some (.queued ps)) (hne : ps ≠ [])
    (hp : s.workingGroups < s.config.maxConcurrentBatches)
    (hnot : ¬ Splits s.config s.metrics) (first : ℕ) :
    let begun := s.processPriorityGroup maxCapacity q first
    begun.groups q ≠ none ∧
      ∀ tp, begun.processPriorityGroup maxCapacity q tp = begun := by
  by_cases hnone : ∀ size, s.optimalSize ≠ .ok size
  · -- the loop panics, and would do so again
    rw [halts_of_queued hg hp hnone]
    refine ⟨by simp [hg], fun tp => ?_⟩
    exact @halts_of_queued P maxCapacity { s with halted := true } q ps hg hp hnone _
  push Not at hnone
  obtain ⟨size, hsize⟩ := hnone
  have hle := optimalSize_le hsize
  have hzero : size = 0 := by
    by_contra hpos
    exact hnot ((optimalSize_pos_iff s).1 ⟨size, hsize, Nat.pos_of_ne_zero hpos, hle⟩)
  subst hzero
  rw [begins_of_queued hg hp hsize (Nat.zero_le _)]
  refine ⟨by simp [setGroup], fun tp => ?_⟩
  simp [processPriorityGroup, setGroup, processSingleBatch, hne]

/-- **When the splitting of a group ends**: after at most as many rounds as it has proposals,
    each of which takes one, exactly if the configuration and the history give batches of at least
    one proposal. -/
theorem splitting_ends_iff (maxCapacity : ℕ) (s : OptimizedRaftBatchProcessor P)
    (q : ProposalPriority) (p : EnhancedRaftProposal P) (ps : List (EnhancedRaftProposal P))
    (hgroup : s.groups q = some (.queued (p :: ps)))
    (hpermit : s.workingGroups < s.config.maxConcurrentBatches) (hopen : s.raftOpen = true)
    (hmemory : s.config.maxBatchSize ≤ maxCapacity) (first : ℕ) :
    (∀ throughputs : List ℕ, throughputs.length = (p :: ps).length →
      Run.Along (fun s => s.processPriorityGroup maxCapacity q) (TakesOne maxCapacity q)
        (s.processPriorityGroup maxCapacity q first) throughputs ∧
      (throughputs.foldl (fun s => s.processPriorityGroup maxCapacity q)
        (s.processPriorityGroup maxCapacity q first)).groups q = none) ↔
      Splits s.config s.metrics := by
  constructor
  · intro hends
    by_contra hnot
    obtain ⟨hsome, hstuck⟩ :=
      stuck_of_not_splits hgroup (cons_ne_nil p ps) hpermit hnot first
    obtain ⟨-, hnone⟩ := hends (replicate (p :: ps).length 0) length_replicate
    rw [foldl_fixed' hstuck] at hnone
    exact hsome hnone
  · intro hsplits throughputs hlength
    obtain ⟨size, hsize, hpos, hle⟩ := (optimalSize_pos_iff s).2 hsplits
    rw [begins_of_queued hgroup hpermit hsize (hle.trans hmemory)]
    refine rounds_end hpos (.inr ⟨p :: ps, ?_, cons_ne_nil p ps, hlength.ge⟩) hopen
    simp [setGroup]

/-- A group of `n + 1` proposals that waits for its permit. -/
def queued (n : ℕ) (config : OptimizedBatchConfig) (samples : List (ℕ × ℕ)) :
    OptimizedRaftBatchProcessor Unit :=
  { start 1000 config with
    metrics := ⟨samples⟩
    groups := fun q => if q = .normal then
      some (.queued (replicate (n + 1) ⟨(), .normal, 0, 0, none⟩)) else none }

/-- Batches of two had the best throughput, and the limits allow any size up to four. -/
def twoBest : OptimizedRaftBatchProcessor Unit :=
  queued 4 { maxBatchSize := 4, minBatchSize := 0 } [(3, 5), (2, 9), (4, 9), (1, 2), (3, 7)]

/-- The group of five is split into batches of two, two and one. -/
theorem splitting_ends_of_two : Splits twoBest.config twoBest.metrics ∧
    let done := [0, 0, 0, 0, 0].foldl (fun s => s.processPriorityGroup 1000 .normal)
      (twoBest.processPriorityGroup 1000 .normal 0)
    done.groups .normal = none ∧ done.sent.map length = [2, 2, 1] := by
  have hsplits : Splits twoBest.config twoBest.metrics :=
    ⟨by decide, by decide, .inr ⟨(2, 9), by decide, by decide⟩⟩
  have hends := ((splitting_ends_iff 1000 twoBest .normal _ _ rfl (by decide) rfl (by decide) 0).2
    hsplits [0, 0, 0, 0, 0] rfl).2
  exact ⟨hsplits, hends, by decide +kernel⟩

/-- With batches of one proposal it is never done: half of one is none. -/
theorem splitting_never_ends : ¬ ∃ throughputs : List ℕ,
    (throughputs.foldl (fun s => s.processPriorityGroup 1000 .normal)
      (queued 0 { maxBatchSize := 1 } [])).groups .normal = none := by
  rintro ⟨throughputs, hnone⟩
  have hnot : ¬ Splits (queued 0 { maxBatchSize := 1 } []).config
      (queued 0 { maxBatchSize := 1 } []).metrics := by
    intro hsplits
    exact absurd (show 2 ≤ 1 from hsplits) (by decide)
  cases throughputs with
  | nil => cases hnone
  | cons first throughputs =>
    obtain ⟨hsome, hstuck⟩ := @stuck_of_not_splits Unit 1000 (queued 0 { maxBatchSize := 1 } [])
      .normal _ rfl (by simp) (by decide) hnot first
    rw [foldl_cons, foldl_fixed' hstuck] at hnone
    exact hsome hnone

end OptimizedRaftBatchProcessor

end Blixard
