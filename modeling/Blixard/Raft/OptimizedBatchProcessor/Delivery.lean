/-
  Delivery in the optimized batch processor.

  In streaming mode everything is sent, batches have one priority and keep the order, if the
  configuration leaves room for batches (`Sane`).  The same holds in traditional mode of the runs
  that are `Calm` (`delivers_along`); in others proposals of the priority `Low` come into batches
  with others (`mixed_batch`).
-/
import Blixard.Raft.OptimizedBatchProcessor
import Mathlib.Algebra.Order.BigOperators.Group.List

namespace Blixard

open ProposalPriority OptimizedProposalBatch List Multiset PriorityGroup Run

namespace OptimizedRaftBatchProcessor

variable {P : Type}

def ofPriority (q : ProposalPriority) (ps : List (EnhancedRaftProposal P)) :
    List (EnhancedRaftProposal P) := ps.filter fun p => p.priority = q

/-- The loop is running, every proposal is sent in one batch, answered or held, and batches
    have one priority and keep the order of arrival. -/
structure Delivers (s : OptimizedRaftBatchProcessor P) : Prop where
  running : s.halted = false
  exactlyOnce : s.received.Perm
    (s.sent.flatten ++ s.answered.map Prod.fst ++ s.waiting ++ s.inWork)
  onePriority : ∀ batch ∈ s.sent, ∃ q, ∀ p ∈ batch, p.priority = q
  inOrder : ∀ q, (ofPriority q s.sent.flatten).Sublist (ofPriority q s.received)

/-- The configuration leaves room for batches. -/
structure Sane (maxCapacity : ℕ) (config : OptimizedBatchConfig) : Prop where
  concurrent : 0 < config.maxConcurrentBatches
  interval : config.enableStreaming = false → 0 < config.batchTimeoutMs
  buffer : config.enableStreaming = true → config.streamBufferSize ≤ maxCapacity
  capacity : config.enableStreaming = true → config.maxBatchSize ≤ maxCapacity
  size : config.enableStreaming = true → 0 < config.maxBatchSize
  adaptive : config.enableStreaming = true → config.enableAdaptiveBatching = true →
    2 ≤ config.maxBatchSize ∧ config.minBatchSize ≤ config.maxBatchSize

/-- The channel to Raft stays open; in traditional mode, no proposal is `Low` or refused, none
    expires but at a tick, and then no batch that is kept loses all its proposals. -/
def Calm (pf : Platform) (s : OptimizedRaftBatchProcessor P) : BatchProcessorEvent P → Prop
  | .proposal p _ _ _ => s.Traditional → p.priority ≠ .low ∧ s.refuses = false
  | .tick clock looks _ _ _ _ => s.Traditional → ∀ x ∈ s.priorityBatches.zipIdx,
    x.1.shouldFlush pf s.config (clock x.2) = .ok false → x.1.Survives (looks x.2)
  | .cleanup looks => ∀ x ∈ s.priorityBatches.zipIdx, x.1.Fresh (looks x.2)
  | .chunk _ | .turn _ _ => True
  | .close => False

/-! ## Batches of one priority -/

/-- A batch has proposals, all of its priority, which is not `Low`. -/
structure Labelled (b : OptimizedProposalBatch P) : Prop where
  nonempty : b.proposals ≠ []
  notLow : b.priority ≠ .low
  all : ∀ p ∈ b.proposals, p.priority = b.priority

structure Separated (batches : List (OptimizedProposalBatch P)) : Prop where
  labelled : ∀ b ∈ batches, Labelled b
  distinct : batches.Pairwise fun b b' => b.priority ≠ b'.priority

def contents (batches : List (OptimizedProposalBatch P)) (q : ProposalPriority) :
    List (EnhancedRaftProposal P) := ofPriority q (batches.flatMap (·.proposals))

variable {pf : Platform} {maxCapacity : ℕ} {s : OptimizedRaftBatchProcessor P}
  {b : OptimizedProposalBatch P} {batches batches' : List (OptimizedProposalBatch P)}
  {q : ProposalPriority}

theorem ofPriority_append (ps ps' : List (EnhancedRaftProposal P)) :
    ofPriority q (ps ++ ps') = ofPriority q ps ++ ofPriority q ps' :=
  filter_append ..

variable {p : EnhancedRaftProposal P} {batch ps : List (EnhancedRaftProposal P)}
  {rs : List (List (ProposalPriority × ℕ))} {cfg : OptimizedBatchConfig} {group : PriorityGroup P}
  {size tp : ℕ} {clock now : ℕ → ℕ} {looks : ℕ → ℕ → ℕ}

theorem ofPriority_eq_self (h : ∀ p ∈ ps, p.priority = q) : ofPriority q ps = ps :=
  filter_eq_self.2 fun p hp => decide_eq_true (h p hp)

theorem ofPriority_eq_nil {q' : ProposalPriority}
    (h : ∀ p ∈ ps, p.priority = q') (hne : q' ≠ q) : ofPriority q ps = [] :=
  filter_eq_nil_iff.2 fun p hp => by simpa [h p hp] using hne

theorem contents_cons (b : OptimizedProposalBatch P) (bs : List (OptimizedProposalBatch P)) :
    contents (b :: bs) q = ofPriority q b.proposals ++ contents bs q := by
  rw [contents, flatMap_cons, ofPriority_append, contents]

theorem contents_append : contents (batches ++ batches') q =
    contents batches q ++ contents batches' q := by
  rw [contents, flatMap_append, ofPriority_append, contents, contents]

theorem Labelled.ofPriority (h : Labelled b) (q : ProposalPriority) :
    ofPriority q b.proposals = if b.priority = q then b.proposals else [] := by
  split_ifs with hq
  · exact ofPriority_eq_self fun p hp => (h.all p hp).trans hq
  · exact ofPriority_eq_nil h.all hq

theorem contents_eq_nil (hl : ∀ b ∈ batches, Labelled b)
    (hq : q ∉ batches.map (·.priority)) : contents batches q = [] := by
  induction batches with
  | nil => rfl
  | cons b batches ih =>
    obtain ⟨hb, ht⟩ := List.forall_mem_cons.1 hl
    obtain ⟨hbq, hq⟩ := not_or.1 (mt List.mem_cons.2 hq)
    rw [contents_cons, ih ht hq, hb.ofPriority, if_neg (Ne.symm hbq), List.append_nil]

theorem Separated.cons_iff : Separated (b :: batches) ↔
    Labelled b ∧ b.priority ∉ batches.map (·.priority) ∧ Separated batches := by
  have ha : b.priority ∉ batches.map (·.priority) ↔ ∀ b' ∈ batches, b.priority ≠ b'.priority := by
    simp [eq_comm]
  rw [ha]
  constructor
  · rintro ⟨hlab, hdis⟩
    obtain ⟨hb, ht⟩ := forall_mem_cons.1 hlab
    obtain ⟨hne, hdis⟩ := pairwise_cons.1 hdis
    exact ⟨hb, hne, ht, hdis⟩
  · rintro ⟨hb, hne, ht, hdis⟩
    exact ⟨forall_mem_cons.2 ⟨hb, ht⟩, pairwise_cons.2 ⟨hne, hdis⟩⟩

theorem Separated.perm (h : Separated batches) (hperm : batches.Perm batches') :
    Separated batches' :=
  ⟨fun b hb => h.labelled b (hperm.mem_iff.2 hb),
    (hperm.pairwise_iff fun hne => Ne.symm hne).1 h.distinct⟩

theorem Separated.sublist (h : Separated batches) (hsub : batches'.Sublist batches) :
    Separated batches' :=
  ⟨fun b hb => h.labelled b (hsub.subset hb), h.distinct.sublist hsub⟩

theorem Separated.contents_perm (h : Separated bs) (hperm : bs.Perm batches')
    (q : ProposalPriority) : contents bs q = contents batches' q := by
  induction hperm with
  | nil => rfl
  | cons b hperm ih =>
    rw [contents_cons, contents_cons, ih (Separated.cons_iff.1 h).2.2]
  | swap b b' bs =>
    obtain ⟨hb', hne, hrest⟩ := Separated.cons_iff.1 h
    obtain ⟨hb, -, -⟩ := Separated.cons_iff.1 hrest
    rw [contents_cons, contents_cons, contents_cons, contents_cons, hb.ofPriority, hb'.ofPriority]
    have hne' : b'.priority ≠ b.priority := fun heq => hne (by simp [heq])
    by_cases hq : b.priority = q
    · rw [if_neg (fun hq' => hne' (hq'.trans hq.symm)), nil_append, nil_append]
    · rw [if_neg hq, nil_append, nil_append]
  | trans hf _ ihfirst ihsecond => exact (ihfirst h).trans (ihsecond (h.perm hf))

/-! ## Traditional mode -/

theorem higher_self (q : ProposalPriority) : q.higher q = q := by
  cases q <;> rfl

theorem higher_normal (h : q ≠ .low) : ProposalPriority.normal.higher q = q := by
  cases q <;> first | rfl | exact absurd rfl h

theorem labelled_new (h : p.priority ≠ .low) (created : ℕ) :
    Labelled ((OptimizedProposalBatch.new created).add p) where
  nonempty := by simp [add, new]
  notLow := by
    rw [add, new, higher_normal h]
    exact h
  all p' hp' := by
    rw [add, new, higher_normal h]
    obtain rfl : p' = p := by simpa [add, new] using hp'
    rfl

theorem labelled_add (h : Labelled b) (hp : b.priority = p.priority) :
    Labelled (b.add p) ∧ (b.add p).priority = b.priority := by
  have hpri : (b.add p).priority = b.priority := by
    rw [add, ← hp, higher_self]
  refine ⟨⟨by simp [add], hpri ▸ h.notLow, fun p' hp' => ?_⟩, hpri⟩
  rw [hpri]
  rcases List.mem_append.1 (show p' ∈ b.proposals ++ [p] from hp') with hmem | hmem
  · exact h.all p' hmem
  · rw [List.mem_singleton.1 hmem, hp]

theorem place_separated (h : Separated batches) (hp : p.priority ≠ .low) (created : ℕ) :
    let r := place created p batches
    Separated (r.1 ++ r.2.1 :: r.2.2) ∧
      (r.1 ++ r.2.1 :: r.2.2).map (·.priority) ⊆ p.priority :: batches.map (·.priority) ∧
      ∀ q, contents (r.1 ++ r.2.1 :: r.2.2) q = contents batches q ++ ofPriority q [p] := by
  induction batches with
  | nil =>
    have hl := labelled_new hp created
    show Separated [(new created).add p] ∧ _ ∧ _
    refine ⟨Separated.cons_iff.2 ⟨hl, by simp, h⟩, ?_, fun q => rfl⟩
    simp [place, add, new, higher_normal hp]
  | cons b batches ih =>
    obtain ⟨hb, hne, hrest⟩ := Separated.cons_iff.1 h
    unfold place
    split_ifs with hsame
    · obtain ⟨hl, hr⟩ := labelled_add hb hsame
      refine ⟨Separated.cons_iff.2 ⟨hl, hr ▸ hne, hrest⟩, ?_, fun q => ?_⟩
      · simp [hr]
      -- the batches after it have no proposal of this priority
      simp only [List.nil_append, contents_cons]
      rw [show (b.add p).proposals = b.proposals ++ [p] from rfl, ofPriority_append]
      by_cases hq : p.priority = q
      · rw [contents_eq_nil hrest.labelled (hq ▸ hsame ▸ hne), List.append_nil, List.append_nil]
      · have hnone : ofPriority q [p] = [] :=
          ofPriority_eq_nil (fun p' hp' => by rw [List.mem_singleton.1 hp']) hq
        rw [hnone, List.append_nil, List.append_nil]
    · obtain ⟨hs, hl1, hc⟩ := ih hrest
      refine ⟨Separated.cons_iff.2 ⟨hb, fun hmem => ?_, hs⟩, ?_, fun q => ?_⟩
      · exact (List.mem_cons.1 (hl1 hmem)).elim hsame hne
      · exact List.cons_subset.2 ⟨by simp, List.Subset.trans hl1 (by simp)⟩
      · simp only [List.cons_append, contents_cons, hc q, List.append_assoc]

theorem splitExpired_sublist (now : ℕ → ℕ) (n : ℕ) (ps : List (EnhancedRaftProposal P)) :
    (splitExpired now n ps).2.Sublist ps := by
  induction ps generalizing n with
  | nil => exact .slnil
  | cons p ps ih =>
    unfold splitExpired
    dsimp only
    split_ifs
    · exact (ih (n + 1)).cons p
    · exact (ih (n + 1)).cons_cons p

theorem splitExpired_ne_nil {n : ℕ} (h : ∃ y ∈ ps.zipIdx n, y.1.isExpired (now y.2) = false) :
    (splitExpired now n ps).2 ≠ [] := by
  induction ps generalizing n with
  | nil => simp at h
  | cons p ps ih =>
    obtain ⟨y, hy, hl⟩ := h
    unfold splitExpired
    rcases List.mem_cons.1 hy with rfl | hy
    · simp [hl]
    · dsimp only
      split_ifs
      · exact ih ⟨y, hy, hl⟩
      · exact List.cons_ne_nil _ _

theorem splitExpired_of_none {n : ℕ}
    (h : (splitExpired now n ps).1 = []) : (splitExpired now n ps).2 = ps := by
  have hcoe := splitExpired_coe now n ps
  rw [h, coe_nil, add_zero] at hcoe
  exact (splitExpired_sublist now n ps).eq_of_length (coe_eq_coe.1 hcoe).length_eq

theorem highest_of_all (hne : ps ≠ []) (h : ∀ p ∈ ps, p.priority = q) : highest ps = q := by
  have hfold (ps : List (EnhancedRaftProposal P)) (h : ∀ p ∈ ps, p.priority = q) :
      ps.foldl (fun q p => q.higher p.priority) q = q := by
    induction ps with
    | nil => rfl
    | cons p ps ih =>
      obtain ⟨hp, hps⟩ := List.forall_mem_cons.1 h
      rw [List.foldl_cons, hp, higher_self, ih hps]
  cases ps with
  | nil => exact absurd rfl hne
  | cons p ps =>
    obtain ⟨hp, hps⟩ := List.forall_mem_cons.1 h
    rw [highest, hp, hfold ps hps]

theorem labelled_removeExpired (h : Labelled b) (hne : (b.removeExpired now).1.proposals ≠ []) :
    Labelled (b.removeExpired now).1 ∧ (b.removeExpired now).1.priority = b.priority := by
  have hall (p : EnhancedRaftProposal P) (hp : p ∈ (b.removeExpired now).1.proposals) :
      p.priority = b.priority :=
    h.all p ((splitExpired_sublist now 0 b.proposals).subset hp)
  have hpri : (b.removeExpired now).1.priority = b.priority := highest_of_all hne hall
  exact ⟨⟨hne, hpri ▸ h.notLow, hpri ▸ hall⟩, hpri⟩

theorem removeExpired_of_none (h : Labelled b) (hnone : (b.removeExpired now).2 = []) :
    (b.removeExpired now).1 = b := by
  have hkept : (splitExpired now 0 b.proposals).2 = b.proposals := splitExpired_of_none hnone
  have hexp : (splitExpired now 0 b.proposals).1 = [] := hnone
  unfold removeExpired
  dsimp only
  rw [hkept, hexp, highest_of_all h.nonempty h.all]
  rfl

theorem removeAllExpired_of_none {i : ℕ} (h : Separated batches)
    (hnone : (removeAllExpired looks i batches).2 = []) :
    (removeAllExpired looks i batches).1 = batches := by
  induction batches generalizing i with
  | nil => rfl
  | cons b batches ih =>
    obtain ⟨hb, -, hrest⟩ := Separated.cons_iff.1 h
    obtain ⟨hf, hl⟩ := append_eq_nil_iff.1 hnone
    show (removeExpired (looks i) b).1 :: (removeAllExpired looks (i + 1) batches).1 = _
    rw [removeExpired_of_none hb hf, ih hrest hl]

theorem cleanup_eq_self (h : Separated s.priorityBatches)
    (hnone : (removeAllExpired looks 0 s.priorityBatches).2 = []) : s.cleanup looks = s := by
  unfold cleanup
  dsimp only
  rw [removeAllExpired_of_none h hnone, hnone, append_nil]

theorem shouldFlush_ok (hb : b.priority ≠ .low) (cfg : OptimizedBatchConfig) (now : ℕ) :
    ∃ flush, b.shouldFlush pf cfg now = .ok flush := by
  unfold shouldFlush
  split_ifs
  · exact ⟨false, rfl⟩
  · exact ⟨true, rfl⟩
  · cases hp : b.priority with
    | low => exact absurd hp hb
    | normal | high | critical => exact ⟨_, rfl⟩

theorem scan_separated (h : Separated batches) (config : OptimizedBatchConfig) (clock : ℕ → ℕ)
    (looks : ℕ → ℕ → ℕ) (i : ℕ)
    (hkept : ∀ x ∈ batches.zipIdx i, x.1.shouldFlush pf config (clock x.2) = .ok false →
      x.1.Survives (looks x.2)) :
    let r := scan pf config clock looks i batches
    r.panicked = false ∧ Separated (r.toFlush ++ r.kept) ∧
      (r.toFlush ++ r.kept).map (·.priority) ⊆ batches.map (·.priority) ∧
      ∀ q, (contents (r.toFlush ++ r.kept) q).Sublist (contents batches q) := by
  induction batches generalizing i with
  | nil => exact ⟨rfl, h, by simp [scan], fun q => .slnil⟩
  | cons b batches ih =>
    obtain ⟨hb, hne, hrest⟩ := Separated.cons_iff.1 h
    obtain ⟨hf, hkept⟩ := forall_mem_cons.1 hkept
    obtain ⟨flush, hf1⟩ := @shouldFlush_ok P pf b hb.notLow config (clock i)
    cases flush with
    | true =>
      simp only [scan, hf1]
      obtain ⟨hp, hs, hl, hc⟩ := ih hrest (i + 1) hkept
      refine ⟨hp, Separated.cons_iff.2 ⟨hb, fun hmem => hne (hl hmem), hs⟩,
        List.cons_subset_cons _ hl, fun q => ?_⟩
      simp only [List.cons_append, contents_cons]
      exact (hc q).append_left _
    | false =>
      simp only [scan, hf1]
      obtain ⟨hd, hr⟩ := labelled_removeExpired hb (splitExpired_ne_nil (hf hf1))
      obtain ⟨hp, hs, hl, hc⟩ := ih hrest (i + 1) hkept
      have hn := Separated.cons_iff.2
        ⟨hd, fun hmem => hne (hr ▸ hl hmem), hs⟩
      refine ⟨hp, hn.perm List.perm_middle.symm, ?_, fun q => ?_⟩
      · rw [List.map_append, List.map_cons, List.map_cons, hr]
        rw [List.map_append] at hl
        exact List.Subset.trans List.perm_middle.subset (List.cons_subset_cons _ hl)
      · rw [← hn.contents_perm List.perm_middle.symm q, contents_cons, contents_cons]
        exact ((splitExpired_sublist (looks i) 0 b.proposals).filter _).append (hc q)

/-! ## The invariant -/

/-- Batches, groups and what was sent are each in order, with `flying` on its way to Raft. -/
structure Orderly (maxCapacity : ℕ) (flying : List (EnhancedRaftProposal P))
    (s : OptimizedRaftBatchProcessor P) : Prop where
  sane : Sane maxCapacity s.config
  running : s.halted = false
  connected : s.raftOpen = true
  dropped : s.dropped = []
  separated : Separated s.priorityBatches
  onePriority : ∀ batch ∈ s.sent, ∃ q, ∀ p ∈ batch, p.priority = q
  ofGroup : ∀ q, ∀ p ∈ s.remaining q, p.priority = q
  inOrder : ∀ q, (ofPriority q (s.sent.flatten ++ flying) ++
    (s.remaining q ++ contents s.priorityBatches q)).Sublist (ofPriority q s.received)
  noBatches : s.config.enabled = false ∨ s.config.enableStreaming = true → s.priorityBatches = []
  noGroups : s.config.enabled = false ∨ s.config.enableStreaming = false →
    ∀ q, s.groups q = none
  positive : ∀ sample ∈ s.metrics.samples, 0 < sample.1
  sizes : ∀ q size ps, s.groups q = some (.working size ps) → 0 < size
  nonempty : ∀ q group, s.groups q = some group → group.proposals ≠ []

theorem Orderly.remaining_eq_nil {flying : List (EnhancedRaftProposal P)}
    (h : Orderly maxCapacity flying s)
    (hmode : s.config.enabled = false ∨ s.config.enableStreaming = false) (q : ProposalPriority) :
    s.remaining q = [] := by
  rw [remaining, h.noGroups hmode q]
  rfl

theorem Traditional.usesBatches (h : s.Traditional) :
    ¬ (s.config.enabled = false ∨ s.config.enableStreaming = true) := by
  simp [h.enabled, h.mode]

theorem Streaming.usesGroups (h : s.Streaming) :
    ¬ (s.config.enabled = false ∨ s.config.enableStreaming = false) := by
  simp [h.enabled, h.mode]

theorem orderly_start (h : Sane maxCapacity cfg) :
    Orderly maxCapacity [] (start (P := P) maxCapacity cfg) where
  sane := h
  running := by
    cases hmode : cfg.enableStreaming with
    | true => simp [start, hmode, h.buffer hmode]
    | false => simp [start, hmode, Nat.pos_iff_ne_zero.1 (h.interval hmode)]
  connected := rfl
  dropped := rfl
  separated := ⟨by simp [start], .nil⟩
  onePriority _ hb := by cases hb
  ofGroup _ _ hp := by cases hp
  inOrder _ := .slnil
  noBatches _ := rfl
  noGroups _ _ := rfl
  positive _ hs := by cases hs
  sizes _ _ _ hg := by cases hg
  nonempty _ _ hg := by cases hg

theorem positive_recordBatch {m : BatchPerformanceMetrics} (h : ∀ sample ∈ m.samples, 0 < sample.1)
    (hsize : 0 < size) (tp : ℕ) : ∀ sample ∈ (m.recordBatch size tp).samples, 0 < sample.1 := by
  have hall : ∀ sample ∈ m.samples ++ [(size, tp)], 0 < sample.1 := by
    intro sample hs
    rcases List.mem_append.1 hs with hmem | hmem
    · exact h sample hmem
    · rw [List.mem_singleton.1 hmem]
      exact hsize
  intro sample hs
  unfold BatchPerformanceMetrics.recordBatch at hs
  dsimp only at hs
  split_ifs at hs
  · exact hall sample (List.mem_of_mem_tail hs)
  · exact hall sample hs

theorem orderly_processSingleBatch {rest : List (EnhancedRaftProposal P)}
    (h : Orderly maxCapacity (batch ++ rest) s) (hb : ∀ p ∈ batch, p.priority = q)
    (tp : ℕ) : Orderly maxCapacity rest (s.processSingleBatch tp batch) := by
  unfold processSingleBatch
  rw [if_pos h.connected]
  split_ifs with he
  · rwa [List.isEmpty_iff.1 he, List.nil_append] at h
  have hpos : 0 < batch.length := List.length_pos_iff.2 (by simpa using he)
  refine { h with
    onePriority := fun other ho => ?_
    inOrder := fun q => ?_
    positive := positive_recordBatch h.positive hpos tp }
  · rcases List.mem_append.1 ho with hmem | hmem
    · exact h.onePriority other hmem
    · rw [List.mem_singleton.1 hmem]
      exact ⟨q, hb⟩
  · rw [List.flatten_append, List.flatten_singleton, List.append_assoc]
    exact h.inOrder q

theorem orderly_processBatches (tp : OptimizedProposalBatch P → ℕ)
    (h : Orderly maxCapacity (bs.flatMap (·.proposals)) s) (ht : ∀ b ∈ bs, Labelled b) :
    Orderly maxCapacity [] (s.processBatches tp bs) := by
  induction bs generalizing s with
  | nil => exact h
  | cons b bs ih =>
    obtain ⟨hb, hrest⟩ := forall_mem_cons.1 ht
    exact ih (orderly_processSingleBatch h hb.all _) hrest

theorem orderly_receive (h : Orderly maxCapacity [] s) (hmode : s.Traditional)
    (hp : p.priority ≠ .low) (hopen : s.refuses = false) (created chk tp : ℕ) :
    Orderly maxCapacity [] (s.receive pf p created chk tp) := by
  obtain ⟨ht, -, hc⟩ := place_separated h.separated hp created
  have hr := receives_receive pf s p created chk tp
  have hm := h.remaining_eq_nil (.inr hmode.mode)
  have hl := ht.labelled _ (mem_append_right _ mem_cons_self)
  have hn (q : ProposalPriority) := (h.inOrder q).append_right (ofPriority q [p])
  generalize s.receive pf p created chk tp = s' at hr ⊢
  cases hr with
  | refused hf => exact absurd hf (by simp [hopen])
  | panicked _ ha =>
    obtain ⟨flush, hs⟩ := @shouldFlush_ok P pf _ hl.notLow s.config chk
    rw [hs] at ha
    cases ha
  | kept =>
    refine { h with
      separated := ht
      inOrder := fun q => ?_
      noBatches := fun ho => absurd ho hmode.usesBatches }
    have hi := hn q
    rw [← ofPriority_append, append_assoc, append_assoc, ← hc q] at hi
    exact hi
  | flushed =>
    refine orderly_processSingleBatch (?_ : Orderly maxCapacity (_ ++ []) _) hl.all tp
    have hf1 := ht.perm perm_middle
    refine { h with
      separated := (Separated.cons_iff.1 hf1).2.2
      inOrder := fun q => ?_
      noBatches := fun ho => absurd ho hmode.usesBatches }
    have hi := hn q
    rw [← ofPriority_append, append_nil, hm, nil_append, append_assoc,
      ← hc q, ht.contents_perm perm_middle, contents_cons,
      ← append_assoc, ← ofPriority_append] at hi
    show (ofPriority q (s.sent.flatten ++ (_ ++ [])) ++ (s.remaining q ++ _)).Sublist _
    rw [append_nil, hm, nil_append]
    exact hi

theorem orderly_flushReadyBatches (h : Orderly maxCapacity [] s) (hmode : s.Traditional)
    (clock : ℕ → ℕ) (looks : ℕ → ℕ → ℕ)
    (hkept : ∀ x ∈ s.priorityBatches.zipIdx,
      x.1.shouldFlush pf s.config (clock x.2) = .ok false → x.1.Survives (looks x.2))
    (ages : EnhancedRaftProposal P → ℕ) (tp : OptimizedProposalBatch P → ℕ)
    {order : List (OptimizedProposalBatch P) → List (OptimizedProposalBatch P)}
    (perm : ∀ bs, (order bs).Perm bs) :
    Orderly maxCapacity [] (s.flushReadyBatches pf clock looks ages tp order) := by
  let r := scan pf s.config clock looks 0 s.priorityBatches
  obtain ⟨hp, hs, -, hc⟩ :=
    scan_separated h.separated s.config clock looks 0 hkept
  have hperm : (r.toFlush ++ r.kept).Perm (order r.toFlush ++ r.kept) :=
    (perm r.toFlush).symm.append_right _
  have hord := hs.perm hperm
  have hr := h.remaining_eq_nil (.inr hmode.mode)
  unfold flushReadyBatches
  dsimp only
  rw [if_neg (by simp [hp, Nat.pos_iff_ne_zero.1 h.sane.concurrent])]
  refine orderly_processBatches tp ?_
    fun b hb => hord.labelled b (mem_append_left _ hb)
  refine { h with
    separated := hs.sublist (sublist_append_right _ _)
    inOrder := fun q => ?_
    noBatches := fun ho => absurd ho hmode.usesBatches }
  have hi := h.inOrder q
  rw [append_nil, hr, nil_append] at hi
  show (ofPriority q (s.sent.flatten ++ _) ++ (s.remaining q ++ contents r.kept q)).Sublist _
  rw [hr, nil_append, ofPriority_append, append_assoc]
  refine List.Sublist.trans (List.Sublist.append_left ?_ _) hi
  have hsame : contents (r.toFlush ++ r.kept) q =
      contents (order r.toFlush) q ++ contents r.kept q :=
    (hs.contents_perm hperm q).trans contents_append
  show (contents (order r.toFlush) q ++ contents r.kept q).Sublist _
  rw [← hsame]
  exact hc q

theorem orderly_passThrough (h : Orderly maxCapacity [] s) (hmode : s.config.enabled = false)
    (p : EnhancedRaftProposal P) : Orderly maxCapacity [] (s.passThrough p) := by
  have hr := h.remaining_eq_nil (.inl hmode)
  rw [passThrough, if_pos h.connected]
  refine { h with onePriority := fun batch hb => ?_, inOrder := fun q => ?_ }
  · rcases List.mem_append.1 (show batch ∈ s.sent ++ [[p]] from hb) with hmem | hmem
    · exact h.onePriority batch hmem
    · refine ⟨p.priority, fun p' hp' => ?_⟩
      rw [List.mem_singleton.1 hmem] at hp'
      rw [List.mem_singleton.1 hp']
  have hl := (h.inOrder q).append_right (ofPriority q [p])
  rw [h.noBatches (.inl hmode), hr, List.append_nil] at hl
  show (ofPriority q ((s.sent ++ [[p]]).flatten ++ []) ++
    (s.remaining q ++ contents s.priorityBatches q)).Sublist (ofPriority q (s.received ++ [p]))
  rw [h.noBatches (.inl hmode), hr, List.append_nil, List.flatten_append,
    List.flatten_singleton, ofPriority_append, ofPriority_append]
  simpa [contents, ofPriority] using hl

/-! ## Streaming mode -/

theorem groupOf_eq_some {proposals : List (EnhancedRaftProposal P)}
    (h : groupOf proposals q = some group) : ∃ ps, ps ≠ [] ∧ group = .queued ps := by
  unfold groupOf at h
  dsimp only at h
  split_ifs at h with he
  exact ⟨_, by simpa using he, (Option.some.inj h).symm⟩

theorem orderly_processProposalChunk (h : Orderly maxCapacity [] s) (hmode : s.Streaming)
    (proposals : List (EnhancedRaftProposal P)) :
    Orderly maxCapacity [] (s.processProposalChunk proposals) := by
  unfold processProposalChunk
  split_ifs with hidle
  · refine { h with
      ofGroup := fun q p hp => ?_
      inOrder := fun q => ?_
      noGroups := fun ho => absurd ho hmode.usesGroups
      sizes := fun q size ps hg => ?_
      nonempty := fun q group hg => ?_ }
    · replace hp : p ∈ ((groupOf proposals q).map PriorityGroup.proposals).getD [] := hp
      rw [proposals_groupOf] at hp
      simpa using (List.mem_filter.1 hp).2
    · have hl := (h.inOrder q).append_right (ofPriority q proposals)
      rw [remaining_of_idle hidle.1, h.noBatches (.inr hmode.mode), ← ofPriority_append,
        List.append_assoc] at hl
      show (ofPriority q (s.sent.flatten ++ []) ++ (((groupOf proposals q).map
        PriorityGroup.proposals).getD [] ++ contents s.priorityBatches q)).Sublist _
      rw [proposals_groupOf, h.noBatches (.inr hmode.mode), show contents [] q = [] from rfl,
        List.append_nil (List.filter _ proposals)]
      exact hl
    · obtain ⟨_, -, hq⟩ := groupOf_eq_some hg
      cases hq
    · obtain ⟨ps, hps, rfl⟩ := groupOf_eq_some hg
      exact hps
  · exact h

theorem optimalSize_ok (h : Orderly maxCapacity [] s) (hmode : s.Streaming) :
    ∃ size, s.optimalSize = .ok size ∧ 0 < size ∧ size ≤ maxCapacity := by
  have hcap := h.sane.capacity hmode.mode
  have hsize := h.sane.size hmode.mode
  unfold optimalSize
  split_ifs with ha
  · obtain ⟨htwo, hl⟩ := h.sane.adaptive hmode.mode ha
    unfold BatchPerformanceMetrics.getOptimalBatchSize
    by_cases hfew : s.metrics.samples.length < 5
    · rw [if_pos hfew]
      exact ⟨_, rfl, by omega, by omega⟩
    have hbest : 0 < s.metrics.best s.config := by
      refine (BatchPerformanceMetrics.best_pos_iff _ _).2 (.inr ?_)
      obtain ⟨sample, hs⟩ := List.exists_mem_of_length_pos
        (Nat.lt_of_lt_of_le (Nat.succ_pos 4) (Nat.le_of_not_lt hfew))
      exact ⟨sample, hs, h.positive sample hs⟩
    rw [if_neg hfew, if_neg (by omega)]
    exact ⟨_, rfl, by omega, by omega⟩
  · exact ⟨_, rfl, hsize, hcap⟩

theorem orderly_setGroup (h : Orderly maxCapacity [] s) (hmode : s.Streaming)
    {taken : List (EnhancedRaftProposal P)} {group : Option (PriorityGroup P)}
    (hr : s.remaining q = taken ++ (group.map PriorityGroup.proposals).getD [])
    (hs : ∀ size ps, group = some (.working size ps) → 0 < size)
    (hn : ∀ group', group = some group' → group'.proposals ≠ []) :
    Orderly maxCapacity taken (s.setGroup q group) := by
  have hall : ∀ p ∈ taken ++ (group.map PriorityGroup.proposals).getD [], p.priority = q := by
    rw [← hr]
    exact h.ofGroup q
  refine { h with
    ofGroup := fun q' p hp => ?_
    inOrder := fun q' => ?_
    noGroups := fun ho => absurd ho hmode.usesGroups
    sizes := fun q' size ps hg => ?_
    nonempty := fun q' group' hg => ?_ }
  · rw [remaining_setGroup] at hp
    split_ifs at hp with hq
    · rw [hq]
      exact hall p (List.mem_append_right _ hp)
    · exact h.ofGroup q' p hp
  · have hi := h.inOrder q'
    show (ofPriority q' (s.sent.flatten ++ taken) ++
      ((s.setGroup q group).remaining q' ++ contents s.priorityBatches q')).Sublist _
    rw [remaining_setGroup, ofPriority_append]
    rw [List.append_nil] at hi
    split_ifs with hq
    · subst hq
      rw [hr, List.append_assoc] at hi
      rw [ofPriority_eq_self fun p hp => hall p (List.mem_append_left _ hp), List.append_assoc]
      exact hi
    · rw [ofPriority_eq_nil (fun p hp => hall p (List.mem_append_left _ hp)) (Ne.symm hq),
        List.append_nil]
      exact hi
  · rw [groups_setGroup] at hg
    split_ifs at hg
    · exact hs size ps hg
    · exact h.sizes q' size ps hg
  · rw [groups_setGroup] at hg
    split_ifs at hg
    · exact hn group' hg
    · exact h.nonempty q' group' hg

theorem orderly_processPriorityGroup (h : Orderly maxCapacity [] s) (hmode : s.Streaming)
    (q : ProposalPriority) (tp : ℕ) :
    Orderly maxCapacity [] (s.processPriorityGroup maxCapacity q tp) := by
  obtain ⟨size', hsize', hs, hcap⟩ := optimalSize_ok h hmode
  fun_cases processPriorityGroup maxCapacity s q tp with
  | case1 | case5 => exact h
  | case2 _ _ _ _ herr => cases hsize'.symm.trans herr
  | case3 _ _ _ size hsize hl =>
    cases hsize'.symm.trans hsize
    exact absurd hcap (Nat.not_le.2 hl)
  | case4 proposals hg hr size hsize =>
    cases hsize'.symm.trans hsize
    refine orderly_setGroup h hmode (remaining_of_group hg) ?_ ?_
    · rintro _ _ ⟨⟩
      exact hs
    · rintro _ ⟨⟩
      exact h.nonempty q (.queued proposals) hg
  | case7 _ _ _ _ hn => exact absurd h.connected (by simp_all)
  | case6 size proposals hg rest =>
    have hm : s.remaining q = proposals := remaining_of_group hg
    have ht : ∀ p ∈ proposals.take size, p.priority = q := fun p hp =>
      h.ofGroup q p (hm ▸ List.mem_of_mem_take hp)
    refine orderly_processSingleBatch (?_ : Orderly maxCapacity (_ ++ []) _) ht tp
    rw [List.append_nil]
    refine orderly_setGroup h hmode ?_ (fun size' ps hw => ?_) fun group hsome => ?_
    · rw [hm]
      split_ifs with he
      · rw [Option.map_none, Option.getD_none, List.append_nil, List.take_of_length_le]
        simpa [rest] using he
      · exact (List.take_append_drop size proposals).symm
    · split_ifs at hw
      cases hw
      exact h.sizes q _ _ hg
    · split_ifs at hsome with he
      cases hsome
      exact fun hnil => he (List.isEmpty_iff.2 hnil)

theorem orderly_step (h : Orderly maxCapacity [] s) {event : BatchProcessorEvent P}
    (hcalm : Calm pf s event) : Orderly maxCapacity [] (s.step pf maxCapacity event) := by
  have hdoes := does_step pf maxCapacity s event
  generalize s.step pf maxCapacity event = s' at hdoes ⊢
  cases hdoes with
  | nothing => exact h
  | passThrough hmode => exact orderly_passThrough h hmode _
  | receive hmode =>
    obtain ⟨hp, hopen⟩ := hcalm hmode
    exact orderly_receive h hmode hp hopen _ _ _
  | @tick clock looks ages throughput order perm hmode =>
    exact orderly_flushReadyBatches h hmode clock looks (hcalm hmode) ages throughput perm
  | cleanup =>
    rw [cleanup_eq_self h.separated (expired_of_all_fresh hcalm)]
    exact h
  | chunk hmode => exact orderly_processProposalChunk h hmode _
  | turn hmode => exact orderly_processPriorityGroup h hmode _ _
  | close => exact hcalm.elim

theorem Orderly.delivers (h : Orderly maxCapacity [] s) (hc : Conserved s) : Delivers s where
  running := h.running
  exactlyOnce := by
    rw [← coe_eq_coe, hc, total, h.dropped, coe_nil, add_zero]
    simp only [← coe_add]
    abel
  onePriority := h.onePriority
  inOrder q := by
    have hi := h.inOrder q
    rw [append_nil] at hi
    exact (sublist_append_left _ _).trans hi

/-! ## What is held is sent -/

def flushTimeout (config : OptimizedBatchConfig) : ProposalPriority → ℕ
  | .critical => 10 ^ 6
  | .high => config.highPriorityThreshold
  | .normal => config.batchTimeoutMs * 10 ^ 6
  | .low => config.batchTimeoutMs * 2 * 10 ^ 6

def AllDue (s : OptimizedRaftBatchProcessor P) (clock : ℕ → ℕ) : Prop :=
  ∀ (i : ℕ) b, s.priorityBatches[i]? = some b →
    flushTimeout s.config b.priority ≤ clock i - b.createdAt

theorem shouldFlush_due (h : Labelled b) {now : ℕ}
    (hdue : flushTimeout cfg b.priority ≤ now - b.createdAt) :
    b.shouldFlush pf cfg now = .ok true := by
  unfold shouldFlush
  rw [if_neg (by simpa using h.nonempty)]
  split_ifs
  · rfl
  cases hp : b.priority with
  | low => exact absurd hp h.notLow
  | normal | high | critical =>
    rw [hp] at hdue
    exact congrArg Except.ok (decide_eq_true hdue)

theorem scan_due {config : OptimizedBatchConfig} (looks : ℕ → ℕ → ℕ) {i : ℕ}
    (h : ∀ b ∈ batches, Labelled b) (hdue : ∀ (j : ℕ) b, batches[j]? = some b →
      flushTimeout config b.priority ≤ clock (i + j) - b.createdAt) :
    scan pf config clock looks i batches = ⟨[], batches, [], false⟩ := by
  induction batches generalizing i with
  | nil => rfl
  | cons b batches ih =>
    obtain ⟨hb, hrest⟩ := forall_mem_cons.1 h
    have hl := @ih (i + 1) hrest fun j b' hb' => by
      rw [Nat.add_right_comm, Nat.add_assoc]
      exact hdue (j + 1) b' hb'
    have hf : b.shouldFlush pf config (clock i) = .ok true := shouldFlush_due hb (hdue 0 b rfl)
    rw [scan, hf]
    dsimp only
    rw [hl]

theorem waiting_tick (h : Orderly maxCapacity [] s) (hdue : AllDue s clock)
    (looks : ℕ → ℕ → ℕ) (ages : EnhancedRaftProposal P → ℕ)
    (throughput : OptimizedProposalBatch P → ℕ)
    (order : List (OptimizedProposalBatch P) → List (OptimizedProposalBatch P))
    (perm : ∀ batches, (order batches).Perm batches) :
    (s.step pf maxCapacity (.tick clock looks ages throughput order perm)).waiting = [] := by
  by_cases hmode : s.config.enabled = false ∨ s.config.enableStreaming = true
  · have hn : s.step pf maxCapacity (.tick clock looks ages throughput order perm) = s :=
      if_pos (by rcases hmode with hmode | hmode <;> simp [hmode])
    rw [hn, waiting, h.noBatches hmode]
    rfl
  obtain ⟨he, hs⟩ := not_or.1 hmode
  have hr : s.Traditional :=
    ⟨h.running, by simpa using he, by simpa using hs⟩
  rw [step_tick hr, flushReadyBatches]
  dsimp only
  rw [scan_due looks h.separated.labelled fun j b hb => by rw [Nat.zero_add]; exact hdue j b hb,
    if_neg (by simp [Nat.pos_iff_ne_zero.1 h.sane.concurrent]), waiting,
    (frame_processBatches throughput _ _).2.2.2]
  rfl

def cost : Option (PriorityGroup P) → ℕ
  | none => 0
  | some (.queued ps) => ps.length + 1
  | some (.working _ ps) => ps.length

def work (s : OptimizedRaftBatchProcessor P) : ℕ :=
  (allPriorities.map fun q => cost (s.groups q)).sum

def IsRound (turns : List (ProposalPriority × ℕ)) : Prop := ∀ q, q ∈ turns.map Prod.fst

def takeTurns (pf : Platform) (maxCapacity : ℕ) (s : OptimizedRaftBatchProcessor P)
    (turns : List (ProposalPriority × ℕ)) : OptimizedRaftBatchProcessor P :=
  turns.foldl (fun s turn => s.step pf maxCapacity (.turn turn.1 turn.2)) s

theorem work_setGroup (group : Option (PriorityGroup P)) :
    (s.setGroup q group).work + cost (s.groups q) = s.work + cost group := by
  simp only [work, allPriorities, List.map_cons, List.map_nil, List.sum_cons, List.sum_nil,
    groups_setGroup]
  cases q <;> simp only [reduceCtorEq, if_true, if_false] <;> omega

@[simp] theorem work_processSingleBatch : (s.processSingleBatch tp batch).work = s.work := by
  rw [work, groups_processSingleBatch, work]

theorem work_lt_of_working (h : Orderly maxCapacity [] s)
    (hg : s.groups q = some (.working size ps)) :
    (s.processPriorityGroup maxCapacity q tp).work < s.work := by
  have hsize := h.sizes q size ps hg
  have hne : 0 < ps.length := length_pos_iff.2 (h.nonempty q _ hg)
  have hcost : cost (if (ps.drop size).isEmpty then none
      else some (working size (ps.drop size))) = ps.length - size := by
    split_ifs with he
    · have hs : ps.length ≤ size := by simpa using he
      exact (Nat.sub_eq_zero_of_le hs).symm
    · exact length_drop
  have hb := work_setGroup (s := s) (q := q) (if (ps.drop size).isEmpty then none
      else some (working size (ps.drop size)))
  rw [hcost, hg] at hb
  rw [processPriorityGroup, hg]
  dsimp only
  rw [h.connected, Bool.true_or, if_pos rfl, work_processSingleBatch]
  simp only [cost] at hb
  omega

theorem work_lt_of_queued (h : Orderly maxCapacity [] s) (hmode : s.Streaming)
    (hg : s.groups q = some (.queued ps))
    (hp : s.workingGroups < s.config.maxConcurrentBatches) :
    (s.processPriorityGroup maxCapacity q tp).work < s.work := by
  obtain ⟨size, hsize, -, hc⟩ := optimalSize_ok h hmode
  have hb := work_setGroup (s := s) (q := q) (some (working size ps))
  rw [processPriorityGroup, hg]
  dsimp only
  rw [if_pos hp, hsize]
  dsimp only
  rw [if_neg (Nat.not_lt.2 hc)]
  rw [hg] at hb
  simp only [cost] at hb
  omega

theorem turn_cases (h : Orderly maxCapacity [] s) (hmode : s.Streaming) (q : ProposalPriority)
    (tp : ℕ) : s.processPriorityGroup maxCapacity q tp = s ∨
      (s.processPriorityGroup maxCapacity q tp).work < s.work := by
  cases hg : s.groups q with
  | none => exact .inl (by rw [processPriorityGroup, hg])
  | some group =>
    cases group with
    | working size ps => exact .inr (work_lt_of_working h hg)
    | queued ps =>
      by_cases hp : s.workingGroups < s.config.maxConcurrentBatches
      · exact .inr (work_lt_of_queued h hmode hg hp)
      refine .inl ?_
      rw [processPriorityGroup, hg]
      dsimp only
      rw [if_neg hp]

theorem orderly_takeTurns (h : Orderly maxCapacity [] s) (turns : List (ProposalPriority × ℕ)) :
    Orderly maxCapacity [] (takeTurns pf maxCapacity s turns) := by
  refine foldl_keeps (fun s turn (hs : Orderly maxCapacity [] s) => ?_) h turns
  have hcalm : Calm pf s (.turn turn.1 turn.2) := trivial
  exact orderly_step hs hcalm

theorem config_processPriorityGroup (q : ProposalPriority) (tp : ℕ) :
    (s.processPriorityGroup maxCapacity q tp).config = s.config := by
  fun_cases processPriorityGroup maxCapacity s q tp with
  | case1 | case2 | case3 | case4 | case5 => rfl
  | case6 => exact config_processSingleBatch
  | case7 => unfold failBatch; split_ifs <;> rfl

theorem takeTurns_cases (h : Orderly maxCapacity [] s) (hmode : s.Streaming)
    (turns : List (ProposalPriority × ℕ)) : (takeTurns pf maxCapacity s turns = s ∧
      ∀ turn ∈ turns, s.processPriorityGroup maxCapacity turn.1 turn.2 = s) ∨
      (takeTurns pf maxCapacity s turns).work < s.work := by
  induction turns generalizing s with
  | nil => exact .inl ⟨rfl, by simp⟩
  | cons turn turns ih =>
    have hf : takeTurns pf maxCapacity s (turn :: turns) =
        takeTurns pf maxCapacity (s.processPriorityGroup maxCapacity turn.1 turn.2) turns := by
      rw [takeTurns, List.foldl_cons, step_turn hmode, ← takeTurns]
    rw [hf]
    rcases turn_cases h hmode turn.1 turn.2 with hsame | hless
    · rw [hsame]
      refine (ih h hmode).imp_left fun ⟨hall, hrest⟩ => ⟨hall, fun other ho => ?_⟩
      rcases List.mem_cons.1 ho with rfl | ho
      · exact hsame
      · exact hrest other ho
    have hnext := orderly_processPriorityGroup h hmode turn.1 turn.2
    have hmode' : (s.processPriorityGroup maxCapacity turn.1 turn.2).Streaming :=
      ⟨hnext.running, by rw [config_processPriorityGroup, hmode.enabled],
        by rw [config_processPriorityGroup, hmode.mode]⟩
    rcases ih hnext hmode' with ⟨hall, -⟩ | hrest
    · rw [hall]
      exact .inr hless
    · exact .inr (hrest.trans hless)

theorem cost_pos (h : Orderly maxCapacity [] s)
    (hg : s.groups q = some group) : 0 < cost (s.groups q) := by
  have hne := h.nonempty q group hg
  rw [hg]
  cases group with
  | queued ps => exact Nat.succ_pos _
  | working size ps => exact length_pos_iff.2 hne

theorem work_round_lt (h : Orderly maxCapacity [] s) (hmode : s.Streaming) (hwork : 0 < s.work)
    {turns : List (ProposalPriority × ℕ)} (hr : IsRound turns) :
    (takeTurns pf maxCapacity s turns).work < s.work := by
  refine (takeTurns_cases h hmode turns).resolve_left fun ⟨_, hn⟩ => ?_
  have hs (q : ProposalPriority) : ∃ tp,
      s.processPriorityGroup maxCapacity q tp = s := by
    obtain ⟨turn, hturn, rfl⟩ := mem_map.1 (hr q)
    exact ⟨turn.2, hn turn hturn⟩
  have hnone (q : ProposalPriority)
      (hless : ∀ tp, (s.processPriorityGroup maxCapacity q tp).work < s.work) :
      False := by
    obtain ⟨tp, hsame⟩ := hs q
    exact Nat.lt_irrefl _ (hsame ▸ hless tp)
  by_cases hw : ∃ q size ps, s.groups q = some (.working size ps)
  · obtain ⟨q, size, ps, hg⟩ := hw
    exact hnone q fun _ => work_lt_of_working h hg
  have hidle : s.workingGroups = 0 := by
    refine length_eq_zero_iff.2 (filter_eq_nil_iff.2 fun q _ => ?_)
    split
    · rename_i size ps hg
      exact absurd ⟨q, size, ps, hg⟩ hw
    · exact Bool.false_ne_true
  obtain ⟨q, hq⟩ : ∃ q, s.groups q ≠ none := by
    by_contra hall
    have hall (q : ProposalPriority) : s.groups q = none := by
      by_contra hq
      exact hall ⟨q, hq⟩
    simp [work, hall, cost] at hwork
  obtain ⟨group, hg⟩ := Option.ne_none_iff_exists'.1 hq
  cases group with
  | working size ps => exact hw ⟨q, size, ps, hg⟩
  | queued ps =>
    refine hnone q fun _ => work_lt_of_queued h hmode hg ?_
    rw [hidle]
    exact h.sane.concurrent

theorem config_takeTurns (turns : List (ProposalPriority × ℕ)) :
    (takeTurns pf maxCapacity s turns).config = s.config := by
  refine foldl_keeps (P := fun s' : OptimizedRaftBatchProcessor P => s'.config = s.config)
    (fun s' turn h => ?_) rfl turns
  simp only [step]
  split_ifs
  · exact h
  · rw [config_processPriorityGroup, h]

theorem work_rounds (h : Orderly maxCapacity [] s) (hmode : s.Streaming)
    (hr : ∀ turns ∈ rs, IsRound turns) (hwork : s.work ≤ rs.length) :
    (rs.foldl (takeTurns pf maxCapacity) s).work = 0 := by
  induction rs generalizing s with
  | nil => exact Nat.le_zero.1 hwork
  | cons turns rs ih =>
    obtain ⟨ht, hr⟩ := forall_mem_cons.1 hr
    have hnext : Orderly maxCapacity [] (takeTurns pf maxCapacity s turns) :=
      orderly_takeTurns h turns
    have hmode' : (takeTurns pf maxCapacity s turns).Streaming :=
      ⟨hnext.running, by rw [config_takeTurns, hmode.enabled], by rw [config_takeTurns, hmode.mode]⟩
    rw [length_cons] at hwork
    refine ih hnext hmode' hr ?_
    rcases Nat.eq_zero_or_pos s.work with hzero | hpos
    · rcases @takeTurns_cases P pf maxCapacity s h hmode turns with ⟨hsame, -⟩ | hless
      · rw [hsame, hzero]
        exact Nat.zero_le _
      · omega
    · have hless : (takeTurns pf maxCapacity s turns).work < s.work :=
        work_round_lt h hmode hpos ht
      omega

theorem inWork_rounds (h : Orderly maxCapacity [] s) (hr : ∀ turns ∈ rs, IsRound turns)
    (hwork : s.work ≤ rs.length) : (rs.foldl (takeTurns pf maxCapacity) s).inWork = [] := by
  have hlast : Orderly maxCapacity [] (rs.foldl (takeTurns pf maxCapacity) s) :=
    foldl_keeps (fun s turns (hs : Orderly maxCapacity [] s) => orderly_takeTurns hs turns)
      h rs
  have hc : (rs.foldl (takeTurns pf maxCapacity) s).config = s.config :=
    foldl_keeps (P := fun s' : OptimizedRaftBatchProcessor P => s'.config = s.config)
      (fun _ turns hs => (config_takeTurns turns).trans hs) rfl rs
  have hnone : ∀ q, (rs.foldl (takeTurns pf maxCapacity) s).groups q = none := by
    by_cases hmode : s.config.enabled = false ∨ s.config.enableStreaming = false
    · exact hlast.noGroups (hc ▸ hmode)
    obtain ⟨he, ht⟩ := not_or.1 hmode
    have hzero : (rs.foldl (takeTurns pf maxCapacity) s).work = 0 :=
      work_rounds h ⟨h.running, by simpa using he, by simpa using ht⟩ hr hwork
    intro q
    by_contra hq
    obtain ⟨group, hg⟩ := Option.ne_none_iff_exists'.1 hq
    have hpos := cost_pos hlast hg
    have hle := le_sum_of_mem (mem_map_of_mem
      (f := fun q => cost ((rs.foldl (takeTurns pf maxCapacity) s).groups q))
      (mem_allPriorities q))
    rw [← work, hzero] at hle
    exact Nat.lt_irrefl 0 (hpos.trans_le hle)
  refine flatMap_eq_nil_iff.2 fun q _ => ?_
  rw [remaining, hnone q]
  rfl

/-! ## Delivery -/

/-- **Delivery along calm runs**: every proposal is sent once or answered, in batches of one
    priority and in order, and what is held is sent by the next tick or turns. -/
theorem delivers_along (pf : Platform) (maxCapacity : ℕ) (config : OptimizedBatchConfig)
    (hsane : Sane maxCapacity config) (events : List (BatchProcessorEvent P))
    (hcalm : Run.Along (step pf maxCapacity) (Calm pf) (start maxCapacity config) events) :
    let s := events.foldl (step pf maxCapacity) (start maxCapacity config)
    Delivers s ∧
      (∀ clock looks ages throughput order perm, AllDue s clock →
        (s.step pf maxCapacity (.tick clock looks ages throughput order perm)).waiting = []) ∧
      ∀ rounds : List (List (ProposalPriority × ℕ)), (∀ turns ∈ rounds, IsRound turns) →
        s.work ≤ rounds.length → (rounds.foldl (takeTurns pf maxCapacity) s).inWork = [] := by
  have horderly : Orderly maxCapacity [] (events.foldl (step pf maxCapacity)
      (start maxCapacity config)) :=
    Run.invariant (fun s _ (hs : Orderly maxCapacity [] s) hevent => orderly_step hs hevent)
      (orderly_start hsane) hcalm _ (Run.foldl_mem_scanl _ _)
  exact ⟨horderly.delivers (conserved config events),
    fun _ looks ages throughput order perm hdue =>
      waiting_tick horderly hdue looks ages throughput order perm,
    fun _ hrounds hwork => inWork_rounds horderly hrounds hwork⟩

def traditional : OptimizedBatchConfig := { enableStreaming := false }

def submitted (inner : ℕ) (priority : ProposalPriority) (timeout : Option ℕ) :
    EnhancedRaftProposal ℕ :=
  ⟨inner, priority, 0, 100, timeout⟩

def laterTick : BatchProcessorEvent ℕ :=
  .tick (fun _ => 10 ^ 7) (fun _ _ => 10 ^ 7) (fun _ => 0) (fun _ => 1) id fun _ => .rfl

def highAndNormal : List (BatchProcessorEvent ℕ) :=
  [.proposal (submitted 1 .high none) 0 0 1, .proposal (submitted 2 .normal none) 0 0 1, laterTick]

theorem delivers_along_highAndNormal :
    let pf : Platform := ⟨true, IpNet.contains, 0, fun _ _ => 0⟩
    Run.Along (step pf 1000) (Calm pf) (start 1000 traditional) highAndNormal ∧
      Delivers (highAndNormal.foldl (step pf 1000) (start 1000 traditional)) := by
  intro pf
  have hsane : Sane 1000 traditional :=
    ⟨by decide, by decide, by decide, by decide, by decide, by decide⟩
  have hcalm : Run.Along (step pf 1000) (Calm pf) (start 1000 traditional) highAndNormal := by
    refine ⟨fun _ => ⟨by decide, by decide +kernel⟩, fun _ => ⟨by decide, by decide +kernel⟩,
      fun _ => ?_, trivial⟩
    decide +kernel
  exact ⟨hcalm, (delivers_along pf 1000 traditional hsane highAndNormal hcalm).1⟩

def lowAndNormal : List (BatchProcessorEvent ℕ) :=
  [.proposal (submitted 1 .low none) 0 0 1, .proposal (submitted 2 .normal none) 0 0 1, laterTick]

def expiredInTask : List (BatchProcessorEvent ℕ) :=
  [.proposal (submitted 1 .normal (some 0)) 0 0 1, .cleanup fun _ _ => 1]

/-- Proposals of two priorities are sent in one batch, and one that has expired is dropped
    without an answer. -/
theorem mixed_batch :
    let pf : Platform := ⟨true, IpNet.contains, 0, fun _ _ => 0⟩
    let s := lowAndNormal.foldl (step pf 1000) (start 1000 traditional)
    let s' := expiredInTask.foldl (step pf 1000) (start 1000 traditional)
    s.sent = [[submitted 1 .low none, submitted 2 .normal none]] ∧ ¬ Delivers s ∧
      s'.sent = [] ∧ s'.answered = [] ∧ s'.waiting = [] ∧ s'.inWork = [] ∧ ¬ Delivers s' := by
  intro pf s s'
  have hsent : s.sent = [[submitted 1 .low none, submitted 2 .normal none]] := by decide +kernel
  refine ⟨hsent, fun h => ?_, rfl, rfl, rfl, rfl, fun h => ?_⟩
  · obtain ⟨q, hq⟩ := h.onePriority _ (hsent ▸ List.mem_singleton_self _)
    have hlow := hq (submitted 1 .low none) List.mem_cons_self
    have hnormal := hq (submitted 2 .normal none) (List.mem_cons_of_mem _ List.mem_cons_self)
    exact absurd (hlow.trans hnormal.symm) (by decide)
  · exact absurd h.exactlyOnce.length_eq Nat.one_ne_zero

end OptimizedRaftBatchProcessor

end Blixard
