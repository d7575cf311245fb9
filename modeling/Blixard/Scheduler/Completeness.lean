/-
  When strategies find a node.

  Whoever passes the filter has some of each resource left, so that its score can be calculated;
  from there on no strategy has a reason to fail.
-/
import Blixard.Scheduler.Placement

namespace Blixard

open List NodeResourceUsage

namespace PlacementEnv

variable {F : Type} [Score F] {env : PlacementEnv F} {context : SchedulingContext F}
  {vmConfig : VmConfig} {strategy : PlacementStrategy F} {node : ContextNode F}

/-- Strategies that rank all nodes, and priorities without preemption around them. -/
inductive Ranks : PlacementStrategy F → Prop
  | mostAvailable : Ranks .mostAvailable
  | leastAvailable : Ranks .leastAvailable
  | roundRobin : Ranks .roundRobin
  | costOptimized (maxCostIncrease : F) (includeNetworkCosts : Bool) :
    Ranks (.costOptimized maxCostIncrease includeNetworkCosts)
  | priorityBased {baseStrategy : PlacementStrategy F} (h : Ranks baseStrategy) :
    Ranks (.priorityBased baseStrategy false)

/-- No more is used than there is. -/
structure Covered (node : NodeResourceUsage) : Prop where
  vcpus : node.usedVcpus ≤ node.capabilities.cpuCores
  memoryMb : node.usedMemoryMb ≤ node.capabilities.memoryMb
  diskGb : node.usedDiskGb ≤ node.capabilities.diskGb

omit [Score F] in
theorem covered_of_candidate (hvcp : 0 < vmConfig.vcpus) (hmry : 0 < vmConfig.memory)
    (hrqr : context.requirements = .ofConfig vmConfig)
    (hnode : node ∈ filterCandidateNodes context vmConfig) : Covered node.toNodeResourceUsage := by
  obtain ⟨-, hfeasible⟩ := mem_filterCandidateNodes.1 hnode
  have hcpu := hfeasible.vcpus
  have hmem := hfeasible.memoryMb
  have hdisk := hfeasible.diskGb
  simp only [hrqr, VmResourceRequirements.ofConfig] at hcpu hmem hdisk
  exact ⟨by omega, by omega, by omega⟩

theorem availablePart_ok {pf : Platform} {w total used : ℕ} (h : used ≤ total) :
    ∃ part : F, availablePart pf w total used = .ok part := by
  unfold availablePart
  split_ifs
  · rw [Platform.subUnsigned, if_neg fun hu => Nat.not_lt.2 h hu.2]
    exact ⟨_, rfl⟩
  · exact ⟨_, rfl⟩

theorem score_ok {pf : Platform} {node : NodeResourceUsage} (h : Covered node) :
    ∃ score : F, node.calculateAvailabilityScore pf = .ok score := by
  unfold calculateAvailabilityScore
  obtain ⟨cpu, hcpu⟩ := @availablePart_ok F _ pf 32 _ _ h.vcpus
  obtain ⟨memory, hmem⟩ := @availablePart_ok F _ pf 64 _ _ h.memoryMb
  obtain ⟨disk, hdisk⟩ := @availablePart_ok F _ pf 64 _ _ h.diskGb
  split_ifs
  · exact ⟨_, rfl⟩
  · rw [hcpu, hmem, hdisk]
    exact ⟨_, rfl⟩

variable (env)

variable (replaces : Ordering → Bool)

theorem better_ok {best : ContextNode F}
    (hbest : Covered best.toNodeResourceUsage) (hnode : Covered node.toNodeResourceUsage) :
    ∃ next, env.better replaces best node = .ok next ∧ Covered next.toNodeResourceUsage := by
  obtain ⟨bestScore, hb⟩ := @score_ok F _ env.platform _ hbest
  obtain ⟨score, hs⟩ := @score_ok F _ env.platform _ hnode
  rw [better, hb, hs]
  refine ⟨_, rfl, ?_⟩
  split_ifs
  · exact hnode
  · exact hbest

theorem selectBy_ok {nodes : List (ContextNode F)} (hne : nodes ≠ [])
    (hcov : ∀ node ∈ nodes, Covered node.toNodeResourceUsage) :
    ∃ best, env.selectBy replaces nodes = .ok (some best) ∧
      ∃ score : F, best.calculateAvailabilityScore env.platform = .ok score := by
  cases nodes with
  | nil => exact absurd rfl hne
  | cons first rest =>
    obtain ⟨hf, hrest⟩ := forall_mem_cons.1 hcov
    suffices h : ∃ best, rest.foldlM (env.better replaces) first = .ok best ∧
        Covered best.toNodeResourceUsage by
      obtain ⟨best, hbest, hc⟩ := h
      exact ⟨best, by rw [selectBy, hbest]; rfl, score_ok hc⟩
    clear hcov hne
    induction rest generalizing first with
    | nil => exact ⟨first, rfl, hf⟩
    | cons node rest ih =>
      obtain ⟨hnode, hrest⟩ := forall_mem_cons.1 hrest
      obtain ⟨next, hnext, hc⟩ := better_ok env replaces hf hnode
      rw [foldlM_cons, hnext]
      exact ih next hc hrest

theorem costOptimized_ok (maxCostIncrease : F) (includeNetworkCosts : Bool)
    (hne : filterCandidateNodes context vmConfig ≠ []) :
    ∃ decision, env.applyCostOptimizedStrategy context vmConfig maxCostIncrease
      includeNetworkCosts = .ok decision := by
  simp only [applyCostOptimizedStrategy, if_neg hne]
  have hperm := env.sortByCost_perm ((filterCandidateNodes context vmConfig).map fun node =>
    (node.nodeId, calculatePlacementCost node vmConfig includeNetworkCosts))
  generalize env.sortByCost _ = nodeCosts at hperm
  cases nodeCosts with
  | nil => exact absurd (map_eq_nil_iff.1 (nil_perm.1 hperm)) hne
  | cons cheapest rest =>
    dsimp only
    have hbest : ((cheapest :: rest).find? fun cost =>
        Score.le cost.2 (cheapest.2 * (1.0 + maxCostIncrease / 100.0))).getD cheapest ∈
          cheapest :: rest := by
      cases hfind : (cheapest :: rest).find? _ with
      | none => exact mem_cons_self
      | some cost => exact mem_of_find?_eq_some hfind
    generalize ((cheapest :: rest).find? _).getD cheapest = best at hbest
    -- the cost is that of a candidate
    obtain ⟨node, hnode, rfl⟩ := mem_map.1 (hperm.mem_iff.1 hbest)
    cases hfind : (filterCandidateNodes context vmConfig).find? _ with
    | none => exact absurd (decide_eq_true rfl) (find?_eq_none.1 hfind node hnode)
    | some bestNode => exact ⟨_, rfl⟩

theorem decides (hs : Ranks strategy) (hne : filterCandidateNodes context vmConfig ≠ [])
    (hc : ∀ node ∈ filterCandidateNodes context vmConfig, Covered node.toNodeResourceUsage) :
    ∃ decision, env.applyPlacementStrategy context vmConfig strategy = .ok decision := by
  induction hs with
  | mostAvailable =>
    obtain ⟨best, hl, score, hr⟩ := selectBy_ok env (fun o => o ≠ .gt) hne hc
    rw [applyPlacementStrategy, applyMostAvailableStrategy, if_neg hne, hl]
    dsimp only [bind, Except.bind]
    rw [hr]
    exact ⟨_, rfl⟩
  | leastAvailable =>
    obtain ⟨best, hl, score, hr⟩ := selectBy_ok env (fun o => o = .gt) hne hc
    rw [applyPlacementStrategy, applyLeastAvailableStrategy, if_neg hne, hl]
    dsimp only [bind, Except.bind]
    rw [hr]
    exact ⟨_, rfl⟩
  | roundRobin =>
    obtain ⟨first, rest, hn⟩ := exists_cons_of_ne_nil hne
    rw [applyPlacementStrategy, applyRoundRobinStrategy, hn]
    exact ⟨_, rfl⟩
  | costOptimized maxCostIncrease includeNetworkCosts =>
    exact costOptimized_ok env maxCostIncrease includeNetworkCosts hne
  | priorityBased _ ih =>
    obtain ⟨decision, hd⟩ := ih
    exact ⟨decision, by rw [applyPlacementStrategy, hd]⟩

/-- **Completeness of placements**: a strategy that ranks all nodes decides exactly if there is a
    node that can accommodate the machine and that the hard rules allow; and no node is scored
    that uses more than it has. -/
theorem placement_complete (env : PlacementEnv F) (context : SchedulingContext F)
    (vmConfig : VmConfig) (strategy : PlacementStrategy F) (hvcpus : 0 < vmConfig.vcpus)
    (hmemory : 0 < vmConfig.memory) (hrequirements : context.requirements = .ofConfig vmConfig)
    (hstrategy : Ranks strategy) :
    ((∃ decision, env.applyPlacementStrategy context vmConfig strategy = .ok decision) ↔
      ∃ node ∈ context.nodeUsage, node.canAccommodate context.requirements ∧
        checkAntiAffinity context vmConfig node.nodeId = .ok ()) ∧
      ∀ node ∈ filterCandidateNodes context vmConfig, Covered node.toNodeResourceUsage := by
  have hcovered (node : ContextNode F) (hnode : node ∈ filterCandidateNodes context vmConfig) :
      Covered node.toNodeResourceUsage :=
    covered_of_candidate hvcpus hmemory hrequirements hnode
  refine ⟨⟨?_, ?_⟩, hcovered⟩
  · rintro ⟨decision, hdecision⟩
    obtain ⟨node, hnode, -, hfeasible⟩ := (sound_of_decision strategy hdecision).target
    exact ⟨node, hnode, feasible_iff.1 hfeasible⟩
  rintro ⟨node, hnode, hfeasible⟩
  have hcandidate : node ∈ filterCandidateNodes context vmConfig :=
    mem_filterCandidateNodes.2 ⟨hnode, feasible_iff.2 hfeasible⟩
  exact decides env hstrategy (List.ne_nil_of_mem hcandidate) hcovered

/-- The hard rule forbids node 1, and there are two nodes more. -/
theorem placement_complete_web :
    let checker := AntiAffinityChecker.new [("web-1", ["web"], 1)]
    let context : SchedulingContext ℕ :=
      ⟨.ofConfig webConfig, [idleNode 1, idleNode 2, idleNode 3], some checker⟩
    checkAntiAffinity context webConfig 1 ≠ .ok () ∧
      ∃ decision, @applyPlacementStrategy ℕ wholeScores plainEnv context webConfig
        (.priorityBased .leastAvailable false) = .ok decision := by
  intro checker context
  refine ⟨by decide +kernel, (@placement_complete ℕ wholeScores plainEnv context webConfig
    (.priorityBased .leastAvailable false) (by decide) (by decide) rfl
    (.priorityBased .leastAvailable)).1.2 ⟨idleNode 2, by simp [context], by decide, ?_⟩⟩
  decide +kernel

end PlacementEnv

end Blixard
