/-
  Placement strategies (`vm_scheduler_modules/placement_strategies.rs`) and the check of
  anti-affinity rules (`anti_affinity.rs`).

  Floating-point numbers are an arbitrary type with the operations that are used (`Score`), the
  hash of a name and the sorting of costs are parameters.
-/
import Blixard.Scheduler

namespace Blixard

open List

/-! ## Anti-affinity -/

structure AntiAffinityChecker where
  groupDistribution : Table String (Table ℕ ℕ)

namespace AntiAffinityChecker

def addToGroup (nodeId : ℕ) (distribution : Table String (Table ℕ ℕ)) (group : String) :
    Table String (Table ℕ ℕ) :=
  let nodeCounts := distribution[group]?.getD ∅
  distribution.insert group (nodeCounts.insert nodeId (nodeCounts[nodeId]?.getD 0 + 1))

def new (vmDistribution : List (String × List String × ℕ)) : AntiAffinityChecker where
  groupDistribution :=
    vmDistribution.foldl (fun distribution vm => vm.2.1.foldl (addToGroup vm.2.2) distribution) ∅

variable (checker : AntiAffinityChecker)

def currentCount (group : String) (nodeId : ℕ) : ℕ :=
  (checker.groupDistribution[group]?.bind fun nodes => nodes[nodeId]?).getD 0

def checkHardConstraints (rules : List AntiAffinityRule) (candidateNode : ℕ) :
    Except String Unit :=
  (rules.filter fun rule => rule.ruleType = .hard).forM fun rule =>
    let currentCount := checker.currentCount rule.groupKey candidateNode
    if rule.maxPerNode ≤ currentCount then
      .error (s!"Hard anti-affinity constraint violated: group '{rule.groupKey}' already has " ++
        s!"{currentCount} VMs on node {candidateNode} (max: {rule.maxPerNode})")
    else .ok ()

/-- The name of the machine is not looked at. -/
def checkPlacement (_vmName : String) (candidateNode : ℕ) (rules : List AntiAffinityRule) :
    Except String Unit :=
  checker.checkHardConstraints rules candidateNode

/-- Every hard rule leaves room for one more machine on the node. -/
def Allows (rules : List AntiAffinityRule) (nodeId : ℕ) : Prop :=
  ∀ rule ∈ rules, rule.ruleType = .hard →
    checker.currentCount rule.groupKey nodeId < rule.maxPerNode

variable {checker} {rules : List AntiAffinityRule} {nodeId : ℕ}

theorem checkPlacement_ok {vm : String} :
    checker.checkPlacement vm nodeId rules = .ok () ↔ checker.Allows rules nodeId := by
  rw [checkPlacement, checkHardConstraints, forM_eq_ok]
  simp only [mem_filter, decide_eq_true_eq, and_imp, Allows]
  refine forall₃_congr fun rule _ _ => ?_
  split_ifs with h
  · simp [h]
  · simpa using h

end AntiAffinityChecker

/-! ## Nodes -/

/-- The numbers that nodes are ranked by.  Nothing is assumed about them. -/
class Score (F : Type) extends Add F, Sub F, Mul F, Div F, Max F, NatCast F, OfScientific F where
  partialCmp : F → F → Option Ordering
  twoDigits : F → String

namespace Score

variable {F : Type} [Score F]

/-- Numbers that do not compare count as equal. -/
def compare (a b : F) : Ordering := (partialCmp a b).getD .eq

def le (a b : F) : Bool := partialCmp a b = some .lt ∨ partialCmp a b = some .eq

end Score

structure VmResourceRequirements where
  vcpus : ℕ
  memoryMb : ℕ
  diskGb : ℕ
  requiredFeatures : List String

def VmResourceRequirements.ofConfig (config : VmConfig) : VmResourceRequirements :=
  ⟨config.vcpus, config.memory, 5, ["microvm"]⟩

/-- A node of the report with its price, which the report itself never has. -/
structure ContextNode (F : Type) extends NodeResourceUsage where
  costPerHour : Option F

namespace NodeResourceUsage

variable (node : NodeResourceUsage) {F : Type} [Score F]

def canAccommodate (requirements : VmResourceRequirements) : Bool :=
  if !node.isHealthy then false
  else if node.capabilities.cpuCores - node.usedVcpus < requirements.vcpus then false
  else if node.capabilities.memoryMb - node.usedMemoryMb < requirements.memoryMb then false
  else if node.capabilities.diskGb - node.usedDiskGb < requirements.diskGb then false
  else requirements.requiredFeatures.all fun feature => feature ∈ node.capabilities.features

/-- The part of a resource that is available; unlike in `can_accommodate`, a use above the
    capacity overflows. -/
def availablePart (pf : Platform) (w total used : ℕ) : Except Failure F :=
  if 0 < total then do
    let available ← pf.subUnsigned w total used
    .ok ((available : F) / (total : F))
  else .ok 0.0

def calculateAvailabilityScore (pf : Platform) : Except Failure F :=
  if !node.isHealthy then .ok 0.0
  else do
    let cpuAvailable : F ← availablePart pf 32 node.capabilities.cpuCores node.usedVcpus
    let memoryAvailable : F ← availablePart pf 64 node.capabilities.memoryMb node.usedMemoryMb
    let diskAvailable : F ← availablePart pf 64 node.capabilities.diskGb node.usedDiskGb
    .ok ((cpuAvailable * 0.4 + memoryAvailable * 0.4 + diskAvailable * 0.2) * 100.0)

def calculateResourceFitScore (requirements : VmResourceRequirements) : F :=
  let cpuFit : F := (requirements.vcpus : F) / (node.capabilities.cpuCores : F)
  let memoryFit : F := (requirements.memoryMb : F) / (node.capabilities.memoryMb : F)
  let diskFit : F := (requirements.diskGb : F) / (node.capabilities.diskGb : F)
  max (1.0 - (cpuFit + memoryFit + diskFit) / 3.0) 0.0 * 100.0

end NodeResourceUsage

/-! ## Strategies -/

inductive PlacementStrategy (F : Type) where
  | mostAvailable
  | leastAvailable
  | roundRobin
  | manual (nodeId : ℕ)
  | priorityBased (baseStrategy : PlacementStrategy F) (enablePreemption : Bool)
  | localityAware (baseStrategy : PlacementStrategy F) (strict : Bool)
  | spreadAcrossFailureDomains (minDomains : ℕ) (spreadLevel : String)
  | costOptimized (maxCostIncrease : F) (includeNetworkCosts : Bool)

structure PlacementDecision (F : Type) where
  targetNodeId : ℕ
  strategyUsed : String
  confidenceScore : F
  preemptedVms : List String
  resourceFitScore : F
  alternativeNodes : List ℕ
  reason : String
  selectedNodeId : ℕ

structure SchedulingContext (F : Type) where
  requirements : VmResourceRequirements
  nodeUsage : List (ContextNode F)
  antiAffinityChecker : Option AntiAffinityChecker

/-- The build, the hash of strings, and the sorting of costs, whose result is not specified
    where numbers do not compare. -/
structure PlacementEnv (F : Type) where
  platform : Platform
  stringHash : String → ℕ
  sortByCost : List (ℕ × F) → List (ℕ × F)
  sortByCost_perm : ∀ costs, (sortByCost costs).Perm costs

namespace PlacementEnv

variable {F : Type} [Score F] (env : PlacementEnv F) (context : SchedulingContext F)
  (vmConfig : VmConfig)

def schedulingError (message : String) : Except Failure (PlacementDecision F) :=
  .error (.error (.schedulingError message))

def filterCandidateNodes : List (ContextNode F) :=
  let candidateNodes := context.nodeUsage.filter fun node =>
    node.canAccommodate context.requirements
  match context.antiAffinityChecker, vmConfig.antiAffinity with
  | some checker, some rules => candidateNodes.filter fun node =>
      (checker.checkPlacement vmConfig.name node.nodeId rules).isOk
  | _, _ => candidateNodes

/-- Compare a node with the best one so far; `replaces` says when it takes its place. -/
def better (replaces : Ordering → Bool) (best node : ContextNode F) :
    Except Failure (ContextNode F) := do
  let bestScore : F ← best.calculateAvailabilityScore env.platform
  let score ← node.calculateAvailabilityScore env.platform
  .ok (if replaces (Score.compare bestScore score) then node else best)

/-- `max_by` and `min_by` over the availability. -/
def selectBy (replaces : Ordering → Bool) :
    List (ContextNode F) → Except Failure (Option (ContextNode F))
  | [] => .ok none
  | first :: rest => do
    let best ← rest.foldlM (env.better replaces) first
    .ok (some best)

def alternatives (candidateNodes : List (ContextNode F)) (target : ℕ) : List ℕ :=
  ((candidateNodes.filter fun node => node.nodeId ≠ target).take 3).map (·.nodeId)

/-- The loop over the first four candidates, of which the target may be one. -/
def alternativesOfFour (candidateNodes : List (ContextNode F)) (target : ℕ) : List ℕ :=
  (candidateNodes.take 4).foldl (fun found node =>
    if node.nodeId ≠ target ∧ found.length < 3 then found ++ [node.nodeId] else found) []

def applyMostAvailableStrategy : Except Failure (PlacementDecision F) :=
  let candidateNodes := filterCandidateNodes context vmConfig
  if candidateNodes = [] then schedulingError "No suitable nodes found for VM placement"
  else do
    match ← env.selectBy (fun o => o ≠ .gt) candidateNodes with
    | none => schedulingError "No candidate nodes available after filtering"
    | some bestNode =>
      let confidenceScore ← bestNode.calculateAvailabilityScore env.platform
      let resourceFitScore := bestNode.calculateResourceFitScore context.requirements
      .ok {
        targetNodeId := bestNode.nodeId
        strategyUsed := "MostAvailable"
        confidenceScore
        preemptedVms := []
        resourceFitScore
        alternativeNodes := alternativesOfFour candidateNodes bestNode.nodeId
        reason := s!"Selected node {bestNode.nodeId} with highest resource availability " ++
          s!"(score: {Score.twoDigits resourceFitScore})"
        selectedNodeId := bestNode.nodeId }

def applyLeastAvailableStrategy : Except Failure (PlacementDecision F) :=
  let candidateNodes := filterCandidateNodes context vmConfig
  if candidateNodes = [] then schedulingError "No suitable nodes found for VM placement"
  else do
    match ← env.selectBy (fun o => o = .gt) candidateNodes with
    | none => schedulingError "No candidate nodes available after filtering"
    | some bestNode =>
      let score ← bestNode.calculateAvailabilityScore env.platform
      let resourceFitScore := bestNode.calculateResourceFitScore context.requirements
      .ok {
        targetNodeId := bestNode.nodeId
        strategyUsed := "LeastAvailable"
        confidenceScore := 100.0 - score
        preemptedVms := []
        resourceFitScore
        alternativeNodes := alternatives candidateNodes bestNode.nodeId
        reason := s!"Selected node {bestNode.nodeId} for bin packing strategy " ++
          s!"(score: {Score.twoDigits resourceFitScore})"
        selectedNodeId := bestNode.nodeId }

def applyRoundRobinStrategy : Except Failure (PlacementDecision F) :=
  match filterCandidateNodes context vmConfig with
  | [] => schedulingError "No suitable nodes found for VM placement"
  | first :: rest =>
    let candidateNodes := first :: rest
    let selectedIndex := env.stringHash vmConfig.name % candidateNodes.length
    let bestNode := candidateNodes.getD selectedIndex first
    .ok {
      targetNodeId := bestNode.nodeId
      strategyUsed := "RoundRobin"
      confidenceScore := 75.0
      preemptedVms := []
      resourceFitScore := bestNode.calculateResourceFitScore context.requirements
      alternativeNodes := alternatives candidateNodes bestNode.nodeId
      reason := s!"Selected node {bestNode.nodeId} using round-robin distribution"
      selectedNodeId := bestNode.nodeId }

def checkAntiAffinity (nodeId : ℕ) : Except String Unit :=
  match context.antiAffinityChecker, vmConfig.antiAffinity with
  | some checker, some rules => checker.checkPlacement vmConfig.name nodeId rules
  | _, _ => .ok ()

def applyManualStrategy (targetNodeId : ℕ) : Except Failure (PlacementDecision F) :=
  match context.nodeUsage.find? fun node => node.nodeId = targetNodeId with
  | none => schedulingError s!"Target node {targetNodeId} not found"
  | some targetNode =>
    if !targetNode.canAccommodate context.requirements then
      schedulingError s!"Target node {targetNodeId} cannot accommodate VM requirements"
    else
      match checkAntiAffinity context vmConfig targetNodeId with
      | .error e => schedulingError s!"Anti-affinity violation: {e}"
      | .ok () => .ok {
          targetNodeId
          strategyUsed := "Manual"
          confidenceScore := 100.0
          preemptedVms := []
          resourceFitScore := targetNode.calculateResourceFitScore context.requirements
          alternativeNodes := []
          reason := s!"Manually placed on node {targetNodeId} as requested"
          selectedNodeId := targetNodeId }

def applyPreemptionStrategy : Except Failure (PlacementDecision F) :=
  schedulingError "Preemption not yet implemented"

def filterByLocality (context : SchedulingContext F) (_vmConfig : VmConfig) (_strict : Bool) :
    SchedulingContext F :=
  context

def groupNodesByDomain (_context : SchedulingContext F) (_spreadLevel : String) :
    List (String × List ℕ) :=
  []

def findBestSpreadDomain (_domainGroups : List (String × List ℕ)) (_vmConfig : VmConfig) :
    Except Failure String :=
  .error (.error (.schedulingError "Domain spread not yet implemented"))

def filterContextByDomain (context : SchedulingContext F) (_domain _spreadLevel : String) :
    SchedulingContext F :=
  context

def applySpreadStrategy (minDomains : ℕ) (spreadLevel : String) :
    Except Failure (PlacementDecision F) :=
  let domainGroups := groupNodesByDomain context spreadLevel
  if domainGroups.length < minDomains then
    schedulingError (s!"Not enough failure domains available: {minDomains} required, " ++
      s!"{domainGroups.length} found")
  else do
    let bestDomain ← findBestSpreadDomain domainGroups vmConfig
    let filteredContext := filterContextByDomain context bestDomain spreadLevel
    env.applyMostAvailableStrategy filteredContext vmConfig

def calculatePlacementCost (node : ContextNode F) (_vmConfig : VmConfig)
    (_includeNetworkCosts : Bool) : F :=
  node.costPerHour.getD 1.0

/-- The first node whose cost is within the limit, from the cheapest on. -/
def applyCostOptimizedStrategy (maxCostIncrease : F) (includeNetworkCosts : Bool) :
    Except Failure (PlacementDecision F) :=
  let candidateNodes := filterCandidateNodes context vmConfig
  if candidateNodes = [] then schedulingError "No suitable nodes found for VM placement"
  else
    let nodeCosts := env.sortByCost (candidateNodes.map fun node =>
      (node.nodeId, calculatePlacementCost node vmConfig includeNetworkCosts))
    match nodeCosts with
    | [] => schedulingError "Failed to calculate costs for any candidate nodes"
    | cheapest :: _ =>
      let maxAllowedCost := cheapest.2 * (1.0 + maxCostIncrease / 100.0)
      let best := (nodeCosts.find? fun cost => Score.le cost.2 maxAllowedCost).getD cheapest
      match candidateNodes.find? fun node => node.nodeId = best.1 with
      | none => schedulingError
          s!"Node {best.1} not found in candidate nodes after cost calculation"
      | some bestNode => .ok {
          targetNodeId := best.1
          strategyUsed := "CostOptimized"
          confidenceScore := 100.0 - (best.2 - cheapest.2) / cheapest.2 * 100.0
          preemptedVms := []
          resourceFitScore := bestNode.calculateResourceFitScore context.requirements
          alternativeNodes :=
            ((nodeCosts.filter fun cost => cost.1 ≠ best.1).take 3).map Prod.fst
          reason := s!"Selected node {best.1} for optimal cost efficiency " ++
            s!"(cost: {Score.twoDigits best.2})"
          selectedNodeId := best.1 }

/-- An error of the base strategy is a value; a panic in it ends the call. -/
def applyPlacementStrategy (context : SchedulingContext F) (vmConfig : VmConfig) :
    PlacementStrategy F → Except Failure (PlacementDecision F)
  | .mostAvailable => env.applyMostAvailableStrategy context vmConfig
  | .leastAvailable => env.applyLeastAvailableStrategy context vmConfig
  | .roundRobin => env.applyRoundRobinStrategy context vmConfig
  | .manual nodeId => applyManualStrategy context vmConfig nodeId
  | .priorityBased baseStrategy enablePreemption =>
    match applyPlacementStrategy context vmConfig baseStrategy with
    | .ok decision => .ok decision
    | .error (.error e) =>
      if enablePreemption then applyPreemptionStrategy else .error (.error e)
    | .error failure => .error failure
  | .localityAware baseStrategy strict =>
    applyPlacementStrategy (filterByLocality context vmConfig strict) vmConfig baseStrategy
  | .spreadAcrossFailureDomains minDomains spreadLevel =>
    env.applySpreadStrategy context vmConfig minDomains spreadLevel
  | .costOptimized maxCostIncrease includeNetworkCosts =>
    env.applyCostOptimizedStrategy context vmConfig maxCostIncrease includeNetworkCosts

end PlacementEnv

/-! ## Soundness -/

namespace SchedulingContext

variable {F : Type} (context : SchedulingContext F) (vmConfig : VmConfig)

/-- The node is healthy, has what the machine requires, and the hard rules of the machine
    allow it. -/
structure Feasible (node : ContextNode F) : Prop where
  healthy : node.isHealthy
  vcpus : context.requirements.vcpus ≤ node.capabilities.cpuCores - node.usedVcpus
  memoryMb : context.requirements.memoryMb ≤ node.capabilities.memoryMb - node.usedMemoryMb
  diskGb : context.requirements.diskGb ≤ node.capabilities.diskGb - node.usedDiskGb
  features : ∀ feature ∈ context.requirements.requiredFeatures,
    feature ∈ node.capabilities.features
  rules : ∀ checker rules, context.antiAffinityChecker = some checker →
    vmConfig.antiAffinity = some rules → checker.Allows rules node.nodeId

def Offers (nodeId : ℕ) : Prop :=
  ∃ node ∈ context.nodeUsage, node.nodeId = nodeId ∧ context.Feasible vmConfig node

/-- The target is feasible, and there are at most three alternatives, which are other
    feasible nodes. -/
structure Sound (decision : PlacementDecision F) : Prop where
  target : context.Offers vmConfig decision.targetNodeId
  alternatives : ∀ nodeId ∈ decision.alternativeNodes,
    nodeId ≠ decision.targetNodeId ∧ context.Offers vmConfig nodeId
  few : decision.alternativeNodes.length ≤ 3

end SchedulingContext

namespace PlacementEnv

variable {F : Type} {context : SchedulingContext F} {vmConfig : VmConfig}
  {decision : PlacementDecision F}

theorem canAccommodate_iff {node : NodeResourceUsage} {reqs : VmResourceRequirements} :
    node.canAccommodate reqs ↔ node.isHealthy ∧
      reqs.vcpus ≤ node.capabilities.cpuCores - node.usedVcpus ∧
      reqs.memoryMb ≤ node.capabilities.memoryMb - node.usedMemoryMb ∧
      reqs.diskGb ≤ node.capabilities.diskGb - node.usedDiskGb ∧
      ∀ feature ∈ reqs.requiredFeatures, feature ∈ node.capabilities.features := by
  unfold NodeResourceUsage.canAccommodate
  split_ifs <;> simp_all

variable {best node : ContextNode F} {nodes : List (ContextNode F)} {replaces : Ordering → Bool}
  {nodeId tgt : ℕ}

theorem checkAntiAffinity_ok : checkAntiAffinity context vmConfig nodeId = .ok () ↔
    ∀ checker rules, context.antiAffinityChecker = some checker →
      vmConfig.antiAffinity = some rules → checker.Allows rules nodeId := by
  unfold checkAntiAffinity
  cases context.antiAffinityChecker with
  | none => simp
  | some checker =>
    cases vmConfig.antiAffinity with
    | none => simp
    | some rules => simp [AntiAffinityChecker.checkPlacement_ok]

theorem feasible_iff : context.Feasible vmConfig node ↔
    node.canAccommodate context.requirements ∧
      checkAntiAffinity context vmConfig node.nodeId = .ok () := by
  rw [canAccommodate_iff, checkAntiAffinity_ok]
  constructor
  · rintro ⟨he, hv, hmem, hdisk, hf, hr⟩
    exact ⟨⟨he, hv, hmem, hdisk, hf⟩, hr⟩
  · rintro ⟨⟨he, hv, hmem, hdisk, hf⟩, hr⟩
    exact ⟨he, hv, hmem, hdisk, hf, hr⟩

theorem mem_filterCandidateNodes : node ∈ filterCandidateNodes context vmConfig ↔
      node ∈ context.nodeUsage ∧ context.Feasible vmConfig node := by
  rw [feasible_iff]
  unfold filterCandidateNodes checkAntiAffinity
  cases context.antiAffinityChecker with
  | none => simp
  | some chk =>
    cases vmConfig.antiAffinity with
    | none => simp
    | some rules =>
      have hok : ∀ r : Except String Unit, r.isOk = true ↔ r = .ok () := by
        rintro (e | ⟨⟩) <;> simp [Except.isOk, Except.toBool]
      rw [mem_filter, mem_filter, hok, and_assoc]

theorem offers_of_candidate (h : node ∈ filterCandidateNodes context vmConfig) :
    context.Offers vmConfig node.nodeId := by
  obtain ⟨hmem, hf⟩ := mem_filterCandidateNodes.1 h
  exact ⟨node, hmem, rfl, hf⟩

theorem alternatives_sound : (∀ nid ∈ alternatives nodes tgt,
      nid ≠ tgt ∧ ∃ node ∈ nodes, node.nodeId = nid) ∧ (alternatives nodes tgt).length ≤ 3 := by
  constructor
  · intro nid h
    obtain ⟨node, hnode, rfl⟩ := mem_map.1 h
    obtain ⟨hmem, hne⟩ := mem_filter.1 (mem_of_mem_take hnode)
    exact ⟨by simpa using hne, node, hmem, rfl⟩
  · rw [alternatives, length_map, length_take]
    exact Nat.min_le_left 3 _

theorem alternativesOfFour_sound : (∀ nid ∈ alternativesOfFour nodes tgt,
      nid ≠ tgt ∧ ∃ node ∈ nodes, node.nodeId = nid) ∧
    (alternativesOfFour nodes tgt).length ≤ 3 := by
  -- the invariant of the loop, over any part of the nodes
  suffices hloop : ∀ (part : List (ContextNode F)) (found : List ℕ), part ⊆ nodes →
      (∀ nid ∈ found, nid ≠ tgt ∧ ∃ node ∈ nodes, node.nodeId = nid) →
      found.length ≤ 3 →
      (∀ nid ∈ part.foldl (fun found node => if node.nodeId ≠ tgt ∧ found.length < 3
        then found ++ [node.nodeId] else found) found,
          nid ≠ tgt ∧ ∃ node ∈ nodes, node.nodeId = nid) ∧
      (part.foldl (fun found node => if node.nodeId ≠ tgt ∧ found.length < 3
        then found ++ [node.nodeId] else found) found).length ≤ 3 from
    hloop (nodes.take 4) [] (take_subset 4 nodes) (by simp) (by simp)
  intro part
  induction part with
  | nil => exact fun found _ hf hfew => ⟨hf, hfew⟩
  | cons node part ih =>
    intro found hpart hf hfew
    obtain ⟨hnode, hpart⟩ := cons_subset.1 hpart
    rw [foldl_cons]
    split_ifs with h
    · refine ih _ hpart ?_ ?_
      · intro nid hid
        rcases mem_append.1 hid with hid | hid
        · exact hf nid hid
        · obtain rfl := mem_singleton.1 hid
          exact ⟨h.1, node, hnode, rfl⟩
      · rw [length_append, length_singleton]
        omega
    · exact ih found hpart hf hfew

theorem sound_of_candidates (hnode : node ∈ filterCandidateNodes context vmConfig)
    (ht : decision.targetNodeId = node.nodeId)
    (halt : (∀ nid ∈ decision.alternativeNodes, nid ≠ node.nodeId ∧
      ∃ other ∈ filterCandidateNodes context vmConfig, other.nodeId = nid) ∧
      decision.alternativeNodes.length ≤ 3) : context.Sound vmConfig decision where
  target := ht ▸ offers_of_candidate hnode
  alternatives nid hid := by
    obtain ⟨hne, other, ho, rfl⟩ := halt.1 nid hid
    exact ⟨ht ▸ hne, offers_of_candidate ho⟩
  few := halt.2

variable [Score F] {env : PlacementEnv F}

theorem better_eq {next : ContextNode F}
    (h : env.better replaces best node = .ok next) : next = node ∨ next = best := by
  obtain ⟨bestScore, -, h⟩ := bind_eq_ok h
  obtain ⟨score, -, h⟩ := bind_eq_ok h
  have hc := Except.ok.inj h
  split_ifs at hc
  · exact .inl hc.symm
  · exact .inr hc.symm

theorem selectBy_mem (h : env.selectBy replaces nodes = .ok (some best)) : best ∈ nodes := by
  cases nodes with
  | nil => cases h
  | cons first rest =>
    obtain ⟨last, hlast, h⟩ := bind_eq_ok h
    cases h
    clear h
    induction rest generalizing first with
    | nil => exact (Except.ok.inj hlast) ▸ mem_cons_self
    | cons node rest ih =>
      rw [foldlM_cons] at hlast
      obtain ⟨next, hnext, hlast⟩ := bind_eq_ok hlast
      rcases mem_cons.1 (ih next hlast) with rfl | hmem
      · rcases better_eq hnext with rfl | rfl <;> simp
      · exact mem_cons_of_mem first (mem_cons_of_mem node hmem)

theorem applyMostAvailableStrategy_sound
    (h : env.applyMostAvailableStrategy context vmConfig = .ok decision) :
    context.Sound vmConfig decision := by
  simp only [applyMostAvailableStrategy] at h
  split_ifs at h
  · cases h
  obtain ⟨best?, hbest, h⟩ := bind_eq_ok h
  cases best? with
  | none => cases h
  | some best =>
    obtain ⟨score, -, h⟩ := bind_eq_ok h
    cases h
    exact sound_of_candidates (selectBy_mem hbest) rfl alternativesOfFour_sound

theorem applyLeastAvailableStrategy_sound
    (h : env.applyLeastAvailableStrategy context vmConfig = .ok decision) :
    context.Sound vmConfig decision := by
  simp only [applyLeastAvailableStrategy] at h
  split_ifs at h
  · cases h
  obtain ⟨best?, hbest, h⟩ := bind_eq_ok h
  cases best? with
  | none => cases h
  | some best =>
    obtain ⟨score, -, h⟩ := bind_eq_ok h
    cases h
    exact sound_of_candidates (selectBy_mem hbest) rfl alternatives_sound

theorem applyRoundRobinStrategy_sound
    (h : env.applyRoundRobinStrategy context vmConfig = .ok decision) :
    context.Sound vmConfig decision := by
  unfold applyRoundRobinStrategy at h
  cases hc : filterCandidateNodes context vmConfig with
  | nil =>
    rw [hc] at h
    cases h
  | cons first rest =>
    rw [hc] at h
    have hind : env.stringHash vmConfig.name % (first :: rest).length < (first :: rest).length :=
      Nat.mod_lt _ (Nat.succ_pos _)
    have hmem : (first :: rest).getD (env.stringHash vmConfig.name % (first :: rest).length)
        first ∈ filterCandidateNodes context vmConfig := by
      rw [hc, getD_eq_getElem?_getD, getElem?_eq_getElem hind]
      exact getElem_mem hind
    cases h
    exact sound_of_candidates hmem rfl (hc ▸ alternatives_sound)

theorem applyManualStrategy_sound (h : applyManualStrategy context vmConfig nodeId = .ok decision) :
    context.Sound vmConfig decision := by
  unfold applyManualStrategy at h
  cases hfind : context.nodeUsage.find? fun node => node.nodeId = nodeId with
  | none =>
    rw [hfind] at h
    cases h
  | some node =>
    rw [hfind] at h
    dsimp only at h
    split_ifs at h with hfits
    · cases h
    cases hc : checkAntiAffinity context vmConfig nodeId with
    | error e =>
      rw [hc] at h
      cases h
    | ok u =>
      rw [hc] at h
      cases h
      obtain rfl : node.nodeId = nodeId := by simpa using find?_some hfind
      have hf : context.Feasible vmConfig node :=
        feasible_iff.2 ⟨by simpa using hfits, hc⟩
      exact ⟨⟨node, mem_of_find?_eq_some hfind, rfl, hf⟩, by simp, by simp⟩

theorem applySpreadStrategy_fails (minDomains : ℕ) (spreadLevel : String) :
    env.applySpreadStrategy context vmConfig minDomains spreadLevel ≠ .ok decision := by
  simp only [applySpreadStrategy]
  split_ifs
  · intro h
    cases h
  · intro h
    cases h

theorem applyCostOptimizedStrategy_sound {inc : F} {net : Bool}
    (h : env.applyCostOptimizedStrategy context vmConfig inc net =
      .ok decision) : context.Sound vmConfig decision := by
  simp only [applyCostOptimizedStrategy] at h
  split_ifs at h
  · cases h
  have hc : ∀ cost ∈ env.sortByCost ((filterCandidateNodes context vmConfig).map fun node =>
      (node.nodeId, calculatePlacementCost node vmConfig net)),
      ∃ node ∈ filterCandidateNodes context vmConfig, node.nodeId = cost.1 := by
    intro cost hcost
    obtain ⟨node, hnode, rfl⟩ := mem_map.1 ((env.sortByCost_perm _).mem_iff.1 hcost)
    exact ⟨node, hnode, rfl⟩
  generalize env.sortByCost _ = nodeCosts at h hc
  cases nodeCosts with
  | nil => cases h
  | cons cheapest rest =>
    dsimp only at h
    generalize ((cheapest :: rest).find? _).getD cheapest = best at h
    split at h
    · cases h
    · next node hfind =>
      cases h
      have hid : node.nodeId = best.1 := by simpa using find?_some hfind
      refine sound_of_candidates (mem_of_find?_eq_some hfind) hid.symm ⟨?_, ?_⟩
      · intro nid hmem
        obtain ⟨cost, hcost, rfl⟩ := mem_map.1 hmem
        obtain ⟨hcost, hne⟩ := mem_filter.1 (mem_of_mem_take hcost)
        exact ⟨by simpa [hid] using hne, hc cost hcost⟩
      · simp only [length_map, length_take]
        exact Nat.min_le_left 3 _

theorem sound_of_decision {env : PlacementEnv F} (strat : PlacementStrategy F)
    (h : env.applyPlacementStrategy ctx vmConfig strat = .ok decision) :
    ctx.Sound vmConfig decision := by
  induction strat generalizing ctx with
  | mostAvailable => exact applyMostAvailableStrategy_sound h
  | leastAvailable => exact applyLeastAvailableStrategy_sound h
  | roundRobin => exact applyRoundRobinStrategy_sound h
  | manual nid => exact applyManualStrategy_sound h
  | priorityBased baseStrategy enablePreemption ih =>
    rw [applyPlacementStrategy] at h
    cases hbase : env.applyPlacementStrategy ctx vmConfig baseStrategy with
    | ok base =>
      rw [hbase] at h
      cases h
      exact ih hbase
    | error fail =>
      -- after an error there is no decision, with preemption or without
      rw [hbase] at h
      cases fail with
      | error e =>
        dsimp only at h
        split_ifs at h
        cases h
      | panic msg => cases h
      | deadlock => cases h
  | localityAware baseStrategy strict ih => exact ih h
  | spreadAcrossFailureDomains minDomains spreadLevel =>
    exact absurd h (applySpreadStrategy_fails minDomains spreadLevel)
  | costOptimized inc net => exact applyCostOptimizedStrategy_sound h

/-- **Soundness of placements**: whatever the strategy, a decision names a feasible node of
    the context, and as alternatives at most three other feasible nodes. -/
theorem applyPlacementStrategy_sound (env : PlacementEnv F) (context : SchedulingContext F)
    (vmConfig : VmConfig) (strategy : PlacementStrategy F) (decision : PlacementDecision F)
    (h : env.applyPlacementStrategy context vmConfig strategy = .ok decision) :
    context.Sound vmConfig decision :=
  sound_of_decision strategy h

@[reducible] def wholeScores : Score ℕ where
  ofScientific mantissa negative exponent :=
    if negative then mantissa / 10 ^ exponent else mantissa * 10 ^ exponent
  partialCmp a b := some (Ord.compare a b)
  twoDigits a := s!"{a}.00"

theorem perm_of_kept (costs : List (ℕ × ℕ)) : (id costs).Perm costs := .refl costs

def plainEnv : PlacementEnv ℕ := ⟨.release, fun _ => 1, id, perm_of_kept⟩

def idleNode (nodeId : ℕ) : ContextNode ℕ :=
  ⟨⟨nodeId, true, ⟨8, 16384, 100, ["microvm"]⟩, 0, 0, 0, 0⟩, none⟩

def webConfig : VmConfig := { name := "web-2", antiAffinity := some [⟨.hard, "web", 1, none⟩] }

/-- Node 1 has a machine of the group, so that nested strategies decide for node 2, with
    node 3 as the alternative. -/
theorem nested_strategy_avoids_group :
    let checker := AntiAffinityChecker.new [("web-1", ["web"], 1)]
    let context : SchedulingContext ℕ :=
      ⟨.ofConfig webConfig, [idleNode 1, idleNode 2, idleNode 3], some checker⟩
    let strategy := .localityAware (.priorityBased .leastAvailable true) false
    ∃ decision, @applyPlacementStrategy ℕ wholeScores plainEnv context webConfig strategy =
        .ok decision ∧
      decision.targetNodeId = 2 ∧ decision.alternativeNodes = [3] ∧
      context.Sound webConfig decision := by
  intro checker context strategy
  obtain ⟨decision, hdecision, htarget, halternatives⟩ : ∃ decision,
      @applyPlacementStrategy ℕ wholeScores plainEnv context webConfig strategy = .ok decision ∧
      decision.targetNodeId = 2 ∧ decision.alternativeNodes = [3] := ⟨_, rfl, rfl, rfl⟩
  exact ⟨decision, hdecision, htarget, halternatives,
    @applyPlacementStrategy_sound ℕ wholeScores plainEnv context webConfig strategy decision
      hdecision⟩

end PlacementEnv

end Blixard
