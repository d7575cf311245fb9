/-
  The discovery manager (`discovery/manager.rs`).

  A round of its task is right (`DiscoveryManager.aggregate_right`), but the task is given a
  `clone` with cells of its own, and ends at its first tick (`ManagedDiscovery.alive_iff`).  What
  the mDNS provider is told of the node itself is left out.
-/
import Blixard.Discovery

namespace Blixard

open DiscoveryEvent List Std.ExtTreeMap Table

structure DiscoveryConfig where
  enableStatic : Bool
  enableDns : Bool
  enableMdns : Bool
  staticNodes : Table String (List String)
  dnsDomains : List String

inductive ProviderKind where
  | static | dns | mdns
  deriving DecidableEq

structure Subscriber where
  isOpen : Bool
  received : List DiscoveryEvent
  deriving DecidableEq

structure DiscoveryManager where
  config : DiscoveryConfig
  providers : List ProviderKind
  nodes : Table ℕ IrohNodeInfo
  subscribers : List Subscriber
  running : Bool

abbrev Reports := ℕ → Except BlixardError (List IrohNodeInfo)

/-! ## The manager -/

namespace DiscoveryConfig

def hasStaticNodes (config : DiscoveryConfig) : Bool :=
  config.staticNodes.toList.any fun row => row.1.toList.head? ≠ some '_'

def enabled (config : DiscoveryConfig) : List ProviderKind :=
  (if config.enableStatic && config.hasStaticNodes then [.static] else []) ++
    (if config.enableDns && !config.dnsDomains.isEmpty then [.dns] else []) ++
    (if config.enableMdns then [.mdns] else [])

end DiscoveryConfig

namespace Subscriber

/-- What is sent to a subscriber that is closed is lost. -/
def receive (events : List DiscoveryEvent) (subscriber : Subscriber) : Subscriber :=
  if subscriber.isOpen then { subscriber with received := subscriber.received ++ events }
  else subscriber

end Subscriber

namespace DiscoveryManager

variable (m : DiscoveryManager)

def new (config : DiscoveryConfig) : DiscoveryManager := ⟨config, [], ∅, [], false⟩

def clone : DiscoveryManager := ⟨m.config, [], ∅, [], false⟩

def startProvider (starts : ProviderKind → Except BlixardError Unit)
    (providers : List ProviderKind) (kind : ProviderKind) :
    List ProviderKind × Except BlixardError Unit :=
  match starts kind with
  | .ok () => (providers ++ [kind], .ok ())
  | .error e => (providers, .error e)

/-- Providers that were started before one that fails are kept. -/
def start (starts : ProviderKind → Except BlixardError Unit) :
    DiscoveryManager × Except BlixardError Unit :=
  if m.running then (m, .error (.internal "Discovery manager is already running"))
  else
    let r := Run.attempt (startProvider starts) m.providers m.config.enabled
    match r.2 with
    | .ok () => ({ m with providers := r.1, running := true }, .ok ())
    | .error e => ({ m with providers := r.1 }, .error e)

def stop : DiscoveryManager :=
  if m.running then { m with providers := [], nodes := ∅, running := false } else m

def getNodes : List IrohNodeInfo := m.nodes.toList.map Prod.snd

def getNode (nodeId : ℕ) : Option IrohNodeInfo := m.nodes[nodeId]?

def subscribe : DiscoveryManager := { m with subscribers := m.subscribers ++ [⟨true, []⟩] }

def notify (events : List DiscoveryEvent) : DiscoveryManager :=
  { m with subscribers := m.subscribers.map (Subscriber.receive events) }

def addDiscoveredNode (info : IrohNodeInfo) : DiscoveryManager :=
  { m with nodes := m.nodes.insert info.nodeId info }.notify
    [if info.nodeId ∈ m.nodes then .nodeUpdated info else .nodeDiscovered info]

/-! ## A round -/

def allNodes (reports : Reports) : Table ℕ IrohNodeInfo :=
  (List.range m.providers.length).foldl (fun all i =>
    match reports i with
    | .ok nodes => nodes.foldl (fun all info => all.insert info.nodeId info) all
    | .error _ => all) ∅

def eventFor (row : ℕ × IrohNodeInfo) : Option DiscoveryEvent :=
  match m.nodes[row.1]? with
  | none => some (.nodeDiscovered row.2)
  | some info => if info = row.2 then none else some (.nodeUpdated row.2)

def changes (all : Table ℕ IrohNodeInfo) : List DiscoveryEvent :=
  all.toList.filterMap m.eventFor ++
    (m.nodes.toList.map Prod.fst).filterMap fun nodeId =>
      if nodeId ∈ all then none else some (.nodeRemoved nodeId)

def aggregate (reports : Reports) : DiscoveryManager :=
  let all := m.allNodes reports
  let notified := m.notify (m.changes all)
  { notified with nodes := all, subscribers := notified.subscribers.filter (·.isOpen) }

def Reported (reports : Reports) (info : IrohNodeInfo) : Prop :=
  ∃ i < m.providers.length, ∃ nodes, reports i = .ok nodes ∧ info ∈ nodes

/-- After a round the nodes are those that were reported, and an open subscriber has received
    one event for each node whose information is not as it was. -/
structure RoundRight (before after : DiscoveryManager) (reports : Reports) : Prop where
  nodes : ∀ nodeId, (∃ info ∈ after.getNodes, info.nodeId = nodeId) ↔
    ∃ info, before.Reported reports info ∧ info.nodeId = nodeId
  reported : ∀ info ∈ after.getNodes, before.Reported reports info
  distinct : (after.getNodes.map (·.nodeId)).Nodup
  events : ∀ subscriber ∈ before.subscribers, subscriber.isOpen = true → ∃ events,
    subscriber.receive events ∈ after.subscribers ∧ (events.map (·.nodeId)).Nodup ∧
    (∀ nodeId, nodeId ∈ events.map (·.nodeId) ↔ before.getNode nodeId ≠ after.getNode nodeId) ∧
    ∀ event ∈ events, event.row = after.getNode event.nodeId

variable {m}

def reportedNodes (m : DiscoveryManager) (reports : Reports) : List IrohNodeInfo :=
  (List.range m.providers.length).flatMap fun i => (reports i).toOption.getD []

variable {info : IrohNodeInfo} {reports : Reports} {all : Table ℕ IrohNodeInfo}

theorem mem_reportedNodes {reps : Reports} :
    info ∈ m.reportedNodes reps ↔ m.Reported reps info := by
  rw [reportedNodes, mem_flatMap, Reported]
  refine exists_congr fun i => and_congr mem_range ?_
  cases reps i with
  | error e => simp [Except.toOption]
  | ok nodes => simp [Except.toOption]

theorem allNodes_eq (m : DiscoveryManager) (reps : Reports) : m.allNodes reps =
      putAll ∅ ((m.reportedNodes reps).map fun info => (info.nodeId, info)) := by
  rw [allNodes, putAll, foldl_map, reportedNodes, foldl_flatMap]
  congr 1
  funext all i
  cases reps i <;> rfl

theorem reported_of_get {nodeId : ℕ} (h : (m.allNodes reports)[nodeId]? = some info) :
    info.nodeId = nodeId ∧ m.Reported reports info := by
  rw [allNodes_eq, get_putAll] at h
  obtain ⟨row, hrow, rfl⟩ : ∃ row : ℕ × IrohNodeInfo, find? _ _ = some row ∧ row.2 = info :=
    Option.map_eq_some_iff.1 (by simpa only [Option.or_none, getElem?_empty] using h)
  have hid : row.1 = nodeId := by simpa using find?_some hrow
  have hmem := mem_of_find?_eq_some hrow
  rw [mem_reverse, mem_map] at hmem
  obtain ⟨info, hinfo, rfl⟩ := hmem
  exact ⟨hid, mem_reportedNodes.1 hinfo⟩

theorem mem_of_reported (h : m.Reported reports info) : info.nodeId ∈ m.allNodes reports := by
  rw [mem_iff, allNodes_eq, get_putAll]
  have hf : ((((m.reportedNodes reports).map fun info => (info.nodeId, info)).reverse).find?
      fun row => row.1 = info.nodeId).isSome := by
    rw [find?_isSome]
    exact ⟨(info.nodeId, info), mem_reverse.2 (mem_map_of_mem (mem_reportedNodes.2 h)),
      by simp⟩
  obtain ⟨row, hrow⟩ := Option.isSome_iff_exists.1 hf
  exact ⟨row.2, by rw [hrow]; rfl⟩

theorem map_nodeId_eventFor {row : ℕ × IrohNodeInfo}
    (hid : row.2.nodeId = row.1) (hrow : all[row.1]? = some row.2) : (m.eventFor row).map nodeId =
      if m.nodes[row.1]? ≠ all[row.1]? then some row.1 else none := by
  unfold eventFor
  cases hold : m.nodes[row.1]? with
  | none => simp [hrow, nodeId, hid]
  | some info =>
    by_cases heq : info = row.2
    · simp [hrow, heq]
    · simp [hrow, heq, nodeId, hid]

theorem filterMap_fst_eq_filter {V : Type} (p : ℕ → Prop) [DecidablePred p] (rows : List (ℕ × V)) :
    (rows.filterMap fun row => if p row.1 then some row.1 else none) =
      (rows.map Prod.fst).filter fun v => p v := by
  induction rows with
  | nil => rfl
  | cons row rows ih => by_cases h : p row.1 <;> simp [h, ih]

theorem map_nodeId_changes (hall : ∀ (nid : ℕ) (info : IrohNodeInfo), all[nid]? = some info →
      info.nodeId = nid) : (m.changes all).map (·.nodeId) =
      (all.keys.filter fun v => m.nodes[v]? ≠ all[v]?) ++ m.nodes.keys.filter fun v => v ∉ all := by
  rw [changes, map_append, map_filterMap, map_filterMap]
  congr 1
  · rw [← map_fst_toList_eq_keys, ← filterMap_fst_eq_filter]
    refine filterMap_congr fun row hrow => ?_
    rw [mem_toList_iff_getElem?_eq_some] at hrow
    exact map_nodeId_eventFor (hall _ _ hrow) hrow
  · rw [← map_fst_toList_eq_keys, ← filterMap_fst_eq_filter, filterMap_map]
    refine filterMap_congr fun row _ => ?_
    by_cases h : row.1 ∈ all <;> simp [h, nodeId]

section
variable {all : Table ℕ IrohNodeInfo}
  (hall : ∀ (nodeId : ℕ) (info : IrohNodeInfo), all[nodeId]? = some info → info.nodeId = nodeId)
include hall

theorem nodup_changes : ((m.changes all).map (·.nodeId)).Nodup := by
  rw [map_nodeId_changes hall]
  refine List.Nodup.append (nodup_keys.filter _) (nodup_keys.filter _)
    fun v hv hv' => ?_
  have hmem : v ∈ all := mem_keys.1 (mem_filter.1 hv).1
  have hnot : v ∉ all := of_decide_eq_true (mem_filter.1 hv').2
  exact hnot hmem

theorem mem_changes (v : ℕ) : v ∈ (m.changes all).map (·.nodeId) ↔ m.nodes[v]? ≠ all[v]? := by
  rw [map_nodeId_changes hall, mem_append, mem_filter, mem_filter,
    Std.ExtTreeMap.mem_keys, Std.ExtTreeMap.mem_keys, decide_eq_true_iff, decide_eq_true_iff]
  by_cases hmem : v ∈ all
  · simp [hmem]
  · have hnone : all[v]? = none := getElem?_eq_none hmem
    rw [hnone, Option.ne_none_iff_exists', ← mem_iff]
    simp [hmem]

theorem row_of_mem_changes {event : DiscoveryEvent} (h : event ∈ m.changes all) :
    event.row = all[event.nodeId]? := by
  rw [changes, mem_append, mem_filterMap, mem_filterMap] at h
  rcases h with ⟨row, hrow, he⟩ | ⟨v, -, he⟩
  · rw [mem_toList_iff_getElem?_eq_some] at hrow
    have hid := hall _ _ hrow
    unfold eventFor at he
    split at he
    · cases he
      exact (hid ▸ hrow).symm
    · split_ifs at he
      cases he
      exact (hid ▸ hrow).symm
  · split_ifs at he with hv
    cases he
    exact (getElem?_eq_none hv).symm

end

theorem aggregate_right (m : DiscoveryManager) (reports : Reports) :
    RoundRight m (m.aggregate reports) reports := by
  have hall (nodeId : ℕ) (info : IrohNodeInfo)
      (h : (m.allNodes reports)[nodeId]? = some info) : info.nodeId = nodeId :=
    (reported_of_get h).1
  have hnodes {info : IrohNodeInfo} : info ∈ (m.aggregate reports).getNodes ↔
      (m.allNodes reports)[info.nodeId]? = some info := by
    rw [getNodes, List.mem_map]
    constructor
    · rintro ⟨row, hrow, rfl⟩
      rw [Std.ExtTreeMap.mem_toList_iff_getElem?_eq_some] at hrow
      exact (hall _ _ hrow).symm ▸ hrow
    · exact fun h => ⟨(info.nodeId, info), Std.ExtTreeMap.mem_toList_iff_getElem?_eq_some.2 h, rfl⟩
  refine ⟨fun nodeId => ?_, fun info h => (reported_of_get (hnodes.1 h)).2, ?_, ?_⟩
  · constructor
    · rintro ⟨info, hinfo, rfl⟩
      exact ⟨info, (reported_of_get (hnodes.1 hinfo)).2, rfl⟩
    rintro ⟨info, hinfo, rfl⟩
    obtain ⟨info', hinfo'⟩ := (Table.mem_iff _ _).1 (mem_of_reported hinfo)
    have hid := hall _ _ hinfo'
    exact ⟨info', hnodes.2 (hid.symm ▸ hinfo'), hid⟩
  · have hkeys : (m.aggregate reports).getNodes.map (·.nodeId) = (m.allNodes reports).keys := by
      rw [getNodes, List.map_map, ← Std.ExtTreeMap.map_fst_toList_eq_keys]
      refine List.map_congr_left fun row hrow => ?_
      rw [Std.ExtTreeMap.mem_toList_iff_getElem?_eq_some] at hrow
      exact hall _ _ hrow
    rw [hkeys]
    exact Std.ExtTreeMap.nodup_keys
  · intro subscriber hsubscriber hopen
    refine ⟨m.changes (m.allNodes reports), ?_, nodup_changes hall, mem_changes hall,
      fun event => row_of_mem_changes hall⟩
    refine List.mem_filter.2 ⟨List.mem_map_of_mem hsubscriber, ?_⟩
    rw [Subscriber.receive, if_pos hopen]
    exact hopen

end DiscoveryManager

/-! ## The task -/

structure AggregationTask where
  manager : DiscoveryManager
  hasEnded : Bool

structure ManagedDiscovery where
  manager : DiscoveryManager
  task : Option AggregationTask

inductive ManagerStep where
  | start (starts : ProviderKind → Except BlixardError Unit)
  | stop
  | tick (reports : Reports)
  | subscribe
  | unsubscribe (index : ℕ)
  | addDiscoveredNode (info : IrohNodeInfo)

namespace AggregationTask

def tick (task : AggregationTask) (reports : Reports) : AggregationTask :=
  if task.hasEnded then task
  else if task.manager.running then { task with manager := task.manager.aggregate reports }
  else { task with hasEnded := true }

end AggregationTask

namespace ManagedDiscovery

variable {s : ManagedDiscovery} {x : ManagerStep}

def begin (config : DiscoveryConfig) : ManagedDiscovery := ⟨.new config, none⟩

def step (s : ManagedDiscovery) : ManagerStep → ManagedDiscovery
  | .start starts =>
    let r := s.manager.start starts
    match r.2 with
    | .ok () => ⟨r.1, some ⟨r.1.clone, false⟩⟩
    | .error _ => { s with manager := r.1 }
  | .stop => ⟨s.manager.stop, if s.manager.running then none else s.task⟩
  | .tick reports => { s with task := s.task.map (·.tick reports) }
  | .subscribe => { s with manager := s.manager.subscribe }
  | .unsubscribe index =>
    { s with manager := { s.manager with
        subscribers := s.manager.subscribers.modify index ({ · with isOpen := false }) } }
  | .addDiscoveredNode info => { s with manager := s.manager.addDiscoveredNode info }

def Alive (s : ManagedDiscovery) : Prop :=
  s.manager.running = true → ∃ task, s.task = some task ∧ task.hasEnded = false

/-- A round that the task does is right for the manager. -/
def RoundsRight (s : ManagedDiscovery) (x : ManagerStep) : Prop :=
  ∀ reports task, x = .tick reports → s.task = some task → task.hasEnded = false →
    task.manager.running = true →
    DiscoveryManager.RoundRight s.manager (s.step x).manager reports

def NoTick (s : ManagedDiscovery) (x : ManagerStep) : Prop :=
  ∀ reports, x = .tick reports → s.manager.running = false

theorem running_start (m : DiscoveryManager) (starts : ProviderKind → Except BlixardError Unit) :
    match (m.start starts).2 with
    | .ok () => (m.start starts).1.running = true
    | .error _ => (m.start starts).1.running = m.running := by
  unfold DiscoveryManager.start
  split_ifs
  · rfl
  · dsimp only
    cases (Run.attempt (DiscoveryManager.startProvider starts) m.providers m.config.enabled).2 <;>
      rfl

/-- There is a task exactly while the manager is running; it has not ended, and its own manager
    is not running. -/
structure Started (s : ManagedDiscovery) : Prop where
  exists_iff : s.task.isSome = s.manager.running
  task : ∀ task, s.task = some task → task.hasEnded = false ∧ task.manager.running = false

theorem Started.alive (h : Started s) : Alive s := by
  intro hrun
  obtain ⟨task, htask⟩ := Option.isSome_iff_exists.1 (h.exists_iff.trans hrun)
  exact ⟨task, htask, (h.task task htask).1⟩

theorem started_step (h : Started s) (hnone : NoTick s x) : Started (s.step x) := by
  cases x with
  | start starts =>
    have hrun := running_start s.manager starts
    rw [step]
    split at hrun
    next =>
      refine ⟨hrun.symm, fun task htask => ?_⟩
      cases htask
      exact ⟨rfl, rfl⟩
    next =>
      exact ⟨h.exists_iff.trans hrun.symm, h.task⟩
  | stop =>
    rw [step, DiscoveryManager.stop]
    cases hrun : s.manager.running with
    | false =>
      simp only [Bool.false_eq_true, if_false]
      exact h
    | true => exact ⟨rfl, nofun⟩
  | tick reps =>
    -- without a running manager there is no task
    have htask : s.task = none := by
      rw [← Option.not_isSome_iff_eq_none, h.exists_iff, hnone reps rfl]
      exact Bool.false_ne_true
    rw [step, htask]
    refine ⟨?_, nofun⟩
    rw [← h.exists_iff, htask]
    rfl
  | subscribe | unsubscribe | addDiscoveredNode => exact ⟨h.exists_iff, h.task⟩

theorem not_alive_of_tick (h : Started s) (htick : ¬ NoTick s x) : ¬ Alive (s.step x) := by
  obtain ⟨reps, rfl, hrun⟩ : ∃ reps, x = .tick reps ∧ s.manager.running = true := by
    simpa [NoTick] using htick
  obtain ⟨task, htask, hend⟩ := h.alive hrun
  have hs : task.manager.running = false := (h.task task htask).2
  have hnext : (s.step (.tick reps)).task = some { task with hasEnded := true } := by
    show s.task.map (·.tick reps) = _
    rw [htask, Option.map_some, AggregationTask.tick, hend, hs]
    rfl
  intro ha
  obtain ⟨task', htask', ha'⟩ := ha hrun
  rw [hnext] at htask'
  cases htask'
  cases ha'

theorem started_begin (cfg : DiscoveryConfig) : Started (begin cfg) := ⟨rfl, nofun⟩

/-- **The aggregation task** is alive between start and stop, and its rounds are right, exactly
    if it does not tick in that time. -/
theorem alive_iff (config : DiscoveryConfig) (run : List ManagerStep) :
    ((∀ s ∈ run.scanl step (begin config), Alive s) ∧
      Run.Along step RoundsRight (begin config) run) ↔
    Run.Along step NoTick (begin config) run := by
  have halive : (∀ s ∈ run.scanl step (begin config), Alive s) ↔
      Run.Along step NoTick (begin config) run :=
    Run.holds_iff_along (fun _ _ => started_step) (fun _ => Started.alive)
      (fun _ _ => not_alive_of_tick) (started_begin config)
  refine ⟨fun h => halive.1 h.1, fun h => ⟨halive.2 h, ?_⟩⟩
  refine Run.along_of_invariant (fun _ _ => started_step) (fun s x hs _ => ?_)
    (started_begin config) h
  intro reports task _ htask _ hrunning
  rw [(hs.task task htask).2] at hrunning
  cases hrunning

def oneStaticNode : DiscoveryConfig where
  enableStatic := true
  enableDns := false
  enableMdns := false
  staticNodes := .ofList [("node1", ["10.0.0.1:7000"])] compare
  dnsDomains := []

def firstTick : List ManagerStep :=
  [.start fun _ => .ok (), .subscribe,
    .tick fun _ => .ok [⟨1, ["10.0.0.1:7000"], none, ∅, 100⟩]]

/-- The task has ended while the manager is running, which has its provider and no nodes; the
    subscriber has received nothing. -/
theorem ended_at_first_tick :
    let s := firstTick.foldl step (begin oneStaticNode)
    s.manager.running = true ∧ s.manager.providers = [.static] ∧
      s.task.map (·.hasEnded) = some true ∧ s.manager.getNodes = [] ∧
      s.manager.subscribers = [⟨true, []⟩] := by
  decide +kernel

end ManagedDiscovery

end Blixard
