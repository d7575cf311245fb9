/-
  The state of discovery providers (`discovery/mod.rs`).

  The map of nodes is changed under a lock and the event is sent after it is dropped; the cleanup
  collects the stale nodes and then removes them without looking again.  There is one subscriber,
  from the beginning.
-/
import Blixard.IpPool.Config
import Blixard.Lib.Calls

namespace Blixard

open Function List

/-! ## Types -/

structure IrohNodeInfo where
  nodeId : ℕ
  addresses : List String
  name : Option String
  metadata : Table String String
  lastSeen : ℕ
  deriving DecidableEq

inductive DiscoveryEvent where
  | nodeDiscovered (info : IrohNodeInfo)
  | nodeRemoved (nodeId : ℕ)
  | nodeUpdated (info : IrohNodeInfo)
  deriving DecidableEq

structure DiscoveryState where
  nodes : Table ℕ IrohNodeInfo
  received : List DiscoveryEvent
  /-- How often the map was changed; only the specification reads it. -/
  changes : ℕ

/-- A node that the cleanup has found stale.  The code keeps the id alone; the rest, what was
    compared, is for the specification. -/
structure StaleNode where
  nodeId : ℕ
  lastSeen : ℕ
  maxAge : ℕ
  now : ℕ
  deriving DecidableEq

inductive DiscoveryCall where
  | notBegun
  | adding (info : IrohNodeInfo)
  /-- The event of a change, by its number, is not yet sent; the stale nodes are yet to be
      removed. -/
  | notifying (change : ℕ) (event : DiscoveryEvent) (stale : List StaleNode)
  | removing (stale : List StaleNode)
  | finished
  | failed (failure : Failure)
  deriving DecidableEq

inductive DiscoveryStep where
  | add (info : IrohNodeInfo) (now : ℕ)
  | insert
  | remove (nodeId : ℕ)
  /-- The clock is read for each node. -/
  | cleanup (maxAge : ℕ) (clock : ℕ → ℕ)
  /-- A stale node is removed at this time, which the code does not read. -/
  | removeStale (nodeId : ℕ) (now : ℕ)
  | send
  | finish

namespace IrohNodeInfo

def updateLastSeen (info : IrohNodeInfo) (now : ℕ) : IrohNodeInfo := { info with lastSeen := now }

def isStale (pf : Platform) (info : IrohNodeInfo) (maxAge now : ℕ) : Except Failure Bool :=
  (pf.subUnsigned 64 now info.lastSeen).map (maxAge < ·)

end IrohNodeInfo

namespace DiscoveryEvent

def nodeId : DiscoveryEvent → ℕ
  | nodeDiscovered info | nodeUpdated info => info.nodeId
  | nodeRemoved nodeId => nodeId

def row : DiscoveryEvent → Option IrohNodeInfo
  | nodeDiscovered info | nodeUpdated info => some info
  | nodeRemoved _ => none

def apply (nodes : Table ℕ IrohNodeInfo) : DiscoveryEvent → Table ℕ IrohNodeInfo
  | nodeDiscovered info | nodeUpdated info => nodes.insert info.nodeId info
  | nodeRemoved nodeId => nodes.erase nodeId

def replay (events : List DiscoveryEvent) : Table ℕ IrohNodeInfo := events.foldl apply ∅

theorem get_apply (nodes : Table ℕ IrohNodeInfo) (event : DiscoveryEvent) (v : ℕ) :
    (event.apply nodes)[v]? = if event.nodeId = v then event.row else nodes[v]? := by
  cases event with
  | nodeDiscovered info | nodeUpdated info => exact Table.get_insert ..
  | nodeRemoved nid => exact Table.get_erase ..

theorem get_replay_concat (evs : List DiscoveryEvent) (event : DiscoveryEvent) (v : ℕ) :
    (replay (evs ++ [event]))[v]? =
      if event.nodeId = v then event.row else (replay evs)[v]? := by
  rw [replay, foldl_append]
  exact get_apply ..

end DiscoveryEvent

/-! ## Steps -/

namespace DiscoveryState

variable (c : DiscoveryState)

def new : DiscoveryState := ⟨∅, [], 0⟩

def change (event : DiscoveryEvent) (stale : List StaleNode) : DiscoveryState × DiscoveryCall :=
  ({ c with nodes := event.apply c.nodes, changes := c.changes + 1 },
    .notifying c.changes event stale)

def insertNode (info : IrohNodeInfo) : DiscoveryState × DiscoveryCall :=
  c.change (if info.nodeId ∈ c.nodes then .nodeUpdated info else .nodeDiscovered info) []

def removeNode (nodeId : ℕ) (stale : List StaleNode) : DiscoveryState × DiscoveryCall :=
  if nodeId ∈ c.nodes then c.change (.nodeRemoved nodeId) stale else (c, .removing stale)

def staleNodes (pf : Platform) (maxAge : ℕ) (clock : ℕ → ℕ) :
    List (ℕ × IrohNodeInfo) → Except Failure (List StaleNode)
  | [] => .ok []
  | (nodeId, info) :: rows => do
    let isStale ← info.isStale pf maxAge (clock nodeId)
    let stale ← staleNodes pf maxAge clock rows
    .ok (if isStale then ⟨nodeId, info.lastSeen, maxAge, clock nodeId⟩ :: stale else stale)

def cleanupStaleNodes (pf : Platform) (maxAge : ℕ) (clock : ℕ → ℕ) : DiscoveryCall :=
  match staleNodes pf maxAge clock c.nodes.toList with
  | .ok stale => .removing stale
  | .error failure => .failed failure

def act (pf : Platform) : DiscoveryCall → DiscoveryStep → DiscoveryState × DiscoveryCall
  | .notBegun, .add info now => (c, .adding (info.updateLastSeen now))
  | .adding info, .insert => c.insertNode info
  | .notBegun, .remove nodeId => c.removeNode nodeId []
  | .notBegun, .cleanup maxAge clock => (c, c.cleanupStaleNodes pf maxAge clock)
  | .removing stale, .removeStale nodeId _ =>
    if stale.any (·.nodeId = nodeId) then c.removeNode nodeId (stale.eraseP (·.nodeId = nodeId))
    else (c, .removing stale)
  | .notifying _ event stale, .send =>
    ({ c with received := c.received ++ [event] }, .removing stale)
  | .removing [], .finish => (c, .finished)
  | call, _ => (c, call)

end DiscoveryState

namespace DiscoveryCall

def pending : DiscoveryCall → Option (ℕ × DiscoveryEvent)
  | notifying change event _ => some (change, event)
  | _ => none

def stale : DiscoveryCall → List StaleNode
  | notifying _ _ stale | removing stale => stale
  | _ => []

def isIdle : DiscoveryCall → Bool
  | notBegun | finished | failed _ => true
  | _ => false

theorem pending_of_isIdle {call : DiscoveryCall} (h : call.isIdle = true) :
    call.pending = none := by
  cases call with
  | notifying => cases h
  | _ => rfl

end DiscoveryCall

namespace DiscoveryState

variable {c c' : DiscoveryState}

inductive Does (c : DiscoveryState) :
    DiscoveryCall → DiscoveryStep → DiscoveryState → DiscoveryCall → Prop where
  | quiet {call step call'} (hcall : call'.pending = call.pending)
      (hsend : step = .send → call.pending = none) : Does c call step c call'
  | change {call step} (event : DiscoveryEvent) (stale : List StaleNode)
      (hcall : call.pending = none) :
    Does c call step (c.change event stale).1 (c.change event stale).2
  | send {change event stale} :
    Does c (.notifying change event stale) .send { c with received := c.received ++ [event] }
      (.removing stale)

variable {call : DiscoveryCall} {pf : Platform} {maxAge : ℕ}

theorem does_removeNode (step : DiscoveryStep) (hcall : call.pending = none)
    (nid : ℕ) (stale : List StaleNode) :
    Does c call step (c.removeNode nid stale).1 (c.removeNode nid stale).2 := by
  unfold removeNode
  split_ifs
  · exact .change _ _ hcall
  · exact .quiet hcall.symm fun _ => hcall

theorem does_act (pf : Platform) (c : DiscoveryState) (call : DiscoveryCall)
    (step : DiscoveryStep) : Does c call step (c.act pf call step).1 (c.act pf call step).2 := by
  fun_cases act c pf call step with
  | case2 info => exact .change _ _ rfl
  | case3 nid => exact does_removeNode _ rfl nid []
  | case4 maxAge clock =>
    unfold cleanupStaleNodes
    split <;> exact .quiet rfl nofun
  | case5 stale nid => exact does_removeNode _ rfl nid _
  | case7 => exact .send
  | case1 | case6 | case8 => exact .quiet rfl nofun
  | case9 =>
    refine .quiet rfl ?_
    rintro rfl
    cases call <;> simp_all [DiscoveryCall.pending]

/-! ## Stale nodes -/

theorem lt_of_isStale {info : IrohNodeInfo} {now : ℕ}
    (h : info.isStale pf maxAge now = .ok true) (hc : info.lastSeen ≤ now) :
    info.lastSeen + maxAge < now := by
  obtain ⟨age, hage, hlt⟩ := map_eq_ok h
  unfold Platform.subUnsigned at hage
  split_ifs at hage with ho
  have hage : (now + 2 ^ 64 - info.lastSeen) % 2 ^ 64 = age := Except.ok.inj hage
  have hle : age ≤ now - info.lastSeen := by
    rw [← hage, show now + 2 ^ 64 - info.lastSeen = now - info.lastSeen + 2 ^ 64 by omega,
      Nat.add_mod_right]
    exact Nat.mod_le ..
  have hlt : maxAge < age := of_decide_eq_true hlt
  omega

theorem mem_staleNodes {clock : ℕ → ℕ} {stale : List StaleNode}
    {rows : List (ℕ × IrohNodeInfo)} (h : staleNodes pf maxAge clock rows = .ok stale) :
    ∀ x ∈ stale, ∃ info, (x.nodeId, info) ∈ rows ∧
      x = ⟨x.nodeId, info.lastSeen, maxAge, clock x.nodeId⟩ ∧
      info.isStale pf maxAge (clock x.nodeId) = .ok true := by
  induction rows generalizing stale with
  | nil =>
    cases h
    exact forall_mem_nil _
  | cons row rows ih =>
    obtain ⟨nid, info⟩ := row
    obtain ⟨isStale, hs, h⟩ := bind_eq_ok h
    obtain ⟨rest, hrest, h⟩ := bind_eq_ok h
    have hrows : ∀ x ∈ rest, ∃ info', (x.nodeId, info') ∈ (nid, info) :: rows ∧ _ := fun x hx =>
      (ih hrest x hx).imp fun info' h => ⟨mem_cons_of_mem _ h.1, h.2⟩
    cases isStale with
    | false =>
      cases h
      exact hrows
    | true =>
      cases h
      refine forall_mem_cons.2 ⟨⟨info, mem_cons_self, rfl, hs⟩, hrows⟩

theorem mem_stale_act {step : DiscoveryStep} {x : StaleNode}
    (h : x ∈ (c.act pf call step).2.stale) :
    x ∈ call.stale ∨ ∃ maxAge clock info, step = .cleanup maxAge clock ∧
      c.nodes[x.nodeId]? = some info ∧ x = ⟨x.nodeId, info.lastSeen, maxAge, clock x.nodeId⟩ ∧
      info.isStale pf maxAge (clock x.nodeId) = .ok true := by
  have hr {nid : ℕ} {stale : List StaleNode}
      (h : x ∈ (c.removeNode nid stale).2.stale) : x ∈ stale := by
    unfold removeNode at h
    split_ifs at h <;> exact h
  revert h
  fun_cases act c pf call step with
  | case2 | case8 => exact nofun
  | case3 nid => exact fun h => .inl (hr h)
  | case4 maxAge clock =>
    unfold cleanupStaleNodes
    split
    next stale hs =>
      intro h
      obtain ⟨info, hrow, hx⟩ := mem_staleNodes hs x h
      exact .inr ⟨maxAge, clock, info, rfl,
        Std.ExtTreeMap.mem_toList_iff_getElem?_eq_some.1 hrow, hx⟩
    next => exact nofun
  | case5 => exact fun h => .inl (mem_of_mem_eraseP (hr h))
  | case1 | case6 | case7 | case9 => exact .inl

/-! ## Events -/

/-- The events that were sent and the last of those that were not give the map. -/
structure Logged (c : DiscoveryState) (pending : ℕ → Option (ℕ × DiscoveryEvent)) : Prop where
  before : ∀ j change event, pending j = some (change, event) → change < c.changes
  settled : ∀ v, (∀ j change event, pending j = some (change, event) → event.nodeId ≠ v) →
    (DiscoveryEvent.replay c.received)[v]? = c.nodes[v]?
  latest : ∀ j change event, pending j = some (change, event) →
    (∀ j' change' event', pending j' = some (change', event') →
      event'.nodeId = event.nodeId → change' ≤ change) →
    c.nodes[event.nodeId]? = event.row

section
variable {pending : ℕ → Option (ℕ × DiscoveryEvent)} {i : ℕ}

theorem Logged.change (h : Logged c pending) (hi : pending i = none) (event : DiscoveryEvent)
    (stale : List StaleNode) :
    Logged (c.change event stale).1 (update pending i (some (c.changes, event))) := by
  have hself : update pending i (some (c.changes, event)) i = some (c.changes, event) :=
    update_self ..
  have ho {j chg' event'} (hj : pending j = some (chg', event')) :
      update pending i (some (c.changes, event)) j = some (chg', event') := by
    have hne : j ≠ i := by
      rintro rfl
      rw [hi] at hj
      cases hj
    rw [update_of_ne hne, hj]
  have hn (v : ℕ) : (c.change event stale).1.nodes[v]? = _ := event.get_apply c.nodes v
  constructor
  · intro j chg' event' hj
    show chg' < c.changes + 1
    by_cases hne : j = i
    · subst hne
      rw [hself] at hj
      cases hj
      exact Nat.lt_succ_self _
    · rw [update_of_ne hne] at hj
      exact Nat.lt_succ_of_lt (h.before j chg' event' hj)
  · intro v hnone
    rw [hn, if_neg (hnone i _ _ hself)]
    exact h.settled v fun j chg' event' hj => hnone j chg' event' (ho hj)
  · intro j chg' event' hj hlast
    by_cases hne : j = i
    · subst hne
      rw [hself] at hj
      cases hj
      rw [hn, if_pos rfl]
    rw [update_of_ne hne] at hj
    have hnode : event.nodeId ≠ event'.nodeId := fun heq =>
      absurd (hlast i _ _ hself heq) (not_le.2 (h.before j chg' event' hj))
    rw [hn, if_neg hnode]
    exact h.latest j chg' event' hj fun j' k e hj' => hlast j' k e (ho hj')

theorem Logged.send {chg : ℕ} {event : DiscoveryEvent} (h : Logged c pending)
    (hi : pending i = some (chg, event)) (hf : ∀ j chg' event', pending j = some (chg', event') →
      event'.nodeId = event.nodeId → chg ≤ chg') :
    Logged { c with received := c.received ++ [event] } (update pending i none) := by
  have hrest {j chg' event'}
      (hj : update pending i none j = some (chg', event')) :
      pending j = some (chg', event') := by
    by_cases hne : j = i
    · subst hne
      rw [update_self] at hj
      cases hj
    · rwa [update_of_ne hne] at hj
  constructor
  · exact fun j chg' event' hj => h.before j chg' event' (hrest hj)
  · intro v hnone
    have ho {j chg' event'} (hj : pending j = some (chg', event'))
        (hnode : event'.nodeId = v) : j = i := by
      by_contra hne
      exact hnone j chg' event' (by rw [update_of_ne hne, hj]) hnode
    rw [DiscoveryEvent.get_replay_concat]
    split_ifs with hv
    · -- with no other event of the node, this one is the last
      subst hv
      refine (h.latest i chg event hi fun j chg' event' hj hnode => ?_).symm
      obtain rfl := ho hj hnode
      rw [hi] at hj
      cases hj
      exact le_rfl
    · refine h.settled v fun j chg' event' hj hnode => ?_
      obtain rfl := ho hj hnode
      rw [hi] at hj
      cases hj
      exact hv hnode
  · intro j chg' event' hj hlast
    refine h.latest j chg' event' (hrest hj) fun j' change'' event'' hj' hnode => ?_
    by_cases hne : j' = i
    · subst hne
      rw [hi] at hj'
      cases hj'
      exact hf j chg' event' (hrest hj) hnode.symm
    · exact hlast j' change'' event'' (by rw [update_of_ne hne, hj']) hnode

end

end DiscoveryState

/-! ## Interleavings -/

abbrev DiscoverySystem := Calls.System DiscoveryState DiscoveryCall

namespace DiscoverySystem

open DiscoveryCall DiscoveryState

def step (pf : Platform) : DiscoverySystem → ℕ × DiscoveryStep → DiscoverySystem :=
  Calls.System.step fun c => c.act pf

def begin : DiscoverySystem := .start .new .notBegun

def Idle (s : DiscoverySystem) : Prop := ∀ i, (s.calls i).isIdle = true

def Faithful (s : DiscoverySystem) : Prop :=
  DiscoveryEvent.replay s.shared.received = s.shared.nodes

/-- An event is sent when no earlier change of its node has an event that is not sent. -/
def InOrder (s : DiscoverySystem) (x : ℕ × DiscoveryStep) : Prop :=
  ∀ change event, x.2 = .send → (s.calls x.1).pending = some (change, event) →
    ∀ j change' event', (s.calls j).pending = some (change', event') →
      event'.nodeId = event.nodeId → change ≤ change'

/-- A node that the cleanup removes was last seen longer ago than allowed. -/
def RemovesStale (s : DiscoverySystem) (x : ℕ × DiscoveryStep) : Prop :=
  ∀ stale nodeId now, s.calls x.1 = .removing stale → x.2 = .removeStale nodeId now →
    ∀ n ∈ stale, n.nodeId = nodeId → ∀ info, s.shared.nodes[nodeId]? = some info →
      info.lastSeen + n.maxAge < now

/-- The clock is not behind the times at which nodes were last seen; a stale node is removed as
    it was found, and not before that. -/
def Timely (s : DiscoverySystem) (x : ℕ × DiscoveryStep) : Prop :=
  match x.2 with
  | .cleanup _ clock =>
    ∀ nodeId info, s.shared.nodes[nodeId]? = some info → info.lastSeen ≤ clock nodeId
  | .removeStale nodeId now => ∀ n ∈ (s.calls x.1).stale, n.nodeId = nodeId →
    ∀ info, s.shared.nodes[nodeId]? = some info → info.lastSeen = n.lastSeen ∧ n.now ≤ now
  | _ => True

variable {pf : Platform} {s : DiscoverySystem} {x : ℕ × DiscoveryStep}

theorem pending_step (s : DiscoverySystem) (x : ℕ × DiscoveryStep) :
    (fun j => ((s.step pf x).calls j).pending) = update (fun j => (s.calls j).pending) x.1
        (s.shared.act pf (s.calls x.1) x.2).2.pending := by
  funext j
  exact (apply_update (fun _ => pending) s.calls x.1 _ j)

def IsLogged (s : DiscoverySystem) : Prop := Logged s.shared fun j => (s.calls j).pending

theorem isLogged_step (h : IsLogged s) (hord : InOrder s x) : IsLogged (s.step pf x) := by
  obtain ⟨i, a⟩ := x
  rw [IsLogged, pending_step, step, Calls.step_shared]
  have hdoes := s.shared.does_act pf (s.calls i) a
  generalize s.shared.act pf (s.calls i) a = r at hdoes ⊢
  generalize hcall : s.calls i = call at hdoes
  obtain ⟨c', call'⟩ := r
  cases hdoes with
  | quiet hp =>
    have hsame : update (fun j => (s.calls j).pending) i call'.pending = _ :=
      update_eq_self_iff.2 (by rw [hp, hcall])
    rw [hsame]
    exact h
  | change event stale hnone => exact h.change (by rw [hcall, hnone]) event stale
  | @send change event stale =>
    have hi : (s.calls i).pending = some (change, event) := by
      rw [hcall]
      rfl
    exact h.send hi (hord change event rfl hi)

theorem isLogged_begin : IsLogged begin := ⟨nofun, fun _ _ => rfl, nofun⟩

theorem IsLogged.faithful (h : IsLogged s) (hidle : Idle s) : Faithful s := by
  apply Std.ExtTreeMap.ext_getElem?
  intro v
  refine h.settled v fun j chg event hj => ?_
  rw [pending_of_isIdle (hidle j)] at hj
  cases hj

/-! ## Cleanups -/

def FoundOld (s : DiscoverySystem) : Prop :=
  ∀ j, ∀ n ∈ (s.calls j).stale, n.lastSeen + n.maxAge < n.now

theorem foundOld_step (h : FoundOld s) (ht : Timely s x) : FoundOld (s.step pf x) := by
  obtain ⟨i, a⟩ := x
  refine Calls.forall_calls_put (P := fun _ call => ∀ n ∈ stale call,
    n.lastSeen + n.maxAge < n.now) (fun n hn => ?_) fun j _ => h j
  rcases mem_stale_act hn with hn | ⟨maxAge, clock, info, rfl, hinfo, hn, hs⟩
  · exact h i n hn
  · rw [hn]
    exact lt_of_isStale hs (ht n.nodeId info hinfo)

theorem removesStale_of_timely (h : FoundOld s) (ht : Timely s x) : RemovesStale s x := by
  obtain ⟨i, a⟩ := x
  intro stale nid now hcall ha n hn hid info hinfo
  have hn' : n ∈ (s.calls i).stale := by
    rw [show s.calls i = _ from hcall]
    exact hn
  have hold := h i n hn'
  subst ha
  obtain ⟨hseen, hnow⟩ := ht n hn' hid info hinfo
  rw [hseen]
  omega

/-- **Events and cleanups**: if each node's events are sent in the order of its changes, they give
    the map whenever no call is in progress; timely cleanups remove stale nodes only. -/
theorem log_faithful_along (pf : Platform) (run : List (ℕ × DiscoveryStep)) :
    (Run.Along (step pf) InOrder begin run →
      ∀ s ∈ run.scanl (step pf) begin, Idle s → Faithful s) ∧
    (Run.Along (step pf) Timely begin run → Run.Along (step pf) RemovesStale begin run) := by
  constructor
  · intro horder s hs
    exact (Run.invariant (fun _ _ => isLogged_step) isLogged_begin horder s hs).faithful
  intro htimely
  have hbegin : FoundOld begin := nofun
  exact Run.along_of_invariant (fun _ _ => foundOld_step) (fun _ _ => removesStale_of_timely)
    hbegin htimely

def nodeAt (address : String) : IrohNodeInfo := ⟨1, [address], none, ∅, 0⟩

/-- A node is added, and removed once it is stale. -/
def removedInTime : List (ℕ × DiscoveryStep) :=
  [(0, .add (nodeAt "10.0.0.1:7000") 100), (0, .insert), (0, .send), (0, .finish),
    (1, .cleanup 300 fun _ => 500), (1, .removeStale 1 500), (1, .send), (1, .finish)]

theorem log_faithful_removedInTime :
    (∀ s ∈ removedInTime.scanl (step .release) begin, Idle s → Faithful s) ∧
      Run.Along (step .release) RemovesStale begin removedInTime ∧
      (removedInTime.foldl (step .release) begin).shared.nodes[1]? = none := by
  obtain ⟨hf, hs⟩ := log_faithful_along .release removedInTime
  have hsend (done : List (ℕ × DiscoveryStep)) (i n : ℕ)
      (hi : ∀ y ∈ ((done.foldl (step .release) begin).calls i).pending, y.1 = n)
      (hall : ∀ x ∈ done, ∀ y ∈ ((done.foldl (step .release) begin).calls x.1).pending, n ≤ y.1) :
      InOrder (done.foldl (step .release) begin) (i, .send) := by
    intro change event _ he j change' event' hp _
    have hle := Calls.forall_calls_foldl (P := fun call => ∀ y ∈ pending call, n ≤ y.1)
      (fun _ hy => by cases hy) _ hall
    exact (hi _ he).trans_le (hle j _ hp)
  refine ⟨hf ⟨nofun, nofun, ?_, nofun, nofun, nofun, ?_, nofun, trivial⟩, hs ?_,
    by decide +kernel⟩
  · exact hsend (removedInTime.take 2) 0 0 (by decide +kernel) (by decide +kernel)
  · exact hsend (removedInTime.take 6) 1 1 (by decide +kernel) (by decide +kernel)
  have hseen : ∀ x ∈ ((removedInTime.take 4).foldl (step .release) begin).shared.nodes.toList,
      x.2.lastSeen ≤ 500 := by decide +kernel
  have hd : ∀ n ∈ (((removedInTime.take 5).foldl (step .release) begin).calls 1).stale,
      ∀ info ∈ ((removedInTime.take 5).foldl (step .release) begin).shared.nodes[1]?,
        info.lastSeen = n.lastSeen ∧ n.now ≤ 500 := by decide +kernel
  exact ⟨trivial, trivial, trivial, trivial, fun nodeId info hinfo => hseen (nodeId, info)
      (Std.ExtTreeMap.mem_toList_iff_getElem?_eq_some.2 hinfo), fun n hn _ => hd n hn, trivial,
      trivial, trivial⟩

def sentInReverse : List (ℕ × DiscoveryStep) :=
  [(0, .add (nodeAt "10.0.0.1:7000") 100), (1, .add (nodeAt "10.0.0.2:7000") 100), (0, .insert),
    (1, .insert), (1, .send), (0, .send), (0, .finish), (1, .finish)]

def refreshed : List (ℕ × DiscoveryStep) :=
  [(0, .add (nodeAt "10.0.0.1:7000") 100), (0, .insert), (0, .send), (0, .finish),
    (1, .cleanup 300 fun _ => 500), (2, .add (nodeAt "10.0.0.1:7000") 500), (2, .insert),
    (2, .send), (2, .finish)]

/-- The subscriber has the address of the first call, the map that of the second; and the cleanup
    removes a node that was just refreshed. -/
theorem log_unfaithful :
    let s := sentInReverse.foldl (step .release) begin
    let t := refreshed.foldl (step .release) begin
    (Idle s ∧ (DiscoveryEvent.replay s.shared.received)[1]? =
        some ((nodeAt "10.0.0.1:7000").updateLastSeen 100) ∧
      s.shared.nodes[1]? = some ((nodeAt "10.0.0.2:7000").updateLastSeen 100)) ∧
    (t.calls 1 = .removing [⟨1, 100, 300, 500⟩] ∧
      t.shared.nodes[1]? = some ((nodeAt "10.0.0.1:7000").updateLastSeen 500) ∧
      (t.step .release (1, .removeStale 1 500)).shared.nodes[1]? = none) := by
  refine ⟨⟨?_, by decide +kernel, by decide +kernel⟩, by decide +kernel, by decide +kernel,
    by decide +kernel⟩
  exact Calls.forall_calls_foldl (P := fun call => isIdle call = true) rfl _ (by decide +kernel)

end DiscoverySystem

end Blixard
