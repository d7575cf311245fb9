/-
  Connection pools (`transport/optimized_peer_connector.rs`, and the counter of
  `common/async_utils.rs`).

  Pools are shared, and live on with the calls that hold them; here they have numbers in the
  order of their creation.  `does_act` says what a step can do to pools and counter.  Scores of
  connections, batches and statistics are left out.
-/
import Blixard.Error
import Blixard.Lib.Calls
import Blixard.Lib.Table
import Mathlib.Algebra.Order.Ring.Unbundled.Rat

namespace Blixard

open List

/-! ## Types -/

structure OptimizedPeerConnectorConfig where
  maxConnectionsPerPeer : ℕ
  connectionIdleTimeout : ℤ
  enableAdaptivePooling : Bool
  minConnectionsPerPeer : ℕ
  connectionLoadThreshold : ℚ
  maxConcurrentConnections : ℕ

structure EnhancedConnectionInfo where
  lastUsed : ℤ
  isHealthy : Bool

structure PeerConnectionPool where
  peerId : ℕ
  connections : List EnhancedConnectionInfo
  isLocked : Bool

structure OptimizedPeerConnector where
  config : OptimizedPeerConnectorConfig
  peerPools : Table ℕ ℕ
  pools : List PeerConnectionPool
  totalConnections : ℕ
  permits : ℕ

inductive PeerPoolCall where
  | notBegun
  | permitted (peerId : ℕ)
  | creating (peerId : ℕ)
  | holding (peerId pool : ℕ)
  | locked (peerId pool : ℕ)
  | connecting (peerId pool : ℕ)
  | counting (peerId pool : ℕ)
  | unlocking (peerId pool : ℕ) (result : Except BlixardError Unit)
  | releasing (result : Except BlixardError Unit)
  | finished (result : Except BlixardError Unit)
  /-- The cleanup task with its copy of the counter, between two rounds. -/
  | waiting (copy : ℕ)
  /-- In a round, with the peers whose pools it has visited. -/
  | sweeping (copy : ℕ) (seen : List ℕ)
  | visiting (copy : ℕ) (seen : List ℕ) (pool : ℕ)
  /-- So many connections of a pool are inspected, and those with these indices are idle. -/
  | inspecting (copy : ℕ) (seen : List ℕ) (pool done : ℕ) (idle : List ℕ)
  deriving DecidableEq

inductive PeerPoolStep where
  | acquire (peerId : ℕ)
  | semaphoreClosed
  | lookup
  | insert
  | lock
  /-- Which connection is the best, and the mean load of the connections. -/
  | choose (choice : ℕ) (load : ℚ)
  | connected (now : ℤ) (result : Except BlixardError Unit)
  | count
  | unlock
  | finish
  /-- A caller uses a connection, or an error is recorded for it. -/
  | updateStats (pool index : ℕ) (now : ℤ)
  | recordError (pool index : ℕ)
  | startCleanup
  | tick
  | visit (peerId : ℕ)
  | inspect (now : ℤ)
  | remove
  | endRound
  deriving DecidableEq

/-! ## Steps -/

namespace OptimizedPeerConnectorConfig

/-- `load` is the mean load of the connections, if there are any. -/
def needsMoreConnections (config : OptimizedPeerConnectorConfig)
    (connections : List EnhancedConnectionInfo) (load : ℚ) : Bool :=
  if !config.enableAdaptivePooling then connections.length < config.maxConnectionsPerPeer
  else if connections.countP (·.isHealthy) < config.minConnectionsPerPeer then true
  else
    let avgLoad := if connections.isEmpty then 0 else load
    config.connectionLoadThreshold < avgLoad && connections.length < config.maxConnectionsPerPeer

end OptimizedPeerConnectorConfig

/-- `fetch_sub` of a counter wraps around. -/
def AtomicCounter.decrement (value : ℕ) : ℕ := if value = 0 then 2 ^ 64 - 1 else value - 1

namespace OptimizedPeerConnector

def removeIdle (idle : List ℕ) (connections : List EnhancedConnectionInfo) (counter : ℕ) :
    List EnhancedConnectionInfo × ℕ :=
  idle.reverse.foldl (fun r index =>
    if index < r.1.length then (r.1.eraseIdx index, AtomicCounter.decrement r.2) else r)
    (connections, counter)

variable (c : OptimizedPeerConnector)

def new (config : OptimizedPeerConnectorConfig) : OptimizedPeerConnector :=
  ⟨config, ∅, [], 0, config.maxConcurrentConnections⟩

def connectionsOf (pool : ℕ) : List EnhancedConnectionInfo :=
  (c.pools[pool]?.map (·.connections)).getD []

def isLocked (pool : ℕ) : Bool := (c.pools[pool]?.map (·.isLocked)).getD false

def modifyPool (pool : ℕ) (f : PeerConnectionPool → PeerConnectionPool) : OptimizedPeerConnector :=
  { c with pools := c.pools.modify pool f }

def setLocked (pool : ℕ) (isLocked : Bool) : OptimizedPeerConnector :=
  c.modifyPool pool ({ · with isLocked })

def setConnections (pool : ℕ) (connections : List EnhancedConnectionInfo) :
    OptimizedPeerConnector :=
  c.modifyPool pool ({ · with connections })

def insertPool (peerId : ℕ) : OptimizedPeerConnector :=
  { c with
    peerPools := c.peerPools.insert peerId c.pools.length
    pools := c.pools ++ [⟨peerId, [], false⟩] }

def addConnection (pool : ℕ) (now : ℤ) : OptimizedPeerConnector :=
  c.setConnections pool (c.connectionsOf pool ++ [⟨now, true⟩])

def modifyConnection (pool index : ℕ) (f : EnhancedConnectionInfo → EnhancedConnectionInfo) :
    OptimizedPeerConnector :=
  c.setConnections pool ((c.connectionsOf pool).modify index f)

def choose (peerId pool choice : ℕ) (load : ℚ) : PeerPoolCall :=
  let connections := c.connectionsOf pool
  match connections[choice % connections.length]? with
  | some _ => .unlocking peerId pool (.ok ())
  | none =>
    if c.config.needsMoreConnections connections load then .connecting peerId pool
    else .unlocking peerId pool (.error (.resourceExhausted
      s!"Connection pool for peer {peerId} (limit: {c.config.maxConnectionsPerPeer})"))

def inspect (copy : ℕ) (seen : List ℕ) (pool done : ℕ) (idle : List ℕ) (now : ℤ) : PeerPoolCall :=
  match (c.connectionsOf pool)[done]? with
  | none => .inspecting copy seen pool done idle
  | some connection =>
    .inspecting copy seen pool (done + 1)
      (if c.config.connectionIdleTimeout < now - connection.lastUsed then idle ++ [done] else idle)

def act : PeerPoolCall → PeerPoolStep → OptimizedPeerConnector × PeerPoolCall
  | .notBegun, .acquire p =>
    if 0 < c.permits then ({ c with permits := c.permits - 1 }, .permitted p) else (c, .notBegun)
  | .notBegun, .semaphoreClosed =>
    (c, .finished (.error (.internal "Connection semaphore closed")))
  | .permitted p, .lookup => (c, (c.peerPools[p]?.map (.holding p)).getD (.creating p))
  | .creating p, .insert => (c.insertPool p, .holding p c.pools.length)
  | .holding p pool, .lock =>
    if c.isLocked pool then (c, .holding p pool) else (c.setLocked pool true, .locked p pool)
  | .locked p pool, .choose choice load => (c, c.choose p pool choice load)
  | .connecting p pool, .connected now (.ok ()) => (c.addConnection pool now, .counting p pool)
  | .connecting p pool, .connected _ (.error e) => (c, .unlocking p pool (.error e))
  | .counting p pool, .count =>
    ({ c with totalConnections := c.totalConnections + 1 }, .unlocking p pool (.ok ()))
  | .unlocking _ pool result, .unlock => (c.setLocked pool false, .releasing result)
  | .releasing result, .finish => ({ c with permits := c.permits + 1 }, .finished result)
  | .notBegun, .updateStats pool index now =>
    (c.modifyConnection pool index ({ · with lastUsed := now }), .finished (.ok ()))
  | .notBegun, .recordError pool index =>
    (c.modifyConnection pool index ({ · with isHealthy := false }), .finished (.ok ()))
  | .notBegun, .startCleanup => (c, .waiting c.totalConnections)
  | .waiting copy, .tick => (c, .sweeping copy [])
  | .sweeping copy seen, .visit p =>
    if p ∈ seen then (c, .sweeping copy seen)
    else (c, (c.peerPools[p]?.map (.visiting copy (p :: seen))).getD (.sweeping copy seen))
  | .visiting copy seen pool, .lock =>
    if c.isLocked pool then (c, .visiting copy seen pool)
    else (c.setLocked pool true, .inspecting copy seen pool 0 [])
  | .inspecting copy seen pool done idle, .inspect now =>
    (c, c.inspect copy seen pool done idle now)
  | .inspecting copy seen pool done idle, .remove =>
    if done < (c.connectionsOf pool).length then (c, .inspecting copy seen pool done idle)
    else
      let r := removeIdle idle (c.connectionsOf pool) copy
      ((c.setConnections pool r.1).setLocked pool false, .sweeping r.2 seen)
  | .sweeping copy _, .endRound => (c, .waiting copy)
  | call, _ => (c, call)

end OptimizedPeerConnector

/-! ## What a step does to pools and counter -/

namespace PeerPoolCall

def pool : PeerPoolCall → Option (ℕ × ℕ)
  | holding p pool | locked p pool | connecting p pool | counting p pool | unlocking p pool _ =>
    some (p, pool)
  | _ => none

def isCounting : PeerPoolCall → Bool
  | counting _ _ => true
  | _ => false

def isIdle : PeerPoolCall → Bool
  | notBegun | finished _ | waiting _ => true
  | _ => false

theorem isCounting_of_isIdle {call : PeerPoolCall} (h : call.isIdle = true) :
    call.isCounting = false := by
  cases call with
  | counting => cases h
  | _ => rfl

end PeerPoolCall

namespace OptimizedPeerConnector

variable {c c' : OptimizedPeerConnector}

section
variable (c)

def poolSize (pool : ℕ) : ℕ := (c.connectionsOf pool).length

def peerOf (pool : ℕ) : Option ℕ := c.pools[pool]?.map (·.peerId)

def connected : ℕ := Table.sumOf (fun _ pool => c.poolSize pool) c.peerPools

/-- The step inserts a pool only in place of none or of an empty one that no caller holds, adds
    connections only below the limit, and removes none. -/
def Fair (held : ℕ → ℕ → Prop) : PeerPoolCall → PeerPoolStep → Prop
  | .creating p, .insert =>
    ∀ pool, c.peerPools[p]? = some pool → c.poolSize pool = 0 ∧ ¬ held p pool
  | .connecting _ pool, .connected _ (.ok ()) =>
    c.poolSize pool < c.config.maxConnectionsPerPeer
  | .inspecting copy _ pool done idle, .remove =>
    c.poolSize pool ≤ done →
      (removeIdle idle (c.connectionsOf pool) copy).1.length = c.poolSize pool
  | _, _ => True

def isMapped (pool : ℕ) : Bool :=
  ((c.peerOf pool).map fun p => decide (c.peerPools[p]? = some pool)).getD false

/-- The connections that a step takes from the pools that the map has and that are not counted
    down, or that it counts and does not add to them. -/
def lost : PeerPoolCall → PeerPoolStep → ℕ
  | .creating p, .insert => (c.peerPools[p]?.map c.poolSize).getD 0
  | .connecting _ pool, .connected _ (.ok ()) => if c.isMapped pool then 0 else 1
  | .inspecting copy _ pool done idle, .remove =>
    if c.isMapped pool ∧ c.poolSize pool ≤ done then
      c.poolSize pool - (removeIdle idle (c.connectionsOf pool) copy).1.length
    else 0
  | _, _ => 0

end

theorem getElem?_modifyPool (pool id : ℕ) (f : PeerConnectionPool → PeerConnectionPool) :
    (c.modifyPool pool f).pools[id]? =
      if pool = id then c.pools[id]?.map f else c.pools[id]? := by
  rw [modifyPool, getElem?_modify]
  split_ifs <;> simp

variable {pool : ℕ}

theorem peerOf_modifyPool {id : ℕ} {f : PeerConnectionPool → PeerConnectionPool}
    (hf : ∀ x, (f x).peerId = x.peerId) : (c.modifyPool pool f).peerOf id = c.peerOf id := by
  unfold peerOf
  rw [getElem?_modifyPool]
  split_ifs
  · rw [Option.map_map]
    exact Option.map_congr fun x _ => hf x
  · rfl

theorem peerOf_setConnections (pool id : ℕ) (conns : List EnhancedConnectionInfo) :
    (c.setConnections pool conns).peerOf id = c.peerOf id :=
  peerOf_modifyPool fun _ => rfl

theorem connectionsOf_modifyPool {id : ℕ} {f : PeerConnectionPool → PeerConnectionPool}
    (hf : ∀ x, (f x).connections = x.connections) :
    (c.modifyPool pool f).connectionsOf id = c.connectionsOf id := by
  unfold connectionsOf
  rw [getElem?_modifyPool]
  split_ifs
  · rw [Option.map_map]
    exact congrArg (Option.getD · []) (Option.map_congr fun x _ => hf x)
  · rfl

theorem connectionsOf_setConnections_of_ne {id : ℕ} (h : id ≠ pool)
    (conns : List EnhancedConnectionInfo) :
    (c.setConnections pool conns).connectionsOf id = c.connectionsOf id := by
  unfold connectionsOf setConnections
  rw [getElem?_modifyPool, if_neg (Ne.symm h)]

theorem connectionsOf_setConnections_self {peerId : ℕ} (h : c.peerOf pool = some peerId)
    (connections : List EnhancedConnectionInfo) :
    (c.setConnections pool connections).connectionsOf pool = connections := by
  unfold connectionsOf setConnections
  rw [getElem?_modifyPool, if_pos rfl]
  obtain ⟨x, hx, -⟩ := Option.map_eq_some_iff.1 h
  rw [hx]
  rfl

theorem connectionsOf_of_peerOf (h : c.peerOf pool = none) : c.connectionsOf pool = [] := by
  unfold connectionsOf
  rw [Option.map_eq_none_iff.1 h]
  rfl

theorem poolSize_modifyConnection (pool index id : ℕ)
    (f : EnhancedConnectionInfo → EnhancedConnectionInfo) :
    (c.modifyConnection pool index f).poolSize id = c.poolSize id := by
  unfold poolSize modifyConnection
  by_cases h : id = pool
  · subst h
    cases hpeer : c.peerOf id with
    | none =>
      rw [connectionsOf_of_peerOf hpeer, connectionsOf_of_peerOf]
      rw [peerOf_setConnections, hpeer]
    | some p => rw [connectionsOf_setConnections_self hpeer, length_modify]
  · rw [connectionsOf_setConnections_of_ne h]

theorem getElem?_insertPool (p id : ℕ) : (c.insertPool p).pools[id]? =
      if id = c.pools.length then some ⟨p, [], false⟩ else c.pools[id]? := by
  rw [insertPool]
  rcases Nat.lt_trichotomy id c.pools.length with h | rfl | h
  · rw [if_neg h.ne, getElem?_append_left h]
  · simp
  · rw [if_neg h.ne', getElem?_eq_none h.le, getElem?_eq_none]
    rw [length_append]
    exact h

theorem peerOf_insertPool (p id : ℕ) :
    (c.insertPool p).peerOf id = if id = c.pools.length then some p else c.peerOf id := by
  unfold peerOf
  rw [getElem?_insertPool]
  split_ifs <;> rfl

theorem poolSize_insertPool (p id : ℕ) : (c.insertPool p).poolSize id = c.poolSize id := by
  unfold poolSize connectionsOf
  rw [getElem?_insertPool]
  split_ifs with h
  · rw [h, getElem?_eq_none le_rfl]
    rfl
  · rfl

structure SameShape (c c' : OptimizedPeerConnector) : Prop where
  config : c'.config = c.config
  peerPools : c'.peerPools = c.peerPools
  totalConnections : c'.totalConnections = c.totalConnections
  peerOf : c'.peerOf = c.peerOf
  poolSize : c'.poolSize = c.poolSize

theorem sameShape_setLocked (pool : ℕ) (isLocked : Bool) :
    SameShape c (c.setLocked pool isLocked) where
  config := rfl
  peerPools := rfl
  totalConnections := rfl
  peerOf := funext fun _ => peerOf_modifyPool fun _ => rfl
  poolSize := funext fun _ => congrArg length (connectionsOf_modifyPool fun _ => rfl)

theorem sameShape_modifyConnection (pool index : ℕ)
    (f : EnhancedConnectionInfo → EnhancedConnectionInfo) :
    SameShape c (c.modifyConnection pool index f) where
  config := rfl
  peerPools := rfl
  totalConnections := rfl
  peerOf := funext fun _ => peerOf_modifyPool fun _ => rfl
  poolSize := funext fun _ => poolSize_modifyConnection ..

inductive Does (c : OptimizedPeerConnector) :
    PeerPoolCall → PeerPoolStep → OptimizedPeerConnector → PeerPoolCall → Prop where
  | quiet {call step c' call'} (hshape : SameShape c c')
      (hcounting : call'.isCounting = call.isCounting)
      (hpool : ∀ p pool, call'.pool = some (p, pool) →
        call.pool = some (p, pool) ∨ c.peerPools[p]? = some pool)
      (hfair : ∀ held, c.Fair held call step) (hlost : c.lost call step = 0) :
    Does c call step c' call'
  | insert {p} : Does c (.creating p) .insert (c.insertPool p) (.holding p c.pools.length)
  | connect {p pool} (now : ℤ) :
    Does c (.connecting p pool) (.connected now (.ok ())) (c.addConnection pool now)
      (.counting p pool)
  | count {p pool} :
    Does c (.counting p pool) .count { c with totalConnections := c.totalConnections + 1 }
      (.unlocking p pool (.ok ()))
  | remove {copy seen pool done idle} (h : c.poolSize pool ≤ done) :
    Does c (.inspecting copy seen pool done idle) .remove
      ((c.setConnections pool (removeIdle idle (c.connectionsOf pool) copy).1).setLocked pool false)
      (.sweeping (removeIdle idle (c.connectionsOf pool) copy).2 seen)

theorem sameShape_refl (c : OptimizedPeerConnector) : SameShape c c := ⟨rfl, rfl, rfl, rfl, rfl⟩

theorem does_keep {call call' : PeerPoolCall} {step : PeerPoolStep} (hs : SameShape c c')
    (hc : call'.isCounting = call.isCounting)
    (hpool : call'.pool = call.pool ∨ call'.pool = none) (hfair : ∀ held, c.Fair held call step)
    (hlost : c.lost call step = 0) : Does c call step c' call' := by
  refine .quiet hs hc (fun p pool h => ?_) hfair hlost
  rcases hpool with hpool | hpool
  · exact .inl (hpool ▸ h)
  · rw [hpool] at h
    cases h

theorem does_move {call call' : PeerPoolCall} {step : PeerPoolStep}
    (hc : call'.isCounting = call.isCounting) (hpool : call'.pool = call.pool)
    (hfair : ∀ held, c.Fair held call step) (hlost : c.lost call step = 0) :
    Does c call step c call' :=
  does_keep c.sameShape_refl hc (.inl hpool) hfair hlost

theorem does_act (c : OptimizedPeerConnector) (call : PeerPoolCall) (step : PeerPoolStep) :
    Does c call step (c.act call step).1 (c.act call step).2 := by
  fun_cases act c call step with
  | case1 | case13 => exact does_keep ⟨rfl, rfl, rfl, rfl, rfl⟩ rfl (.inl rfl) (fun _ => trivial) rfl
  | case4 p =>
    cases hpool : c.peerPools[p]? with
    | none => exact does_move rfl rfl (fun _ => trivial) rfl
    | some pool =>
      refine .quiet c.sameShape_refl rfl (fun p' pool' h => .inr ?_) (fun _ => trivial) rfl
      obtain ⟨rfl, rfl⟩ : p = p' ∧ pool = pool' := by simpa [PeerPoolCall.pool] using h
      exact hpool
  | case5 => exact .insert
  | case7 | case21 =>
    exact does_keep (sameShape_setLocked ..) rfl (.inl rfl) (fun _ => trivial) rfl
  | case8 p pool choice load =>
    rw [choose]
    dsimp only
    split
    · exact does_move rfl rfl (fun _ => trivial) rfl
    · split_ifs <;> exact does_move rfl rfl (fun _ => trivial) rfl
  | case9 p pool now => exact .connect now
  | case11 => exact .count
  | case12 => exact does_keep (sameShape_setLocked ..) rfl (.inr rfl) (fun _ => trivial) rfl
  | case14 | case15 =>
    exact does_keep (sameShape_modifyConnection ..) rfl (.inl rfl) (fun _ => trivial) rfl
  | case19 copy seen p =>
    cases c.peerPools[p]? <;> exact does_move rfl rfl (fun _ => trivial) rfl
  | case22 copy seen pool done idle now =>
    rw [inspect]
    split <;> exact does_move rfl rfl (fun _ => trivial) rfl
  | case23 copy seen pool done idle h =>
    exact does_move rfl rfl (fun _ hdone => absurd hdone (not_le.2 h))
      (if_neg fun hdone => not_le.2 h hdone.2)
  | case24 copy seen pool done idle h => exact .remove (not_lt.1 h)
  | case26 =>
    -- a step that is not the call's next one
    refine does_move rfl rfl (fun held => ?_) ?_
    · unfold Fair
      split <;> grind
    · unfold lost
      split <;> grind
  | _ => exact does_move rfl rfl (fun _ => trivial) rfl

theorem length_removeIdle_le (idle : List ℕ) (conns : List EnhancedConnectionInfo)
    (ctr : ℕ) : (removeIdle idle conns ctr).1.length ≤ conns.length := by
  unfold removeIdle
  induction idle.reverse generalizing conns ctr with
  | nil => rfl
  | cons index indices ih =>
    rw [foldl_cons]
    split_ifs with h
    · refine (ih _ _).trans ?_
      rw [length_eraseIdx_of_lt h]
      exact Nat.sub_le ..
    · exact ih _ _

theorem poolSize_addConnection_self {p : ℕ} (h : c.peerOf pool = some p) (now : ℤ) :
    (c.addConnection pool now).poolSize pool = c.poolSize pool + 1 := by
  rw [poolSize, addConnection, connectionsOf_setConnections_self h, length_append]
  rfl

theorem poolSize_setConnections_of_ne {id : ℕ} (h : id ≠ pool)
    (conns : List EnhancedConnectionInfo) :
    (c.setConnections pool conns).poolSize id = c.poolSize id :=
  congrArg length (connectionsOf_setConnections_of_ne h conns)

end OptimizedPeerConnector

end Blixard
