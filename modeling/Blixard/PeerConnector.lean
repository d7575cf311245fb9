/-
  Connections to peers (`transport/iroh_peer_connector.rs`).

  A connection is stored and counted in two steps, and the cleanup of idle ones does not uncount
  at all.  What the counter has too much it never loses again
  (`PeerSystem.sound_along_accounted`).  Addresses, message buffers and metrics are left out.
-/
import Blixard.Error
import Blixard.Lib.Calls
import Blixard.Lib.Table

namespace Blixard

open Calls Std.ExtTreeMap

/-! ## Types -/

structure IrohClient where
  peerId : ℕ
  lastUsed : ℤ

structure IrohPeerConnector where
  maxConnections : ℕ
  connections : Table ℕ IrohClient
  connecting : Table ℕ Bool
  connectionCount : ℕ
  countHeld : Bool

inductive ConnectKind where
  | direct | byId | get
  deriving DecidableEq

inductive PeerCall where
  | notBegun
  | connecting (kind : ConnectKind) (peerId : ℕ)
  /-- `connect_to_peer_by_id`, before the limit, before its flag, and with it. -/
  | limiting (peerId : ℕ)
  | flagging (peerId : ℕ)
  | lookingUp (peerId : ℕ)
  | counting (kind : ConnectKind) (peerId : ℕ)
  | unflagging (peerId : ℕ) (result : Except BlixardError Unit)
  | resolving (peerId : ℕ)
  /-- `disconnect_peer`: a connection is removed and not yet uncounted, and then it is. -/
  | uncounting (peerId : ℕ)
  | disconnecting
  /-- A round of the cleanup: the peers that it has seen and those of them with an idle
      connection, and then those it has yet to remove. -/
  | inspecting (seen : List ℕ) (toRemove : List ℕ)
  | cleaning (toRemove : List ℕ)
  | finishing (kind : ConnectKind) (peerId : ℕ) (result : Except BlixardError Unit)
  | finished (result : Except BlixardError Unit)
  deriving DecidableEq

/-- Steps with a result end what was asked of others. -/
inductive PeerStep where
  | connect (peerId : ℕ)
  | connectById (peerId : ℕ)
  | getConnection (peerId : ℕ)
  | disconnect (peerId : ℕ)
  | establish (now : ℤ) (result : Except BlixardError Unit)
  | count
  | checkLimit (config : Except BlixardError Unit)
  | flag
  | unflag
  | resolve (result : Except BlixardError Unit)
  | uncount
  | touch (peerId : ℕ) (now : ℤ)
  | cleanup
  | inspect (peerId : ℕ) (now : ℤ)
  | endInspection
  | removeIdle
  | finish
  deriving DecidableEq

namespace IrohPeerConnector

variable (c : IrohPeerConnector)

def new (maxConnections : ℕ) : IrohPeerConnector := ⟨maxConnections, ∅, ∅, 0, false⟩

/-! ## Steps -/

def idleTime : ℤ := 300 * 10 ^ 9

def isIdlePeer (peerId : ℕ) (now : ℤ) : Bool :=
  (c.connections[peerId]?.map fun client => decide (idleTime < now - client.lastUsed)).getD false

def store (peerId : ℕ) (now : ℤ) : IrohPeerConnector :=
  { c with connections := c.connections.insert peerId ⟨peerId, now⟩ }

def drop (peerId : ℕ) : IrohPeerConnector := { c with connections := c.connections.erase peerId }

/-- A connection is there after all, or it is to be established. -/
def connectOr (kind : ConnectKind) (peerId : ℕ) : PeerCall :=
  if peerId ∈ c.connections then .finishing kind peerId (.ok ()) else .connecting kind peerId

def checkConnectionLimit (peerId : ℕ) : Except BlixardError Unit → PeerCall
  | .error e => .finished (.error e)
  | .ok () =>
    if c.maxConnections ≤ c.connectionCount then
      .finished (.error (.clusterError s!"Connection pool limit reached ({c.maxConnections})"))
    else .flagging peerId

def markConnecting (peerId : ℕ) : IrohPeerConnector × PeerCall :=
  if c.connecting[peerId]?.getD false then
    (c, .finished (.error (.clusterError s!"Already connecting to peer {peerId}")))
  else ({ c with connecting := c.connecting.insert peerId true }, .lookingUp peerId)

/-- The cleanup sees every peer at most once. -/
def inspectPeer (seen toRemove : List ℕ) (peerId : ℕ) (now : ℤ) : PeerCall :=
  if peerId ∈ seen then .inspecting seen toRemove
  else .inspecting (peerId :: seen)
    (if c.isIdlePeer peerId now then toRemove ++ [peerId] else toRemove)

/-- What `get_connection` returns is looked up again. -/
def finalResult (kind : ConnectKind) (peerId : ℕ) (result : Except BlixardError Unit) :
    Except BlixardError Unit :=
  match kind, result with
  | .get, .ok () =>
    if peerId ∈ c.connections then .ok ()
    else .error (.internal "Failed to retrieve client after connection")
  | _, result => result

def act : PeerCall → PeerStep → IrohPeerConnector × PeerCall
  | .notBegun, .connect p => (c, c.connectOr .direct p)
  | .notBegun, .connectById p =>
    if p ∈ c.connections then (c, .finished (.ok ())) else (c, .limiting p)
  | .notBegun, .getConnection p =>
    if p ∈ c.connections then (c, .finished (.ok ())) else (c, .resolving p)
  | .resolving p, .resolve (.ok ()) => (c, c.connectOr .get p)
  | .resolving _, .resolve (.error e) => (c, .finished (.error e))
  | .limiting p, .checkLimit config =>
    if c.countHeld then (c, .limiting p) else (c, c.checkConnectionLimit p config)
  | .flagging p, .flag => c.markConnecting p
  | .connecting kind p, .establish now (.ok ()) => (c.store p now, .counting kind p)
  | .connecting kind p, .establish _ (.error e) => (c, .finishing kind p (.error e))
  | .lookingUp p, .establish now (.ok ()) => (c.store p now, .counting .byId p)
  | .lookingUp p, .establish _ (.error e) => (c, .unflagging p (.error e))
  | .counting kind p, .count =>
    if c.countHeld then (c, .counting kind p)
    else
      ({ c with connectionCount := c.connectionCount + 1 },
        if kind = .byId then .unflagging p (.ok ()) else .finishing kind p (.ok ()))
  | .unflagging p result, .unflag =>
    ({ c with connecting := c.connecting.erase p }, .finishing .byId p result)
  | .notBegun, .disconnect p =>
    if p ∈ c.connections then (c.drop p, .uncounting p) else (c, .finished (.ok ()))
  | .uncounting p, .uncount =>
    if c.countHeld then (c, .uncounting p)
    else ({ c with connectionCount := c.connectionCount - 1, countHeld := true }, .disconnecting)
  | .disconnecting, .finish => ({ c with countHeld := false }, .finished (.ok ()))
  | .notBegun, .touch p now =>
    ({ c with connections := c.connections.modify p ({ · with lastUsed := now }) },
      .finished (.ok ()))
  | .notBegun, .cleanup => (c, .inspecting [] [])
  | .inspecting seen toRemove, .inspect p now =>
    (c, c.inspectPeer seen toRemove p now)
  | .inspecting _ toRemove, .endInspection => (c, .cleaning toRemove)
  | .cleaning (p :: ps), .removeIdle => (c.drop p, .cleaning ps)
  | .cleaning [], .finish => (c, .finished (.ok ()))
  | .finishing kind p result, .finish => (c, .finished (c.finalResult kind p result))
  | call, _ => (c, call)

end IrohPeerConnector

/-! ## The counter -/

namespace PeerCall

def isCounting : PeerCall → Bool
  | counting _ _ => true
  | _ => false

def isUncounting : PeerCall → Bool
  | uncounting _ => true
  | _ => false

def isIdle : PeerCall → Bool
  | notBegun | finished _ => true
  | _ => false

theorem isCounting_of_isIdle {call : PeerCall} (h : call.isIdle = true) :
    call.isCounting = false ∧ call.isUncounting = false := by
  cases call with
  | notBegun | finished => exact ⟨rfl, rfl⟩
  | _ => cases h

end PeerCall

namespace IrohPeerConnector

open PeerCall

variable {c c' : IrohPeerConnector}

/-- The step stores a connection only for a peer without one and below the limit, uncounts only what
    is counted, and removes no idle connection. -/
def Accounted (c : IrohPeerConnector) : PeerCall → PeerStep → Prop
  | .connecting _ p, .establish _ (.ok ()) | .lookingUp p, .establish _ (.ok ()) =>
    p ∉ c.connections ∧ c.connections.size < c.maxConnections
  | .uncounting _, .uncount => c.countHeld = false → 0 < c.connectionCount
  | .cleaning (p :: _), .removeIdle => p ∉ c.connections
  | _, _ => True

structure Quiet (c c' : IrohPeerConnector) (call call' : PeerCall) : Prop where
  limit : c'.maxConnections = c.maxConnections
  size : c'.connections.size = c.connections.size
  count : c'.connectionCount = c.connectionCount
  counting : call'.isCounting = call.isCounting
  uncounting : call'.isUncounting = call.isUncounting

inductive Does (c : IrohPeerConnector) :
    PeerCall → PeerStep → IrohPeerConnector → PeerCall → Prop where
  | quiet {call step c' call'} (h : Quiet c c' call call') (haccounted : c.Accounted call step) :
    Does c call step c' call'
  | store {call kind p} (now : ℤ) (hcall : call = .connecting kind p ∨ call = .lookingUp p) :
    Does c call (.establish now (.ok ())) (c.store p now) (.counting kind p)
  | count {kind p call'} (hcounting : call'.isCounting = false)
      (huncounting : call'.isUncounting = false) :
    Does c (.counting kind p) .count { c with connectionCount := c.connectionCount + 1 } call'
  | drop {p} (h : p ∈ c.connections) : Does c .notBegun (.disconnect p) (c.drop p) (.uncounting p)
  | uncount {p} (h : c.countHeld = false) :
    Does c (.uncounting p) .uncount
      { c with connectionCount := c.connectionCount - 1, countHeld := true } .disconnecting
  | removeIdle {p ps} : Does c (.cleaning (p :: ps)) .removeIdle (c.drop p) (.cleaning ps)

variable (p : ℕ) {call call' : PeerCall} {step : PeerStep}

theorem size_store (now : ℤ) : (c.store p now).connections.size =
      if p ∈ c.connections then c.connections.size else c.connections.size + 1 :=
  size_insert

theorem size_drop_of_mem {p : ℕ} (h : p ∈ c.connections) :
    (c.drop p).connections.size + 1 = c.connections.size := by
  have hsize : (c.drop p).connections.size = c.connections.size - 1 :=
    size_erase.trans (if_pos h)
  have hpos : 0 < c.connections.size := by
    refine Nat.pos_of_ne_zero fun hzero => ?_
    rw [← eq_empty_iff_size_eq_zero] at hzero
    rw [hzero] at h
    exact not_mem_empty h
  omega

theorem size_drop_of_notMem {p : ℕ} (h : p ∉ c.connections) :
    (c.drop p).connections.size = c.connections.size :=
  size_erase.trans (if_neg h)

theorem does_move (hc : call'.isCounting = call.isCounting)
    (hu : call'.isUncounting = call.isUncounting) (ha : c.Accounted call step) :
    Does c call step c call' :=
  .quiet ⟨rfl, rfl, rfl, hc, hu⟩ ha

theorem isCounting_connectOr (kind : ConnectKind) (p : ℕ) :
    (c.connectOr kind p).isCounting = false ∧ (c.connectOr kind p).isUncounting = false := by
  unfold connectOr
  split <;> exact ⟨rfl, rfl⟩

theorem isCounting_checkConnectionLimit (cfg : Except BlixardError Unit) :
    (c.checkConnectionLimit p cfg).isCounting = false ∧
      (c.checkConnectionLimit p cfg).isUncounting = false := by
  cases cfg with
  | error e => exact ⟨rfl, rfl⟩
  | ok =>
    simp only [checkConnectionLimit]
    split_ifs <;> exact ⟨rfl, rfl⟩

theorem does_act (c : IrohPeerConnector) (call : PeerCall) (step : PeerStep) :
    Does c call step (c.act call step).1 (c.act call step).2 := by
  fun_cases act c call step with
  | case1 p =>
    obtain ⟨hc, hu⟩ := c.isCounting_connectOr .direct p
    exact does_move hc hu trivial
  | case6 p =>
    obtain ⟨hc, hu⟩ := c.isCounting_connectOr .get p
    exact does_move hc hu trivial
  | case9 p cfg =>
    obtain ⟨hc, hu⟩ := c.isCounting_checkConnectionLimit p cfg
    exact does_move hc hu trivial
  | case10 p =>
    rw [markConnecting]
    split_ifs
    · exact does_move rfl rfl trivial
    · exact .quiet ⟨rfl, rfl, rfl, rfl, rfl⟩ trivial
  | case11 kind p now => exact .store now (.inl rfl)
  | case13 p now => exact .store now (.inr rfl)
  | case16 kind p => refine .count ?_ ?_ <;> cases kind <;> rfl
  | case17 | case22 => exact .quiet ⟨rfl, rfl, rfl, rfl, rfl⟩ trivial
  | case18 p h => exact .drop h
  | case20 p hheld => exact does_move rfl rfl fun hfree => absurd hfree (by simp [hheld])
  | case21 p hheld => exact .uncount (by simpa using hheld)
  | case23 => exact .quiet ⟨rfl, size_modify, rfl, rfl, rfl⟩ trivial
  | case25 seen toRemove p now =>
    rw [inspectPeer]
    split_ifs <;> exact does_move rfl rfl trivial
  | case27 => exact .removeIdle
  | case30 =>
    -- a step that is not the call's next one
    refine does_move rfl rfl ?_
    unfold Accounted
    split <;> simp_all
  | _ => exact does_move rfl rfl trivial

theorem Does.maxConnections_eq
    (h : Does c call step c' call') : c'.maxConnections = c.maxConnections := by
  cases h with
  | quiet h => exact h.limit
  | store | count | drop | uncount | removeIdle => rfl

/-- **What a step does to the balance**, with `inc` connections not yet counted, `dec` not yet
    uncounted and `excess` too much in the counter: the excess never decreases, and stays with the
    limit kept exactly if the step is accounted for. -/
theorem Does.balance {inc dec inc' dec' exc : ℕ} (hdoes : Does c call step c' call')
    (hsum : c.connectionCount + inc = c.connections.size + dec + exc)
    (hinc : inc' + call.isCounting.toNat = inc + call'.isCounting.toNat)
    (hdec : dec' + call.isUncounting.toNat = dec + call'.isUncounting.toNat) :
    ∃ excess', c'.connectionCount + inc' = c'.connections.size + dec' + excess' ∧
      exc ≤ excess' ∧ (c.connections.size ≤ c.maxConnections →
        (c.Accounted call step ↔ excess' = exc ∧ c'.connections.size ≤ c'.maxConnections)) := by
  cases hdoes with
  | quiet h ha =>
    rw [h.counting] at hinc
    rw [h.uncounting] at hdec
    refine ⟨exc, ?_, le_rfl, fun hl => iff_of_true ha ⟨rfl, ?_⟩⟩
    · rw [h.count, h.size]
      omega
    · rw [h.size, h.limit]
      exact hl
  | @store call kind p now hcall =>
    have hinc : inc' = inc + 1 := by rcases hcall with rfl | rfl <;> exact hinc
    have hdec : dec' = dec := by rcases hcall with rfl | rfl <;> exact hdec
    have ha : c.Accounted call (.establish now (.ok ())) ↔
        p ∉ c.connections ∧ c.connections.size < c.maxConnections := by
      rcases hcall with rfl | rfl <;> exact Iff.rfl
    rw [ha, size_store]
    show ∃ excess', c.connectionCount + inc' = _ ∧ _ ∧ (_ → (_ ↔ _ ∧ _ ≤ c.maxConnections))
    by_cases hp : p ∈ c.connections
    · rw [if_pos hp]
      exact ⟨exc + 1, by omega, by omega, fun _ => iff_of_false (fun h => h.1 hp) (by omega)⟩
    · rw [if_neg hp]
      refine ⟨exc, by omega, le_rfl, fun _ => ?_⟩
      exact ⟨fun h => ⟨rfl, h.2⟩, fun h => ⟨hp, h.2⟩⟩
  | @count kind p call' hc hu =>
    rw [hc] at hinc
    rw [hu] at hdec
    have hinc : inc' + 1 = inc := hinc
    have hdec : dec' = dec := hdec
    refine ⟨exc, ?_, le_rfl, fun hl => iff_of_true trivial ⟨rfl, hl⟩⟩
    show c.connectionCount + 1 + inc' = c.connections.size + dec' + exc
    omega
  | @drop p hp =>
    have hinc : inc' = inc := hinc
    have hdec : dec' = dec + 1 := hdec
    have hsize : (c.drop p).connections.size + 1 = c.connections.size := size_drop_of_mem hp
    refine ⟨exc, ?_, le_rfl, fun hl => iff_of_true trivial ⟨rfl, ?_⟩⟩
    · show c.connectionCount + inc' = _
      omega
    · show _ ≤ c.maxConnections
      omega
  | @uncount p hfree =>
    have hinc : inc' = inc := hinc
    have hdec : dec' + 1 = dec := hdec
    show ∃ excess', c.connectionCount - 1 + inc' = c.connections.size + dec' + excess' ∧ _ ∧
      (_ → ((c.countHeld = false → 0 < c.connectionCount) ↔ _))
    rcases Nat.eq_zero_or_pos c.connectionCount with hzero | hpos
    · refine ⟨exc + 1, by omega, by omega, fun _ => iff_of_false (fun h => ?_) (by omega)⟩
      exact absurd (h hfree) (by omega)
    · exact ⟨exc, by omega, le_rfl, fun hl => iff_of_true (fun _ => hpos) ⟨rfl, hl⟩⟩
  | @removeIdle p ps =>
    have hinc : inc' = inc := hinc
    have hdec : dec' = dec := hdec
    show ∃ excess', c.connectionCount + inc' = (c.drop p).connections.size + dec' + excess' ∧ _ ∧
      (_ → (p ∉ c.connections ↔ _ ∧ (c.drop p).connections.size ≤ c.maxConnections))
    by_cases hp : p ∈ c.connections
    · have hsize : (c.drop p).connections.size + 1 = c.connections.size := size_drop_of_mem hp
      exact ⟨exc + 1, by omega, by omega, fun _ => iff_of_false (fun h => h hp) (by omega)⟩
    · rw [size_drop_of_notMem hp]
      exact ⟨exc, by omega, le_rfl, fun hl => iff_of_true hp ⟨rfl, hl⟩⟩

theorem accounted_checked (hc : c.connectionCount = c.connections.size)
    (hidle : call.isIdle = true) (now : ℤ) :
    let r := [.connectById p, .checkLimit (.ok ()), .flag].foldl
      (fun r a => act r.1 r.2 a) (c, call)
    r.1.Accounted r.2 (.establish now (.ok ())) := by
  cases call with
  | finished result => trivial
  | notBegun =>
    by_cases hp : p ∈ c.connections
    · simp [act, hp, Accounted]
    by_cases hheld : c.countHeld = true
    · simp [act, hp, hheld, Accounted]
    have hlook : c.act .notBegun (.connectById p) = (c, .limiting p) := if_neg hp
    have hk : c.act (.limiting p) (.checkLimit (.ok ())) =
        (c, c.checkConnectionLimit p (.ok ())) := if_neg hheld
    simp only [List.foldl, hlook, hk, checkConnectionLimit]
    split_ifs with hfull
    · trivial
    show (c.markConnecting p).1.Accounted (c.markConnecting p).2 _
    unfold markConnecting
    split_ifs
    · trivial
    · exact ⟨hp, hc ▸ not_le.1 hfull⟩
  | _ => cases hidle

end IrohPeerConnector

/-! ## Interleavings -/

abbrev PeerSystem := Calls.System IrohPeerConnector PeerCall

namespace PeerSystem

open PeerCall

def step : PeerSystem → ℕ × PeerStep → PeerSystem := Calls.System.step IrohPeerConnector.act

def begin (maxConnections : ℕ) : PeerSystem := .start (.new maxConnections) .notBegun

def Idle (s : PeerSystem) : Prop := ∀ i, (s.calls i).isIdle = true

/-- The counter is right while no operation is in progress, the limit is kept, and without
    connections none is refused for the limit. -/
structure Sound (s : PeerSystem) : Prop where
  counted : Idle s → s.shared.connectionCount = s.shared.connections.size
  limited : s.shared.connections.size ≤ s.shared.maxConnections
  notRefused : Idle s → s.shared.connections.size = 0 →
    ∀ peerId, s.shared.checkConnectionLimit peerId (.ok ()) = .flagging peerId

def Accounted (s : PeerSystem) (x : ℕ × PeerStep) : Prop :=
  s.shared.Accounted (s.calls x.1) x.2

/-- What the counter has too much once every call has counted what it has done. -/
def Excess (s : PeerSystem) (excess : ℕ) : Prop :=
  ∃ inc dec, Calls.Count isCounting s.calls inc ∧ Calls.Count isUncounting s.calls dec ∧
    s.shared.connectionCount + inc = s.shared.connections.size + dec + excess

variable {s : PeerSystem} {excess : ℕ}

theorem maxConnections_step (s : PeerSystem) (x : ℕ × PeerStep) :
    (s.step x).shared.maxConnections = s.shared.maxConnections :=
  (s.shared.does_act (s.calls x.1) x.2).maxConnections_eq

theorem excess_begin (maxConnections : ℕ) : Excess (begin maxConnections) 0 :=
  ⟨0, 0, count_zero fun _ => rfl, count_zero fun _ => rfl, rfl⟩

theorem excess_step (h : Excess s excess) (x : ℕ × PeerStep) :
    ∃ excess', Excess (s.step x) excess' ∧ excess ≤ excess' ∧
      (s.shared.connections.size ≤ s.shared.maxConnections →
        (Accounted s x ↔ excess' = excess ∧
          (s.step x).shared.connections.size ≤ (s.step x).shared.maxConnections)) := by
  obtain ⟨inc, dec, hinc, hdec, hsum⟩ := h
  obtain ⟨inc', hinc', hinc⟩ : ∃ n, Calls.Count isCounting (s.step x).calls n ∧ _ :=
    count_step hinc
  obtain ⟨dec', hdec', hdec⟩ : ∃ n, Calls.Count isUncounting (s.step x).calls n ∧ _ :=
    count_step hdec
  have hdoes := s.shared.does_act (s.calls x.1) x.2
  obtain ⟨excess', hsum', hb⟩ := hdoes.balance hsum hinc hdec
  exact ⟨excess', ⟨inc', dec', hinc', hdec', hsum'⟩, hb⟩

theorem Excess.count_eq (h : Excess s excess) (hidle : Idle s) :
    s.shared.connectionCount = s.shared.connections.size + excess := by
  obtain ⟨inc, dec, hinc, hdec, hsum⟩ := h
  have hinc : inc = 0 := hinc.eq_zero fun i => (isCounting_of_isIdle (hidle i)).1
  have hdec : dec = 0 := hdec.eq_zero fun i => (isCounting_of_isIdle (hidle i)).2
  omega

/-- The counter has nothing too much, and the limit is kept and is not zero. -/
structure Balanced (s : PeerSystem) : Prop where
  excess : Excess s 0
  limited : s.shared.connections.size ≤ s.shared.maxConnections
  positive : 0 < s.shared.maxConnections

variable {x : ℕ × PeerStep}

theorem balanced_step (h : Balanced s) (ha : Accounted s x) : Balanced (s.step x) := by
  obtain ⟨excess, he, -, hiff⟩ := excess_step h.excess x
  obtain ⟨rfl, hl⟩ := (hiff h.limited).1 ha
  exact ⟨he, hl, (maxConnections_step s x).symm ▸ h.positive⟩

theorem Balanced.sound (h : Balanced s) : Sound s where
  counted := h.excess.count_eq
  limited := h.limited
  notRefused := by
    intro hidle he p
    have hc := h.excess.count_eq hidle
    have hpos := h.positive
    exact if_neg (by omega)

/-- **The call's own check suffices** when no operation is in progress: what
    `connect_to_peer_by_id` then stores without a break is accounted for. -/
theorem accounted_alone (h : Balanced s) (hidle : Idle s) (i p : ℕ) (now : ℤ) :
    Accounted (([.connectById p, .checkLimit (.ok ()), .flag].map fun a => (i, a)).foldl step s)
      (i, .establish now (.ok ())) := by
  have hc := IrohPeerConnector.accounted_checked p (h.excess.count_eq hidle) (hidle i) now
  have ha := @foldl_step_alone _ _ _ IrohPeerConnector.act
    [.connectById p, .checkLimit (.ok ()), .flag] s i
  rw [← ha] at hc
  exact hc

def Exceeded (s : PeerSystem) : Prop := ∃ excess, 0 < excess ∧ Excess s excess

theorem exceeded_step (h : Exceeded s) : Exceeded (s.step x) := by
  obtain ⟨exc, hpos, he⟩ := h
  obtain ⟨excess', hx', hle, -⟩ := excess_step he x
  exact ⟨excess', by omega, hx'⟩

theorem breach_step (h : Balanced s) (hnot : ¬ Accounted s x) :
    ¬ Sound (s.step x) ∨ Exceeded (s.step x) := by
  obtain ⟨excess, he, -, hiff⟩ := excess_step h.excess x
  rcases Nat.eq_zero_or_pos excess with rfl | hpos
  · exact .inl fun hs => hnot ((hiff h.limited).2 ⟨rfl, hs.limited⟩)
  · exact .inr ⟨excess, hpos, he⟩

theorem Sound.not_exceeded (h : Sound s) (hidle : Idle s) : ¬ Exceeded s := by
  rintro ⟨exc, hpos, he⟩
  have hc := h.counted hidle
  rw [he.count_eq hidle] at hc
  omega

/-- **Accounting of connections**: along accounted steps the counter is right and the limit kept; a
    run that ends with no operation in progress must be such a run for that. -/
theorem sound_along_accounted (maxConnections : ℕ) (run : List (ℕ × PeerStep)) :
    (0 < maxConnections → Run.Along step Accounted (begin maxConnections) run →
      ∀ s ∈ run.scanl step (begin maxConnections), Sound s) ∧
    (Idle (run.foldl step (begin maxConnections)) →
      (∀ s ∈ run.scanl step (begin maxConnections), Sound s) →
      0 < maxConnections ∧ Run.Along step Accounted (begin maxConnections) run) := by
  constructor
  · intro hpos halong s hs
    have hbegin : Balanced (begin maxConnections) := ⟨excess_begin _, Nat.zero_le _, hpos⟩
    exact (Run.invariant (fun _ _ => balanced_step) hbegin halong s hs).sound
  intro hidle hsound
  have hpos : 0 < maxConnections := by
    -- a limit of zero refuses the first connection
    refine Nat.pos_of_ne_zero fun hzero => ?_
    subst hzero
    have hbegin : Sound (begin 0) := hsound _ (List.mem_of_mem_head? (by simp))
    exact absurd (hbegin.notRefused (fun _ => rfl) rfl 0) (by decide)
  have hbegin : Balanced (begin maxConnections) := ⟨excess_begin _, Nat.zero_le _, hpos⟩
  have hend : Sound (run.foldl step (begin maxConnections)) := hsound _ (Run.foldl_mem_scanl ..)
  exact ⟨hpos, Run.along_of_trace (fun _ _ => balanced_step) (fun _ _ => breach_step)
    (fun _ _ => exceeded_step) hbegin hsound (hend.not_exceeded hidle)⟩

/-- Two calls of `connect_to_peer` for a peer at the same time, then a disconnection, and then
    a call of `connect_to_peer_by_id`. -/
def doublyCounted : List (ℕ × PeerStep) :=
  [(0, .connect 7), (1, .connect 7), (0, .establish 0 (.ok ())), (1, .establish 0 (.ok ())),
    (0, .count), (1, .count), (0, .finish), (1, .finish), (2, .disconnect 7), (2, .uncount),
    (2, .finish), (3, .connectById 7), (3, .checkLimit (.ok ()))]

def beyondLimit : List (ℕ × PeerStep) :=
  [(0, .connect 7), (0, .establish 0 (.ok ())), (0, .count), (0, .finish),
    (1, .connect 8), (1, .establish 0 (.ok ())), (1, .count), (1, .finish)]

/-- Two peers one after the other, where two connections are allowed. -/
theorem sound_along_beyondLimit :
    Run.Along step Accounted (begin 2) beyondLimit ∧
      ∀ s ∈ beyondLimit.scanl step (begin 2), Sound s := by
  have ha : Run.Along step Accounted (begin 2) beyondLimit := by
    refine ⟨trivial, ⟨?_, ?_⟩, trivial, trivial, trivial, ⟨?_, ?_⟩, trivial, trivial, trivial⟩ <;>
      decide +kernel
  have hs := (sound_along_accounted 2 beyondLimit).1 (by decide) ha
  have hidle : Idle (beyondLimit.foldl step (begin 2)) :=
    Calls.forall_calls_foldl (P := fun call => isIdle call = true) rfl _ (by decide +kernel)
  exact ⟨((sound_along_accounted 2 beyondLimit).2 hidle hs).2, hs⟩

/-- A connection is refused for the limit although there are none; and `connect_to_peer` does
    not look at the limit. -/
theorem refused_without_connections :
    let s := doublyCounted.foldl step (begin 1)
    let t := beyondLimit.foldl step (begin 1)
    (Idle s ∧ s.shared.connections.size = 0 ∧ s.shared.connectionCount = 1 ∧
      s.calls 3 = .finished (.error (.clusterError "Connection pool limit reached (1)"))) ∧
    (Idle t ∧ t.shared.maxConnections < t.shared.connections.size) := by
  refine ⟨⟨?_, by decide +kernel, by decide +kernel, by decide +kernel⟩, ?_, by decide +kernel⟩
  · exact Calls.forall_calls_foldl (P := fun call => isIdle call = true) rfl _ (by decide +kernel)
  · exact Calls.forall_calls_foldl (P := fun call => isIdle call = true) rfl _ (by decide +kernel)

end PeerSystem

end Blixard
