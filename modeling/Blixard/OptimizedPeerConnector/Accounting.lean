/-
  One pool for a peer, and connections counted once.

  What the counter has too much it never loses again, so pools, counters and limits are right
  along the runs of fair steps only (`PeerPoolSystem.sound_along_fair`).
-/
import Blixard.OptimizedPeerConnector

namespace Blixard

open Calls Table

namespace OptimizedPeerConnector

variable {c c' : OptimizedPeerConnector}

/-! ## The sum of the sizes -/

theorem SameShape.connected_eq (h : SameShape c c') : c'.connected = c.connected := by
  rw [connected, connected, h.peerPools, h.poolSize]

def Numbered (c : OptimizedPeerConnector) : Prop :=
  ∀ p pool, c.peerPools[p]? = some pool → c.peerOf pool = some p

theorem isMapped_of_get (h : Numbered c) {p pool : ℕ} (hpool : c.peerPools[p]? = some pool) :
    c.isMapped pool = true := by
  rw [isMapped, h p pool hpool]
  simpa using hpool

theorem exists_of_isMapped {pool : ℕ} (h : c.isMapped pool = true) :
    ∃ p : ℕ, c.peerPools[p]? = some pool := by
  unfold isMapped at h
  cases hpeer : c.peerOf pool with
  | none => simp [hpeer] at h
  | some p => exact ⟨p, by simpa [hpeer] using h⟩

theorem connected_resize (h : Numbered c) {pool : ℕ} (hl : c'.peerPools = c.peerPools)
    (ho : ∀ id, id ≠ pool → c'.poolSize id = c.poolSize id) :
    c'.connected + (if c.isMapped pool then c.poolSize pool else 0) =
      c.connected + (if c.isMapped pool then c'.poolSize pool else 0) := by
  unfold connected
  rw [hl]
  split_ifs with hm
  · obtain ⟨p, hp⟩ := exists_of_isMapped hm
    refine sumOf_add_comm hp fun p' pool' hne hpool' => ho pool' ?_
    rintro rfl
    -- a pool has one peer only
    have hpeer := h p' pool' hpool'
    rw [h p pool' hp] at hpeer
    exact hne (Option.some.inj hpeer).symm
  · refine congrArg (· + 0) (sumOf_congr fun p id hp => ho id ?_)
    rintro rfl
    exact hm (isMapped_of_get h hp)

theorem connected_insertPool (c : OptimizedPeerConnector) (p : ℕ) :
    (c.insertPool p).connected + (c.peerPools[p]?.map c.poolSize).getD 0 = c.connected := by
  have hnew : c.poolSize c.pools.length = 0 := by
    rw [poolSize, connectionsOf, List.getElem?_eq_none le_rfl]
    rfl
  have hs : (c.insertPool p).connected =
      sumOf (fun _ pool => c.poolSize pool) (c.peerPools.insert p c.pools.length) :=
    sumOf_congr fun _ pool _ => poolSize_insertPool p pool
  rw [hs, sumOf_insert, hnew, Nat.zero_add, connected]
  cases hp : c.peerPools[p]? with
  | none =>
    rw [erase_of_get_none hp]
    rfl
  | some pool =>
    rw [sumOf_of_get _ hp, Nat.add_comm]
    rfl

section
variable {call call' : PeerPoolCall} {step : PeerPoolStep}

theorem Does.peerOf_eq (hdoes : Does c call step c' call') {p pool : ℕ}
    (h : c.peerOf pool = some p) : c'.peerOf pool = some p := by
  cases hdoes with
  | quiet hs => rw [hs.peerOf, h]
  | @insert p' =>
    have hne : pool ≠ c.pools.length := by
      rintro rfl
      simp [peerOf] at h
    rw [peerOf_insertPool, if_neg hne, h]
  | connect => rw [addConnection, peerOf_setConnections, h]
  | count => exact h
  | remove => rw [(sameShape_setLocked _ _).peerOf, peerOf_setConnections, h]

theorem Does.numbered (hdoes : Does c call step c' call') (h : Numbered c) : Numbered c' := by
  intro p pool hp
  have hkept : c.peerPools[p]? = some pool → c'.peerOf pool = some p := fun hp =>
    hdoes.peerOf_eq (h p pool hp)
  cases hdoes with
  | quiet hs => exact hkept (hs.peerPools ▸ hp)
  | @insert p' =>
    rw [insertPool, get_insert] at hp
    split_ifs at hp with hp'
    · rw [← Option.some.inj hp, peerOf_insertPool, if_pos rfl, hp']
    · exact hkept hp
  | connect | count | remove => exact hkept hp

theorem Does.peerOf_pool (hdoes : Does c call step c' call') (h : Numbered c)
    (hcall : ∀ p pool, call.pool = some (p, pool) → c.peerOf pool = some p) (p pool : ℕ)
    (hcall' : call'.pool = some (p, pool)) : c'.peerOf pool = some p := by
  have hkept : call.pool = some (p, pool) → c'.peerOf pool = some p := fun hp =>
    hdoes.peerOf_eq (hcall p pool hp)
  cases hdoes with
  | quiet hs hc hpool =>
    rcases hpool p pool hcall' with hheld | hm
    · exact hkept hheld
    · rw [hs.peerOf]
      exact h p pool hm
  | insert =>
    obtain ⟨rfl, rfl⟩ : _ = p ∧ c.pools.length = pool := by simpa [PeerPoolCall.pool] using hcall'
    rw [peerOf_insertPool, if_pos rfl]
  | connect | count => exact hkept hcall'
  | remove => cases hcall'

/-- **What a step does to the balance.**  Let `inc` callers have added a connection and not yet
    counted it, and let the counter have `excess` too much. -/
theorem Does.balance {inc inc' exc : ℕ} (hdoes : Does c call step c' call') (h : Numbered c)
    (hcall : ∀ p pool, call.pool = some (p, pool) → c.peerOf pool = some p)
    (hsum : c.totalConnections + inc = c.connected + exc)
    (hinc : inc' + call.isCounting.toNat = inc + call'.isCounting.toNat) :
    c'.totalConnections + inc' = c'.connected + (exc + c.lost call step) := by
  cases hdoes with
  | quiet hs hc _ _ hlost =>
    rw [hc] at hinc
    rw [hs.totalConnections, hs.connected_eq, hlost]
    omega
  | @insert p =>
    have hinc : inc' = inc := hinc
    have hn := c.connected_insertPool p
    show c.totalConnections + inc' = _ + (exc + (c.peerPools[p]?.map c.poolSize).getD 0)
    omega
  | @connect p pool now =>
    have hinc : inc' = inc + 1 := hinc
    have hsize : (c.addConnection pool now).poolSize pool = c.poolSize pool + 1 :=
      poolSize_addConnection_self (hcall p pool rfl) now
    have hn : (c.addConnection pool now).connected + _ = c.connected + _ :=
      connected_resize h rfl fun _ hne => poolSize_setConnections_of_ne hne _
    show c.totalConnections + inc' = _ + (exc + if c.isMapped pool then 0 else 1)
    rw [hsize] at hn
    split_ifs at hn ⊢ <;> omega
  | count =>
    have hinc : inc' + 1 = inc := hinc
    show c.totalConnections + 1 + inc' = c.connected + exc
    omega
  | @remove copy seen pool done idle hdone =>
    have hinc : inc' = inc := hinc
    have hle : _ ≤ c.poolSize pool := length_removeIdle_le idle (c.connectionsOf pool) copy
    have hn : (c.setConnections pool _).connected + _ = c.connected + _ :=
      connected_resize h rfl fun _ hne =>
        poolSize_setConnections_of_ne hne (removeIdle idle (c.connectionsOf pool) copy).1
    rw [(sameShape_setLocked pool false).connected_eq]
    show c.totalConnections + inc' = _ + (exc + if c.isMapped pool ∧ c.poolSize pool ≤ done
      then c.poolSize pool - (removeIdle idle (c.connectionsOf pool) copy).1.length else 0)
    cases hm : c.isMapped pool with
    | false =>
      rw [hm] at hn
      simp only [Bool.false_eq_true, false_and, if_false] at hn ⊢
      omega
    | true =>
      obtain ⟨p, hp⟩ := exists_of_isMapped hm
      rw [hm, if_pos rfl, if_pos rfl, poolSize, poolSize,
        connectionsOf_setConnections_self (h p pool hp), ← poolSize] at hn
      rw [if_pos ⟨rfl, hdone⟩]
      omega

/-! ## Fair steps -/

theorem poolSize_remove_le (pool id ctr : ℕ) (idle : List ℕ) :
    ((c.setConnections pool (removeIdle idle (c.connectionsOf pool) ctr).1).setLocked pool
      false).poolSize id ≤ c.poolSize id := by
  rw [(sameShape_setLocked pool false).poolSize]
  by_cases hid : id = pool
  · subst hid
    cases hpeer : c.peerOf id with
    | none =>
      rw [poolSize, connectionsOf_of_peerOf ((peerOf_setConnections ..).trans hpeer)]
      exact Nat.zero_le _
    | some p =>
      rw [poolSize, connectionsOf_setConnections_self hpeer]
      exact length_removeIdle_le ..
  · exact (poolSize_setConnections_of_ne hid _).le

variable {held : ℕ → ℕ → Prop}

theorem Does.lost_eq_zero (hdoes : Does c call step c' call') (h : Numbered c)
    (hcall : ∀ p pool, call.pool = some (p, pool) → c.peerPools[p]? = some pool)
    (hfair : c.Fair held call step) : c.lost call step = 0 := by
  cases hdoes with
  | quiet _ _ _ _ hlost => exact hlost
  | @insert p =>
    show (c.peerPools[p]?.map c.poolSize).getD 0 = 0
    cases hp : c.peerPools[p]? with
    | none => rfl
    | some pool => exact (hfair pool hp).1
  | @connect p pool now => exact if_pos (isMapped_of_get h (hcall p pool rfl))
  | count => rfl
  | @remove copy seen pool done idle hdone =>
    show (if c.isMapped pool ∧ c.poolSize pool ≤ done
      then c.poolSize pool - (removeIdle idle (c.connectionsOf pool) copy).1.length else 0) = 0
    rw [hfair hdone, Nat.sub_self, ite_self]

theorem Does.mapped_of_held (hdoes : Does c call step c' call') (hfair : c.Fair held call step)
    {p pool : ℕ} (hheld : held p pool) (hp : c.peerPools[p]? = some pool) :
    c'.peerPools[p]? = some pool := by
  cases hdoes with
  | quiet hs => rw [hs.peerPools, hp]
  | @insert p' =>
    rw [insertPool, get_insert, if_neg, hp]
    rintro rfl
    exact (hfair pool hp).2 hheld
  | connect | count | remove => exact hp

theorem Does.mapped_pool (hdoes : Does c call step c' call')
    (hcall : ∀ p pool, call.pool = some (p, pool) → c.peerPools[p]? = some pool) (p pool : ℕ)
    (hcall' : call'.pool = some (p, pool)) : c'.peerPools[p]? = some pool := by
  cases hdoes with
  | quiet hs _ hpool =>
    rw [hs.peerPools]
    exact (hpool p pool hcall').elim (hcall p pool) id
  | insert =>
    obtain ⟨rfl, rfl⟩ : _ = p ∧ c.pools.length = pool := by simpa [PeerPoolCall.pool] using hcall'
    rw [insertPool, get_insert, if_pos rfl]
  | connect | count => exact hcall p pool hcall'
  | remove => cases hcall'

theorem Does.filled (hdoes : Does c call step c' call') (hfair : c.Fair held call step)
    (hcall : ∀ p pool, call.pool = some (p, pool) → c.peerPools[p]? = some pool)
    (h : ∀ pool, c.poolSize pool ≠ 0 → ∃ p : ℕ, c.peerPools[p]? = some pool) (pool : ℕ)
    (hpool : c'.poolSize pool ≠ 0) : ∃ p : ℕ, c'.peerPools[p]? = some pool := by
  cases hdoes with
  | quiet hs =>
    rw [hs.poolSize] at hpool
    rw [hs.peerPools]
    exact h pool hpool
  | @insert p =>
    rw [poolSize_insertPool] at hpool
    obtain ⟨p', hp'⟩ := h pool hpool
    refine ⟨p', ?_⟩
    rw [insertPool, get_insert, if_neg, hp']
    rintro rfl
    exact hpool (hfair pool hp').1
  | @connect p pool' now =>
    by_cases hne : pool = pool'
    · exact ⟨p, hne ▸ hcall p pool' rfl⟩
    · exact h pool (poolSize_setConnections_of_ne hne _ ▸ hpool)
  | count => exact h pool hpool
  | remove hdone => exact h pool fun hzero => hpool (Nat.le_zero.1 (hzero ▸ poolSize_remove_le ..))

theorem Does.limited (hdoes : Does c call step c' call') (hfair : c.Fair held call step)
    (hcall : ∀ p pool, call.pool = some (p, pool) → c.peerOf pool = some p)
    (h : ∀ pool, c.poolSize pool ≤ c.config.maxConnectionsPerPeer) (pool : ℕ) :
    c'.poolSize pool ≤ c'.config.maxConnectionsPerPeer := by
  cases hdoes with
  | quiet hs =>
    rw [hs.poolSize, hs.config]
    exact h pool
  | insert => exact (poolSize_insertPool ..).trans_le (h pool)
  | @connect p pool' now =>
    by_cases hne : pool = pool'
    · subst hne
      rw [poolSize_addConnection_self (hcall p pool rfl)]
      exact hfair
    · exact (poolSize_setConnections_of_ne hne _).trans_le (h pool)
  | count => exact h pool
  | remove hdone => exact (poolSize_remove_le ..).trans (h pool)

theorem fair_choose (hpos : 0 < c.config.maxConnectionsPerPeer) (p pool choice : ℕ) (load : ℚ)
    (now : ℤ) : c.Fair held (c.choose p pool choice load) (.connected now (.ok ())) := by
  unfold choose
  dsimp only
  split
  next => trivial
  next hnone =>
    split_ifs
    · -- only an empty pool has no connection to choose
      have he : c.poolSize pool = 0 := by
        by_contra hne
        exact not_le.2 (Nat.mod_lt choice (Nat.pos_of_ne_zero hne))
          (List.getElem?_eq_none_iff.1 hnone)
      exact he.trans_lt hpos
    · trivial

theorem Does.breach (hdoes : Does c call step c' call') (h : Numbered c)
    (hcall : ∀ p pool, call.pool = some (p, pool) → c.peerOf pool = some p)
    (hf : ∀ pool, c.poolSize pool ≠ 0 → ∃ p : ℕ, c.peerPools[p]? = some pool)
    (hnot : ¬ c.Fair held call step) :
    0 < c.lost call step ∨ (∃ p pool, held p pool ∧ c.peerPools[p]? = some pool ∧
      call = .creating p ∧ c'.peerPools[p]? = some c.pools.length) ∨
      ∃ pool, c'.config.maxConnectionsPerPeer < c'.poolSize pool := by
  cases hdoes with
  | quiet _ _ _ hfair => exact absurd (hfair held) hnot
  | @insert p =>
    obtain ⟨pool, hp, hpool⟩ : ∃ pool, c.peerPools[p]? = some pool ∧
        ¬ (c.poolSize pool = 0 ∧ ¬ held p pool) := by
      simpa [Fair] using hnot
    by_cases hzero : c.poolSize pool = 0
    · refine .inr (.inl ⟨p, pool, by tauto, hp, rfl, ?_⟩)
      rw [insertPool, get_insert, if_pos rfl]
    refine .inl ?_
    show 0 < (c.peerPools[p]?.map c.poolSize).getD 0
    rw [hp]
    exact Nat.pos_of_ne_zero hzero
  | @connect p pool now =>
    refine .inr (.inr ⟨pool, ?_⟩)
    rw [poolSize_addConnection_self (hcall p pool rfl)]
    exact Nat.lt_succ_of_le (not_lt.1 hnot)
  | count => exact absurd trivial hnot
  | @remove copy seen pool done idle hdone =>
    have hne : (removeIdle idle (c.connectionsOf pool) copy).1.length ≠ c.poolSize pool :=
      fun heq => hnot fun _ => heq
    have hle : _ ≤ c.poolSize pool := length_removeIdle_le idle (c.connectionsOf pool) copy
    obtain ⟨p, hp⟩ := hf pool (by omega)
    refine .inl ?_
    show 0 < if c.isMapped pool ∧ c.poolSize pool ≤ done then _ else _
    rw [if_pos ⟨isMapped_of_get h hp, hdone⟩]
    omega

end

end OptimizedPeerConnector

/-! ## Interleavings -/

abbrev PeerPoolSystem := Calls.System OptimizedPeerConnector PeerPoolCall

namespace PeerPoolSystem

open PeerPoolCall OptimizedPeerConnector

def step : PeerPoolSystem → ℕ × PeerPoolStep → PeerPoolSystem :=
  Calls.System.step OptimizedPeerConnector.act

def begin (config : OptimizedPeerConnectorConfig) : PeerPoolSystem := .start (.new config) .notBegun

def Idle (s : PeerPoolSystem) : Prop := ∀ i, (s.calls i).isIdle = true

def Held (s : PeerPoolSystem) (p pool : ℕ) : Prop := ∃ i, (s.calls i).pool = some (p, pool)

/-- Callers have one pool for a peer, the counter is right while no operation is in progress,
    and no pool is above the limit. -/
structure Sound (s : PeerPoolSystem) : Prop where
  onePool : ∀ p pool pool', s.shared.peerPools[p]? = some pool ∨ Held s p pool →
    s.shared.peerPools[p]? = some pool' ∨ Held s p pool' → pool = pool'
  counted : Idle s → s.shared.totalConnections = s.shared.connected
  limited : ∀ pool, s.shared.poolSize pool ≤ s.shared.config.maxConnectionsPerPeer

/-- The step counts down a counter more often than its value. -/
def Wraps (s : PeerPoolSystem) (x : ℕ × PeerPoolStep) : Prop :=
  match s.calls x.1, x.2 with
  | .inspecting copy _ pool done idle, .remove =>
    s.shared.poolSize pool ≤ done ∧ copy < s.shared.poolSize pool -
      (removeIdle idle (s.shared.connectionsOf pool) copy).1.length
  | _, _ => False

def Fair (s : PeerPoolSystem) (x : ℕ × PeerPoolStep) : Prop :=
  s.shared.Fair (Held s) (s.calls x.1) x.2

variable {s : PeerPoolSystem} {x : ℕ × PeerPoolStep}

/-- **The call's own check suffices** for the limit unless it is zero: only an empty pool gets a
    connection right after it was looked at. -/
theorem fair_connected {i p pool : ℕ} (h : s.calls i = .locked p pool)
    (hpos : 0 < s.shared.config.maxConnectionsPerPeer) (choice : ℕ) (load : ℚ) (now : ℤ) :
    Fair (s.step (i, .choose choice load)) (i, .connected now (.ok ())) := by
  unfold Fair
  rw [step, step_shared, step_calls_self, h]
  exact fair_choose hpos p pool choice load now

theorem not_wraps_of_fair (h : Fair s x) : ¬ Wraps s x := by
  obtain ⟨i, a⟩ := x
  unfold Fair at h
  unfold Wraps
  dsimp only at h ⊢
  split
  next copy seen pool done idle hcall =>
    rw [hcall] at h
    rintro ⟨hdone, hlt⟩
    rw [h hdone] at hlt
    omega
  next => exact not_false

/-- Pools have the right peers, and the counter has so much too much once every caller has
    counted the connection that it has added. -/
structure Excess (s : PeerPoolSystem) (excess : ℕ) : Prop where
  numbered : Numbered s.shared
  held : ∀ i p pool, (s.calls i).pool = some (p, pool) → s.shared.peerOf pool = some p
  counted : ∃ inc, Calls.Count isCounting s.calls inc ∧
    s.shared.totalConnections + inc = s.shared.connected + excess

theorem excess_step {exc : ℕ} (h : Excess s exc) (x : ℕ × PeerPoolStep) :
    Excess (s.step x) (exc + s.shared.lost (s.calls x.1) x.2) where
  numbered := (s.shared.does_act (s.calls x.1) x.2).numbered h.numbered
  held := by
    have hdoes := s.shared.does_act (s.calls x.1) x.2
    refine forall_calls_put (P := fun _ call => ∀ p id, pool call = some (p, id) →
      (s.step x).shared.peerOf id = some p) ?_ ?_
    · exact hdoes.peerOf_pool h.numbered (h.held x.1)
    · exact fun j _ p pool hpool => hdoes.peerOf_eq (h.held j p pool hpool)
  counted := by
    obtain ⟨inc, hinc, hsum⟩ := h.counted
    obtain ⟨inc', hinc', hinc⟩ : ∃ n, Calls.Count isCounting (s.step x).calls n ∧ _ :=
      count_step hinc
    exact ⟨inc', hinc', (s.shared.does_act (s.calls x.1) x.2).balance h.numbered (h.held x.1)
      hsum hinc⟩

theorem Excess.total_eq {excess : ℕ} (h : Excess s excess) (hidle : Idle s) :
    s.shared.totalConnections = s.shared.connected + excess := by
  obtain ⟨inc, hinc, hsum⟩ := h.counted
  have hinc : inc = 0 := hinc.eq_zero fun i => isCounting_of_isIdle (hidle i)
  omega

def Exceeded (s : PeerPoolSystem) : Prop := ∃ excess, 0 < excess ∧ Excess s excess

theorem exceeded_step (h : Exceeded s) : Exceeded (s.step x) := by
  obtain ⟨exc, hpos, he⟩ := h
  exact ⟨_, by omega, excess_step he x⟩

theorem Sound.not_exceeded (h : Sound s) (hidle : Idle s) : ¬ Exceeded s := by
  rintro ⟨excess, hpos, he⟩
  have ht := h.counted hidle
  rw [he.total_eq hidle] at ht
  omega

/-! ## Pools -/

/-- The counter has nothing too much, callers hold pools that the map has, and it has all
    pools with connections. -/
structure Balanced (s : PeerPoolSystem) : Prop where
  excess : Excess s 0
  held : ∀ i p pool, (s.calls i).pool = some (p, pool) → s.shared.peerPools[p]? = some pool
  filled : ∀ pool, s.shared.poolSize pool ≠ 0 → ∃ p : ℕ, s.shared.peerPools[p]? = some pool
  limited : ∀ pool, s.shared.poolSize pool ≤ s.shared.config.maxConnectionsPerPeer

theorem Balanced.sound (h : Balanced s) : Sound s where
  onePool := by
    have hm {p pool : ℕ} (hpool : s.shared.peerPools[p]? = some pool ∨ Held s p pool) :
        s.shared.peerPools[p]? = some pool := by
      rcases hpool with hpool | ⟨i, hpool⟩
      · exact hpool
      · exact h.held i p pool hpool
    intro p pool pool' hpool hpool'
    have heq := hm hpool
    rw [hm hpool'] at heq
    exact (Option.some.inj heq).symm
  counted := h.excess.total_eq
  limited := h.limited

theorem balanced_begin (cfg : OptimizedPeerConnectorConfig) : Balanced (begin cfg) where
  excess := by
    refine ⟨fun p pool h => ?_, fun i p pool h => ?_, 0, count_zero fun _ => rfl, rfl⟩
    · simp [begin, Calls.System.start, OptimizedPeerConnector.new] at h
    · cases h
  held := fun i p pool h => (by cases h)
  filled := fun pool h => absurd rfl h
  limited := fun pool => Nat.zero_le _

theorem balanced_step (h : Balanced s) (hfair : Fair s x) : Balanced (s.step x) := by
  have hdoes := s.shared.does_act (s.calls x.1) x.2
  refine ⟨?_, ?_, ?_, ?_⟩
  · have hlost := hdoes.lost_eq_zero h.excess.numbered (h.held x.1) hfair
    have he := excess_step h.excess x
    rwa [hlost] at he
  · refine forall_calls_put (P := fun _ call => ∀ p id, pool call = some (p, id) →
      (s.step x).shared.peerPools[p]? = some id) ?_ ?_
    · exact hdoes.mapped_pool (h.held x.1)
    · exact fun j _ p pool hpool => hdoes.mapped_of_held hfair ⟨j, hpool⟩ (h.held j p pool hpool)
  · exact hdoes.filled hfair (h.held x.1) h.filled
  · exact hdoes.limited hfair (h.excess.held x.1) h.limited

theorem breach_step (h : Balanced s) (hnot : ¬ Fair s x) :
    ¬ Sound (s.step x) ∨ Exceeded (s.step x) := by
  have hdoes := s.shared.does_act (s.calls x.1) x.2
  rcases hdoes.breach h.excess.numbered (h.excess.held x.1) h.filled hnot with
    hlost | ⟨p, pool, ⟨j, hj⟩, hp, hcall, hnew⟩ | ⟨pool, hpool⟩
  · exact .inr ⟨_, by omega, excess_step h.excess x⟩
  · refine .inl fun hs => ?_
    -- the other caller still holds the pool that is replaced
    have ho : j ≠ x.1 := by
      rintro rfl
      rw [hcall] at hj
      cases hj
    have hheld : Held (s.step x) p pool := ⟨j, (step_calls_of_ne ho).symm ▸ hj⟩
    have heq := hs.onePool p pool _ (.inr hheld) (.inl hnew)
    have hpeer := h.excess.held j p pool hj
    rw [heq] at hpeer
    simp [peerOf] at hpeer
  · exact .inl fun hs => not_le.2 hpool (hs.limited pool)

/-- **Pools and counters**: along fair steps callers share one pool for a peer, the counters are
    right and the limits kept; a run that ends with no operation in progress must be fair for that.
    -/
theorem sound_along_fair (config : OptimizedPeerConnectorConfig) (run : List (ℕ × PeerPoolStep)) :
    (Run.Along step Fair (begin config) run →
      (∀ s ∈ run.scanl step (begin config), Sound s) ∧
      Run.Along step (fun s x => ¬ Wraps s x) (begin config) run) ∧
    (Idle (run.foldl step (begin config)) → (∀ s ∈ run.scanl step (begin config), Sound s) →
      Run.Along step Fair (begin config) run) := by
  constructor
  · intro hfair
    refine ⟨fun s hs => ?_, ?_⟩
    · exact (Run.invariant (fun _ _ => balanced_step) (balanced_begin config) hfair s hs).sound
    · exact Run.along_of_invariant (fun _ _ => balanced_step) (fun _ _ _ => not_wraps_of_fair)
        (balanced_begin config) hfair
  intro hidle hsound
  have hend : Sound (run.foldl step (begin config)) := hsound _ (Run.foldl_mem_scanl ..)
  exact Run.along_of_trace (fun _ _ => balanced_step) (fun _ _ => breach_step)
    (fun _ _ => exceeded_step) (balanced_begin config) hsound (hend.not_exceeded hidle)

def defaultConfig : OptimizedPeerConnectorConfig where
  maxConnectionsPerPeer := 5
  connectionIdleTimeout := 300 * 10 ^ 9
  enableAdaptivePooling := true
  minConnectionsPerPeer := 1
  connectionLoadThreshold := 8 / 10
  maxConcurrentConnections := 20

def oneConnects : List (ℕ × PeerPoolStep) :=
  [(0, .acquire 7), (0, .lookup), (0, .insert), (0, .lock), (0, .choose 0 0),
    (0, .connected 0 (.ok ())), (0, .count), (0, .unlock), (0, .finish)]

theorem sound_along_oneConnects : Run.Along step Fair (begin defaultConfig) oneConnects ∧
      ∀ s ∈ oneConnects.scanl step (begin defaultConfig), Sound s := by
  have hfair : Run.Along step Fair (begin defaultConfig) oneConnects := by
    refine ⟨trivial, trivial, fun pool hpool => ?_, trivial, trivial, ?_, trivial, trivial, trivial,
      trivial⟩
    · exact absurd (Option.isSome_iff_exists.2 ⟨pool, hpool⟩) (by decide +kernel)
    · show _ < _
      decide +kernel
  have hs := ((sound_along_fair defaultConfig oneConnects).1 hfair).1
  have hidle : Idle (oneConnects.foldl step (begin defaultConfig)) :=
    Calls.forall_calls_foldl (P := fun call => isIdle call = true) rfl _ (by decide +kernel)
  exact ⟨(sound_along_fair defaultConfig oneConnects).2 hidle hs, hs⟩

def bothCreate : List (ℕ × PeerPoolStep) :=
  [(0, .acquire 7), (1, .acquire 7), (0, .lookup), (1, .lookup), (0, .insert), (1, .insert),
    (0, .lock), (1, .lock)]

def bothConnect : List (ℕ × PeerPoolStep) :=
  bothCreate ++ [(0, .choose 0 0), (1, .choose 0 0), (0, .connected 0 (.ok ())),
    (1, .connected 0 (.ok ())), (0, .count), (1, .count), (0, .unlock), (1, .unlock),
    (0, .finish), (1, .finish)]

def idleRemoved : List (ℕ × PeerPoolStep) :=
  [(0, .startCleanup), (1, .acquire 7), (1, .lookup), (1, .insert), (1, .lock), (1, .choose 0 0),
    (1, .connected 0 (.ok ())), (1, .count), (1, .unlock), (1, .finish), (0, .tick),
    (0, .visit 7), (0, .lock), (0, .inspect (3600 * 10 ^ 9)), (0, .remove), (0, .endRound)]

/-- Two pools for a peer with one connection the map does not have; and a counter below zero while
    the one it was copied from is not counted down. -/
theorem two_pools :
    let s := bothCreate.foldl step (begin defaultConfig)
    let s' := bothConnect.foldl step (begin defaultConfig)
    let t := idleRemoved.foldl step (begin defaultConfig)
    (Held s 7 0 ∧ Held s 7 1) ∧
    (Idle s' ∧ s'.shared.totalConnections = 2 ∧ s'.shared.connected = 1) ∧
    (Idle t ∧ t.shared.totalConnections = 1 ∧ t.shared.connected = 0 ∧
      t.calls 0 = .waiting (2 ^ 64 - 1)) := by
  refine ⟨⟨⟨0, by decide +kernel⟩, ⟨1, by decide +kernel⟩⟩, ⟨?_, by decide +kernel,
    by decide +kernel⟩, ?_, by decide +kernel, by decide +kernel, by decide +kernel⟩
  · exact Calls.forall_calls_foldl (P := fun call => isIdle call = true) rfl _ (by decide +kernel)
  · exact Calls.forall_calls_foldl (P := fun call => isIdle call = true) rfl _ (by decide +kernel)

end PeerPoolSystem

end Blixard
