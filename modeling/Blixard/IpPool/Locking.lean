/-
  The locks of the pool manager (`ip_pool_manager.rs`), and when concurrent calls deadlock.

  `allocate_ip` and `load_from_storage` take the pools before the allocations, `release_vm_ips`
  takes them last (`deadlock_free_iff`).
-/
import Blixard.Lib.Locks
import Blixard.IpPool.Manager

namespace Blixard

open Locks List

inductive PoolLock where
  | pools | allocations | vmAllocations | roundRobinCounter
  deriving DecidableEq

/-- How far an `allocate_ip` gets: no pool is selected, the selected pool is gone or has
    no address, or it returns an address. -/
inductive AllocateOutcome where
  | noPool | noAddress | allocated

/-- The calls that take more than the lock of the pools, or that one. -/
inductive PoolCall where
  | allocateIp (roundRobin : Bool) (outcome : AllocateOutcome)
  | releaseVmIps
  | loadFromStorage
  | getVmAllocations

namespace PoolCall

/-- The selection of a pool, under a read lock on the pools; a selection by round robin
    also moves the counter. -/
def selectPool (roundRobin : Bool) : List (Action PoolLock) :=
  .acquire .pools .read ::
    ((if roundRobin then [.acquire .roundRobinCounter .write, .release .roundRobinCounter]
      else []) ++ [.release .pools])

/-- The lock actions of a call in their order; guards are dropped in reverse order of
    their declaration when the call returns. -/
def program : PoolCall → List (Action PoolLock)
  | allocateIp _ .noPool => [.acquire .pools .read, .release .pools]
  | allocateIp roundRobin .noAddress =>
    selectPool roundRobin ++ [.acquire .pools .write, .release .pools]
  | allocateIp roundRobin .allocated =>
    selectPool roundRobin ++
      [.acquire .pools .write, .acquire .allocations .write, .acquire .vmAllocations .write,
        .release .vmAllocations, .release .allocations, .release .pools]
  | releaseVmIps =>
    [.acquire .allocations .write, .acquire .vmAllocations .write, .acquire .pools .write,
      .release .pools, .release .vmAllocations, .release .allocations]
  | loadFromStorage =>
    [.acquire .pools .write, .acquire .allocations .write, .acquire .vmAllocations .write,
      .release .vmAllocations, .release .allocations, .release .pools]
  | getVmAllocations =>
    [.acquire .allocations .read, .acquire .vmAllocations .read,
      .release .vmAllocations, .release .allocations]

def addsAllocations : PoolCall → Bool
  | allocateIp _ .allocated | loadFromStorage => true
  | _ => false

/-- The locks that `allocateIp` of the manager takes for a request, if nothing else
    changes the manager meanwhile. -/
def ofRequest (pf : Platform) (env : PoolEnv) (m : IpPoolManager) (request : IpAllocationRequest) :
    PoolCall :=
  allocateIp (request.preferredPool = none ∧ request.selectionStrategy = .roundRobin) <|
    match (m.choosePool pf env request).1 with
    | .error _ => .noPool
    | .ok poolId =>
      match m.pools[poolId]? with
      | none => .noAddress
      | some p => if (p.allocateIp pf (env.now 0)).2.isOk then .allocated else .noAddress

/-- An `allocate_ip` that returns an address is one that adds an allocation. -/
theorem addsAllocations_ofRequest (pf : Platform) (env : PoolEnv) (m : IpPoolManager)
    (req : IpAllocationRequest) :
    (ofRequest pf env m req).addsAllocations = (m.allocateIp pf env req).2.isOk := by
  unfold ofRequest IpPoolManager.allocateIp
  rcases m.choosePool pf env req with ⟨e | pid, ctr⟩
  · rfl
  dsimp only
  cases m.pools[pid]? with
  | none => rfl
  | some p =>
    dsimp only
    rcases p.allocateIp pf (env.now 0) with ⟨p', e | addr⟩ <;> rfl

def poolsFirst : PoolLock → Fin 4
  | .pools => 0
  | .roundRobinCounter => 1
  | .allocations => 2
  | .vmAllocations => 3

def poolsLast : PoolLock → Fin 4
  | .allocations => 0
  | .vmAllocations => 1
  | .pools => 2
  | .roundRobinCounter => 3

variable {call : PoolCall}

theorem ordered_poolsFirst (h : call ≠ releaseVmIps) : Ordered poolsFirst [] call.program := by
  cases call with
  | allocateIp roundRobin out =>
    cases roundRobin <;> cases out <;> simp [program, selectPool, Ordered, perform, poolsFirst]
  | releaseVmIps => exact absurd rfl h
  | loadFromStorage | getVmAllocations => simp [program, Ordered, perform, poolsFirst]

theorem ordered_poolsLast (h : call.addsAllocations = false) :
    Ordered poolsLast [] call.program := by
  cases call with
  | allocateIp roundRobin out =>
    cases out with
    | noPool => simp [program, Ordered, perform, poolsLast]
    | noAddress => cases roundRobin <;> simp [program, selectPool, Ordered, perform, poolsLast]
    | allocated => cases h
  | releaseVmIps | getVmAllocations => simp [program, Ordered, perform, poolsLast]
  | loadFromStorage => cases h

/-! ## The deadlock -/

theorem exists_program_of_addsAllocations (h : call.addsAllocations = true) :
    ∃ done rest, call.program = done ++ .acquire .allocations .write :: rest ∧
      Ordered poolsFirst [] done ∧ done.foldl perform [] = [(.pools, .write)] := by
  cases call with
  | allocateIp roundRobin out =>
    cases out with
    | noPool => cases h
    | noAddress => cases h
    | allocated =>
      refine ⟨selectPool roundRobin ++ [.acquire .pools .write],
        .acquire .vmAllocations .write ::
          [.release .vmAllocations, .release .allocations, .release .pools], ?_, ?_, ?_⟩
      · rw [program, append_assoc]
        rfl
      · cases roundRobin <;> simp [selectPool, Ordered, perform, poolsFirst]
      · cases roundRobin <;> rfl
  | releaseVmIps => cases h
  | loadFromStorage =>
    exact ⟨[.acquire .pools .write], _, rfl, by simp [Ordered], rfl⟩
  | getVmAllocations => cases h

variable {I : Type} {calls : I → PoolCall}

theorem exists_deadlock {i j : I} (hi : calls i = releaseVmIps)
    (hj : (calls j).addsAllocations = true) :
    ∃ s, Reachable (fun k => (calls k).program) s ∧ Deadlocked s {i, j} := by
  have hij : i ≠ j := by
    rintro rfl
    rw [hi] at hj
    cases hj
  obtain ⟨done, rest, hp, hord, hheld⟩ := exists_program_of_addsAllocations hj
  -- the call that adds allocations takes the pools
  obtain ⟨s, hs, hsj, ht⟩ := run_alone (s := start fun k => (calls k).program) (i := j)
    hp hord (fun _ _ h hmem => absurd hmem not_mem_nil)
  have hsi : s i = ⟨[], releaseVmIps.program⟩ := by
    rw [ht i hij, start, hi]
  rw [show (start (fun k => (calls k).program) j).held = [] from rfl, hheld] at hsj
  -- the release takes the two other maps
  have hord' : Ordered poolsLast (s i).held
      [.acquire .allocations .write, .acquire .vmAllocations .write] := by
    rw [hsi]
    simp [Ordered, perform, poolsLast]
  obtain ⟨s', hs', hsi', ht'⟩ := run_alone (congrArg Call.rest hsi) hord' (by
    intro k hk h hmem mode
    by_cases hkj : k = j
    · rw [hkj, hsj, mem_singleton] at hmem
      simp [hmem]
    · rw [ht k hkj] at hmem
      cases hmem)
  rw [hsi] at hsi'
  have hsj' := (ht' j hij.symm).trans hsj
  refine ⟨s', hs.trans hs', ⟨i, .inl rfl⟩, ?_⟩
  rintro k (rfl | rfl)
  · exact ⟨j, .inr rfl, hij, .pools, .write, _, congrArg Call.rest hsi', (.pools, .write),
      by rw [hsj']; exact mem_singleton_self _, rfl, .inl rfl⟩
  · exact ⟨i, .inl rfl, hij.symm, .allocations, .write, _, congrArg Call.rest hsj',
      (.allocations, .write), by rw [hsi']; simp [perform], rfl, .inl rfl⟩

/-- **When the pool manager is free of deadlocks**: no interleaving of any number of calls has a set
    of them that wait for each other, exactly if there are not both a call that releases addresses
    and one that adds allocations. -/
theorem deadlock_free_iff (calls : I → PoolCall) :
    (∀ s, Reachable (fun i => (calls i).program) s → ∀ waiting : Set I, ¬ Deadlocked s waiting) ↔
    ¬ ((∃ i, calls i = releaseVmIps) ∧ ∃ j, (calls j).addsAllocations = true) := by
  constructor
  · rintro hfree ⟨⟨i, hi⟩, j, hj⟩
    obtain ⟨s, hs, hdead⟩ := exists_deadlock hi hj
    exact hfree s hs {i, j} hdead
  intro hnot s hs waiting
  by_cases hrelease : ∃ i, calls i = releaseVmIps
  · refine not_deadlocked_of_ordered (fun i => ordered_poolsLast ?_) hs waiting
    by_contra hadds
    exact hnot ⟨hrelease, i, by simpa using hadds⟩
  · refine not_deadlocked_of_ordered (fun i => ordered_poolsFirst ?_) hs waiting
    exact fun heq => hrelease ⟨i, heq⟩

theorem release_deadlocks_with_allocate :
    ¬ ∀ (I : Type) (calls : I → PoolCall) (s : I → Call PoolLock),
      Reachable (fun i => (calls i).program) s → ∀ waiting : Set I, ¬ Deadlocked s waiting := by
  intro h
  let calls : Bool → PoolCall
    | true => releaseVmIps
    | false => allocateIp false .allocated
  obtain ⟨s, hs, hdead⟩ := @exists_deadlock Bool calls true false rfl rfl
  exact h Bool calls s hs _ hdead

end PoolCall

end Blixard
