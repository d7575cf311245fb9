/-
  Do the address tables agree?

  A release removes the list of a machine and the addresses in memory, but not the rows of the
  addresses (`tables_agree_iff`).
-/
import Blixard.IpPool.Bookkeeping
import Blixard.Raft.Replicated

namespace Blixard

open Encoded IpPoolManager List Std.ExtTreeMap Table

/-! ## The reload of the pool manager -/

def decodeRows {α : Type} (d : Deployment) (operation : String) (rows : List (Encoded α)) :
    Except Failure (List α) :=
  rows.mapM fun
    | .value a => .ok a
    | .junk bytes => .error (.error (.serialization operation (d.decodeError bytes)))

/-- The pool manager as the initialisation of a node builds it (`node/initialization.rs`),
    from the rows of the two tables in the order the database gives them. -/
def reloadIpPoolManager (d : Deployment) (poolRows : List (Encoded IpPoolConfig))
    (rows : List (Encoded IpAllocation)) : Except Failure IpPoolManager := do
  let pools ← decodeRows d "deserialize IP pool" poolRows
  let allocations ← decodeRows d "deserialize IP allocation" rows
  IpPoolManager.new.loadFromStorage d.toPlatform pools allocations

theorem decodeRows_value {α : Type} (d : Deployment) (op : String) (as : List α) :
    decodeRows d op (as.map .value) = .ok as := by
  induction as with
  | nil => rfl
  | cons a as ih =>
    unfold decodeRows at ih ⊢
    rw [map_cons, mapM_cons, ih]
    rfl

namespace IpPoolManager

variable (as : List IpAllocation)

theorem loadAll_allocations (m : IpPoolManager) : (as.foldl loadAllocation m).allocations =
      putAll m.allocations (as.map fun a => (a.ip, a)) := by
  induction as generalizing m with
  | nil => rfl
  | cons a as ih =>
    rw [foldl_cons, ih]
    rfl

theorem loadAll_held (m : IpPoolManager) (vm : VmId) : (as.foldl loadAllocation m).held vm =
      m.held vm ++ (as.filter fun a => a.vmId = vm).map (·.ip) := by
  induction as generalizing m with
  | nil => simp
  | cons a as ih =>
    have hone : (m.loadAllocation a).held vm =
        if a.vmId = vm then m.held vm ++ [a.ip] else m.held vm := by
      simp only [held, loadAllocation, get_insert]
      split_ifs with h
      · rw [h, Option.getD_some]
      · rfl
    rw [foldl_cons, ih, hone, filter_cons]
    by_cases h : a.vmId = vm <;> simp [h]

end IpPoolManager

/-! ## Tables that describe the manager -/

namespace Machine

variable {d : Deployment} {m : Machine}

/-- An address row exists for a machine exactly if the address is listed for it. -/
def TablesAgree (m : Machine) : Prop :=
  ∀ vm ip, (∃ (key : IpAllocationKey) (a : IpAllocation),
    m.database.ipAllocations[key]? = some (.value a) ∧ a.vmId = vm ∧ a.ip = ip) ↔
      ip ∈ m.mappedIps vm

/-- In whatever order the address rows are read, they decode, and a reload whose pools can
    be loaded has the allocations and the addresses of the manager in memory. -/
def ReloadsAllocations (d : Deployment) (m : Machine) : Prop :=
  ∀ rows, rows.Perm (m.database.ipAllocations.toList.map Prod.snd) →
    ∃ allocations, decodeRows d "deserialize IP allocation" rows = .ok allocations ∧
      ∀ poolRows configs pools, decodeRows d "deserialize IP pool" poolRows = .ok configs →
        IpPoolManager.loadPools d.toPlatform allocations ∅ configs = .ok pools →
        ∃ manager, reloadIpPoolManager d poolRows rows = .ok manager ∧
          manager.allocations = m.ipPoolManager.allocations ∧
          ∀ vm, (manager.held vm).Perm (m.ipPoolManager.held vm)

/-- The address tables describe the manager in memory. -/
structure Stored (d : Deployment) (m : Machine) : Prop where
  assigned : m.ipPoolManager.Assigned d.toPlatform
  keyed : ∀ (ip : IpAddr) (a : IpAllocation), m.ipPoolManager.allocations[ip]? = some a → a.ip = ip
  listed : ∀ (ip : IpAddr) (a : IpAllocation), m.ipPoolManager.allocations[ip]? = some a →
    ip ∈ m.ipPoolManager.held a.vmId
  nodup : ∀ vm, (m.ipPoolManager.held vm).Nodup
  rows : ∀ (key : IpAllocationKey) (row : Encoded IpAllocation),
    m.database.ipAllocations[key]? = some row ↔
      ∃ a, row = .value a ∧ key = ⟨a.poolId, a.ip⟩ ∧ m.ipPoolManager.allocations[a.ip]? = some a
  mapped : ∀ vm, m.mappedIps vm = m.ipPoolManager.held vm

theorem Stored.held_iff (h : m.Stored d) {vm : VmId} {ip : IpAddr} : ip ∈ m.ipPoolManager.held vm ↔
      ∃ a, m.ipPoolManager.allocations[ip]? = some a ∧ a.vmId = vm := by
  constructor
  · intro hip
    exact Option.map_eq_some_iff.1 (h.assigned.holder vm ip hip)
  · rintro ⟨a, ha, rfl⟩
    exact h.listed ip a ha

theorem Stored.books (h : m.Stored d) : m.ipPoolManager.Listed :=
  ⟨h.keyed, fun _ _ => h.held_iff, h.nodup⟩

theorem Stored.tablesAgree (h : m.Stored d) : m.TablesAgree := by
  intro vm ip
  rw [h.mapped, h.held_iff]
  constructor
  · rintro ⟨key, a, hrow, rfl, rfl⟩
    obtain ⟨b, hb, -, hl⟩ := (h.rows key _).1 hrow
    cases hb
    exact ⟨a, hl, rfl⟩
  · rintro ⟨a, ha, rfl⟩
    obtain rfl := h.keyed ip a ha
    exact ⟨⟨a.poolId, a.ip⟩, a, (h.rows _ _).2 ⟨a, rfl, rfl, ha⟩, rfl, rfl⟩

theorem Stored.rows_perm (h : m.Stored d) {rows : List (Encoded IpAllocation)}
    (hrows : rows.Perm (m.database.ipAllocations.toList.map Prod.snd)) :
    ∃ as : List IpAllocation, rows = as.map .value ∧ as.Nodup ∧
      ∀ a, a ∈ as ↔ m.ipPoolManager.allocations[a.ip]? = some a := by
  have hmem : ∀ row, row ∈ rows ↔
      ∃ a, row = .value a ∧ m.ipPoolManager.allocations[a.ip]? = some a := by
    intro row
    rw [hrows.mem_iff, mem_map]
    constructor
    · rintro ⟨⟨key, row⟩, hkey, rfl⟩
      obtain ⟨a, ha, -, hl⟩ :=
        (h.rows key row).1 (mem_toList_iff_getElem?_eq_some.1 hkey)
      exact ⟨a, ha, hl⟩
    · rintro ⟨a, rfl, ha⟩
      refine ⟨(⟨a.poolId, a.ip⟩, .value a), ?_, rfl⟩
      exact mem_toList_iff_getElem?_eq_some.2 ((h.rows _ _).2 ⟨a, rfl, rfl, ha⟩)
  -- the key of a row can be read off its value
  have hn : rows.Nodup := by
    refine hrows.nodup_iff.2 (List.Nodup.map_on ?_ ?_)
    · rintro ⟨key, row⟩ hkey ⟨key', row'⟩ hkey' heq
      obtain rfl : row = row' := heq
      rw [mem_toList_iff_getElem?_eq_some, h.rows] at hkey hkey'
      obtain ⟨a, rfl, rfl, -⟩ := hkey
      obtain ⟨b, hb, rfl, -⟩ := hkey'
      cases hb
      rfl
    · exact (map_fst_toList_eq_keys (t := m.database.ipAllocations) ▸
        nodup_keys : (m.database.ipAllocations.toList.map Prod.fst).Nodup).of_map
  obtain ⟨as, rfl⟩ : ∃ as : List IpAllocation, as.map value = rows := by
    refine ⟨rows.filterMap decode, ?_⟩
    have hall : ∀ row ∈ rows, ∃ a, row = value a := fun row hrow => by
      obtain ⟨a, ha, -⟩ := (hmem row).1 hrow
      exact ⟨a, ha⟩
    clear hmem hn hrows
    induction rows with
    | nil => rfl
    | cons row rows ih =>
      obtain ⟨a, rfl⟩ := hall row mem_cons_self
      have := ih fun row hrow => hall row (mem_cons_of_mem _ hrow)
      simp [decode, this]
  refine ⟨as, rfl, hn.of_map, ?_⟩
  intro a
  have := hmem (.value a)
  rw [mem_map] at this
  simpa using this

theorem Stored.reloadsAllocations (h : m.Stored d) : m.ReloadsAllocations d := by
  intro rows hrows
  obtain ⟨as, rfl, hn, hmem⟩ := h.rows_perm hrows
  refine ⟨as, decodeRows_value d _ as, ?_⟩
  intro poolRows cfgs pools hc hp
  refine ⟨as.foldl IpPoolManager.loadAllocation { IpPoolManager.new with pools }, ?_, ?_, ?_⟩
  · simp only [reloadIpPoolManager, hc, decodeRows_value, IpPoolManager.loadFromStorage]
    show (IpPoolManager.loadPools d.toPlatform as ∅ cfgs >>= _) = _
    rw [hp]
    rfl
  · rw [IpPoolManager.loadAll_allocations]
    apply Table.putAll_eq_of_mem_iff
    intro ip a
    rw [List.mem_map]
    constructor
    · rintro ⟨b, hb, heq⟩
      obtain ⟨rfl, rfl⟩ := Prod.mk.inj heq
      exact (hmem b).1 hb
    · intro ha
      obtain rfl := h.keyed ip a ha
      exact ⟨a, (hmem a).2 ha, rfl⟩
  · intro vm
    rw [IpPoolManager.loadAll_held]
    show (((as.filter fun a => a.vmId = vm).map (·.ip)).Perm _)
    refine (List.perm_ext_iff_of_nodup ?_ (h.nodup vm)).2 ?_
    · refine List.Nodup.map_on ?_ (hn.filter _)
      intro a ha b hb hip
      have ha' := (hmem a).1 (List.mem_of_mem_filter ha)
      have hb' := (hmem b).1 (List.mem_of_mem_filter hb)
      rw [hip, hb'] at ha'
      exact (Option.some.inj ha').symm
    · intro ip
      rw [h.held_iff]
      simp only [List.mem_map, List.mem_filter, hmem, decide_eq_true_eq]
      constructor
      · rintro ⟨a, ⟨ha, hvm⟩, rfl⟩
        exact ⟨a, ha, hvm⟩
      · rintro ⟨a, ha, hvm⟩
        obtain rfl := h.keyed ip a ha
        exact ⟨a, ⟨ha, hvm⟩, rfl⟩

/-! ## Steps -/

inductive AddressProposal where
  | allocateIp (request : IpAllocationRequest)
  | releaseVmIps (vmId : VmId)

def AddressProposal.data : AddressProposal → ProposalData
  | allocateIp request => .allocateIp request
  | releaseVmIps vmId => .releaseVmIps vmId

def addressStep (d : Deployment) (m : Machine) (x : AddressProposal × (ℕ → Env)) : Machine :=
  (m.applyProposal d x.2 x.1.data).1

/-- The release of a machine's addresses, where it gets as far as that, has nothing to
    release. -/
def NothingToRelease (d : Deployment) (m : Machine) (x : AddressProposal × (ℕ → Env)) : Prop :=
  ∀ vmId, x.1 = .releaseVmIps vmId → d.runtime = .blocking → m.mappedIps vmId = []

theorem stored_counter (h : m.Stored d) (ctr : ℕ) :
    Stored d { m with ipPoolManager := { m.ipPoolManager with roundRobinCounter := ctr } } :=
  ⟨assigned_of_counter h.assigned ctr, h.keyed, h.listed, h.nodup, h.rows,
    h.mapped⟩

theorem mappedIps_storeAllocation (a : IpAllocation) (mgr : IpPoolManager) (vm : VmId) :
    mappedIps { m with ipPoolManager := mgr, database := m.storeAllocation a } vm =
      if a.vmId = vm then
        (if a.ip ∈ m.mappedIps vm then m.mappedIps vm else m.mappedIps vm ++ [a.ip])
      else m.mappedIps vm := by
  simp only [mappedIps, storeAllocation, get_insert]
  by_cases hvm : a.vmId = vm
  · subst hvm
    simp [decode]
  · simp [hvm]

theorem stored_allocate (h : m.Stored d) {mgr : IpPoolManager} {a : IpAllocation}
    (ha : mgr.Assigned d.toPlatform) (hf : m.ipPoolManager.allocations[a.ip]? = none)
    (hl : mgr.allocations = m.ipPoolManager.allocations.insert a.ip a) (hvms : mgr.vmAllocations =
      m.ipPoolManager.vmAllocations.insert a.vmId (m.ipPoolManager.held a.vmId ++ [a.ip])) :
    Stored d { m with ipPoolManager := mgr, database := m.storeAllocation a } := by
  have hs := h.books.allocate hf hl hvms
  refine ⟨ha, hs.keyed, fun ip b hb => (hs.held_iff b.vmId ip).2 ⟨b, hb, rfl⟩,
    hs.nodup, ?_, ?_⟩
  · intro key row
    simp only [storeAllocation, hl, get_insert_eq_some, h.rows]
    constructor
    · rintro (⟨rfl, rfl⟩ | ⟨-, b, rfl, rfl, hb⟩)
      · exact ⟨a, rfl, rfl, .inl ⟨rfl, rfl⟩⟩
      refine ⟨b, rfl, rfl, .inr ⟨?_, hb⟩⟩
      intro hip
      rw [← hip, hf] at hb
      cases hb
    · rintro ⟨b, rfl, rfl, ⟨-, rfl⟩ | ⟨hne, hb⟩⟩
      · exact .inl ⟨rfl, rfl⟩
      · refine .inr ⟨?_, b, rfl, rfl, hb⟩
        intro hkey
        exact hne (IpAllocationKey.mk.inj hkey).2
  · intro vm
    rw [mappedIps_storeAllocation, held_of_insert hvms, h.mapped]
    simp only [h.books.not_held hf vm, if_false]

theorem stored_applyAllocateIp (h : m.Stored d) (env : Env) (req : IpAllocationRequest) :
    Stored d (m.applyAllocateIp d env req).1 := by
  unfold applyAllocateIp
  rcases blockOn_cases d m (fun _ => _) with ⟨heq, -⟩ | ⟨f, heq⟩ <;> rw [heq]
  · have hstep := assigned_step m.ipPoolManager (.allocateIp req, env.toPoolEnv)
      h.assigned (by rintro config ⟨⟩)
    simp only [step] at hstep
    rcases @IpPoolManager.allocateIp_cases d.toPlatform env.toPoolEnv m.ipPoolManager
        h.assigned.inSync req with
      ⟨counter, e, hres⟩ | ⟨counter, id, p, p', ip, hp, hall, hip, -, -, -, -, hres⟩ <;>
      rw [hres] at hstep ⊢
    · exact stored_counter h counter
    · have hf := h.assigned.fresh hp hall hip
      exact stored_allocate h hstep hf rfl rfl
  · exact h

theorem stored_release (h : m.Stored d) {vmId : VmId} (hnone : m.mappedIps vmId = []) :
    Stored d { m with database := { m.database with
      vmIpMappings := m.database.vmIpMappings.erase vmId } } := by
  refine ⟨h.assigned, h.keyed, h.listed, h.nodup, h.rows, ?_⟩
  intro vm
  rw [← h.mapped]
  simp only [mappedIps, get_erase]
  split_ifs with hvm
  · subst hvm
    exact hnone.symm
  · rfl

theorem stored_addressStep (m : Machine) (x : AddressProposal × (ℕ → Env)) (h : m.Stored d)
    (hx : NothingToRelease d m x) : Stored d (m.addressStep d x) := by
  obtain ⟨op, envs⟩ := x
  cases op with
  | allocateIp req => exact stored_applyAllocateIp h (envs 0) req
  | releaseVmIps vmId =>
    show Stored d (m.applyReleaseVmIps d vmId).1
    unfold applyReleaseVmIps
    cases hr : d.runtime with
    | absent => exact h
    | driving =>
      by_cases hnone : m.mappedIps vmId = []
      · simp only [hnone, if_true]
        exact stored_release h hnone
      · simp only [hnone, if_false]
        exact h
    | blocking =>
      have hnone := hx vmId rfl hr
      simp only [hnone, foldl_nil]
      exact stored_release h hnone

theorem not_tablesAgree_of_release (h : m.Stored d) {x : AddressProposal × (ℕ → Env)}
    (hx : ¬ NothingToRelease d m x) : ¬ (m.addressStep d x).TablesAgree := by
  obtain ⟨op, envs⟩ := x
  unfold NothingToRelease at hx
  push Not at hx
  obtain ⟨vmId, rfl, hr, hips⟩ := hx
  obtain ⟨ip, hip⟩ := exists_mem_of_ne_nil _ hips
  obtain ⟨key, a, hrow, hvm, rfl⟩ := (h.tablesAgree vmId ip).2 hip
  intro ha
  have hl := (ha vmId a.ip).1 ⟨key, a, ?_, hvm, rfl⟩
  · simp only [addressStep, AddressProposal.data, applyProposal, applyOne, applyReleaseVmIps, hr,
      commit, mappedIps, get_erase, if_true, Option.bind_none, Option.getD_none] at hl
    cases hl
  · simp only [addressStep, AddressProposal.data, applyProposal, applyOne, applyReleaseVmIps, hr]
    exact hrow

theorem stored_of_empty (hs : m.ipPoolManager.Assigned d.toPlatform)
    (hl : m.ipPoolManager.allocations = ∅) (hvms : m.ipPoolManager.vmAllocations = ∅)
    (hrows : m.database.ipAllocations = ∅) (hmaps : m.database.vmIpMappings = ∅) : m.Stored d := by
  have hheld : ∀ vm, m.ipPoolManager.held vm = [] := by
    intro vm
    simp [held, hvms]
  refine ⟨hs, ?_, ?_, ?_, ?_, ?_⟩
  · intro ip a ha
    simp [hl] at ha
  · intro ip a ha
    simp [hl] at ha
  · intro vm
    rw [hheld]
    exact nodup_nil
  · intro key row
    simp [hrows, hl]
  · intro vm
    rw [hheld]
    simp [mappedIps, hmaps]

/-- **When the address tables agree** and a reload brings back the allocations, throughout a run
    from a machine whose tables describe its manager: exactly if no release has anything to release.
    -/
theorem tables_agree_iff (d : Deployment) (m : Machine) (h : m.Stored d)
    (run : List (AddressProposal × (ℕ → Env))) :
    (∀ t ∈ run.scanl (addressStep d) m, t.TablesAgree ∧ t.ReloadsAllocations d) ↔
      Run.Along (addressStep d) (NothingToRelease d) m run :=
  Run.holds_iff_along (fun m x => stored_addressStep m x)
    (fun _ hstored => ⟨hstored.tablesAgree, hstored.reloadsAllocations⟩)
    (fun _ _ hstored hx hagree => not_tablesAgree_of_release hstored hx hagree.1) h

/-! ## One address, allocated and released -/

def blockingNode : Deployment := { Deployment.raftManager with runtime := .blocking }

def onePool : Machine :=
  { Machine.new with
    ipPoolManager := (IpPoolManager.new.processCommand .release
      (.createPool (IpPoolManager.tenPool 1 10 20))).1 }

theorem stored_onePool : onePool.Stored blockingNode := by
  apply stored_of_empty
  · refine IpPoolManager.assigned_step IpPoolManager.new
      (.command (.createPool (IpPoolManager.tenPool 1 10 20)), IpPoolManager.quietEnv)
      IpPoolManager.assigned_new ?_
    intro cfg _ _ id p hp
    simp [IpPoolManager.new] at hp
  · decide +kernel
  · decide +kernel
  · rfl
  · rfl

def askFrom (n : ℕ) : AddressProposal × (ℕ → Env) :=
  (.allocateIp (IpPoolManager.requestFrom 1 n), fun _ => .still 0)

def giveBack (n : ℕ) : AddressProposal × (ℕ → Env) :=
  (.releaseVmIps (IpPoolManager.vm n), fun _ => .still 0)

/-- The address of machine 1 is allocated and released, and its row stays. -/
theorem release_leaves_address_row :
    ¬ ∀ (d : Deployment) (m : Machine), m.Stored d → ∀ run : List (AddressProposal × (ℕ → Env)),
      ∀ t ∈ run.scanl (addressStep d) m, t.TablesAgree ∧ t.ReloadsAllocations d := by
  intro h
  have hagree := (h blockingNode onePool stored_onePool [askFrom 1, giveBack 1] _
    (Run.foldl_mem_scanl onePool _)).1
  have hlisted := (hagree (IpPoolManager.vm 1) (.v4 0x0a00000a)).1
    ⟨⟨⟨1⟩, .v4 0x0a00000a⟩,
      IpPoolManager.record (Env.still 0).toPoolEnv (IpPoolManager.requestFrom 1 1) ⟨1⟩
        (.v4 0x0a00000a), by decide +kernel, rfl, rfl⟩
  exact absurd hlisted (by decide +kernel)

theorem idle_release_keeps_tables :
    Run.Along (addressStep blockingNode) (NothingToRelease blockingNode) onePool
      [askFrom 1, giveBack 2] ∧
    (∀ t ∈ [askFrom 1, giveBack 2].scanl (addressStep blockingNode) onePool,
      t.TablesAgree ∧ t.ReloadsAllocations blockingNode) ∧
    ([askFrom 1, giveBack 2].foldl (addressStep blockingNode) onePool).mappedIps
      (IpPoolManager.vm 1) = [.v4 0x0a00000a] := by
  have along : Run.Along (addressStep blockingNode) (NothingToRelease blockingNode) onePool
      [askFrom 1, giveBack 2] := by
    refine ⟨?_, ?_, trivial⟩
    · rintro vmId ⟨⟩
    · rintro vmId ⟨⟩ -
      decide +kernel
  exact ⟨along, (tables_agree_iff blockingNode onePool stored_onePool _).2 along,
    by decide +kernel⟩

end Machine

end Blixard
