/-
  What a log can do to the rows of machines: a row comes from a command that created its machine
  (`Replica.created_run`), and stays as it is while its machine is not named
  (`Replica.vmStates_run`).  The state of Raft is out of reach (`Replica.sameElsewhere_run`).
-/
import Blixard.Raft.Clocks
import Blixard.Raft.Restart

namespace Blixard

/-- The machine whose row the proposal may write. -/
def ProposalData.vmName : ProposalData → Option String
  | createVm (.create config _) => some config.name
  | createVm (.start name) | createVm (.stop name) | createVm (.delete name) => some name
  | createVm (.migrate task) => some task.vmName
  | updateVmStatus name _ _ | migrateVm name _ _ => some name
  | _ => none

/-- What a machine was created as, without the metadata, whose order varies. -/
def VmState.origin (vm : VmState) : String × VmConfig :=
  (vm.name, { vm.config with metadata := none })

/-- What a proposal can do to the rows of machines. -/
inductive VmWrite (p : ProposalData) (rows : Table String (Encoded VmState)) :
    Table String (Encoded VmState) → Prop
  | same : VmWrite p rows rows
  | create {config : VmConfig} {nodeId : ℕ} {vm : VmState}
      (hp : p = .createVm (.create config nodeId))
      (hvm : vm.origin = (config.name, { config with metadata := none })) :
      VmWrite p rows (rows.insert config.name (.value vm))
  | change {name : String} {old vm : VmState} (hp : p.vmName = some name)
      (hrow : rows[name]? = some (.value old)) (hvm : vm.origin = old.origin) :
      VmWrite p rows (rows.insert name (.value vm))
  | delete {name : String} (hp : p.vmName = some name) : VmWrite p rows (rows.erase name)

namespace VmWrite

variable {p : ProposalData} {rows rows' : Table String (Encoded VmState)} {name : String}

theorem get_of_ne (h : VmWrite p rows rows') (hp : p.vmName ≠ some name) :
    rows'[name]? = rows[name]? := by
  have ho {vm : String} (hvm : p.vmName = some vm) : vm ≠ name :=
    fun heq => hp (heq ▸ hvm)
  cases h with
  | same => rfl
  | create hc => exact (Table.get_insert ..).trans (if_neg (ho (hc ▸ rfl)))
  | change hvm => exact (Table.get_insert ..).trans (if_neg (ho hvm))
  | delete hvm => exact (Table.get_erase ..).trans (if_neg (ho hvm))

end VmWrite

/-- Each row is the one of a machine that was created under this name, with one of these
    configurations. -/
def Created (configs : Set VmConfig) (rows : Table String (Encoded VmState)) : Prop :=
  ∀ name row, rows[name]? = some row → ∃ vm, row = .value vm ∧
    ∃ config ∈ configs, config.name = name ∧
      vm.origin = (name, { config with metadata := none })

theorem VmWrite.created {p : ProposalData} {rows rows' : Table String (Encoded VmState)}
    {configs : Set VmConfig} (h : VmWrite p rows rows')
    (hp : ∀ config nodeId, p = .createVm (.create config nodeId) → config ∈ configs)
    (hrows : Created configs rows) : Created configs rows' := by
  intro name row hrow
  cases h with
  | same => exact hrows name row hrow
  | create hc hvm =>
    rcases Table.get_insert_eq_some.1 hrow with ⟨heq, rfl⟩ | ⟨-, hrow⟩
    · exact ⟨_, rfl, _, hp _ _ hc, heq, heq ▸ hvm⟩
    · exact hrows name row hrow
  | change _ hold hvm =>
    rcases Table.get_insert_eq_some.1 hrow with ⟨rfl, rfl⟩ | ⟨-, hrow⟩
    · -- the row before has an origin, which the change keeps
      obtain ⟨vm, hv, hf⟩ := hrows _ _ hold
      cases hv
      exact ⟨_, rfl, hvm ▸ hf⟩
    · exact hrows name row hrow
  | delete =>
    rw [Table.get_erase] at hrow
    split_ifs at hrow
    exact hrows name row hrow

namespace Machine

variable {d : Deployment} {m : Machine}

theorem vmWrite_modifyVm (env : Env) {p : ProposalData} {name : String} {chg : VmState → VmState}
    (hp : p.vmName = some name) (hc : ∀ vm, (chg vm).origin = vm.origin) :
    VmWrite p m.database.vmStates (m.modifyVm d env name chg).1.database.vmStates := by
  unfold modifyVm
  split
  · exact .same
  · exact .same
  next vm hrow => exact @VmWrite.change _ _ name vm _ hp hrow (hc _)

theorem vmWrite_applyOne (env : Env) (p : ProposalData) :
    VmWrite p m.database.vmStates (m.applyOne d env p).1.database.vmStates := by
  have ha := @applyOne_accounting d env m p
  cases p with
  | createVm cmd =>
    cases cmd with
    | create cfg nid =>
      rw [applyOne, applyVmCommand]
      split
      · exact .same
      · exact @VmWrite.create _ _ cfg nid _ rfl rfl
    | delete vm => exact .delete rfl
    | updateStatus => exact .same
    | start | stop | migrate => exact vmWrite_modifyVm env rfl fun _ => rfl
  | updateVmStatus | migrateVm => exact vmWrite_modifyVm env rfl fun _ => rfl
  | ipPoolCommand | allocateIp | releaseVmIps | setTenantQuota | updateTenantUsage
  | removeTenantQuota =>
    obtain ⟨_, _, _, _, hdb, -⟩ := ha rfl
    rw [hdb]
    exact .same
  | _ => exact .same

variable {I : Machine → Prop}

theorem applyBatch_keeps_members (envs : ℕ → Env) {ps : List ProposalData} (i : ℕ)
    (one : ∀ q ∈ ps, ∀ env m, I m → I (m.applyOne d env q).1) (hm : I m) :
    I (applyBatch d envs i m ps).1 := by
  induction ps generalizing i m with
  | nil => exact hm
  | cons p ps ih =>
    obtain ⟨hp, hps⟩ := List.forall_mem_cons.1 one
    have hone := hp (envs i) m hm
    rw [applyBatch]
    rcases heq : m.applyOne d (envs i) p with ⟨m', _ | _⟩ <;> rw [heq] at hone
    · exact hone
    · exact ih (i + 1) hps hone

theorem applyProposal_keeps_members (envs : ℕ → Env) {p : ProposalData}
    (one : ∀ q ∈ p.members, ∀ env m, I m → I (m.applyOne d env q).1) (hm : I m) :
    I (m.applyProposal d envs p).1 := by
  cases p with
  | batch ps => exact applyBatch_keeps_members envs 0 one hm
  | _ => exact one _ (List.mem_singleton_self _) (envs 0) m hm

end Machine

/-- The log makes the proposal, alone or in a batch. -/
def Proposes (decode : Bytes → Except String ProposalData) (log : List (Entry × (ℕ → Env)))
    (q : ProposalData) : Prop :=
  ∃ x ∈ log, ∃ p, decode x.1.data = .ok p ∧ q ∈ p.members

namespace Replica

variable (d : Deployment) (decode : Bytes → Except String ProposalData) (r : Replica)
  (log : List (Entry × (ℕ → Env)))

variable {d decode r log} in
/-- **What each proposal of a log keeps, the log keeps.** -/
theorem run_keeps {I : Machine → Prop}
    (one : ∀ q, Proposes decode log q → ∀ env m, I m → I (m.applyOne d env q).1)
    (hr : I r.machine) : I (r.run d decode log).machine := by
  induction log generalizing r with
  | nil => exact hr
  | cons x log ih =>
    refine @ih (r.step d decode x.1 x.2)
      (fun q ⟨y, hy, hq⟩ => one q ⟨y, .tail x hy, hq⟩) ?_
    rw [step]
    split_ifs
    · -- an entry that is empty or does not decode makes no proposal
      rw [Machine.applyEntry]
      split_ifs
      · exact hr
      · cases hp : decode x.1.data with
        | error => exact hr
        | ok p =>
          exact Machine.applyProposal_keeps_members x.2
            (fun q hq => one q ⟨x, .head log, p, hp, hq⟩) hr
    · exact hr

/-- **A log leaves alone what it does not name**: the row of a machine is as it was, unless a
    proposal is about this machine. -/
theorem vmStates_run (name : String) :
    (∃ q, Proposes decode log q ∧ q.vmName = some name) ∨
      (r.run d decode log).machine.database.vmStates[name]? =
        r.machine.database.vmStates[name]? := by
  by_cases h : ∃ q, Proposes decode log q ∧ q.vmName = some name
  · exact .inl h
  push Not at h
  exact .inr (run_keeps (I := fun m => m.database.vmStates[name]? =
    r.machine.database.vmStates[name]?) (fun q hq env m hm =>
      ((m.vmWrite_applyOne env q).get_of_ne (h q hq)).trans hm) rfl)

/-- **Where machines come from**: in a new cluster, whatever its log, each row decodes, is filed
    under the name of its machine and has the configuration of a command that created it. -/
theorem created_run (quotaManager : Option QuotaManager) :
    Created {config | ∃ nodeId, Proposes decode log (.createVm (.create config nodeId))}
      ((fresh quotaManager).run d decode log).machine.database.vmStates := by
  refine run_keeps (I := fun m => Created _ m.database.vmStates) (fun q hq env m hm => ?_) ?_
  · exact (m.vmWrite_applyOne env q).created (fun config nodeId heq => ⟨nodeId, heq ▸ hq⟩) hm
  · exact fun _ _ hrow => nomatch hrow.symm.trans Std.ExtTreeMap.getElem?_empty

/-- **Entries do not write the state of Raft**: over every log the stored log, the hard state and
    the membership stay as they are, with all that is not replicated. -/
theorem sameElsewhere_run :
    r.machine.database.SameElsewhere (r.run d decode log).machine.database :=
  run_keeps (I := fun m => r.machine.database.SameElsewhere m.database)
    (fun q _ env m hm => hm.trans (m.applyOne_sameElsewhere d env q)) (.refl _)

end Replica

end Blixard
