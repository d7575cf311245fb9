/-
  Deduplication of commands (`batch_vm_commands` of `optimized_proposals.rs`).

  Of the commands that start or stop a machine only the first one is proposed, whatever comes after
  it.  The records are the same exactly if, for each machine that is left, the creations and
  migrations after its first start or stop end with the status that all commands end with
  (`records_eq_iff`).
-/
import Blixard.Raft.Clocks

namespace Blixard

open Encoded Table VmCommand

/-- The loop of `batch_vm_commands`: `seen` are the machines that were started or stopped. -/
def deduplicate (seen : List String) : List VmCommand → List VmCommand
  | [] => []
  | .start name :: cmds =>
    if name ∈ seen then deduplicate seen cmds else .start name :: deduplicate (name :: seen) cmds
  | .stop name :: cmds =>
    if name ∈ seen then deduplicate seen cmds else .stop name :: deduplicate (name :: seen) cmds
  | cmd :: cmds => cmd :: deduplicate seen cmds

/-- `batch_vm_commands`. -/
def batchVmCommands (commands : List VmCommand) : List ProposalData :=
  (deduplicate [] commands).map .createVm

/-! ## One machine -/

namespace VmCommand

variable (admits : VmConfig → ℕ → Bool) (name : String)

/-- What a command does to the record of the machine, times aside. -/
def effect (record : Option (Encoded VmView)) : VmCommand → Option (Encoded VmView)
  | .create config nodeId =>
    if config.name = name ∧ admits config nodeId then
      some (.value (VmState.view ⟨config.name, config, .creating, nodeId, 0, 0⟩))
    else record
  | .start vm => if vm = name then record.map (.map ({ · with status := .starting })) else record
  | .stop vm => if vm = name then record.map (.map ({ · with status := .stopping })) else record
  | .delete vm => if vm = name then none else record
  | .migrate task =>
    if task.vmName = name then
      record.map (.map ({ · with nodeId := task.targetNodeId, status := .stopping }))
    else record
  | .updateStatus _ _ => record

/-- The status of the machine after a command, if it is there. -/
def statusAfter (status : VmStatus) : VmCommand → VmStatus
  | .create config nodeId => if config.name = name ∧ admits config nodeId then .creating else status
  | .start vm => if vm = name then .starting else status
  | .stop vm => if vm = name then .stopping else status
  | .migrate task => if task.vmName = name then .stopping else status
  | _ => status

/-- The command starts or stops the machine. -/
def runs : VmCommand → Bool
  | .start vm | .stop vm => vm = name
  | _ => false

/-- After the first start or stop of the machine, the commands that neither start nor stop it leave
    it with the status that all commands leave it with. -/
def KeepsLast : List VmCommand → Prop
  | [] => True
  | cmd :: cmds =>
    if cmd.runs name then
      let first := cmd.statusAfter admits name .creating
      (cmds.filter fun cmd => !cmd.runs name).foldl (statusAfter admits name) first =
        cmds.foldl (statusAfter admits name) first
    else KeepsLast cmds

/-- The record without its status. -/
def shape (record : Option (Encoded VmView)) : Option (Encoded VmView) :=
  record.map (.map ({ · with status := .creating }))

variable {admits name}

theorem shape_start_or_stop {vm : String} {cmd : VmCommand} (h : cmd = .start vm ∨ cmd = .stop vm)
    (record : Option (Encoded VmView)) : shape (effect admits name record cmd) = shape record := by
  rcases h with rfl | rfl <;> simp only [effect] <;> split_ifs <;>
    rcases record with _ | _ | _ <;> rfl

variable (cmds : List VmCommand) {r r' : Option (Encoded VmView)} {status : VmStatus}

theorem shape_effect (h : shape r = shape r') (cmd : VmCommand) :
    shape (effect admits name r cmd) = shape (effect admits name r' cmd) := by
  cases cmd with
  | start vm => rwa [shape_start_or_stop (.inl rfl), shape_start_or_stop (.inl rfl)]
  | stop vm => rwa [shape_start_or_stop (.inr rfl), shape_start_or_stop (.inr rfl)]
  | create | delete => simp only [effect]; split_ifs <;> [rfl; exact h]
  | updateStatus vm st => exact h
  | migrate task =>
    simp only [effect]
    split_ifs
    · rcases r with _ | v | bytes <;> rcases r' with _ | v' | bytes' <;>
        simp_all [shape, map]
    · exact h

theorem shape_deduplicate (seen : List String) (h : shape r = shape r') :
    shape ((deduplicate seen cmds).foldl (effect admits name) r) =
      shape (cmds.foldl (effect admits name) r') := by
  fun_induction deduplicate seen cmds generalizing r r' with
  | case1 seen => exact h
  | case2 seen vm cmds _ ih => exact ih (h.trans (shape_start_or_stop (.inl rfl) r').symm)
  | case4 seen vm cmds _ ih => exact ih (h.trans (shape_start_or_stop (.inr rfl) r').symm)
  | case3 seen vm cmds _ ih | case5 seen vm cmds _ ih | case6 seen vm cmds _ _ ih =>
    exact ih (shape_effect h _)

theorem status_of_map {f : VmView → VmView}
    {v : VmView} (hv : r.map (map f) = some (.value v)) (hf : ∀ v, (f v).status = status) :
    v.status = status := by
  rcases r with _ | v' | bytes
  · cases hv
  · cases hv
    exact hf v'
  · cases hv

theorem status_effect {st : VmStatus}
    (h : ∀ v, r = some (.value v) → v.status = st) (cmd : VmCommand) (v : VmView)
    (hv : effect admits name r cmd = some (.value v)) :
    v.status = statusAfter admits name st cmd := by
  cases cmd with simp only [effect, statusAfter] at hv ⊢
  | updateStatus vm st => exact h v hv
  | delete vm =>
    split_ifs at hv
    exact h v hv
  | create cfg nid =>
    split_ifs at hv ⊢
    · cases hv
      rfl
    · exact h v hv
  | start vm | stop vm | migrate task =>
    split_ifs at hv ⊢
    · exact status_of_map hv fun _ => rfl
    · exact h v hv

theorem status_foldl (h : ∀ v, r = some (.value v) → v.status = status) :
    ∀ v, cmds.foldl (effect admits name) r = some (.value v) →
      v.status = cmds.foldl (statusAfter admits name) status := by
  induction cmds generalizing r status with
  | nil => exact h
  | cons cmd cmds ih => exact ih (status_effect h cmd)

/-- One round of the loop, as far as the machine is concerned: a start or stop of it is dropped if it
    was seen, and seen from then on. -/
theorem foldl_deduplicate_cons (cmd : VmCommand) (seen : List String) (status : VmStatus) :
    ∃ seen', (name ∈ seen' ↔ cmd.runs name ∨ name ∈ seen) ∧
      (deduplicate seen (cmd :: cmds)).foldl (statusAfter admits name) status =
        (deduplicate seen' cmds).foldl (statusAfter admits name)
          (if cmd.runs name ∧ name ∈ seen then status else statusAfter admits name status cmd) := by
  cases cmd with
  | start vm | stop vm =>
    refine ⟨if vm ∈ seen then seen else vm :: seen, ?_⟩
    by_cases hseen : vm ∈ seen <;> by_cases hvm : vm = name <;>
      simp_all [deduplicate, runs, statusAfter, eq_comm]
  | _ => exact ⟨seen, by simp [runs], by simp [deduplicate, runs]⟩

/-- Once the machine was started or stopped, its starts and stops are dropped. -/
theorem foldl_deduplicate_of_mem {seen : List String} (h : name ∈ seen) :
    (deduplicate seen cmds).foldl (statusAfter admits name) status =
      (cmds.filter fun cmd => !cmd.runs name).foldl (statusAfter admits name) status := by
  induction cmds generalizing seen status with
  | nil => rfl
  | cons cmd cmds ih =>
    obtain ⟨seen', hseen, hr⟩ := @foldl_deduplicate_cons admits name cmds cmd seen status
    rw [hr, ih (hseen.2 (.inr h))]
    cases hruns : cmd.runs name <;> simp [hruns, h]

theorem statusAfter_of_runs {cmd : VmCommand} (h : cmd.runs name) :
    statusAfter admits name status cmd = statusAfter admits name .creating cmd := by
  cases cmd <;> simp_all [runs, statusAfter]

/-- **What deduplication keeps**: the last status of the machine, exactly if what comes after its
    first start or stop allows it. -/
theorem foldl_deduplicate_iff {seen : List String} (h : name ∉ seen) :
    (deduplicate seen cmds).foldl (statusAfter admits name) status =
      cmds.foldl (statusAfter admits name) status ↔ KeepsLast admits name cmds := by
  induction cmds generalizing seen status with
  | nil => simp [KeepsLast, deduplicate]
  | cons cmd cmds ih =>
    obtain ⟨seen', hseen, hr⟩ := @foldl_deduplicate_cons admits name cmds cmd seen status
    rw [hr, if_neg fun hd => h hd.2, List.foldl_cons, KeepsLast]
    cases hruns : cmd.runs name with
    | true =>
      rw [foldl_deduplicate_of_mem cmds (hseen.2 (.inl hruns)), statusAfter_of_runs hruns]
      simp
    | false => simpa using ih fun hmem => h ((hseen.1 hmem).resolve_left (by simp [hruns]))

theorem eq_of_shape_eq (h : shape r = shape r')
    (hs : ∀ v v', r = some (.value v) → r' = some (.value v') → v.status = v'.status) :
    r = r' := by
  rcases r with _ | v | bytes <;> rcases r' with _ | v' | bytes' <;>
    simp_all [shape, map]
  cases v
  cases v'
  simp_all

end VmCommand

/-! ## The table -/

namespace Machine

variable (d : Deployment)

/-- Proposals one after another, each in surroundings of its own; a failed one changes nothing. -/
def applyAll : (ℕ → Env) → Machine → List ProposalData → Machine
  | _, m, [] => m
  | envs, m, p :: ps => applyAll (fun i => envs (i + 1)) (m.applyOne d (envs 0) p).1 ps

/-- The record of a machine, times and the order of its metadata aside. -/
def record (m : Machine) (name : String) : Option (Encoded VmView) :=
  m.database.vmStates[name]?.map (.map VmState.view)

/-- The status of a machine; any, if there is none. -/
def recordStatus (m : Machine) (name : String) : VmStatus :=
  match m.record name with
  | some (.value vm) => vm.status
  | _ => .creating

/-- Whether the creation passes the admission, which no time enters. -/
def admits (m : Machine) (config : VmConfig) (nodeId : ℕ) : Bool :=
  (m.validateVmAdmission d (.still 0) config nodeId).isOk

variable {d} {m : Machine} {env : Env}

theorem record_modifyVm (vm name : String) {chg : VmState → VmState} {f : VmView → VmView}
    (hc : ∀ v, (chg v).view = f v.view) : (m.modifyVm d env vm chg).1.record name =
      if vm = name then (m.record name).map (.map f) else m.record name := by
  unfold modifyVm record
  rcases hrow : m.database.vmStates[vm]? with _ | v | bytes
  · split_ifs with h
    · simp [commit, ← h, hrow]
    · rfl
  · simp only [commit, get_insert]
    split_ifs with h
    · rw [← h, hrow]
      simp only [Option.map_some, map, hc, view_rehash]
    · rfl
  · split_ifs with h
    · simp [abort, ← h, hrow, map]
    · rfl

variable (cmd : VmCommand)

theorem quotaManager_applyVmCommand :
    (m.applyVmCommand d env cmd).1.quotaManager = m.quotaManager := by
  have hm (vm : String) (chg : VmState → VmState) :
      (m.modifyVm d env vm chg).1.quotaManager = m.quotaManager := by
    unfold modifyVm
    split <;> rfl
  cases cmd with
  | create cfg nid =>
    simp only [applyVmCommand]
    cases m.validateVmAdmission d env cfg nid <;> rfl
  | start vm => exact hm vm _
  | stop vm => exact hm vm _
  | migrate task => exact hm task.vmName _
  | delete vm => rfl
  | updateStatus vm st => rfl

theorem admits_applyVmCommand : (m.applyVmCommand d env cmd).1.admits d = m.admits d := by
  funext config nodeId
  unfold admits validateVmAdmission checkQuota
  rw [quotaManager_applyVmCommand]

theorem record_applyVmCommand (name : String) :
    (m.applyVmCommand d env cmd).1.record name = cmd.effect (m.admits d) name (m.record name) := by
  cases cmd with
  | create cfg nid =>
    have ha : m.admits d cfg nid =
        (m.validateVmAdmission d env cfg nid).isOk := by
      rw [admits, validateVmAdmission_alike (Alike.refl m) (.still 0) env]
    rw [effect, ha, applyVmCommand]
    cases m.validateVmAdmission d env cfg nid with
    | error fail => simp [abort, Except.isOk, Except.toBool]
    | ok u =>
      have hview := @view_rehash env ⟨cfg.name, cfg, .creating, nid, 0, 0⟩
      simp only [Except.isOk, Except.toBool, and_true, ← hview]
      simp only [commit, record, get_insert]
      show Option.map _ (if cfg.name = name then _ else _) = _
      split_ifs <;> rfl
  | start vm | stop vm => exact record_modifyVm vm name fun _ => rfl
  | migrate task => exact record_modifyVm task.vmName name fun _ => rfl
  | delete vm =>
    simp only [applyVmCommand, commit, record, effect, get_erase]
    split_ifs <;> rfl
  | updateStatus vm st => rfl

theorem record_applyAll (cmds : List VmCommand) (envs : ℕ → Env) (m : Machine) (name : String) :
    (applyAll d envs m (cmds.map .createVm)).record name =
      cmds.foldl (effect (m.admits d) name) (m.record name) := by
  induction cmds generalizing envs m with
  | nil => rfl
  | cons cmd cmds ih =>
    rw [List.map_cons, applyAll, ih, List.foldl_cons, applyOne, record_applyVmCommand,
      admits_applyVmCommand]

/-- **The kept commands leave the same records** exactly if, for each machine that is there in the
    end and whose row decodes, the creations and migrations after its first start or stop set the
    status last that all commands set last. -/
theorem records_eq_iff (d : Deployment) (m : Machine) (envs envs' : ℕ → Env)
    (commands : List VmCommand) :
    let all := applyAll d envs m (commands.map .createVm)
    let batched := applyAll d envs' m (batchVmCommands commands)
    (∀ name, batched.record name = all.record name) ↔
      ∀ name vm, all.record name = some (.value vm) →
        VmCommand.KeepsLast (m.admits d) name commands := by
  intro all batched
  have hstart (name : String) (v : VmView) (hv : m.record name = some (.value v)) :
      v.status = m.recordStatus name := by rw [recordStatus, hv]
  have hall (name : String) : all.record name = _ := record_applyAll commands envs m name
  have hbatched (name : String) : batched.record name = _ := record_applyAll _ envs' m name
  constructor
  · intro h name vm hvm
    have hvm' := (h name).trans hvm
    rw [hbatched] at hvm'
    rw [hall] at hvm
    rw [← VmCommand.foldl_deduplicate_iff commands (List.not_mem_nil),
      ← VmCommand.status_foldl _ (hstart name) vm hvm,
      ← VmCommand.status_foldl _ (hstart name) vm hvm']
  · intro h name
    rw [hbatched, hall]
    refine VmCommand.eq_of_shape_eq (VmCommand.shape_deduplicate commands [] rfl) ?_
    intro v v' hv hv'
    rw [VmCommand.status_foldl _ (hstart name) v hv, VmCommand.status_foldl _ (hstart name) v' hv']
    exact (VmCommand.foldl_deduplicate_iff commands List.not_mem_nil).2
      (h name v' ((hall name).trans hv'))

/-- A machine that is created, started and stopped is left as it was started. -/
theorem stop_after_start_dropped :
    let commands := [.create { name := "vm" } 1, .start "vm", .stop "vm"]
    let status (m : Machine) := (m.database.vmStates["vm"]?.bind Encoded.decode).map VmState.status
    let envs := fun _ => Env.still 0
    status (applyAll .raftManager envs .new (commands.map .createVm)) = some .stopping ∧
      status (applyAll .raftManager envs .new (batchVmCommands commands)) = some .starting := by
  decide +kernel

end Machine

end Blixard
