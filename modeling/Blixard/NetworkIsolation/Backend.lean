/-
  The backend of `network_isolated_backend.rs`, around an inner backend.

  Its two calls find the address of a machine the same way, but `delete_vm` asks the inner backend
  after the machine is gone.  A machine without a configured address whose inner backend knew one
  keeps the rules of that address for ever.
-/
import Blixard.Types

namespace Blixard

structure InnerBackend (σ : Type*) where
  createVm : σ → VmConfig → ℕ → σ × Except BlixardError Unit
  deleteVm : σ → String → σ × Except BlixardError Unit
  listVms : σ → Except BlixardError (List (VmConfig × VmStatus))
  getVmIp : σ → String → Except BlixardError (Option String)

/-- `hash` is the hasher of the standard library. -/
structure NetworkIsolatedBackend (σ : Type*) where
  inner : InnerBackend σ
  enabled : Bool
  hash : String → ℕ

/-- The machine, address and tenant for which the isolation manager is called. -/
structure VmRules where
  vmName : String
  vmIp : String
  tenantId : String
  deriving DecidableEq

/-- What a call leaves; an error of the isolation manager is only logged. -/
structure IsolatedCall (σ : Type*) where
  inner : σ
  result : Except BlixardError Unit
  rules : Option VmRules

namespace NetworkIsolatedBackend

variable {σ : Type*}

def defaultIp (b : NetworkIsolatedBackend σ) (name : String) : String :=
  let octet3 := (b.hash name >>> 8) % 256
  let octet4 := b.hash name % 256 % 254 + 1
  s!"10.0.{octet3}.{octet4}"

def knownIp (b : NetworkIsolatedBackend σ) (s : σ) (name : String) : Option String :=
  match b.inner.getVmIp s name with
  | .ok ip => ip
  | .error _ => none

def vmIp (b : NetworkIsolatedBackend σ) (s : σ) (config : VmConfig) (name : String) : String :=
  match config.ipAddress, b.knownIp s name with
  | some ip, _ => ip
  | none, some ip => ip
  | none, none => b.defaultIp name

def createVm (b : NetworkIsolatedBackend σ) (s : σ) (config : VmConfig) (nodeId : ℕ) :
    IsolatedCall σ :=
  match b.inner.createVm s config nodeId with
  | (s, .error e) => ⟨s, .error e, none⟩
  | (s, .ok ()) =>
    ⟨s, .ok (), if b.enabled then some ⟨config.name, b.vmIp s config config.name, config.tenantId⟩
      else none⟩

def deleteVm (b : NetworkIsolatedBackend σ) (s : σ) (name : String) : IsolatedCall σ :=
  match b.inner.listVms s with
  | .error e => ⟨s, .error e, none⟩
  | .ok vms =>
    let vmInfo := vms.find? (·.1.name = name)
    match b.inner.deleteVm s name with
    | (s, .error e) => ⟨s, .error e, none⟩
    | (s, .ok ()) =>
      ⟨s, .ok (), if b.enabled then
          vmInfo.map fun (config, _) => ⟨name, b.vmIp s config name, config.tenantId⟩
        else none⟩

/-- The inner backend does not know a machine any more once it has deleted it. -/
def Forgets (b : NetworkIsolatedBackend σ) : Prop :=
  ∀ s name, (b.inner.deleteVm s name).2 = .ok () →
    b.knownIp (b.inner.deleteVm s name).1 name = none

theorem vmIp_eq (b : NetworkIsolatedBackend σ) (s : σ) (cfg : VmConfig) (name : String) :
    b.vmIp s cfg name = cfg.ipAddress.getD ((b.knownIp s name).getD (b.defaultIp name)) := by
  unfold vmIp
  cases cfg.ipAddress <;> cases b.knownIp s name <;> rfl

variable {b : NetworkIsolatedBackend σ} {rules : VmRules}

theorem vmIp_of_createVm {s : σ} {cfg : VmConfig} {nid : ℕ}
    (h : (b.createVm s cfg nid).rules = some rules) :
    rules.vmIp = b.vmIp (b.createVm s cfg nid).inner cfg cfg.name := by
  revert h
  fun_cases createVm b s cfg nid with
  | case1 s' e _ => simp
  | case2 s' _ =>
    intro h
    obtain ⟨-, h⟩ := Option.ite_none_right_eq_some.1 h
    obtain rfl := Option.some.inj h
    rfl

/-- With a backend that forgets, a deletion falls back to the default address at once. -/
theorem vmIp_of_deleteVm (hb : b.Forgets) {s : σ} {name : String}
    (h : (b.deleteVm s name).rules = some rules) :
    ∃ vms listed, b.inner.listVms s = .ok vms ∧ vms.find? (·.1.name = name) = some listed ∧
      rules.vmIp = listed.1.ipAddress.getD (b.defaultIp name) := by
  revert h
  fun_cases deleteVm b s name with
  | case1 e _ => simp
  | case2 vms hlist s' e hd => simp
  | case3 vms hlist vmInfo s' hd =>
    intro h
    obtain ⟨-, h⟩ := Option.ite_none_right_eq_some.1 h
    obtain ⟨listed, hf, rfl⟩ := Option.map_eq_some_iff.1 h
    have hr := hb s name (by rw [hd])
    rw [hd] at hr
    refine ⟨vms, listed, hlist, hf, ?_⟩
    show b.vmIp s' listed.1 name = _
    rw [vmIp_eq, hr]
    rfl

/-- A deletion removes the rules of the address they were added for exactly if the listed address,
    or else the default one, is what the creation found. -/
theorem removes_added_iff (b : NetworkIsolatedBackend σ) (hb : b.Forgets) (s later : σ)
    (config : VmConfig) (nodeId : ℕ) (vms : List (VmConfig × VmStatus))
    (listed : VmConfig × VmStatus) (hlist : b.inner.listVms later = .ok vms)
    (hfound : vms.find? (·.1.name = config.name) = some listed) (added removed : VmRules)
    (hadded : (b.createVm s config nodeId).rules = some added)
    (hremoved : (b.deleteVm later config.name).rules = some removed) :
    let known := b.knownIp (b.createVm s config nodeId).inner config.name
    let default := b.defaultIp config.name
    (removed.vmIp = added.vmIp ↔
      listed.1.ipAddress.getD default = config.ipAddress.getD (known.getD default)) ∧
    (listed.1.ipAddress = config.ipAddress →
      (removed.vmIp = added.vmIp ↔ config.ipAddress.isSome ∨ ∀ ip ∈ known, ip = default)) := by
  intro known default
  obtain ⟨vms', listed', hlist', hfound', hip⟩ := vmIp_of_deleteVm hb hremoved
  obtain rfl : vms = vms' := by simpa [hlist] using hlist'
  obtain rfl : listed = listed' := by simpa [hfound] using hfound'
  have hiff : removed.vmIp = added.vmIp ↔
      listed.1.ipAddress.getD default = config.ipAddress.getD (known.getD default) := by
    rw [hip, vmIp_of_createVm hadded, vmIp_eq]
  refine ⟨hiff, fun hkept => hiff.trans ?_⟩
  rw [hkept]
  cases config.ipAddress with
  | some ip => simp
  | none => cases known <;> simp [eq_comm]

def oneAddress : NetworkIsolatedBackend (List VmConfig) where
  inner :=
    { createVm := fun s config _ => (s ++ [config], .ok ())
      deleteVm := fun s name => (s.filter (·.name ≠ name), .ok ())
      listVms := fun s => .ok (s.map (·, .running))
      getVmIp := fun s name => .ok (if s.any (·.name = name) then some "192.168.0.5" else none) }
  enabled := true
  hash := fun _ => 0

theorem oneAddress_forgets : oneAddress.Forgets := by
  intro s name _
  simp [oneAddress, knownIp]

theorem removes_added_iff_configured :
    let config : VmConfig := { name := "vm", ipAddress := some "192.168.0.9" }
    let added := oneAddress.createVm [] config 1
    (oneAddress.deleteVm added.inner "vm").rules = added.rules ∧
      ("192.168.0.9" = "192.168.0.9" ↔ config.ipAddress.isSome ∨
        ∀ ip ∈ oneAddress.knownIp added.inner "vm", ip = oneAddress.defaultIp "vm") := by
  intro config added
  refine ⟨by decide +kernel, ?_⟩
  have h := removes_added_iff oneAddress oneAddress_forgets [] added.inner config 1
    [(config, .running)] (config, .running) rfl (by decide +kernel)
    ⟨"vm", "192.168.0.9", "default"⟩ ⟨"vm", "192.168.0.9", "default"⟩ rfl (by decide +kernel)
  exact h.2 rfl

/-- Without a configured address the rules of the known one stay. -/
theorem removes_other_address :
    let added := oneAddress.createVm [] { name := "vm" } 1
    added.rules = some ⟨"vm", "192.168.0.5", "default"⟩ ∧
      (oneAddress.deleteVm added.inner "vm").rules = some ⟨"vm", "10.0.0.1", "default"⟩ := by
  decide +kernel

end NetworkIsolatedBackend

end Blixard
