/-
  The in-memory quota manager (`quota_manager.rs`, `resource_quotas.rs`), as far as
  the state machine uses it.
-/
import Blixard.IpPool.Config

namespace Blixard

inductive QuotaViolation where
  | vmLimitExceeded (limit current requested : ℕ)
  | cpuLimitExceeded (limit current requested : ℕ)
  | memoryLimitExceeded (limit current requested : ℕ)
  | diskLimitExceeded (limit current requested : ℕ)
  | perNodeVmLimitExceeded (nodeId limit current : ℕ)
  | rateLimitExceeded (operation : String) (limit current : ℕ)
  deriving DecidableEq

def debugLimit (name : String) (limit current requested : ℕ) : String :=
  name ++ s!" \x7b limit: {limit}, current: {current}, requested: {requested} \x7d"

def QuotaViolation.debug : QuotaViolation → String
  | vmLimitExceeded l c r => debugLimit "VmLimitExceeded" l c r
  | cpuLimitExceeded l c r => debugLimit "CpuLimitExceeded" l c r
  | memoryLimitExceeded l c r => debugLimit "MemoryLimitExceeded" l c r
  | diskLimitExceeded l c r => debugLimit "DiskLimitExceeded" l c r
  | perNodeVmLimitExceeded n l c =>
    s!"PerNodeVmLimitExceeded \x7b node_id: {n}, limit: {l}, current: {c} \x7d"
  | rateLimitExceeded o l c =>
    s!"RateLimitExceeded \x7b operation: \"{o}\", limit: {l}, current: {c} \x7d"

structure ResourceRequest where
  tenantId : String
  nodeId : Option ℕ
  vcpus : ℕ
  memoryMb : ℕ
  diskGb : ℕ

structure QuotaManager where
  quotas : Table String TenantQuota
  usage : Table String TenantUsage

namespace QuotaManager

def checkTotal (pf : Platform) (w limit current requested : ℕ)
    (violation : ℕ → ℕ → ℕ → QuotaViolation) : Except Failure (Option QuotaViolation) := do
  let total ← pf.addUnsigned w current requested
  return if limit < total then some (violation limit current requested) else none

def orElse (a b : Except Failure (Option QuotaViolation)) :
    Except Failure (Option QuotaViolation) := do
  match ← a with
  | some v => return some v
  | none => b

def checkLimits (pf : Platform) (quota : TenantQuota) (use : VmResourceUsage)
    (request : ResourceRequest) : Except Failure (Option QuotaViolation) :=
  let limits := quota.vmLimits
  if ¬ quota.enabled then .ok none
  else if limits.maxVms ≤ use.activeVms then
    .ok (some (.vmLimitExceeded limits.maxVms use.activeVms 1))
  else
    orElse (checkTotal pf 32 limits.maxVcpus use.usedVcpus request.vcpus .cpuLimitExceeded) <|
    orElse (checkTotal pf 64 limits.maxMemoryMb use.usedMemoryMb request.memoryMb
      .memoryLimitExceeded) <|
    orElse (checkTotal pf 64 limits.maxDiskGb use.usedDiskGb request.diskGb .diskLimitExceeded) <|
    .ok (request.nodeId.bind fun nodeId =>
      let current := (use.vmsPerNode.lookup nodeId).getD 0
      if limits.maxVmsPerNode ≤ current then
        some (.perNodeVmLimitExceeded nodeId limits.maxVmsPerNode current)
      else none)

def setCount (counts : List (ℕ × ℕ)) (nodeId n : ℕ) : List (ℕ × ℕ) :=
  if (counts.lookup nodeId).isSome then
    counts.map fun c => if c.1 = nodeId then (nodeId, n) else c
  else counts ++ [(nodeId, n)]

/-- The counts of machines; nothing is counted for a change without processors. -/
def countVm (pf : Platform) (use : VmResourceUsage) (vcpus : ℤ) (nodeId : ℕ) :
    VmResourceUsage × Except Failure Unit :=
  let current := use.vmsPerNode.lookup nodeId
  if 0 < vcpus then
    match pf.addUnsigned 32 use.activeVms 1 with
    | .error failure => (use, .error failure)
    | .ok activeVms =>
      match pf.addUnsigned 32 (current.getD 0) 1 with
      | .error failure => ({ use with activeVms }, .error failure)
      | .ok count =>
        ({ use with activeVms, vmsPerNode := setCount use.vmsPerNode nodeId count }, .ok ())
  else if vcpus < 0 then
    let vmsPerNode :=
      match current with
      | none => use.vmsPerNode
      | some count =>
        if count - 1 = 0 then use.vmsPerNode.filter fun c => c.1 ≠ nodeId
        else setCount use.vmsPerNode nodeId (count - 1)
    ({ use with activeVms := use.activeVms - 1, vmsPerNode }, .ok ())
  else (use, .ok ())

/-- `update_vm_usage`, in place: what was written before an overflow panics stays written. -/
def updateVmUsage (pf : Platform) (use : VmResourceUsage) (vcpus memoryMb diskGb : ℤ) (nodeId : ℕ) :
    VmResourceUsage × Except Failure Unit :=
  match pf.applyDelta 32 use.usedVcpus vcpus with
  | .error failure => (use, .error failure)
  | .ok usedVcpus =>
    let use := { use with usedVcpus }
    match pf.applyDelta 64 use.usedMemoryMb memoryMb with
    | .error failure => (use, .error failure)
    | .ok usedMemoryMb =>
      let use := { use with usedMemoryMb }
      match pf.applyDelta 64 use.usedDiskGb diskGb with
      | .error failure => (use, .error failure)
      | .ok usedDiskGb => countVm pf { use with usedDiskGb } vcpus nodeId

def setTenantQuota (q : QuotaManager) (quota : TenantQuota) : QuotaManager :=
  { q with quotas := q.quotas.insert quota.tenantId quota }

def removeTenantQuota (q : QuotaManager) (tenantId : String) : QuotaManager :=
  ⟨q.quotas.erase tenantId, q.usage.erase tenantId⟩

def getTenantUsage (q : QuotaManager) (tenantId : String) (now : ℤ) : TenantUsage :=
  q.usage[tenantId]?.getD (.new tenantId now)

/-- `update_resource_usage`; the tenant's usage is created if there is none. -/
def updateResourceUsage (pf : Platform) (q : QuotaManager) (tenantId : String)
    (vcpus memoryMb diskGb : ℤ) (nodeId : ℕ) (now : ℤ) : Except Failure QuotaManager :=
  let usage := q.getTenantUsage tenantId now
  let (vmUsage, result) := updateVmUsage pf usage.vmUsage vcpus memoryMb diskGb nodeId
  result.map fun _ =>
    { q with usage := q.usage.insert tenantId { usage with vmUsage, updatedAt := now } }

end QuotaManager

end Blixard
