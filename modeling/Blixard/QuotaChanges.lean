/-
  Are changes of a quota all-or-nothing? (`quota_manager.rs`: `set_tenant_quota`,
  `remove_tenant_quota`, `get_tenant_quota`.)

  A change is made in memory first and then in the storage, whose error does not undo it; between
  the two steps other calls take theirs (`right_along`).
-/
import Blixard.Lib.Calls
import Blixard.Quota

namespace Blixard

open Calls QuotaManager Std.ExtTreeMap

structure QuotaStore where
  manager : QuotaManager
  quotasPoisoned : Bool
  usagePoisoned : Bool
  storage : Table String TenantQuota

/-- How the backend answers; after an error anything may be left in it. -/
inductive BackendAnswer where
  | done
  | failed (error : BlixardError) (left : Table String TenantQuota)

namespace QuotaStore

variable (c : QuotaStore)

def writeQuota (quota : TenantQuota) : Except BlixardError QuotaStore :=
  if c.quotasPoisoned then .error (.lockPoisonedInternal "quota write lock")
  else .ok { c with manager := c.manager.setTenantQuota quota }

def eraseQuota (tenantId : String) : Except BlixardError QuotaStore :=
  if c.quotasPoisoned then .error (.lockPoisonedInternal "quota write lock")
  else if c.usagePoisoned then .error (.lockPoisonedInternal "usage write lock")
  else .ok { c with manager := c.manager.removeTenantQuota tenantId }

def store (storage : Table String TenantQuota) :
    BackendAnswer → QuotaStore × Except BlixardError Unit
  | .done => ({ c with storage }, .ok ())
  | .failed error left => ({ c with storage := left }, .error error)

def saveQuotaToStorage (quota : TenantQuota) : BackendAnswer → QuotaStore × Except BlixardError Unit :=
  c.store (c.storage.insert quota.tenantId quota)

def deleteQuotaFromStorage (tenantId : String) :
    BackendAnswer → QuotaStore × Except BlixardError Unit :=
  c.store (c.storage.erase tenantId)

def findQuota (tenantId : String) : Option TenantQuota :=
  if c.quotasPoisoned then none else c.manager.quotas[tenantId]?

def setTenantQuota (quota : TenantQuota) (answer : BackendAnswer) :
    QuotaStore × Except BlixardError Unit :=
  match c.writeQuota quota with
  | .error error => (c, .error error)
  | .ok c => c.saveQuotaToStorage quota answer

def removeTenantQuota (tenantId : String) (answer : BackendAnswer) :
    QuotaStore × Except BlixardError Unit :=
  match c.eraseQuota tenantId with
  | .error error => (c, .error error)
  | .ok c => c.deleteQuotaFromStorage tenantId answer

def getTenantQuota (tenantId : String) (now : ℤ) (answer : BackendAnswer) :
    QuotaStore × TenantQuota :=
  match c.findQuota tenantId with
  | some quota => (c, quota)
  | none => ((c.setTenantQuota (.new tenantId now) answer).1, .new tenantId now)

def getTenantUsage (tenantId : String) (now : ℤ) : TenantUsage :=
  if c.usagePoisoned then .new tenantId now else c.manager.getTenantUsage tenantId now

def checkResourceQuota (pf : Platform) (request : ResourceRequest) (now : ℤ)
    (answer : BackendAnswer) : QuotaStore × Except Failure (Option QuotaViolation) :=
  let (c, quota) := c.getTenantQuota request.tenantId now answer
  (c, QuotaManager.checkLimits pf quota (c.getTenantUsage request.tenantId now).vmUsage request)

def answers (pf : Platform) (c : QuotaStore) : List (ResourceRequest × ℤ × BackendAnswer) →
    List (Except Failure (Option QuotaViolation))
  | [] => []
  | (request, now, answer) :: rest =>
    let (c, verdict) := c.checkResourceQuota pf request now answer
    verdict :: answers pf c rest

/-! ## All or nothing -/

structure Unchanged (pf : Platform) (before after : QuotaStore) : Prop where
  quotas : ∀ tenantId : String, after.manager.quotas[tenantId]? = before.manager.quotas[tenantId]?
  usage : ∀ tenantId : String, after.manager.usage[tenantId]? = before.manager.usage[tenantId]?
  answers : ∀ requests, after.answers pf requests = before.answers pf requests

def Agree (tenantId : String) : Prop := c.manager.quotas[tenantId]? = c.storage[tenantId]?

/-- An error leaves everything unchanged, and a success memory and storage in agreement. -/
def AllOrNothing (pf : Platform) (tenantId : String)
    (result : QuotaStore × Except BlixardError Unit) : Prop :=
  match result.2 with
  | .error _ => Unchanged pf c result.1
  | .ok () => result.1.Agree tenantId

structure SameMemory (c c' : QuotaStore) : Prop where
  manager : c'.manager = c.manager
  quotasPoisoned : c'.quotasPoisoned = c.quotasPoisoned
  usagePoisoned : c'.usagePoisoned = c.usagePoisoned

variable {c c' : QuotaStore} {pf : Platform} {quota : TenantQuota} {tenantId : String}

variable (ans : BackendAnswer) (storage : Table String TenantQuota)

@[simp] theorem store_manager (ans : BackendAnswer) :
    (c.store storage ans).1.manager = c.manager := by
  cases ans <;> rfl

@[simp] theorem store_quotasPoisoned (ans : BackendAnswer) :
    (c.store storage ans).1.quotasPoisoned = c.quotasPoisoned := by
  cases ans <;> rfl

@[simp] theorem store_usagePoisoned (ans : BackendAnswer) :
    (c.store storage ans).1.usagePoisoned = c.usagePoisoned := by
  cases ans <;> rfl

theorem SameMemory.setTenantQuota (h : SameMemory c c') (quota : TenantQuota)
    (ans : BackendAnswer) :
    SameMemory (c.setTenantQuota quota ans).1 (c'.setTenantQuota quota ans).1 := by
  unfold QuotaStore.setTenantQuota writeQuota saveQuotaToStorage
  rw [h.quotasPoisoned]
  split_ifs with hp
  · exact h
  constructor
  · simp only [store_manager, h.manager]
  · simp
  · simp [h.usagePoisoned]

theorem SameMemory.getTenantQuota (h : SameMemory c c') (tenantId : String) (now : ℤ)
    (answer : BackendAnswer) :
    SameMemory (c.getTenantQuota tenantId now answer).1 (c'.getTenantQuota tenantId now answer).1 ∧
      (c'.getTenantQuota tenantId now answer).2 = (c.getTenantQuota tenantId now answer).2 := by
  have hfind : c'.findQuota tenantId = c.findQuota tenantId := by
    rw [findQuota, findQuota, h.quotasPoisoned, h.manager]
  unfold QuotaStore.getTenantQuota
  rw [hfind]
  cases c.findQuota tenantId with
  | none => exact ⟨h.setTenantQuota _ answer, rfl⟩
  | some quota => exact ⟨h, rfl⟩

theorem SameMemory.answers (h : SameMemory c c')
    (requests : List (ResourceRequest × ℤ × BackendAnswer)) :
    c'.answers pf requests = c.answers pf requests := by
  induction requests generalizing c c' with
  | nil => rfl
  | cons x rest ih =>
    obtain ⟨request, now, answer⟩ := x
    obtain ⟨ha, hq⟩ := h.getTenantQuota request.tenantId now answer
    have hu : (c'.getTenantQuota request.tenantId now answer).1.getTenantUsage request.tenantId
        now = (c.getTenantQuota request.tenantId now answer).1.getTenantUsage request.tenantId now := by
      rw [QuotaStore.getTenantUsage, QuotaStore.getTenantUsage, ha.usagePoisoned, ha.manager]
    simp only [QuotaStore.answers, checkResourceQuota, hq, hu, ih ha]

theorem SameMemory.unchanged (h : SameMemory c c') : Unchanged pf c c' where
  quotas _ := by rw [h.manager]
  usage _ := by rw [h.manager]
  answers := h.answers

theorem store_allOrNothing_iff {pre : QuotaStore} {storage : Table String TenantQuota}
    {ans : BackendAnswer} (ha : c.manager.quotas[tenantId]? = storage[tenantId]?) :
    pre.AllOrNothing pf tenantId (c.store storage ans) ↔
      ans = .done ∨ Unchanged pf pre (c.store storage ans).1 := by
  cases ans with
  | done => exact iff_of_true ha (.inl rfl)
  | failed error left =>
    constructor
    · exact .inr
    · rintro (h | h)
      · cases h
      · exact h

/-- Setting a quota is all-or-nothing unless the storage fails after the quota has changed in
    memory. -/
theorem set_allOrNothing_iff : c.AllOrNothing pf quota.tenantId (c.setTenantQuota quota ans) ↔
      ans = .done ∨ c.quotasPoisoned = true ∨
        c.manager.quotas[quota.tenantId]? = some quota := by
  unfold setTenantQuota writeQuota
  by_cases hp : c.quotasPoisoned = true
  · rw [if_pos hp]
    exact iff_of_true (SameMemory.unchanged ⟨rfl, rfl, rfl⟩) (.inr (.inl hp))
  rw [if_neg hp]
  refine (store_allOrNothing_iff (by simp [QuotaManager.setTenantQuota])).trans
    (or_congr_right ?_)
  constructor
  · intro hsame
    have hq := hsame.quotas quota.tenantId
    rw [store_manager, QuotaManager.setTenantQuota, Table.get_insert, if_pos rfl] at hq
    exact .inr hq.symm
  rintro (h | hq)
  · exact absurd h hp
  · have hsame : c.manager.setTenantQuota quota = c.manager := by
      rw [QuotaManager.setTenantQuota, Table.insert_of_get hq]
    exact SameMemory.unchanged ⟨by rw [store_manager, hsame], by simp, by simp⟩

/-- Removing a quota is all-or-nothing unless the storage fails after the quota or the usage
    was removed from memory. -/
theorem remove_allOrNothing_iff : c.AllOrNothing pf tenantId (c.removeTenantQuota tenantId ans) ↔
      ans = .done ∨ c.quotasPoisoned = true ∨ c.usagePoisoned = true ∨
        c.manager.quotas[tenantId]? = none ∧ c.manager.usage[tenantId]? = none := by
  unfold removeTenantQuota eraseQuota
  by_cases ht : c.quotasPoisoned = true
  · rw [if_pos ht]
    exact iff_of_true (SameMemory.unchanged ⟨rfl, rfl, rfl⟩) (.inr (.inl ht))
  rw [if_neg ht]
  by_cases hu : c.usagePoisoned = true
  · rw [if_pos hu]
    exact iff_of_true (SameMemory.unchanged ⟨rfl, rfl, rfl⟩) (.inr (.inr (.inl hu)))
  rw [if_neg hu]
  refine (store_allOrNothing_iff (by simp [QuotaManager.removeTenantQuota])).trans
    (or_congr_right ?_)
  constructor
  · intro hsame
    have hq := hsame.quotas tenantId
    have huse := hsame.usage tenantId
    rw [store_manager, QuotaManager.removeTenantQuota, Table.get_erase, if_pos rfl]
      at hq huse
    exact .inr (.inr ⟨hq.symm, huse.symm⟩)
  · rintro (h | h | ⟨hq, huse⟩)
    · exact absurd h ht
    · exact absurd h hu
    have hsame : c.manager.removeTenantQuota tenantId = c.manager := by
      rw [QuotaManager.removeTenantQuota, Table.erase_of_get_none hq,
        Table.erase_of_get_none huse]
    exact SameMemory.unchanged ⟨by rw [store_manager, hsame], by simp, by simp⟩

end QuotaStore

/-! ## Calls next to each other -/

inductive QuotaCall where
  | notBegun
  | saving (quota : TenantQuota)
  | deleting (tenantId : String)
  | missing (default : TenantQuota)
  | savingDefault (default : TenantQuota)
  | changed (result : Except BlixardError Unit)
  | got (quota : TenantQuota)

inductive QuotaStep where
  | setTenantQuota (quota : TenantQuota)
  | removeTenantQuota (tenantId : String)
  | getTenantQuota (tenantId : String) (now : ℤ)
  | setDefault
  | store (answer : BackendAnswer)

namespace QuotaStore

variable (c : QuotaStore)

def act : QuotaCall → QuotaStep → QuotaStore × QuotaCall
  | .notBegun, .setTenantQuota quota =>
    match c.writeQuota quota with
    | .error error => (c, .changed (.error error))
    | .ok c => (c, .saving quota)
  | .notBegun, .removeTenantQuota tenantId =>
    match c.eraseQuota tenantId with
    | .error error => (c, .changed (.error error))
    | .ok c => (c, .deleting tenantId)
  | .notBegun, .getTenantQuota tenantId now =>
    match c.findQuota tenantId with
    | some quota => (c, .got quota)
    | none => (c, .missing (.new tenantId now))
  | .missing quota, .setDefault =>
    -- an error of `set_tenant_quota` is not looked at here
    match c.writeQuota quota with
    | .error _ => (c, .got quota)
    | .ok c => (c, .savingDefault quota)
  | .saving quota, .store answer =>
    let (c, result) := c.saveQuotaToStorage quota answer
    (c, .changed result)
  | .deleting tenantId, .store answer =>
    let (c, result) := c.deleteQuotaFromStorage tenantId answer
    (c, .changed result)
  | .savingDefault quota, .store answer => ((c.saveQuotaToStorage quota answer).1, .got quota)
  | call, _ => (c, call)

inductive Does (c : QuotaStore) : QuotaStep → QuotaCall → QuotaStore → QuotaCall → Prop where
  | nothing {step call} : Does c step call c call
  | refuse {step} (error : BlixardError) : Does c step .notBegun c (.changed (.error error))
  | set {quota} : Does c (.setTenantQuota quota) .notBegun
      { c with manager := c.manager.setTenantQuota quota } (.saving quota)
  | remove {tenantId} : Does c (.removeTenantQuota tenantId) .notBegun
      { c with manager := c.manager.removeTenantQuota tenantId } (.deleting tenantId)
  | find {step} (quota : TenantQuota) : Does c step .notBegun c (.got quota)
  | miss {tenantId now} (h : c.findQuota tenantId = none) :
    Does c (.getTenantQuota tenantId now) .notBegun c (.missing (.new tenantId now))
  | noDefault {quota} : Does c .setDefault (.missing quota) c (.got quota)
  | setDefault {quota} (h : c.quotasPoisoned = false) : Does c .setDefault (.missing quota)
      { c with manager := c.manager.setTenantQuota quota } (.savingDefault quota)
  | save {quota} (answer : BackendAnswer) (result : Except BlixardError Unit) :
    Does c (.store answer) (.saving quota) (c.saveQuotaToStorage quota answer).1 (.changed result)
  | delete {tenantId} (answer : BackendAnswer) (result : Except BlixardError Unit) :
    Does c (.store answer) (.deleting tenantId) (c.deleteQuotaFromStorage tenantId answer).1
      (.changed result)
  | saveDefault {quota} (answer : BackendAnswer) :
    Does c (.store answer) (.savingDefault quota) (c.saveQuotaToStorage quota answer).1 (.got quota)

theorem does_act (call : QuotaCall) (step : QuotaStep) :
    Does c step call (c.act call step).1 (c.act call step).2 := by
  fun_cases act c call step with
  | case1 | case3 => exact .refuse _
  | case2 quota _ hset =>
    unfold writeQuota at hset
    split_ifs at hset
    cases hset
    exact .set
  | case4 tid _ he =>
    unfold eraseQuota at he
    split_ifs at he
    cases he
    exact .remove
  | case5 _ _ quota => exact .find quota
  | case6 _ _ hfind => exact .miss hfind
  | case7 => exact .noDefault
  | case8 _ _ hset =>
    unfold writeQuota at hset
    split_ifs at hset with hp
    cases hset
    exact .setDefault (Bool.eq_false_of_not_eq_true hp)
  | case9 _ ans _ res hsave =>
    obtain rfl := congrArg Prod.fst hsave
    exact .save ans res
  | case10 _ ans _ res hd =>
    obtain rfl := congrArg Prod.fst hd
    exact .delete ans res
  | case11 _ ans => exact .saveDefault ans
  | case12 => exact .nothing

theorem act_setTenantQuota (quota : TenantQuota) (ans : BackendAnswer) :
    [.setTenantQuota quota, .store ans].foldl (fun r a => r.1.act r.2 a) (c, .notBegun) =
      ((c.setTenantQuota quota ans).1, .changed (c.setTenantQuota quota ans).2) := by
  simp only [List.foldl, act, setTenantQuota]
  cases c.writeQuota quota <;> rfl

theorem act_removeTenantQuota (tid : String) (ans : BackendAnswer) :
    [.removeTenantQuota tid, .store ans].foldl (fun r a => r.1.act r.2 a) (c, .notBegun) =
      ((c.removeTenantQuota tid ans).1, .changed (c.removeTenantQuota tid ans).2) := by
  simp only [List.foldl, act, removeTenantQuota]
  cases c.eraseQuota tid <;> rfl

end QuotaStore

namespace QuotaCall

def tenant : QuotaCall → Option String
  | saving quota | missing quota | savingDefault quota => some quota.tenantId
  | deleting tenantId => some tenantId
  | notBegun | changed _ | got _ => none

def NotBoth (call call' : QuotaCall) : Prop :=
  ∀ tenantId, call.tenant = some tenantId → call'.tenant ≠ some tenantId

def Holds (c : QuotaStore) : QuotaCall → Prop
  | saving quota | savingDefault quota => c.manager.quotas[quota.tenantId]? = some quota
  | deleting tenantId => c.manager.quotas[tenantId]? = none
  | missing quota => c.findQuota quota.tenantId = none
  | notBegun | changed _ | got _ => True

end QuotaCall

def QuotaStep.tenant (c : QuotaStore) : QuotaStep → Option String
  | setTenantQuota quota => some quota.tenantId
  | removeTenantQuota tenantId => some tenantId
  | getTenantQuota tenantId _ => if (c.findQuota tenantId).isSome then none else some tenantId
  | setDefault | store _ => none

abbrev QuotaSystem := Calls.System QuotaStore QuotaCall

namespace QuotaSystem

open QuotaCall

def step : QuotaSystem → ℕ × QuotaStep → QuotaSystem := Calls.System.step QuotaStore.act

/-- The step sets no default in memory where a quota has been set, and does not return from the
    storage while memory and storage differ. -/
def Right (s : QuotaSystem) (x : ℕ × QuotaStep) : Prop :=
  match s.calls x.1, x.2 with
  | .missing quota, .setDefault => s.shared.findQuota quota.tenantId = none
  | .saving quota, .store .done | .savingDefault quota, .store .done =>
    (s.step x).shared.Agree quota.tenantId
  | .deleting tenantId, .store .done => (s.step x).shared.Agree tenantId
  | _, _ => True

/-- No call begins to change the quota of a tenant while another one is changing it. -/
def Apart (c : QuotaStore) (x : ℕ × QuotaStep) (call : QuotaCall) : Prop :=
  x.2.tenant c = none ∨ x.2.tenant c ≠ call.tenant

instance (c : QuotaStore) (x : ℕ × QuotaStep) (call : QuotaCall) : Decidable (Apart c x call) :=
  inferInstanceAs (Decidable (_ ∨ _))

/-- Calls that are changing quotas are changing those of different tenants, and find them as
    they left them. -/
structure Separate (s : QuotaSystem) : Prop where
  notBoth : ∀ i j, i ≠ j → NotBoth (s.calls i) (s.calls j)
  holds : ∀ i, Holds s.shared (s.calls i)

variable {s : QuotaSystem} {i : ℕ} {a : QuotaStep} {c c' : QuotaStore} {call call' : QuotaCall}

variable {tenantId : String}

theorem findQuota_congr (hp : c'.quotasPoisoned = c.quotasPoisoned)
    (hq : c'.manager.quotas[tenantId]? = c.manager.quotas[tenantId]?) :
    c'.findQuota tenantId = c.findQuota tenantId := by
  rw [QuotaStore.findQuota, QuotaStore.findQuota, hp, hq]

theorem holds_congr (h : Holds c call) (hp : c'.quotasPoisoned = c.quotasPoisoned)
    (hq : ∀ tid, call.tenant = some tid →
      c'.manager.quotas[tid]? = c.manager.quotas[tid]?) : Holds c' call := by
  cases call with
  | saving | savingDefault | deleting => exact (hq _ rfl).trans h
  | missing quota => exact (findQuota_congr hp (hq _ rfl)).trans h
  | notBegun | changed | got => trivial

theorem tenant_of_does (h : c.Does a call c' call') (ht : call'.tenant = some tenantId) :
    call.tenant = some tenantId ∨ a.tenant c = some tenantId := by
  cases h with
  | nothing => exact .inl ht
  | set | remove => exact .inr ht
  | miss hfind =>
    exact .inr (by simpa [QuotaStep.tenant, hfind, tenant, TenantQuota.new] using ht)
  | setDefault => exact .inl ht
  | refuse | find | noDefault | save | delete | saveDefault => cases ht

theorem quotas_of_does (h : c.Does a call c' call')
    (hcall : call.tenant ≠ some tenantId) (ha : a.tenant c ≠ some tenantId) :
    c'.manager.quotas[tenantId]? = c.manager.quotas[tenantId]? := by
  cases h with
  | nothing | refuse | find | miss | noDefault => rfl
  | @set quota | @setDefault quota =>
    have hne : quota.tenantId ≠ tenantId := fun heq => by simp_all [QuotaStep.tenant, tenant]
    simp [setTenantQuota, Table.get_insert, hne]
  | @remove removed =>
    have hne : removed ≠ tenantId := fun heq => by simp_all [QuotaStep.tenant]
    simp [removeTenantQuota, Table.get_erase, hne]
  | save | delete | saveDefault =>
    simp [QuotaStore.saveQuotaToStorage, QuotaStore.deleteQuotaFromStorage]

theorem quotasPoisoned_of_does (h : c.Does a call c' call') :
    c'.quotasPoisoned = c.quotasPoisoned := by
  cases h with
  | save | delete | saveDefault =>
    simp [QuotaStore.saveQuotaToStorage, QuotaStore.deleteQuotaFromStorage]
  | _ => rfl

theorem holds_of_does (h : c.Does a call c' call') (hcall : Holds c call) : Holds c' call' := by
  cases h with
  | nothing => exact hcall
  | set | setDefault => simp [Holds, setTenantQuota]
  | remove => simp [Holds, removeTenantQuota]
  | miss hfind => exact hfind
  | refuse | find | noDefault | save | delete | saveDefault => trivial

theorem separate_step (h : Separate s) (ha : Calls.Others Apart s (i, a)) :
    Separate (s.step (i, a)) := by
  have hdoes := s.shared.does_act (s.calls i) a
  -- the tenant of the call that takes the step is no other call's
  have ho (j : ℕ) (hj : j ≠ i) (tenantId : String)
      (ht : (s.calls j).tenant = some tenantId) :
      (s.calls i).tenant ≠ some tenantId ∧ a.tenant s.shared ≠ some tenantId := by
    refine ⟨h.notBoth j i hj tenantId ht, fun hg => ?_⟩
    rcases ha j hj with hnone | hne
    · exact absurd (hg.symm.trans hnone) (Option.some_ne_none _)
    · exact hne (hg.trans ht.symm)
  constructor
  · intro j k hjk
    refine pairwise_calls_put (fun _ _ hab tenantId hb ha => hab tenantId ha hb)
      (fun j hj tenantId ht hr => ?_) h.notBoth hjk
    obtain ⟨hcall, hg⟩ := ho j hj tenantId hr
    rcases tenant_of_does hdoes ht with hsame | hnew
    · exact hcall hsame
    · exact hg hnew
  · refine forall_calls_put (P := fun _ => Holds _) (holds_of_does hdoes (h.holds i))
      fun j hj => ?_
    refine holds_congr (h.holds j) (quotasPoisoned_of_does hdoes) fun tenantId ht => ?_
    obtain ⟨hcall, hg⟩ := ho j hj tenantId ht
    exact quotas_of_does hdoes hcall hg

theorem right_of_separate (h : Separate s) : Right s (i, a) := by
  have hl := h.holds i
  unfold Right
  simp only [step, step_shared]
  cases hcall : s.calls i with
  | notBegun | changed | got => trivial
  | missing quota =>
    rw [hcall] at hl
    cases a with
    | setDefault => exact hl
    | _ => trivial
  | saving quota | savingDefault quota =>
    rw [hcall] at hl
    rcases a with _ | _ | _ | _ | (_ | _)
    case store.done => exact hl.trans getElem?_insert_self.symm
    all_goals trivial
  | deleting tid =>
    rw [hcall] at hl
    rcases a with _ | _ | _ | _ | (_ | _)
    case store.done => exact hl.trans getElem?_erase_self.symm
    all_goals trivial

theorem separate_start (c : QuotaStore) : Separate (.start c .notBegun) where
  notBoth _ _ _ _ h := by cases h
  holds _ := trivial

theorem right_along {run : List (ℕ × QuotaStep)}
    (h : Run.Along step (Calls.Others Apart) (.start c .notBegun) run) :
    Run.Along step Right (.start c .notBegun) run :=
  Run.along_of_invariant (fun s _ (hs : Separate s) hx => separate_step hs hx)
    (fun s _ (hs : Separate s) _ => right_of_separate hs) (separate_start c) h

/-! ## All calls -/

/-- When the changes are all-or-nothing, call by call and next to each other. -/
theorem changes_allOrNothing (pf : Platform) :
    (∀ (c : QuotaStore) (quota : TenantQuota) (answer : BackendAnswer),
      c.AllOrNothing pf quota.tenantId (c.setTenantQuota quota answer) ↔
        answer = .done ∨ c.quotasPoisoned = true ∨
          c.manager.quotas[quota.tenantId]? = some quota) ∧
    (∀ (c : QuotaStore) (tenantId : String) (answer : BackendAnswer),
      c.AllOrNothing pf tenantId (c.removeTenantQuota tenantId answer) ↔
        answer = .done ∨ c.quotasPoisoned = true ∨ c.usagePoisoned = true ∨
          c.manager.quotas[tenantId]? = none ∧ c.manager.usage[tenantId]? = none) ∧
    ∀ (c : QuotaStore) (run : List (ℕ × QuotaStep)),
      Run.Along step (Calls.Others Apart) (.start c .notBegun) run →
        Run.Along step Right (.start c .notBegun) run :=
  ⟨fun _ _ => QuotaStore.set_allOrNothing_iff, fun _ _ => QuotaStore.remove_allOrNothing_iff,
    fun _ _ => right_along⟩

def noQuotas : QuotaStore := ⟨⟨∅, ∅⟩, false, false, ∅⟩

def tenMachines : TenantQuota := { TenantQuota.new "acme" 0 with vmLimits := { maxVms := 10 } }

def twoTenants : List (ℕ × QuotaStep) :=
  [(0, .setTenantQuota tenMachines), (1, .getTenantQuota "umbra" 0), (1, .setDefault),
    (1, .store .done), (0, .store .done)]

theorem changes_allOrNothing_twoTenants :
    Run.Along step (Calls.Others Apart) (.start noQuotas .notBegun) twoTenants ∧
      Run.Along step Right (.start noQuotas .notBegun) twoTenants := by
  have hapart : Run.Along step (Calls.Others Apart) (.start noQuotas .notBegun) twoTenants := by
    refine Calls.along_others .notBegun (fun c x => ?_) [0, 1] (by decide) (fun _ _ => rfl)
      (by decide +kernel)
    exact (eq_or_ne (x.2.tenant c) none)
  exact ⟨hapart, (changes_allOrNothing ⟨true, IpNet.contains, 0, fun _ _ => 0⟩).2.2 noQuotas
    twoTenants hapart⟩

/-- A look finds no quota, then one is set, and then the default. -/
def defaultLast : List (ℕ × QuotaStep) :=
  [(0, .getTenantQuota "acme" 0), (1, .setTenantQuota tenMachines), (1, .store .done),
    (0, .setDefault)]

/-- The storage fails and the quota is set all the same; a default replaces a quota that was
    set after the look. -/
theorem failed_change_stays :
    let pf : Platform := ⟨true, IpNet.contains, 0, fun _ _ => 0⟩
    (¬ ∀ (c : QuotaStore) (quota : TenantQuota) (answer : BackendAnswer),
      c.AllOrNothing pf quota.tenantId (c.setTenantQuota quota answer)) ∧
    (¬ ∀ (c : QuotaStore) (tenantId : String) (answer : BackendAnswer),
      c.AllOrNothing pf tenantId (c.removeTenantQuota tenantId answer)) ∧
    ¬ ∀ (c : QuotaStore) (run : List (ℕ × QuotaStep)),
      Run.Along step Right (.start c .notBegun) run := by
  intro pf
  refine ⟨fun h => ?_, fun h => ?_, fun h => ?_⟩
  · have hset := h noQuotas tenMachines (.failed (.storage "save_tenant_quota" "disk full") ∅)
    rw [QuotaStore.set_allOrNothing_iff] at hset
    rcases hset with hset | hset | hset
    · cases hset
    · cases hset
    · exact absurd hset (by decide +kernel)
  · have hremove := h { noQuotas with manager := ⟨{("acme", tenMachines)}, ∅⟩ } "acme"
      (.failed (.storage "delete_tenant_quota" "disk full") ∅)
    rw [QuotaStore.remove_allOrNothing_iff] at hremove
    rcases hremove with hremove | hremove | hremove | ⟨hremove, -⟩
    · cases hremove
    · cases hremove
    · cases hremove
    · exact absurd hremove (by decide +kernel)
  · obtain ⟨-, -, -, hdefault, -⟩ := h noQuotas defaultLast
    have hfree : ((defaultLast.take 3).foldl step (.start noQuotas .notBegun)).shared.findQuota
        "acme" = none := hdefault
    exact absurd hfree (by decide +kernel)

end QuotaSystem

end Blixard
