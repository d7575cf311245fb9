/-
  Rate limits of API operations (`quota_manager.rs`).

  A check counts the requests of the last minute.  Limits for an hour are divided by 60 and
  limits for a second multiplied by 60, so that it can reject an operation though its own window
  has room (`sound_iff`).  The clock may run back.
-/
import Blixard.Lib.Run
import Blixard.Quota

namespace Blixard

open Function List Std.ExtTreeMap

/-! ## Types -/

inductive ApiOperation where
  | vmCreate | vmDelete | vmStart | vmStop | clusterJoin | clusterLeave | statusQuery
  | configChange | metricsQuery
  deriving DecidableEq

def ApiOperation.all : List ApiOperation :=
  [vmCreate, vmDelete, vmStart, vmStop, clusterJoin, clusterLeave, statusQuery, configChange,
    metricsQuery]

def ApiOperation.display : ApiOperation → String
  | vmCreate => "vm_create"
  | vmDelete => "vm_delete"
  | vmStart => "vm_start"
  | vmStop => "vm_stop"
  | clusterJoin => "cluster_join"
  | clusterLeave => "cluster_leave"
  | statusQuery => "status_query"
  | configChange => "config_change"
  | metricsQuery => "metrics_query"

/-- An operation that is not tracked is one without times. -/
structure TenantRequestTracking where
  requestTimes : List ℤ
  concurrentRequests : ℕ
  operationTracking : ApiOperation → List ℤ

abbrev RateLimitState := Table String TenantRequestTracking

structure RatePlatform extends Platform where
  /-- The first time, in nanoseconds, that the clock can count. -/
  firstTime : ℤ

def RatePlatform.release : RatePlatform := { Platform.release with firstTime := 0 }

namespace RateLimit

def second : ℤ := 10 ^ 9

def rateLimitWindow : ℤ := 60 * second

def tracking (state : RateLimitState) (tenantId : String) : TenantRequestTracking :=
  state[tenantId]?.getD ⟨[], 0, fun _ => []⟩

/-! ## Checks -/

variable (pf : RatePlatform)

def operationLimit (limits : OperationLimits) : ApiOperation → Except Failure ℕ
  | .vmCreate => .ok limits.vmCreatePerMinute
  | .vmDelete => .ok limits.vmDeletePerMinute
  | .clusterJoin => .ok (limits.clusterJoinPerHour / 60)
  | .statusQuery => pf.mulUnsigned 32 limits.statusQueryPerSecond 60
  | .configChange => .ok (limits.configChangePerHour / 60)
  | _ => .ok 1000

def checkGeneral (limits : ApiRateLimits) (times : List ℤ) (concurrentRequests : ℕ) :
    Except Failure (Option QuotaViolation) := do
  let requestsInWindow := times.length % 2 ^ 32
  let most ← pf.mulUnsigned 32 limits.requestsPerSecond 60
  return if most ≤ requestsInWindow then
      some (.rateLimitExceeded "general" limits.requestsPerSecond requestsInWindow)
    else if limits.maxConcurrentRequests ≤ concurrentRequests then
      some (.rateLimitExceeded "concurrent" limits.maxConcurrentRequests concurrentRequests)
    else none

def checkOperation (limits : OperationLimits) (operation : ApiOperation) (times : List ℤ) :
    Except Failure (Option QuotaViolation) := do
  let limit ← operationLimit pf limits operation
  let current := times.length % 2 ^ 32
  return if limit ≤ current then some (.rateLimitExceeded operation.display limit current) else none

def recent (cutoff : ℤ) (times : List ℤ) : List ℤ := times.filter (cutoff < ·)

/-- `check_rate_limit` at time `now`, for a tenant with this quota; old times are dropped. -/
def checkRateLimit (quota : TenantQuota) (tenantId : String) (operation : ApiOperation) (now : ℤ)
    (state : RateLimitState) : RateLimitState × Except Failure (Option QuotaViolation) :=
  if ¬ quota.enabled then (state, .ok none)
  else
    let t := tracking state tenantId
    let cutoff := now - rateLimitWindow
    if cutoff < pf.firstTime then
      (state.insert tenantId t, .error (.panic "overflow when subtracting duration from instant"))
    else
      let t := { t with requestTimes := recent cutoff t.requestTimes }
      match checkGeneral pf quota.apiLimits t.requestTimes t.concurrentRequests with
      | .error failure => (state.insert tenantId t, .error failure)
      | .ok (some violation) => (state.insert tenantId t, .ok (some violation))
      | .ok none =>
        let times := recent cutoff (t.operationTracking operation)
        let t := { t with operationTracking := Function.update t.operationTracking operation times }
        (state.insert tenantId t, checkOperation pf quota.apiLimits.operationLimits operation times)

/-- `record_api_request` at time `now`; the count of requests under way may overflow. -/
def recordApiRequest (tenantId : String) (operation : ApiOperation) (now : ℤ)
    (state : RateLimitState) : RateLimitState × Except Failure Unit :=
  let t := tracking state tenantId
  let t := { t with requestTimes := t.requestTimes ++ [now] }
  match pf.addUnsigned 32 t.concurrentRequests 1 with
  | .error failure => (state.insert tenantId t, .error failure)
  | .ok concurrentRequests =>
    let times := t.operationTracking operation ++ [now]
    (state.insert tenantId
      { t with
        concurrentRequests
        operationTracking := Function.update t.operationTracking operation times }, .ok ())

def recordApiRequestEnd (tenantId : String) (state : RateLimitState) : RateLimitState :=
  state.modify tenantId fun t => { t with concurrentRequests := t.concurrentRequests - 1 }

def cleanUp (cutoff : ℤ) (t : TenantRequestTracking) : Option TenantRequestTracking :=
  let t := { t with
    requestTimes := recent cutoff t.requestTimes
    operationTracking := fun operation => recent cutoff (t.operationTracking operation) }
  if t.requestTimes ≠ [] ∨ 0 < t.concurrentRequests ∨
      ∃ operation ∈ ApiOperation.all, t.operationTracking operation ≠ [] then some t
  else none

/-- `cleanup_expired_rate_limits` at time `now`, which drops what is older than two windows. -/
def cleanupExpiredRateLimits (now : ℤ) (state : RateLimitState) : RateLimitState :=
  let cutoff := now - 2 * rateLimitWindow
  if cutoff < pf.firstTime then state else state.filterMap fun _ t => cleanUp cutoff t

/-! ## When an operation is rejected -/

/-- The check gets to the limit for the operation. -/
structure Reaches (state : RateLimitState) (quota : TenantQuota) (tenantId : String) (now : ℤ) :
    Prop where
  enabled : quota.enabled = true
  inTime : pf.firstTime ≤ now - rateLimitWindow
  general : checkGeneral pf quota.apiLimits
    (recent (now - rateLimitWindow) (tracking state tenantId).requestTimes)
    (tracking state tenantId).concurrentRequests = .ok none

def counted (state : RateLimitState) (tenantId : String) (operation : ApiOperation) (now : ℤ) : ℕ :=
  (recent (now - rateLimitWindow) ((tracking state tenantId).operationTracking operation)).length %
    2 ^ 32

variable {pf} {state : RateLimitState} {quota : TenantQuota} {tenantId : String}
  {operation : ApiOperation} {now : ℤ} {limit current : ℕ}

theorem display_ne_general (op : ApiOperation) :
    op.display ≠ "general" ∧ op.display ≠ "concurrent" := by
  cases op <;> decide

variable {times : List ℤ}

theorem checkGeneral_ne {lims : ApiRateLimits} {concurrentRequests : ℕ} :
    checkGeneral pf lims times concurrentRequests ≠
      .ok (some (.rateLimitExceeded operation.display limit current)) := by
  intro h
  obtain ⟨hg, hc⟩ := display_ne_general operation
  unfold checkGeneral at h
  obtain ⟨most, -, h⟩ := bind_eq_ok h
  have hsome := Except.ok.inj h
  split_ifs at hsome
  · injection hsome with hv
    injection hv with hname
    exact hg hname.symm
  · injection hsome with hv
    injection hv with hname
    exact hc hname.symm

theorem checkOperation_rejects_iff {lims : OperationLimits} :
    checkOperation pf lims operation times =
        .ok (some (.rateLimitExceeded operation.display limit current)) ↔
      operationLimit pf lims operation = .ok limit ∧ limit ≤ times.length % 2 ^ 32 ∧
        current = times.length % 2 ^ 32 := by
  unfold checkOperation
  cases hl : operationLimit pf lims operation with
  | error fail => exact iff_of_false (fun h => by cases h) fun h => by cases h.1
  | ok own =>
    show Except.ok _ = _ ↔ _
    by_cases hle : own ≤ times.length % 2 ^ 32
    · simp only [hle, if_true, Except.ok.injEq, Option.some.injEq,
        QuotaViolation.rateLimitExceeded.injEq, true_and]
      constructor
      · rintro ⟨rfl, rfl⟩
        exact ⟨rfl, hle, rfl⟩
      · rintro ⟨rfl, -, rfl⟩
        exact ⟨rfl, rfl⟩
    · simp only [hle, if_false, Except.ok.injEq, reduceCtorEq, false_iff]
      rintro ⟨rfl, hr, -⟩
      exact hle hr

/-- **An operation is rejected** exactly if the check gets to its limit, and that many
    operations are counted. -/
theorem rejects_iff : (checkRateLimit pf quota tenantId operation now state).2 =
        .ok (some (.rateLimitExceeded operation.display limit current)) ↔
      Reaches pf state quota tenantId now ∧
        operationLimit pf quota.apiLimits.operationLimits operation = .ok limit ∧
        limit ≤ counted state tenantId operation now ∧
        current = counted state tenantId operation now := by
  unfold checkRateLimit
  by_cases he : quota.enabled = true
  · rw [if_neg (not_not.2 he)]
    by_cases hlate : now - rateLimitWindow < pf.firstTime
    · simp only [hlate, if_true, reduceCtorEq, false_iff]
      exact fun h => absurd h.1.inTime (not_le_of_gt hlate)
    simp only [hlate, if_false]
    cases hg : checkGeneral pf quota.apiLimits
        (recent (now - rateLimitWindow) (tracking state tenantId).requestTimes)
        (tracking state tenantId).concurrentRequests with
    | error fail =>
      refine iff_of_false (fun h => by cases h) fun h => ?_
      rw [h.1.general] at hg
      cases hg
    | ok violation =>
      cases violation with
      | some violation =>
        refine iff_of_false (fun h => ?_) fun h => ?_
        · exact checkGeneral_ne (hg.trans h)
        · rw [h.1.general] at hg
          cases hg
      | none =>
        rw [and_iff_right (⟨he, not_lt.1 hlate, hg⟩ :
          Reaches pf state quota tenantId now)]
        exact checkOperation_rejects_iff
  · rw [if_pos he]
    exact iff_of_false (fun h => by simp at h) fun h => he h.1.enabled

end RateLimit

/-! ## Histories -/

/-- The tracked requests, with all operations that were recorded. -/
structure RateRun where
  state : RateLimitState
  history : List (String × ApiOperation × ℤ)

inductive RateEvent where
  | check (quota : TenantQuota) (tenantId : String) (operation : ApiOperation) (now : ℤ)
  | record (tenantId : String) (operation : ApiOperation) (now : ℤ)
  | finish (tenantId : String)
  | cleanup (now : ℤ)

namespace RateRun

open RateLimit

variable (pf : RatePlatform)

def start : RateRun := ⟨∅, []⟩

def step (s : RateRun) : RateEvent → RateRun
  | .check quota tenantId operation now =>
    { s with state := (checkRateLimit pf quota tenantId operation now s.state).1 }
  | .record tenantId operation now =>
    match recordApiRequest pf tenantId operation now s.state with
    | (state, .ok ()) => ⟨state, s.history ++ [(tenantId, operation, now)]⟩
    | (state, .error _) => { s with state }
  | .finish tenantId => { s with state := recordApiRequestEnd tenantId s.state }
  | .cleanup now => { s with state := cleanupExpiredRateLimits pf now s.state }

def timesOf (history : List (String × ApiOperation × ℤ)) (tenantId : String)
    (operation : ApiOperation) : List ℤ :=
  (history.filter fun r => r.1 = tenantId ∧ r.2.1 = operation).map fun r => r.2.2

def recorded (s : RateRun) (tenantId : String) (operation : ApiOperation) (now window : ℤ) : ℕ :=
  (recent (now - window) (timesOf s.history tenantId operation)).length

/-- The limit that is configured for an operation, with its own window; operations without
    one may be done a thousand times a minute. -/
def configured (limits : OperationLimits) : ApiOperation → ℕ × ℤ
  | .vmCreate => (limits.vmCreatePerMinute, 60 * second)
  | .vmDelete => (limits.vmDeletePerMinute, 60 * second)
  | .clusterJoin => (limits.clusterJoinPerHour, 3600 * second)
  | .statusQuery => (limits.statusQueryPerSecond, second)
  | .configChange => (limits.configChangePerHour, 3600 * second)
  | _ => (1000, 60 * second)

def Tracked (s : RateRun) : Prop :=
  ∀ tenantId operation, List.Sublist ((tracking s.state tenantId).operationTracking operation)
    (timesOf s.history tenantId operation)

variable {pf} {s : RateRun}

theorem timesOf_append (hist : List (String × ApiOperation × ℤ)) (tid tid' : String)
    (op op' : ApiOperation) (now : ℤ) : timesOf (hist ++ [(tid, op, now)]) tid' op' =
      timesOf hist tid' op' ++
        if tid = tid' ∧ op = op' then [now] else [] := by
  simp only [timesOf, filter_append, map_append]
  split_ifs with h <;> simp [h]

theorem Tracked.of_sublist {state : RateLimitState} (h : s.Tracked) (hless : ∀ tid op,
      List.Sublist ((tracking state tid).operationTracking op)
        ((tracking s.state tid).operationTracking op)) : Tracked { s with state } :=
  fun tid op => (hless tid op).trans (h tid op)

theorem tracking_insert (state : RateLimitState) (tenantId tenantId' : String)
    (t : TenantRequestTracking) : tracking (state.insert tenantId t) tenantId' =
      if tenantId = tenantId' then t else tracking state tenantId' := by
  unfold tracking
  rw [Table.get_insert]
  split_ifs <;> rfl

theorem checkRateLimit_state (pf : RatePlatform) (quota : TenantQuota) (tid : String)
    (op : ApiOperation) (now : ℤ) (state : RateLimitState) :
    (checkRateLimit pf quota tid op now state).1 = state ∨
      ∃ t, (checkRateLimit pf quota tid op now state).1 = state.insert tid t ∧
        ∀ op, List.Sublist (t.operationTracking op)
          ((tracking state tid).operationTracking op) := by
  simp only [checkRateLimit]
  by_cases he : quota.enabled = true
  · right
    rw [if_neg (not_not.2 he)]
    split_ifs with hlate
    · exact ⟨_, rfl, fun _ => List.Sublist.refl _⟩
    split
    · exact ⟨_, rfl, fun _ => List.Sublist.refl _⟩
    · exact ⟨_, rfl, fun _ => List.Sublist.refl _⟩
    refine ⟨_, rfl, fun op' => ?_⟩
    by_cases hsame : op' = op
    · subst hsame
      simp only [update_self]
      exact filter_sublist
    · simp only [update_of_ne hsame]
      exact List.Sublist.refl _
  · left
    rw [if_pos he]

theorem tracked_check (h : s.Tracked) (quota : TenantQuota) (tid : String)
    (op : ApiOperation) (now : ℤ) : (s.step pf (.check quota tid op now)).Tracked := by
  refine h.of_sublist fun tid' op' => ?_
  rcases checkRateLimit_state pf quota tid op now s.state with
    hs | ⟨t, hs, hless⟩
  · rw [hs]
  rw [hs, tracking_insert]
  split_ifs with hsame
  · exact hsame ▸ hless op'
  · exact List.Sublist.refl _

theorem tracked_record (h : s.Tracked) (tenantId : String) (operation : ApiOperation) (now : ℤ) :
    (s.step pf (.record tenantId operation now)).Tracked := by
  simp only [step, recordApiRequest]
  cases pf.addUnsigned 32 (tracking s.state tenantId).concurrentRequests 1 with
  | error failure =>
    refine h.of_sublist fun tenantId' operation' => ?_
    rw [tracking_insert]
    split_ifs with hsame
    · rw [← hsame]
    · exact List.Sublist.refl _
  | ok concurrentRequests =>
    intro tenantId' operation'
    simp only [tracking_insert, timesOf_append]
    by_cases ht : tenantId = tenantId'
    · subst ht
      by_cases ho : operation = operation'
      · subst ho
        simp only [if_true, and_self, update_self]
        exact (h tenantId operation).append_right _
      · simp only [if_true, update_of_ne (Ne.symm ho), ho, and_false,
          if_false, append_nil]
        exact h tenantId operation'
    · simp only [ht, if_false, false_and, append_nil]
      exact h tenantId' operation'

theorem tracked_finish (h : s.Tracked) (tid : String) : (s.step pf (.finish tid)).Tracked := by
  refine h.of_sublist fun tid' op => ?_
  unfold tracking recordApiRequestEnd
  rw [Std.ExtTreeMap.getElem?_modify]
  split_ifs with hsame
  · rw [Std.LawfulEqCmp.eq_of_compare hsame]
    cases s.state[tid']? <;> exact List.Sublist.refl _
  · exact List.Sublist.refl _

theorem cleanUp_sublist {cutoff : ℤ} {t t' : TenantRequestTracking}
    (h : cleanUp cutoff t = some t') (op : ApiOperation) :
    List.Sublist (t'.operationTracking op) (t.operationTracking op) := by
  simp only [cleanUp] at h
  split_ifs at h
  cases h
  exact filter_sublist

theorem tracked_cleanup (h : s.Tracked) (now : ℤ) : (s.step pf (.cleanup now)).Tracked := by
  refine h.of_sublist fun tid op => ?_
  unfold cleanupExpiredRateLimits
  simp only []
  split_ifs with hlate
  · exact List.Sublist.refl _
  unfold tracking
  rw [getElem?_filterMap']
  cases s.state[tid]? with
  | none => exact List.Sublist.refl _
  | some t =>
    rw [Option.bind_some]
    cases hc : cleanUp (now - 2 * rateLimitWindow) t with
    | none => exact nil_sublist _
    | some t' => exact cleanUp_sublist hc op

theorem tracked_step (s : RateRun) (event : RateEvent) (h : s.Tracked) :
    (s.step pf event).Tracked := by
  cases event with
  | check quota tid op now => exact tracked_check h quota tid op now
  | record tid op now => exact tracked_record h tid op now
  | finish tid => exact tracked_finish h tid
  | cleanup now => exact tracked_cleanup h now

theorem tracked_along (pf : RatePlatform) (evs : List RateEvent) :
    ∀ s ∈ evs.scanl (step pf) start, s.Tracked := by
  have hs : start.Tracked := by
    intro tid op
    rw [start, tracking, getElem?_empty]
    exact nil_sublist _
  exact Run.invariant (fun s event h _ => tracked_step s event h) hs
    (Run.along_true start evs)

/-! ## Sound checks -/

/-- What is promised of a check: it computes no limit that does not fit, and rejects an
    operation only if its own limit is reached in its own window. -/
structure Sound (pf : RatePlatform) (s : RateRun) (quota : TenantQuota) (tenantId : String)
    (operation : ApiOperation) (now : ℤ) : Prop where
  general_fits : quota.enabled = true → pf.firstTime ≤ now - rateLimitWindow →
    quota.apiLimits.requestsPerSecond * 60 < 2 ^ 32
  operation_fits : Reaches pf s.state quota tenantId now → operation = .statusQuery →
    quota.apiLimits.operationLimits.statusQueryPerSecond * 60 < 2 ^ 32
  rejects : ∀ limit current,
    (checkRateLimit pf quota tenantId operation now s.state).2 =
        .ok (some (.rateLimitExceeded operation.display limit current)) →
      (configured quota.apiLimits.operationLimits operation).1 ≤
        s.recorded tenantId operation now (configured quota.apiLimits.operationLimits operation).2

/-- The limit for a minute is not reached, or the configured one is. -/
def RoomOrReached (s : RateRun) (quota : TenantQuota) (tenantId : String)
    (operation : ApiOperation) (now : ℤ) (perMinute : ℕ) : Prop :=
  counted s.state tenantId operation now < perMinute ∨
    (configured quota.apiLimits.operationLimits operation).1 ≤
      s.recorded tenantId operation now (configured quota.apiLimits.operationLimits operation).2

/-- 60 times the limits for a second fit in 32 bits, and an operation with a limit for an hour or a
    second has not reached its part for a minute, or also the limit itself. -/
structure Fits (pf : RatePlatform) (s : RateRun) (quota : TenantQuota) (tenantId : String)
    (operation : ApiOperation) (now : ℤ) : Prop where
  general : quota.enabled = true → pf.firstTime ≤ now - rateLimitWindow →
    quota.apiLimits.requestsPerSecond * 60 < 2 ^ 32
  operation : Reaches pf s.state quota tenantId now →
    match operation with
    | .clusterJoin => s.RoomOrReached quota tenantId .clusterJoin now
        (quota.apiLimits.operationLimits.clusterJoinPerHour / 60)
    | .configChange => s.RoomOrReached quota tenantId .configChange now
        (quota.apiLimits.operationLimits.configChangePerHour / 60)
    | .statusQuery => quota.apiLimits.operationLimits.statusQueryPerSecond * 60 < 2 ^ 32 ∧
        s.RoomOrReached quota tenantId .statusQuery now
          (quota.apiLimits.operationLimits.statusQueryPerSecond * 60)
    | _ => True

theorem counted_le (h : s.Tracked) (tid : String) (op : ApiOperation) (now : ℤ) :
    counted s.state tid op now ≤ s.recorded tid op now rateLimitWindow :=
  (Nat.mod_le _ _).trans ((h tid op).filter _).length_le

section
variable {quota : TenantQuota} {tenantId : String} {operation : ApiOperation} {now : ℤ}
  {perMinute : ℕ}

theorem Sound.roomOrReached (h : Sound pf s quota tenantId operation now)
    (hr : Reaches pf s.state quota tenantId now)
    (hl : operationLimit pf quota.apiLimits.operationLimits operation = .ok perMinute) :
    s.RoomOrReached quota tenantId operation now perMinute := by
  rcases Nat.lt_or_ge (counted s.state tenantId operation now) perMinute with hroom | hfull
  · exact .inl hroom
  · exact .inr (h.rejects perMinute _ (rejects_iff.2 ⟨hr, hl, hfull, rfl⟩))

theorem Sound.fits (h : Sound pf s quota tenantId operation now) :
    Fits pf s quota tenantId operation now := by
  refine ⟨h.general_fits, fun hr => ?_⟩
  cases operation with
  | clusterJoin | configChange => exact h.roomOrReached hr rfl
  | statusQuery =>
    have hfits := h.operation_fits hr rfl
    exact ⟨hfits, h.roomOrReached hr (pf.mulUnsigned_of_lt hfits)⟩
  | _ => trivial

theorem RoomOrReached.reached (h : s.RoomOrReached quota tenantId operation now perMinute)
    (hfull : perMinute ≤ counted s.state tenantId operation now) :
    (configured quota.apiLimits.operationLimits operation).1 ≤
      s.recorded tenantId operation now (configured quota.apiLimits.operationLimits operation).2 :=
  h.resolve_left (Nat.not_lt.2 hfull)

theorem Fits.sound (ht : s.Tracked) (h : Fits pf s quota tenantId operation now) :
    Sound pf s quota tenantId operation now := by
  refine ⟨h.general, fun hr hs => ?_, fun limit cur hj => ?_⟩
  · subst hs
    exact (h.operation hr).1
  obtain ⟨hr, hl, hfull, -⟩ := rejects_iff.1 hj
  have ho := h.operation hr
  have hle := hfull.trans (counted_le ht tenantId operation now)
  cases operation with
  | clusterJoin | configChange =>
    cases hl
    exact ho.reached hfull
  | statusQuery =>
    have hsame : operationLimit pf quota.apiLimits.operationLimits .statusQuery =
        .ok (quota.apiLimits.operationLimits.statusQueryPerSecond * 60) :=
      pf.mulUnsigned_of_lt ho.1
    rw [hsame] at hl
    cases hl
    exact ho.2.reached hfull
  -- the others are limits for a minute
  | _ =>
    cases hl
    exact hle

end

/-- **When a check is right** after every sequence of calls, with every quota and at every time:
    exactly under `Fits`. -/
theorem sound_iff (pf : RatePlatform) (events : List RateEvent) (quota : TenantQuota)
    (tenantId : String) (operation : ApiOperation) (now : ℤ) :
    Sound pf (events.foldl (step pf) start) quota tenantId operation now ↔
      Fits pf (events.foldl (step pf) start) quota tenantId operation now := by
  have htracked := tracked_along pf events _ (Run.foldl_mem_scanl start events)
  exact ⟨Sound.fits, Fits.sound htracked⟩

/-- **The first join of an hour is rejected** under the default quota, which permits five. -/
theorem first_join_is_rejected :
    let quota := TenantQuota.new "acme" 0
    (checkRateLimit .release quota "acme" .clusterJoin (3600 * second) start.state).2 =
        .ok (some (.rateLimitExceeded "cluster_join" 0 0)) ∧
      start.recorded "acme" .clusterJoin (3600 * second) (3600 * second) = 0 ∧
      ¬ Sound .release start quota "acme" .clusterJoin (3600 * second) := by
  have hrejected : (checkRateLimit .release (.new "acme" 0) "acme" .clusterJoin (3600 * second)
      start.state).2 = .ok (some (.rateLimitExceeded "cluster_join" 0 0)) := by
    decide +kernel
  refine ⟨hrejected, rfl, fun hsound => ?_⟩
  have hreached := hsound.rejects 0 0 hrejected
  exact absurd hreached (by decide)

end RateRun

end Blixard
