/-
  Cleanups of the rate limits (`quota_manager.rs`), between the calls of a history.

  A cleanup drops what is older than two windows, and tenants of whom nothing is left.  A
  check counts one window only: what it sees of a tenant (`seen`) is the same with and
  without cleanups, as long as the clock does not run back (`answers_without_cleanups`).
-/
import Blixard.RateLimit

namespace Blixard

open Function List RateEvent

namespace RateLimit

def trim (cutoff : ℤ) (t : TenantRequestTracking) : TenantRequestTracking :=
  ⟨recent cutoff t.requestTimes, t.concurrentRequests,
    fun operation => recent cutoff (t.operationTracking operation)⟩

/-- What a check at time `now`, or later, can see of a tenant. -/
def seen (now : ℤ) (state : RateLimitState) (tenantId : String) : TenantRequestTracking :=
  trim (now - rateLimitWindow) (tracking state tenantId)

variable {pf : RatePlatform} {state state' : RateLimitState} {now later : ℤ}

variable {tid : String} {t t' : TenantRequestTracking} {cutoff cutoff' : ℤ}

theorem recent_recent (h : cutoff ≤ cutoff') (times : List ℤ) :
    recent cutoff' (recent cutoff times) = recent cutoff' times := by
  simp only [recent, filter_filter]
  exact filter_congr fun time _ => by simpa using h.trans_lt

theorem trim_trim (h : cutoff ≤ cutoff') (t : TenantRequestTracking) :
    trim cutoff' (trim cutoff t) = trim cutoff' t := by
  simp only [trim, recent_recent h]

theorem seen_mono (h : now ≤ later) (hseen : seen now state = seen now state') :
    seen later state = seen later state' := by
  funext tenantId
  have htrim := congrArg (trim (later - rateLimitWindow)) (congrFun hseen tenantId)
  simpa only [seen, trim_trim (sub_le_sub_right h rateLimitWindow)] using htrim

theorem trim_eq_iff : trim cutoff t = trim cutoff t' ↔
    recent cutoff t.requestTimes = recent cutoff t'.requestTimes ∧
      t.concurrentRequests = t'.concurrentRequests ∧ ∀ op, recent cutoff (t.operationTracking op) =
          recent cutoff (t'.operationTracking op) := by
  simp only [trim, TenantRequestTracking.mk.injEq, funext_iff]

theorem seen_insert (h : seen now state = seen now state')
    (ht : trim (now - rateLimitWindow) t = trim (now - rateLimitWindow) t') :
    seen now (state.insert tid t) = seen now (state'.insert tid t') := by
  funext other
  simp only [seen, RateRun.tracking_insert]
  split_ifs
  · exact ht
  · exact congrFun h other

theorem seen_insert_self (ht : trim (now - rateLimitWindow) t = seen now state tid) :
    seen now (state.insert tid t) = seen now state := by
  funext other
  rw [seen, RateRun.tracking_insert]
  split_ifs with hsame
  · rw [ht, hsame]
  · rfl

theorem seen_checkRateLimit (quota : TenantQuota) (tid : String) (op : ApiOperation) :
    seen now (checkRateLimit pf quota tid op now state).1 = seen now state := by
  fun_cases checkRateLimit pf quota tid op now state with
  | case1 => rfl
  | case2 => exact seen_insert_self rfl
  | case3 | case4 =>
    exact seen_insert_self (trim_eq_iff.2 ⟨recent_recent le_rfl _, rfl, fun _ => rfl⟩)
  | case5 =>
    refine seen_insert_self (trim_eq_iff.2 ⟨recent_recent le_rfl _, rfl, fun op' => ?_⟩)
    by_cases h : op' = op
    · subst h
      exact (congrArg _ (update_self ..)).trans (recent_recent le_rfl _)
    · exact congrArg _ (update_of_ne h ..)

theorem answer_of_seen (h : seen now state = seen now state') (quota : TenantQuota)
    (tid : String) (op : ApiOperation) : (checkRateLimit pf quota tid op now state).2 =
      (checkRateLimit pf quota tid op now state').2 := by
  obtain ⟨ht, hc, ho⟩ := trim_eq_iff.1 (congrFun h tid)
  simp only [checkRateLimit, ht, hc, ho]
  split_ifs
  · rfl
  · split <;> rfl
  · rfl

theorem seen_recordApiRequest (h : seen now state = seen now state') (tid : String)
    (op : ApiOperation) : seen now (recordApiRequest pf tid op now state).1 =
      seen now (recordApiRequest pf tid op now state').1 := by
  obtain ⟨ht, hc, ho⟩ := trim_eq_iff.1 (congrFun h tid)
  have hpush (times times' : List ℤ)
      (heq : recent (now - rateLimitWindow) times = recent (now - rateLimitWindow) times') :
      recent (now - rateLimitWindow) (times ++ [now]) =
        recent (now - rateLimitWindow) (times' ++ [now]) := by
    simp only [recent, filter_append] at heq ⊢
    rw [heq]
  simp only [recordApiRequest, hc]
  cases pf.addUnsigned 32 (tracking state' tid).concurrentRequests 1 with
  | error fail => exact seen_insert h (trim_eq_iff.2 ⟨hpush _ _ ht, rfl, ho⟩)
  | ok concurrentRequests =>
    refine seen_insert h (trim_eq_iff.2 ⟨hpush _ _ ht, rfl, fun op' => ?_⟩)
    by_cases hsame : op' = op
    · subst hsame
      simpa using hpush _ _ (ho op')
    · simpa [update_of_ne hsame] using ho op'

theorem tracking_recordApiRequestEnd (state : RateLimitState) (tid other : String) :
    tracking (recordApiRequestEnd tid state) other =
      let t := tracking state other
      if tid = other then { t with concurrentRequests := t.concurrentRequests - 1 } else t := by
  rw [tracking, recordApiRequestEnd, Table.get_modify, tracking]
  split_ifs <;> cases state[other]? <;> rfl

theorem seen_recordApiRequestEnd (h : seen now state = seen now state') (tid : String) :
    seen now (recordApiRequestEnd tid state) = seen now (recordApiRequestEnd tid state') := by
  funext other
  obtain ⟨ht, hc, ho⟩ := trim_eq_iff.1 (congrFun h other)
  simp only [seen, tracking_recordApiRequestEnd]
  split_ifs
  · exact trim_eq_iff.2 ⟨ht, by simp [hc], ho⟩
  · exact congrFun h other

theorem seen_cleanupExpiredRateLimits :
    seen now (cleanupExpiredRateLimits pf now state) = seen now state := by
  unfold cleanupExpiredRateLimits
  dsimp only
  split_ifs
  · rfl
  funext tenantId
  have hc : now - 2 * rateLimitWindow ≤ now - rateLimitWindow := by
    simp only [rateLimitWindow, second]
    omega
  simp only [seen, tracking, Std.ExtTreeMap.getElem?_filterMap']
  cases state[tenantId]? with
  | none => rfl
  | some t =>
    simp only [Option.bind_some, cleanUp]
    split_ifs with hleft
    · exact trim_trim hc t
    -- nothing is left of the tenant, so nothing is seen of it
    simp only [not_or, not_not, not_exists, not_and, Nat.not_lt, Nat.le_zero] at hleft
    obtain ⟨ht, hn, ho⟩ := hleft
    refine trim_eq_iff.2 ⟨?_, hn.symm, fun op => ?_⟩
    · rw [Option.getD_some, ← recent_recent hc t.requestTimes, ht]
      rfl
    have hall : op ∈ ApiOperation.all := by cases op <;> decide
    rw [Option.getD_some, ← recent_recent hc (t.operationTracking op),
      ho op hall]
    rfl

end RateLimit

namespace RateEvent

def isCleanup : RateEvent → Bool
  | cleanup _ => true
  | _ => false

def time : RateEvent → Option ℤ
  | check _ _ _ now | record _ _ now | cleanup now => some now
  | finish _ => none

end RateEvent

namespace RateRun

open RateLimit

def answer (pf : RatePlatform) (s : RateRun) :
    RateEvent → Option (Except Failure (Option QuotaViolation))
  | .check quota tenantId operation now =>
    some (checkRateLimit pf quota tenantId operation now s.state).2
  | _ => none

def answers (pf : RatePlatform) (s : RateRun) :
    List RateEvent → List (Except Failure (Option QuotaViolation))
  | [] => []
  | event :: events => (answer pf s event).toList ++ answers pf (s.step pf event) events

variable {pf : RatePlatform} {s s' : RateRun}

theorem state_record (tid : String) (op : ApiOperation) (now : ℤ) :
    (s.step pf (.record tid op now)).state = (recordApiRequest pf tid op now s.state).1 := by
  simp only [step]
  split <;> simp_all

theorem seen_step {now : ℤ} (h : seen now s.state = seen now s'.state) {event : RateEvent}
    (htime : ∀ t ∈ event.time, t = now) (he : event.isCleanup = false) :
    answer pf s event = answer pf s' event ∧
      seen now (s.step pf event).state = seen now (s'.step pf event).state := by
  cases event with
  | check quota tid op time =>
    obtain rfl := htime time rfl
    refine ⟨congrArg some (answer_of_seen h quota tid op), ?_⟩
    simp only [step, seen_checkRateLimit, h]
  | record tid op time =>
    obtain rfl := htime time rfl
    rw [state_record, state_record]
    exact ⟨rfl, seen_recordApiRequest h tid op⟩
  | finish tid => exact ⟨rfl, seen_recordApiRequestEnd h tid⟩
  | cleanup time => cases he

theorem answers_of_seen {now : ℤ} (h : seen now s.state = seen now s'.state)
    {evs : List RateEvent} (hl : ∀ t ∈ evs.filterMap time, now ≤ t)
    (hc : (evs.filterMap time).Pairwise (· ≤ ·)) :
    answers pf s evs = answers pf s' (evs.filter fun event => !event.isCleanup) := by
  induction evs generalizing s s' now with
  | nil => rfl
  | cons event evs ih =>
    obtain ⟨now', hseen, htime, hrest, hs⟩ : ∃ now, seen now s.state = seen now s'.state ∧
        (∀ t ∈ event.time, t = now) ∧ (∀ t ∈ evs.filterMap time, now ≤ t) ∧
        (evs.filterMap time).Pairwise (· ≤ ·) := by
      cases htime : event.time with
      | none =>
        rw [filterMap_cons_none htime] at hl hc
        exact ⟨now, h, nofun, hl, hc⟩
      | some time =>
        rw [filterMap_cons_some htime] at hl hc
        obtain ⟨hnext, hc⟩ := pairwise_cons.1 hc
        exact ⟨time, seen_mono (hl time mem_cons_self) h, by simp, hnext, hc⟩
    cases he : event.isCleanup with
    | true =>
      cases event with
      | cleanup time =>
        obtain rfl := htime time rfl
        rw [filter_cons_of_neg (by simp [he])]
        exact ih (seen_cleanupExpiredRateLimits.trans hseen) hrest hs
      | _ => cases he
    | false =>
      obtain ⟨hans, hnext⟩ := @seen_step pf s s' now' hseen event htime he
      rw [filter_cons_of_pos (by simp [he]), answers, answers, hans,
        ih hnext hrest hs]

/-- **Cleanups do not show**: in every history with a clock that does not run back, the checks
    are answered as they are without the cleanups. -/
theorem answers_without_cleanups (pf : RatePlatform) (events : List RateEvent)
    (hclock : (events.filterMap RateEvent.time).Pairwise (· ≤ ·)) :
    answers pf start events = answers pf start (events.filter fun event => !event.isCleanup) := by
  cases htimes : events.filterMap RateEvent.time with
  | nil => exact @answers_of_seen pf _ _ 0 rfl _ (by simp [htimes]) hclock
  | cons first times =>
    refine @answers_of_seen pf _ _ first rfl _ ?_ hclock
    rw [htimes] at hclock ⊢
    exact List.forall_mem_cons.2 ⟨le_rfl, (List.pairwise_cons.1 hclock).1⟩

/-- A request, a cleanup three minutes later, and a check. -/
theorem answers_without_cleanups_later :
    let check := .check (TenantQuota.new "acme" 0) "acme" .vmCreate (400 * second)
    answers .release start
        [.record "acme" .vmCreate (200 * second), .cleanup (380 * second), check] =
      answers .release start [.record "acme" .vmCreate (200 * second), check] :=
  answers_without_cleanups .release _ (by decide)

end RateRun

end Blixard
