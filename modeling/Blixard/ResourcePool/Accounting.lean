/-
  The counter of a resource pool (`patterns/resource_pool.rs`): does `total_created` count the
  resources that exist?

  Nothing lowers it when a resource is taken out for good or fails its checks, and `clear`
  forgets those that are handed out or on their way back (`accounted_iff`).
-/
import Blixard.Lib.Run
import Blixard.IpPool.Pool

namespace Blixard

open List

namespace ResourcePool

variable {S T : Type} (pf : Platform) (f : ResourceFactory S T)

/-! ## The other operations -/

def createAll : ℕ → S → List T × List BlixardError × S
  | 0, s => ([], [], s)
  | n + 1, s =>
    match f.create s with
    | .ok (r, s) =>
      let (rs, errors, s) := createAll n s
      (r :: rs, errors, s)
    | .error e =>
      let (rs, errors, s) := createAll n s
      (rs, e :: errors, s)

/-- `initialize`; `debugErrors` is the `Debug` text of the errors. -/
def initializePool (debugErrors : List BlixardError → String) (p : ResourcePool T) (s : S) :
    ResourcePool T × S × Except BlixardError Unit :=
  let (created, errors, s) := createAll f p.config.minSize s
  let p := { p with available := p.available ++ created, totalCreated := created.length }
  if created.length = 0 ∧ errors ≠ [] then
    (p, s, .error (.internal s!"Failed to initialize pool: {debugErrors errors}"))
  else (p, s, .ok ())

def decrement (total : ℕ) : Except Failure ℕ :=
  if total = 0 then pf.subUnsigned 64 0 1 else .ok (total - 1)

/-- `return_resource`; an error of `destroy` is ignored, and an overflow ends the task
    before it gives the permit back. -/
def returnResource (p : ResourcePool T) (s : S) (r : T) :
    ResourcePool T × S × Except Failure Unit :=
  if f.isValid r then
    ({ p with available := p.available ++ [r], permits := p.permits + 1 }, s, .ok ())
  else
    let s := match f.destroy s r with
      | .ok s => s
      | .error _ => s
    match decrement pf p.totalCreated with
    | .error failure => (p, s, .error failure)
    | .ok total => ({ p with totalCreated := total, permits := p.permits + 1 }, s, .ok ())

def destroyOne (s : S) (r : T) : S × Except BlixardError Unit :=
  match f.destroy s r with
  | .ok s => (s, .ok ())
  | .error e => (s, .error e)

def clear (p : ResourcePool T) (s : S) : ResourcePool T × S × Except BlixardError Unit :=
  let resources := p.available
  let p := { p with available := [] }
  match Run.attempt (destroyOne f) s resources with
  | (s, .error e) => (p, s, .error e)
  | (s, .ok ()) => ({ p with totalCreated := 0 }, s, .ok ())

structure PoolStats where
  available : ℕ
  inUse : ℕ
  totalCreated : ℕ
  maxSize : ℕ

def stats (p : ResourcePool T) : PoolStats :=
  ⟨p.available.length, p.inUse, p.totalCreated, p.config.maxSize⟩

variable {f}

variable (p : ResourcePool T) (s : S) (r : T)

theorem handOut_counts : (p.handOut f s r).1.available = p.available ∧
    (p.handOut f s r).1.totalCreated = p.totalCreated := by
  unfold handOut
  split
  · split <;> exact ⟨rfl, rfl⟩
  · exact ⟨rfl, rfl⟩

theorem handOut_ok_iff : (∃ r', (p.handOut f s r).2.2 = .ok r') ↔
      (p.config.resetOnAcquire = true → ∃ r', f.reset r = .ok r') := by
  by_cases hr : p.config.resetOnAcquire = true
  · simp only [handOut, hr, if_true, true_imp_iff]
    cases f.reset r <;> simp
  · simp [handOut, hr]

theorem checkOut_counts (p : ResourcePool T) (s : S) (r : T) :
    (p.checkOut f s r).1.available = p.available ∧
    (p.checkOut f s r).1.totalCreated = p.totalCreated := by
  rw [checkOut]
  split
  · split
    · exact ⟨rfl, rfl⟩
    · split
      · exact ⟨rfl, rfl⟩
      · exact handOut_counts p _ _
  · exact handOut_counts p _ _

/-- **What `acquire` does to the counts**: it fails and leaves the pool as it is, or one
    resource more is outside the pool, whether or not it is handed out. -/
theorem acquire_counts (p : ResourcePool T) (s : S) :
    (∃ e, (p.acquire f s).2.2 = .error e) ∧ (p.acquire f s).1 = p ∨
    (p.acquire f s).1.totalCreated + p.available.length =
      p.totalCreated + (p.acquire f s).1.available.length + 1 := by
  unfold acquire
  split
  · exact .inl ⟨⟨_, rfl⟩, rfl⟩
  cases hv : p.available with
  | cons r rest =>
    obtain ⟨ha, htot⟩ := @checkOut_counts S T f { p with available := rest } s r
    right
    simp only [ha, htot, length_cons]
    omega
  | nil =>
    cases f.create s with
    | error e => exact .inl ⟨⟨_, rfl⟩, rfl⟩
    | ok x =>
      obtain ⟨ha, htot⟩ :=
        @checkOut_counts S T f { p with totalCreated := p.totalCreated + 1 } x.2 x.1
      rw [hv] at ha htot
      right
      simp only [ha, htot, length_nil]

variable (f) in
/-- The factory lets a resource pass the checks of `acquire`: it is valid or can be replaced
    by a new one, and it can be reset. -/
def Usable (config : PoolConfig) (s : S) (r : T) : Prop :=
  let resets (r : T) := config.resetOnAcquire = true → ∃ r', f.reset r = .ok r'
  if config.validateOnAcquire ∧ ¬ f.isValid r then
    ∃ destroyed x, f.destroy s r = .ok destroyed ∧ f.create destroyed = .ok x ∧ resets x.1
  else resets r

theorem checkOut_ok_iff (p : ResourcePool T) (s : S) (r : T) :
    (∃ r', (p.checkOut f s r).2.2 = .ok r') ↔ Usable f p.config s r := by
  by_cases hi : p.config.validateOnAcquire ∧ ¬ f.isValid r
  · rw [checkOut, Usable, if_pos hi, if_pos hi]
    cases hs : f.destroy s r with
    | error e => simp
    | ok s' =>
      dsimp only
      cases hc : f.create s' with
      | error e => simp [hc]
      | ok x =>
        refine (handOut_ok_iff p x.2 x.1).trans ⟨fun h => ⟨s', x, rfl, hc, h⟩, ?_⟩
        rintro ⟨destroyed, x', hd, hr, h⟩
        cases hd
        cases hc.symm.trans hr
        exact h
  · rw [checkOut, Usable, if_neg hi, if_neg hi]
    exact handOut_ok_iff p s r

variable (f) in
/-- If a permit is left, the resource that `acquire` takes from the queue or creates passes
    the checks. -/
def AcquiresWhole (p : ResourcePool T) (s : S) : Prop :=
  p.permits ≠ 0 →
    match p.available with
    | r :: _ => Usable f p.config s r
    | [] => ∀ x, f.create s = .ok x → Usable f p.config x.2 x.1

theorem acquiresWhole_iff :
    AcquiresWhole f p s ↔ (∃ r, (p.acquire f s).2.2 = .ok r) ∨ (p.acquire f s).1 = p := by
  by_cases hp : p.permits = 0
  · simp [AcquiresWhole, acquire, hp]
  simp only [AcquiresWhole, acquire, hp, ne_eq, not_false_eq_true, true_imp_iff, if_false]
  cases ha : p.available with
  | cons r rest =>
    -- the resource has left the queue
    have hne : (checkOut f { p with available := rest } s r).1 ≠ p := by
      intro heq
      have hc := (@checkOut_counts S T f { p with available := rest } s r).1
      rw [heq, ha] at hc
      exact cons_ne_self r rest hc
    rw [or_iff_left hne]
    exact (@checkOut_ok_iff S T f { p with available := rest } s r).symm
  | nil =>
    cases hr : f.create s with
    | error e => simp
    | ok x =>
      -- the new resource is counted
      have hne : (checkOut f { p with totalCreated := p.totalCreated + 1 } x.2 x.1).1 ≠ p := by
        intro heq
        have hc :=
          (@checkOut_counts S T f { p with totalCreated := p.totalCreated + 1 } x.2 x.1).2
        rw [heq] at hc
        exact Nat.succ_ne_self _ hc.symm
      simp only [Except.ok.injEq, forall_eq']
      rw [ha] at hne
      rw [or_iff_left hne]
      exact (@checkOut_ok_iff S T f { p with available := [], totalCreated := p.totalCreated + 1 }
        x.2 x.1).symm

end ResourcePool

/-! ## Runs -/

/-- A pool with its factory, the handles of its users, and the resources of dropped handles whose
    return is spawned and has not run. -/
structure PoolSession (S T : Type) where
  pool : ResourcePool T
  factory : S
  handles : List T
  returning : List T

/-- What happens to a pool, call by call: `modify` changes a resource through its handle, and
    `giveBack` is the task that a drop spawned. -/
inductive PoolEvent (T : Type) where
  | initializePool
  | acquire
  | modify (i : ℕ) (r : T)
  | drop (i : ℕ)
  | giveBack (i : ℕ)
  | take (i : ℕ)
  | clear

namespace PoolSession

open ResourcePool

variable {S T : Type} (pf : Platform) (f : ResourceFactory S T)
  (debugErrors : List BlixardError → String)

/-- A new pool. -/
def new (config : PoolConfig) (factory : S) : PoolSession S T := ⟨.new config, factory, [], []⟩

/-- The session after an event.  A dropped handle only spawns the return of its resource, and a
    taken one leaves the resource to the caller. -/
def step (s : PoolSession S T) : PoolEvent T → PoolSession S T
  | .initializePool =>
    let result := s.pool.initializePool f debugErrors s.factory
    { s with pool := result.1, factory := result.2.1 }
  | .acquire =>
    match s.pool.acquire f s.factory with
    | (pool, factory, .ok r) => { s with pool, factory, handles := s.handles ++ [r] }
    | (pool, factory, .error _) => { s with pool, factory }
  | .modify i r => { s with handles := s.handles.set i r }
  | .drop i =>
    match s.handles[i]? with
    | none => s
    | some r => { s with handles := s.handles.eraseIdx i, returning := s.returning ++ [r] }
  | .giveBack i =>
    match s.returning[i]? with
    | none => s
    | some r =>
      let result := s.pool.returnResource pf f s.factory r
      { s with pool := result.1, factory := result.2.1, returning := s.returning.eraseIdx i }
  | .take i => { s with handles := s.handles.eraseIdx i }
  | .clear =>
    let result := s.pool.clear f s.factory
    { s with pool := result.1, factory := result.2.1 }

/-- How many resources are outside the pool: with the handles, or on their way back. -/
def outstanding (s : PoolSession S T) : ℕ := s.handles.length + s.returning.length

/-- The counter is the number of available and outstanding resources, so that the statistics show
    the outstanding ones as in use. -/
def Accounted (s : PoolSession S T) : Prop :=
  s.pool.totalCreated = s.pool.available.length + s.outstanding ∧
    s.pool.stats.inUse = s.outstanding

/-- The counter is positive when the return of an invalid resource lowers it. -/
def Decrements (s : PoolSession S T) : PoolEvent T → Prop
  | .giveBack i => ∀ r, s.returning[i]? = some r → f.isValid r = false → 0 < s.pool.totalCreated
  | _ => True

/-- The events that keep the account: a pool is initialised or cleared only with nothing handed out
    or on its way back, and initialised only when empty; the factory destroys all that is cleared;
    nothing is taken; and what `acquire` takes or creates passes its checks. -/
def Keeps (s : PoolSession S T) : PoolEvent T → Prop
  | .initializePool => s.pool.available = [] ∧ s.handles = [] ∧ s.returning = []
  | .acquire => AcquiresWhole f s.pool s.factory
  | .take i => s.handles[i]? = none
  | .clear =>
    (Run.attempt (destroyOne f) s.factory s.pool.available).2 = .ok () ∧ s.handles = [] ∧
      s.returning = []
  | _ => True

variable {pf f debugErrors} {s : PoolSession S T}

theorem accounted_iff_eq :
    s.Accounted ↔ s.pool.totalCreated = s.pool.available.length + s.outstanding := by
  refine ⟨And.left, fun h => ⟨h, ?_⟩⟩
  simp only [stats, inUse]
  omega

theorem outstanding_eq_zero : s.outstanding = 0 ↔ s.handles = [] ∧ s.returning = [] := by
  rw [outstanding, Nat.add_eq_zero_iff, length_eq_zero_iff, length_eq_zero_iff]

theorem initialize_counts (s : PoolSession S T) :
    (s.step pf f debugErrors .initializePool).outstanding = s.outstanding ∧
    (s.step pf f debugErrors .initializePool).pool.available.length =
      s.pool.available.length + (s.step pf f debugErrors .initializePool).pool.totalCreated := by
  simp only [step, ResourcePool.initializePool, outstanding]
  split <;> simp

theorem accounted_initialize_iff : (s.step pf f debugErrors .initializePool).Accounted ↔
    s.Keeps f .initializePool := by
  obtain ⟨ho, hc⟩ := @initialize_counts S T pf f debugErrors s
  rw [accounted_iff_eq, ho, hc, Keeps, ← outstanding_eq_zero, ← length_eq_zero_iff]
  omega

theorem accounted_acquire_iff (h : s.Accounted) :
    (s.step pf f debugErrors .acquire).Accounted ↔ s.Keeps f .acquire := by
  rw [accounted_iff_eq] at h ⊢
  rw [Keeps, acquiresWhole_iff]
  rcases @acquire_counts S T f s.pool s.factory with ⟨⟨e, he⟩, hsame⟩ | hmore
  · have hstep : (s.step pf f debugErrors .acquire).pool = s.pool ∧
        (s.step pf f debugErrors .acquire).outstanding = s.outstanding := by
      rcases hr : s.pool.acquire f s.factory with ⟨pool, fac, res⟩
      rw [hr] at he hsame
      obtain rfl : res = .error e := he
      simp only [step, hr, outstanding, and_true]
      exact hsame
    rw [hstep.1, hstep.2]
    exact ⟨fun _ => .inr hsame, fun _ => h⟩
  · -- one resource is outside: the account needs a ha for it
    have hne : (s.pool.acquire f s.factory).1 ≠ s.pool := by
      intro heq
      rw [heq] at hmore
      omega
    rw [or_iff_left hne]
    rcases hr : s.pool.acquire f s.factory with ⟨pool, fac, res⟩
    rw [hr] at hmore
    simp only [step, hr, outstanding] at h ⊢
    dsimp only at hmore
    cases res with
    | ok r =>
      simp only [length_append, length_singleton, Except.ok.injEq, exists_eq', iff_true]
      omega
    | error e =>
      simp only [reduceCtorEq, exists_false, iff_false]
      omega

/-- A dropped handle stays outstanding until its resource is given back. -/
theorem accounted_drop (h : s.Accounted) (i : ℕ) :
    (s.step pf f debugErrors (.drop i)).Accounted := by
  rw [accounted_iff_eq] at h ⊢
  simp only [step]
  split
  · exact h
  · rename_i r hr
    obtain ⟨hi, -⟩ := List.getElem?_eq_some_iff.1 hr
    simp only [outstanding, length_append, length_singleton, length_eraseIdx_of_lt hi] at h ⊢
    omega

theorem accounted_giveBack (h : s.Accounted) (i : ℕ) :
    (s.step pf f debugErrors (.giveBack i)).Accounted := by
  rw [accounted_iff_eq] at h ⊢
  simp only [step]
  split
  · exact h
  · rename_i r hr
    obtain ⟨hi, -⟩ := List.getElem?_eq_some_iff.1 hr
    have hlen := length_eraseIdx_of_lt hi
    unfold outstanding at h ⊢
    unfold returnResource
    split
    · simp only [length_append, length_singleton, hlen]
      omega
    · have hpos : s.pool.totalCreated ≠ 0 := by omega
      simp only [decrement, if_neg hpos, hlen]
      omega

theorem accounted_take_iff (h : s.Accounted) (i : ℕ) :
    (s.step pf f debugErrors (.take i)).Accounted ↔ s.handles[i]? = none := by
  rw [accounted_iff_eq] at h ⊢
  simp only [step, getElem?_eq_none_iff, outstanding] at h ⊢
  by_cases hi : i < s.handles.length
  · have hlen := length_eraseIdx_of_lt hi
    rw [hlen]
    omega
  · rw [eraseIdx_of_length_le (Nat.le_of_not_lt hi)]
    omega

theorem accounted_clear_iff (h : s.Accounted) :
    (s.step pf f debugErrors .clear).Accounted ↔ s.Keeps f .clear := by
  rw [accounted_iff_eq] at h ⊢
  simp only [step, Keeps, clear, ← outstanding_eq_zero]
  rcases hloop : Run.attempt (destroyOne f) s.factory s.pool.available with ⟨fac, e | ⟨⟩⟩
  · -- a loop that fails had something to destroy
    have hne : s.pool.available ≠ [] := by
      intro hnil
      rw [hnil] at hloop
      cases congrArg Prod.snd hloop
    have hlen := length_pos_iff.2 hne
    simp only [length_nil, reduceCtorEq, false_and, iff_false, outstanding] at h ⊢
    omega
  · simp only [length_nil, true_and, outstanding]
    omega

theorem accounted_step_iff (h : s.Accounted) (e : PoolEvent T) :
    (s.step pf f debugErrors e).Accounted ↔ s.Keeps f e := by
  cases e with
  | initializePool => exact accounted_initialize_iff
  | acquire => exact accounted_acquire_iff h
  | modify i r =>
    refine ⟨fun _ => trivial, fun _ => ?_⟩
    rw [accounted_iff_eq] at h ⊢
    simp only [step, outstanding, length_set]
    exact h
  | drop i => exact ⟨fun _ => trivial, fun _ => accounted_drop h i⟩
  | giveBack i => exact ⟨fun _ => trivial, fun _ => accounted_giveBack h i⟩
  | take i => exact accounted_take_iff h i
  | clear => exact accounted_clear_iff h

theorem decrements_of_accounted (h : s.Accounted) (e : PoolEvent T) : s.Decrements f e := by
  cases e with
  | giveBack i =>
    intro r hr _
    obtain ⟨hi, -⟩ := List.getElem?_eq_some_iff.1 hr
    rw [h.1, outstanding]
    omega
  | _ => trivial

/-- **The account of a pool**: from a new pool the counter is right and never lowered below zero
    exactly if every event keeps the account. -/
theorem accounted_iff (pf : Platform) (f : ResourceFactory S T)
    (debugErrors : List BlixardError → String) (config : PoolConfig) (factory : S)
    (events : List (PoolEvent T)) :
    ((∀ s ∈ events.scanl (step pf f debugErrors) (new config factory), s.Accounted) ∧
      Run.Along (step pf f debugErrors) (Decrements f) (new config factory) events) ↔
    Run.Along (step pf f debugErrors) (Keeps f) (new config factory) events := by
  have hnew : (new config factory : PoolSession S T).Accounted := ⟨rfl, rfl⟩
  have hiff : (∀ s ∈ events.scanl (step pf f debugErrors) (new config factory), s.Accounted) ↔
      Run.Along (step pf f debugErrors) (Keeps f) (new config factory) events :=
    Run.holds_iff_along (fun s e hs hC => (accounted_step_iff hs e).2 hC) (fun _ => id)
      (fun s e hs hC hP => hC ((accounted_step_iff hs e).1 hP)) hnew
  constructor
  · rintro ⟨hall, -⟩
    exact hiff.1 hall
  intro hkeeps
  refine ⟨hiff.2 hkeeps, ?_⟩
  exact Run.along_of_invariant (fun s e hs hC => (accounted_step_iff hs e).2 hC)
    (fun s e hs _ => decrements_of_accounted hs e) hnew hkeeps

def flagFactory : ResourceFactory Unit Bool where
  create _ := .ok (true, ())
  destroy _ _ := .ok ()
  isValid r := r
  reset _ := .ok true

/-- A resource is handed out and the pool cleared: nothing counts as in use, and its return, as it
    is not valid any more, lowers a counter that is zero. -/
theorem clear_forgets_handles :
    ¬ ∀ (pf : Platform) (S T : Type) (f : ResourceFactory S T)
      (debugErrors : List BlixardError → String) (config : PoolConfig) (factory : S)
      (events : List (PoolEvent T)),
      (∀ s ∈ events.scanl (step pf f debugErrors) (new config factory), s.Accounted) ∧
      Run.Along (step pf f debugErrors) (Decrements f) (new config factory) events := by
  intro h
  have hrun := (h .release Unit Bool flagFactory (fun _ => "") ⟨10, 0, 30, true, false⟩ ()
    [.acquire, .modify 0 false, .clear, .drop 0, .giveBack 0]).2
  have hpos := hrun.2.2.2.2.1 false rfl rfl
  revert hpos
  decide

end PoolSession

end Blixard
