/-
  How many resources of a pool exist at once (`patterns/resource_pool.rs`), under every
  interleaving of its callers (`resources_bounded`).

  Each step of a call is a function of the pool and of what the factory answers, and any answer
  is possible.
-/
import Blixard.ResourcePool.Accounting
import Mathlib.Algebra.Order.BigOperators.Group.List

namespace Blixard

open List

/-! ## Calls under way -/

inductive Acquiring (T : Type) where
  | permitted
  /-- The queue was empty, and the factory creates a resource. -/
  | creating
  | created (r : T)
  | validating (r : T)
  /-- The resource was not valid, and the factory destroys it. -/
  | destroying (r : T)
  | recreating
  | resetting (r : T)

inductive Returning (T : Type) where
  | validating (r : T)
  | destroying (r : T)
  | counting
  | releasing

structure FactoryAnswer (T : Type) where
  created : Except BlixardError T
  destroyed : Except BlixardError Unit
  valid : Bool
  reset : Except BlixardError T

inductive Progress (T : Type) where
  | goOn (call : Acquiring T)
  | handOut (r : T)
  | fail (e : BlixardError)

namespace ResourcePool

variable {T : Type}

def release (p : ResourcePool T) : ResourcePool T := { p with permits := p.permits + 1 }

end ResourcePool

open ResourcePool

namespace Acquiring

variable {S T : Type}

/-- The next step of a call.  A call that fails drops its permit, and one that hands out a
    resource forgets it. -/
def next (p : ResourcePool T) (a : FactoryAnswer T) : Acquiring T → ResourcePool T × Progress T
  | permitted =>
    match p.available with
    | r :: rest => ({ p with available := rest }, .goOn (validating r))
    | [] => (p, .goOn creating)
  | creating =>
    match a.created with
    | .ok r => (p, .goOn (created r))
    | .error e => (p.release, .fail e)
  | created r => ({ p with totalCreated := p.totalCreated + 1 }, .goOn (validating r))
  | validating r =>
    if p.config.validateOnAcquire ∧ ¬ a.valid then (p, .goOn (destroying r))
    else (p, .goOn (resetting r))
  | destroying _ =>
    match a.destroyed with
    | .ok () => (p, .goOn recreating)
    | .error e => (p.release, .fail e)
  | recreating =>
    match a.created with
    | .ok r => (p, .goOn (resetting r))
    | .error e => (p.release, .fail e)
  | resetting r =>
    if p.config.resetOnAcquire then
      match a.reset with
      | .ok r => (p, .handOut r)
      | .error e => (p.release, .fail e)
    else (p, .handOut r)

/-- What the factory answers to the call, and its state after that. -/
def answer (f : ResourceFactory S T) (s : S) : Acquiring T → FactoryAnswer T × S :=
  let silent : FactoryAnswer T := ⟨.error (.internal ""), .ok (), true, .error (.internal "")⟩
  fun
  | creating | recreating =>
    match f.create s with
    | .ok (r, s) => ({ silent with created := .ok r }, s)
    | .error e => ({ silent with created := .error e }, s)
  | destroying r =>
    match f.destroy s r with
    | .ok s => (silent, s)
    | .error e => ({ silent with destroyed := .error e }, s)
  | validating r => ({ silent with valid := f.isValid r }, s)
  | resetting r => ({ silent with reset := f.reset r }, s)
  | _ => (silent, s)

/-- The steps of a call that nobody interrupts. -/
def run (f : ResourceFactory S T) : ℕ → ResourcePool T → S → Acquiring T →
    Option (ResourcePool T × S × Except BlixardError T)
  | 0, _, _, _ => none
  | n + 1, p, s, call =>
    match call.next p (call.answer f s).1 with
    | (p, .goOn call') => run f n p (call.answer f s).2 call'
    | (p, .handOut r) => some (p, (call.answer f s).2, .ok r)
    | (p, .fail e) => some (p, (call.answer f s).2, .error e)

variable {f : ResourceFactory S T} {p : ResourcePool T}

theorem permits_back (hp : p.permits ≠ 0) : p.permits - 1 + 1 = p.permits :=
  Nat.sub_add_cancel (Nat.pos_of_ne_zero hp)

theorem run_resetting (hp : p.permits ≠ 0) (n : ℕ) (s : S) (r : T) :
    run f (n + 1) { p with permits := p.permits - 1 } s (resetting r) = some (p.handOut f s r) := by
  cases hs : p.config.resetOnAcquire with
  | false => simp [run, answer, next, handOut, hs]
  | true =>
    cases hr : f.reset r <;>
      simp [run, answer, next, handOut, hs, hr, release, permits_back hp]

theorem run_validating (hp : p.permits ≠ 0) (n : ℕ) (s : S) (r : T) :
    run f (n + 4) { p with permits := p.permits - 1 } s (validating r) =
      some (p.checkOut f s r) := by
  by_cases hi : p.config.validateOnAcquire ∧ ¬ f.isValid r
  · rw [checkOut, if_pos hi]
    cases hd : f.destroy s r with
    | error e => simp [run, answer, next, hi, hd, release, permits_back hp]
    | ok s' =>
      cases hc : f.create s' with
      | error e => simp [run, answer, next, hi, hd, hc, release, permits_back hp]
      | ok x => simpa [run, answer, next, hi, hd, hc] using run_resetting hp n x.2 x.1
  · have hnext : next { p with permits := p.permits - 1 } ((validating r).answer f s).1
        (validating r) = (_, .goOn (resetting r)) := if_neg hi
    rw [checkOut, if_neg hi, run, hnext]
    exact run_resetting hp (n + 2) s r

/-- **A call that nobody interrupts is `acquire`**, once it has its permit. -/
theorem run_permitted (hp : p.permits ≠ 0) (s : S) :
    run f 7 { p with permits := p.permits - 1 } s permitted = some (p.acquire f s) := by
  rw [acquire, if_neg hp]
  cases ha : p.available with
  | cons r rest =>
    simp only [run, next]
    exact run_validating (p := { p with available := rest }) hp 2 s r
  | nil =>
    cases hc : f.create s with
    | error e =>
      simp only [run, answer, next, hc, release, permits_back hp]
      rw [← ha]
    | ok x =>
      have hrest := @run_validating S T f { p with totalCreated := p.totalCreated + 1 } hp 0 x.2 x.1
      simpa [run, answer, next, ha, hc] using hrest

end Acquiring

namespace Returning

variable {S T : Type} (pf : Platform)

/-- The next step of a return; `none` when the task has ended. -/
def next (p : ResourcePool T) (a : FactoryAnswer T) :
    Returning T → ResourcePool T × Option (Returning T)
  | validating r =>
    if a.valid then ({ p with available := p.available ++ [r] }, some releasing)
    else (p, some (destroying r))
  | destroying _ => (p, some counting)
  | counting =>
    match decrement pf p.totalCreated with
    | .error _ => (p, none)
    | .ok total => ({ p with totalCreated := total }, some releasing)
  | releasing => (p.release, none)

/-- What the factory answers to the task, and its state after that. -/
def answer (f : ResourceFactory S T) (s : S) (task : Returning T) : FactoryAnswer T × S :=
  match task with
  | validating r => (Acquiring.validating r).answer f s
  | destroying r => (Acquiring.destroying r).answer f s
  | _ => Acquiring.permitted.answer f s

/-- The steps of a return that nobody interrupts. -/
def run (f : ResourceFactory S T) : ℕ → ResourcePool T → S → Returning T →
    Option (ResourcePool T × S)
  | 0, _, _, _ => none
  | n + 1, p, s, task =>
    match task.next pf p (task.answer f s).1 with
    | (p, some task') => run f n p (task.answer f s).2 task'
    | (p, none) => some (p, (task.answer f s).2)

/-- **A return that nobody interrupts is `return_resource`**. -/
theorem run_returnResource (f : ResourceFactory S T) (p : ResourcePool T) (s : S) (r : T) :
    run pf f 4 p s (validating r) =
      some ((p.returnResource pf f s r).1, (p.returnResource pf f s r).2.1) := by
  by_cases hv : f.isValid r = true
  · simp [run, answer, Acquiring.answer, next, returnResource, hv, release]
  · cases hd : f.destroy s r <;> cases ht : decrement pf p.totalCreated <;>
      simp [run, answer, Acquiring.answer, next, returnResource, hv, hd, ht, release]

end Returning

/-! ## Interleavings -/

/-- The pool, the calls and returns under way, the handles and the resources that were
    taken, and the number of `clear` calls that destroy what they have drained. -/
structure SharedPool (T : Type) where
  pool : ResourcePool T
  acquiring : List (Acquiring T)
  handles : List T
  returning : List (Returning T)
  taken : List T
  clearing : ℕ

/-- One step of somebody.  A call may be cancelled where it waits; a call that gets no
    permit has no effect. -/
inductive SharedEvent (T : Type) where
  | acquire
  | proceed (i : ℕ) (a : FactoryAnswer T)
  | cancel (i : ℕ)
  | modify (i : ℕ) (r : T)
  | drop (i : ℕ)
  | proceedReturn (i : ℕ) (a : FactoryAnswer T)
  | take (i : ℕ)
  | drain
  | cleared (destroyed : Bool)

namespace SharedPool

variable {S T : Type} (pf : Platform)

def start (p : ResourcePool T) : SharedPool T := ⟨p, [], [], [], [], 0⟩

def step (s : SharedPool T) : SharedEvent T → SharedPool T
  | .acquire =>
    if s.pool.permits = 0 then s
    else { s with
      pool := { s.pool with permits := s.pool.permits - 1 }
      acquiring := s.acquiring ++ [.permitted] }
  | .proceed i a =>
    match s.acquiring[i]? with
    | none => s
    | some call =>
      match call.next s.pool a with
      | (pool, .goOn call) => { s with pool, acquiring := s.acquiring.set i call }
      | (pool, .handOut r) =>
        { s with pool, acquiring := s.acquiring.eraseIdx i, handles := s.handles ++ [r] }
      | (pool, .fail _) => { s with pool, acquiring := s.acquiring.eraseIdx i }
  | .cancel i =>
    match s.acquiring[i]? with
    | none => s
    | some _ => { s with pool := s.pool.release, acquiring := s.acquiring.eraseIdx i }
  | .modify i r => { s with handles := s.handles.set i r }
  | .drop i =>
    match s.handles[i]? with
    | none => s
    | some r => { s with
        handles := s.handles.eraseIdx i
        returning := s.returning ++ [.validating r] }
  | .proceedReturn i a =>
    match s.returning[i]? with
    | none => s
    | some task =>
      match task.next pf s.pool a with
      | (pool, some task) => { s with pool, returning := s.returning.set i task }
      | (pool, none) => { s with pool, returning := s.returning.eraseIdx i }
  | .take i =>
    match s.handles[i]? with
    | none => s
    | some r => { s with handles := s.handles.eraseIdx i, taken := s.taken ++ [r] }
  | .drain => { s with pool := { s.pool with available := [] }, clearing := s.clearing + 1 }
  | .cleared destroyed =>
    if s.clearing = 0 then s
    else { s with
      pool := if destroyed then { s.pool with totalCreated := 0 } else s.pool
      clearing := s.clearing - 1 }

end SharedPool

/-! ## Counting -/

namespace Acquiring

variable {T : Type}

def held : Acquiring T → ℕ
  | permitted | creating | recreating => 0
  | created _ | validating _ | destroying _ | resetting _ => 1

def claim : Acquiring T → ℕ
  | permitted => 0
  | _ => 1

variable (call : Acquiring T)

theorem held_le_claim : call.held ≤ call.claim := by
  cases call <;> simp [held, claim]

theorem claim_le_one : call.claim ≤ 1 := by
  cases call <;> simp [claim]

/-- What a step does: the call goes on with the same resources, or found the queue empty and will
    create one; it hands out its resource; or it gives its permit back. -/
theorem next_cases (p : ResourcePool T) (a : FactoryAnswer T) (call : Acquiring T) :
    (∃ p' call', call.next p a = (p', .goOn call') ∧ p'.permits = p.permits ∧
      (p'.available.length + call'.claim = p.available.length + call.claim ∨
        p'.available = [] ∧ call.claim = 0)) ∨
    (∃ r, call.next p a = (p, .handOut r) ∧ call.claim = 1) ∨
    ∃ e, call.next p a = (p.release, .fail e) := by
  fun_cases next p a call with
  | case1 r rest ha => exact .inl ⟨_, validating r, rfl, rfl, .inl (by simp [ha, claim])⟩
  | case2 ha => exact .inl ⟨p, creating, rfl, rfl, .inr ⟨ha, rfl⟩⟩
  | case3 | case5 | case6 | case7 | case8 | case10 => exact .inl ⟨_, _, rfl, rfl, .inl rfl⟩
  | case12 | case14 => exact .inr (.inl ⟨_, rfl, rfl⟩)
  | case4 | case9 | case11 | case13 => exact .inr (.inr ⟨_, rfl⟩)

end Acquiring

namespace Returning

variable {T : Type} {pf : Platform}

def held : Returning T → ℕ
  | validating _ | destroying _ => 1
  | counting | releasing => 0

theorem held_le_one (task : Returning T) : task.held ≤ 1 := by
  cases task <;> simp [held]

theorem next_cases (p : ResourcePool T) (a : FactoryAnswer T) (task : Returning T) :
    (∃ p' task', task.next pf p a = (p', some task') ∧ p'.permits = p.permits ∧
      p'.available.length + task'.held ≤ p.available.length + task.held) ∨
    ∃ p', task.next pf p a = (p', none) ∧ p'.permits ≤ p.permits + 1 ∧
      p'.available = p.available := by
  fun_cases next pf p a task with
  | case1 r => exact .inl ⟨_, releasing, rfl, rfl, by simp [held]⟩
  | case2 r => exact .inl ⟨p, destroying r, rfl, rfl, le_rfl⟩
  | case3 => exact .inl ⟨p, counting, rfl, rfl, Nat.le_succ _⟩
  | case4 => exact .inr ⟨p, rfl, Nat.le_succ _, rfl⟩
  | case5 => exact .inl ⟨_, releasing, rfl, rfl, le_rfl⟩
  | case6 => exact .inr ⟨p.release, rfl, le_rfl, rfl⟩

end Returning

namespace SharedPool

variable {S T : Type} {pf : Platform}

/-- All resources: in the queue, with a call or a return, handed out, or taken.  Those that
    a `clear` has drained have left the pool. -/
def live (s : SharedPool T) : ℕ :=
  s.pool.available.length + (s.acquiring.map Acquiring.held).sum + s.handles.length +
    (s.returning.map Returning.held).sum + s.taken.length

def out (s : SharedPool T) : ℕ :=
  s.handles.length + (s.returning.map Returning.held).sum + s.taken.length

def claims (s : SharedPool T) : ℕ :=
  s.pool.available.length + (s.acquiring.map Acquiring.claim).sum + s.handles.length +
    (s.returning.map Returning.held).sum + s.taken.length

def permits (s : SharedPool T) : ℕ :=
  s.pool.permits + s.acquiring.length + s.handles.length + s.returning.length + s.taken.length

structure Bounded (maxSize minSize : ℕ) (s : SharedPool T) : Prop where
  permits : s.permits ≤ maxSize
  claims : s.claims ≤ max maxSize minSize

theorem sum_map_le_length {A : Type} {w : A → ℕ} (hw : ∀ a, w a ≤ 1) (l : List A) :
    (l.map w).sum ≤ l.length := by
  have h := sum_le_card_nsmul (l.map w) 1 (by simpa using fun a _ => hw a)
  simpa using h

theorem exists_split {A : Type} {l : List A} {i : ℕ} {a : A} (h : l[i]? = some a) :
    ∃ pre after, l = pre ++ a :: after ∧ (∀ b, l.set i b = pre ++ b :: after) ∧
      l.eraseIdx i = pre ++ after := by
  obtain ⟨hi, rfl⟩ := List.getElem?_eq_some_iff.1 h
  refine ⟨l.take i, l.drop (i + 1), ?_, fun b => ?_, List.eraseIdx_eq_take_drop_succ ..⟩
  · rw [List.cons_getElem_drop_succ, List.take_append_drop]
  · rw [List.set_eq_take_append_cons_drop, if_pos hi]

variable {s : SharedPool T} {maxSize minSize : ℕ}

theorem bounded_acquire (h : s.Bounded maxSize minSize) :
    (s.step pf .acquire).Bounded maxSize minSize := by
  obtain ⟨hp, hc⟩ := h
  by_cases hzero : s.pool.permits = 0
  · simp only [step, if_pos hzero]
    exact ⟨hp, hc⟩
  simp only [SharedPool.permits] at hp
  simp only [step, if_neg hzero]
  constructor
  · simp only [SharedPool.permits, length_append, length_singleton]
    omega
  · simpa [SharedPool.claims, Acquiring.claim] using hc

theorem bounded_proceed (h : s.Bounded maxSize minSize) (i : ℕ) (a : FactoryAnswer T) :
    (s.step pf (.proceed i a)).Bounded maxSize minSize := by
  obtain ⟨hp, hc⟩ := h
  simp only [step]
  cases hcall : s.acquiring[i]? with
  | none => exact ⟨hp, hc⟩
  | some call =>
    obtain ⟨pre, after, hlist, hset, he⟩ := exists_split hcall
    simp only [SharedPool.permits, SharedPool.claims, hlist, length_append, length_cons,
      map_append, map_cons, sum_append, sum_cons] at hp hc
    rcases Acquiring.next_cases s.pool a call with
      ⟨p', call', hnext, hkeep, hn⟩ | ⟨r, hnext, hl⟩ | ⟨e, hnext⟩ <;>
    simp only [hnext] <;> constructor <;>
    simp only [SharedPool.permits, SharedPool.claims, hset, he, release, length_append,
      length_cons, length_nil, map_append, map_cons, sum_append,
      sum_cons]
    case some.inl.claims =>
      rcases hn with hsame | ⟨hm, hzero⟩
      · omega
      -- the queue is empty, so all that exists or will be created has a permit
      have hpre := sum_map_le_length Acquiring.claim_le_one pre
      have ha := sum_map_le_length Acquiring.claim_le_one after
      have hr := sum_map_le_length Returning.held_le_one s.returning
      have hcall' := call'.claim_le_one
      rw [hm, length_nil]
      omega
    all_goals omega

theorem bounded_cancel (h : s.Bounded maxSize minSize) (i : ℕ) :
    (s.step pf (.cancel i)).Bounded maxSize minSize := by
  obtain ⟨hp, hc⟩ := h
  simp only [step]
  cases hcall : s.acquiring[i]? with
  | none => exact ⟨hp, hc⟩
  | some call =>
    obtain ⟨before, after, hlist, -, he⟩ := exists_split hcall
    simp only [SharedPool.permits, SharedPool.claims, hlist, length_append, length_cons,
      map_append, map_cons, sum_append, sum_cons] at hp hc
    constructor <;>
    simp only [SharedPool.permits, SharedPool.claims, he, release, length_append,
      map_append, sum_append] <;>
    omega

theorem bounded_leave {i : ℕ} {r : T} (hn : s.handles[i]? = some r)
    (h : s.Bounded maxSize minSize) :
    Bounded maxSize minSize { s with
      handles := s.handles.eraseIdx i
      returning := s.returning ++ [.validating r] } ∧
    Bounded maxSize minSize { s with
      handles := s.handles.eraseIdx i
      taken := s.taken ++ [r] } := by
  obtain ⟨hp, hc⟩ := h
  obtain ⟨before, after, hlist, -, he⟩ := exists_split hn
  simp only [SharedPool.permits, SharedPool.claims, hlist, length_append, length_cons]
    at hp hc
  refine ⟨⟨?_, ?_⟩, ⟨?_, ?_⟩⟩ <;>
  simp only [SharedPool.permits, SharedPool.claims, he, length_append, length_cons,
    length_nil, map_append, map_cons, map_nil, sum_append, sum_cons,
    sum_nil, Returning.held] <;>
  omega

theorem bounded_proceedReturn (h : s.Bounded maxSize minSize) (i : ℕ) (a : FactoryAnswer T) :
    (s.step pf (.proceedReturn i a)).Bounded maxSize minSize := by
  obtain ⟨hp, hc⟩ := h
  simp only [step]
  cases htask : s.returning[i]? with
  | none => exact ⟨hp, hc⟩
  | some task =>
    obtain ⟨pre, after, hlist, hset, he⟩ := exists_split htask
    simp only [SharedPool.permits, SharedPool.claims, hlist, length_append, length_cons,
      map_append, map_cons, sum_append, sum_cons] at hp hc
    rcases @Returning.next_cases T pf s.pool a task with
      ⟨p', task', hnext, hkeep, hn⟩ | ⟨p', hnext, hback, hkeep⟩ <;>
    simp only [hnext] <;> constructor <;>
    simp only [SharedPool.permits, SharedPool.claims, hset, he, hkeep, length_append,
      length_cons, map_append, map_cons, sum_append, sum_cons] <;>
    omega

theorem bounded_step (h : s.Bounded maxSize minSize) (e : SharedEvent T) :
    (s.step pf e).Bounded maxSize minSize := by
  cases e with
  | acquire => exact bounded_acquire h
  | proceed i a => exact bounded_proceed h i a
  | cancel i => exact bounded_cancel h i
  | modify i r =>
    obtain ⟨hp, hc⟩ := h
    constructor
    · simpa only [step, SharedPool.permits, length_set] using hp
    · simpa only [step, SharedPool.claims, length_set] using hc
  | drop i =>
    simp only [step]
    cases hn : s.handles[i]? with
    | none => exact h
    | some r => exact (bounded_leave hn h).1
  | proceedReturn i a => exact bounded_proceedReturn h i a
  | take i =>
    simp only [step]
    cases hn : s.handles[i]? with
    | none => exact h
    | some r => exact (bounded_leave hn h).2
  | drain =>
    obtain ⟨hp, hc⟩ := h
    refine ⟨hp, le_trans ?_ hc⟩
    simp only [step, SharedPool.claims, length_nil]
    omega
  | cleared destroyed =>
    simp only [step]
    split
    · exact h
    · cases destroyed <;> exact ⟨h.permits, h.claims⟩

/-- The pool that callers share: a new one, or one that `initialize` has filled, whether or
    not it returned an error. -/
def prepare (f : ResourceFactory S T) (debugErrors : List BlixardError → String)
    (config : PoolConfig) : Option S → ResourcePool T
  | none => .new config
  | some factory => ((ResourcePool.new config).initializePool f debugErrors factory).1

variable (f : ResourceFactory S T)

theorem length_createAll_le (n : ℕ) (fac : S) : (createAll f n fac).1.length ≤ n := by
  induction n generalizing fac with
  | zero => exact le_rfl
  | succ n ih =>
    rw [createAll]
    cases f.create fac with
    | ok x => exact Nat.succ_le_succ (ih x.2)
    | error e => exact (ih fac).trans (Nat.le_succ n)

theorem bounded_start (debugErrors : List BlixardError → String)
    (cfg : PoolConfig) (fac : Option S) :
    (start (prepare f debugErrors cfg fac)).Bounded cfg.maxSize cfg.minSize := by
  have hp : (prepare f debugErrors cfg fac).permits = cfg.maxSize := by
    cases fac with
    | none => rfl
    | some fac =>
      simp only [prepare, initializePool]
      split <;> rfl
  have ha : (prepare f debugErrors cfg fac).available.length ≤ cfg.minSize := by
    cases fac with
    | none => exact Nat.zero_le _
    | some fac =>
      have hc := length_createAll_le f cfg.minSize fac
      simp only [prepare, initializePool]
      split <;> simpa [ResourcePool.new] using hc
  constructor
  · simp [SharedPool.permits, start, hp]
  · simp only [SharedPool.claims, start, map_nil, sum_nil, length_nil]
    omega

theorem live_le_claims (s : SharedPool T) : s.live ≤ s.claims := by
  have hheld := sum_le_sum fun call (_ : call ∈ s.acquiring) => call.held_le_claim
  simp only [live, SharedPool.claims]
  omega

theorem out_le_permits (s : SharedPool T) : s.out ≤ s.permits := by
  have hr := sum_map_le_length Returning.held_le_one s.returning
  simp only [out, SharedPool.permits]
  omega

/-- **The pool is bounded**: however calls, returns, takes and clears interleave, there are at most
    `max(max_size, min_size)` resources, and `max_size` handed out, on their way back or taken. -/
theorem resources_bounded (pf : Platform) (f : ResourceFactory S T)
    (debugErrors : List BlixardError → String) (config : PoolConfig) (factory : Option S)
    (events : List (SharedEvent T)) :
    ∀ s ∈ events.scanl (step pf) (start (prepare f debugErrors config factory)),
      s.live ≤ max config.maxSize config.minSize ∧ s.out ≤ config.maxSize := by
  intro s hs
  have hbounded : s.Bounded config.maxSize config.minSize :=
    @Run.invariant _ _ (step pf) (Bounded config.maxSize config.minSize) (fun _ _ => True)
      (fun _ e h _ => bounded_step h e) _ events (bounded_start f debugErrors config factory)
      (Run.along_true _ events) s hs
  exact ⟨s.live_le_claims.trans hbounded.claims, s.out_le_permits.trans hbounded.permits⟩

def agreeable : FactoryAnswer Bool := ⟨.ok true, .ok (), true, .ok true⟩

/-- A pool of one resource and two callers: the first one gets the resource, and the second
    one no permit. -/
def twoCallers : List (SharedEvent Bool) :=
  [.acquire, .acquire, .proceed 0 agreeable, .proceed 0 agreeable, .proceed 0 agreeable]

theorem second_caller_waits :
    let config : PoolConfig := ⟨1, 1, 30, true, false⟩
    let s := twoCallers.foldl (step .release)
      (start (prepare PoolSession.flagFactory (fun _ => "") config (some ())))
    s.handles = [true] ∧ s.acquiring = [] ∧ s.live ≤ max 1 1 ∧ s.out ≤ 1 := by
  refine ⟨rfl, rfl, ?_⟩
  exact resources_bounded .release PoolSession.flagFactory (fun _ => "") ⟨1, 1, 30, true, false⟩
    (some ()) twoCallers _ (Run.foldl_mem_scanl _ _)

end SharedPool

end Blixard
